import Mathlib.Tactic

/-!
# Numbers as bytes

`littleEndian size n` lists the lowest `size` bytes of `n`, the lowest first, and
`ofLittleEndian` reads them back.  What fits into the bytes is read as it was written.
-/

namespace ArmyRs
namespace Foundation

/-- The lowest bytes of a number, the lowest first. -/
def littleEndian : ℕ → ℕ → List UInt8
  | 0, _ => []
  | size + 1, n => UInt8.ofNat n :: littleEndian size (n / 256)

/-- The number that the bytes stand for, the lowest first. -/
def ofLittleEndian : List UInt8 → ℕ
  | [] => 0
  | byte :: bytes => byte.toNat + 256 * ofLittleEndian bytes

@[simp] theorem length_littleEndian (size n : ℕ) : (littleEndian size n).length = size := by
  induction size generalizing n with
  | zero => rfl
  | succ size ih => simp [littleEndian, ih]

theorem ofLittleEndian_littleEndian (size n : ℕ) :
    ofLittleEndian (littleEndian size n) = n % 256 ^ size := by
  induction size generalizing n with
  | zero => simp [littleEndian, ofLittleEndian, Nat.mod_one]
  | succ size ih =>
      have hbyte : (UInt8.ofNat n).toNat = n % 256 := by simp
      rw [littleEndian, ofLittleEndian, ih, hbyte, pow_succ', Nat.mod_mul]

/-- What fits is read as it was written. -/
theorem ofLittleEndian_of_lt {size n : ℕ} (h : n < 256 ^ size) :
    ofLittleEndian (littleEndian size n) = n := by
  rw [ofLittleEndian_littleEndian, Nat.mod_eq_of_lt h]

end Foundation
end ArmyRs
