import ArmyRs.Foundation.DigitSquareRoot

/-!
# Integer square roots

`sqrt32` and `sqrt64` take two bits of their argument in every round, from the top.  `num`
holds what is left of the bits taken, and `num2` is twice the root of them.

`exact_rounds` says that no round loses a bit of either, and `sqrtRounds_rootOf` that the
rounds compute the root of the digits taken.
-/

namespace ArmyRs
namespace Libfractor

open Foundation

/-- The variables of the loop. -/
structure SqrtState (w : ℕ) where
  a : BitVec w
  num : BitVec w
  num2 : BitVec w
  deriving DecidableEq, Repr

namespace SqrtState

variable {w : ℕ}

/-- `num2 <<= 1` -/
def doubled (s : SqrtState w) : BitVec w := s.num2 <<< (1 : ℕ)

/-- `num <<= 2`, and the two upper bits of `a` added. -/
def remainder (s : SqrtState w) : BitVec w := s.num <<< (2 : ℕ) + s.a >>> (w - 2)

def round (s : SqrtState w) : SqrtState w :=
  if s.doubled < s.remainder then
    ⟨s.a <<< (2 : ℕ), s.remainder - (s.doubled + 1#w), s.doubled + 1#w + 1#w⟩
  else ⟨s.a <<< (2 : ℕ), s.remainder, s.doubled⟩

/-- Every operation of a round on `num` and `num2` has the value it has on the naturals. -/
structure Exact (s : SqrtState w) : Prop where
  shift : (s.num <<< (2 : ℕ)).toNat = 4 * s.num.toNat
  sum : s.remainder.toNat = (s.num <<< (2 : ℕ)).toNat + (s.a >>> (w - 2)).toNat
  double : s.doubled.toNat = 2 * s.num2.toNat
  increment : (s.doubled + 1#w).toNat = s.doubled.toNat + 1
  difference : s.doubled < s.remainder → s.doubled + 1#w ≤ s.remainder
  increment_again : (s.doubled + 1#w + 1#w).toNat = s.doubled.toNat + 2

/-- The rest and the root as natural numbers. -/
def rootAndRest (s : SqrtState w) : RootAndRest := ⟨s.num.toNat, s.num2.toNat⟩

end SqrtState

/-- The state after `k` rounds. -/
def sqrtRounds {w : ℕ} (a : BitVec w) : ℕ → SqrtState w
  | 0 => ⟨a, 0#w, 0#w⟩
  | k + 1 => (sqrtRounds a k).round

namespace Fractor

def sqrt32 (a : BitVec 32) : BitVec 32 := (sqrtRounds a 16).num2 >>> (1 : ℕ) &&& 0xffff#32

def sqrt64 (a : BitVec 64) : BitVec 64 := (sqrtRounds a 32).num2 >>> (1 : ℕ) &&& 0xffffffff#64

/-- The result is an `int`: the low 32 bits of the root. -/
def sqrtInt (a : BitVec 64) : ℤ :=
  if a ≤ 0#64 then 0
  else if a ≤ 0xffff#64 then (sqrt32 (a.setWidth 32)).toInt
  else ((sqrt64 a).setWidth 32).toInt

/-- The result is an `int64_t`. -/
def sqrtLong (a : BitVec 64) : ℤ :=
  if a ≤ 0#64 then 0
  else if a ≤ 0xffff#64 then ((sqrt32 (a.setWidth 32)).setWidth 64).toInt
  else (sqrt64 a).toInt

end Fractor

/-! ## One round -/

namespace SqrtState

variable {w : ℕ} {s : SqrtState w}

/-- The two upper bits. -/
theorem toNat_top_lt (hw : 2 ≤ w) (x : BitVec w) : (x >>> (w - 2)).toNat < 4 := by
  have hsplit : 2 ^ w = 4 * 2 ^ (w - 2) := by
    rw [← Nat.sub_add_cancel hw, pow_add, Nat.mul_comm]
    rfl
  rw [BitVec.toNat_ushiftRight, Nat.shiftRight_eq_div_pow, Nat.div_lt_iff_lt_mul (by positivity),
    ← hsplit]
  exact x.isLt

theorem toNat_shiftLeft_of_lt {x : BitVec w} {k : ℕ} (h : 2 ^ k * x.toNat < 2 ^ w) :
    (x <<< k).toNat = 2 ^ k * x.toNat := by
  rw [BitVec.toNat_shiftLeft, Nat.shiftLeft_eq, Nat.mul_comm, Nat.mod_eq_of_lt h]

theorem toNat_add_one_of_lt {x : BitVec w} (h : x.toNat + 1 < 2 ^ w) :
    (x + 1#w).toNat = x.toNat + 1 := by
  have hone : 1 < 2 ^ w := by omega
  rw [BitVec.toNat_add, BitVec.toNat_ofNat, Nat.mod_eq_of_lt hone, Nat.mod_eq_of_lt h]

/-- A small rest and a small root leave room for the operations of a round. -/
theorem exact_of_lt (hw : 2 ≤ w) (hnum : 4 * s.num.toNat + 3 < 2 ^ w)
    (hnum2 : 2 * s.num2.toNat + 2 < 2 ^ w) : s.Exact := by
  have htop := toNat_top_lt hw s.a
  have hshift : (s.num <<< (2 : ℕ)).toNat = 4 * s.num.toNat :=
    toNat_shiftLeft_of_lt (by omega)
  have hdouble : s.doubled.toNat = 2 * s.num2.toNat := by
    rw [doubled, toNat_shiftLeft_of_lt (by omega), pow_one]
  have hincrement : (s.doubled + 1#w).toNat = s.doubled.toNat + 1 :=
    toNat_add_one_of_lt (by omega)
  constructor
  case shift => exact hshift
  case sum =>
    rw [remainder, BitVec.toNat_add, Nat.mod_eq_of_lt]
    omega
  case double => exact hdouble
  case increment => exact hincrement
  case difference =>
    intro hlt
    rw [BitVec.le_def, hincrement]
    exact hlt
  case increment_again =>
    rw [toNat_add_one_of_lt (by omega), hincrement]

/-- A round without loss is a round on the natural numbers. -/
theorem Exact.rootAndRest_round (h : s.Exact) :
    s.round.rootAndRest = s.rootAndRest.next (s.a >>> (w - 2)).toNat := by
  have hremainder : s.remainder.toNat = 4 * s.num.toNat + (s.a >>> (w - 2)).toNat := by
    rw [h.sum, h.shift]
  by_cases hlt : s.doubled < s.remainder
  · have hlt' : 2 * s.rootAndRest.twice <
        4 * s.rootAndRest.rest + (s.a >>> (w - 2)).toNat := by
      change 2 * s.num2.toNat < 4 * s.num.toNat + _
      rw [← h.double, ← hremainder]
      exact hlt
    have hdiff : (s.remainder - (s.doubled + 1#w)).toNat =
        s.remainder.toNat - (s.doubled.toNat + 1) := by
      rw [BitVec.toNat_sub_of_le (h.difference hlt), h.increment]
    rw [round, RootAndRest.next, if_pos hlt, if_pos hlt', rootAndRest, hdiff, h.increment_again,
      hremainder, h.double]
    rfl
  · have hlt' : ¬ 2 * s.rootAndRest.twice <
        4 * s.rootAndRest.rest + (s.a >>> (w - 2)).toNat := by
      change ¬ 2 * s.num2.toNat < 4 * s.num.toNat + _
      rw [← h.double, ← hremainder]
      exact hlt
    rw [round, RootAndRest.next, if_neg hlt, if_neg hlt', rootAndRest, hremainder, h.double]
    rfl

theorem a_round : s.round.a = s.a <<< (2 : ℕ) := by
  rw [round]
  split <;> rfl

end SqrtState

/-! ## The rounds -/

section

variable {w h : ℕ} {n : BitVec w}

theorem toNat_a_sqrtRounds (n : BitVec w) (k : ℕ) :
    (sqrtRounds n k).a.toNat = n.toNat * 4 ^ k % 2 ^ w := by
  induction k with
  | zero => simp [sqrtRounds]
  | succ k ih =>
    have hpow : 4 ^ (k + 1) = 4 ^ k * 2 ^ 2 := by ring
    rw [sqrtRounds, SqrtState.a_round, BitVec.toNat_shiftLeft, ih, Nat.shiftLeft_eq,
      Nat.mod_mul_mod, hpow, Nat.mul_assoc]

theorem two_pow_eq (hw : w = 2 * h) : 2 ^ w = 4 ^ h := by
  rw [hw, pow_mul]
  rfl

/-- The first `k` digits make a number whose root has `k` bits. -/
theorem sqrt_leading_lt (hw : w = 2 * h) (n : BitVec w) {k : ℕ} (hk : k ≤ h) :
    Nat.sqrt (n.toNat / 4 ^ (h - k)) < 2 ^ k := by
  apply RootAndRest.sqrt_lt_two_pow
  apply Nat.div_lt_of_lt_mul
  rw [← pow_add, Nat.sub_add_cancel hk, ← two_pow_eq hw]
  exact n.isLt

/-- As long as there is a digit to take, the root leaves room for a round. -/
theorem exact_of_rootOf (hw : w = 2 * h) (hh : 2 ≤ h) {s : SqrtState w} {k : ℕ} (hk : k < h)
    (hs : s.rootAndRest.RootOf (n.toNat / 4 ^ (h - k))) : s.Exact := by
  have hroot : Nat.sqrt (n.toNat / 4 ^ (h - k)) < 2 ^ k := sqrt_leading_lt hw n hk.le
  have hbits : 2 ^ k * 8 ≤ 2 ^ w := by
    have hpow : 2 ^ k * 2 ^ 3 = 2 ^ (k + 3) := by rw [pow_add]
    calc 2 ^ k * 8 = 2 ^ (k + 3) := hpow
      _ ≤ 2 ^ w := Nat.pow_le_pow_right (by decide) (by omega)
  have htwice : s.num2.toNat = 2 * Nat.sqrt (n.toNat / 4 ^ (h - k)) := hs.twice_eq
  have hrest : s.num.toNat ≤ 2 * Nat.sqrt (n.toNat / 4 ^ (h - k)) := hs.rest_le
  apply SqrtState.exact_of_lt
  · omega
  · omega
  · omega

/-- The digits taken in the first `k` of `h` rounds make the number `n / 4 ^ (h - k)`, and
the loop holds its root. -/
theorem sqrtRounds_rootOf (hw : w = 2 * h) (hh : 2 ≤ h) (n : BitVec w) {k : ℕ} (hk : k ≤ h) :
    (sqrtRounds n k).rootAndRest.RootOf (n.toNat / 4 ^ (h - k)) := by
  induction k with
  | zero =>
    have hnone : n.toNat / 4 ^ h = 0 := by
      rw [← two_pow_eq hw]
      exact Nat.div_eq_of_lt n.isLt
    rw [Nat.sub_zero, hnone]
    exact RootAndRest.rootOf_zero
  | succ k ih =>
    obtain ⟨j, rfl⟩ : ∃ j, h = k + j + 1 := ⟨h - k - 1, by omega⟩
    have hroot := ih (by omega)
    have hexact := exact_of_rootOf hw hh (by omega) hroot
    -- the digit taken in this round is the leading one of `a`
    have hdigit : ((sqrtRounds n k).a >>> (w - 2)).toNat = n.toNat / 4 ^ j % 4 := by
      have hw2 : w - 2 = 2 * (k + j) := by omega
      have hfour : (2 : ℕ) ^ (2 * (k + j)) = 4 ^ (k + j) := pow_mul 2 2 (k + j)
      rw [BitVec.toNat_ushiftRight, toNat_a_sqrtRounds, Nat.shiftRight_eq_div_pow, hw2, hfour,
        two_pow_eq hw, RootAndRest.leading_digit]
    have hleft : k + j + 1 - k = j + 1 := by omega
    have hleft' : k + j + 1 - (k + 1) = j := by omega
    rw [hleft] at hroot
    have hnext := hroot.next (Nat.mod_lt (n.toNat / 4 ^ j) (by decide : 0 < 4))
    rw [← RootAndRest.div_four_pow_eq n.toNat j] at hnext
    rw [sqrtRounds, hexact.rootAndRest_round, hdigit, hleft']
    exact hnext

theorem exact_rounds (hw : w = 2 * h) (hh : 2 ≤ h) (n : BitVec w) {k : ℕ} (hk : k < h) :
    (sqrtRounds n k).Exact :=
  exact_of_rootOf hw hh hk (sqrtRounds_rootOf hw hh n hk.le)

/-- After all rounds, half of `num2` is the root, and the mask leaves it as it is. -/
theorem toNat_half_num2 (hw : w = 2 * h) (hh : 2 ≤ h) (n mask : BitVec w)
    (hmask : mask.toNat = 2 ^ h - 1) :
    ((sqrtRounds n h).num2 >>> (1 : ℕ) &&& mask).toNat = Nat.sqrt n.toNat := by
  have hroot := sqrtRounds_rootOf hw hh n le_rfl
  rw [Nat.sub_self, pow_zero, Nat.div_one] at hroot
  have htwice : (sqrtRounds n h).num2.toNat = 2 * Nat.sqrt n.toNat := hroot.twice_eq
  have hlt := sqrt_leading_lt hw n le_rfl
  rw [Nat.sub_self, pow_zero, Nat.div_one] at hlt
  rw [BitVec.toNat_and, BitVec.toNat_ushiftRight, hmask, Nat.and_two_pow_sub_one_eq_mod, htwice,
    Nat.shiftRight_one, Nat.mul_div_cancel_left _ (by decide), Nat.mod_eq_of_lt hlt]

end

/-! ## The square roots of the library -/

namespace Fractor

theorem toNat_sqrt32 (n : BitVec 32) : (sqrt32 n).toNat = Nat.sqrt n.toNat := by
  rw [sqrt32]
  exact toNat_half_num2 (h := 16) (by decide) (by decide) n 0xffff#32 (by decide)

theorem toNat_sqrt64 (n : BitVec 64) : (sqrt64 n).toNat = Nat.sqrt n.toNat := by
  rw [sqrt64]
  exact toNat_half_num2 (h := 32) (by decide) (by decide) n 0xffffffff#64 (by decide)

/-- A small argument loses nothing when it is cut to 32 bits. -/
theorem toNat_sqrt32_setWidth {n : BitVec 64} (hn : n ≤ 0xffff#64) :
    (sqrt32 (n.setWidth 32)).toNat = Nat.sqrt n.toNat := by
  have hsmall : n.toNat ≤ 65535 := hn
  rw [toNat_sqrt32, BitVec.toNat_setWidth, Nat.mod_eq_of_lt (by omega)]

theorem sqrt_lt (n : BitVec 64) : Nat.sqrt n.toNat < 2 ^ 32 :=
  RootAndRest.sqrt_lt_two_pow n.isLt

theorem toNat_eq_zero_of_le {n : BitVec 64} (hn : n ≤ 0#64) : n.toNat = 0 := by
  have hzero : n.toNat ≤ 0 := hn
  omega

theorem sqrtLong_eq (n : BitVec 64) : sqrtLong n = Nat.sqrt n.toNat := by
  have hlt := sqrt_lt n
  rw [sqrtLong]
  split
  · next hzero => rw [toNat_eq_zero_of_le hzero, Nat.sqrt_zero, Nat.cast_zero]
  · split
    · next hsmall =>
      have hvalue : ((sqrt32 (n.setWidth 32)).setWidth 64).toNat = Nat.sqrt n.toNat := by
        rw [BitVec.toNat_setWidth, toNat_sqrt32_setWidth hsmall, Nat.mod_eq_of_lt (by omega)]
      rw [BitVec.toInt_eq_toNat_of_lt (by omega), hvalue]
    · rw [BitVec.toInt_eq_toNat_of_lt (by rw [toNat_sqrt64]; omega), toNat_sqrt64]

/-- The three square roots are the integer parts of the real ones for every argument, and no
round of a loop overflows. -/
theorem sqrt_eq_floor :
    (∀ n : BitVec 32, (sqrt32 n).toNat = Nat.sqrt n.toNat ∧
      ∀ k < 16, (sqrtRounds n k).Exact) ∧
    (∀ n : BitVec 64, (sqrt64 n).toNat = Nat.sqrt n.toNat ∧
      ∀ k < 32, (sqrtRounds n k).Exact) ∧
    (∀ n : BitVec 64, sqrtLong n = Nat.sqrt n.toNat) := by
  refine ⟨fun n => ⟨toNat_sqrt32 n, fun k hk => ?_⟩, fun n => ⟨toNat_sqrt64 n, fun k hk => ?_⟩,
    sqrtLong_eq⟩
  · exact exact_rounds (h := 16) (by decide) (by decide) n hk
  · exact exact_rounds (h := 32) (by decide) (by decide) n hk

example : sqrtLong 18446744073709551615#64 = 4294967295 := by decide +kernel

/-- As an `int`, the root comes out right up to where it has its 32nd bit set. -/
theorem sqrtInt_eq_iff (n : BitVec 64) :
    sqrtInt n = Nat.sqrt n.toNat ↔ n.toNat < 2 ^ 62 := by
  have hlt := sqrt_lt n
  have hhalf : Nat.sqrt n.toNat < 2 ^ 31 ↔ n.toNat < 2 ^ 62 := Nat.sqrt_lt'
  rw [sqrtInt]
  split
  · next hzero =>
    have hn := toNat_eq_zero_of_le hzero
    simp [hn]
  · split
    · next hsmall =>
      have hn : n.toNat ≤ 65535 := hsmall
      have hvalue := toNat_sqrt32_setWidth hsmall
      rw [BitVec.toInt_eq_toNat_of_lt (by omega), hvalue]
      omega
    · have hvalue : ((sqrt64 n).setWidth 32).toNat = Nat.sqrt n.toNat := by
        rw [BitVec.toNat_setWidth, toNat_sqrt64, Nat.mod_eq_of_lt hlt]
      -- the upper half of the roots is read as negative numbers
      rw [BitVec.toInt_eq_toNat_cond, hvalue]
      split
      · omega
      · omega

end Fractor

end Libfractor
end ArmyRs
