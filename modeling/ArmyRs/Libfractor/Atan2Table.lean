import ArmyRs.Libfractor.RoundedDivision
import ArmyRs.Libfractor.SquareRoots

/-!
# The table of arc tangents

`Atan2Table` is a square table with a row for every ordinate and a column for every
abscissa, both scaled so that the larger of the two falls on the last row or column.  So
only entries of the last row and of the last column are ever read (`tableIndex_eq`), and
what the rest of the table holds is a parameter.
-/

namespace ArmyRs
namespace Libfractor

open Foundation

namespace Atan2Table

def BITS2 : ℕ := 7 <<< 1

def MASK : BitVec 32 := ~~~(-1#32 <<< BITS2)

def COUNT : BitVec 32 := MASK + 1#32

def DIM : ℤ := Fractor.sqrtInt (COUNT.signExtend 64)

theorem DIM_eq : DIM = 128 := by decide +kernel

/-- `table[127 * 128]` up to `table[127 * 128 + 127]` -/
def lastRow : List ℤ :=
  [15708, 15629, 15550, 15472, 15393, 15314, 15236, 15157, 15079, 15000, 14922, 14844, 14766,
    14688, 14610, 14532, 14455, 14377, 14300, 14223, 14146, 14069, 13993, 13916, 13840, 13764,
    13689, 13613, 13538, 13463, 13388, 13314, 13240, 13166, 13092, 13019, 12946, 12873, 12801,
    12729, 12657, 12585, 12514, 12443, 12373, 12303, 12233, 12163, 12094, 12026, 11957, 11889,
    11822, 11754, 11688, 11621, 11555, 11489, 11424, 11359, 11294, 11230, 11166, 11103, 11040,
    10977, 10915, 10853, 10792, 10731, 10670, 10610, 10550, 10491, 10432, 10374, 10315, 10258,
    10200, 10143, 10087, 10030, 9975, 9919, 9864, 9810, 9756, 9702, 9648, 9595, 9543, 9491, 9439,
    9387, 9336, 9286, 9235, 9185, 9136, 9087, 9038, 8989, 8941, 8894, 8846, 8799, 8753, 8707,
    8661, 8615, 8570, 8525, 8481, 8437, 8393, 8349, 8306, 8264, 8221, 8179, 8137, 8096, 8055,
    8014, 7973, 7933, 7894, 7854]

/-- `table[127]`, `table[128 + 127]`, up to `table[127 * 128 + 127]` -/
def lastColumn : List ℤ :=
  [0, 79, 157, 236, 315, 393, 472, 551, 629, 707, 786, 864, 942, 1020, 1098, 1176, 1253, 1331,
    1408, 1485, 1562, 1639, 1715, 1792, 1868, 1944, 2019, 2095, 2170, 2245, 2320, 2394, 2468,
    2542, 2616, 2689, 2762, 2835, 2907, 2979, 3051, 3123, 3194, 3265, 3335, 3405, 3475, 3544,
    3614, 3682, 3751, 3819, 3886, 3954, 4020, 4087, 4153, 4219, 4284, 4349, 4414, 4478, 4542,
    4605, 4668, 4731, 4793, 4855, 4916, 4977, 5037, 5098, 5157, 5217, 5276, 5334, 5393, 5450,
    5508, 5565, 5621, 5677, 5733, 5789, 5844, 5898, 5952, 6006, 6060, 6113, 6165, 6217, 6269,
    6321, 6372, 6422, 6473, 6523, 6572, 6621, 6670, 6719, 6767, 6814, 6862, 6909, 6955, 7001,
    7047, 7093, 7138, 7183, 7227, 7271, 7315, 7359, 7402, 7444, 7487, 7529, 7571, 7612, 7653,
    7694, 7734, 7775, 7814, 7854]

/-- The table, where `rest` is what is read at any other index, in the table or outside. -/
def table (rest : ℤ → ℤ) (i : ℤ) : ℤ :=
  if 16256 ≤ i ∧ i < 16384 then lastRow.getD (i - 16256).toNat 0
  else if 0 ≤ i ∧ i < 16384 ∧ i % 128 = 127 then lastColumn.getD (i / 128).toNat 0
  else rest i

/-- Along the last row the angle is at most a right one, and only the first entry is. -/
theorem lastRow_bounds : ∀ c < 128, 0 < lastRow.getD c 0 ∧ lastRow.getD c 0 ≤ 15708 ∧
    (lastRow.getD c 0 = 15708 ↔ c = 0) := by decide +kernel

/-- Down the last column the angle is acute, and zero in the first entry only. -/
theorem lastColumn_bounds : ∀ r < 128, 0 ≤ lastColumn.getD r 0 ∧ lastColumn.getD r 0 < 15708 ∧
    (lastColumn.getD r 0 = 0 ↔ r = 0) := by decide +kernel

theorem lastColumn_last : lastColumn.getD 127 0 = lastRow.getD 127 0 := by decide +kernel

end Atan2Table

namespace Fractor

open Atan2Table

/-- The cast `(int)x` of a 64-bit integer. -/
def castInt (x : ℤ) : ℤ := (BitVec.ofInt 32 x).toInt

/-- The index that `atan2f` computes, once `x` and `y` are not negative. -/
def tableIndex (y x : ℤ) : Except Fault ℤ := do
  let num3 := DIM - 1
  let b := if y ≤ x then x else y
  let xScaled ← checked (x * num3)
  let num4 ← div64 xScaled b
  let yScaled ← checked (y * num3)
  let num5 ← div64 yScaled b
  let start ← checkedIn 32 (castInt num5 * DIM)
  checkedIn 32 (start + castInt num4)

/-! ## The index -/

variable {a b x y : ℕ}

/-- `a / b` scaled to the side of the table, and rounded. -/
def scaled (a b : ℕ) : ℕ := (127 * a + b / 2) / b

theorem scaled_self (hb : 0 < b) : scaled b b = 127 := by
  rw [scaled, Nat.mul_comm, Nat.mul_add_div hb, Nat.div_eq_of_lt (by omega)]

theorem scaled_le (h : a ≤ b) : scaled a b ≤ 127 := by
  rcases Nat.eq_zero_or_pos b with rfl | hb
  · simp [scaled]
  · rw [← scaled_self hb]
    exact Nat.div_le_div_right (by omega)

/-- A small part of the side is rounded to nothing. -/
theorem scaled_eq_zero_iff (hb : 0 < b) : scaled a b = 0 ↔ 254 * a < b := by
  rw [scaled, Nat.div_eq_zero_iff]
  omega

theorem castInt_of_fits {z : ℤ} (h : FitsInt 32 z) : castInt z = z :=
  BitVec.toInt_ofInt_eq_self (by decide) h.1 h.2

theorem div64_scaled (hb : 0 < b) (hb' : b < 2 ^ 31) (ha : a < 2 ^ 31) :
    div64 ((a : ℤ) * 127) b = .ok (scaled a b) := by
  have hfits : FitsInt 64 ((a : ℤ) * 127) := ⟨by omega, by omega⟩
  have hfits' : FitsInt 64 (b : ℤ) := ⟨by omega, by omega⟩
  have hsigns : ((a : ℤ) * 127 < 0 ↔ (b : ℤ) < 0) := by omega
  have hhalf : (b : ℤ).tdiv 2 = ((b / 2 : ℕ) : ℤ) := rfl
  have hsum : FitsInt 64 (halfSum64 ((a : ℤ) * 127) b) := by
    rw [halfSum64, halfSum, halfSign_eq (by decide) msb_mask64 hfits hfits', if_pos hsigns, hhalf]
    constructor
    · omega
    · omega
  have hsize : ((a : ℤ) * 127).natAbs = 127 * a := by omega
  rw [div64_eq hfits hfits' (by omega) hsum (by omega), nearestQuot, if_pos hsigns, one_mul,
    hsize, Int.natAbs_natCast]
  rfl

/-- The entry that is read: the larger coordinate leads to the last row or column. -/
def entry (y x : ℕ) : ℤ :=
  if y ≤ x then scaled y x * 128 + 127 else 127 * 128 + scaled x y

theorem tableIndex_eq (hpos : 0 < x ∨ 0 < y) (hy : y < 2 ^ 31) (hx : x < 2 ^ 31) :
    tableIndex y x = .ok (entry y x) := by
  have hxfits : FitsInt64 ((x : ℤ) * 127) := ⟨by omega, by omega⟩
  have hyfits : FitsInt64 ((y : ℤ) * 127) := ⟨by omega, by omega⟩
  rw [tableIndex, DIM_eq]
  simp only [show (128 : ℤ) - 1 = 127 from rfl, checked_of_fits hxfits, checked_of_fits hyfits,
    ok_bind]
  by_cases hle : y ≤ x
  · have hx0 : 0 < x := by omega
    have hpart : scaled y x ≤ 127 := scaled_le hle
    rw [if_pos (by exact_mod_cast hle), div64_scaled hx0 hx hx, ok_bind, div64_scaled hx0 hx hy,
      ok_bind, scaled_self hx0, castInt_of_fits ⟨by omega, by omega⟩,
      castInt_of_fits ⟨by omega, by omega⟩, checkedIn_of_fits ⟨by omega, by omega⟩, ok_bind,
      checkedIn_of_fits ⟨by omega, by omega⟩, entry, if_pos hle]
    rfl
  · have hy0 : 0 < y := by omega
    have hpart : scaled x y ≤ 127 := scaled_le (by omega)
    rw [if_neg (by exact_mod_cast hle), div64_scaled hy0 hy hx, ok_bind, div64_scaled hy0 hy hy,
      ok_bind, scaled_self hy0, castInt_of_fits ⟨by omega, by omega⟩,
      castInt_of_fits ⟨by omega, by omega⟩, checkedIn_of_fits ⟨by omega, by omega⟩, ok_bind,
      checkedIn_of_fits ⟨by omega, by omega⟩, entry, if_neg hle]
    rfl

theorem entry_bounds (y x : ℕ) : 0 ≤ entry y x ∧ entry y x < 16384 := by
  rw [entry]
  split
  · next hle =>
    have hpart : scaled y x ≤ 127 := scaled_le hle
    omega
  · next hlt =>
    have hpart : scaled x y ≤ 127 := scaled_le (by omega)
    omega

/-! ## The angle -/

/-- The angle of a point in the first quadrant, in ten thousandths. -/
def angle (y x : ℕ) : ℤ :=
  if y ≤ x then lastColumn.getD (scaled y x) 0 else lastRow.getD (scaled x y) 0

theorem table_entry (rest : ℤ → ℤ) (y x : ℕ) : table rest (entry y x) = angle y x := by
  rw [entry, angle]
  by_cases hle : y ≤ x
  · have hpart : scaled y x ≤ 127 := scaled_le hle
    rw [if_pos hle, if_pos hle, table]
    -- the corner of the table belongs to the last row and to the last column
    by_cases hcorner : scaled y x = 127
    · rw [hcorner, if_pos (by omega), lastColumn_last]
      rfl
    · rw [if_neg (by omega), if_pos (by omega)]
      congr 1
      omega
  · have hpart : scaled x y ≤ 127 := scaled_le (by omega)
    rw [if_neg hle, if_neg hle, table, if_pos (by omega)]
    congr 1
    omega

theorem angle_bounds (y x : ℕ) : 0 ≤ angle y x ∧ angle y x ≤ 15708 := by
  rw [angle]
  split
  · next hle =>
    have hbounds := lastColumn_bounds (scaled y x) (by have := scaled_le hle; omega)
    omega
  · next hlt =>
    have hbounds := lastRow_bounds (scaled x y) (by have := @scaled_le x y (by omega); omega)
    omega

/-- The angle is read as zero when the ordinate is a small part of the abscissa. -/
theorem angle_eq_zero_iff (hpos : 0 < x ∨ 0 < y) : angle y x = 0 ↔ 254 * y < x := by
  rw [angle]
  split
  · next hle =>
    have hpart : scaled y x ≤ 127 := scaled_le hle
    have hbounds := lastColumn_bounds (scaled y x) (by omega)
    rw [hbounds.2.2, scaled_eq_zero_iff (by omega)]
  · next hlt =>
    have hpart : scaled x y ≤ 127 := scaled_le (by omega)
    have hbounds := lastRow_bounds (scaled x y) (by omega)
    omega

/-- The angle is read as a right one when the abscissa is a small part of the ordinate. -/
theorem angle_eq_right_iff (y x : ℕ) : angle y x = 15708 ↔ 254 * x < y := by
  rw [angle]
  split
  · next hle =>
    have hpart : scaled y x ≤ 127 := scaled_le hle
    have hbounds := lastColumn_bounds (scaled y x) (by omega)
    omega
  · next hlt =>
    have hpart : scaled x y ≤ 127 := scaled_le (by omega)
    have hbounds := lastRow_bounds (scaled x y) (by omega)
    rw [hbounds.2.2, scaled_eq_zero_iff (by omega)]

end Fractor
end Libfractor
end ArmyRs
