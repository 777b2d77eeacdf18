import ArmyRs.Libfractor.Atan2Table
import ArmyRs.Libfractor.MirrorSymmetry

/-!
# `atan2f`

The point of two fractions is multiplied by both denominators, reduced, and cut to two
`int`s.  The coordinates are made positive, the table gives the angle of the point in the
first quadrant, and the signs of the coordinates say how the angle is unfolded.

The angle lies in the quadrant of the point, and changes its sign with the ordinate, when
the two `int`s still have the signs of the coordinates (`atan2f_correct_iff`).  Neither
holds on the axis of the ordinates, nor on the left half of the other one: there `atan2f`
looks at no sign.
-/

namespace ArmyRs
namespace Libfractor
namespace Fractor

open Foundation Atan2Table

def pi : Fractor := ⟨31416, 10000⟩

def half_pi : Fractor := ⟨15708, 10000⟩

/-- The positive coordinates, and `num` and `num2`, which unfold the angle again. -/
structure Folded where
  y : ℤ
  x : ℤ
  num : ℤ
  num2 : ℤ
  deriving DecidableEq, Repr

def fold (y x : ℤ) : Except Fault Folded :=
  if x < 0 then
    if y < 0 then do
      let x' ← checkedIn 32 (-x)
      let y' ← checkedIn 32 (-y)
      .ok ⟨y', x', 1, -31416⟩
    else do
      let x' ← checkedIn 32 (-x)
      .ok ⟨y, x', -1, -31416⟩
  else
    if y < 0 then do
      let y' ← checkedIn 32 (-y)
      .ok ⟨y', x, -1, 0⟩
    else .ok ⟨y, x, 1, 0⟩

/-- `atan2f(int y, int x)` -/
def atan2fInt (rest : ℤ → ℤ) (y x : ℤ) : Except Fault Fractor := do
  let folded ← fold y x
  let i ← tableIndex folded.y folded.x
  let sum ← checkedIn 32 (table rest i + folded.num2)
  let nom ← checkedIn 32 (sum * folded.num)
  .ok ⟨nom, 10000⟩

/-- The arguments `_y` and `_x` that `atan2f` passes on. -/
def atan2fArgs (y x : Fractor) : Except Fault (ℤ × ℤ) := do
  let nom ← checked (y.nom * x.den)
  let den ← checked (x.nom * y.den)
  if den = 0 then .ok (1, 0)
  else if nom = 0 then .ok (0, 1)
  else do
    let unom ← llabs nom
    let uden ← llabs den
    let g ← gcb unom uden
    let yReduced ← checkedQuot nom g
    let xReduced ← checkedQuot den g
    .ok (castInt yReduced, castInt xReduced)

def atan2f (rest : ℤ → ℤ) (y x : Fractor) : Except Fault Fractor := do
  let args ← atan2fArgs y x
  atan2fInt rest args.1 args.2

/-- The index that a call of `atan2f` reads from the table. -/
def atan2fIndex (y x : Fractor) : Except Fault ℤ := do
  let args ← atan2fArgs y x
  let folded ← fold args.1 args.2
  tableIndex folded.y folded.x

/-! ## The angle of two integers -/

/-- The angle from the coordinates with their signs. -/
def unfoldedAngle (y x : ℤ) : ℤ :=
  if x < 0 then
    if y < 0 then angle y.natAbs x.natAbs - 31416 else 31416 - angle y.natAbs x.natAbs
  else
    if y < 0 then -angle y.natAbs x.natAbs else angle y.natAbs x.natAbs

section

variable {y x : ℤ}

theorem fold_eq (hy : y.natAbs < 2 ^ 31) (hx : x.natAbs < 2 ^ 31) :
    ∃ num num2, fold y x = .ok ⟨y.natAbs, x.natAbs, num, num2⟩ ∧
      (angle y.natAbs x.natAbs + num2) * num = unfoldedAngle y x ∧
      (num2 = 0 ∨ num2 = -31416) := by
  have hfitsy : FitsInt 32 (-y) := ⟨by omega, by omega⟩
  have hfitsx : FitsInt 32 (-x) := ⟨by omega, by omega⟩
  rw [fold, unfoldedAngle]
  by_cases hnx : x < 0
  · have hxabs : -x = x.natAbs := by omega
    by_cases hny : y < 0
    · have hyabs : -y = y.natAbs := by omega
      rw [if_pos hnx, if_pos hny, if_pos hnx, if_pos hny, checkedIn_of_fits hfitsx, ok_bind,
        checkedIn_of_fits hfitsy, ok_bind, hxabs, hyabs]
      exact ⟨1, -31416, rfl, by ring, .inr rfl⟩
    · have hyabs : y.natAbs = y := by omega
      rw [if_pos hnx, if_neg hny, if_pos hnx, if_neg hny, checkedIn_of_fits hfitsx, ok_bind,
        hxabs, hyabs]
      exact ⟨-1, -31416, rfl, by ring, .inr rfl⟩
  · have hxabs : x.natAbs = x := by omega
    by_cases hny : y < 0
    · have hyabs : -y = y.natAbs := by omega
      rw [if_neg hnx, if_pos hny, if_neg hnx, if_pos hny, checkedIn_of_fits hfitsy, ok_bind,
        hxabs, hyabs]
      exact ⟨-1, 0, rfl, by ring, .inl rfl⟩
    · have hyabs : y.natAbs = y := by omega
      rw [if_neg hnx, if_neg hny, if_neg hnx, if_neg hny, hxabs, hyabs]
      exact ⟨1, 0, rfl, by ring, .inl rfl⟩

/-- The least integer cannot be made positive. -/
theorem fold_overflow (hx : FitsInt 32 x) (h : y = -2 ^ 31 ∨ x = -2 ^ 31) :
    fold y x = .error .overflow := by
  have hleast : checkedIn 32 (-(-2 ^ 31)) = .error .overflow := by decide
  by_cases hleastx : x = -2 ^ 31
  · subst hleastx
    rw [fold, if_pos (by decide), hleast]
    split
    · rfl
    · rfl
  · obtain rfl : y = -2 ^ 31 := by tauto
    by_cases hnx : x < 0
    · have hlow := hx.1
      have hfits : FitsInt 32 (-x) := ⟨by omega, by omega⟩
      rw [fold, if_pos hnx, if_pos (by decide), checkedIn_of_fits hfits, ok_bind, hleast]
      rfl
    · rw [fold, if_neg hnx, if_pos (by decide), hleast]
      rfl

theorem atan2fInt_eq (rest : ℤ → ℤ) (hne : y ≠ 0 ∨ x ≠ 0) (hy : y.natAbs < 2 ^ 31)
    (hx : x.natAbs < 2 ^ 31) : atan2fInt rest y x = .ok ⟨unfoldedAngle y x, 10000⟩ := by
  obtain ⟨num, num2, hfold, hangle, hnum2⟩ := fold_eq hy hx
  have hbounds := angle_bounds y.natAbs x.natAbs
  have hsum : FitsInt 32 (angle y.natAbs x.natAbs + num2) := ⟨by omega, by omega⟩
  have hresult : FitsInt 32 (unfoldedAngle y x) := by
    rw [unfoldedAngle]
    constructor
    · split_ifs <;> omega
    · split_ifs <;> omega
  rw [atan2fInt, hfold, ok_bind]
  simp only []
  rw [tableIndex_eq (by omega) hy hx, ok_bind, table_entry, checkedIn_of_fits hsum, ok_bind,
    hangle, checkedIn_of_fits hresult, ok_bind]

theorem unfoldedAngle_zero_right : unfoldedAngle 1 0 = 15708 := by decide +kernel

theorem unfoldedAngle_zero_left : unfoldedAngle 0 1 = 0 := by decide +kernel

/-- The angle changes its sign with the ordinate, except on the left half of the axis. -/
theorem unfoldedAngle_neg_iff (hne : y ≠ 0 ∨ x ≠ 0) :
    unfoldedAngle (-y) x = -unfoldedAngle y x ↔ ¬ (y = 0 ∧ x < 0) := by
  have hzero := @angle_eq_zero_iff x.natAbs y.natAbs (by omega)
  have hbounds := angle_bounds y.natAbs x.natAbs
  rw [unfoldedAngle, unfoldedAngle, Int.natAbs_neg]
  split_ifs <;> omega

end

/-! ## The arguments -/

/-- The point, as the quotient of its coordinates, both multiplied by the denominators. -/
def ratio (y x : Fractor) : Fractor := ⟨y.nom * x.den, x.nom * y.den⟩

/-- The ordinate in its lowest terms, as an `int`. -/
def ordinate (y x : Fractor) : ℤ := castInt (ratio y x).reduced.nom

def abscissa (y x : Fractor) : ℤ := castInt (ratio y x).reduced.den

section

variable {y x : Fractor}

theorem atan2fArgs_eq (hnom : FitsInt64 (ratio y x).nom) (hden : FitsInt64 (ratio y x).den) :
    atan2fArgs y x =
      if (ratio y x).den = 0 then .ok (1, 0)
      else if (ratio y x).nom = 0 then .ok (0, 1)
      else if (ratio y x).nom = -2 ^ 63 ∨ (ratio y x).den = -2 ^ 63 then .error .overflow
      else .ok (ordinate y x, abscissa y x) := by
  have hnomLow := hnom.1
  have hdenLow := hden.1
  unfold atan2fArgs
  rw [show y.nom * x.den = (ratio y x).nom from rfl, show x.nom * y.den = (ratio y x).den from rfl,
    checked_of_fits hnom, ok_bind, checked_of_fits hden, ok_bind, ordinate, abscissa]
  generalize ratio y x = f at *
  by_cases hden0 : f.den = 0
  · rw [if_pos hden0, if_pos hden0]
  rw [if_neg hden0, if_neg hden0]
  by_cases hnom0 : f.nom = 0
  · rw [if_pos hnom0, if_pos hnom0]
  rw [if_neg hnom0, if_neg hnom0, llabs_eq, llabs_eq]
  by_cases hleastNom : f.nom = -2 ^ 63
  · rw [if_pos hleastNom.le, error_bind, if_pos (.inl hleastNom)]
  by_cases hleastDen : f.den = -2 ^ 63
  · rw [if_neg (by omega), ok_bind, if_pos hleastDen.le, error_bind, if_pos (.inr hleastDen)]
  have hg : Nat.gcd f.nom.natAbs f.den.natAbs ≠ 0 := by
    rw [Ne, Nat.gcd_eq_zero_iff]
    omega
  have hquot : ∀ z : ℤ, (Int.gcd f.nom f.den : ℤ) ∣ z →
      z.tdiv (Nat.gcd f.nom.natAbs f.den.natAbs) = z / Int.gcd f.nom f.den :=
    fun z hz => Int.tdiv_eq_ediv_of_dvd hz
  rw [if_neg (by omega), ok_bind, if_neg (by omega), ok_bind, gcb_eq (by omega), if_neg (by omega),
    ok_bind, checkedQuot_of_ne hg, ok_bind, checkedQuot_of_ne hg, ok_bind,
    hquot _ (Int.gcd_dvd_left ..), hquot _ (Int.gcd_dvd_right ..), if_neg (by tauto)]
  rfl

/-! ## The cast to `int` -/

theorem castInt_fits (z : ℤ) : FitsInt 32 (castInt z) :=
  ⟨BitVec.le_toInt _, BitVec.toInt_lt⟩

theorem castInt_eq (z : ℤ) :
    castInt z = if z % 2 ^ 32 < 2 ^ 31 then z % 2 ^ 32 else z % 2 ^ 32 - 2 ^ 32 := by
  rw [castInt, BitVec.toInt_ofInt, Int.bmod_def]
  rfl

theorem castInt_eq_zero_iff (z : ℤ) : castInt z = 0 ↔ (2 : ℤ) ^ 32 ∣ z := by
  rw [castInt_eq]
  split_ifs <;> omega

theorem castInt_neg {z : ℤ} (h : castInt z ≠ -2 ^ 31) : castInt (-z) = -castInt z := by
  rw [castInt_eq] at *
  rw [castInt_eq]
  split_ifs at * <;> omega

/-- The lowest terms have no common factor, so not both of them are cut to nothing. -/
theorem ordinate_ne_or_abscissa_ne (hden : (ratio y x).den ≠ 0) :
    ordinate y x ≠ 0 ∨ abscissa y x ≠ 0 := by
  by_contra hboth
  obtain ⟨hy, hx⟩ := not_or.mp hboth
  -- both lowest terms would be divisible by `2 ^ 32`
  have hdvdNom := (castInt_eq_zero_iff _).mp (not_not.mp hy)
  have hdvdDen := (castInt_eq_zero_iff _).mp (not_not.mp hx)
  have hcoprime : Int.gcd (ratio y x).reduced.nom (ratio y x).reduced.den = 1 :=
    Int.gcd_div_gcd_div_gcd (Int.gcd_pos_of_ne_zero_right _ hden)
  have hdvd : (2 : ℤ) ^ 32 ∣ Int.gcd (ratio y x).reduced.nom (ratio y x).reduced.den :=
    Int.dvd_coe_gcd hdvdNom hdvdDen
  rw [hcoprime] at hdvd
  exact absurd (Int.eq_one_of_dvd_one (by norm_num) hdvd) (by norm_num)

theorem ratio_mirror (y x : Fractor) : ratio y.mirror x = (ratio y x).mirror := by
  rw [ratio, ratio, mirror, mirror, neg_mul]

theorem abscissa_mirror (y x : Fractor) : abscissa y.mirror x = abscissa y x := by
  rw [abscissa, ratio_mirror, reduced_mirror]
  rfl

theorem ordinate_mirror (h : ordinate y x ≠ -2 ^ 31) : ordinate y.mirror x = -ordinate y x := by
  rw [ordinate, ratio_mirror, reduced_mirror]
  exact castInt_neg h

end

/-! ## What a result is compared with -/

/-- The angle lies in the closed quadrant of the point, and on the axis of a point that lies
on one. -/
structure InQuadrant (x y angle : ℚ) : Prop where
  turn : |angle| ≤ pi.value
  above : 0 < y → 0 ≤ angle
  below : y < 0 → angle ≤ 0
  right : 0 < x → |angle| ≤ half_pi.value
  left : x < 0 → half_pi.value ≤ |angle|
  right_axis : y = 0 → 0 < x → angle = 0
  left_axis : y = 0 → x < 0 → |angle| = pi.value
  vertical_axis : x = 0 → y ≠ 0 → |angle| = half_pi.value

/-- The index lies in the table, the result changes its sign with `y`, and it lies in the
quadrant of the point. -/
structure CorrectAt (rest : ℤ → ℤ) (y x : Fractor) : Prop where
  index : ∃ i, atan2fIndex y x = .ok i ∧ 0 ≤ i ∧ i < 16384
  odd : ∃ r r', atan2f rest y x = .ok r ∧
    (y.neg >>= fun y' => atan2f rest y' x) = .ok r' ∧ r.neg = .ok r'
  quadrant : ∃ r, atan2f rest y x = .ok r ∧ InQuadrant x.value y.value r.value

section

variable {x y : ℚ} {r : ℤ}

theorem value_tenThousandths (r : ℤ) : value ⟨r, 10000⟩ = r / 10000 := by
  rw [value]
  norm_num

/-- Off the axes, the quadrant of an angle is a matter of two signs and two bounds. -/
theorem inQuadrant_iff (hx : x ≠ 0) (hy : y ≠ 0) :
    InQuadrant x y (value ⟨r, 10000⟩) ↔
      |r| ≤ 31416 ∧ (0 < y → 0 ≤ r) ∧ (y < 0 → r ≤ 0) ∧ (0 < x → |r| ≤ 15708) ∧
        (x < 0 → 15708 ≤ |r|) := by
  have hpi : pi.value = ((31416 : ℤ) : ℚ) / 10000 := by norm_num [pi, value]
  have hhalf : half_pi.value = ((15708 : ℤ) : ℚ) / 10000 := by norm_num [half_pi, value]
  have hscale : ∀ a b : ℤ, (a : ℚ) / 10000 ≤ (b : ℚ) / 10000 ↔ a ≤ b := by
    intro a b
    rw [div_le_div_iff_of_pos_right (by norm_num), Int.cast_le]
  have habs : |(r : ℚ) / 10000| = ((|r| : ℤ) : ℚ) / 10000 := by
    rw [abs_div, Int.cast_abs, abs_of_pos (by norm_num : (0 : ℚ) < 10000)]
  have hnonneg : 0 ≤ (r : ℚ) / 10000 ↔ 0 ≤ r := by simpa using hscale 0 r
  have hnonpos : (r : ℚ) / 10000 ≤ 0 ↔ r ≤ 0 := by simpa using hscale r 0
  rw [value_tenThousandths]
  constructor
  · intro h
    obtain ⟨hturn, habove, hbelow, hright, hleft, -, -, -⟩ := h
    rw [habs, hpi, hscale] at hturn
    rw [habs, hhalf, hscale] at hright hleft
    rw [hnonneg] at habove
    rw [hnonpos] at hbelow
    exact ⟨hturn, habove, hbelow, hright, hleft⟩
  · rintro ⟨hturn, habove, hbelow, hright, hleft⟩
    refine ⟨?_, ?_, ?_, ?_, ?_, fun h => absurd h hy, fun h => absurd h hy,
      fun h => absurd h hx⟩
    · rwa [habs, hpi, hscale]
    · rwa [hnonneg]
    · rwa [hnonpos]
    · rwa [habs, hhalf, hscale]
    · rwa [habs, hhalf, hscale]

/-- On the axis of the abscissas, the angle zero belongs to the right half. -/
theorem inQuadrant_zero_iff (hx : x ≠ 0) : InQuadrant x 0 (value ⟨0, 10000⟩) ↔ 0 < x := by
  rw [value_tenThousandths, Int.cast_zero, zero_div]
  constructor
  · intro h
    rcases lt_or_gt_of_ne hx with hneg | hpos
    · have hleft := h.left hneg
      rw [abs_zero] at hleft
      norm_num [half_pi, value] at hleft
    · exact hpos
  · intro hpos
    refine ⟨?_, fun _ => le_rfl, fun _ => le_rfl, fun _ => ?_, fun h => absurd h hpos.not_gt,
      fun _ _ => rfl, fun _ h => absurd h hpos.not_gt, fun _ h => absurd rfl h⟩
    · norm_num [pi, value]
    · norm_num [half_pi, value]

end

/-! ## When the result is correct -/

/-- No product is the least integer, nor is one of the two `int`s, and the signs of the
`int`s are those of the coordinates.  A sign does not matter where the other coordinate is
so much larger that the angle is read as zero or as a right one. -/
structure Aligned (y x : Fractor) : Prop where
  nom : (ratio y x).nom ≠ -2 ^ 63
  den : (ratio y x).den ≠ -2 ^ 63
  ordinate_least : ordinate y x ≠ -2 ^ 31
  abscissa_least : abscissa y x ≠ -2 ^ 31
  vertical : 0 < y.value * ordinate y x ∨
    0 ≤ abscissa y x ∧ 254 * (ordinate y x).natAbs < (abscissa y x).natAbs
  horizontal : 0 < x.value * abscissa y x ∨
    254 * (abscissa y x).natAbs < (ordinate y x).natAbs

section

variable {rest : ℤ → ℤ} {y x : Fractor} {a b a' b' : ℤ}

theorem neg_eq_mirror (hlow : -2 ^ 63 < y.nom) (hhigh : y.nom ≤ 2 ^ 63) : y.neg = .ok y.mirror := by
  rw [neg, checked_of_fits ⟨by omega, by omega⟩]
  rfl

theorem atan2f_of_args (rest : ℤ → ℤ) (hargs : atan2fArgs y x = .ok (a, b)) (hne : a ≠ 0 ∨ b ≠ 0)
    (ha : a.natAbs < 2 ^ 31) (hb : b.natAbs < 2 ^ 31) :
    atan2f rest y x = .ok ⟨unfoldedAngle a b, 10000⟩ ∧
      ∃ i, atan2fIndex y x = .ok i ∧ 0 ≤ i ∧ i < 16384 := by
  constructor
  · rw [atan2f, hargs, ok_bind]
    exact atan2fInt_eq rest hne ha hb
  · obtain ⟨num, num2, hfold, -, -⟩ := fold_eq ha hb
    refine ⟨entry a.natAbs b.natAbs, ?_, entry_bounds _ _⟩
    rw [atan2fIndex, hargs, ok_bind, hfold, ok_bind]
    exact tableIndex_eq (by omega) ha hb

/-- Between the arguments that are passed on and the result, only the angle matters. -/
theorem correctAt_iff_of_args (hargs : atan2fArgs y x = .ok (a, b))
    (hargs' : atan2fArgs y.mirror x = .ok (a', b)) (hneg : y.neg = .ok y.mirror)
    (hne : a ≠ 0 ∨ b ≠ 0) (hne' : a' ≠ 0 ∨ b ≠ 0) (ha : a.natAbs < 2 ^ 31)
    (ha' : a'.natAbs < 2 ^ 31) (hb : b.natAbs < 2 ^ 31) :
    CorrectAt rest y x ↔ unfoldedAngle a' b = -unfoldedAngle a b ∧
      InQuadrant x.value y.value (value ⟨unfoldedAngle a b, 10000⟩) := by
  obtain ⟨hresult, hindex⟩ := atan2f_of_args rest hargs hne ha hb
  obtain ⟨hresult', -⟩ := atan2f_of_args rest hargs' hne' ha' hb
  have hfits : FitsInt64 (-unfoldedAngle a b) := by
    have hbounds := angle_bounds a.natAbs b.natAbs
    rw [unfoldedAngle]
    constructor
    · split_ifs <;> omega
    · split_ifs <;> omega
  have hnegated : neg ⟨unfoldedAngle a b, 10000⟩ = .ok ⟨-unfoldedAngle a b, 10000⟩ := by
    rw [neg, checked_of_fits hfits]
    rfl
  constructor
  · rintro ⟨-, ⟨r, r', hr, hr', hodd⟩, ⟨q, hq, hquadrant⟩⟩
    rw [hresult] at hr hq
    rw [hneg, ok_bind, hresult'] at hr'
    cases hr
    cases hq
    cases hr'
    rw [hnegated] at hodd
    injection hodd with hodd
    injection hodd with hodd
    exact ⟨hodd.symm, hquadrant⟩
  · rintro ⟨hodd, hquadrant⟩
    refine ⟨hindex, ⟨_, _, hresult, ?_, hnegated⟩, ⟨_, hresult, hquadrant⟩⟩
    rw [hneg, ok_bind, hresult', hodd]

/-- A call without arguments for the table has no result. -/
theorem not_correctAt_of_overflow (h : ∀ args, atan2fArgs y x = .ok args →
    fold args.1 args.2 = .error .overflow) : ¬ CorrectAt rest y x := by
  rintro ⟨⟨i, hi, -⟩, -, -⟩
  rw [atan2fIndex] at hi
  cases hargs : atan2fArgs y x with
  | error fault =>
    rw [hargs, error_bind] at hi
    cases hi
  | ok args =>
    rw [hargs, ok_bind, h args hargs, error_bind] at hi
    cases hi

/-- On the axis of the ordinates the arguments are those of a positive ordinate. -/
theorem args_of_nom_zero (hx : x.nom = 0) {args : ℤ × ℤ} (h : atan2fArgs y x = .ok args) :
    args = (1, 0) := by
  have hden : FitsInt64 (x.nom * y.den) := by
    rw [hx, zero_mul]
    decide
  unfold atan2fArgs at h
  by_cases hnom : FitsInt64 (y.nom * x.den)
  · rw [checked_of_fits hnom, ok_bind, checked_of_fits hden, ok_bind,
      if_pos (by rw [hx, zero_mul])] at h
    cases h
    rfl
  · rw [checked_of_not_fits hnom, error_bind] at h
    cases h

theorem not_correctAt_of_nom_zero (hx : x.nom = 0) : ¬ CorrectAt rest y x := by
  -- `neg` leads to the same result, so the result would have to be its own negation
  have hresult : ∀ (y : Fractor) (r : Fractor), atan2f rest y x = .ok r → r = ⟨15708, 10000⟩ := by
    intro y r hr
    rw [atan2f] at hr
    cases hargs : atan2fArgs y x with
    | error fault =>
      rw [hargs, error_bind] at hr
      cases hr
    | ok args =>
      obtain rfl := args_of_nom_zero hx hargs
      rw [hargs, ok_bind, atan2fInt_eq rest (by decide) (by decide) (by decide),
        unfoldedAngle_zero_right] at hr
      cases hr
      rfl
  rintro ⟨-, ⟨r, r', hr, hr', hodd⟩, -⟩
  cases hneg : y.neg with
  | error fault =>
    rw [hneg, error_bind] at hr'
    cases hr'
  | ok y' =>
    rw [hneg, ok_bind] at hr'
    rw [hresult y r hr, hresult y' r' hr'] at hodd
    exact absurd hodd (by decide)

/-- The sign of a product with an integer. -/
theorem pos_mul_cast_iff {s : ℚ} (c : ℤ) :
    (0 < s → (0 < s * c ↔ 0 < c)) ∧ (s < 0 → (0 < s * c ↔ c < 0)) := by
  constructor
  · intro hs
    rw [mul_pos_iff_of_pos_left hs, Int.cast_pos]
  · intro hs
    rw [← neg_mul_neg, mul_pos_iff_of_pos_left (neg_pos.mpr hs), neg_pos, Int.cast_lt_zero]

/-- Off the axes, the angle is the right one when both signs are kept, up to the angles that
are read as zero or as a right one. -/
theorem angle_correct_iff {s t : ℚ} (hs : s ≠ 0) (ht : t ≠ 0) (hne : a ≠ 0 ∨ b ≠ 0) :
    (unfoldedAngle (-a) b = -unfoldedAngle a b ∧
      InQuadrant s t (value ⟨unfoldedAngle a b, 10000⟩)) ↔
    (0 < t * a ∨ 0 ≤ b ∧ 254 * a.natAbs < b.natAbs) ∧
      (0 < s * b ∨ 254 * b.natAbs < a.natAbs) := by
  have hbounds := angle_bounds a.natAbs b.natAbs
  have hzero := @angle_eq_zero_iff b.natAbs a.natAbs (by omega)
  have hright := angle_eq_right_iff a.natAbs b.natAbs
  rw [unfoldedAngle_neg_iff hne, inQuadrant_iff hs ht, Int.abs_eq_natAbs, unfoldedAngle]
  -- in each quadrant, the signs of the two integers say which branch was taken
  rcases lt_or_gt_of_ne hs with hsneg | hspos
  · rw [(pos_mul_cast_iff b).2 hsneg]
    rcases lt_or_gt_of_ne ht with htneg | htpos
    · simp only [(pos_mul_cast_iff a).2 htneg, hsneg, htneg, hsneg.not_gt, htneg.not_gt,
        true_implies, false_implies, true_and]
      split_ifs <;> omega
    · simp only [(pos_mul_cast_iff a).1 htpos, hsneg, htpos, hsneg.not_gt, htpos.not_gt,
        true_implies, false_implies, true_and]
      split_ifs <;> omega
  · rw [(pos_mul_cast_iff b).1 hspos]
    rcases lt_or_gt_of_ne ht with htneg | htpos
    · simp only [(pos_mul_cast_iff a).2 htneg, hspos, htneg, hspos.not_gt, htneg.not_gt,
        true_implies, false_implies, true_and, and_true]
      split_ifs <;> omega
    · simp only [(pos_mul_cast_iff a).1 htpos, hspos, htpos, hspos.not_gt, htpos.not_gt,
        true_implies, false_implies, true_and, and_true]
      split_ifs <;> omega

theorem value_ne_zero_iff {f : Fractor} (hden : f.den ≠ 0) : f.value ≠ 0 ↔ f.nom ≠ 0 := by
  rw [value, Ne, div_eq_zero_iff, Int.cast_eq_zero, Int.cast_eq_zero]
  tauto

/-- On the axis of the abscissas the result is zero, which is right on the right half. -/
theorem correctAt_iff_of_nom_zero (rest : ℤ → ℤ) (hyden : y.den ≠ 0) (hxden : x.den ≠ 0)
    (hden : FitsInt64 (x.nom * y.den)) (hx : x.nom ≠ 0) (hy : y.nom = 0) :
    CorrectAt rest y x ↔ 0 < x.value := by
  have hmirror : y.mirror = y := by
    rw [mirror, hy, neg_zero, ← hy]
  have hnom : (ratio y x).nom = 0 := by
    rw [ratio, hy, zero_mul]
  have hden0 : (ratio y x).den ≠ 0 := mul_ne_zero hx hyden
  have hargs : atan2fArgs y x = .ok (0, 1) := by
    rw [atan2fArgs_eq (by rw [hnom]; decide) hden, if_neg hden0, if_pos hnom]
  have hvalue : y.value = 0 := by rw [value, hy, Int.cast_zero, zero_div]
  rw [correctAt_iff_of_args hargs (by rw [hmirror]; exact hargs)
    (neg_eq_mirror (by omega) (by omega)) (by decide) (by decide) (by decide) (by decide)
    (by decide), unfoldedAngle_zero_left, hvalue,
    inQuadrant_zero_iff ((value_ne_zero_iff hxden).mpr hx)]
  simp

/-- Off the axes. -/
theorem correctAt_iff_aligned (rest : ℤ → ℤ) (hyden : y.den ≠ 0) (hxden : x.den ≠ 0)
    (hnom : FitsInt64 (y.nom * x.den)) (hden : FitsInt64 (x.nom * y.den)) (hx : x.nom ≠ 0)
    (hy : y.nom ≠ 0) : CorrectAt rest y x ↔ Aligned y x := by
  have hden0 : (ratio y x).den ≠ 0 := mul_ne_zero hx hyden
  have hnom0 : (ratio y x).nom ≠ 0 := mul_ne_zero hy hxden
  have hargs := atan2fArgs_eq (y := y) (x := x) hnom hden
  rw [if_neg hden0, if_neg hnom0] at hargs
  by_cases hleast : (ratio y x).nom = -2 ^ 63 ∨ (ratio y x).den = -2 ^ 63
  · rw [if_pos hleast] at hargs
    refine iff_of_false (not_correctAt_of_overflow fun args h => ?_) fun h => ?_
    · rw [hargs] at h
      cases h
    · exact hleast.elim h.nom h.den
  rw [if_neg hleast] at hargs
  by_cases hleastInt : ordinate y x = -2 ^ 31 ∨ abscissa y x = -2 ^ 31
  · refine iff_of_false (not_correctAt_of_overflow fun args h => ?_) fun h => ?_
    · rw [hargs] at h
      cases h
      exact fold_overflow (castInt_fits _) hleastInt
    · exact hleastInt.elim h.ordinate_least h.abscissa_least
  -- from here on neither call overflows
  obtain ⟨hleastNom, hleastDen⟩ := not_or.mp hleast
  obtain ⟨hordinate, habscissa⟩ := not_or.mp hleastInt
  have hnomLow : -2 ^ 63 ≤ (ratio y x).nom := hnom.1
  have hnomHigh : (ratio y x).nom < 2 ^ 63 := hnom.2
  have hargs' : atan2fArgs y.mirror x = .ok (-ordinate y x, abscissa y x) := by
    have hmirror : (ratio y.mirror x).nom = -(ratio y x).nom := by
      rw [ratio_mirror]
      rfl
    have hmirrorDen : (ratio y.mirror x).den = (ratio y x).den := by
      rw [ratio_mirror]
      rfl
    have hfits : FitsInt64 (ratio y.mirror x).nom := by
      rw [hmirror]
      exact ⟨by omega, by omega⟩
    rw [atan2fArgs_eq hfits (by rw [hmirrorDen]; exact hden), hmirror, hmirrorDen, if_neg hden0,
      if_neg (by omega), if_neg (by omega), ordinate_mirror hordinate, abscissa_mirror]
  have hneg : y.neg = .ok y.mirror := by
    have hsize : y.nom.natAbs ≤ (ratio y x).nom.natAbs := by
      rw [ratio, Int.natAbs_mul]
      exact Nat.le_mul_of_pos_right _ (Int.natAbs_pos.mpr hxden)
    exact neg_eq_mirror (by omega) (by omega)
  have hne := ordinate_ne_or_abscissa_ne hden0
  obtain ⟨hyLow, hyHigh⟩ := castInt_fits (ratio y x).reduced.nom
  obtain ⟨hxLow, hxHigh⟩ := castInt_fits (ratio y x).reduced.den
  rw [← ordinate] at hyLow hyHigh
  rw [← abscissa] at hxLow hxHigh
  rw [correctAt_iff_of_args hargs hargs' hneg hne (by omega) (by omega) (by omega) (by omega),
    angle_correct_iff ((value_ne_zero_iff hxden).mpr hx) ((value_ne_zero_iff hyden).mpr hy) hne]
  constructor
  · rintro ⟨hvertical, hhorizontal⟩
    exact ⟨hleastNom, hleastDen, hordinate, habscissa, hvertical, hhorizontal⟩
  · intro h
    exact ⟨h.vertical, h.horizontal⟩

/-- The result of `atan2f` is right in all three respects exactly when `x` is not zero, is
positive where `y` is zero, and is aligned with `y` elsewhere. -/
theorem atan2f_correct_iff (rest : ℤ → ℤ) (hyden : y.den ≠ 0) (hxden : x.den ≠ 0)
    (hnom : FitsInt64 (y.nom * x.den)) (hden : FitsInt64 (x.nom * y.den)) :
    CorrectAt rest y x ↔
      x.nom ≠ 0 ∧ (y.nom = 0 → 0 < x.value) ∧ (y.nom ≠ 0 → Aligned y x) := by
  by_cases hx : x.nom = 0
  · exact iff_of_false (not_correctAt_of_nom_zero hx) fun h => h.1 hx
  by_cases hy : y.nom = 0
  · rw [correctAt_iff_of_nom_zero rest hyden hxden hden hx hy]
    simp [hx, hy]
  · rw [correctAt_iff_aligned rest hyden hxden hnom hden hx hy]
    simp [hx, hy]

/-- Multiplying by denominators of one sign and reducing keeps the sign of a coordinate. -/
theorem pos_value_mul {f : Fractor} {d n g : ℤ} (hnom : f.nom ≠ 0) (hd : 0 < f.den * d)
    (hg : 0 < g) (hn : n * g = f.nom * d) : 0 < f.value * n := by
  have hden : (f.den : ℚ) ≠ 0 := by
    have : f.den ≠ 0 := left_ne_zero_of_mul hd.ne'
    exact_mod_cast this
  have hgQ : (0 : ℚ) < g := by exact_mod_cast hg
  have hdQ : (0 : ℚ) < f.den * d := by exact_mod_cast hd
  have hvalue : f.value ≠ 0 := div_ne_zero (by exact_mod_cast hnom) hden
  have hnQ : (n : ℚ) * g = f.nom * d := by exact_mod_cast hn
  have hsquare : f.value * n * g = f.value ^ 2 * (f.den * d) := by
    have hself : f.value * f.den = f.nom := div_mul_cancel₀ _ hden
    calc f.value * n * g = f.value * (n * g) := by ring
      _ = f.value * (f.value * f.den * d) := by rw [hnQ, hself]
      _ = f.value ^ 2 * (f.den * d) := by ring
  have hpos : 0 < f.value * n * g := by
    rw [hsquare]
    exact mul_pos (by positivity) hdQ
  exact pos_of_mul_pos_left hpos hgQ.le

/-- With denominators of one sign, and lowest terms that are `int`s, only the axes are in the
way. -/
theorem atan2f_correct_iff_of_small (rest : ℤ → ℤ) (hsigns : 0 < y.den * x.den)
    (hnom : -2 ^ 63 < (ratio y x).nom ∧ (ratio y x).nom < 2 ^ 63)
    (hden : -2 ^ 63 < (ratio y x).den ∧ (ratio y x).den < 2 ^ 63)
    (hy : (ratio y x).reduced.nom.natAbs < 2 ^ 31)
    (hx : (ratio y x).reduced.den.natAbs < 2 ^ 31) :
    CorrectAt rest y x ↔ x.nom ≠ 0 ∧ (y.nom = 0 → 0 < x.value) := by
  rw [atan2f_correct_iff rest (left_ne_zero_of_mul hsigns.ne') (right_ne_zero_of_mul hsigns.ne')
    ⟨hnom.1.le, hnom.2⟩ ⟨hden.1.le, hden.2⟩]
  have hordinate : ordinate y x = (ratio y x).reduced.nom :=
    castInt_of_fits ⟨by omega, by omega⟩
  have habscissa : abscissa y x = (ratio y x).reduced.den :=
    castInt_of_fits ⟨by omega, by omega⟩
  constructor
  · rintro ⟨hx0, haxis, -⟩
    exact ⟨hx0, haxis⟩
  · rintro ⟨hx0, haxis⟩
    refine ⟨hx0, haxis, fun hy0 => ?_⟩
    have hg := gcd_pos (f := ratio y x) (mul_ne_zero hx0 (left_ne_zero_of_mul hsigns.ne'))
    exact {
      nom := by omega
      den := by omega
      ordinate_least := by omega
      abscissa_least := by omega
      vertical := .inl (hordinate ▸ pos_value_mul hy0 hsigns hg (nom_reduced_mul _))
      horizontal := .inl (habscissa ▸
        pos_value_mul hx0 (by rwa [mul_comm]) hg (den_reduced_mul _)) }

end

theorem atan2f_correct_third_quadrant : CorrectAt (fun _ => 0) ⟨-3, 4⟩ ⟨-1, 2⟩ := by
  have hordinate : ordinate ⟨-3, 4⟩ ⟨-1, 2⟩ = -3 := by decide +kernel
  have habscissa : abscissa ⟨-3, 4⟩ ⟨-1, 2⟩ = -2 := by decide +kernel
  apply (atan2f_correct_iff (fun _ => 0) (by decide) (by decide) (by decide) (by decide)).mpr
  refine ⟨by decide, by decide, fun _ => ⟨by decide, by decide, ?_, ?_, .inl ?_, .inl ?_⟩⟩
  · rw [hordinate]
    decide
  · rw [habscissa]
    decide
  · rw [hordinate]
    norm_num [value]
  · rw [habscissa]
    norm_num [value]

/-- Straight below the origin the angle is a positive right one. -/
theorem atan2f_wrong_below :
    atan2f (fun _ => 0) ⟨-1, 1⟩ ⟨0, 1⟩ = .ok half_pi ∧
      ¬ CorrectAt (fun _ => 0) ⟨-1, 1⟩ ⟨0, 1⟩ :=
  ⟨by decide +kernel, not_correctAt_of_nom_zero rfl⟩

end Fractor
end Libfractor
end ArmyRs
