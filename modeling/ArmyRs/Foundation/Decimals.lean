import Mathlib.Data.Char
import Mathlib.Data.List.Lex
import Mathlib.Data.String.Basic
import ArmyRs.Foundation.Strings

/-!
# Numbers as decimal strings

Strings of digits are compared from the left, so that a longer numeral may come
first (`toString_lt_iff`): only its leading digits count, as many as the shorter
numeral has.

A script reads a numeral as a double and writes the double with seventeen
significant digits.  Both are the number itself as long as it is small
(`roundDouble_of_lt`, `format17g_eq_iff`).
-/

namespace ArmyRs
namespace Foundation

/-! ## The order of lists -/

section

variable {α : Type*} [LinearOrder α]

/-- What follows a prefix that is long enough does not matter. -/
theorem append_lt_iff {u v : List α} (h : v.length ≤ u.length) (w : List α) :
    u ++ w < v ↔ u < v := by
  induction v generalizing u with
  | nil => simp
  | cons y v ih =>
      cases u with
      | nil => simp at h
      | cons x u =>
          rw [List.cons_append, List.cons_lt_cons_iff, List.cons_lt_cons_iff,
            ih (Nat.le_of_succ_le_succ h)]

/-- Lists of one length are compared by their last elements at the end. -/
theorem append_singleton_lt_iff {u v : List α} (h : u.length = v.length) (x y : α) :
    u ++ [x] < v ++ [y] ↔ u < v ∨ u = v ∧ x < y := by
  induction v generalizing u with
  | nil =>
      cases List.length_eq_zero_iff.mp h
      simp [List.cons_lt_cons_iff]
  | cons b v ih =>
      cases u with
      | nil => simp at h
      | cons a u =>
          rw [List.cons_append, List.cons_append, List.cons_lt_cons_iff, List.cons_lt_cons_iff,
            ih (Nat.succ_injective h), List.cons.injEq]
          tauto

end

/-! ## Numerals -/

/-- How many digits a number has. -/
def width (n : Nat) : Nat :=
  (Nat.toDigits 10 n).length

theorem width_of_lt {n : Nat} (h : n < 10) : width n = 1 := by
  simp [width, Nat.toDigits_of_lt_base h]

theorem width_of_le {n : Nat} (h : 10 ≤ n) : width n = width (n / 10) + 1 := by
  simp [width, Nat.toDigits_of_base_le (b := 10) (by decide) h]

theorem width_pos (n : Nat) : 0 < width n :=
  Nat.length_toDigits_pos

theorem ten_le_of_width {n : Nat} (h : 1 < width n) : 10 ≤ n := by
  by_contra hlt
  have := width_of_lt (Nat.lt_of_not_le hlt)
  omega

/-- A greater number has no fewer digits. -/
theorem width_mono {m n : Nat} (h : m ≤ n) : width m ≤ width n :=
  (Nat.length_toDigits_le_iff (by decide) (width_pos n)).mpr
    (h.trans_lt ((Nat.length_toDigits_le_iff (by decide) (width_pos n)).mp le_rfl))

theorem digitChar_lt_iff {m n : Nat} (hm : m < 10) (hn : n < 10) :
    m.digitChar < n.digitChar ↔ m < n := by
  have hchars := Nat.toNat_digitChar_of_lt_ten hm
  have hcharsOther := Nat.toNat_digitChar_of_lt_ten hn
  rw [Char.lt_def, UInt32.lt_iff_toNat_lt]
  show m.digitChar.toNat < n.digitChar.toNat ↔ m < n
  omega

/-- Numerals of one width are ordered like their numbers. -/
theorem toDigits_lt_of_width_eq {m n : Nat} (h : width m = width n) :
    Nat.toDigits 10 m < Nat.toDigits 10 n ↔ m < n := by
  induction m using Nat.strong_induction_on generalizing n with
  | _ m ih =>
      by_cases hm : m < 10
      · have hn : n < 10 := by
          by_contra hle
          have hwidth := width_of_le (Nat.le_of_not_lt hle)
          have hpos := width_pos (n / 10)
          rw [width_of_lt hm] at h
          omega
        rw [Nat.toDigits_of_lt_base hm, Nat.toDigits_of_lt_base hn, List.cons_lt_cons_iff]
        simp [digitChar_lt_iff hm hn]
      · have hm : 10 ≤ m := Nat.le_of_not_lt hm
        have hn : 10 ≤ n := by
          apply ten_le_of_width
          have hpos := width_pos (m / 10)
          rw [← h, width_of_le hm]
          omega
        have hwidth : width (m / 10) = width (n / 10) := by
          rw [width_of_le hm, width_of_le hn] at h
          omega
        have heq : Nat.toDigits 10 (m / 10) = Nat.toDigits 10 (n / 10) ↔ m / 10 = n / 10 := by
          constructor
          · intro hdigits
            rw [← @Nat.ofDigitChars_ten_toDigits (m / 10), hdigits,
              Nat.ofDigitChars_ten_toDigits]
          · exact fun hsame => by rw [hsame]
        rw [Nat.toDigits_of_base_le (by decide) hm, Nat.toDigits_of_base_le (by decide) hn,
          append_singleton_lt_iff hwidth, ih (m / 10) (by omega) hwidth, heq,
          digitChar_lt_iff (Nat.mod_lt m (by decide)) (Nat.mod_lt n (by decide))]
        omega

/-- A numeral that is no shorter comes first exactly when its leading digits are
those of a smaller number. -/
theorem toDigits_lt_iff {m n : Nat} (h : width m ≤ width n) :
    Nat.toDigits 10 n < Nat.toDigits 10 m ↔ n / 10 ^ (width n - width m) < m := by
  induction n using Nat.strong_induction_on with
  | _ n ih =>
      by_cases heq : width m = width n
      · rw [heq, Nat.sub_self, Nat.pow_zero, Nat.div_one]
        exact toDigits_lt_of_width_eq heq.symm
      · have hn : 10 ≤ n := by
          apply ten_le_of_width
          have := width_pos m
          omega
        have hwidth := width_of_le hn
        have hshorter : width m ≤ width (n / 10) := by omega
        have hrest : width n - width m = (width (n / 10) - width m) + 1 := by omega
        rw [Nat.toDigits_of_base_le (by decide) hn, append_lt_iff hshorter,
          ih (n / 10) (by omega) hshorter, hrest, Nat.pow_succ', Nat.div_div_eq_div_mul]

theorem toString_lt_iff {m n : Nat} (h : m ≤ n) :
    toString n < toString m ↔ n / 10 ^ (width n - width m) < m := by
  rw [String.lt_iff_toList_lt, Nat.toString_eq_repr, Nat.toString_eq_repr, Nat.toList_repr,
    Nat.toList_repr]
  exact toDigits_lt_iff (width_mono h)

theorem toString_injective {m n : Nat} (h : toString m = toString n) : m = n := by
  rw [Nat.toString_eq_repr, Nat.toString_eq_repr] at h
  rw [← @Nat.ofDigitChars_ten_toDigits m, ← @Nat.ofDigitChars_ten_toDigits n, ← Nat.toList_repr,
    ← Nat.toList_repr, h]

/-- The number that a string of digits denotes. -/
def ofNumeral (s : String) : Nat :=
  Nat.ofDigitChars 10 s.toList 0

theorem ofNumeral_toString (n : Nat) : ofNumeral (toString n) = n := by
  unfold ofNumeral
  rw [Nat.toString_eq_repr, Nat.toList_repr, Nat.ofDigitChars_ten_toDigits]

/-! ## Doubles -/

/-- How often `unit` goes into a number, rounded to the nearest, in the middle to
the even one. -/
def roundEven (n unit : Nat) : Nat :=
  if unit < 2 * (n % unit) ∨ unit = 2 * (n % unit) ∧ n / unit % 2 = 1 then n / unit + 1
  else n / unit

/-- The multiple of a power of two that has 53 bits and is nearest to a number. -/
def roundDouble (n : Nat) : Nat :=
  let unit := 2 ^ (n.log2 - 52)
  roundEven n unit * unit

theorem roundDouble_of_lt {n : Nat} (h : n < 2 ^ 53) : roundDouble n = n := by
  have hlog : n.log2 - 52 = 0 := by
    by_cases hzero : n = 0
    · subst hzero
      decide
    · have := (Nat.log2_lt hzero).mpr h
      omega
  unfold roundDouble roundEven
  simp [hlog, Nat.mod_one]

/-- The double of a number, `none` for infinity. -/
def toDouble (n : Nat) : Option Nat :=
  if roundDouble n < 2 ^ 1024 then some (roundDouble n) else none

/-- A number as a double, plus one. -/
def succDouble (n : Nat) : Option Nat :=
  (toDouble n).bind fun x => toDouble (x + 1)

theorem toDouble_of_le {n : Nat} (hle : n ≤ 2 ^ 53) (hround : roundDouble n = n) :
    toDouble n = some n := by
  have hpow : ∀ j k : Nat, j < k → 2 ^ j < 2 ^ k :=
    fun _ _ => Nat.pow_lt_pow_right Nat.one_lt_two
  have hfinite := hpow 53 1024 (by decide)
  unfold toDouble
  rw [hround, if_pos (hle.trans_lt hfinite)]

theorem succDouble_of_lt {n : Nat} (h : n < 2 ^ 53) : succDouble n = some (n + 1) := by
  have hsucc : roundDouble (n + 1) = n + 1 := by
    rcases Nat.lt_or_eq_of_le (Nat.succ_le_of_lt h) with hlt | heq
    · exact roundDouble_of_lt hlt
    · rw [show n + 1 = 2 ^ 53 from heq]
      decide
  unfold succDouble
  rw [toDouble_of_le h.le (roundDouble_of_lt h), Option.bind_some]
  exact toDouble_of_le h hsucc

/-! ## Seventeen significant digits -/

/-- The form with an exponent, for a number of more than seventeen digits. -/
def formatExponent (n : Nat) : String :=
  let rounded := roundEven n (10 ^ (width n - 17))
  -- rounding up may give one digit more
  let exponent := if rounded = 10 ^ 17 then width n else width n - 1
  let digits := (Nat.toDigits 10 rounded).take 17
  let fraction := (digits.tail.reverse.dropWhile fun c => c = '0').reverse
  String.ofList (digits.take 1 ++ (if fraction.isEmpty then [] else '.' :: fraction) ++
    'e' :: '+' :: Nat.toDigits 10 exponent)

/-- `%.17g` -/
def format17g : Option Nat → String
  | none => "inf"
  | some n => if n < 10 ^ 17 then toString n else formatExponent n

theorem notMem_toString {c : Char} (hc : c.isDigit = false) (n : Nat) :
    c ∉ (toString n).toList := by
  rw [Nat.toString_eq_repr, Nat.toList_repr]
  exact notMem_toDigits hc n

/-- Only a number of at most seventeen digits is written as its numeral. -/
theorem format17g_eq_iff {x : Option Nat} {n : Nat} :
    format17g x = toString n ↔ x = some n ∧ n < 10 ^ 17 := by
  cases x with
  | none =>
      simp only [reduceCtorEq, false_and, iff_false]
      intro h
      apply notMem_toString (c := 'i') (by decide) n
      rw [← h]
      decide
  | some m =>
      unfold format17g
      dsimp only
      split
      · next hm =>
        constructor
        · intro h
          cases toString_injective h
          exact ⟨rfl, hm⟩
        · rintro ⟨hsome, -⟩
          rw [Option.some_inj.mp hsome]
      · next hm =>
        constructor
        · intro h
          refine absurd ?_ (notMem_toString (c := 'e') (by decide) n)
          rw [← h]
          simp [formatExponent]
        · rintro ⟨hsome, hn⟩
          cases hsome
          exact absurd hn hm

end Foundation
end ArmyRs
