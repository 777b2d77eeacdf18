import Mathlib.Data.List.Sort
import Mathlib.Tactic

/-!
# Consecutive blocks

A block list `blocks k a n` is the ascending list of `n` consecutive values
starting at `a`, each of them repeated `k` times.  Runs of consecutive ranks
(`k = 1`), of consecutive pairs (`k = 2`) and of consecutive triples (`k = 3`)
are all of this form, so one indexed description serves every kind of run:

* `getElem?_blocks` reads one entry of a block list;
* `eq_blocks_of_steps` recognises a block list from the comparisons a scanner
  makes: equality inside a block and a step of one between blocks.

The last section collects the counting-loop helper `forRange`, the index list
of a loop `for i = start, stop, step`.
-/

namespace ArmyRs
namespace Foundation

/-- `n` consecutive values from `a`, each repeated `k` times. -/
def blocks (k : Nat) : Nat → Nat → List Nat
  | _, 0 => []
  | a, n + 1 => List.replicate k a ++ blocks k (a + 1) n

@[simp] theorem blocks_zero (k a : Nat) : blocks k a 0 = [] := rfl

theorem blocks_succ (k a n : Nat) :
    blocks k a (n + 1) = List.replicate k a ++ blocks k (a + 1) n := rfl

@[simp] theorem length_blocks (k a n : Nat) : (blocks k a n).length = k * n := by
  induction n generalizing a with
  | zero => simp
  | succ n ih => simp [blocks_succ, ih, Nat.mul_succ, Nat.add_comm]

theorem mem_blocks {k a n x : Nat} (hk : 0 < k) :
    x ∈ blocks k a n ↔ a ≤ x ∧ x < a + n := by
  induction n generalizing a with
  | zero => simp
  | succ n ih =>
      rw [blocks_succ, List.mem_append, List.mem_replicate, ih]
      omega

/-- The entry at position `i` is the value of the block that holds `i`. -/
theorem getElem?_blocks {k a n i : Nat} (hi : i < k * n) :
    (blocks k a n)[i]? = some (a + i / k) := by
  induction n generalizing a i with
  | zero => simp at hi
  | succ n ih =>
      have hk : 0 < k := Nat.pos_of_ne_zero fun hzero => by simp [hzero] at hi
      rw [blocks_succ]
      by_cases hhead : i < k
      · rw [List.getElem?_append_left (by simpa using hhead)]
        simp [hhead, Nat.div_eq_of_lt hhead]
      · have hge : k ≤ i := Nat.le_of_not_lt hhead
        rw [List.getElem?_append_right (by simpa using hge), List.length_replicate,
          ih (by rw [Nat.mul_succ] at hi; omega)]
        have hdiv : i / k = (i - k) / k + 1 := by
          conv_lhs => rw [← Nat.sub_add_cancel hge]
          exact Nat.add_div_right _ hk
        rw [hdiv]
        congr 1
        omega

/-- Every value of a block list stands in it `k` times. -/
theorem count_blocks {k a n v : Nat} (hlow : a ≤ v) (hhigh : v < a + n) :
    (blocks k a n).count v = k := by
  induction n generalizing a with
  | zero => omega
  | succ n ih =>
      rw [blocks_succ, List.count_append, List.count_replicate]
      rcases Nat.eq_or_lt_of_le hlow with rfl | hlt
      · have hrest : (blocks k (a + 1) n).count a = 0 := by
          refine List.count_eq_zero.mpr fun hmem => ?_
          rcases Nat.eq_zero_or_pos k with rfl | hk
          · have hlength := length_blocks 0 (a + 1) n
            rw [Nat.zero_mul, List.length_eq_zero_iff] at hlength
            simp [hlength] at hmem
          · have := (mem_blocks hk).mp hmem
            omega
        rw [hrest, if_pos (beq_self_eq_true a), Nat.add_zero]
      · rw [ih hlt (by omega), if_neg (by simp; omega), Nat.zero_add]

theorem blocks_append (k a n m : Nat) :
    blocks k a (n + m) = blocks k a n ++ blocks k (a + n) m := by
  induction n generalizing a with
  | zero => simp
  | succ n ih =>
      rw [show n + 1 + m = n + m + 1 by omega, blocks_succ, blocks_succ, ih, List.append_assoc,
        show a + 1 + n = a + (n + 1) by omega]

theorem pairwise_le_blocks (k a n : Nat) : (blocks k a n).Pairwise (· ≤ ·) := by
  induction n generalizing a with
  | zero => simp
  | succ n ih =>
      rw [blocks_succ, List.pairwise_append]
      refine ⟨List.pairwise_replicate.mpr (Or.inr le_rfl), ih (a + 1), ?_⟩
      intro x hx y hy
      have hxa : x = a := List.eq_of_mem_replicate hx
      have hk : 0 < k := Nat.pos_of_ne_zero fun hzero => by simp [hzero] at hx
      have hya := (mem_blocks hk).mp hy
      omega

/-- Two ascending lists with the same elements are the same list. -/
theorem eq_of_perm_of_ascending {xs ys : List Nat} (hperm : xs.Perm ys)
    (hxs : xs.Pairwise (· ≤ ·)) (hys : ys.Pairwise (· ≤ ·)) : xs = ys :=
  hperm.eq_of_pairwise (fun _ _ _ _ hab hba => Nat.le_antisymm hab hba) hxs hys

/-- A list is a block list once each block is constant and consecutive blocks
differ by one. -/
theorem eq_blocks_of_steps {k n : Nat} {xs : List Nat} {x : Nat → Nat}
    (hlength : xs.length = k * n) (hx : ∀ i, i < k * n → xs[i]? = some (x i))
    (hinside : ∀ p r, p < n → r < k → x (k * p + r) = x (k * p))
    (hstep : ∀ p, p + 1 < n → x (k * (p + 1)) = x (k * p) + 1) :
    xs = blocks k (x 0) n := by
  have hstart : ∀ p, p < n → x (k * p) = x 0 + p := by
    intro p
    induction p with
    | zero => intro _; simp
    | succ p ih =>
        intro hp
        rw [hstep p hp, ih (by omega)]
        omega
  apply List.ext_getElem?
  intro i
  by_cases hi : i < k * n
  · have hk : 0 < k := Nat.pos_of_ne_zero fun hzero => by simp [hzero] at hi
    have hp : i / k < n := Nat.div_lt_of_lt_mul hi
    have hsplit : x i = x (k * (i / k)) := by
      conv_lhs => rw [← Nat.div_add_mod i k]
      exact hinside _ _ hp (Nat.mod_lt i hk)
    rw [hx i hi, getElem?_blocks hi, hsplit, hstart _ hp]
  · rw [List.getElem?_eq_none (by omega), List.getElem?_eq_none (by simp; omega)]

/-! ## Equal neighbours in an ascending list -/

/-- In an ascending list the copies of a value stand together, after the
smaller values and before the larger ones. -/
theorem eq_filter_append_replicate {xs : List Nat} (hxs : xs.Pairwise (· ≤ ·)) (v : Nat) :
    xs = xs.filter (· < v) ++ (List.replicate (xs.count v) v ++ xs.filter (v < ·)) := by
  refine eq_of_perm_of_ascending (List.perm_iff_count.mpr fun u => ?_) hxs ?_
  · rw [List.count_append, List.count_append, List.count_replicate]
    rcases Nat.lt_trichotomy u v with hlt | rfl | hgt
    · rw [List.count_filter (by simpa using hlt), if_neg (by simp; omega),
        List.count_eq_zero_of_not_mem (a := u) (l := xs.filter (v < ·))
          (by simp; omega)]
      simp
    · rw [List.count_eq_zero_of_not_mem (a := u) (l := xs.filter (· < u)) (by simp),
        List.count_eq_zero_of_not_mem (a := u) (l := xs.filter (u < ·)) (by simp)]
      simp
    · rw [List.count_filter (l := xs) (p := fun x => decide (v < x)) (by simpa using hgt),
        if_neg (by simp; omega),
        List.count_eq_zero_of_not_mem (a := u) (l := xs.filter (· < v)) (by simp; omega)]
      simp
  · rw [List.pairwise_append, List.pairwise_append]
    refine ⟨hxs.filter _, ⟨List.pairwise_replicate.mpr (Or.inr le_rfl), hxs.filter _, ?_⟩, ?_⟩
    · intro x hx y hy
      have hxv := List.eq_of_mem_replicate hx
      have hyv : v < y := by simpa using (List.mem_filter.mp hy).2
      omega
    · intro x hx y hy
      have hxv : x < v := by simpa using (List.mem_filter.mp hx).2
      rcases List.mem_append.mp hy with hy | hy
      · have hyv := List.eq_of_mem_replicate hy
        omega
      · have hyv : v < y := by simpa using (List.mem_filter.mp hy).2
        omega

/-- A value that occurs `k` times in an ascending list fills `k` neighbouring
positions. -/
theorem replicate_infix_of_le_count {xs : List Nat} (hxs : xs.Pairwise (· ≤ ·)) {k v : Nat}
    (hcount : k ≤ xs.count v) : List.replicate k v <:+: xs := by
  have hsplit : List.replicate (xs.count v) v =
      List.replicate k v ++ List.replicate (xs.count v - k) v := by
    rw [List.replicate_append_replicate, Nat.add_sub_cancel' hcount]
  refine ⟨xs.filter (· < v), List.replicate (xs.count v - k) v ++ xs.filter (v < ·), ?_⟩
  conv_rhs => rw [eq_filter_append_replicate hxs v, hsplit]
  simp only [List.append_assoc]

/-- Two neighbouring values of an ascending list that both occur `k` times make
two blocks in neighbouring positions. -/
theorem two_blocks_isInfix {xs : List Nat} (hxs : xs.Pairwise (· ≤ ·)) {k v : Nat}
    (hfirst : k ≤ xs.count v) (hsecond : k ≤ xs.count (v + 1)) : blocks k v 2 <:+: xs := by
  have hcount : (xs.filter (v < ·)).count (v + 1) = xs.count (v + 1) :=
    List.count_filter (by simp)
  have hnone : (xs.filter (v < ·)).filter (· < v + 1) = [] := by
    rw [List.filter_filter]
    refine List.filter_eq_nil_iff.mpr fun x _ => ?_
    simp only [Bool.and_eq_true, decide_eq_true_eq]
    omega
  -- the larger values start with the copies of the next value
  have hlarger := eq_filter_append_replicate (hxs.filter (v < ·)) (v + 1)
  rw [hnone, List.nil_append, hcount] at hlarger
  have hleft : List.replicate (xs.count v) v =
      List.replicate (xs.count v - k) v ++ List.replicate k v := by
    rw [List.replicate_append_replicate, Nat.sub_add_cancel hfirst]
  have hright : List.replicate (xs.count (v + 1)) (v + 1) =
      List.replicate k (v + 1) ++ List.replicate (xs.count (v + 1) - k) (v + 1) := by
    rw [List.replicate_append_replicate, Nat.add_sub_cancel' hsecond]
  refine ⟨xs.filter (· < v) ++ List.replicate (xs.count v - k) v,
    List.replicate (xs.count (v + 1) - k) (v + 1) ++ (xs.filter (v < ·)).filter (v + 1 < ·), ?_⟩
  conv_rhs => rw [eq_filter_append_replicate hxs v, hlarger, hleft, hright]
  simp only [blocks_succ, blocks_zero, List.append_nil, List.append_assoc]

/-! ## Counting loops -/

/-- The values taken by a loop variable that counts from `start` to at most
`stop` by `step`. -/
def forRange (start stop step : Nat) : List Nat :=
  (List.range ((stop + step - start) / step)).map fun k => start + k * step

theorem mem_forRange {start stop step i : Nat} (hstep : 0 < step) :
    i ∈ forRange start stop step ↔ ∃ k, i = start + k * step ∧ i ≤ stop := by
  unfold forRange
  rw [List.mem_map]
  constructor
  · rintro ⟨k, hk, rfl⟩
    have hle : (k + 1) * step ≤ stop + step - start :=
      (Nat.le_div_iff_mul_le hstep).mp (List.mem_range.mp hk)
    refine ⟨k, rfl, ?_⟩
    rw [Nat.add_mul] at hle
    omega
  · rintro ⟨k, rfl, hle⟩
    refine ⟨k, List.mem_range.mpr ?_, rfl⟩
    rw [← Nat.succ_le_iff, Nat.le_div_iff_mul_le hstep, Nat.succ_mul]
    omega

theorem mem_forRange_one {start stop i : Nat} :
    i ∈ forRange start stop 1 ↔ start ≤ i ∧ i ≤ stop := by
  rw [mem_forRange Nat.one_pos]
  constructor
  · rintro ⟨k, rfl, hle⟩
    omega
  · rintro ⟨hlow, hle⟩
    exact ⟨i - start, by omega, hle⟩

theorem forRange_one (start stop : Nat) :
    forRange start stop 1 = List.range' start (stop + 1 - start) := by
  simp [forRange, List.range'_eq_map_range]

/-- The first index a counting loop stops at is the least one that stops it. -/
theorem find?_forRange_one {start stop i : Nat} {p : Nat → Bool}
    (h : (forRange start stop 1).find? p = some i) :
    (p i = true ∧ start ≤ i ∧ i ≤ stop) ∧
      ∀ j, start ≤ j → j ≤ stop → p j = true → i ≤ j := by
  obtain ⟨hi, pre, post, hsplit, hpre⟩ := List.find?_eq_some_iff_append.mp h
  have hmem := mem_forRange_one.mp (List.mem_of_find?_eq_some h)
  refine ⟨⟨hi, hmem⟩, fun j hlow hhigh hj => ?_⟩
  have hsorted : (forRange start stop 1).Pairwise (· < ·) := by
    rw [forRange_one]
    exact List.pairwise_lt_range'
  rw [hsplit, List.pairwise_append, List.pairwise_cons] at hsorted
  have hjmem : j ∈ pre ++ i :: post := by
    rw [← hsplit]
    exact mem_forRange_one.mpr ⟨hlow, hhigh⟩
  rcases List.mem_append.mp hjmem with hjpre | hjpost
  · exact absurd hj (by simpa using hpre j hjpre)
  · rcases List.mem_cons.mp hjpost with rfl | hjpost
    · exact le_rfl
    · exact Nat.le_of_lt (hsorted.2.1.1 j hjpost)

end Foundation
end ArmyRs
