import ArmyRs.Foundation.LinkedLists
import Mathlib.Logic.Relation

/-!
# Chains that share an array of links

Every place of an array has a link, and the places in use are divided into chains.  A
chain is named by the place it begins with, its home.  The array is searched along the
links of one chain.

A place is put to use as the beginning of a chain of its own (`Chains.put`) or behind the
beginning of another chain (`Chains.insertBehind`), and a place that is not the beginning
of its chain can be taken out of it (`Chains.remove`).
-/

namespace ArmyRs
namespace Foundation

variable {ι : Type*} [DecidableEq ι]

/-- The places of a list have the links of that list. -/
def LinkedBy (next : ι → Option ι) (l : List ι) : Prop := ∀ a ∈ l, next a = nextIn l a

/-- The first place of a chain that passes a test: nothing when the fuel runs out, and
`some none` when the chain ends. -/
def search (next : ι → Option ι) (test : ι → Bool) : ℕ → ι → Option (Option ι)
  | 0, _ => none
  | fuel + 1, a =>
    if test a then some (some a)
    else
      match next a with
      | none => some none
      | some b => search next test fuel b

section

variable {next next' : ι → Option ι} {test : ι → Bool} {a b : ι} {l : List ι}

theorem LinkedBy.congr (h : LinkedBy next l) (hsame : ∀ a ∈ l, next' a = next a) :
    LinkedBy next' l := by
  intro a ha
  rw [hsame a ha, h a ha]

theorem LinkedBy.of_append_right (xs : List ι) (h : LinkedBy next (xs ++ l))
    (hnodup : (xs ++ l).Nodup) : LinkedBy next l := by
  intro b hb
  have hnot : b ∉ xs := fun hmem => List.disjoint_of_nodup_append hnodup hmem hb
  rw [h b (List.mem_append_right xs hb), nextIn_append_right hnot]

/-- The search visits the places in their order. -/
theorem search_eq {fuel : ℕ} (h : LinkedBy next (a :: l)) (hnodup : (a :: l).Nodup)
    (hfuel : l.length < fuel) : search next test fuel a = some ((a :: l).find? test) := by
  induction fuel generalizing a l with
  | zero => omega
  | succ fuel ih =>
    rw [search]
    by_cases htest : test a = true
    · rw [if_pos htest, List.find?_cons_of_pos htest]
    · rw [if_neg htest, List.find?_cons_of_neg htest, h a List.mem_cons_self, nextIn_cons_self]
      cases l with
      | nil => rfl
      | cons b l =>
        have hrest : LinkedBy next (b :: l) := h.of_append_right [a] hnodup
        exact ih hrest (List.nodup_cons.mp hnodup).2 (by simpa using hfuel)

/-- Along the links the places of a list come in their order. -/
theorem LinkedBy.idxOf_lt (h : LinkedBy next l) (hnodup : l.Nodup) (ha : a ∈ l)
    (hab : Relation.TransGen (fun a b => next a = some b) a b) :
    b ∈ l ∧ l.idxOf a < l.idxOf b := by
  have hstep : ∀ a b, a ∈ l → next a = some b → b ∈ l ∧ l.idxOf a < l.idxOf b := by
    intro a b ha hnext
    rw [h a ha] at hnext
    obtain ⟨front, back, rfl⟩ := (nextIn_eq_some_iff hnodup).mp hnext
    have hfront : a ∉ front ∧ b ∉ front ∧ a ≠ b := by
      have hdisjoint := List.disjoint_of_nodup_append hnodup
      have hrest := List.nodup_cons.mp hnodup.of_append_right
      refine ⟨fun hmem => hdisjoint hmem (by simp), fun hmem => hdisjoint hmem (by simp), ?_⟩
      rintro rfl
      exact hrest.1 List.mem_cons_self
    refine ⟨by simp, ?_⟩
    rw [List.idxOf_append_of_notMem hfront.1, List.idxOf_append_of_notMem hfront.2.1,
      List.idxOf_cons_self, List.idxOf_cons_ne _ hfront.2.2]
    omega
  induction hab with
  | single hnext => exact hstep _ _ ha hnext
  | tail _ hnext ih =>
    obtain ⟨hmem, hlt⟩ := ih
    obtain ⟨hmem', hlt'⟩ := hstep _ _ hmem hnext
    exact ⟨hmem', hlt.trans hlt'⟩

end

/-- The places in use, divided into chains by their homes.  A place that is not in use has
no link. -/
structure Chains (next home : ι → Option ι) (chain : ι → List ι) : Prop where
  linked : ∀ h, LinkedBy next (chain h)
  nodup : ∀ h, (chain h).Nodup
  first : ∀ h i l, chain h = i :: l → i = h
  mem_iff : ∀ h i, i ∈ chain h ↔ home i = some h
  free : ∀ i, home i = none → next i = none

namespace Chains

variable {next home : ι → Option ι} {chain : ι → List ι} {h i p s t : ι}

theorem empty : Chains (fun _ : ι => none) (fun _ => none) (fun _ => []) where
  linked := fun _ _ hmem => absurd hmem List.not_mem_nil
  nodup := fun _ => List.nodup_nil
  first := fun _ _ _ heq => by cases heq
  mem_iff := fun _ _ => by simp
  free := fun _ _ => rfl

/-- A chain with any place in it begins with its home. -/
theorem eq_cons (hc : Chains next home chain) (hi : home i = some h) :
    ∃ l, chain h = h :: l := by
  have hmem : i ∈ chain h := (hc.mem_iff h i).mpr hi
  cases hl : chain h with
  | nil =>
    rw [hl] at hmem
    cases hmem
  | cons a l => exact ⟨l, by rw [hc.first h a l hl]⟩

/-- The home of a place in use is in use, and at home. -/
theorem home_home (hc : Chains next home chain) (hi : home i = some h) : home h = some h := by
  obtain ⟨l, hl⟩ := hc.eq_cons hi
  rw [← hc.mem_iff, hl]
  exact List.mem_cons_self

/-- No place is reached from itself. -/
theorem acyclic (hc : Chains next home chain) (i : ι) :
    ¬ Relation.TransGen (fun a b => next a = some b) i i := by
  intro hcycle
  cases hhome : home i with
  | none =>
    obtain ⟨b, hnext, -⟩ := Relation.TransGen.head'_iff.mp hcycle
    rw [hc.free i hhome] at hnext
    cases hnext
  | some h =>
    have hmem : i ∈ chain h := (hc.mem_iff h i).mpr hhome
    exact lt_irrefl _ ((hc.linked h).idxOf_lt (hc.nodup h) hmem hcycle).2

/-! ## Changing one chain -/

/-- One chain is changed, and the links of the others are left alone. -/
theorem update (hc : Chains next home chain) {next' home' : ι → Option ι} {l : List ι}
    (hlinked : LinkedBy next' l) (hnodup : l.Nodup) (hfirst : ∀ i rest, l = i :: rest → i = h)
    (hmem : ∀ i, i ∈ l ↔ home' i = some h)
    (hother : ∀ k, k ≠ h → ∀ i, home' i = some k ↔ home i = some k)
    (hlinks : ∀ k, k ≠ h → ∀ i, home i = some k → next' i = next i)
    (hfree : ∀ i, home' i = none → next' i = none) :
    Chains next' home' (Function.update chain h l) := by
  constructor
  case linked =>
    intro k
    by_cases heq : k = h
    · rw [heq, Function.update_self]
      exact hlinked
    · rw [Function.update_of_ne heq]
      exact (hc.linked k).congr fun i hi => hlinks k heq i ((hc.mem_iff k i).mp hi)
  case nodup =>
    intro k
    by_cases heq : k = h
    · rw [heq, Function.update_self]
      exact hnodup
    · rw [Function.update_of_ne heq]
      exact hc.nodup k
  case first =>
    intro k i rest hl
    by_cases heq : k = h
    · rw [heq, Function.update_self] at hl
      rw [heq]
      exact hfirst i rest hl
    · rw [Function.update_of_ne heq] at hl
      exact hc.first k i rest hl
  case mem_iff =>
    intro k i
    by_cases heq : k = h
    · rw [heq, Function.update_self]
      exact hmem i
    · rw [Function.update_of_ne heq, hother k heq i]
      exact hc.mem_iff k i
  case free => exact hfree

/-- A free place becomes the beginning of its own chain. -/
theorem put (hc : Chains next home chain) (hh : home h = none) :
    Chains next (Function.update home h (some h)) (Function.update chain h [h]) := by
  have hnone : ∀ i, home i ≠ some h := by
    intro i hi
    have hhome := hc.home_home hi
    rw [hh] at hhome
    cases hhome
  apply hc.update
  · intro i hi
    rw [List.mem_singleton] at hi
    rw [hi, hc.free h hh]
    rfl
  · exact List.nodup_singleton h
  · intro i rest hl
    cases hl
    rfl
  · intro i
    by_cases heq : i = h
    · simp [heq]
    · simp [heq, hnone i]
  · intro k hk i
    by_cases heq : i = h
    · simp [heq, hh, Ne.symm hk]
    · rw [Function.update_of_ne heq]
  · exact fun _ _ _ _ => rfl
  · intro i hi
    by_cases heq : i = h
    · rw [heq, Function.update_self] at hi
      cases hi
    · rw [Function.update_of_ne heq] at hi
      exact hc.free i hi

/-- A free place becomes the second one of a chain. -/
theorem insertBehind (hc : Chains next home chain) (hh : home h = some h) (ht : home t = none) :
    ∃ chain', Chains (Function.update (Function.update next t (next h)) h (some t))
      (Function.update home t (some h)) chain' := by
  obtain ⟨l, hl⟩ := hc.eq_cons hh
  have hne : t ≠ h := by
    rintro rfl
    rw [ht] at hh
    cases hh
  have htnot : t ∉ chain h := by
    intro hmem
    rw [hc.mem_iff, ht] at hmem
    cases hmem
  have hnodup : (h :: t :: l).Nodup := by
    have hold := hc.nodup h
    rw [hl] at hold htnot
    rw [List.mem_cons, not_or] at htnot
    rw [List.nodup_cons] at hold ⊢
    refine ⟨?_, List.nodup_cons.mpr ⟨htnot.2, hold.2⟩⟩
    rw [List.mem_cons, not_or]
    exact ⟨Ne.symm hne, hold.1⟩
  have hnext : nextIn (h :: t :: l) =
      Function.update (Function.update (nextIn (h :: l)) h (some t)) t l.head? :=
    @nextIn_insert ι _ [] l t h hnodup
  have hold : LinkedBy next (h :: l) := hl ▸ hc.linked h
  -- the goals are those of `update`, in its order
  refine ⟨_, hc.update (h := h) (l := h :: t :: l) ?_ hnodup ?_ ?_ ?_ ?_ ?_⟩
  · intro i hi
    rw [hnext]
    by_cases hit : i = t
    · rw [hit, Function.update_of_ne hne, Function.update_self, Function.update_self,
        hold h List.mem_cons_self, nextIn_cons_self]
    · by_cases hih : i = h
      · rw [hih, Function.update_self, Function.update_of_ne (Ne.symm hne), Function.update_self]
      · rw [Function.update_of_ne hih, Function.update_of_ne hit, Function.update_of_ne hit,
          Function.update_of_ne hih]
        exact hold i (by simpa [hit] using hi)
  · intro i rest heq
    cases heq
    rfl
  · intro i
    by_cases hit : i = t
    · simp [hit]
    · have hmem := hc.mem_iff h i
      rw [hl] at hmem
      rw [Function.update_of_ne hit, ← hmem]
      simp [hit]
  · intro k hk i
    by_cases hit : i = t
    · simp [hit, ht, Ne.symm hk]
    · rw [Function.update_of_ne hit]
  · intro k hk i hi
    have hih : i ≠ h := by
      rintro rfl
      rw [hh] at hi
      cases hi
      exact hk rfl
    have hit : i ≠ t := by
      rintro rfl
      rw [ht] at hi
      cases hi
    rw [Function.update_of_ne hih, Function.update_of_ne hit]
  · intro i hi
    have hit : i ≠ t := by
      rintro rfl
      rw [Function.update_self] at hi
      cases hi
    rw [Function.update_of_ne hit] at hi
    have hih : i ≠ h := by
      rintro rfl
      rw [hh] at hi
      cases hi
    rw [Function.update_of_ne hih, Function.update_of_ne hit]
    exact hc.free i hi

/-- A place that is not at home has a place in front of it. -/
theorem exists_before (hc : Chains next home chain) (hs : home s = some h) (hne : s ≠ h) :
    ∃ p ∈ chain h, next p = some s := by
  have hmem : s ∈ chain h := (hc.mem_iff h s).mpr hs
  obtain ⟨xs, ys, hsplit⟩ := List.append_of_mem hmem
  rcases List.eq_nil_or_concat' xs with rfl | ⟨front, p, rfl⟩
  · exact absurd (hc.first h s ys hsplit) hne
  · have hp : p ∈ chain h := by simp [hsplit]
    refine ⟨p, hp, ?_⟩
    rw [hc.linked h p hp, nextIn_eq_some_iff (hc.nodup h)]
    exact ⟨front, ys, by simp [hsplit]⟩

/-- A place is taken out: the one in front of it gets its link. -/
theorem remove (hc : Chains next home chain) (hs : home s = some h) (hp : p ∈ chain h)
    (hps : next p = some s) :
    ∃ chain', Chains (Function.update (Function.update next p (next s)) s none)
      (Function.update home s none) chain' := by
  rw [hc.linked h p hp, nextIn_eq_some_iff (hc.nodup h)] at hps
  obtain ⟨xs, ys, hsplit⟩ := hps
  have hsplit' : chain h = xs ++ [p] ++ s :: ys := by simp [hsplit]
  have hnodup : (xs ++ [p] ++ s :: ys).Nodup := hsplit' ▸ hc.nodup h
  have hnext : nextIn (xs ++ [p] ++ ys) =
      Function.update (Function.update (nextIn (xs ++ [p] ++ s :: ys)) p ys.head?) s none :=
    nextIn_remove hnodup
  have hnot : s ∉ xs ++ [p] ++ ys := by
    have hmiddle := List.nodup_middle.mp hnodup
    exact (List.nodup_cons.mp hmiddle).1
  have hlink : next s = ys.head? := by
    rw [hc.linked h s ((hc.mem_iff h s).mpr hs), hsplit', nextIn_middle hnodup]
  refine ⟨_, hc.update (h := h) (l := xs ++ [p] ++ ys) ?_ ?_ ?_ ?_ ?_ ?_ ?_⟩
  · intro i hi
    have his : i ≠ s := by
      rintro rfl
      exact hnot hi
    have hmem : i ∈ chain h := by
      rw [hsplit']
      simp only [List.mem_append, List.mem_cons] at hi ⊢
      tauto
    rw [hnext, Function.update_of_ne his, Function.update_of_ne his, hlink]
    by_cases hip : i = p
    · rw [hip, Function.update_self, Function.update_self]
    · rw [Function.update_of_ne hip, Function.update_of_ne hip, hc.linked h i hmem, hsplit']
  · exact (List.nodup_cons.mp (List.nodup_middle.mp hnodup)).2
  · intro i rest hl
    cases xs with
    | nil =>
      cases hl
      exact hc.first h _ _ hsplit
    | cons x xs =>
      cases hl
      exact hc.first h _ _ hsplit
  · intro i
    by_cases his : i = s
    · rw [his, Function.update_self]
      exact iff_of_false hnot (by simp)
    · rw [Function.update_of_ne his, ← hc.mem_iff, hsplit']
      simp [his]
  · intro k hk i
    by_cases his : i = s
    · rw [his, Function.update_self, hs]
      simp [Ne.symm hk]
    · rw [Function.update_of_ne his]
  · intro k hk i hi
    have hip : i ≠ p := by
      rintro rfl
      rw [(hc.mem_iff h i).mp hp] at hi
      cases hi
      exact hk rfl
    have his : i ≠ s := by
      rintro rfl
      rw [hs] at hi
      cases hi
      exact hk rfl
    rw [Function.update_of_ne his, Function.update_of_ne hip]
  · intro i hi
    by_cases his : i = s
    · rw [his, Function.update_self]
    · rw [Function.update_of_ne his] at hi
      have hip : i ≠ p := by
        rintro rfl
        rw [(hc.mem_iff h i).mp hp] at hi
        cases hi
      rw [Function.update_of_ne his, Function.update_of_ne hip]
      exact hc.free i hi

end Chains

end Foundation
end ArmyRs
