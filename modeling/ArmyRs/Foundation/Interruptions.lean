import Mathlib.Data.List.AList
import Mathlib.Data.List.Forall2

/-!
# Loops that may be interrupted

A body changes a state and may raise; what it has changed until then stays.  `sweep`
runs a body over the elements of a list one after the other, `updateEach` updates
the elements in place.  Both stop at the first element that raises.

What a loop that went through leaves, and what one that stopped leaves, are found
from one invariant of the elements that are done (`sweep_cases`).
-/

namespace ArmyRs
namespace Foundation

section

variable {S A : Type*} {body : S → A → S × Bool} {s : S}

/-- The body for each element, and whether none of them raised. -/
def sweep (body : S → A → S × Bool) (s : S) : List A → S × Bool
  | [] => (s, true)
  | a :: rest => if (body s a).2 then sweep body (body s a).1 rest else ((body s a).1, false)

@[simp] theorem sweep_nil : sweep body s [] = (s, true) := rfl

theorem sweep_cons_of_ok {a : A} {rest : List A} (hok : (body s a).2 = true) :
    sweep body s (a :: rest) = sweep body (body s a).1 rest := by
  simp [sweep, hok]

theorem sweep_cons_of_raise {a : A} {rest : List A} (hraise : (body s a).2 = false) :
    sweep body s (a :: rest) = ((body s a).1, false) := by
  simp [sweep, hraise]

/-- A loop that went through some elements goes on with the others. -/
theorem sweep_append {xs : List A} (ys : List A) (hok : (sweep body s xs).2 = true) :
    sweep body s (xs ++ ys) = sweep body (sweep body s xs).1 ys := by
  induction xs generalizing s with
  | nil => rfl
  | cons a rest ih =>
      cases hstep : (body s a).2 with
      | true =>
          rw [List.cons_append, sweep_cons_of_ok hstep, sweep_cons_of_ok hstep]
          rw [sweep_cons_of_ok hstep] at hok
          exact ih hok
      | false => simp [sweep_cons_of_raise hstep] at hok

theorem sweep_ok_left {xs ys : List A} (hok : (sweep body s (xs ++ ys)).2 = true) :
    (sweep body s xs).2 = true := by
  induction xs generalizing s with
  | nil => rfl
  | cons a rest ih =>
      cases hstep : (body s a).2 with
      | true =>
          rw [List.cons_append, sweep_cons_of_ok hstep] at hok
          rw [sweep_cons_of_ok hstep]
          exact ih hok
      | false => simp [sweep_cons_of_raise hstep] at hok

theorem sweep_snoc {xs : List A} (a : A) (hok : (sweep body s xs).2 = true) :
    sweep body s (xs ++ [a]) = body (sweep body s xs).1 a := by
  rw [sweep_append [a] hok]
  cases hstep : (body (sweep body s xs).1 a).2 with
  | true => rw [sweep_cons_of_ok hstep, sweep_nil, ← hstep]
  | false => rw [sweep_cons_of_raise hstep, ← hstep]

/-- What every body keeps, the loop keeps, also when it is interrupted. -/
theorem sweep_keeps {P : S → Prop} (hkeep : ∀ s a, P s → P (body s a).1) (h : P s)
    (xs : List A) : P (sweep body s xs).1 := by
  induction xs generalizing s with
  | nil => exact h
  | cons a rest ih =>
      cases hstep : (body s a).2 with
      | true =>
          rw [sweep_cons_of_ok hstep]
          exact ih (hkeep s a h)
      | false =>
          rw [sweep_cons_of_raise hstep]
          exact hkeep s a h

/-- The loop went through, with the invariant of all elements, or an element raised
in a state with the invariant of the ones before it. -/
theorem sweep_cases {Inv : List A → S → Prop} (hstart : Inv [] s)
    (hstep : ∀ done a t, Inv done t → (body t a).2 = true → Inv (done ++ [a]) (body t a).1)
    (xs : List A) :
    ((sweep body s xs).2 = true ∧ Inv xs (sweep body s xs).1) ∨
      ∃ done a rest t, xs = done ++ a :: rest ∧ Inv done t ∧ (body t a).2 = false ∧
        sweep body s xs = ((body t a).1, false) := by
  suffices h : ∀ done t, Inv done t →
      ((sweep body t xs).2 = true ∧ Inv (done ++ xs) (sweep body t xs).1) ∨
        ∃ more a rest u, xs = more ++ a :: rest ∧ Inv (done ++ more) u ∧ (body u a).2 = false ∧
          sweep body t xs = ((body u a).1, false) by
    simpa using h [] s hstart
  induction xs with
  | nil => intro done t inv; exact .inl ⟨rfl, by simpa using inv⟩
  | cons a xs ih =>
      intro done t inv
      cases hok : (body t a).2 with
      | false =>
          refine .inr ⟨[], a, xs, t, rfl, by simpa using inv, hok, sweep_cons_of_raise hok⟩
      | true =>
          rw [sweep_cons_of_ok hok]
          rcases ih (done ++ [a]) _ (hstep done a t inv hok) with
            ⟨hthrough, hinv⟩ | ⟨more, b, rest, u, rfl, hinv, hraise, heq⟩
          · exact .inl ⟨hthrough, by simpa using hinv⟩
          · exact .inr ⟨a :: more, b, rest, u, rfl, by simpa using hinv, hraise, heq⟩

end

section

variable {A : Type*} {f : A → A × Bool} {xs : List A}

/-- Every element updated in place, and whether none of the updates raised. -/
def updateEach (f : A → A × Bool) : List A → List A × Bool
  | [] => ([], true)
  | a :: rest =>
      if (f a).2 then ((f a).1 :: (updateEach f rest).1, (updateEach f rest).2)
      else ((f a).1 :: rest, false)

/-- What an update keeps of every element, the loop keeps of the list. -/
theorem map_updateEach {B : Type*} {key : A → B} (hkeep : ∀ a, key (f a).1 = key a) :
    (updateEach f xs).1.map key = xs.map key := by
  induction xs with
  | nil => rfl
  | cons a rest ih =>
      unfold updateEach
      split <;> simp [hkeep, ih]

theorem updateEach_ok_iff : (updateEach f xs).2 = true ↔ ∀ a ∈ xs, (f a).2 = true := by
  induction xs with
  | nil => simp [updateEach]
  | cons a rest ih =>
      unfold updateEach
      cases hstep : (f a).2 <;> simp [hstep, ih]

theorem updateEach_of_ok (hok : (updateEach f xs).2 = true) :
    (updateEach f xs).1 = xs.map fun a => (f a).1 := by
  induction xs with
  | nil => rfl
  | cons a rest ih =>
      unfold updateEach at hok ⊢
      cases hstep : (f a).2 <;> simp_all

end

section

variable {A B C : Type*} {R : A → B → Prop} {R' : B → C → Prop} {Q : A → C → Prop}
  {xs : List A} {ys : List B} {zs : List C}

theorem forall₂_comp (hcomp : ∀ a b c, R a b → R' b c → Q a c) (h : List.Forall₂ R xs ys)
    (h' : List.Forall₂ R' ys zs) : List.Forall₂ Q xs zs := by
  induction h generalizing zs with
  | nil =>
      cases h'
      exact .nil
  | cons hab _ ih =>
      cases h' with
      | cons hbc hrest => exact .cons (hcomp _ _ _ hab hbc) (ih hrest)

/-- Every element on the left is related to one on the right. -/
theorem exists_right_of_forall₂ (h : List.Forall₂ R xs ys) {a : A} (ha : a ∈ xs) :
    ∃ b ∈ ys, R a b := by
  induction h with
  | nil => cases ha
  | cons hab _ ih =>
      rcases List.mem_cons.mp ha with rfl | hrest
      · exact ⟨_, List.mem_cons_self, hab⟩
      · obtain ⟨b, hb, hrel⟩ := ih hrest
        exact ⟨b, List.mem_cons_of_mem _ hb, hrel⟩

theorem exists_left_of_forall₂ (h : List.Forall₂ R xs ys) {b : B} (hb : b ∈ ys) :
    ∃ a ∈ xs, R a b :=
  exists_right_of_forall₂ h.flip hb

end

section

variable {K V : Type*} {f : (Σ _ : K, V) → (Σ _ : K, V) × Bool}

/-- The entries of a table updated in place, under the same keys. -/
def updateTable (f : (Σ _ : K, V) → (Σ _ : K, V) × Bool) (hkeep : ∀ entry, (f entry).1.1 = entry.1)
    (t : AList fun _ : K => V) : (AList fun _ : K => V) × Bool :=
  (⟨(updateEach f t.entries).1, by
      have hkeys : (updateEach f t.entries).1.keys = t.entries.keys := map_updateEach hkeep
      rw [List.NodupKeys, hkeys]
      exact t.nodupKeys⟩,
    (updateEach f t.entries).2)

variable {hkeep : ∀ entry, (f entry).1.1 = entry.1} {t : AList fun _ : K => V}

theorem mem_updateTable (k : K) : k ∈ (updateTable f hkeep t).1 ↔ k ∈ t := by
  have hkeys : (updateEach f t.entries).1.keys = t.entries.keys := map_updateEach hkeep
  change k ∈ (updateEach f t.entries).1.keys ↔ k ∈ t.entries.keys
  rw [hkeys]

variable [DecidableEq K]

theorem updateTable_ok_iff :
    (updateTable f hkeep t).2 = true ↔
      ∀ k v, t.lookup k = some v → (f ⟨k, v⟩).2 = true := by
  change (updateEach f t.entries).2 = true ↔ _
  rw [updateEach_ok_iff]
  constructor
  · intro h k v hv
    exact h _ (AList.mem_lookup_iff.mp hv)
  · rintro h ⟨k, v⟩ hentry
    exact h k v (AList.mem_lookup_iff.mpr hentry)

/-- Where an update went through, the value under a key is the updated one. -/
theorem lookup_updateTable_of_ok (hok : (updateTable f hkeep t).2 = true) {k : K} {v' : V}
    (hv' : (updateTable f hkeep t).1.lookup k = some v') :
    ∃ v, t.lookup k = some v ∧ (f ⟨k, v⟩).1 = ⟨k, v'⟩ := by
  have hentry : (⟨k, v'⟩ : Σ _ : K, V) ∈ (updateEach f t.entries).1 := AList.mem_lookup_iff.mp hv'
  rw [updateEach_of_ok hok] at hentry
  obtain ⟨⟨j, v⟩, hmem, heq⟩ := List.mem_map.mp hentry
  have hkey : j = k := (hkeep ⟨j, v⟩).symm.trans (congrArg Sigma.fst heq)
  subst hkey
  exact ⟨v, AList.mem_lookup_iff.mpr hmem, heq⟩

end

end Foundation
end ArmyRs
