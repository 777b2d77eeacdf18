import Mathlib.Data.List.Pairwise

/-!
# Parties in a list

Concurrent parties that are kept in a list and named by their place in it.  A step
changes one of them.  What a relation says of any two parties is kept when the
changed one still meets it with all others.
-/

namespace ArmyRs
namespace Foundation

variable {Party : Type*} {parties : List Party} {i j : Nat} {party other : Party}

/-- A party after one of them has changed. -/
theorem getElem?_set_some (h : (parties.set i party)[j]? = some other) :
    (j = i ∧ other = party) ∨ (j ≠ i ∧ parties[j]? = some other) := by
  rw [List.getElem?_set] at h
  split at h
  · next hij =>
    split at h
    · cases h
      exact Or.inl ⟨hij.symm, rfl⟩
    · cases h
  · next hij => exact Or.inr ⟨Ne.symm hij, h⟩

/-- What holds of every party. -/
theorem forall_set {P : Party → Prop} (h : ∀ other ∈ parties, P other) (hparty : P party) :
    ∀ other ∈ parties.set i party, P other := by
  intro other hother
  rcases List.mem_or_eq_of_mem_set hother with hold | rfl
  · exact h other hold
  · exact hparty

/-- What holds of any two parties. -/
theorem pairwise_set {R : Party → Party → Prop} (hsymm : ∀ a b, R a b → R b a)
    (h : parties.Pairwise R)
    (hparty : ∀ j other, j ≠ i → parties[j]? = some other → R party other) :
    (parties.set i party).Pairwise R := by
  rw [List.pairwise_iff_getElem] at h ⊢
  intro j k hj hk hlt
  have hcase : ∀ l (hl : l < (parties.set i party).length),
      (l = i ∧ (parties.set i party)[l] = party) ∨
        (l ≠ i ∧ parties[l]? = some (parties.set i party)[l]) :=
    fun l hl => getElem?_set_some (List.getElem?_eq_getElem hl)
  rcases hcase j hj with ⟨rfl, hpartyj⟩ | ⟨hj', hotherj⟩
  · rcases hcase k hk with ⟨rfl, -⟩ | ⟨hk', hotherk⟩
    · exact absurd hlt (Nat.lt_irrefl _)
    · rw [hpartyj]
      exact hparty k _ hk' hotherk
  · rcases hcase k hk with ⟨rfl, hpartyk⟩ | ⟨hk', hotherk⟩
    · rw [hpartyk]
      exact hsymm _ _ (hparty j _ hj' hotherj)
    · obtain ⟨hj'', hgetj⟩ := List.getElem?_eq_some_iff.mp hotherj
      obtain ⟨hk'', hgetk⟩ := List.getElem?_eq_some_iff.mp hotherk
      rw [← hgetj, ← hgetk]
      exact h j k hj'' hk'' hlt

/-- Two parties of a list. -/
theorem pairwise_getElem? {R : Party → Party → Prop} (hsymm : ∀ a b, R a b → R b a)
    (h : parties.Pairwise R) (hi : parties[i]? = some party) (hj : parties[j]? = some other)
    (hne : i ≠ j) : R party other := by
  obtain ⟨hi', rfl⟩ := List.getElem?_eq_some_iff.mp hi
  obtain ⟨hj', rfl⟩ := List.getElem?_eq_some_iff.mp hj
  rw [List.pairwise_iff_getElem] at h
  rcases Nat.lt_or_gt_of_ne hne with hlt | hlt
  · exact h i j hi' hj' hlt
  · exact hsymm _ _ (h j i hj' hi' hlt)

end Foundation
end ArmyRs
