import Mathlib.Order.Compare
import Mathlib.Tactic

/-!
# Binary search

The keys of a list get greater from its first entry to its last.  `bisect` halves the list;
it finds the entry with a key or, when there is none, the place where it belongs
(`bisect_spec`), so that it is `findKey` made faster (`bisect_toOption`).  A list with a
new entry in its place is again in order (`Ascending.insertAt`).
-/

namespace ArmyRs
namespace Foundation

variable {α β : Type*} [LinearOrder β]

/-- The keys get greater. -/
def Ascending (key : α → β) (xs : List α) : Prop := xs.Pairwise fun a b => key a < key b

/-- The entry with a key, or the place where it belongs.  It is between `first` and `stop`. -/
def bisect (key : α → β) (xs : List α) (x : β) : ℕ → ℕ → ℕ → Except ℕ α
  | 0, first, _ => .error first
  | fuel + 1, first, stop =>
      if first < stop then
        match xs[(first + (stop - 1)) / 2]? with
        | none => .error first
        | some a =>
            if key a = x then .ok a
            else if key a < x then bisect key xs x fuel ((first + (stop - 1)) / 2 + 1) stop
            else bisect key xs x fuel first ((first + (stop - 1)) / 2)
      else .error first

/-- The entry with a key. -/
def findKey (key : α → β) (xs : List α) (x : β) : Option α := xs.find? fun b => key b = x

def insertAt (xs : List α) (n : ℕ) (a : α) : List α := xs.take n ++ a :: xs.drop n

section

variable {key : α → β} {xs : List α} {x y : β} {a b : α} {n first stop fuel : ℕ}

/-- What is before an entry is less, and what is behind it is greater. -/
theorem Ascending.around (h : Ascending key xs) (ha : xs[n]? = some a) :
    (∀ b ∈ xs.take (n + 1), key b ≤ key a) ∧ ∀ b ∈ xs.drop n, key a ≤ key b := by
  obtain ⟨hn, rfl⟩ := List.getElem?_eq_some_iff.mp ha
  have hsplit := h
  unfold Ascending at hsplit
  rw [← List.take_append_drop n xs, List.drop_eq_getElem_cons hn, List.pairwise_append,
    List.pairwise_cons] at hsplit
  obtain ⟨-, ⟨hbehind, -⟩, hbefore⟩ := hsplit
  constructor
  · intro b hb
    rw [List.take_succ_eq_append_getElem hn, List.mem_append, List.mem_singleton] at hb
    rcases hb with hb | rfl
    · exact (hbefore b hb _ List.mem_cons_self).le
    · exact le_rfl
  · intro b hb
    rw [List.drop_eq_getElem_cons hn] at hb
    rcases List.mem_cons.mp hb with rfl | hb
    · exact le_rfl
    · exact (hbehind b hb).le

/-- The entry that belongs to the key, or the place for it. -/
def Answers (key : α → β) (xs : List α) (x : β) : Except ℕ α → Prop
  | .ok a => a ∈ xs ∧ key a = x
  | .error n => (∀ a ∈ xs.take n, key a < x) ∧ ∀ a ∈ xs.drop n, x < key a

theorem bisect_spec (h : Ascending key xs) (hfuel : stop - first ≤ fuel) (hstop : stop ≤ xs.length)
    (hfirst : first ≤ stop) (hbelow : ∀ a ∈ xs.take first, key a < x)
    (habove : ∀ a ∈ xs.drop stop, x < key a) :
    Answers key xs x (bisect key xs x fuel first stop) := by
  induction fuel generalizing first stop with
  | zero =>
      have heq : first = stop := by omega
      subst heq
      exact ⟨hbelow, habove⟩
  | succ fuel ih =>
      unfold bisect
      split
      · next hlt =>
        have hmid : (first + (stop - 1)) / 2 < xs.length := by omega
        rw [List.getElem?_eq_getElem hmid]
        obtain ⟨hbefore, hbehind⟩ := h.around (List.getElem?_eq_getElem hmid)
        dsimp only
        split
        · next heq => exact ⟨List.getElem_mem hmid, heq⟩
        · next hne =>
          split
          · next hless =>
            refine ih (by omega) hstop (by omega) (fun b hb => ?_) habove
            exact (hbefore b hb).trans_lt hless
          · next hnot =>
            have hgreater := lt_of_le_of_ne (not_lt.mp hnot) (Ne.symm hne)
            refine ih (by omega) (by omega) (by omega) hbelow fun b hb => ?_
            exact hgreater.trans_le (hbehind b hb)
      · have heq : first = stop := by omega
        subst heq
        exact ⟨hbelow, habove⟩

/-- The whole list is searched. -/
theorem bisect_all (h : Ascending key xs) (x : β) :
    Answers key xs x (bisect key xs x xs.length 0 xs.length) :=
  bisect_spec h (by omega) le_rfl (Nat.zero_le _) (by simp) (by simp)

theorem Ascending.unique (h : Ascending key xs) (ha : a ∈ xs) (hb : b ∈ xs)
    (hkey : key a = key b) : a = b := by
  induction xs with
  | nil => cases ha
  | cons c rest ih =>
      obtain ⟨hfirst, hrest⟩ := List.pairwise_cons.mp h
      rcases List.mem_cons.mp ha with rfl | hainner
      · rcases List.mem_cons.mp hb with rfl | hbinner
        · rfl
        · exact absurd hkey (hfirst b hbinner).ne
      · rcases List.mem_cons.mp hb with rfl | hbinner
        · exact absurd hkey (hfirst a hainner).ne'
        · exact ih hrest hainner hbinner

theorem Ascending.findKey_eq_some_iff (h : Ascending key xs) :
    findKey key xs x = some a ↔ a ∈ xs ∧ key a = x := by
  unfold findKey
  constructor
  · intro hfind
    exact ⟨List.mem_of_find?_eq_some hfind, by simpa using List.find?_some hfind⟩
  · rintro ⟨ha, rfl⟩
    obtain ⟨b, hb⟩ : ∃ b, xs.find? (fun b => key b = key a) = some b :=
      Option.isSome_iff_exists.mp (List.find?_isSome.mpr ⟨a, ha, by simp⟩)
    rw [hb, h.unique (List.mem_of_find?_eq_some hb) ha (by simpa using List.find?_some hb)]

/-- The search finds the entry. -/
theorem bisect_toOption (h : Ascending key xs) (x : β) :
    (bisect key xs x xs.length 0 xs.length).toOption = findKey key xs x := by
  have hanswers := bisect_all h x
  cases hsearch : bisect key xs x xs.length 0 xs.length with
  | ok a =>
      rw [hsearch] at hanswers
      exact (h.findKey_eq_some_iff.mpr hanswers).symm
  | error n =>
      rw [hsearch] at hanswers
      obtain ⟨hbelow, habove⟩ := hanswers
      refine Eq.symm (List.find?_eq_none.mpr fun b hb => ?_)
      rw [← List.take_append_drop n xs, List.mem_append] at hb
      rcases hb with hb | hb
      · simpa using (hbelow b hb).ne
      · simpa using (habove b hb).ne'

theorem Ascending.findKey_filter (h : Ascending key xs) (p : α → Bool) (x : β) :
    findKey key (xs.filter p) x = (findKey key xs x).filter p := by
  have hfiltered : Ascending key (xs.filter p) := List.Pairwise.filter p h
  ext a
  rw [hfiltered.findKey_eq_some_iff, Option.filter_eq_some_iff, h.findKey_eq_some_iff, List.mem_filter]
  tauto

theorem mem_insertAt : b ∈ insertAt xs n a ↔ b = a ∨ b ∈ xs := by
  unfold insertAt
  conv_rhs => rw [← List.take_append_drop n xs]
  simp only [List.mem_append, List.mem_cons]
  tauto

theorem Ascending.insertAt (h : Ascending key xs) (hbelow : ∀ b ∈ xs.take n, key b < key a)
    (habove : ∀ b ∈ xs.drop n, key a < key b) : Ascending key (insertAt xs n a) := by
  unfold Ascending at h
  rw [← List.take_append_drop n xs, List.pairwise_append] at h
  obtain ⟨hfront, hback, hcross⟩ := h
  refine List.pairwise_append.mpr ⟨hfront, List.pairwise_cons.mpr ⟨habove, hback⟩, ?_⟩
  intro b hb c hc
  rcases List.mem_cons.mp hc with rfl | hc
  · exact hbelow b hb
  · exact hcross b hb c hc

/-- What is found after an insertion. -/
theorem Ascending.findKey_insertAt (h : Ascending key (Foundation.insertAt xs n a))
    (hxs : Ascending key xs) (y : β) :
    findKey key (Foundation.insertAt xs n a) y =
      if key a = y then some a else findKey key xs y := by
  ext b
  rw [h.findKey_eq_some_iff, mem_insertAt]
  split
  · next hkey =>
    constructor
    · rintro ⟨hmem, hb⟩
      rw [h.unique (mem_insertAt.mpr (Or.inl rfl)) (mem_insertAt.mpr hmem) (hkey.trans hb.symm)]
    · intro hb
      cases hb
      exact ⟨Or.inl rfl, hkey⟩
  · next hkey =>
    rw [hxs.findKey_eq_some_iff]
    constructor
    · rintro ⟨rfl | hb, hy⟩
      · exact absurd hy hkey
      · exact ⟨hb, hy⟩
    · rintro ⟨hb, hy⟩
      exact ⟨Or.inr hb, hy⟩

end

end Foundation
end ArmyRs
