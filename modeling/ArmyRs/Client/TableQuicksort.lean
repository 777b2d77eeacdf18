import ArmyRs.Foundation.Quicksort
import ArmyRs.Landlord.CombatController

/-!
# Sorting a table in place

`table.quicksort` moves the elements of a table by index.  Here a read or a write outside
the table makes the whole call fail, and so does a recursion that is deeper than `fuel`.
`quicksort_eq` says that neither happens, and that the table then reads as the lists of
`Foundation.quicksort` do; `quicksort_sorts` that it is sorted.
-/

namespace ArmyRs
namespace Client

open Foundation

variable {α : Type*}

namespace LuaTable

/-- `t[i]` -/
def get (t : List α) (i : ℤ) : Option α :=
  if 1 ≤ i then t[(i - 1).toNat]? else none

/-- `t[i] = x`, for an index of the table. -/
def set (t : List α) (i : ℤ) (x : α) : Option (List α) :=
  if 1 ≤ i ∧ i ≤ t.length then some (t.set (i - 1).toNat x) else none

/-- One round of the loop over `i`; it answers with the new place of the pivot. -/
def quicksortRound (compare : α → α → Bool) (i pivot : ℤ) (t : List α) :
    Option (ℤ × List α) := do
  let x ← get t i
  let p ← get t pivot
  if compare x p then
    let temp ← get t (pivot + 1)
    let t ← set t (pivot + 1) p
    if i = pivot + 1 then
      let t ← set t pivot temp
      some (pivot + 1, t)
    else
      let x ← get t i
      let t ← set t pivot x
      let t ← set t i temp
      some (pivot + 1, t)
  else some (pivot, t)

/-- The loop, with the number of rounds that are left. -/
def quicksortLoop (compare : α → α → Bool) : ℕ → ℤ → ℤ → List α → Option (ℤ × List α)
  | 0, _, pivot, t => some (pivot, t)
  | rounds + 1, i, pivot, t => do
      let (pivot, t) ← quicksortRound compare i pivot t
      quicksortLoop compare rounds (i + 1) pivot t

def quicksortFrom (compare : α → α → Bool) : ℕ → List α → ℤ → ℤ → Option (List α)
  | 0, _, _, _ => none
  | fuel + 1, t, start, endi =>
      if endi - start < 1 then some t
      else do
        let (pivot, t) ← quicksortLoop compare (endi - start).toNat (start + 1) start t
        let t ← quicksortFrom compare fuel t start (pivot - 1)
        quicksortFrom compare fuel t (pivot + 1) endi

/-- `table.quicksort(t, start, endi, compare)` -/
def quicksort (compare : α → α → Bool) (fuel : ℕ) (t : List α) (start endi : Option ℤ) :
    Option (List α) :=
  quicksortFrom compare fuel t (start.getD 1) (endi.getD t.length)

section

variable {compare : α → α → Bool} {t xs ys front left right rest before after : List α}
  {p x y : α} {i pivot : ℤ}

theorem get_of_eq (xs ys : List α) (ht : t = xs ++ x :: ys) (hi : i = xs.length + 1) :
    get t i = some x := by
  subst ht hi
  have hindex : ((xs.length : ℤ) + 1 - 1).toNat = xs.length := by omega
  rw [get, if_pos (by omega), hindex, List.getElem?_append_right le_rfl, Nat.sub_self]
  rfl

theorem set_of_eq (xs : List α) (x : α) (ys : List α) (ht : t = xs ++ x :: ys)
    (hi : i = xs.length + 1) : set t i y = some (xs ++ y :: ys) := by
  subst ht hi
  have hindex : ((xs.length : ℤ) + 1 - 1).toNat = xs.length := by omega
  rw [set, if_pos ⟨by omega, by simp⟩, hindex, List.set_append_right _ _ le_rfl, Nat.sub_self]
  rfl

/-- An element that compares before the pivot is put in front of it, and the first of the
elements behind the pivot goes to its place. -/
theorem quicksortRound_of_true (hcompare : compare x p = true) (hpivot : pivot = front.length + 1)
    (hi : i = front.length + right.length + 2) :
    quicksortRound compare i pivot (front ++ p :: (right ++ x :: rest)) =
      some (pivot + 1, front ++ x :: p :: (firstToEnd right ++ rest)) := by
  have hx : get (front ++ p :: (right ++ x :: rest)) i = some x :=
    get_of_eq (front ++ p :: right) rest (by simp) (by simp; omega)
  have hp : get (front ++ p :: (right ++ x :: rest)) pivot = some p :=
    get_of_eq front _ rfl hpivot
  unfold quicksortRound
  simp only [hx, hp, Option.bind_eq_bind, Option.bind_some, if_pos hcompare]
  cases right with
  | nil =>
      -- `t[i]` stands right behind the pivot
      have htemp : get (front ++ p :: ([] ++ x :: rest)) (pivot + 1) = some x :=
        get_of_eq (front ++ [p]) rest (by simp) (by simp; omega)
      have hset : set (front ++ p :: ([] ++ x :: rest)) (pivot + 1) p =
          some ((front ++ [p]) ++ p :: rest) :=
        set_of_eq (front ++ [p]) x rest (by simp) (by simp; omega)
      have hplace : set ((front ++ [p]) ++ p :: rest) pivot x = some (front ++ x :: p :: rest) :=
        set_of_eq front p (p :: rest) (by simp) hpivot
      have heq : i = pivot + 1 := by
        simp at hi
        omega
      rw [htemp, Option.bind_some, hset, Option.bind_some, if_pos heq, hplace]
      rfl
  | cons r right =>
      have htemp : get (front ++ p :: (r :: right ++ x :: rest)) (pivot + 1) = some r :=
        get_of_eq (front ++ [p]) (right ++ x :: rest) (by simp) (by simp; omega)
      have hset : set (front ++ p :: (r :: right ++ x :: rest)) (pivot + 1) p =
          some ((front ++ p :: p :: right) ++ x :: rest) := by
        rw [set_of_eq (front ++ [p]) r (right ++ x :: rest) (by simp) (by simp; omega)]
        simp
      have hagain : get ((front ++ p :: p :: right) ++ x :: rest) i = some x :=
        get_of_eq (front ++ p :: p :: right) rest rfl (by simp at hi ⊢; omega)
      have hplace : set ((front ++ p :: p :: right) ++ x :: rest) pivot x =
          some ((front ++ x :: p :: right) ++ x :: rest) := by
        rw [set_of_eq front p (p :: right ++ x :: rest) (by simp) hpivot]
        simp
      have hlast : set ((front ++ x :: p :: right) ++ x :: rest) i r =
          some ((front ++ x :: p :: right) ++ r :: rest) :=
        set_of_eq (front ++ x :: p :: right) x rest rfl (by simp at hi ⊢; omega)
      have hne : i ≠ pivot + 1 := by
        simp at hi
        omega
      rw [htemp, Option.bind_some, hset, Option.bind_some, if_neg hne, hagain, Option.bind_some,
        hplace, Option.bind_some, hlast]
      simp [firstToEnd]

theorem quicksortRound_of_false (hcompare : compare x p = false)
    (hpivot : pivot = front.length + 1) (hi : i = front.length + right.length + 2) :
    quicksortRound compare i pivot (front ++ p :: (right ++ x :: rest)) =
      some (pivot, front ++ p :: (right ++ x :: rest)) := by
  have hx : get (front ++ p :: (right ++ x :: rest)) i = some x :=
    get_of_eq (front ++ p :: right) rest (by simp) (by simp; omega)
  have hp : get (front ++ p :: (right ++ x :: rest)) pivot = some p :=
    get_of_eq front _ rfl hpivot
  unfold quicksortRound
  simp [hx, hp, hcompare]

/-- The loop keeps the sides of the pivot as the pass over the list does. -/
theorem quicksortLoop_eq (todo : List α) (hpivot : pivot = before.length + left.length + 1)
    (hi : i = before.length + left.length + right.length + 2) :
    quicksortLoop compare todo.length i pivot
        (before ++ left ++ p :: (right ++ (todo ++ after))) =
      some ((before.length + (todo.foldl (partitionStep compare p) (left, right)).1.length + 1 : ℤ),
        before ++ (todo.foldl (partitionStep compare p) (left, right)).1 ++
          p :: ((todo.foldl (partitionStep compare p) (left, right)).2 ++ after)) := by
  induction todo generalizing left right i pivot with
  | nil =>
      rw [List.length_nil, quicksortLoop, hpivot]
      simp
  | cons x todo ih =>
      rw [List.length_cons, quicksortLoop, List.foldl_cons, List.cons_append]
      cases hcompare : compare x p with
      | true =>
          have hround : quicksortRound compare i pivot
              (before ++ left ++ p :: (right ++ x :: (todo ++ after))) = some (pivot + 1,
                before ++ left ++ x :: p :: (firstToEnd right ++ (todo ++ after))) :=
            quicksortRound_of_true hcompare (by simpa using hpivot) (by simpa using hi)
          have hstep : partitionStep compare p (left, right) x = (left ++ [x], firstToEnd right) :=
            if_pos hcompare
          have hshape : before ++ left ++ x :: p :: (firstToEnd right ++ (todo ++ after)) =
              before ++ (left ++ [x]) ++ p :: (firstToEnd right ++ (todo ++ after)) := by simp
          have hlength := (firstToEnd_perm right).length_eq
          rw [hround, hstep]
          dsimp only [Option.bind_eq_bind, Option.bind_some]
          rw [hshape]
          exact ih (by simp; omega) (by simp; omega)
      | false =>
          have hround : quicksortRound compare i pivot
              (before ++ left ++ p :: (right ++ x :: (todo ++ after))) = some (pivot,
                before ++ left ++ p :: (right ++ x :: (todo ++ after))) :=
            quicksortRound_of_false hcompare (by simpa using hpivot) (by simpa using hi)
          have hstep : partitionStep compare p (left, right) x = (left, right ++ [x]) :=
            if_neg (by simp [hcompare])
          rw [hround, hstep]
          dsimp only [Option.bind_eq_bind, Option.bind_some]
          rw [List.append_cons right x (todo ++ after)]
          exact ih hpivot (by simp; omega)

/-- One pass over a part of the table. -/
theorem quicksortLoop_partition (compare : α → α → Bool) (before : List α) (p : α)
    (rest after : List α) :
    quicksortLoop compare rest.length (before.length + 2) (before.length + 1)
        (before ++ p :: (rest ++ after)) =
      some ((before.length + (partition compare p rest).1.length + 1 : ℤ),
        before ++ (partition compare p rest).1 ++
          p :: ((partition compare p rest).2 ++ after)) := by
  have hbefore : before ++ p :: (rest ++ after) =
      before ++ [] ++ p :: ([] ++ (rest ++ after)) := by simp
  rw [hbefore]
  exact quicksortLoop_eq rest (by simp) (by simp)

theorem quicksort_nil (compare : α → α → Bool) (fuel : ℕ) :
    Foundation.quicksort compare fuel [] = [] := by
  cases fuel <;> rfl

/-- A part of the table is sorted, and the rest stays as it is. -/
theorem quicksortFrom_eq (compare : α → α → Bool) (fuel : ℕ) (before part after : List α)
    (hfuel : part.length < fuel) :
    quicksortFrom compare fuel (before ++ (part ++ after)) (before.length + 1)
        (before.length + part.length) =
      some (before ++ (Foundation.quicksort compare fuel part ++ after)) := by
  induction fuel generalizing before part after with
  | zero => cases hfuel
  | succ fuel ih =>
      cases part with
      | nil =>
          rw [quicksortFrom, if_pos (by simp), quicksort_nil]
      | cons p rest =>
          by_cases hrest : rest = []
          · subst hrest
            rw [quicksortFrom, if_pos (by simp), Foundation.quicksort]
            simp [Foundation.partition, quicksort_nil]
          · have hpos := List.length_pos_of_ne_nil hrest
            rw [List.length_cons] at hfuel
            -- one pass, then the two sides
            have hperm : ((partition compare p rest).1 ++ (partition compare p rest).2).Perm rest :=
              partition_perm rest
            have hsides := hperm.length_eq
            rw [List.length_append] at hsides
            have hrounds : ((before.length : ℤ) + (p :: rest).length - (before.length + 1)).toNat =
                rest.length := by
              rw [List.length_cons]
              omega
            have hlength := (quicksort_perm compare fuel (partition compare p rest).1).length_eq
            have hleft := ih before (partition compare p rest).1
              (p :: ((partition compare p rest).2 ++ after)) (by omega)
            have hright := ih
              (before ++ Foundation.quicksort compare fuel (partition compare p rest).1 ++ [p])
              (partition compare p rest).2 after (by omega)
            have hstart : ((before ++ Foundation.quicksort compare fuel
                (partition compare p rest).1 ++ [p]).length : ℤ) + 1 =
                before.length + (partition compare p rest).1.length + 1 + 1 := by
              simp only [List.length_append, List.length_singleton]
              omega
            have hend : ((before ++ Foundation.quicksort compare fuel
                (partition compare p rest).1 ++ [p]).length : ℤ) +
                (partition compare p rest).2.length = before.length + (p :: rest).length := by
              simp only [List.length_append, List.length_cons, List.length_nil]
              omega
            rw [hstart, hend] at hright
            rw [quicksortFrom, if_neg (by rw [List.length_cons]; omega), hrounds, add_assoc,
              List.cons_append]
            norm_num only
            rw [quicksortLoop_partition]
            dsimp only [Option.bind_eq_bind, Option.bind_some]
            rw [add_sub_cancel_right, List.append_assoc, hleft]
            dsimp only [Option.bind_some]
            have hshape :
                before ++ (Foundation.quicksort compare fuel (partition compare p rest).1 ++
                  p :: ((partition compare p rest).2 ++ after)) =
                before ++ Foundation.quicksort compare fuel (partition compare p rest).1 ++ [p] ++
                  ((partition compare p rest).2 ++ after) := by simp
            rw [hshape, hright, Foundation.quicksort]
            simp

/-- On a whole table it does what the quicksort of lists does. -/
theorem quicksort_eq (compare : α → α → Bool) {fuel : ℕ} {t : List α} (hfuel : t.length < fuel) :
    quicksort compare fuel t none none = some (Foundation.quicksort compare t.length t) := by
  have hpart := quicksortFrom_eq compare fuel [] t [] hfuel
  rw [quicksort_of_le compare (le_of_lt hfuel) le_rfl] at hpart
  simpa [quicksort] using hpart

/-- For every comparison that decides a total preorder, the call returns a sorted
permutation of the table. -/
theorem quicksort_sorts (compare : α → α → Bool)
    (htotal : ∀ x y, compare x y = true ∨ compare y x = true)
    (htrans : ∀ x y z, compare x y = true → compare y z = true → compare x z = true)
    (t : List α) :
    ∃ sorted, (∀ fuel, t.length < fuel → quicksort compare fuel t none none = some sorted) ∧
      sorted.Perm t ∧ sorted.Pairwise fun x y => compare x y = true := by
  refine ⟨Foundation.quicksort compare t.length t, fun fuel hfuel => quicksort_eq compare hfuel,
    quicksort_perm compare t.length t, ?_⟩
  refine quicksort_pairwise (fun x y hxy => hxy) ?_ htrans t.length t le_rfl
  intro x y hxy
  exact (htotal x y).resolve_left (by simp [hxy])

/-- Weights, some of them equal. -/
theorem quicksort_sorts_weights :
    ∃ sorted, (∀ fuel, [3, 1, 3, 2, 1].length < fuel →
        quicksort (fun x y : ℕ => decide (x ≤ y)) fuel [3, 1, 3, 2, 1] none none = some sorted) ∧
      sorted.Perm [3, 1, 3, 2, 1] ∧ sorted.Pairwise fun x y => decide (x ≤ y) = true :=
  quicksort_sorts (fun x y : ℕ => decide (x ≤ y)) (by simpa using le_total)
    (by simpa using fun x y z => @le_trans ℕ _ x y z) [3, 1, 3, 2, 1]

end

end LuaTable

/-! ## Cards -/

/-- `CombatController:sort` -/
def sort (cards : List Landlord.Card) (asc : Bool) (fuel : ℕ) : Option (List Landlord.Card) :=
  if asc then LuaTable.quicksort (fun x y => decide (x.weight ≤ y.weight)) fuel cards none none
  else LuaTable.quicksort (fun x y => decide (x.weight ≥ y.weight)) fuel cards none none

/-- The hands are sorted by this call. -/
theorem sort_eq_sortCards {cards : List Landlord.Card} {fuel : ℕ} (hfuel : cards.length < fuel) :
    sort cards true fuel = some (Landlord.sortCards cards) :=
  LuaTable.quicksort_eq _ hfuel

end Client
end ArmyRs
