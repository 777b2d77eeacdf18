import Mathlib.Tactic

/-!
# Merging nested hashes

`Hash` is given methods that merge two hashes and whatever hashes they have at one
key.  `deep_merge` concatenates arrays, `deep_merge_hash` should not, and
`deep_substract` should take back what `deep_merge` has done.

It does not quite: arrays and hashes that only the second hash has are emptied and
not removed (`deepSubstract_deepMerge_iff`).  `deep_merge_hash` hands the hashes at
a key to `deep_merge`, so that arrays further down are concatenated after all
(`deepMergeHash_iff`).

A hash is given by what it holds at each key.  The elements of arrays and the other
values are arbitrary.
-/

namespace ArmyRs
namespace Server
namespace HashExt

variable {K S E : Type*}

/-- What a hash holds at a key. -/
inductive Entry (K S E : Type*)
  | absent
  | scalar (s : S)
  | array (xs : List E)
  | hash (entries : K → Entry K S E)

/-! ## deep_merge -/

/-- What the block of `deep_merge` gives for the values of a key, or the one value
if the other hash has none. -/
def mergeEntry : Entry K S E → Entry K S E → Entry K S E
  | .hash h1, .hash h2 => .hash fun k => mergeEntry (h1 k) (h2 k)
  | .array v1, .array v2 => .array (v1 ++ v2)
  | v1, .absent => v1
  | _, v2 => v2

/-- `deep_merge`. -/
def deepMerge (first second : K → Entry K S E) : K → Entry K S E :=
  fun k => mergeEntry (first k) (second k)

/-! ## deep_substract -/

section

variable [DecidableEq S] [DecidableEq E]

/-- What `deep_reject` leaves of a value. -/
def rejectEntry (value : S) : Entry K S E → Entry K S E
  | .hash h => .hash fun k => rejectEntry value (h k)
  | .scalar s => if s = value then .absent else .scalar s
  | v => v

/-- `deep_reject`. -/
def deepReject (value : S) (h : K → Entry K S E) : K → Entry K S E :=
  fun k => rejectEntry value (h k)

/-- What the block of `deep_substract` gives for the values of a key; `mark` is
`:__to_be_removed`. -/
def substractEntry (mark : S) : Entry K S E → Entry K S E → Entry K S E
  | .hash h1, .hash h2 => .hash fun k => rejectEntry mark (substractEntry mark (h1 k) (h2 k))
  | .array v1, .array v2 => .array (v1.filter (· ∉ v2))
  | .scalar v1, .scalar v2 => if v1 = v2 then .scalar mark else .scalar v1
  | .absent, v2 => v2
  | v1, _ => v1

/-- `deep_substract`. -/
def deepSubstract (mark : S) (first second : K → Entry K S E) : K → Entry K S E :=
  deepReject mark fun k => substractEntry mark (first k) (second k)

end

/-! ## deep_merge_hash -/

/-- What the block of `deep_merge_hash` gives. -/
def mergeHashEntry : Entry K S E → Entry K S E → Entry K S E
  | .hash h1, .hash h2 => .hash (deepMerge h1 h2)
  | v1, .absent => v1
  | _, v2 => v2

/-- `deep_merge_hash`. -/
def deepMergeHash (first second : K → Entry K S E) : K → Entry K S E :=
  fun k => mergeHashEntry (first k) (second k)

/-! ## Paths -/

/-- What stands at the end of a path of keys. -/
def Entry.at (v : Entry K S E) : List K → Entry K S E
  | [] => v
  | k :: path =>
      match v with
      | .hash h => (h k).at path
      | _ => .absent
termination_by structural path => path

/-- The path leads to a scalar or to an array. -/
def IsLeaf (h : K → Entry K S E) (path : List K) : Prop :=
  (∃ s, (Entry.hash h).at path = .scalar s) ∨ ∃ xs, (Entry.hash h).at path = .array xs

/-! ## Taking back a merge -/

/-- The mark is nowhere in the value. -/
def Unmarked (mark : S) : Entry K S E → Prop
  | .hash h => ∀ k, Unmarked mark (h k)
  | .scalar s => s ≠ mark
  | _ => True

/-- What the second hash brings in can be taken out again: a scalar at a new key, or
such things in hashes that both have, or the elements of an array that the first one
has none of. -/
def Separate (mark : S) : Entry K S E → Entry K S E → Prop
  | .hash h1, .hash h2 => ∀ k, Separate mark (h1 k) (h2 k)
  | .array v1, .array v2 => ∀ x ∈ v1, x ∉ v2
  | .absent, .scalar _ => True
  | v1, .absent => Unmarked mark v1
  | _, _ => False

section

variable [DecidableEq S] {mark : S}

theorem rejectEntry_idem (v : Entry K S E) :
    rejectEntry mark (rejectEntry mark v) = rejectEntry mark v := by
  induction v with
  | absent => rfl
  | scalar s =>
      by_cases hs : s = mark
      · simp [rejectEntry, hs]
      · simp [rejectEntry, hs]
  | array xs => rfl
  | hash h ih => simp [rejectEntry, ih]

/-- Nothing is rejected exactly when nothing is marked. -/
theorem rejectEntry_eq_self_iff (mark : S) (v : Entry K S E) :
    rejectEntry mark v = v ↔ Unmarked mark v := by
  induction v with
  | absent => simp [rejectEntry, Unmarked]
  | scalar s =>
      by_cases hs : s = mark
      · simp [rejectEntry, Unmarked, hs]
      · simp [rejectEntry, Unmarked, hs]
  | array xs => simp [rejectEntry, Unmarked]
  | hash h ih => simp [rejectEntry, Unmarked, ← ih, funext_iff]

variable [DecidableEq E]

/-- One key: the value is back after the merge exactly when the two are separate. -/
theorem substractEntry_mergeEntry_iff (v1 v2 : Entry K S E) :
    rejectEntry mark (substractEntry mark (mergeEntry v1 v2) v2) = v1 ↔ Separate mark v1 v2 := by
  induction v1 generalizing v2 with
  | absent =>
      cases v2 with
      | absent => simp [mergeEntry, substractEntry, rejectEntry, Separate, Unmarked]
      | scalar t => simp [mergeEntry, substractEntry, rejectEntry, Separate]
      | array ys => simp [mergeEntry, substractEntry, rejectEntry, Separate]
      | hash h2 => simp [mergeEntry, substractEntry, rejectEntry, Separate]
  | scalar s =>
      cases v2 with
      | absent =>
          have hself := rejectEntry_eq_self_iff mark (.scalar s : Entry K S E)
          simpa [mergeEntry, substractEntry, Separate] using hself
      | scalar t => simp [mergeEntry, substractEntry, rejectEntry, Separate]
      | array ys => simp [mergeEntry, substractEntry, rejectEntry, Separate]
      | hash h2 => simp [mergeEntry, substractEntry, rejectEntry, Separate]
  | array xs =>
      cases v2 with
      | absent => simp [mergeEntry, substractEntry, rejectEntry, Separate, Unmarked]
      | scalar t => simp [mergeEntry, substractEntry, rejectEntry, Separate]
      | array ys =>
          -- of the sum only elements of the first array can be left
          have hnone : ys.filter (fun x => decide (x ∉ ys)) = [] := by
            rw [List.filter_eq_nil_iff]
            intro x hx
            simpa using hx
          simp only [mergeEntry, substractEntry, rejectEntry, Separate, List.filter_append, hnone,
            List.append_nil, Entry.array.injEq, List.filter_eq_self]
          simp
      | hash h2 => simp [mergeEntry, substractEntry, rejectEntry, Separate]
  | hash h1 ih =>
      cases v2 with
      | absent =>
          have hself := rejectEntry_eq_self_iff mark (.hash h1 : Entry K S E)
          simpa [mergeEntry, substractEntry, Separate] using hself
      | scalar t => simp [mergeEntry, substractEntry, rejectEntry, Separate]
      | array ys => simp [mergeEntry, substractEntry, rejectEntry, Separate]
      | hash h2 =>
          -- the marks are already gone from the inner hash
          simp [mergeEntry, substractEntry, rejectEntry, Separate, rejectEntry_idem, ← ih,
            funext_iff]

/-- `deep_substract` takes back `deep_merge` exactly when, at every key, what the
second hash brings in is separate from what the first one has. -/
theorem deepSubstract_deepMerge_iff (a b : K → Entry K S E) :
    deepSubstract mark (deepMerge a b) b = a ↔ ∀ k, Separate mark (a k) (b k) := by
  rw [funext_iff]
  exact forall_congr' fun k => substractEntry_mergeEntry_iff (a k) (b k)

/-- The hashes have no leaf at the same path. -/
def NoCommonLeaf (a b : K → Entry K S E) : Prop :=
  ∀ path, ¬ (IsLeaf a path ∧ IsLeaf b path)

end

/-! ## Arrays in hashes that are merged -/

section

variable {v1 v2 : Entry K S E} {a b : K → Entry K S E} {path : List K} {xs ys : List E} {k : K}

theorem at_of_absent (path : List K) : (Entry.absent : Entry K S E).at path = .absent := by
  cases path <;> rfl

/-- `deep_merge` concatenates the arrays that both have at a path. -/
theorem at_mergeEntry_arrays (h1 : v1.at path = .array xs) (h2 : v2.at path = .array ys) :
    (mergeEntry v1 v2).at path = .array (xs ++ ys) := by
  induction path generalizing v1 v2 with
  | nil =>
      have hv1 : v1 = .array xs := h1
      have hv2 : v2 = .array ys := h2
      subst hv1 hv2
      rfl
  | cons k path ih =>
      cases v1 with
      | hash e1 =>
          cases v2 with
          | hash e2 => exact ih h1 h2
          | _ => cases h2
      | _ => cases h1

/-- Where the second value has an array, the merged one has an array that ends with it. -/
theorem at_mergeEntry_array (v1 : Entry K S E) (h2 : v2.at path = .array ys) :
    ∃ zs, (mergeEntry v1 v2).at path = .array (zs ++ ys) := by
  induction path generalizing v1 v2 with
  | nil =>
      have hv2 : v2 = .array ys := h2
      subst hv2
      cases v1 with
      | array xs => exact ⟨xs, rfl⟩
      | _ => exact ⟨[], rfl⟩
  | cons k path ih =>
      cases v2 with
      | hash e2 =>
          cases v1 with
          | hash e1 => exact ih (e1 k) h2
          | _ => exact ⟨[], h2⟩
      | _ => cases h2

/-- All arrays in the value are empty. -/
def ArraysEmpty (v : Entry K S E) : Prop :=
  ∀ path ys, v.at path = .array ys → ys = []

theorem ArraysEmpty.entry {h : K → Entry K S E} (hempty : ArraysEmpty (.hash h)) (k : K) :
    ArraysEmpty (h k) :=
  fun path ys hpath => hempty (k :: path) ys hpath

theorem mergeEntry_self (hempty : ArraysEmpty v1) : mergeEntry v1 v1 = v1 := by
  induction v1 with
  | absent => rfl
  | scalar s => rfl
  | array xs =>
      have hnil : xs = [] := hempty [] xs rfl
      subst hnil
      rfl
  | hash h ih => simp [mergeEntry, funext fun k => ih k (hempty.entry k)]

/-- Merging the same value once more changes nothing if its arrays are empty. -/
theorem mergeEntry_idem (hempty : ArraysEmpty v2) :
    mergeEntry (mergeEntry v1 v2) v2 = mergeEntry v1 v2 := by
  induction v1 generalizing v2 with
  | hash h1 ih =>
      cases v2 with
      | hash h2 => simp [mergeEntry, funext fun k => ih k (hempty.entry k)]
      | array ys => exact mergeEntry_self hempty
      | _ => rfl
  | array xs =>
      cases v2 with
      | hash h2 => exact mergeEntry_self hempty
      | array ys =>
          have hnil : ys = [] := hempty [] ys rfl
          simp [mergeEntry, hnil]
      | _ => rfl
  | _ =>
      cases v2 with
      | hash h2 => exact mergeEntry_self hempty
      | array ys => exact mergeEntry_self hempty
      | _ => rfl

theorem deepMerge_idem (hempty : ∀ k, ArraysEmpty (b k)) :
    deepMerge (deepMerge a b) b = deepMerge a b :=
  funext fun k => mergeEntry_idem (hempty k)

theorem deepMerge_self (hempty : ∀ k, ArraysEmpty (b k)) : deepMerge b b = b :=
  funext fun k => mergeEntry_self (hempty k)

/-! ## deep_merge_hash -/

/-- At every path at which both hashes have an array, the result has that of the
second one, and merging it once more changes nothing. -/
structure Overwrites (a b : K → Entry K S E) : Prop where
  arrays : ∀ path xs ys, (Entry.hash a).at path = .array xs → (Entry.hash b).at path = .array ys →
    (Entry.hash (deepMergeHash a b)).at path = .array ys
  idem : deepMergeHash (deepMergeHash a b) b = deepMergeHash a b

/-- Below the first level the arrays of the second hash are empty, and so are those
that the first one has at the same paths. -/
def NothingToConcat (a b : K → Entry K S E) : Prop :=
  ∀ path ys, 2 ≤ path.length → (Entry.hash b).at path = .array ys →
    ys = [] ∧ ∀ xs, (Entry.hash a).at path = .array xs → xs = []

/-- A path of two keys or more leads through a hash. -/
theorem exists_hash_of_at {j : K} (h : (Entry.hash b).at (k :: j :: path) = .array ys) :
    ∃ e, b k = .hash e ∧ (e j).at path = .array ys := by
  have hk : (b k).at (j :: path) = .array ys := h
  cases hb : b k with
  | hash e =>
      rw [hb] at hk
      exact ⟨e, rfl, hk⟩
  | _ =>
      rw [hb] at hk
      cases hk

theorem Overwrites.nothing (h : Overwrites a b) : NothingToConcat a b := by
  intro path ys hlength hpath
  match path, hlength with
  | k :: j :: path, _ =>
      obtain ⟨e2, hk2, hj2⟩ := exists_hash_of_at hpath
      have hidem := congrFun h.idem k
      constructor
      · -- what the first merge leaves at the key is a hash that is merged again
        obtain ⟨e, he, zs, hzs⟩ : ∃ e, mergeHashEntry (a k) (b k) = .hash e ∧
            ∃ zs, (e j).at path = .array (zs ++ ys) := by
          rw [hk2]
          cases ha : a k with
          | hash e1 => exact ⟨deepMerge e1 e2, rfl, at_mergeEntry_array (e1 j) hj2⟩
          | _ => exact ⟨e2, rfl, [], hj2⟩
        have htwice : mergeHashEntry (.hash e) (b k) = .hash e := by
          rw [← he]
          exact hidem
        rw [hk2] at htwice
        have hentry := congrFun (Entry.hash.inj htwice) j
        have harrays := at_mergeEntry_arrays hzs hj2
        rw [show mergeEntry (e j) (e2 j) = e j from hentry, hzs, Entry.array.injEq] at harrays
        simpa using harrays
      · intro xs hxs
        obtain ⟨e1, hk1, hj1⟩ := exists_hash_of_at hxs
        have harray := h.arrays _ xs ys hxs hpath
        have hmerged : (Entry.hash (deepMergeHash a b)).at (k :: j :: path) =
            (mergeEntry (e1 j) (e2 j)).at path := by
          show (mergeHashEntry (a k) (b k)).at (j :: path) = _
          rw [hk1, hk2]
          rfl
        rw [hmerged, at_mergeEntry_arrays hj1 hj2, Entry.array.injEq] at harray
        simpa using harray

theorem NothingToConcat.overwrites (h : NothingToConcat a b) : Overwrites a b where
  arrays path xs ys hxs hys := by
    match path with
    | [] => cases hys
    | [k] =>
        have hk1 : a k = .array xs := hxs
        have hk2 : b k = .array ys := hys
        show mergeHashEntry (a k) (b k) = .array ys
        rw [hk1, hk2]
        rfl
    | k :: j :: path =>
        obtain ⟨e1, hk1, hj1⟩ := exists_hash_of_at hxs
        obtain ⟨e2, hk2, hj2⟩ := exists_hash_of_at hys
        obtain ⟨hnil, hnone⟩ := h _ ys (by simp) hys
        have hmerged := at_mergeEntry_arrays hj1 hj2
        show (mergeHashEntry (a k) (b k)).at (j :: path) = .array ys
        rw [hk1, hk2]
        show (mergeEntry (e1 j) (e2 j)).at path = .array ys
        rw [hmerged, hnone xs hxs, List.nil_append]
  idem := by
    funext k
    show mergeHashEntry (mergeHashEntry (a k) (b k)) (b k) = mergeHashEntry (a k) (b k)
    cases hb : b k with
    | hash e2 =>
        have hempty : ∀ j, ArraysEmpty (e2 j) := by
          intro j path ys hpath
          refine (h (k :: j :: path) ys (by simp) ?_).1
          show (b k).at (j :: path) = .array ys
          rw [hb]
          exact hpath
        cases ha : a k with
        | hash e1 => simp [mergeHashEntry, deepMerge_idem hempty]
        | _ => simp [mergeHashEntry, deepMerge_self hempty]
    | absent => cases ha : a k <;> simp [mergeHashEntry]
    | scalar s => cases ha : a k <;> simp [mergeHashEntry]
    | array ys => cases ha : a k <;> simp [mergeHashEntry]

/-- `deep_merge_hash` takes the arrays of the second hash and is idempotent in it
exactly when there is nothing to concatenate below the first level. -/
theorem deepMergeHash_iff (a b : K → Entry K S E) : Overwrites a b ↔ NothingToConcat a b :=
  ⟨Overwrites.nothing, NothingToConcat.overwrites⟩

end

/-! ## Examples -/

/-- The hash with one key. -/
def single [DecidableEq K] (key : K) (v : Entry K S E) : K → Entry K S E :=
  fun k => if k = key then v else .absent

/-- A hash that only the second one has is left behind. -/
theorem not_deepSubstract_single :
    ¬ ∀ a b : Char → Entry Char Nat Nat, NoCommonLeaf a b →
      deepSubstract 0 (deepMerge a b) b = a := by
  intro hall
  have hnone : NoCommonLeaf (fun _ : Char => (.absent : Entry Char Nat Nat))
      (single 'x' (.hash (single 'y' (.scalar 1)))) := by
    rintro (_ | ⟨k, path⟩) ⟨h | h, -⟩ <;> obtain ⟨v, hv⟩ := h
    · cases hv
    · cases hv
    · rw [show (Entry.hash fun _ : Char => (.absent : Entry Char Nat Nat)).at (k :: path) =
        (Entry.absent).at path from rfl, at_of_absent] at hv
      cases hv
    · rw [show (Entry.hash fun _ : Char => (.absent : Entry Char Nat Nat)).at (k :: path) =
        (Entry.absent).at path from rfl, at_of_absent] at hv
      cases hv
  have hx := congrFun (hall _ _ hnone) 'x'
  cases hx

/-- Arrays of the second level are concatenated. -/
theorem not_overwrites_nested :
    ¬ ∀ a b : Char → Entry Char Nat Nat, Overwrites a b := by
  intro hall
  have harrays := (hall (single 'x' (.hash (single 'y' (.array [1]))))
    (single 'x' (.hash (single 'y' (.array [2]))))).arrays ['x', 'y'] [1] [2] rfl rfl
  cases harrays

end HashExt
end Server
end ArmyRs
