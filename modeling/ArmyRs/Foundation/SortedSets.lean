import Mathlib.Data.Char
import Mathlib.Data.List.Lex
import Mathlib.Data.List.Sort
import Mathlib.Data.Prod.Lex
import Mathlib.Tactic
import ArmyRs.Foundation.RedisLists

/-!
# Sorted sets

A sorted set holds members with a score each.  Its entries stand in the order of
their scores, and entries with one score in the order of their members; that the
list is in order and names no member twice is part of the data.

`zadd` of a member takes its old entry away and puts the new one between the
entries below it and the entries above it, so the rank of the new entry is the
number of entries below, and the others keep their order.  In a full set that is
trimmed afterwards, the entry that goes is the first of the set, or the new one where it
comes before all others.
-/

namespace ArmyRs
namespace Foundation

/-! ## Sorted lists -/

section

variable {α : Type*} [LinearOrder α] {list : List α} {a : α} {pos : Nat}

/-- A sorted list is its elements below a value and those above it. -/
theorem filter_lt_append_filter_gt (hsorted : list.Pairwise (· < ·)) (ha : a ∉ list) :
    list.filter (· < a) ++ list.filter (a < ·) = list := by
  induction list with
  | nil => rfl
  | cons head list ih =>
      rw [List.pairwise_cons] at hsorted
      rw [List.mem_cons, not_or] at ha
      obtain ⟨hhead, hlist⟩ := hsorted
      by_cases hbelow : head < a
      · simp [hbelow, hbelow.le, ih hlist ha.2]
      · -- the first element is above, and so are all of the others
        have habove : a < head := lt_of_le_of_ne (not_lt.mp hbelow) ha.1
        have hnone : list.filter (· < a) = [] := by
          rw [List.filter_eq_nil_iff]
          intro other hother
          simpa using (habove.trans (hhead other hother)).le
        have hall : list.filter (a < ·) = list := by
          rw [List.filter_eq_self]
          intro other hother
          simpa using habove.trans (hhead other hother)
        simp [hbelow, habove, hnone, hall]

/-- As many elements are below the value as the place says exactly when the value
belongs between the neighbours of that place. -/
theorem length_filter_lt_eq_iff (hsorted : list.Pairwise (· < ·)) (ha : a ∉ list)
    (hpos : pos ≤ list.length) :
    (list.filter (· < a)).length = pos ↔
      (∀ i before, i + 1 = pos → list[i]? = some before → before < a) ∧
        ∀ after, list[pos]? = some after → a < after := by
  have hsplit := filter_lt_append_filter_gt hsorted ha
  generalize hbelow : list.filter (· < a) = below at hsplit ⊢
  generalize habove : list.filter (a < ·) = above at hsplit
  have hlt : ∀ x ∈ below, x < a := by
    intro x hx
    rw [← hbelow] at hx
    simpa using (List.mem_filter.mp hx).2
  have hgt : ∀ x ∈ above, a < x := by
    intro x hx
    rw [← habove] at hx
    simpa using (List.mem_filter.mp hx).2
  subst hsplit
  constructor
  · rintro rfl
    constructor
    · intro i before hi hget
      rw [List.getElem?_append_left (by omega)] at hget
      exact hlt before (List.mem_of_getElem? hget)
    · intro after hget
      rw [List.getElem?_append_right le_rfl] at hget
      exact hgt after (List.mem_of_getElem? hget)
  · rintro ⟨hbefore, hafter⟩
    rcases lt_trichotomy below.length pos with hless | heq | hmore
    · -- the element before the place is above
      obtain ⟨i, rfl⟩ : ∃ i, pos = i + 1 := ⟨pos - 1, by omega⟩
      have hi : i < (below ++ above).length := by omega
      have hget := List.getElem?_eq_getElem hi
      have hsmall := hbefore i _ rfl hget
      rw [List.getElem?_append_right (by omega)] at hget
      exact absurd (hgt _ (List.mem_of_getElem? hget)) hsmall.asymm
    · exact heq
    · have hget := List.getElem?_eq_getElem (l := below ++ above) (i := pos)
        (by rw [List.length_append]; omega)
      have hlarge := hafter _ hget
      rw [List.getElem?_append_left hmore] at hget
      exact absurd (hlt _ (List.mem_of_getElem? hget)) hlarge.asymm

/-- When whatever comes before an element of a kind is of that kind too, the first
elements of the kind are those among the first elements. -/
theorem filter_take_of_initial {β : Type*} {p : β → Bool} {xs : List β}
    (hinitial : xs.Pairwise fun x y => p y = true → p x = true) (n : Nat) :
    (xs.take n).filter p = (xs.filter p).take n := by
  induction xs generalizing n with
  | nil => simp
  | cons x xs ih =>
      rw [List.pairwise_cons] at hinitial
      obtain ⟨hx, hxs⟩ := hinitial
      cases n with
      | zero => simp
      | succ n =>
          cases hp : p x with
          | true => simp [hp, ih hxs n]
          | false =>
              -- nothing that follows is of the kind
              have hnone : xs.filter p = [] := by
                rw [List.filter_eq_nil_iff]
                intro y hy hpy
                rw [hx y hy hpy] at hp
                cases hp
              simp [hp, ih hxs n, hnone]

end

/-! ## Words with a common start -/

section

variable {α : Type*} [LinearOrder α] {start word other : List α}

/-- A word comes after its proper beginnings. -/
theorem lt_of_isPrefix (hword : start <+: word) (hne : start ≠ word) : start < word := by
  obtain ⟨rest, rfl⟩ := hword
  have hrest : rest ≠ [] := by
    rintro rfl
    exact hne (List.append_nil start).symm
  induction start with
  | nil =>
      obtain ⟨first, rest, rfl⟩ := List.exists_cons_of_ne_nil hrest
      exact List.nil_lt_cons first rest
  | cons first start ih =>
      rw [List.cons_append, List.cons_lt_cons_iff]
      exact .inr ⟨rfl, ih fun heq => hne (congrArg (first :: ·) heq)⟩

/-- The words with one beginning come before every later word without it. -/
theorem lt_of_not_isPrefix (hother : start < other) (hnot : ¬ start <+: other)
    (hword : start <+: word) : word < other := by
  obtain ⟨rest, rfl⟩ := hword
  induction start generalizing other with
  | nil => exact absurd (List.nil_prefix) hnot
  | cons first start ih =>
      cases other with
      | nil => exact absurd hother (List.not_lt_nil _)
      | cons first' other =>
          rw [List.cons_append, List.cons_lt_cons_iff]
          rcases List.cons_lt_cons_iff.mp hother with hlt | ⟨rfl, hlt⟩
          · exact .inl hlt
          · exact .inr ⟨rfl, ih hlt fun h => hnot (List.cons_prefix_cons.mpr ⟨rfl, h⟩)⟩

end

/-! ## Sorted sets -/

section

variable {σ μ : Type*}

/-- The member of an entry. -/
def member (entry : σ ×ₗ μ) : μ := (ofLex entry).2

/-- The score of an entry. -/
def score (entry : σ ×ₗ μ) : σ := (ofLex entry).1

@[simp] theorem member_toLex (s : σ) (m : μ) : member (toLex (s, m)) = m := rfl

@[simp] theorem score_toLex (s : σ) (m : μ) : score (toLex (s, m)) = s := rfl

end

/-- A sorted set of members of `μ` with scores of `σ`. -/
@[ext]
structure SortedSet (σ μ : Type*) [LinearOrder σ] [LinearOrder μ] where
  entries : List (σ ×ₗ μ)
  sorted : entries.Pairwise (· < ·)
  nodup : (entries.map member).Nodup

namespace SortedSet

variable {σ μ : Type*} [LinearOrder σ] [LinearOrder μ]

def empty : SortedSet σ μ where
  entries := []
  sorted := List.Pairwise.nil
  nodup := List.nodup_nil

def members (set : SortedSet σ μ) : List μ :=
  set.entries.map member

/-- `zcard`. -/
def zcard (set : SortedSet σ μ) : Nat :=
  set.entries.length

/-- `zrank`: the number of entries before that of the member. -/
def zrank (set : SortedSet σ μ) (m : μ) : Option Nat :=
  set.members.idxOf? m

/-- `zrange` with scores, for places counted from the front; the last one is
included. -/
def zrange (set : SortedSet σ μ) (start stop : Nat) : List (σ ×ₗ μ) :=
  (set.entries.drop start).take (stop + 1 - start)

/-- `zrangebyscore` without a limit. -/
def zrangebyscore (set : SortedSet σ μ) (min max : σ) : List μ :=
  (set.entries.filter fun entry => min ≤ score entry ∧ score entry ≤ max).map member

/-- `zrem` of all the members named. -/
def zrem (set : SortedSet σ μ) (ms : List μ) : SortedSet σ μ where
  entries := set.entries.filter (member · ∉ ms)
  sorted := set.sorted.filter _
  nodup := set.nodup.sublist (List.filter_sublist.map member)

/-- `zremrangebyrank`: the entries from the rank of `start` to the rank of `stop` go. -/
def zremrangebyrank (set : SortedSet σ μ) (start stop : ℤ) : SortedSet σ μ :=
  let first := (rankOf set.entries.length start).toNat
  let last := rankOf set.entries.length stop
  let rest :=
    if (first : ℤ) ≤ last then set.entries.take first ++ set.entries.drop (last.toNat + 1)
    else set.entries
  have hrest : rest.Sublist set.entries := by
    dsimp only [rest]
    split
    · next hle =>
      have hsplit : (set.entries.take first ++ set.entries.drop first).Sublist set.entries := by
        rw [List.take_append_drop]
      have htail := List.drop_sublist_drop_left set.entries (show first ≤ last.toNat + 1 by omega)
      exact ((List.Sublist.refl (set.entries.take first)).append htail).trans hsplit
    · exact List.Sublist.refl _
  { entries := rest
    sorted := set.sorted.sublist hrest
    nodup := set.nodup.sublist (hrest.map member) }

section

variable {set : SortedSet σ μ} {m m' : μ} {s : σ} {ms : List μ} {entry : σ ×ₗ μ}

/-- All entries go but the last ones, as many as told. -/
theorem entries_zremrangebyrank (set : SortedSet σ μ) (count : Nat) :
    (set.zremrangebyrank 0 (-((count : ℤ) + 1))).entries =
      set.entries.drop (set.entries.length - count) := by
  have hstart : (rankOf set.entries.length 0).toNat = 0 := rfl
  have hstop : rankOf set.entries.length (-((count : ℤ) + 1)) =
      (set.entries.length : ℤ) - (count + 1) := by
    unfold rankOf
    rw [if_pos (by omega)]
    ring
  unfold zremrangebyrank
  simp only [hstart, hstop, List.take_zero, List.nil_append, Nat.cast_zero]
  split
  · next hle =>
    congr 1
    omega
  · next hle =>
    have hnone : set.entries.length - count = 0 := by omega
    rw [hnone, List.drop_zero]

@[simp] theorem mem_members : m ∈ set.members ↔ ∃ s, toLex (s, m) ∈ set.entries := by
  unfold members
  rw [List.mem_map]
  constructor
  · rintro ⟨entry, hentry, rfl⟩
    exact ⟨score entry, hentry⟩
  · rintro ⟨s, hentry⟩
    exact ⟨toLex (s, m), hentry, rfl⟩

@[simp] theorem mem_entries_zrem :
    entry ∈ (set.zrem ms).entries ↔ entry ∈ set.entries ∧ member entry ∉ ms := by
  simp [zrem, List.mem_filter]

theorem members_zrem : (set.zrem ms).members = set.members.filter (· ∉ ms) := by
  unfold members zrem
  rw [List.filter_map]
  rfl

theorem not_mem_members_zrem : m ∉ (set.zrem [m]).members := by
  simp [members_zrem]

/-- Nothing happens to a set without the members. -/
theorem zrem_of_not_mem (hms : ∀ m ∈ ms, m ∉ set.members) : set.zrem ms = set := by
  ext1
  refine List.filter_eq_self.mpr fun entry hentry => ?_
  have hmember : member entry ∈ set.members := List.mem_map_of_mem hentry
  simpa using fun hm => hms _ hm hmember

/-- A new entry is none of the others, nor is its place taken. -/
theorem not_mem_entries_zrem (s : σ) : toLex (s, m) ∉ (set.zrem [m]).entries := by
  simp

end

/-- `zadd`: the entries below the new one, the new one, and the entries above it. -/
def zadd (set : SortedSet σ μ) (s : σ) (m : μ) : SortedSet σ μ where
  entries :=
    (set.zrem [m]).entries.filter (· < toLex (s, m)) ++
      toLex (s, m) :: (set.zrem [m]).entries.filter (toLex (s, m) < ·)
  sorted := by
    rw [List.pairwise_append]
    refine ⟨(set.zrem [m]).sorted.filter _, ?_, ?_⟩
    · rw [List.pairwise_cons]
      exact ⟨fun entry hentry => by simpa using (List.mem_filter.mp hentry).2,
        (set.zrem [m]).sorted.filter _⟩
    · intro below hbelow above habove
      have hlt : below < toLex (s, m) := by simpa using (List.mem_filter.mp hbelow).2
      rcases List.mem_cons.mp habove with rfl | habove
      · exact hlt
      · exact hlt.trans (by simpa using (List.mem_filter.mp habove).2)
  nodup := by
    have hsplit := filter_lt_append_filter_gt (set.zrem [m]).sorted (not_mem_entries_zrem s)
    have hrest := (set.zrem [m]).nodup
    rw [← hsplit, List.map_append] at hrest
    rw [List.map_append, List.map_cons]
    refine List.nodup_middle.mpr (List.nodup_cons.mpr ⟨?_, hrest⟩)
    rw [← List.map_append, hsplit]
    exact not_mem_members_zrem

section

variable {set : SortedSet σ μ} {m m' : μ} {s : σ} {ms : List μ} {entry : σ ×ₗ μ}

/-- The entries below a new one. -/
def below (set : SortedSet σ μ) (s : σ) (m : μ) : List (σ ×ₗ μ) :=
  (set.zrem [m]).entries.filter (· < toLex (s, m))

/-- The entries above a new one. -/
def above (set : SortedSet σ μ) (s : σ) (m : μ) : List (σ ×ₗ μ) :=
  (set.zrem [m]).entries.filter (toLex (s, m) < ·)

theorem entries_zadd (set : SortedSet σ μ) (s : σ) (m : μ) :
    (set.zadd s m).entries = set.below s m ++ toLex (s, m) :: set.above s m := rfl

theorem below_append_above (set : SortedSet σ μ) (s : σ) (m : μ) :
    set.below s m ++ set.above s m = (set.zrem [m]).entries :=
  filter_lt_append_filter_gt (set.zrem [m]).sorted (not_mem_entries_zrem s)

@[simp] theorem mem_entries_zadd :
    entry ∈ (set.zadd s m).entries ↔
      entry = toLex (s, m) ∨ entry ∈ set.entries ∧ member entry ≠ m := by
  have hrest : entry ∈ set.below s m ++ set.above s m ↔ entry ∈ set.entries ∧ member entry ≠ m := by
    rw [below_append_above]
    simp
  rw [entries_zadd, ← hrest]
  simp only [List.mem_append, List.mem_cons]
  tauto

@[simp] theorem mem_members_zadd : m' ∈ (set.zadd s m).members ↔ m' = m ∨ m' ∈ set.members := by
  simp only [mem_members, mem_entries_zadd, member_toLex]
  by_cases heq : m' = m
  · subst heq
    simp
  · have hne : ∀ t, (toLex (t, m') : σ ×ₗ μ) ≠ toLex (s, m) := by
      intro t h
      exact heq (congrArg member h)
    simp [heq, hne]

theorem not_mem_members_empty (m : μ) : m ∉ (empty : SortedSet σ μ).members :=
  List.not_mem_nil

theorem mem_zrangebyscore {min max : σ} :
    m ∈ set.zrangebyscore min max ↔
      ∃ s, toLex (s, m) ∈ set.entries ∧ min ≤ s ∧ s ≤ max := by
  unfold zrangebyscore
  rw [List.mem_map]
  constructor
  · rintro ⟨entry, hentry, rfl⟩
    obtain ⟨hmem, hscore⟩ := List.mem_filter.mp hentry
    exact ⟨score entry, hmem, by simpa using hscore⟩
  · rintro ⟨s, hmem, hscore⟩
    exact ⟨toLex (s, m), List.mem_filter.mpr ⟨hmem, decide_eq_true hscore⟩, rfl⟩

/-- The members but one, in their order. -/
def others (set : SortedSet σ μ) (m : μ) : List μ :=
  set.members.filter (· ≠ m)

theorem others_of_not_mem (hm : m ∉ set.members) : set.others m = set.members := by
  unfold others
  rw [List.filter_eq_self]
  intro other hother
  simpa using fun heq : other = m => hm (heq ▸ hother)

/-- The others keep their order. -/
theorem others_zadd (set : SortedSet σ μ) (s : σ) (m : μ) :
    (set.zadd s m).others m = set.others m := by
  unfold others
  have hrest : (set.zrem [m]).members = set.members.filter (· ≠ m) := by
    rw [members_zrem]
    simp
  rw [← hrest]
  unfold members
  rw [entries_zadd, ← below_append_above set s m]
  have hne : ∀ other ∈ set.below s m ++ set.above s m, member other ≠ m := by
    intro other hother
    rw [below_append_above, mem_entries_zrem] at hother
    simpa using hother.2
  rw [List.map_append, List.map_append, List.map_cons, List.filter_append, member_toLex,
    List.filter_cons_of_neg (by simp), ← List.filter_append, ← List.map_append,
    List.filter_eq_self]
  intro other hother
  obtain ⟨entry, hentry, rfl⟩ := List.mem_map.mp hother
  simpa using hne entry hentry

/-- A member that was not there is put in and taken out again. -/
theorem zrem_zadd (hm : m ∉ set.members) : (set.zadd s m).zrem [m] = set := by
  have hsame : set.zrem [m] = set := zrem_of_not_mem (by simpa using hm)
  ext1
  have hrest : ∀ other ∈ set.below s m ++ set.above s m, member other ∉ [m] := by
    intro other hother
    rw [below_append_above, mem_entries_zrem] at hother
    exact hother.2
  show (set.zadd s m).entries.filter (member · ∉ [m]) = _
  rw [entries_zadd, List.filter_append, List.filter_cons_of_neg (by simp), ← List.filter_append,
    List.filter_eq_self.mpr fun other hother => by simpa using hrest other hother,
    below_append_above, hsame]

theorem zcard_zadd_of_mem (hm : m ∈ set.members) : (set.zadd s m).zcard = set.zcard := by
  have hrest : (set.zrem [m]).entries.length + 1 = set.members.length := by
    have herase : (set.zrem [m]).members = set.members.erase m := by
      have hnodup : set.members.Nodup := set.nodup
      rw [members_zrem, hnodup.erase_eq_filter]
      refine List.filter_congr fun other _ => ?_
      by_cases heq : other = m <;> simp [heq]
    have hlength := congrArg List.length herase
    rw [members, List.length_map, List.length_erase_of_mem hm] at hlength
    have hpos := List.length_pos_of_mem hm
    omega
  have hset : set.members.length = set.zcard := List.length_map ..
  have hparts := congrArg List.length (below_append_above set s m)
  rw [List.length_append] at hparts
  show (set.zadd s m).entries.length = set.zcard
  rw [entries_zadd, List.length_append, List.length_cons]
  omega

theorem zcard_zadd_of_not_mem (hm : m ∉ set.members) :
    (set.zadd s m).zcard = set.zcard + 1 := by
  have hsame : set.zrem [m] = set := zrem_of_not_mem (by simpa using hm)
  have hparts := congrArg List.length (below_append_above set s m)
  rw [List.length_append, hsame] at hparts
  show (set.zadd s m).entries.length = set.entries.length + 1
  rw [entries_zadd, List.length_append, List.length_cons]
  omega

/-- A set that is not too large is not trimmed. -/
theorem zremrangebyrank_of_le {count : Nat} (hle : set.zcard ≤ count) :
    set.zremrangebyrank 0 (-((count : ℤ) + 1)) = set := by
  ext1
  have hnone : set.entries.length - count = 0 := Nat.sub_eq_zero_of_le hle
  rw [entries_zremrangebyrank, hnone, List.drop_zero]

/-- A member is added to a full set, which is trimmed again: either the new entry comes
before all others and goes, or the first entry of the set goes. -/
theorem zadd_trimmed_cases {count : Nat} (hm : m ∉ set.members) (hfull : set.zcard = count) :
    ((∀ entry, set.entries.head? = some entry → toLex (s, m) < entry) ∧
      (set.zadd s m).zremrangebyrank 0 (-((count : ℤ) + 1)) = set) ∨
    ∃ entry rest, set.entries = entry :: rest ∧ entry < toLex (s, m) ∧
      ∀ other, other ∈ ((set.zadd s m).zremrangebyrank 0 (-((count : ℤ) + 1))).members ↔
        other = m ∨ other ∈ rest.map member := by
  have hsame : set.zrem [m] = set := zrem_of_not_mem (by simpa using hm)
  have hparts := below_append_above set s m
  rw [hsame] at hparts
  have htrim : ((set.zadd s m).zremrangebyrank 0 (-((count : ℤ) + 1))).entries =
      (set.zadd s m).entries.drop 1 := by
    have hcard : (set.zadd s m).entries.length = count + 1 := by
      rw [← hfull]
      exact zcard_zadd_of_not_mem hm
    rw [entries_zremrangebyrank, hcard, Nat.add_sub_cancel_left]
  rw [entries_zadd] at htrim
  have hbelow : ∀ entry ∈ set.below s m, entry < toLex (s, m) := by
    intro entry hentry
    simpa using (List.mem_filter.mp hentry).2
  have habove : ∀ entry ∈ set.above s m, toLex (s, m) < entry := by
    intro entry hentry
    simpa using (List.mem_filter.mp hentry).2
  generalize set.below s m = below at hparts htrim hbelow
  generalize set.above s m = above at hparts htrim habove
  cases below with
  | nil =>
      left
      refine ⟨fun entry hentry => ?_, ?_⟩
      · rw [← hparts] at hentry
        exact habove entry (List.mem_of_mem_head? hentry)
      · ext1
        rw [htrim, ← hparts]
        rfl
  | cons first below =>
      right
      refine ⟨first, below ++ above, hparts.symm, hbelow first List.mem_cons_self,
        fun other => ?_⟩
      show other ∈ (((set.zadd s m).zremrangebyrank 0 (-((count : ℤ) + 1))).entries).map member ↔ _
      rw [htrim]
      simp only [List.cons_append, List.drop_one, List.tail_cons, List.map_append, List.map_cons,
        List.mem_append, List.mem_cons, member_toLex]
      tauto

theorem zrank_eq_none : set.zrank m = none ↔ m ∉ set.members :=
  List.idxOf?_eq_none_iff

/-- The new entry has as many entries before it as are below it. -/
theorem zrank_zadd (set : SortedSet σ μ) (s : σ) (m : μ) :
    (set.zadd s m).zrank m = some (set.below s m).length := by
  unfold zrank members
  rw [List.idxOf?_eq_some_iff]
  have hlength : (set.below s m).length < ((set.zadd s m).entries.map member).length := by
    rw [entries_zadd]
    simp
  refine ⟨hlength, ?_, fun j hj => ?_⟩
  · simp [entries_zadd]
  · have hmem : (set.below s m)[j] ∈ (set.zrem [m]).entries := by
      rw [← below_append_above set s m]
      exact List.mem_append_left _ (List.getElem_mem hj)
    have hne := (mem_entries_zrem.mp hmem).2
    have hlt : j < (set.zadd s m).entries.length := by simpa using hj.trans hlength
    have hget : (set.zadd s m).entries[j] = (set.below s m)[j] := List.getElem_append_left hj
    rw [List.getElem_map, hget]
    simpa using hne

/-- The range after the new entry. -/
theorem zrange_zadd (set : SortedSet σ μ) (s : σ) (m : μ) (count : Nat) :
    (set.zadd s m).zrange ((set.below s m).length + 1) ((set.below s m).length + count) =
      (set.above s m).take count := by
  have hstop : (set.below s m).length + count + 1 - ((set.below s m).length + 1) = count := by
    omega
  unfold zrange
  rw [hstop, entries_zadd, List.append_cons, List.drop_left' (by simp)]

/-! Sets whose entries all have one score, which are in the order of their members -/

theorem members_sorted (hscore : ∀ entry ∈ set.entries, score entry = s) :
    set.members.Pairwise (· < ·) := by
  unfold members
  rw [List.pairwise_map]
  refine set.sorted.imp_of_mem fun {a b} ha hb hlt => ?_
  rcases Prod.Lex.toLex_lt_toLex.mp hlt with hless | ⟨-, hmember⟩
  · exact absurd hless (by
      show ¬ score a < score b
      rw [hscore a ha, hscore b hb]
      exact lt_irrefl s)
  · exact hmember

/-- The members after a value of their type. -/
def membersAfter (set : SortedSet σ μ) (m : μ) : List μ :=
  set.members.filter (m < ·)

/-- The members above a new one of that score are those that come after it. -/
theorem members_above (hscore : ∀ entry ∈ set.entries, score entry = s) (hm : m ∉ set.members) :
    (set.above s m).map member = set.membersAfter m := by
  have hsame : set.zrem [m] = set := zrem_of_not_mem (by simpa using hm)
  unfold above membersAfter members
  rw [hsame, List.filter_map]
  congr 1
  refine List.filter_congr fun entry hentry => ?_
  have habove : toLex (s, m) < entry ↔ m < member entry := by
    have hsplit : toLex (s, m) < entry ↔ s < score entry ∨ s = score entry ∧ m < member entry :=
      Prod.Lex.toLex_lt_toLex
    simp [hsplit, hscore entry hentry]
  simp [habove]

end

end SortedSet
end Foundation
end ArmyRs
