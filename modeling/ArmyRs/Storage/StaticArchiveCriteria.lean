import Mathlib.Data.List.Perm.Subperm
import Mathlib.Data.Rat.Defs
import Mathlib.Tactic

/-!
# Evicting archives

`StaticArchiveCriteria` sorts the archives into segments of age and marks each
segment when it meets its first archive there; a further one is obsolete.  It stops
when as many are obsolete as there are archives too many.

There are as many archives too many as there are archives beyond the number of
segments, and no more than that many archives are first in their segment.  So the
loop always finds enough (`obsolete_of_distinct`).
-/

namespace ArmyRs
namespace Storage

/-- `HOURS`: each segment ends before one of these ages. -/
def archiveHours : List Nat :=
  [3, 6, 9, 12, 18, 24, 36, 48, 72, 96, 120, 168, 216, 288, 360, 480, 600, 720]

/-- The loop of `reverse_each`, which goes down as long as the age is below. -/
def matchLoop (hour : ℚ) : Nat → List Nat → Nat
  | matchHour, [] => matchHour
  | matchHour, h :: rest => if hour < h then matchLoop hour h rest else matchHour

/-- The segment of an age; what is older than all segments is in the last one. -/
def matchHour (hour : ℚ) : Nat :=
  matchLoop hour (archiveHours.getLastD 0) archiveHours.reverse

section

variable {T : Type*}

/-- The loop over the archives, with the obsolete ones and the marked segments. -/
def evictLoop (n : Nat) (hours : T → ℚ) : List T → List T → List Nat → List T
  | [], obsolete, _ => obsolete
  | time :: rest, obsolete, marks =>
      if n ≤ obsolete.length then obsolete
      else if matchHour (hours time) ∈ marks then
        evictLoop n hours rest (obsolete ++ [time]) marks
      else evictLoop n hours rest obsolete (matchHour (hours time) :: marks)

/-- `get_obsolete_archive_times`, for the ages of the archives in hours. -/
def getObsoleteArchiveTimes (hours : T → ℚ) (curArchiveTimes : List T) : Option (List T) :=
  let n : ℤ := (curArchiveTimes.length : ℤ) - archiveHours.length
  if n ≤ 0 then none else some (evictLoop n.toNat hours curArchiveTimes [] [])

/-! ## Segments -/

theorem matchLoop_mem (hour : ℚ) {first : Nat} (rest : List Nat) :
    matchLoop hour first rest ∈ first :: rest := by
  induction rest generalizing first with
  | nil => exact List.mem_cons_self
  | cons h rest ih =>
      unfold matchLoop
      split
      · exact List.mem_cons_of_mem _ ih
      · exact List.mem_cons_self

theorem matchHour_mem (hour : ℚ) : matchHour hour ∈ archiveHours := by
  have hmem : matchHour hour ∈ archiveHours.getLastD 0 :: archiveHours.reverse :=
    matchLoop_mem hour archiveHours.reverse
  rcases List.mem_cons.mp hmem with heq | hmem
  · rw [heq]
    decide
  · exact List.mem_reverse.mp hmem

/-! ## The loop -/

variable {n : Nat} {hours : T → ℚ} {seen rest obsolete : List T} {marks : List Nat} {time : T}

/-- What holds after some archives: each of them is obsolete or the first of a marked
segment, and the first ones are not obsolete. -/
structure Thinned (n : Nat) (hours : T → ℚ) (seen obsolete : List T) (marks : List Nat) :
    Prop where
  sublist : obsolete.Sublist seen
  bounded : obsolete.length ≤ n
  nodup : marks.Nodup
  segments : ∀ h ∈ marks, h ∈ archiveHours
  count : obsolete.length + marks.length = seen.length
  marked : ∀ t ∈ seen, matchHour (hours t) ∈ marks
  kept : ∀ h ∈ marks, ∃ t ∈ seen, t ∉ obsolete ∧ matchHour (hours t) = h

theorem thinned_nil (n : Nat) (hours : T → ℚ) : Thinned n hours [] [] [] where
  sublist := List.Sublist.refl []
  bounded := Nat.zero_le n
  nodup := List.nodup_nil
  segments := by simp
  count := rfl
  marked := by simp
  kept := by simp

/-- An archive in a marked segment is obsolete. -/
theorem Thinned.evict (h : Thinned n hours seen obsolete marks) (hn : obsolete.length < n)
    (hnew : time ∉ seen) (hmarked : matchHour (hours time) ∈ marks) :
    Thinned n hours (seen ++ [time]) (obsolete ++ [time]) marks where
  sublist := h.sublist.append_right [time]
  bounded := by simpa using hn
  nodup := h.nodup
  segments := h.segments
  count := by
    have hcount := h.count
    simp only [List.length_append, List.length_singleton]
    omega
  marked t ht := by
    rcases List.mem_append.mp ht with ht | ht
    · exact h.marked t ht
    · rw [List.mem_singleton.mp ht]
      exact hmarked
  kept segment hsegment := by
    obtain ⟨t, ht, hkept, hsame⟩ := h.kept segment hsegment
    refine ⟨t, List.mem_append_left _ ht, ?_, hsame⟩
    rw [List.mem_append, List.mem_singleton]
    rintro (hobsolete | rfl)
    · exact hkept hobsolete
    · exact hnew ht

/-- The first archive of a segment marks it and is kept. -/
theorem Thinned.mark (h : Thinned n hours seen obsolete marks) (hnew : time ∉ seen)
    (hunmarked : matchHour (hours time) ∉ marks) :
    Thinned n hours (seen ++ [time]) obsolete (matchHour (hours time) :: marks) where
  sublist := h.sublist.trans (List.sublist_append_left seen [time])
  bounded := h.bounded
  nodup := List.nodup_cons.mpr ⟨hunmarked, h.nodup⟩
  segments segment hsegment := by
    rcases List.mem_cons.mp hsegment with rfl | hsegment
    · exact matchHour_mem _
    · exact h.segments segment hsegment
  count := by
    have hcount := h.count
    simp only [List.length_append, List.length_cons, List.length_nil]
    omega
  marked t ht := by
    rcases List.mem_append.mp ht with ht | ht
    · exact List.mem_cons_of_mem _ (h.marked t ht)
    · rw [List.mem_singleton.mp ht]
      exact List.mem_cons_self
  kept segment hsegment := by
    rcases List.mem_cons.mp hsegment with rfl | hsegment
    · refine ⟨time, by simp, fun hobsolete => hnew (h.sublist.subset hobsolete), rfl⟩
    · obtain ⟨t, ht, hkept⟩ := h.kept segment hsegment
      exact ⟨t, List.mem_append_left _ ht, hkept⟩

/-- The loop ends at the last archive or with enough obsolete ones. -/
theorem Thinned.evictLoop (h : Thinned n hours seen obsolete marks)
    (hnodup : (seen ++ rest).Nodup) :
    ∃ seen' rest' marks', seen ++ rest = seen' ++ rest' ∧
      Thinned n hours seen' (evictLoop n hours rest obsolete marks) marks' ∧
      (rest' = [] ∨ n ≤ (evictLoop n hours rest obsolete marks).length) := by
  induction rest generalizing seen obsolete marks with
  | nil => exact ⟨seen, [], marks, rfl, h, .inl rfl⟩
  | cons time rest ih =>
      have hnew : time ∉ seen := by
        intro hmem
        exact List.disjoint_of_nodup_append hnodup hmem List.mem_cons_self
      have hsplit : seen ++ time :: rest = (seen ++ [time]) ++ rest := by simp
      rw [hsplit] at hnodup ⊢
      unfold Storage.evictLoop
      split
      · next henough =>
        exact ⟨seen, time :: rest, marks, by simp, h, .inr henough⟩
      · next hfew =>
        split
        · next hmarked => exact ih (h.evict (by omega) hnew hmarked) hnodup
        · next hunmarked => exact ih (h.mark hnew hunmarked) hnodup

/-- Of more archives than there are segments, all with different times, exactly the
surplus is obsolete, each at most once, and every segment keeps an archive if it had
one. -/
theorem obsolete_of_distinct (hours : T → ℚ) {times : List T}
    (hlength : archiveHours.length < times.length) (hnodup : times.Nodup) :
    ∃ obsolete, getObsoleteArchiveTimes hours times = some obsolete ∧
      obsolete.length = times.length - archiveHours.length ∧ obsolete.Nodup ∧
      (∀ t ∈ obsolete, t ∈ times) ∧
      ∀ t ∈ times, ∃ t' ∈ times, t' ∉ obsolete ∧ matchHour (hours t') = matchHour (hours t) := by
  have hn : ¬ (times.length : ℤ) - archiveHours.length ≤ 0 := by omega
  have htoNat : ((times.length : ℤ) - archiveHours.length).toNat =
      times.length - archiveHours.length := by omega
  refine ⟨evictLoop (times.length - archiveHours.length) hours times [] [], ?_, ?_⟩
  · simp [getObsoleteArchiveTimes, hn, htoNat]
  obtain ⟨seen, rest, marks, hsplit, h, hend⟩ :=
    (thinned_nil (times.length - archiveHours.length) hours).evictLoop hnodup
  rw [List.nil_append] at hsplit
  generalize evictLoop (times.length - archiveHours.length) hours times [] [] = obsolete
    at h hend ⊢
  have hsublist : obsolete.Sublist times := by
    rw [hsplit]
    exact h.sublist.trans (List.sublist_append_left seen rest)
  refine ⟨?_, hnodup.sublist hsublist, fun t ht => hsublist.subset ht, fun t ht => ?_⟩
  · have hbounded := h.bounded
    have hcount := h.count
    rcases hend with rfl | henough
    · -- every archive was looked at: no more than one for each segment was kept
      have hmarks : marks.length ≤ archiveHours.length :=
        (List.subperm_of_subset h.nodup h.segments).length_le
      rw [List.append_nil] at hsplit
      rw [hsplit] at hbounded hlength ⊢
      omega
    · exact le_antisymm hbounded henough
  · by_cases hmarked : matchHour (hours t) ∈ marks
    · obtain ⟨t', ht', hkept, hsame⟩ := h.kept _ hmarked
      refine ⟨t', ?_, hkept, hsame⟩
      rw [hsplit]
      exact List.mem_append_left _ ht'
    · -- the loop has not come to this archive
      refine ⟨t, ht, fun hobsolete => ?_, rfl⟩
      exact hmarked (h.marked t (h.sublist.subset hobsolete))

end

/-! ## Examples -/

/-- Twenty archives, one for each hour. -/
theorem obsolete_hourly :
    ∃ obsolete, getObsoleteArchiveTimes (fun t : Nat => (t : ℚ)) (List.range 20) = some obsolete ∧
      obsolete.length = 2 ∧ obsolete.Nodup ∧ (∀ t ∈ obsolete, t ∈ List.range 20) ∧
      ∀ t ∈ List.range 20, ∃ t' ∈ List.range 20, t' ∉ obsolete ∧
        matchHour ((t' : Nat) : ℚ) = matchHour ((t : Nat) : ℚ) :=
  obsolete_of_distinct (fun t : Nat => (t : ℚ)) (by decide) (by decide)

end Storage
end ArmyRs
