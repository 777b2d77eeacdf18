import ArmyRs.Match.FourVersusFour

/-!
# No match is missed

When `do_match` is over, no two full sides can be made up from the teams that
are left in the queues of a pool for 5v5 (`doMatch_maximal`).

A loop of `do_match` ends because its left side cannot be made up, or because
no right side is left next to it.  In either case the two sides together need
more teams of some size than there are (`Blocked`), and the loops that follow
only take teams away.  Every side of five members is one of those in
`CombatType.sides`, so that no other pair of sides remains.
-/

namespace ArmyRs
namespace Match
namespace TeamMatch

open Foundation

variable {pool next : TeamMatch} {parts : List Part} {sides : List (List Part)}

/-! ## What a loop leaves behind -/

/-- The parts and a side out of `sides` need more teams of a size than wait. -/
def Blocked (sides : List (List Part)) (pool : TeamMatch) (parts : List Part) : Prop :=
  ∀ side ∈ sides, ∃ groupid, pool.waiting groupid < needed parts groupid + needed side groupid

theorem Blocked.of_le (hblocked : Blocked sides pool parts)
    (hle : ∀ groupid, next.waiting groupid ≤ pool.waiting groupid) :
    Blocked sides next parts := by
  intro side hside
  obtain ⟨groupid, hless⟩ := hblocked side hside
  exact ⟨groupid, (hle groupid).trans_lt hless⟩

/-- A part needs as many teams as it counts. -/
theorem count_le_needed {part : Part} (hpart : part ∈ parts) :
    part.count ≤ needed parts part.groupid := by
  induction parts with
  | nil => cases hpart
  | cons first parts ih =>
      rw [needed_cons]
      rcases List.mem_cons.mp hpart with rfl | hpart
      · simp
      · have := ih hpart
        omega

theorem exists_short_of_refused (hpick : pool.pickTeamPart parts = .refused) :
    ∃ groupid, pool.waiting groupid < needed parts groupid := by
  have hcounts := @pickTeamPart_counts pool parts
  rw [hpick] at hcounts
  obtain ⟨part, hpart, hshort⟩ := hcounts
  exact ⟨part.groupid, hshort.trans_le (count_le_needed hpart)⟩

theorem waiting_of_picked {taken : List Item} (hpick : pool.pickTeamPart parts = .picked next taken)
    (groupid : Nat) : next.waiting groupid + needed parts groupid = pool.waiting groupid := by
  have hcounts := @pickTeamPart_counts pool parts
  rw [hpick] at hcounts
  exact hcounts.2.1 groupid

/-- The search for a right side has tried all of them. -/
theorem exists_short_of_pickRight_refused (hpick : pool.pickRight sides = .refused) :
    ∀ side ∈ sides, ∃ groupid, pool.waiting groupid < needed side groupid := by
  induction sides with
  | nil => simp
  | cons side others ih =>
      unfold pickRight at hpick
      cases hside : pool.pickTeamPart side with
      | refused =>
          rw [hside] at hpick
          intro other hother
          rcases List.mem_cons.mp hother with rfl | hother
          · exact exists_short_of_refused hside
          · exact ih hpick other hother
      | raised raisedPool =>
          rw [hside] at hpick
          cases hpick
      | picked last taken =>
          rw [hside] at hpick
          cases hpick

theorem waiting_le_of_pickRight {taken : List Item}
    (hpick : pool.pickRight sides = .picked next taken) (groupid : Nat) :
    next.waiting groupid ≤ pool.waiting groupid := by
  have hshortens : (pool.pickRight sides).Shortens pool := pickRight_shortens
  rw [hpick] at hshortens
  exact hshortens groupid

/-- One turn of a loop: it leaves with its left side blocked, or it goes on with
fewer teams. -/
theorem turn_blocked {done : List (List Part)}
    (hsides : ∀ side ∈ sides, (side.map Part.groupid).Nodup)
    (hnodup : (parts.map Part.groupid).Nodup)
    (hdone : ∀ other ∈ done, Blocked sides pool other) :
    Turn sides parts (fun pool => ∀ other ∈ done, Blocked sides pool other)
      (fun pool => ∀ other ∈ done ++ [parts], Blocked sides pool other) False pool := by
  unfold Turn
  have hwith : ∀ pool : TeamMatch, (∀ other ∈ done, Blocked sides pool other) →
      Blocked sides pool parts → ∀ other ∈ done ++ [parts], Blocked sides pool other := by
    intro pool hdone hparts other hother
    rcases List.mem_append.mp hother with hold | hnew
    · exact hdone other hold
    · rw [List.mem_singleton.mp hnew]
      exact hparts
  cases hpick : pool.pickTeamPart parts with
  | raised raisedPool => exact pickTeamPart_ne_raised hnodup raisedPool hpick
  | refused =>
      -- the left side cannot be made up, with or without an opponent
      refine hwith pool hdone fun side _ => ?_
      obtain ⟨groupid, hless⟩ := exists_short_of_refused hpick
      exact ⟨groupid, Nat.lt_add_right _ hless⟩
  | picked middle itemLeft =>
      dsimp only
      have hleft := waiting_of_picked hpick
      cases hpickRight : middle.pickRight sides with
      | raised raisedPool => exact pickRight_ne_raised hsides raisedPool hpickRight
      | refused =>
          -- the left side goes back, and the queues are as long as before
          have hcounts := @pickTeamPart_counts pool parts
          rw [hpick] at hcounts
          have hback : ∀ groupid,
              (middle.putBack parts itemLeft).waiting groupid = pool.waiting groupid := by
            intro groupid
            rw [putBack_waiting hcounts.2.2, hleft groupid]
          apply hwith
          · exact fun other hother => (hdone other hother).of_le fun groupid => (hback groupid).le
          · intro side hside
            obtain ⟨groupid, hless⟩ := exists_short_of_pickRight_refused hpickRight side hside
            have := hleft groupid
            exact ⟨groupid, by rw [hback]; omega⟩
      | picked last itemRight =>
          intro other hother
          apply (hdone other hother).of_le
          intro groupid
          have := hleft groupid
          have := waiting_le_of_pickRight hpickRight groupid
          omega

theorem matchSides_blocked {lefts done : List (List Part)} {round : Round}
    (hsides : ∀ side ∈ sides, (side.map Part.groupid).Nodup)
    (hlefts : ∀ parts ∈ lefts, (parts.map Part.groupid).Nodup ∧
      ∃ part others, parts = part :: others ∧ 0 < part.count)
    (hround : round.Ends (fun pool => ∀ parts ∈ done, Blocked sides pool parts) False) :
    (matchSides sides lefts round).Ends
      (fun pool => ∀ parts ∈ done ++ lefts, Blocked sides pool parts) False := by
  induction lefts generalizing done round with
  | nil => simpa [matchSides] using hround
  | cons parts others ih =>
      obtain ⟨hnodup, part, rest, rfl, hcount⟩ := hlefts parts List.mem_cons_self
      rw [List.append_cons]
      apply matchSides_ends hcount
      · intro pool hdone
        exact @turn_blocked _ _ _ done hsides hnodup hdone
      · intro round hround
        exact ih (fun other hother => hlefts other (List.mem_cons_of_mem _ hother)) hround
      · exact hround

/-! ## Sides -/

/-- The sum of the sizes of teams, by size. -/
theorem sum_eq_counts {sizes : List Nat} (hsizes : ∀ size ∈ sizes, size ∈ List.range' 1 5) :
    sizes.sum = sizes.count 1 + 2 * sizes.count 2 + 3 * sizes.count 3 + 4 * sizes.count 4 +
      5 * sizes.count 5 := by
  induction sizes with
  | nil => rfl
  | cons size sizes ih =>
      have hrest := ih fun other hother => hsizes other (List.mem_cons_of_mem _ hother)
      have hsize : size = 1 ∨ size = 2 ∨ size = 3 ∨ size = 4 ∨ size = 5 := by
        have := List.mem_range'_1.mp (hsizes size List.mem_cons_self)
        omega
      rw [List.sum_cons, hrest]
      rcases hsize with rfl | rfl | rfl | rfl | rfl
      all_goals
        simp only [List.count_cons]
        simp
        omega

/-- The sizes of teams with five members together. -/
theorem sizes_of_five {a b c d e : Nat} (hsum : 5 = a + 2 * b + 3 * c + 4 * d + 5 * e) :
    e = 1 ∨ (d = 1 ∧ a = 1) ∨ (c = 1 ∧ b = 1) ∨ (c = 1 ∧ a = 2) ∨ (b = 2 ∧ a = 1) ∨
      (b = 1 ∧ a = 3) ∨ a = 5 := by
  rcases (by omega : e = 0 ∨ e = 1) with rfl | rfl
  · rcases (by omega : d = 0 ∨ d = 1) with rfl | rfl
    · rcases (by omega : c = 0 ∨ c = 1) with rfl | rfl
      · rcases (by omega : b = 0 ∨ b = 1 ∨ b = 2) with rfl | rfl | rfl
        · simp_all
        · simp
          omega
        · simp
          omega
      · rcases (by omega : b = 0 ∨ b = 1) with rfl | rfl
        · simp
          omega
        · simp
    · simp
      omega
  · simp

/-- Teams with five members together make up one of the sides. -/
theorem exists_side {sizes : List Nat} (hsizes : ∀ size ∈ sizes, size ∈ List.range' 1 5)
    (hsum : sizes.sum = 5) :
    ∃ side ∈ CombatType.ct5v5.sides, ∀ groupid, needed side groupid ≤ sizes.count groupid := by
  have hcounts := sum_eq_counts hsizes
  rw [hsum] at hcounts
  have hneeded : ∀ side ∈ CombatType.ct5v5.sides, (∀ part ∈ side, part.count ≤ sizes.count
      part.groupid) → ∀ groupid, needed side groupid ≤ sizes.count groupid := by
    intro side hside henough groupid
    have hnodup := @sides_nodup .ct5v5 (by decide) side hside
    clear hside
    induction side with
    | nil => exact Nat.zero_le _
    | cons part parts ih =>
        rw [List.map_cons, List.nodup_cons] at hnodup
        rw [needed_cons]
        split
        · next heq =>
          subst heq
          have hnone : needed parts part.groupid = 0 := by
            apply List.sum_eq_zero
            intro n hn
            obtain ⟨other, hother, rfl⟩ := List.mem_map.mp hn
            rw [if_neg]
            intro heq
            exact hnodup.1 (heq ▸ List.mem_map_of_mem hother)
          rw [hnone]
          exact henough part List.mem_cons_self
        · rw [Nat.zero_add]
          exact ih (fun other hother => henough other (List.mem_cons_of_mem _ hother)) hnodup.2
  have hcases := sizes_of_five hcounts
  rcases hcases with h | h | h | h | h | h | h
  · exact ⟨[⟨5, 1⟩], by decide, hneeded _ (by decide) (by simp [h])⟩
  · exact ⟨[⟨4, 1⟩, ⟨1, 1⟩], by decide, hneeded _ (by decide) (by simp [h])⟩
  · exact ⟨[⟨3, 1⟩, ⟨2, 1⟩], by decide, hneeded _ (by decide) (by simp [h])⟩
  · exact ⟨[⟨3, 1⟩, ⟨1, 2⟩], by decide, hneeded _ (by decide) (by simp [h])⟩
  · exact ⟨[⟨2, 2⟩, ⟨1, 1⟩], by decide, hneeded _ (by decide) (by simp [h])⟩
  · exact ⟨[⟨2, 1⟩, ⟨1, 3⟩], by decide, hneeded _ (by decide) (by simp [h])⟩
  · exact ⟨[⟨1, 5⟩], by decide, hneeded _ (by decide) (by simp [h])⟩

/-! ## What remains -/

/-- The teams in the queues, each with the number of members by which it waits. -/
def remaining (pool : TeamMatch) : List (Nat × Item) :=
  pool.groups.flatMap fun groupid => (pool.teamInfos groupid).map fun item => (groupid, item)

/-- The members of the teams together. -/
def memberCount (teams : List (Nat × Item)) : Nat :=
  (teams.map Prod.fst).sum

theorem count_remaining {groupid : Nat} (hgroup : groupid ∈ pool.groups) :
    (pool.remaining.map Prod.fst).count groupid = pool.waiting groupid := by
  unfold remaining waiting
  have hmap : (pool.groups.flatMap fun groupid =>
      (pool.teamInfos groupid).map fun item => (groupid, item)).map Prod.fst =
        pool.groups.flatMap fun groupid =>
          List.replicate (pool.teamInfos groupid).length groupid := by
    simp [List.map_flatMap, Function.comp_def, List.map_const']
  rw [hmap]
  have hcount : ∀ groups : List Nat, groups.Nodup → groupid ∈ groups →
      (groups.flatMap fun other =>
        List.replicate (pool.teamInfos other).length other).count groupid =
          (pool.teamInfos groupid).length := by
    intro groups hnodup hmem
    induction groups with
    | nil => cases hmem
    | cons other others ih =>
        rw [List.nodup_cons] at hnodup
        rw [List.flatMap_cons, List.count_append]
        rcases List.mem_cons.mp hmem with rfl | hmem
        · have hnone : (others.flatMap fun other =>
              List.replicate (pool.teamInfos other).length other).count groupid = 0 := by
            rw [List.count_eq_zero]
            simp only [List.mem_flatMap, List.mem_replicate, not_exists, not_and]
            rintro other hother - rfl
            exact hnodup.1 hother
          rw [List.count_replicate_self, hnone, Nat.add_zero]
        · have hne : other ≠ groupid := by
            rintro rfl
            exact hnodup.1 hmem
          rw [ih hnodup.2 hmem, List.count_replicate]
          simp [hne]
  exact hcount pool.groups pool.groups_nodup hgroup

/-- Every side begins with a part that takes a team. -/
theorem sides_start : ∀ parts ∈ CombatType.ct5v5.sides,
    ∃ part others, parts = part :: others ∧ 0 < part.count := by
  simp [CombatType.sides]

theorem doMatch_blocked (teamInfos : Nat → List Item) :
    ∀ parts ∈ CombatType.ct5v5.sides,
      Blocked CombatType.ct5v5.sides (doMatch ⟨.ct5v5, teamInfos⟩).pool parts := by
  have hends := @matchSides_blocked CombatType.ct5v5.sides CombatType.ct5v5.sides []
    ⟨⟨.ct5v5, teamInfos⟩, [], false⟩ (sides_nodup (by decide))
    (fun parts hparts => ⟨@sides_nodup .ct5v5 (by decide) parts hparts, sides_start parts hparts⟩)
    ⟨fun h => (nomatch h), fun _ => by simp⟩
  exact hends.2 (@doMatch_not_raised ⟨.ct5v5, teamInfos⟩ (by decide : CombatType.ct5v5 ≠ .ct4v4))

/-- After `do_match` no two sides of five members are left in a pool for 5v5. -/
theorem doMatch_maximal (teamInfos : Nat → List Item) :
    ¬ ∃ left right : List (Nat × Item),
      (left ++ right).Subperm (doMatch ⟨.ct5v5, teamInfos⟩).pool.remaining ∧
        memberCount left = 5 ∧ memberCount right = 5 := by
  rintro ⟨left, right, hsub, hleft, hright⟩
  have htype : (doMatch ⟨.ct5v5, teamInfos⟩).pool.combatType = .ct5v5 := combatType_doMatch
  have hgroups : (doMatch ⟨.ct5v5, teamInfos⟩).pool.groups = List.range' 1 5 := by
    rw [groups, htype]
    rfl
  have hsizes : ∀ size ∈ (left ++ right).map Prod.fst, size ∈ List.range' 1 5 := by
    intro size hsize
    obtain ⟨team, hteam, rfl⟩ := List.mem_map.mp hsize
    obtain ⟨groupid, hgroup, hitem⟩ := List.mem_flatMap.mp (hsub.subset hteam)
    obtain ⟨item, -, rfl⟩ := List.mem_map.mp hitem
    rw [← hgroups]
    exact hgroup
  rw [List.map_append] at hsizes
  obtain ⟨side, hside, hsideCounts⟩ :=
    exists_side (fun size hsize => hsizes size (List.mem_append_left _ hsize)) hleft
  obtain ⟨other, hother, hotherCounts⟩ :=
    exists_side (fun size hsize => hsizes size (List.mem_append_right _ hsize)) hright
  obtain ⟨groupid, hless⟩ := doMatch_blocked teamInfos side hside other hother
  have hcount : (left.map Prod.fst).count groupid + (right.map Prod.fst).count groupid ≤
      ((doMatch ⟨.ct5v5, teamInfos⟩).pool.remaining.map Prod.fst).count groupid := by
    rw [← List.count_append, ← List.map_append]
    obtain ⟨middle, hperm, hsublist⟩ := hsub
    rw [← (hperm.map Prod.fst).count_eq]
    exact (hsublist.map Prod.fst).count_le groupid
  have hneeded := Nat.add_le_add (hsideCounts groupid) (hotherCounts groupid)
  by_cases hgroup : groupid ∈ (doMatch ⟨.ct5v5, teamInfos⟩).pool.groups
  · rw [count_remaining hgroup] at hcount
    omega
  · -- no team waits under another number
    have hnone : ∀ teams : List (Nat × Item), (∀ size ∈ teams.map Prod.fst,
        size ∈ List.range' 1 5) → (teams.map Prod.fst).count groupid = 0 := by
      intro teams hteams
      rw [List.count_eq_zero]
      intro hmem
      exact hgroup (hgroups ▸ hteams groupid hmem)
    have hzero := hnone left fun size hsize => hsizes size (List.mem_append_left _ hsize)
    have hzero' := hnone right fun size hsize => hsizes size (List.mem_append_right _ hsize)
    omega

end TeamMatch
end Match
end ArmyRs
