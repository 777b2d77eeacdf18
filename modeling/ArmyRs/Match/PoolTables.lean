import ArmyRs.Match.FourVersusFour

/-!
# A pool with its tables

Next to the queues a pool keeps two tables under the ids of the teams:
`team_groups` names the queue of a team, and `new_request` holds the score of
every team that has asked for a match since it was last paired.

The operations below are those of `TeamMatch` with the tables written as the
classes write them; `toRound_doMatch` says that the queues and the pairs come out
the same.
-/

namespace ArmyRs
namespace Match

open Foundation

structure PoolTables where
  pool : TeamMatch
  teamGroups : Nat → Option Nat
  newRequest : Nat → Option Int

/-- `table.delete(item[:team_id])` for each of the items. -/
def deleteTeams {α : Type} (table : Nat → Option α) (items : List Item) (id : Nat) : Option α :=
  if id ∈ items.map Item.teamId then none else table id

@[simp] theorem deleteTeams_nil {α : Type} (table : Nat → Option α) :
    deleteTeams table [] = table := by
  funext id
  simp [deleteTeams]

theorem deleteTeams_append {α : Type} (table : Nat → Option α) (items others : List Item) :
    deleteTeams (deleteTeams table items) others = deleteTeams table (items ++ others) := by
  funext id
  simp only [deleteTeams, List.map_append, List.mem_append]
  by_cases hothers : id ∈ others.map Item.teamId
  · rw [if_pos hothers, if_pos (Or.inr hothers)]
  · simp [hothers]

/-- Deleting changes nothing when there is nothing to delete. -/
theorem deleteTeams_eq_iff {α : Type} {table : Nat → Option α} {items : List Item} :
    deleteTeams table items = table ↔ ∀ item ∈ items, table item.teamId = none := by
  constructor
  · intro heq item hitem
    rw [← heq, deleteTeams, if_pos (List.mem_map_of_mem hitem)]
  · intro hnone
    funext id
    unfold deleteTeams
    split
    · next hid =>
      obtain ⟨item, hitem, rfl⟩ := List.mem_map.mp hid
      exact (hnone item hitem).symm
    · rfl

namespace PoolTables

/-- The queue of a group. -/
def queue (t : PoolTables) (groupid : Nat) : List Item :=
  t.pool.teamInfos groupid

/-! ## Requests -/

/-- `remove_team`. -/
def removeTeam (t : PoolTables) (teamId : Nat) : PoolTables where
  pool := t.pool.removeTeam teamId
  teamGroups := Function.update t.teamGroups teamId none
  newRequest := Function.update t.newRequest teamId none

/-- `add_team`: the request is noted before the pool looks for a group. -/
def addTeam (t : PoolTables) (teamId : Nat) (teamScore : Int) (membersInfo : Ref)
    (memberCount : Nat) (robot : Bool) : PoolTables × Bool :=
  let t := t.removeTeam teamId
  let t :=
    if robot then t
    else { t with newRequest := Function.update t.newRequest teamId (some teamScore) }
  if memberCount ∈ t.pool.groups then
    ({ t with
        pool := t.pool.setGroup memberCount (t.queue memberCount ++ [⟨teamId, membersInfo⟩])
        teamGroups := Function.update t.teamGroups teamId (some memberCount) }, true)
  else (t, false)

/-- A request that is refused has been noted, and the earlier one is removed. -/
theorem addTeam_refused {t : PoolTables} {teamId memberCount : Nat} {teamScore : Int}
    {membersInfo : Ref}
    (hrefused : (t.addTeam teamId teamScore membersInfo memberCount false).2 = false) :
    (t.addTeam teamId teamScore membersInfo memberCount false).1 =
      { t.removeTeam teamId with
        newRequest := Function.update t.newRequest teamId (some teamScore) } := by
  unfold addTeam at hrefused ⊢
  simp only [Bool.false_eq_true, if_false] at hrefused ⊢
  split at hrefused
  · cases hrefused
  · next hgroup =>
    rw [if_neg hgroup]
    simp [removeTeam]

/-! ## Picks -/

/-- What `pick_team_part_I` and `pick_team_part_II` do. -/
inductive Pick
  | refused
  | picked (tables : PoolTables) (taken : List Item)
  | raised (tables : PoolTables)

/-- `shift`, and `delete` for the teams that it takes. -/
def shift (t : PoolTables) (part : Part) : PoolTables :=
  { t with
    pool := t.pool.setGroup part.groupid ((t.queue part.groupid).drop part.count)
    teamGroups := deleteTeams t.teamGroups ((t.queue part.groupid).take part.count) }

/-- The `shift` loops of a pick, one part after the other. -/
def shiftParts : PoolTables → List Part → List Item → Pick
  | t, [], taken => .picked t taken
  | t, part :: parts, taken =>
      if (t.queue part.groupid).length < part.count then .raised (t.shift part)
      else (t.shift part).shiftParts parts (taken ++ (t.queue part.groupid).take part.count)

/-- `pick_team_part_I` and `pick_team_part_II`. -/
def pickTeamPart (t : PoolTables) (parts : List Part) : Pick :=
  if parts.all fun part => part.count ≤ (t.queue part.groupid).length then t.shiftParts parts []
  else .refused

/-- The `if` and `elsif` of the right side. -/
def pickRight (t : PoolTables) : List (List Part) → Pick
  | [] => .refused
  | parts :: others =>
      match t.pickTeamPart parts with
      | .refused => t.pickRight others
      | pick => pick

/-- A left side without opponent goes back to the ends of its queues.  The index
is not written. -/
def putBack : PoolTables → List Part → List Item → PoolTables
  | t, [], _ => t
  | t, part :: parts, itemLeft =>
      { t with
        pool := t.pool.setGroup part.groupid
          (t.queue part.groupid ++ itemLeft.take part.count) }.putBack parts
        (itemLeft.drop part.count)

/-! ## Matching -/

/-- One turn of the loop of `match_Pair_I` or `match_Pair_II`. -/
inductive Attempt
  /-- There is no left side. -/
  | left
  | rolledBack (tables : PoolTables)
  | paired (tables : PoolTables) (pair : Pair)
  | raised (tables : PoolTables)

/-- An attempt to form a pair. -/
def attempt (t : PoolTables) (sides : List (List Part)) (parts : List Part) : Attempt :=
  match t.pickTeamPart parts with
  | .refused => .left
  | .raised next => .raised next
  | .picked middle itemLeft =>
      match middle.pickRight sides with
      | .refused => .rolledBack (middle.putBack parts itemLeft)
      | .raised next => .raised next
      | .picked last itemRight => .paired last ⟨itemLeft, itemRight⟩

/-- `push_team_pair`: the requests of the teams are met. -/
def pushTeamPair (t : PoolTables) (pair : Pair) : PoolTables :=
  { t with newRequest := deleteTeams t.newRequest pair.tms }

/-- `do_match` in progress. -/
structure Round where
  tables : PoolTables
  res : List Pair
  raised : Bool

/-- `match_Pair_I` and `match_Pair_II`. -/
def matchPair (sides : List (List Part)) (parts : List Part) :
    Nat → PoolTables → List Pair → Round
  | 0, t, res => ⟨t, res, false⟩
  | turns + 1, t, res =>
      match t.attempt sides parts with
      | .left => ⟨t, res, false⟩
      | .rolledBack next => ⟨next, res, false⟩
      | .raised next => ⟨next, res, true⟩
      | .paired next pair => matchPair sides parts turns (next.pushTeamPair pair) (res ++ [pair])

/-- The lines of `do_match` for the left sides that are still to try. -/
def matchSides (sides : List (List Part)) : List (List Part) → Round → Round
  | [], round => round
  | parts :: others, round =>
      if round.raised then round
      else matchSides sides others
        (matchPair sides parts (round.tables.pool.turns parts) round.tables round.res)

/-- `do_match`; the robots are switched off by `RobotManager.apply_flag`. -/
def doMatch (t : PoolTables) : Round :=
  matchSides t.pool.combatType.sides t.pool.combatType.sides ⟨t, [], false⟩

/-! ## The queues are those of `TeamMatch` -/

/-- A pick without the tables. -/
def Pick.toPick : Pick → TeamMatch.Pick
  | .refused => .refused
  | .picked tables taken => .picked tables.pool taken
  | .raised tables => .raised tables.pool

/-- A round without the tables. -/
def Round.toRound (round : Round) : TeamMatch.Round where
  pool := round.tables.pool
  res := round.res
  raised := round.raised

section

variable {t : PoolTables} {parts : List Part} {sides : List (List Part)}

@[simp] theorem pool_removeTeam (teamId : Nat) :
    (t.removeTeam teamId).pool = t.pool.removeTeam teamId := rfl

theorem pool_addTeam (teamId : Nat) (teamScore : Int) (membersInfo : Ref) (memberCount : Nat)
    (robot : Bool) :
    let added := t.addTeam teamId teamScore membersInfo memberCount robot
    (added.1.pool, added.2) = t.pool.addTeam teamId membersInfo memberCount := by
  unfold addTeam TeamMatch.addTeam
  dsimp only
  cases robot
  · simp only [Bool.false_eq_true, if_false, pool_removeTeam, queue]
    split <;> rfl
  · simp only [if_true, pool_removeTeam, queue]
    split <;> rfl

@[simp] theorem pool_shift (part : Part) :
    (t.shift part).pool =
      t.pool.setGroup part.groupid ((t.pool.teamInfos part.groupid).drop part.count) := rfl

theorem toPick_shiftParts (taken : List Item) :
    (t.shiftParts parts taken).toPick = t.pool.shiftParts parts taken := by
  induction parts generalizing t taken with
  | nil => rfl
  | cons part parts ih =>
      unfold shiftParts TeamMatch.shiftParts queue
      dsimp only
      split
      · rfl
      · rw [ih]
        rfl

theorem toPick_pickTeamPart : (t.pickTeamPart parts).toPick = t.pool.pickTeamPart parts := by
  unfold pickTeamPart TeamMatch.pickTeamPart queue
  split
  · exact toPick_shiftParts []
  · rfl

theorem toPick_pickRight : (t.pickRight sides).toPick = t.pool.pickRight sides := by
  induction sides with
  | nil => rfl
  | cons parts others ih =>
      have hparts := @toPick_pickTeamPart t parts
      unfold pickRight TeamMatch.pickRight
      rw [← hparts]
      cases t.pickTeamPart parts with
      | refused => exact ih
      | picked tables taken => rfl
      | raised tables => rfl

theorem pool_putBack (itemLeft : List Item) :
    (t.putBack parts itemLeft).pool = t.pool.putBack parts itemLeft := by
  induction parts generalizing t itemLeft with
  | nil => rfl
  | cons part parts ih =>
      unfold putBack TeamMatch.putBack
      exact ih _

theorem toRound_matchPair (turns : Nat) (res : List Pair) :
    (matchPair sides parts turns t res).toRound =
      TeamMatch.matchPair sides parts turns t.pool res := by
  induction turns generalizing t res with
  | zero => rfl
  | succ turns ih =>
      have hleft := @toPick_pickTeamPart t parts
      unfold matchPair TeamMatch.matchPair attempt
      rw [← hleft]
      cases t.pickTeamPart parts with
      | refused => rfl
      | raised next => rfl
      | picked middle itemLeft =>
          have hright := @toPick_pickRight middle sides
          dsimp only [Pick.toPick]
          rw [← hright]
          cases middle.pickRight sides with
          | refused => simp [Round.toRound, Pick.toPick, pool_putBack]
          | raised next => rfl
          | picked last itemRight => exact ih (res ++ [⟨itemLeft, itemRight⟩])

theorem toRound_matchSides {lefts : List (List Part)} (round : Round) :
    (matchSides sides lefts round).toRound = TeamMatch.matchSides sides lefts round.toRound := by
  induction lefts generalizing round with
  | nil => rfl
  | cons parts others ih =>
      unfold matchSides TeamMatch.matchSides
      by_cases hraised : round.raised = true
      · rw [if_pos hraised, if_pos (show round.toRound.raised = true from hraised)]
      · rw [if_neg hraised, if_neg (show ¬ round.toRound.raised = true from hraised), ih,
          toRound_matchPair]
        rfl

/-- The tables do not matter for the pairs. -/
theorem toRound_doMatch : t.doMatch.toRound = t.pool.doMatch :=
  toRound_matchSides _

end

end PoolTables
end Match
end ArmyRs
