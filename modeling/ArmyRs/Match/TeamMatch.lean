import ArmyRs.Foundation.Queues

/-!
# The matching pools

A pool keeps the requests of the teams in queues, one for each number of
members.  `do_match` goes through the ways in which teams make up a full side:
for each of them it takes a left side from the queues and looks for a right
side, and goes on until it finds no opponent.  `TeamMatch1V1` to `TeamMatch5V5`
differ in the number of groups and in these ways only.

The `members_info` of a request is the array of the team itself, not a copy.
-/

namespace ArmyRs
namespace Match

open Foundation

abbrev PlayerId := Nat

/-- The address of a `members_info` array. -/
abbrev Ref := Nat

/-- An item of a queue: the team that asked, and the array of its members. -/
structure Item where
  teamId : Nat
  membersInfo : Ref
  deriving DecidableEq, Repr

/-- An item of `res`, the two sides of a match. -/
structure Pair where
  left : List Item
  right : List Item
  deriving DecidableEq, Repr

/-- `tms`: the left side, then the right side. -/
def Pair.tms (pair : Pair) : List Item :=
  pair.left ++ pair.right

inductive CombatType
  | ct1v1
  | ct2v2
  | ct3v3
  | ct4v4
  | ct5v5
  deriving DecidableEq, Repr

/-- The number of players of a side; the groups of a pool are `1..size`. -/
def CombatType.size : CombatType → Nat
  | .ct1v1 => 1
  | .ct2v2 => 2
  | .ct3v3 => 3
  | .ct4v4 => 4
  | .ct5v5 => 5

/-- `count` teams of a group. -/
structure Part where
  groupid : Nat
  count : Nat
  deriving DecidableEq, Repr

/-- The ways to make up a side.  `do_match` tries them as left sides and
`match_Pair_I` and `match_Pair_II` as right sides, both in this order. -/
def CombatType.sides : CombatType → List (List Part)
  | .ct1v1 => [[⟨1, 1⟩]]
  | .ct2v2 => [[⟨2, 1⟩], [⟨1, 2⟩]]
  | .ct3v3 => [[⟨3, 1⟩], [⟨2, 1⟩, ⟨1, 1⟩], [⟨1, 3⟩]]
  | .ct4v4 => [[⟨4, 1⟩], [⟨3, 1⟩, ⟨1, 1⟩], [⟨2, 1⟩, ⟨2, 1⟩], [⟨2, 1⟩, ⟨1, 2⟩], [⟨1, 4⟩]]
  | .ct5v5 =>
      [[⟨5, 1⟩], [⟨4, 1⟩, ⟨1, 1⟩], [⟨3, 1⟩, ⟨2, 1⟩], [⟨3, 1⟩, ⟨1, 2⟩], [⟨2, 2⟩, ⟨1, 1⟩],
        [⟨2, 1⟩, ⟨1, 3⟩], [⟨1, 5⟩]]

/-- A pool. -/
structure TeamMatch where
  combatType : CombatType
  teamInfos : Nat → List Item

namespace TeamMatch

/-- The keys of `team_infos`. -/
def groups (pool : TeamMatch) : List Nat :=
  List.range' 1 pool.combatType.size

/-- Everything that waits in the pool. -/
def items (pool : TeamMatch) : List Item :=
  contents pool.groups pool.teamInfos

def setGroup (pool : TeamMatch) (groupid : Nat) (queue : List Item) : TeamMatch :=
  { pool with teamInfos := Function.update pool.teamInfos groupid queue }

/-! ## Requests -/

def removeTeam (pool : TeamMatch) (teamId : Nat) : TeamMatch :=
  { pool with
    teamInfos := fun groupid => (pool.teamInfos groupid).filter fun item => item.teamId ≠ teamId }

/-- `add_team`, and whether the pool has a group for the team.  An earlier
request of the team is gone in any case. -/
def addTeam (pool : TeamMatch) (teamId : Nat) (membersInfo : Ref) (memberCount : Nat) :
    TeamMatch × Bool :=
  let pool := pool.removeTeam teamId
  if memberCount ∈ pool.groups then
    (pool.setGroup memberCount (pool.teamInfos memberCount ++ [⟨teamId, membersInfo⟩]), true)
  else (pool, false)

/-! ## Matching -/

/-- What `pick_team_part_I` and `pick_team_part_II` do: the queues are too
short, or the items are taken, or `shift` has found an empty queue. -/
inductive Pick
  | refused
  | picked (pool : TeamMatch) (taken : List Item)
  | raised (pool : TeamMatch)

/-- The `shift` loops of a pick, one part after the other. -/
def shiftParts : TeamMatch → List Part → List Item → Pick
  | pool, [], taken => .picked pool taken
  | pool, part :: parts, taken =>
      let queue := pool.teamInfos part.groupid
      let pool := pool.setGroup part.groupid (queue.drop part.count)
      -- with two parts of one group the second loop can run out of teams
      if queue.length < part.count then .raised pool
      else pool.shiftParts parts (taken ++ queue.take part.count)

/-- `pick_team_part_I` and `pick_team_part_II`: the lengths of the queues are
checked first, each part by itself. -/
def pickTeamPart (pool : TeamMatch) (parts : List Part) : Pick :=
  if parts.all fun part => part.count ≤ (pool.teamInfos part.groupid).length then
    pool.shiftParts parts []
  else .refused

/-- The `if` and `elsif` of the right side. -/
def pickRight (pool : TeamMatch) : List (List Part) → Pick
  | [] => .refused
  | parts :: others =>
      match pool.pickTeamPart parts with
      | .refused => pool.pickRight others
      | pick => pick

/-- A left side without opponent goes back to the ends of its queues. -/
def putBack : TeamMatch → List Part → List Item → TeamMatch
  | pool, [], _ => pool
  | pool, part :: parts, itemLeft =>
      (pool.setGroup part.groupid
        (pool.teamInfos part.groupid ++ itemLeft.take part.count)).putBack parts
        (itemLeft.drop part.count)

/-- `do_match` in progress: the pool, the pairs in `res`, and whether it has
raised. -/
structure Round where
  pool : TeamMatch
  res : List Pair
  raised : Bool

/-- `match_Pair_I` and `match_Pair_II`.  Every turn of the loop shortens the
queue of the first group, so its length bounds the turns. -/
def matchPair (sides : List (List Part)) (parts : List Part) : Nat → TeamMatch → List Pair → Round
  | 0, pool, res => ⟨pool, res, false⟩
  | turns + 1, pool, res =>
      match pool.pickTeamPart parts with
      | .refused => ⟨pool, res, false⟩
      | .raised pool => ⟨pool, res, true⟩
      | .picked pool itemLeft =>
          match pool.pickRight sides with
          | .refused => ⟨pool.putBack parts itemLeft, res, false⟩
          | .raised pool => ⟨pool, res, true⟩
          | .picked pool itemRight =>
              matchPair sides parts turns pool (res ++ [⟨itemLeft, itemRight⟩])

/-- The length of the queue that a left side begins with. -/
def turns (pool : TeamMatch) : List Part → Nat
  | [] => 0
  | part :: _ => (pool.teamInfos part.groupid).length

/-- The lines of `do_match` for the left sides that are still to try.  What
raises in one of them ends `do_match`. -/
def matchSides (sides : List (List Part)) : List (List Part) → Round → Round
  | [], round => round
  | parts :: others, round =>
      if round.raised then round
      else matchSides sides others
        (matchPair sides parts (round.pool.turns parts) round.pool round.res)

/-- `do_match`; the robots are switched off by `RobotManager.apply_flag`. -/
def doMatch (pool : TeamMatch) : Round :=
  matchSides pool.combatType.sides pool.combatType.sides ⟨pool, [], false⟩

end TeamMatch
end Match
end ArmyRs
