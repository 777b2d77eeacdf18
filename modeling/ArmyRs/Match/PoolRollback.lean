import ArmyRs.Match.PoolTables

/-!
# What a failure leaves behind

An attempt to form a pair that finds no opponent puts the left side back at the
ends of its queues: the teams that waited behind it have overtaken it, and the
index no longer knows it.  `rolledBack_iff` says when the pool is as before.

A request that `add_team` refuses has been noted already: in the details of the
teams, in the table of new requests, and the earlier request of the team is gone
from the queues.  `refused_iff` says when all three are as before.
-/

namespace ArmyRs
namespace Match

open Foundation

namespace PoolTables

variable {t next : PoolTables} {parts : List Part} {sides : List (List Part)}
  {taken all : List Item}

/-! ## An attempt without an opponent -/

/-- The teams that a side takes: those at the heads of its queues. -/
def heads (t : PoolTables) (parts : List Part) : List Item :=
  parts.flatMap fun part => (t.queue part.groupid).take part.count

@[simp] theorem queue_shift_self (part : Part) :
    (t.shift part).queue part.groupid = (t.queue part.groupid).drop part.count := by
  simp [shift, queue, TeamMatch.setGroup]

theorem queue_shift_of_ne {part : Part} {groupid : Nat} (hne : groupid ≠ part.groupid) :
    (t.shift part).queue groupid = t.queue groupid := by
  simp [shift, queue, TeamMatch.setGroup, hne]

theorem heads_shift {part : Part} (hpart : part.groupid ∉ parts.map Part.groupid) :
    (t.shift part).heads parts = t.heads parts := by
  unfold heads
  apply List.flatMap_congr
  intro other hother
  rw [queue_shift_of_ne]
  intro heq
  exact hpart (heq ▸ List.mem_map_of_mem hother)

/-- What a pick does that has one part for a group. -/
structure Shifted (t : PoolTables) (parts : List Part) (next : PoolTables) : Prop where
  enough : ∀ part ∈ parts, part.count ≤ (t.queue part.groupid).length
  drawn : ∀ part ∈ parts, next.queue part.groupid = (t.queue part.groupid).drop part.count
  others : ∀ groupid, groupid ∉ parts.map Part.groupid → next.queue groupid = t.queue groupid
  teamGroups : next.teamGroups = deleteTeams t.teamGroups (t.heads parts)
  newRequest : next.newRequest = t.newRequest
  combatType : next.pool.combatType = t.pool.combatType

theorem shiftParts_shifted (hnodup : (parts.map Part.groupid).Nodup)
    (hpick : t.shiftParts parts taken = .picked next all) :
    t.Shifted parts next ∧ all = taken ++ t.heads parts := by
  induction parts generalizing t taken with
  | nil =>
      cases hpick
      exact ⟨⟨by simp, by simp, by simp, by simp [heads], rfl, rfl⟩, by simp [heads]⟩
  | cons part parts ih =>
      rw [List.map_cons, List.nodup_cons] at hnodup
      unfold shiftParts at hpick
      split at hpick
      · cases hpick
      · next hlength =>
        obtain ⟨hrest, hall⟩ := ih hnodup.2 hpick
        rw [heads_shift hnodup.1] at hall
        have hapart : ∀ other ∈ parts, other.groupid ≠ part.groupid := by
          intro other hother heq
          exact hnodup.1 (heq ▸ List.mem_map_of_mem hother)
        refine ⟨⟨?_, ?_, ?_, ?_, hrest.newRequest, hrest.combatType⟩, ?_⟩
        · intro other hother
          rcases List.mem_cons.mp hother with rfl | hother
          · omega
          · simpa [queue_shift_of_ne (hapart other hother)] using hrest.enough other hother
        · intro other hother
          rcases List.mem_cons.mp hother with rfl | hother
          · rw [hrest.others _ hnodup.1, queue_shift_self]
          · rw [hrest.drawn other hother, queue_shift_of_ne (hapart other hother)]
        · intro groupid hgroup
          simp only [List.map_cons, List.mem_cons, not_or] at hgroup
          rw [hrest.others groupid hgroup.2, queue_shift_of_ne hgroup.1]
        · rw [hrest.teamGroups, heads_shift hnodup.1]
          exact deleteTeams_append _ _ _
        · rw [hall, List.append_assoc]
          rfl

theorem pickTeamPart_shifted (hnodup : (parts.map Part.groupid).Nodup)
    (hpick : t.pickTeamPart parts = .picked next all) :
    t.Shifted parts next ∧ all = t.heads parts := by
  unfold pickTeamPart at hpick
  split at hpick
  · simpa using shiftParts_shifted hnodup hpick
  · cases hpick

/-- The teams go back to the ends of the queues they come from. -/
theorem putBack_queue (hnodup : (parts.map Part.groupid).Nodup) {back : Part → List Item}
    (hback : ∀ part ∈ parts, (back part).length = part.count) :
    (∀ part ∈ parts, (t.putBack parts (parts.flatMap back)).queue part.groupid =
      t.queue part.groupid ++ back part) ∧
    (∀ groupid, groupid ∉ parts.map Part.groupid →
      (t.putBack parts (parts.flatMap back)).queue groupid = t.queue groupid) ∧
    (t.putBack parts (parts.flatMap back)).teamGroups = t.teamGroups := by
  induction parts generalizing t with
  | nil => exact ⟨by simp, fun _ _ => rfl, rfl⟩
  | cons part parts ih =>
      rw [List.map_cons, List.nodup_cons] at hnodup
      have hlength := hback part List.mem_cons_self
      unfold putBack
      rw [List.flatMap_cons, List.take_left' hlength, List.drop_left' hlength]
      obtain ⟨hparts, hothers, hindex⟩ := @ih
        { t with pool := t.pool.setGroup part.groupid (t.queue part.groupid ++ back part) }
        hnodup.2 (fun other hother => hback other (List.mem_cons_of_mem _ hother))
      have hself : ({ t with
          pool := t.pool.setGroup part.groupid (t.queue part.groupid ++ back part) } :
            PoolTables).queue part.groupid = t.queue part.groupid ++ back part := by
        simp [queue, TeamMatch.setGroup]
      have hne : ∀ groupid, groupid ≠ part.groupid → ({ t with
          pool := t.pool.setGroup part.groupid (t.queue part.groupid ++ back part) } :
            PoolTables).queue groupid = t.queue groupid := by
        intro groupid hne
        simp [queue, TeamMatch.setGroup, hne]
      refine ⟨?_, ?_, hindex⟩
      · intro other hother
        rcases List.mem_cons.mp hother with rfl | hother
        · rw [hothers _ hnodup.1, hself]
        · rw [hparts other hother, hne]
          intro heq
          exact hnodup.1 (heq ▸ List.mem_map_of_mem hother)
      · intro groupid hgroup
        simp only [List.map_cons, List.mem_cons, not_or] at hgroup
        rw [hothers groupid hgroup.2, hne groupid hgroup.1]

/-- The queues after an attempt that is rolled back, and the index. -/
theorem attempt_rolledBack (hnodup : (parts.map Part.groupid).Nodup)
    (hattempt : t.attempt sides parts = .rolledBack next) :
    (∀ part ∈ parts, next.queue part.groupid = (t.queue part.groupid).rotate part.count) ∧
    (∀ groupid, groupid ∉ parts.map Part.groupid → next.queue groupid = t.queue groupid) ∧
    next.teamGroups = deleteTeams t.teamGroups (t.heads parts) := by
  unfold attempt at hattempt
  cases hpick : t.pickTeamPart parts with
  | refused =>
      rw [hpick] at hattempt
      cases hattempt
  | raised raisedTables =>
      rw [hpick] at hattempt
      cases hattempt
  | picked middle itemLeft =>
      obtain ⟨hshifted, rfl⟩ := pickTeamPart_shifted hnodup hpick
      rw [hpick] at hattempt
      dsimp only at hattempt
      cases hright : middle.pickRight sides with
      | picked last itemRight =>
          rw [hright] at hattempt
          cases hattempt
      | raised raisedTables =>
          rw [hright] at hattempt
          cases hattempt
      | refused =>
          rw [hright] at hattempt
          cases hattempt
          have hlengths : ∀ part ∈ parts,
              ((t.queue part.groupid).take part.count).length = part.count := by
            intro part hpart
            rw [List.length_take]
            exact Nat.min_eq_left (hshifted.enough part hpart)
          obtain ⟨hparts, hothers, hindex⟩ := @putBack_queue middle parts hnodup _ hlengths
          refine ⟨?_, ?_, hindex.trans hshifted.teamGroups⟩
          · intro part hpart
            rw [List.rotate_eq_drop_append_take (hshifted.enough part hpart),
              ← hshifted.drawn part hpart]
            exact hparts part hpart
          · intro groupid hgroup
            exact (hothers groupid hgroup).trans (hshifted.others groupid hgroup)

/-- A queue of different teams looks the same when its first teams have gone to
its end only if there are no others. -/
theorem rotate_eq_self_iff {queue : List Item} {count : Nat} (hnodup : queue.Nodup)
    (hpositive : 0 < count) (hcount : count ≤ queue.length) :
    queue.rotate count = queue ↔ queue.length = count := by
  have hne : queue ≠ [] := List.ne_nil_of_length_pos (hpositive.trans_le hcount)
  constructor
  · intro heq
    have hmod := (hnodup.rotate_congr_iff (i := count) (j := 0)).mp (by simpa using heq)
    have hzero : count % queue.length = 0 := by simpa [hne] using hmod
    rcases hcount.lt_or_eq with hlt | heq
    · rw [Nat.mod_eq_of_lt hlt] at hzero
      omega
    · exact heq.symm
  · rintro rfl
    exact List.rotate_length queue

/-- The pool has the teams of every group in the same order, and the same
index. -/
def SamePool (before after : PoolTables) : Prop :=
  after.queue = before.queue ∧ after.teamGroups = before.teamGroups

/-- The condition: moving the teams of the left side to the ends of their queues
changes nothing, and the index does not know them. -/
def Restorable (t : PoolTables) (parts : List Part) : Prop :=
  (∀ part ∈ parts, (t.queue part.groupid).rotate part.count = t.queue part.groupid) ∧
    ∀ item ∈ t.heads parts, t.teamGroups item.teamId = none

/-- An attempt of a pool for 5v5 that is rolled back leaves the pool as it was
exactly if the condition holds. -/
theorem rolledBack_iff {t next : PoolTables} {parts : List Part}
    (hparts : parts ∈ CombatType.ct5v5.sides)
    (hattempt : t.attempt CombatType.ct5v5.sides parts = .rolledBack next) :
    SamePool t next ↔ t.Restorable parts := by
  have hnodup := @TeamMatch.sides_nodup .ct5v5 (by decide) parts hparts
  obtain ⟨hqueues, hothers, hindex⟩ := attempt_rolledBack hnodup hattempt
  unfold SamePool Restorable
  rw [hindex, deleteTeams_eq_iff]
  apply and_congr_left
  intro _
  constructor
  · intro hsame part hpart
    rw [← hqueues part hpart, hsame]
  · intro hrotate
    funext groupid
    by_cases hgroup : groupid ∈ parts.map Part.groupid
    · obtain ⟨part, hpart, rfl⟩ := List.mem_map.mp hgroup
      rw [hqueues part hpart, hrotate part hpart]
    · exact hothers groupid hgroup

/-- A team of five is alone in its pool. -/
def lonely : PoolTables :=
  ((⟨⟨.ct5v5, fun _ => []⟩, fun _ => none, fun _ => none⟩ : PoolTables).addTeam 1 1000 0 5
    false).1

/-- The pool after it has looked for an opponent once. -/
def lookedOnce : PoolTables := lonely.doMatch.tables

/-- The second attempt finds the index as the first has left it. -/
theorem rolledBack_lookedOnce :
    ∃ next, lookedOnce.attempt CombatType.ct5v5.sides [⟨5, 1⟩] = .rolledBack next ∧
      SamePool lookedOnce next := by
  exact ⟨_, rfl, (@rolledBack_iff lookedOnce _ [⟨5, 1⟩] (by decide) rfl).mpr
    ⟨by decide, by decide⟩⟩

theorem not_samePool_lonely :
    ¬ ∀ (t next : PoolTables), ∀ parts ∈ CombatType.ct5v5.sides,
      t.attempt CombatType.ct5v5.sides parts = .rolledBack next → SamePool t next := by
  intro h
  have hsame := (h lonely _ [⟨5, 1⟩] (by decide) rfl).2
  have hindex := congrFun hsame 1
  revert hindex
  decide

end PoolTables

/-! ## A request that is refused -/

/-- The hash that `match_request` hands over. -/
structure Request where
  teamId : Nat
  zone : Nat
  teamScore : Int
  poolId : Option Nat
  membersInfo : Ref
  chId : Nat
  deriving DecidableEq, Repr

/-- `@@pools`, `@@team_details` and `@@player_pool_team`. -/
structure MatchTables where
  pools : Nat → Option (Nat → Option PoolTables)
  teamDetails : Nat → Option Request
  playerPoolTeam : PlayerId → Option PoolTeam

/-- The answers of `MatchManager.add_team`; an unknown zone raises. -/
inductive AddAnswer
  | raised
  | poolNotExist
  | poolTypeMismatch
  | success
  deriving DecidableEq, Repr

namespace MatchTables

/-- `@@pools[zone][pool_id]`. -/
def findPool (m : MatchTables) (req : Request) : Option PoolTables :=
  (m.pools req.zone).bind fun zps => req.poolId.bind zps

def setPool (m : MatchTables) (req : Request) (pool : PoolTables) : MatchTables :=
  { m with
    pools := fun zone => (m.pools zone).map fun zps poolId =>
      if zone = req.zone ∧ some poolId = req.poolId then some pool else zps poolId }

/-- `add_team_detail`. -/
def addTeamDetail (m : MatchTables) (req : Request) : MatchTables :=
  { m with teamDetails := Function.update m.teamDetails req.teamId (some req) }

/-- `MatchManager.add_team`. -/
def addTeam (arrays : Arrays) (m : MatchTables) (req : Request) : AddAnswer × MatchTables :=
  if (m.pools req.zone).isNone then (.raised, m)
  else
    match m.findPool req with
    | none => (.poolNotExist, m)
    | some pool =>
        let m := m.addTeamDetail req
        let pids := arrays.pids req.membersInfo
        let added := pool.addTeam req.teamId req.teamScore req.membersInfo pids.length false
        let m := m.setPool req added.1
        if added.2 then
          (.success, { m with
            playerPoolTeam := fun pid =>
              if pid ∈ pids then req.poolId.map fun poolId => ⟨req.zone, poolId, req.teamId⟩
              else m.playerPoolTeam pid })
        else (.poolTypeMismatch, m)

/-- The groups of a pool and its new requests. -/
def groupsAndRequests (pool : PoolTables) : List (List Item) × (Nat → Option Int) :=
  (pool.pool.groups.map pool.queue, pool.newRequest)

/-- The groups of all pools, the new requests and the details are the same. -/
structure Untouched (before after : MatchTables) : Prop where
  pools : ∀ zone poolId,
    ((after.pools zone).bind fun zps => (zps poolId).map groupsAndRequests) =
      (before.pools zone).bind fun zps => (zps poolId).map groupsAndRequests
  teamDetails : after.teamDetails = before.teamDetails

/-- The condition: the same request is noted already, and the team has no other
one in a queue. -/
structure NotedBefore (m : MatchTables) (req : Request) : Prop where
  detail : m.teamDetails req.teamId = some req
  noted : ∀ pool ∈ m.findPool req, pool.newRequest req.teamId = some req.teamScore
  absent : ∀ pool ∈ m.findPool req, ∀ item ∈ pool.pool.items, item.teamId ≠ req.teamId

variable {arrays : Arrays} {m after : MatchTables} {req : Request}

/-- A refused request has been written into the tables. -/
theorem addTeam_refused (hrefused : addTeam arrays m req = (.poolTypeMismatch, after)) :
    ∃ pool, m.findPool req = some pool ∧
      after = (m.addTeamDetail req).setPool req
        { pool.removeTeam req.teamId with
          newRequest := Function.update pool.newRequest req.teamId (some req.teamScore) } := by
  unfold addTeam at hrefused
  split at hrefused
  · cases hrefused
  · cases hpool : m.findPool req with
    | none =>
        rw [hpool] at hrefused
        cases hrefused
    | some pool =>
        rw [hpool] at hrefused
        dsimp only at hrefused
        refine ⟨pool, rfl, ?_⟩
        split at hrefused
        · cases hrefused
        · next hadded =>
          have heq := PoolTables.addTeam_refused (Bool.eq_false_of_not_eq_true hadded)
          rw [← (Prod.mk.inj hrefused).2, heq]

/-- A pool without an item of the team has nothing to remove. -/
theorem groups_removeTeam_iff (pool : PoolTables) (teamId : Nat) :
    (pool.removeTeam teamId).pool.groups.map (pool.removeTeam teamId).queue =
        pool.pool.groups.map pool.queue ↔
      ∀ item ∈ pool.pool.items, item.teamId ≠ teamId := by
  have hqueue : ∀ groupid, (pool.removeTeam teamId).queue groupid =
      (pool.queue groupid).filter fun item => item.teamId ≠ teamId := fun _ => rfl
  show pool.pool.groups.map _ = _ ↔ _
  rw [List.map_inj_left]
  constructor
  · intro hsame item hitem
    obtain ⟨groupid, hgroup, hitem⟩ := List.mem_flatMap.mp hitem
    have hfilter := hsame groupid hgroup
    rw [hqueue, List.filter_eq_self] at hfilter
    simpa using hfilter item hitem
  · intro habsent groupid hgroup
    rw [hqueue, List.filter_eq_self]
    intro item hitem
    simpa using habsent item (List.mem_flatMap.mpr ⟨groupid, hgroup, hitem⟩)

theorem update_eq_self {α : Type} {table : Nat → Option α} {id : Nat} {value : Option α} :
    Function.update table id value = table ↔ table id = value := by
  constructor
  · intro heq
    rw [← heq, Function.update_self]
  · rintro rfl
    exact Function.update_eq_self id table

/-- A request that is refused because of the number of members leaves groups, new
requests and details as they were exactly if the condition holds. -/
theorem refused_iff {arrays : Arrays} {m after : MatchTables} {req : Request}
    (hrefused : addTeam arrays m req = (.poolTypeMismatch, after)) :
    Untouched m after ↔ NotedBefore m req := by
  obtain ⟨pool, hpool, rfl⟩ := addTeam_refused hrefused
  obtain ⟨zps, hzps, hfound⟩ := Option.bind_eq_some_iff.mp hpool
  obtain ⟨poolId, hpoolId, hpoolAt⟩ := Option.bind_eq_some_iff.mp hfound
  constructor
  · intro huntouched
    have hview := huntouched.pools req.zone poolId
    simp only [setPool, addTeamDetail, hzps, hpoolId, hpoolAt, Option.map_some, Option.bind_some,
      and_self, if_true, groupsAndRequests, Option.some.injEq, Prod.mk.injEq] at hview
    refine ⟨?_, ?_, ?_⟩
    · exact update_eq_self.mp huntouched.teamDetails
    · rw [hpool]
      rintro _ ⟨⟩
      exact update_eq_self.mp hview.2
    · rw [hpool]
      rintro _ ⟨⟩
      exact (groups_removeTeam_iff pool req.teamId).mp hview.1
  · intro hnoted
    constructor
    · intro zone otherId
      cases hzone : m.pools zone with
      | none => simp [setPool, addTeamDetail, hzone]
      | some others =>
          simp only [setPool, addTeamDetail, hzone, Option.map_some, Option.bind_some]
          split
          · next hhere =>
            obtain ⟨rfl, hid⟩ := hhere
            rw [hpoolId, Option.some.injEq] at hid
            subst hid
            rw [hzps, Option.some.injEq] at hzone
            subst hzone
            rw [hpoolAt, Option.map_some, Option.map_some, Option.some.injEq]
            apply Prod.ext
            · exact (groups_removeTeam_iff pool req.teamId).mpr (hnoted.absent pool hpool)
            · exact update_eq_self.mpr (hnoted.noted pool hpool)
          · rfl
    · exact update_eq_self.mpr hnoted.detail

/-! ### Three players ask for a 2v2 -/

/-- A zone with a pool for 2v2. -/
def doubles : MatchTables where
  pools := fun zone =>
    if zone = 1 then
      some fun poolId =>
        if poolId = 7 then some ⟨⟨.ct2v2, fun _ => []⟩, fun _ => none, fun _ => none⟩ else none
    else none
  teamDetails := fun _ => none
  playerPoolTeam := fun _ => none

def threeMembers : Arrays := fun _ => [⟨11, 1000, true⟩, ⟨12, 1000, true⟩, ⟨13, 1000, true⟩]

def threeAsk : Request := ⟨5, 1, 1000, some 7, 0, 3⟩

/-- The request comes a second time. -/
theorem untouched_threeAsk :
    Untouched (addTeam threeMembers doubles threeAsk).2
      (addTeam threeMembers (addTeam threeMembers doubles threeAsk).2 threeAsk).2 := by
  refine (@refused_iff threeMembers _ _ threeAsk rfl).mpr ⟨by decide, ?_, ?_⟩
  · rintro _ ⟨⟩
    decide
  · rintro _ ⟨⟩
    decide

theorem not_untouched_threeAsk :
    ¬ ∀ (arrays : Arrays) (m after : MatchTables) (req : Request),
      addTeam arrays m req = (.poolTypeMismatch, after) → Untouched m after := by
  intro h
  have huntouched := h threeMembers doubles _ threeAsk rfl
  have hdetail := congrFun huntouched.teamDetails 5
  revert hdetail
  decide

end MatchTables
end Match
end ArmyRs
