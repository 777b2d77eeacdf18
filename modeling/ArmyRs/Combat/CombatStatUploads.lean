import ArmyRs.Combat.CombatStatVotes
import ArmyRs.Combat.FrameResolution

/-!
# When the statistics of a combat are computed

The clients upload what they have counted at the end.  `modify_totaldata` keeps the
upload of whoever sends one, and computes the statistics when there are as many
uploads as players; the loop of `resolve_combatstat` then looks the upload of every
player up.

So the statistics are computed from all uploads when nobody has uploaded who is not
a player (`complete_of_run`).  `computations` records what was there whenever they
were computed; nothing reads it.
-/

namespace ArmyRs
namespace Combat

open Foundation

/-- A computation of the statistics: the players and the uploads at its start, and
the player whose upload was missing. -/
structure Computation where
  players : List Pid
  uploads : List Pid
  missing : Option Pid
  deriving DecidableEq

/-- The first loop of `resolve_combatstat` with its tables.  It sets `staResolve`
each time, and indexing a missing upload raises. -/
def computeEach (members : Members) : List Pid → Nat → StatModel → Table Pid CombatStat →
    StatModel × Table Pid CombatStat × Option Pid
  | [], _, s, stalst => (s, stalst, none)
  | pid :: pids, ref, s, stalst =>
      match s.playerdata.lookup pid, s.totalData.lookup pid with
      | some view, some total =>
          let computed := getCombatStat ref members view total
          computeEach members pids (ref + 2)
            { s with
              playerdata := s.playerdata.insert pid computed.1
              staResolve := some computed.2 }
            (stalst.insert pid computed.2)
      | _, _ => (s, stalst, some pid)

/-- `resolve_combatstat` with what it has computed from, where the loops go through
their tables in the given orders. -/
def StatModel.resolve (s : StatModel) (members : Members) (playerdataOrder cntlstOrder : List Pid) :
    StatModel × Option Computation :=
  match s.staResolve with
  | some _ => (s, none)
  | none =>
      match computeEach members playerdataOrder 0 s ∅ with
      | (s', _, some pid) => (s', some ⟨s.playerdata.keys, s.totalData.keys, some pid⟩)
      | (s', stalst, none) =>
          let cntlst := counts compareStat stalst
          let staResolve := pickStat stalst cntlst (maxCnt cntlst) cntlstOrder s'.staResolve
          ({ s' with staResolve := staResolve },
            some ⟨s.playerdata.keys, s.totalData.keys, none⟩)

/-- `set_totaldata` -/
def StatModel.setTotaldata (s : StatModel) (pid : Pid) (total : Total) : StatModel :=
  match s.playerdata.lookup pid with
  | some view => { s with playerdata := s.playerdata.insert pid (view.finish total) }
  | none => s

/-- `total_data[pid] = action` -/
def StatModel.setUpload (s : StatModel) (pid : Pid) (total : Total) : StatModel :=
  { s with totalData := s.totalData.insert pid total }

/-- `modify_totaldata`.  What it sends to the players is left out. -/
def StatModel.modifyTotaldata (s : StatModel) (members : Members) (pid : Pid) (total : Total)
    (playerdataOrder cntlstOrder : List Pid) : StatModel × Option Computation :=
  let s := (s.setUpload pid total).setTotaldata pid total
  if (s.totalData.keys.length : Int) = s.playercnt then
    s.resolve members playerdataOrder cntlstOrder
  else (s, none)

/-! ## Runs -/

/-- The statistics of a room with the computations so far. -/
structure Uploads where
  model : StatModel
  computations : List Computation

inductive UploadEvent
  /-- A player comes, goes or reports a frame. -/
  | room (event : Event)
  /-- An upload, with orders in which `pairs` may go through the players. -/
  | upload (members : Members) (pid : Pid) (total : Total)
      (playerdataOrder cntlstOrder : List Pid)

def Uploads.step (s : Uploads) : UploadEvent → Option Uploads
  | .room event => (s.model.step event).map fun model => { s with model := model }
  | .upload members pid total playerdataOrder cntlstOrder =>
      if playerdataOrder.Perm s.model.playerdata.keys ∧
          cntlstOrder.Perm s.model.playerdata.keys then
        let modified := s.model.modifyTotaldata members pid total playerdataOrder cntlstOrder
        some ⟨modified.1, s.computations ++ modified.2.toList⟩
      else none

def Uploads.new (staResolve : Option CombatStat) (now : Nat) : Uploads :=
  ⟨StatModel.new staResolve now, []⟩

/-- Every computation so far had the uploads of all players and met no missing
entry. -/
def Uploads.Complete (s : Uploads) : Prop :=
  ∀ computation ∈ s.computations,
    (∀ pid ∈ computation.players, pid ∈ computation.uploads) ∧ computation.missing = none

/-- When an upload makes as many as there are players, they are all of players. -/
def Uploads.Careful (s : Uploads) : UploadEvent → Prop
  | .upload _ pid total _ _ =>
      let uploads := s.model.totalData.insert pid total
      (uploads.keys.length : Int) = s.model.playercnt →
        ∀ uploader ∈ uploads.keys, uploader ∈ s.model.playerdata
  | .room _ => True

/-- Only players upload. -/
def Uploads.FromPlayers (s : Uploads) : UploadEvent → Prop
  | .upload _ pid _ _ _ => pid ∈ s.model.playerdata
  | .room _ => True

instance Uploads.decidableCareful (s : Uploads) (event : UploadEvent) :
    Decidable (s.Careful event) := by
  cases event <;> unfold Uploads.Careful <;> infer_instance

instance Uploads.decidableComplete (s : Uploads) : Decidable s.Complete :=
  inferInstanceAs (Decidable (∀ computation ∈ s.computations, _))

/-! ## The loop -/

section

variable {s s' : StatModel} {members : Members} {pid : Pid} {total : Total}

/-- With everybody's upload the loop goes through. -/
theorem computeEach_missing {pids : List Pid} {ref : Nat} {stalst : Table Pid CombatStat}
    (hall : ∀ pid ∈ pids, pid ∈ s.playerdata ∧ pid ∈ s.totalData) :
    (computeEach members pids ref s stalst).2.2 = none := by
  induction pids generalizing ref s stalst with
  | nil => rfl
  | cons pid pids ih =>
      obtain ⟨hview, htotal⟩ := hall pid List.mem_cons_self
      obtain ⟨view, hview⟩ := exists_lookup hview
      obtain ⟨total, htotal⟩ := exists_lookup htotal
      rw [computeEach, hview, htotal]
      refine ih fun other hother => ?_
      obtain ⟨hthere, hupload⟩ := hall other (List.mem_cons_of_mem _ hother)
      exact ⟨(samePlayers_insert hview _ other).mpr hthere, hupload⟩

theorem sameRoom_computeEach {pids : List Pid} {ref : Nat} {stalst : Table Pid CombatStat} :
    SameRoom s (computeEach members pids ref s stalst).1 := by
  induction pids generalizing ref s stalst with
  | nil => exact SameRoom.refl s
  | cons pid pids ih =>
      rw [computeEach]
      split
      · next view total hview htotal =>
        have hset : SameRoom s { s with
            playerdata := s.playerdata.insert pid (getCombatStat ref members view total).1
            staResolve := some (getCombatStat ref members view total).2 } :=
          ⟨samePlayers_insert hview _, rfl, rfl, rfl, rfl⟩
        exact hset.trans ih
      · exact SameRoom.refl s

theorem sameRoom_resolve (playerdataOrder cntlstOrder : List Pid) :
    SameRoom s (s.resolve members playerdataOrder cntlstOrder).1 := by
  have hloop := @sameRoom_computeEach s members playerdataOrder 0 ∅
  unfold StatModel.resolve
  split
  · exact SameRoom.refl s
  · split
    · next s' stalst missing heq =>
      rw [heq] at hloop
      exact hloop
    · next s' stalst heq =>
      rw [heq] at hloop
      exact ⟨hloop.players, hloop.totalData, hloop.playercnt, hloop.initialized,
        hloop.offlinePlayers⟩

theorem resolve_computation {playerdataOrder cntlstOrder : List Pid} {computation : Computation}
    (h : computation ∈ (s.resolve members playerdataOrder cntlstOrder).2) :
    computation = ⟨s.playerdata.keys, s.totalData.keys,
      (computeEach members playerdataOrder 0 s ∅).2.2⟩ := by
  unfold StatModel.resolve at h
  split at h
  · cases h
  · split at h
    · next heq =>
      cases h
      rw [heq]
    · next heq =>
      cases h
      rw [heq]

/-! ## An upload -/

theorem sameRoom_setTotaldata (s : StatModel) (pid : Pid) (total : Total) :
    SameRoom s (s.setTotaldata pid total) := by
  unfold StatModel.setTotaldata
  split
  · next view hview => exact ⟨samePlayers_insert hview _, rfl, rfl, rfl, rfl⟩
  · exact SameRoom.refl s

/-- Apart from the views an upload is kept, and that is all. -/
theorem sameRoom_modifyTotaldata (playerdataOrder cntlstOrder : List Pid) :
    SameRoom (s.setUpload pid total)
      (s.modifyTotaldata members pid total playerdataOrder cntlstOrder).1 := by
  have hset := sameRoom_setTotaldata (s.setUpload pid total) pid total
  unfold StatModel.modifyTotaldata
  dsimp only
  split
  · exact hset.trans (sameRoom_resolve _ _)
  · exact hset

/-- As many uploads as players, all of players, are the uploads of all players. -/
theorem subset_of_length_keys {K V W : Type*} [DecidableEq K] {players : Table K V}
    {uploads : Table K W} (hlength : players.keys.length ≤ uploads.keys.length)
    (hsub : ∀ k ∈ uploads, k ∈ players) : ∀ k ∈ players, k ∈ uploads := by
  have hsubperm : uploads.keys.Subperm players.keys := uploads.keys_nodup.subperm hsub
  exact fun k hk => (hsubperm.perm_of_length_le hlength).mem_iff.mpr hk

/-- What a careful upload computes is complete. -/
theorem complete_modifyTotaldata (counted : Counted s) {playerdataOrder cntlstOrder : List Pid}
    (horder : playerdataOrder.Perm s.playerdata.keys)
    (hcareful : ((s.totalData.insert pid total).keys.length : Int) = s.playercnt →
      ∀ uploader ∈ (s.totalData.insert pid total).keys, uploader ∈ s.playerdata)
    {computation : Computation}
    (h : computation ∈ (s.modifyTotaldata members pid total playerdataOrder cntlstOrder).2) :
    (∀ player ∈ computation.players, player ∈ computation.uploads) ∧
      computation.missing = none := by
  have hset := sameRoom_setTotaldata (s.setUpload pid total) pid total
  unfold StatModel.modifyTotaldata at h
  dsimp only at h
  rw [hset.totalData, hset.playercnt] at h
  split at h
  · next hequal =>
    have hsub := hcareful hequal
    have hall : ∀ player ∈ s.playerdata, player ∈ (s.setUpload pid total).totalData := by
      refine subset_of_length_keys ?_ hsub
      have hcounted := counted.counted
      have hlength : ((s.setUpload pid total).totalData.keys.length : Int) = s.playercnt := hequal
      omega
    rw [resolve_computation h, hset.totalData]
    constructor
    · exact fun player hplayer => hall player ((hset.players player).mp hplayer)
    · refine computeEach_missing fun player hplayer => ?_
      have hthere : player ∈ s.playerdata := horder.mem_iff.mp hplayer
      rw [hset.totalData]
      exact ⟨(hset.players player).mpr hthere, hall player hthere⟩
  · cases h

end

/-! ## Steps and runs -/

section

variable {s s' : Uploads} {event : UploadEvent}

theorem counted_upload_step (counted : Counted s.model) (hstep : s.step event = some s') :
    Counted s'.model := by
  cases event with
  | room event =>
      obtain ⟨model, hmodel, rfl⟩ := Option.map_eq_some_iff.mp hstep
      exact counted_step counted hmodel
  | upload members pid total playerdataOrder cntlstOrder =>
      rw [Uploads.step] at hstep
      split at hstep
      · cases hstep
        exact (sameRoom_modifyTotaldata _ _).counted ⟨counted.counted, counted.started⟩
      · cases hstep

theorem complete_step (counted : Counted s.model) (complete : s.Complete)
    (hcareful : s.Careful event) (hstep : s.step event = some s') : s'.Complete := by
  cases event with
  | room event =>
      obtain ⟨model, hmodel, rfl⟩ := Option.map_eq_some_iff.mp hstep
      exact complete
  | upload members pid total playerdataOrder cntlstOrder =>
      rw [Uploads.step] at hstep
      split at hstep
      · next horders =>
        cases hstep
        intro computation hmem
        rcases List.mem_append.mp hmem with hold | hnew
        · exact complete computation hold
        · exact complete_modifyTotaldata counted horders.1 hcareful (Option.mem_toList.mp hnew)
      · cases hstep

/-- Everybody who has uploaded is a player. -/
def StatModel.UploadsOfPlayers (s : StatModel) : Prop := ∀ p ∈ s.totalData, p ∈ s.playerdata

theorem SameRoom.uploadsOfPlayers {s s' : StatModel} (same : SameRoom s s')
    (h : s.UploadsOfPlayers) : s'.UploadsOfPlayers := by
  intro p hp
  rw [same.totalData] at hp
  exact (same.players p).mpr (h p hp)

theorem uploadsOfPlayers_step {s s' : StatModel} {event : Event} (counted : Counted s)
    (h : s.UploadsOfPlayers) (hstep : s.step event = some s') : s'.UploadsOfPlayers := by
  cases event with
  | tick elapsed =>
      cases hstep
      exact h
  | init members =>
      cases hstep
      rw [StatModel.init]
      split
      · exact h
      · next hinitialized =>
        -- nobody is a player before the start
        have hempty := (counted.started (Bool.eq_false_of_not_eq_true hinitialized)).1
        intro p hp
        have hplayer := h p hp
        rw [hempty] at hplayer
        exact absurd hplayer (AList.notMem_empty p)
  | reEnter pid =>
      cases hstep
      rw [StatModel.reEnter]
      split
      · exact fun p hp => (AList.mem_insert _).mpr (.inr (h p hp))
      · exact h
  | playerOffline pid =>
      cases hstep
      rw [StatModel.playerOffline]
      split
      · intro p hp
        obtain ⟨hne, hmem⟩ := AList.mem_erase.mp hp
        exact AList.mem_erase.mpr ⟨hne, h p hmem⟩
      · exact h
  | combatDetail pid frame detail =>
      cases hstep
      exact (sameRoom_modifyPlayerdata s pid frame detail).uploadsOfPlayers h
  | checkFrameData =>
      simp only [StatModel.step] at hstep
      split at hstep
      · cases hstep
        exact (sameRoom_checkFrameData s).uploadsOfPlayers h
      · cases hstep

/-- In a careful run the statistics are computed from the uploads of all players, and
no entry is missing. -/
theorem complete_of_run {staResolve : Option CombatStat} {now : Nat} {events : List UploadEvent}
    (hrun : Run Uploads.step Uploads.Careful (Uploads.new staResolve now) events s) :
    s.Complete := by
  have hinv : Counted s.model ∧ s.Complete := by
    apply hrun.invariant
    · exact ⟨counted_new staResolve now, fun computation h => absurd h List.not_mem_nil⟩
    · rintro s event s' ⟨counted, complete⟩ hcareful hstep
      exact ⟨counted_upload_step counted hstep, complete_step counted complete hcareful hstep⟩
  exact hinv.2

/-- When only players upload, every upload is careful. -/
theorem complete_of_fromPlayers {staResolve : Option CombatStat} {now : Nat}
    {events : List UploadEvent}
    (hrun : Run Uploads.step Uploads.FromPlayers (Uploads.new staResolve now) events s) :
    s.Complete := by
  have hinv : Counted s.model ∧ s.model.UploadsOfPlayers ∧ s.Complete := by
    apply hrun.invariant
    · exact ⟨counted_new staResolve now, fun p hp => absurd hp (AList.notMem_empty p),
        fun computation h => absurd h List.not_mem_nil⟩
    rintro s event s' ⟨counted, uploads, complete⟩ hplayer hstep
    have hcareful : s.Careful event := by
      cases event with
      | room event => trivial
      | upload members pid total playerdataOrder cntlstOrder =>
          intro _ uploader huploader
          rcases (AList.mem_insert _).mp huploader with rfl | hold
          · exact hplayer
          · exact uploads uploader hold
    refine ⟨counted_upload_step counted hstep, ?_, complete_step counted complete hcareful hstep⟩
    cases event with
    | room event =>
        obtain ⟨model, hmodel, rfl⟩ := Option.map_eq_some_iff.mp hstep
        exact uploadsOfPlayers_step counted uploads hmodel
    | upload members pid total playerdataOrder cntlstOrder =>
        rw [Uploads.step] at hstep
        split at hstep
        · cases hstep
          refine (sameRoom_modifyTotaldata _ _).uploadsOfPlayers fun p hp => ?_
          rcases (AList.mem_insert _).mp hp with rfl | hold
          · exact hplayer
          · exact uploads p hold
        · cases hstep
  exact hinv.2.2

end

/-! ## Two players and a guest -/

/-- The second player goes and comes back before it uploads. -/
def allUpload : List UploadEvent :=
  [.room (.init twoPlayers),
    .upload twoPlayers (player 1) (won 0) [player 1, player 2] [player 1, player 2],
    .room (.playerOffline (player 2)), .room (.reEnter (player 2)),
    .upload twoPlayers (player 2) (won 0) [player 2, player 1] [player 1, player 2]]

def allUploadEnd : Uploads :=
  (exec Uploads.step Uploads.Careful (Uploads.new none 0) allUpload).getD (Uploads.new none 0)

theorem complete_allUpload : allUploadEnd.Complete := by
  have hrun : Run Uploads.step Uploads.Careful (Uploads.new none 0) allUpload allUploadEnd :=
    run_exec_getD (Uploads.new none 0) (by decide +kernel)
  exact complete_of_run hrun

example : allUploadEnd.computations.length = 1 := by decide +kernel

/-- The upload of a guest makes as many as there are players. -/
def guestUploads : List UploadEvent :=
  [.room (.init twoPlayers),
    .upload twoPlayers (player 1) (won 0) [player 1, player 2] [player 1, player 2],
    .upload twoPlayers (player 3) (won 0) [player 1, player 2] [player 1, player 2]]

def guestUploadsEnd : Uploads :=
  (exec Uploads.step free (Uploads.new none 0) guestUploads).getD (Uploads.new none 0)

/-- The upload of the second player is missing. -/
theorem not_complete_guestUploads :
    ¬ ∀ (events : List UploadEvent) (s : Uploads),
      Run Uploads.step free (Uploads.new none 0) events s → s.Complete := by
  intro h
  have hrun : Run Uploads.step free (Uploads.new none 0) guestUploads guestUploadsEnd :=
    run_exec_getD (Uploads.new none 0) (by decide +kernel)
  have hnot : ¬ guestUploadsEnd.Complete := by decide +kernel
  exact hnot (h _ _ hrun)

end Combat
end ArmyRs
