import ArmyRs.Combat.Room

/-!
# The status of a room

The status of a room only goes forward, and the combat starts at most once
(`forward_of_run`).

* The count-down is only started while the status is `inited`, and its handle is
  kept until it is stopped.  So a count-down that is still called finds the status
  `inited` or, in the same pass, `counted`.
* `checkLoadingReady` starts the combat from `counted` only and leaves that status
  at once.
* `exit` may be called again while it waits; the status stays `exited`.
-/

namespace ArmyRs
namespace Combat

open Foundation

/-- The number of the status; 0 before a player has entered. -/
def Room.rank (s : Room) : Nat :=
  (s.roomInfo.map fun info => info.status.toNat).getD 0

/-- Nothing counts down. -/
def Room.Idle (s : Room) : Prop := ∀ id, (id, Callback.countDown) ∉ s.scheduler.live

/-- The status has gone forward, and the combat has started at most once. -/
structure Forward (s : Room) : Prop where
  sorted : s.statuses.Pairwise fun earlier later => earlier.toNat ≤ later.toNat
  last : s.statuses.getLast? = s.roomInfo.map RoomInfo.status
  bound : ∀ status ∈ s.statuses, status.toNat ≤ s.rank
  once : s.broadcasts.count .gameStart ≤ 1 ∧ s.frameLineStarts ≤ 1
  unstarted : s.rank < RoomStatus.started.toNat →
    s.broadcasts.count .gameStart = 0 ∧ s.frameLineStarts = 0
  handle : ∀ id, (id, Callback.countDown) ∈ s.scheduler.live → s.hCountDown = some id

/-- Only a room with status `inited` counts down. -/
def Room.CountsInited (s : Room) : Prop :=
  ∀ id, (id, Callback.countDown) ∈ s.scheduler.live → s.rank = RoomStatus.inited.toNat

/-- The second state has gone as far as the first one. -/
structure SameProgress (s s' : Room) : Prop where
  statuses : s'.statuses = s.statuses
  status : s'.roomInfo.map RoomInfo.status = s.roomInfo.map RoomInfo.status
  gameStarts : s'.broadcasts.count .gameStart = s.broadcasts.count .gameStart
  frameLineStarts : s'.frameLineStarts = s.frameLineStarts
  hCountDown : s'.hCountDown = s.hCountDown
  live : ∀ id, (id, Callback.countDown) ∈ s'.scheduler.live →
    (id, Callback.countDown) ∈ s.scheduler.live

section

variable {s s' s'' : Room}

theorem rank_eq_map (s : Room) :
    s.rank = ((s.roomInfo.map RoomInfo.status).map RoomStatus.toNat).getD 0 := by
  unfold Room.rank
  rw [Option.map_map]
  rfl

theorem SameProgress.refl (s : Room) : SameProgress s s :=
  ⟨rfl, rfl, rfl, rfl, rfl, fun _ h => h⟩

theorem SameProgress.trans (h : SameProgress s s') (h' : SameProgress s' s'') :
    SameProgress s s'' where
  statuses := h'.statuses.trans h.statuses
  status := h'.status.trans h.status
  gameStarts := h'.gameStarts.trans h.gameStarts
  frameLineStarts := h'.frameLineStarts.trans h.frameLineStarts
  hCountDown := h'.hCountDown.trans h.hCountDown
  live := fun id hlive => h.live id (h'.live id hlive)

theorem SameProgress.rank (h : SameProgress s s') : s'.rank = s.rank := by
  rw [rank_eq_map, rank_eq_map, h.status]

theorem SameProgress.forward (h : SameProgress s s') (forward : Forward s) : Forward s' where
  sorted := by
    rw [h.statuses]
    exact forward.sorted
  last := by
    rw [h.statuses, h.status]
    exact forward.last
  bound := by
    rw [h.statuses, h.rank]
    exact forward.bound
  once := by
    rw [h.gameStarts, h.frameLineStarts]
    exact forward.once
  unstarted := by
    rw [h.gameStarts, h.frameLineStarts, h.rank]
    exact forward.unstarted
  handle := by
    intro id hlive
    rw [h.hCountDown]
    exact forward.handle id (h.live id hlive)

theorem SameProgress.countsInited (h : SameProgress s s') (hcounts : s.CountsInited) :
    s'.CountsInited := by
  intro id hlive
  rw [h.rank]
  exact hcounts id (h.live id hlive)

theorem Room.Idle.countsInited (idle : s.Idle) : s.CountsInited :=
  fun id hlive => absurd hlive (idle id)

/-! ## What leaves the progress as it is -/

theorem live_unschedule_subset {scheduler : Scheduler Callback} {handle id : Nat} {func : Callback}
    (h : (id, func) ∈ (scheduler.unschedule handle).live) : (id, func) ∈ scheduler.live :=
  (Scheduler.mem_live_unschedule.mp h).1

/-- Scheduling something else starts no count-down. -/
theorem live_schedule_subset (func : Callback) (hfunc : func ≠ .countDown)
    {scheduler : Scheduler Callback} {interval id : Nat}
    (h : (id, Callback.countDown) ∈ (scheduler.schedule interval func).1.live) :
    (id, Callback.countDown) ∈ scheduler.live := by
  rcases Scheduler.mem_live_schedule.mp h with hold | ⟨-, hnew⟩
  · exact hold
  · exact absurd hnew.symm hfunc

theorem same_stopCheckAllLeft (s : Room) : SameProgress s s.stopCheckAllLeft := by
  unfold Room.stopCheckAllLeft
  split
  · exact SameProgress.refl s
  · exact ⟨rfl, rfl, rfl, rfl, rfl, fun _ h => live_unschedule_subset h⟩

theorem same_broadcasterExit (s : Room) : SameProgress s s.broadcasterExit :=
  ⟨rfl, rfl, rfl, rfl, rfl, fun _ h => h⟩

theorem same_addPlayer (s : Room) (pid : Pid) (token : String) (sid : Sid) :
    SameProgress s (s.addPlayer pid token sid) :=
  ⟨rfl, rfl, rfl, rfl, rfl, fun _ h => h⟩

theorem same_inputFrmLineExit (s : Room) : SameProgress s s.inputFrmLineExit := by
  unfold Room.inputFrmLineExit
  split
  · exact SameProgress.refl s
  · exact ⟨rfl, rfl, rfl, rfl, rfl, fun _ h => live_unschedule_subset h⟩

theorem same_broadcastMsg (s : Room) {msg : Broadcast} (hmsg : msg ≠ .gameStart) :
    SameProgress s (s.broadcastMsg msg) where
  statuses := rfl
  status := rfl
  gameStarts := by
    unfold Room.broadcastMsg
    rw [List.count_append, List.count_singleton, if_neg]
    · rfl
    · rw [beq_iff_eq]
      exact hmsg
  frameLineStarts := rfl
  hCountDown := rfl
  live := fun _ h => h

theorem same_notifyOnlinePeers (s : Room) : SameProgress s s.notifyOnlinePeers := by
  unfold Room.notifyOnlinePeers
  split
  · exact SameProgress.refl s
  · dsimp only
    split
    · exact SameProgress.refl s
    · exact same_broadcastMsg s nofun

theorem same_checkAllLeft (s : Room) : SameProgress s s.checkAllLeft := by
  unfold Room.checkAllLeft
  dsimp only
  apply (same_stopCheckAllLeft s).trans
  split
  · exact ⟨rfl, rfl, rfl, rfl, rfl, fun _ h => live_schedule_subset .allLeft nofun h⟩
  · exact SameProgress.refl _

theorem same_statModelInit (s : Room) (members : Members) :
    SameProgress s (s.statModelInit members) where
  statuses := rfl
  status := rfl
  gameStarts := rfl
  frameLineStarts := rfl
  hCountDown := rfl
  live := by
    intro id h
    unfold Room.statModelInit at h
    dsimp only at h
    split at h
    · exact h
    · exact live_schedule_subset .checkFrameData nofun h

theorem same_statModelReEnter (s : Room) (pid : Pid) :
    SameProgress s (s.statModelReEnter pid) := by
  unfold Room.statModelReEnter
  split
  · exact SameProgress.refl s
  · split
    · exact ⟨rfl, rfl, rfl, rfl, rfl, fun _ h => h⟩
    · exact SameProgress.refl s

theorem same_modifyPlayerdata (s : Room) (pid : Pid) (frame : Frame) (detail : Detail) :
    SameProgress s { s with statModel := s.statModel.modifyPlayerdata pid frame detail } :=
  ⟨rfl, rfl, rfl, rfl, rfl, fun _ h => h⟩

theorem same_onRcvUploadStat (s : Room) (pid : Pid) (total : Total)
    (playerdataOrder cntlstOrder : List Pid) :
    SameProgress s (s.onRcvUploadStat pid total playerdataOrder cntlstOrder) := by
  unfold Room.onRcvUploadStat
  dsimp only
  split
  · split
    · exact ⟨rfl, rfl, rfl, rfl, rfl, fun _ h => h⟩
    · exact ⟨rfl, rfl, rfl, rfl, rfl, fun _ h => h⟩
  · exact ⟨rfl, rfl, rfl, rfl, rfl, fun _ h => h⟩

theorem same_onRcvHeroSelected (s : Room) (pid : Pid) (tid : Option LuaValue) :
    SameProgress s (s.onRcvHeroSelected pid tid) := by
  unfold Room.onRcvHeroSelected
  split
  · exact SameProgress.refl s
  · next info hinfo =>
    refine ⟨rfl, ?_, rfl, rfl, rfl, fun _ h => h⟩
    rw [hinfo]
    rfl

theorem same_heroLoaded (s : Room) (playerData : Option (Table Pid LuaValue)) :
    SameProgress s (s.heroLoaded playerData) := by
  unfold Room.heroLoaded
  split
  · next info playerData hinfo =>
    refine ⟨rfl, ?_, rfl, rfl, rfl, fun _ h => h⟩
    rw [hinfo]
    rfl
  · exact ⟨rfl, rfl, rfl, rfl, rfl, fun _ h => h⟩

/-! ## The count-down -/

/-- The count-down is stopped with its handle. -/
theorem idle_stopCountDown
    (handle : ∀ id, (id, Callback.countDown) ∈ s.scheduler.live → s.hCountDown = some id) :
    s.stopCountDown.Idle := by
  intro id hlive
  unfold Room.stopCountDown at hlive
  split at hlive
  · next hnone =>
    rw [handle id hlive] at hnone
    cases hnone
  · next other hsome =>
    obtain ⟨hlive, hne⟩ := Scheduler.mem_live_unschedule.mp hlive
    rw [handle id hlive, Option.some_inj] at hsome
    exact hne hsome

theorem forward_stopCountDown (forward : Forward s) : Forward s.stopCountDown := by
  have idle := idle_stopCountDown forward.handle
  unfold Room.stopCountDown at idle ⊢
  split
  · exact forward
  · next other hsome =>
    rw [hsome] at idle
    exact ⟨forward.sorted, forward.last, forward.bound, forward.once, forward.unstarted,
      fun id hlive => absurd hlive (idle id)⟩

theorem sorted_concat {statuses : List RoomStatus} {status : RoomStatus}
    (hsorted : statuses.Pairwise fun earlier later => earlier.toNat ≤ later.toNat)
    (hbound : ∀ earlier ∈ statuses, earlier.toNat ≤ status.toNat) :
    (statuses ++ [status]).Pairwise fun earlier later => earlier.toNat ≤ later.toNat := by
  rw [List.pairwise_append]
  refine ⟨hsorted, List.pairwise_singleton _ _, ?_⟩
  intro earlier hearlier later hlater
  rw [List.mem_singleton.mp hlater]
  exact hbound earlier hearlier

theorem bound_concat {statuses : List RoomStatus} {status : RoomStatus}
    (hbound : ∀ earlier ∈ statuses, earlier.toNat ≤ status.toNat) :
    ∀ earlier ∈ statuses ++ [status], earlier.toNat ≤ status.toNat := by
  intro earlier hearlier
  rcases List.mem_append.mp hearlier with hold | hnew
  · exact hbound earlier hold
  · rw [List.mem_singleton.mp hnew]

/-- A new status that is not behind. -/
theorem forward_setRoomStatus (forward : Forward s) {status : RoomStatus}
    (hrank : s.rank ≤ status.toNat) : Forward (s.setRoomStatus status) := by
  unfold Room.setRoomStatus
  split
  · exact forward
  · have hbound : ∀ earlier ∈ s.statuses, earlier.toNat ≤ status.toNat :=
      fun earlier hearlier => (forward.bound earlier hearlier).trans hrank
    refine ⟨sorted_concat forward.sorted hbound, ?_, bound_concat hbound, forward.once, ?_,
      forward.handle⟩
    · show (s.statuses ++ [status]).getLast? = some status
      exact List.getLast?_concat
    · exact fun hstatus => forward.unstarted (Nat.lt_of_le_of_lt hrank hstatus)

theorem setRoomStatus_rank (hsome : s.roomInfo ≠ none) (status : RoomStatus) :
    (s.setRoomStatus status).rank = status.toNat := by
  unfold Room.setRoomStatus
  split
  · next hnone => exact absurd hnone hsome
  · rfl

theorem setRoomStatus_scheduler (s : Room) (status : RoomStatus) :
    (s.setRoomStatus status).scheduler = s.scheduler := by
  unfold Room.setRoomStatus
  split <;> rfl

theorem stopCountDown_rank (s : Room) : s.stopCountDown.rank = s.rank := by
  unfold Room.stopCountDown
  split <;> rfl

theorem forward_startCountDown (forward : Forward s) (hcounts : s.CountsInited) :
    Forward s.startCountDown ∧ s.startCountDown.CountsInited := by
  unfold Room.startCountDown
  split
  · next info hnone hinfo =>
    split
    · exact ⟨forward, hcounts⟩
    · next hearly =>
      have hstatus : s.rank = info.status.toNat := by
        unfold Room.rank
        rw [hinfo]
        rfl
      -- nothing else counts down, as there is no handle
      have hnew : ∀ id, (id, Callback.countDown) ∈ (s.scheduler.schedule 100 .countDown).1.live →
          id = (s.scheduler.schedule 100 .countDown).2 := by
        intro id hlive
        rcases Scheduler.mem_live_schedule.mp hlive with hold | ⟨hid, -⟩
        · have hhandle := forward.handle id hold
          rw [hnone] at hhandle
          cases hhandle
        · exact hid
      constructor
      · refine ⟨forward.sorted, ?_, ?_, forward.once, ?_, ?_⟩
        · rw [forward.last, hinfo]
          rfl
        · show ∀ status ∈ s.statuses, status.toNat ≤ info.status.toNat
          rw [← hstatus]
          exact forward.bound
        · show info.status.toNat < _ → _
          rw [← hstatus]
          exact forward.unstarted
        · exact fun id hlive => congrArg some (hnew id hlive).symm
      · intro id _
        show info.status.toNat = RoomStatus.inited.toNat
        cases hcase : info.status with
        | inited => rfl
        | counted =>
            rw [hcase] at hearly
            exact absurd (by decide) hearly
        | started =>
            rw [hcase] at hearly
            exact absurd (by decide) hearly
        | exited =>
            rw [hcase] at hearly
            exact absurd (by decide) hearly
  · exact ⟨forward, hcounts⟩

/-! ## The start of the combat -/

theorem forward_checkLoadingReady (forward : Forward s) (hcounts : s.CountsInited) :
    Forward s.checkLoadingReady ∧ s.checkLoadingReady.CountsInited := by
  unfold Room.checkLoadingReady
  split
  · exact ⟨forward, hcounts⟩
  · next info hinfo =>
    split
    · exact ⟨forward, hcounts⟩
    · next hcounted =>
      rw [ne_eq, not_not] at hcounted
      split
      · have hrank : s.rank = RoomStatus.counted.toNat := by
          unfold Room.rank
          rw [hinfo, ← hcounted]
          rfl
        -- nothing has started yet
        obtain ⟨hgame, hframe⟩ := forward.unstarted (by rw [hrank]; decide)
        have hsome : ((s.broadcastMsg .gameStart).inputFrmLineStart).roomInfo = some info := hinfo
        have hlive : ∀ id, (id, Callback.countDown) ∉
            ((s.broadcastMsg .gameStart).inputFrmLineStart).scheduler.live := by
          intro id hlive
          have hrank' := hcounts id (live_schedule_subset .onFrame nofun hlive)
          rw [hrank] at hrank'
          cases hrank'
        have hbound : ∀ earlier ∈ s.statuses, earlier.toNat ≤ RoomStatus.started.toNat := by
          intro earlier hearlier
          have hle := forward.bound earlier hearlier
          rw [hrank] at hle
          exact hle.trans (by decide)
        unfold Room.setRoomStatus
        rw [hsome]
        dsimp only
        constructor
        · refine ⟨sorted_concat forward.sorted hbound, ?_, bound_concat hbound, ?_, ?_, ?_⟩
          · show (s.statuses ++ [RoomStatus.started]).getLast? = some .started
            exact List.getLast?_concat
          · constructor
            · show (s.broadcasts ++ [Broadcast.gameStart]).count .gameStart ≤ 1
              rw [List.count_append, hgame]
              decide
            · show s.frameLineStarts + 1 ≤ 1
              rw [hframe]
          · exact fun hearly => absurd hearly (Nat.lt_irrefl _)
          · exact fun id hlive' => absurd hlive' (hlive id)
        · exact fun id hlive' => absurd hlive' (hlive id)
      · exact ⟨forward, hcounts⟩

theorem forward_onRcvPlayerReady (forward : Forward s) (hcounts : s.CountsInited) (pid : Pid) :
    Forward (s.onRcvPlayerReady pid) ∧ (s.onRcvPlayerReady pid).CountsInited := by
  unfold Room.onRcvPlayerReady
  split
  · exact ⟨forward, hcounts⟩
  · next info hinfo =>
    have same : SameProgress s { s with roomInfo := some { info with
        members := info.members.map (setLoadingReady pid) } } := by
      refine ⟨rfl, ?_, rfl, rfl, rfl, fun _ h => h⟩
      rw [hinfo]
      rfl
    exact forward_checkLoadingReady (same.forward forward) (same.countsInited hcounts)

/-! ## The end of the room -/

theorem rank_le_exited (s : Room) : s.rank ≤ RoomStatus.exited.toNat := by
  unfold Room.rank
  cases s.roomInfo with
  | none => decide
  | some info =>
      show info.status.toNat ≤ RoomStatus.exited.toNat
      cases info.status <;> decide

theorem forward_exit (forward : Forward s) : Forward s.exit ∧ s.exit.Idle := by
  have hleft := (same_stopCheckAllLeft _).forward
    (forward_setRoomStatus forward (rank_le_exited s))
  have idle := idle_stopCountDown hleft.handle
  have same : SameProgress ((s.setRoomStatus .exited).stopCheckAllLeft).stopCountDown s.exit :=
    (same_broadcasterExit _).trans (same_inputFrmLineExit _)
  constructor
  · exact same.forward (forward_stopCountDown hleft)
  · exact fun id hlive => idle id (same.live id hlive)

theorem forward_destroy (forward : Forward s) : Forward s.destroy ∧ s.destroy.CountsInited := by
  obtain ⟨hexit, idle⟩ := forward_exit forward
  have same : SameProgress s.exit s.destroy := by
    unfold Room.destroy
    split
    · exact ⟨rfl, rfl, rfl, rfl, rfl, fun _ h => h⟩
    · exact ⟨rfl, rfl, rfl, rfl, rfl, fun _ h => h⟩
  exact ⟨same.forward hexit, same.countsInited idle.countsInited⟩

/-! ## Connections -/

theorem forward_setRoomInfo (forward : Forward s) (hcounts : s.CountsInited) (token : String)
    (roomInfo : RoomInfo) :
    Forward (s.setRoomInfo token roomInfo) ∧ (s.setRoomInfo token roomInfo).CountsInited := by
  unfold Room.setRoomInfo
  split
  · next hnone =>
    have hrank : s.rank = 0 := by
      unfold Room.rank
      rw [hnone]
      rfl
    have hstatuses : s.statuses = [] := by
      rw [← List.getLast?_eq_none_iff, forward.last, hnone]
      rfl
    have idle : s.Idle := by
      intro id hlive
      have hinited := hcounts id hlive
      rw [hrank] at hinited
      cases hinited
    have hzero := forward.unstarted (by rw [hrank]; decide)
    constructor
    · refine ⟨?_, ?_, ?_, forward.once, fun _ => hzero, forward.handle⟩
      · show (s.statuses ++ [RoomStatus.inited]).Pairwise _
        rw [hstatuses]
        exact List.pairwise_singleton _ _
      · show (s.statuses ++ [RoomStatus.inited]).getLast? = some .inited
        exact List.getLast?_concat
      · show ∀ status ∈ s.statuses ++ [RoomStatus.inited], status.toNat ≤ RoomStatus.inited.toNat
        rw [hstatuses]
        decide
    · exact fun id hlive => absurd hlive (idle id)
  · exact ⟨forward, hcounts⟩

theorem forward_playerEnter (forward : Forward s) (hcounts : s.CountsInited) (pid : Pid)
    (token : String) (roomInfo : RoomInfo) (sid : Sid) :
    Forward (s.playerEnter pid token roomInfo sid).1 ∧
      (s.playerEnter pid token roomInfo sid).1.CountsInited := by
  obtain ⟨forward', hcounts'⟩ := forward_setRoomInfo forward hcounts token roomInfo
  unfold Room.playerEnter
  dsimp only
  split
  · exact ⟨forward', hcounts'⟩
  · have same := (same_statModelReEnter (s.setRoomInfo token roomInfo) pid).trans
      (same_addPlayer _ pid token sid)
    obtain ⟨hstart, hstartCounts⟩ :=
      forward_startCountDown (same.forward forward') (same.countsInited hcounts')
    have hstop := (same_stopCheckAllLeft _).forward hstart
    have hstopCounts := (same_stopCheckAllLeft _).countsInited hstartCounts
    exact ⟨(same_notifyOnlinePeers _).forward hstop,
      (same_notifyOnlinePeers _).countsInited hstopCounts⟩

theorem forward_playerDisconnect (forward : Forward s) (hcounts : s.CountsInited) (sid : Sid) :
    Forward (s.playerDisconnect sid).1 ∧ (s.playerDisconnect sid).1.CountsInited := by
  unfold Room.playerDisconnect
  split
  · exact ⟨forward, hcounts⟩
  · next pid hpid =>
    split
    · exact ⟨forward, hcounts⟩
    · next player hplayer =>
      have same : SameProgress s (s.setOffline sid pid player) :=
        ⟨rfl, rfl, rfl, rfl, rfl, fun _ h => h⟩
      dsimp only
      split
      · exact ⟨same.forward forward, same.countsInited hcounts⟩
      · have same' := (same.trans (same_notifyOnlinePeers _)).trans (same_checkAllLeft _)
        dsimp only
        split
        · exact ⟨same'.forward forward, same'.countsInited hcounts⟩
        · exact forward_checkLoadingReady (same'.forward forward) (same'.countsInited hcounts)

/-! ## Timers -/

theorem same_setMembers (s : Room) (members : List (List (Option RoomSeat))) :
    SameProgress s (s.setMembers members) := by
  refine ⟨rfl, ?_, rfl, rfl, rfl, fun _ h => h⟩
  show (s.roomInfo.map _).map RoomInfo.status = _
  rw [Option.map_map]
  rfl

theorem same_enterCombat (s : Room) : SameProgress s (s.broadcastMsg .enterCombat) :=
  same_broadcastMsg s nofun

theorem SameProgress.keeps (same : SameProgress s s') (forward : Forward s)
    (hcounts : s.CountsInited) : Forward s' ∧ s'.CountsInited :=
  ⟨same.forward forward, same.countsInited hcounts⟩

theorem forward_countedDown (forward : Forward s) (hrank : s.rank ≤ RoomStatus.counted.toNat)
    (info : RoomInfo) :
    Forward (s.countedDown info).1 ∧ (s.countedDown info).1.CountsInited ∧
      (s.countedDown info).1.rank ≤ RoomStatus.counted.toNat := by
  have hstopRank : s.stopCountDown.rank ≤ RoomStatus.counted.toNat := by
    rw [stopCountDown_rank]
    exact hrank
  have hcounted := forward_setRoomStatus (forward_stopCountDown forward) hstopRank
  have idle : (s.stopCountDown.setRoomStatus .counted).Idle := by
    intro id hlive
    rw [setRoomStatus_scheduler] at hlive
    exact idle_stopCountDown forward.handle id hlive
  have hcountedRank : (s.stopCountDown.setRoomStatus .counted).rank ≤
      RoomStatus.counted.toNat := by
    by_cases hsome : s.stopCountDown.roomInfo = none
    · unfold Room.setRoomStatus
      rw [hsome]
      exact hstopRank
    · rw [setRoomStatus_rank hsome]
  have sameMembers := same_setMembers (s.stopCountDown.setRoomStatus .counted)
    (assignDefaultProperty info).1
  unfold Room.countedDown
  dsimp only
  split
  · have same := (sameMembers.trans (same_statModelInit _
      (toMembers (assignDefaultProperty info).1))).trans (same_enterCombat _)
    exact ⟨same.forward hcounted, same.countsInited idle.countsInited,
      same.rank.trans_le hcountedRank⟩
  · exact ⟨sameMembers.forward hcounted, sameMembers.countsInited idle.countsInited,
      sameMembers.rank.trans_le hcountedRank⟩

/-- The count-down may be called once it is stopped, but not later than that. -/
theorem forward_onCountDown (forward : Forward s) (hcounts : s.CountsInited)
    (hrank : s.rank ≤ RoomStatus.counted.toNat) :
    Forward s.onCountDown.1 ∧ s.onCountDown.1.CountsInited ∧
      s.onCountDown.1.rank ≤ RoomStatus.counted.toNat := by
  unfold Room.onCountDown
  split
  · exact ⟨forward, hcounts, hrank⟩
  · next info hinfo =>
    dsimp only
    have hcount : SameProgress s
        { s with roomInfo := some { info with countDown := info.countDown - 1 } } := by
      refine ⟨rfl, ?_, rfl, rfl, rfl, fun _ h => h⟩
      rw [hinfo]
      rfl
    have same := hcount.trans (@same_broadcastMsg _ (.countDown (info.countDown - 1)) nofun)
    split
    · exact forward_countedDown (same.forward forward) (same.rank.trans_le hrank) _
    · exact ⟨same.forward forward, same.countsInited hcounts, same.rank.trans_le hrank⟩

theorem forward_onAllLeft (forward : Forward s) (hcounts : s.CountsInited) :
    Forward s.onAllLeft.1 ∧ s.onAllLeft.1.CountsInited := by
  have same := same_stopCheckAllLeft s
  unfold Room.onAllLeft
  dsimp only
  split
  · exact forward_destroy (same.forward forward)
  · exact ⟨same.forward forward, same.countsInited hcounts⟩

theorem same_doCheck (s : Room) : SameProgress s s.doCheck.1 := by
  unfold Room.doCheck
  split
  · exact SameProgress.refl s
  · dsimp only
    split
    · split
      · exact ⟨rfl, rfl, rfl, rfl, rfl, fun _ h => h⟩
      · exact SameProgress.refl s
    · split
      · exact ⟨rfl, rfl, rfl, rfl, rfl, fun _ h => h⟩
      · exact SameProgress.refl s

/-- A function that lets the pass go on keeps the status before `started`. -/
theorem forward_call (forward : Forward s) (hcounts : s.CountsInited) {func : Callback}
    (hrank : func = .countDown → s.rank ≤ RoomStatus.counted.toNat) :
    Forward (s.call func).1 ∧ (s.call func).1.CountsInited ∧ ((s.call func).2 = true →
      s.rank ≤ RoomStatus.counted.toNat → (s.call func).1.rank ≤ RoomStatus.counted.toNat) := by
  cases func with
  | doCheck =>
      have same := same_doCheck s
      exact ⟨same.forward forward, same.countsInited hcounts, fun _ h => same.rank.trans_le h⟩
  | countDown =>
      obtain ⟨hforward, hcounts', hrank'⟩ := forward_onCountDown forward hcounts (hrank rfl)
      exact ⟨hforward, hcounts', fun _ _ => hrank'⟩
  | allLeft =>
      obtain ⟨hforward, hcounts'⟩ := forward_onAllLeft forward hcounts
      refine ⟨hforward, hcounts', ?_⟩
      intro hgoes h
      have same := same_stopCheckAllLeft s
      revert hgoes
      show (s.onAllLeft).2 = true → (s.onAllLeft).1.rank ≤ _
      unfold Room.onAllLeft
      dsimp only
      split
      · exact fun hgoes => absurd hgoes Bool.false_ne_true
      · exact fun _ => same.rank.trans_le h
  | onFrame => exact ⟨forward, hcounts, fun _ h => h⟩
  | checkFrameData =>
      have same : SameProgress s { s with statModel := s.statModel.checkFrameData } :=
        ⟨rfl, rfl, rfl, rfl, rfl, fun _ h => h⟩
      exact ⟨same.forward forward, same.countsInited hcounts, fun _ h => same.rank.trans_le h⟩

theorem forward_calls (funcs : List Callback) (forward : Forward s) (hcounts : s.CountsInited)
    (hrank : .countDown ∈ funcs → s.rank ≤ RoomStatus.counted.toNat) :
    Forward (Room.calls funcs s) ∧ (Room.calls funcs s).CountsInited := by
  induction funcs generalizing s with
  | nil => exact ⟨forward, hcounts⟩
  | cons func funcs ih =>
      have hfirst : func = .countDown → s.rank ≤ RoomStatus.counted.toNat := by
        rintro rfl
        exact hrank List.mem_cons_self
      obtain ⟨hforward, hcounts', hgoes⟩ := forward_call forward hcounts hfirst
      unfold Room.calls
      split
      · next s' hcall =>
        rw [hcall] at hforward hcounts' hgoes
        exact ih hforward hcounts'
          fun hmem => hgoes rfl (hrank (List.mem_cons_of_mem _ hmem))
      · next s' hcall =>
        rw [hcall] at hforward hcounts'
        have same : SameProgress s' { s' with schedulerRunning := false } :=
          ⟨rfl, rfl, rfl, rfl, rfl, fun _ h => h⟩
        exact ⟨same.forward hforward, same.countsInited hcounts'⟩

/-- A count-down that is called in a pass was live at its start. -/
theorem forward_runClocks (forward : Forward s) (hcounts : s.CountsInited) :
    Forward s.runClocks ∧ s.runClocks.CountsInited := by
  have same : SameProgress s { s with scheduler := (s.scheduler.runClocks s.now).1 } := by
    refine ⟨rfl, rfl, rfl, rfl, rfl, fun id h => ?_⟩
    rw [← Scheduler.live_runClocks s.scheduler s.now]
    exact h
  apply forward_calls _ (same.forward forward) (same.countsInited hcounts)
  intro hmem
  obtain ⟨id, hlive⟩ := Scheduler.exists_live_of_mem_runClocks hmem
  rw [same.rank, hcounts id hlive]
  decide

/-! ## Runs -/

/-- What holds of a room, also when it has ended. -/
structure Progress (s : Room) : Prop where
  sorted : s.statuses.Pairwise fun earlier later => earlier.toNat ≤ later.toNat
  once : s.broadcasts.count .gameStart ≤ 1 ∧ s.frameLineStarts ≤ 1
  going : s.closed = false → Forward s ∧ s.CountsInited

theorem Forward.progress (h : Forward s ∧ s.CountsInited) : Progress s :=
  ⟨h.1.sorted, h.1.once, fun _ => h⟩

theorem forward_dispatch (h : Forward s ∧ s.CountsInited) {handler : Room → Room × Bool}
    (hhandler : ∀ s, Forward s → s.CountsInited →
      Forward (handler s).1 ∧ (handler s).1.CountsInited) :
    Forward (s.dispatch handler) ∧ (s.dispatch handler).CountsInited := by
  have same : SameProgress s { s with activetick := s.now } :=
    ⟨rfl, rfl, rfl, rfl, rfl, fun _ h => h⟩
  have hhandled := hhandler _ (same.forward h.1) (same.countsInited h.2)
  unfold Room.dispatch
  split
  · next s' hs' =>
    rw [hs'] at hhandled
    exact hhandled
  · next s' hs' =>
    rw [hs'] at hhandled
    exact forward_destroy hhandled.1

theorem progress_handle (h : Forward s ∧ s.CountsInited) {event : RoomEvent}
    (hstep : s.handle event = some s') : Progress s' := by
  cases event with
  | tick elapsed =>
      cases hstep
      have same : SameProgress s
          { s with statModel := { s.statModel with now := s.now + elapsed } } :=
        ⟨rfl, rfl, rfl, rfl, rfl, fun _ h => h⟩
      exact Forward.progress (same.keeps h.1 h.2)
  | playerEnter pid token roomInfo sid =>
      cases hstep
      exact Forward.progress (forward_dispatch h fun s forward hcounts =>
        forward_playerEnter forward hcounts pid token roomInfo sid)
  | playerDisconnect sid =>
      cases hstep
      exact Forward.progress (forward_dispatch h fun s forward hcounts =>
        forward_playerDisconnect forward hcounts sid)
  | playerReady sender =>
      cases hstep
      exact Forward.progress (forward_dispatch h fun s forward hcounts =>
        forward_onRcvPlayerReady forward hcounts sender)
  | heroSelected pid tid =>
      cases hstep
      exact Forward.progress (forward_dispatch h fun s forward hcounts =>
        (same_onRcvHeroSelected s pid tid).keeps forward hcounts)
  | heroLoaded playerData =>
      obtain ⟨-, hstep⟩ := Option.ite_none_right_eq_some.mp hstep
      cases hstep
      exact Forward.progress ((same_heroLoaded s playerData).keeps h.1 h.2)
  | combatDetail sender frame detail =>
      cases hstep
      exact Forward.progress (forward_dispatch h fun s forward hcounts =>
        (same_modifyPlayerdata s sender frame detail).keeps forward hcounts)
  | uploadStat sender total playerdataOrder cntlstOrder =>
      cases hstep
      exact Forward.progress (forward_dispatch h fun s forward hcounts =>
        (same_onRcvUploadStat s sender total playerdataOrder cntlstOrder).keeps forward hcounts)
  | unknown =>
      cases hstep
      exact Forward.progress (forward_dispatch h fun s forward hcounts => ⟨forward, hcounts⟩)
  | runClocks =>
      obtain ⟨-, hstep⟩ := Option.ite_none_right_eq_some.mp hstep
      cases hstep
      exact Forward.progress (forward_runClocks h.1 h.2)
  | exitResumed =>
      obtain ⟨-, hstep⟩ := Option.ite_none_right_eq_some.mp hstep
      cases hstep
      exact ⟨h.1.sorted, h.1.once, fun hopen => absurd hopen.symm Bool.false_ne_true⟩

theorem progress_step (progress : Progress s) {event : RoomEvent}
    (hstep : s.step event = some s') : Progress s' := by
  unfold Room.step at hstep
  obtain ⟨hopen, hstep⟩ := Option.ite_none_left_eq_some.mp hstep
  exact progress_handle (progress.going (Bool.eq_false_iff.mpr hopen)) hstep

theorem progress_new (staResolve : Option CombatStat) (now : Nat) :
    Progress (Room.new staResolve now) := by
  have idle : (Room.new staResolve now).Idle := by
    intro id hlive
    rcases Scheduler.mem_live_schedule.mp hlive with hold | ⟨-, hfunc⟩
    · exact absurd hold List.not_mem_nil
    · cases hfunc
  have forward : Forward (Room.new staResolve now) := by
    refine ⟨List.Pairwise.nil, rfl, ?_, ⟨?_, ?_⟩, fun _ => ⟨rfl, rfl⟩, ?_⟩
    · exact fun status hstatus => absurd hstatus List.not_mem_nil
    · exact Nat.zero_le 1
    · exact Nat.zero_le 1
    · exact fun id hlive => absurd hlive (idle id)
  exact Forward.progress ⟨forward, idle.countsInited⟩

/-- In every run of a room its status only goes forward, and the broadcast of the
start and the start of the frame line happen at most once.  The status of a room
that is not closed is the last one that was set. -/
theorem forward_of_run {staResolve : Option CombatStat} {now : Nat} {events : List RoomEvent}
    (hrun : Run Room.step free (Room.new staResolve now) events s) :
    (s.statuses.Pairwise fun earlier later => earlier.toNat ≤ later.toNat) ∧
      (s.closed = false → s.statuses.getLast? = s.roomInfo.map RoomInfo.status) ∧
        s.broadcasts.count .gameStart ≤ 1 ∧ s.frameLineStarts ≤ 1 := by
  have progress : Progress s := hrun.invariant (progress_new staResolve now)
    fun _ _ _ progress _ hstep => progress_step progress hstep
  exact ⟨progress.sorted, fun hopen => (progress.going hopen).1.last, progress.once⟩

end

/-! ## Two players -/

def emptySeat (pid : Pid) : RoomSeat := ⟨pid, .string "name", none, false, false⟩

def duel : RoomInfo where
  status := .inited
  countDown := 0
  members := [[some (emptySeat (.number 1))], [some (emptySeat (.number 2)), none]]
  playerData := ∅

/-- Both players select a hero and are ready; then the room is destroyed. -/
def duelEvents : List RoomEvent :=
  [.playerEnter (.number 1) "token" duel 10, .playerEnter (.number 2) "token" duel 11,
    .heroSelected (.number 1) (some (.string "car001")),
    .heroSelected (.number 2) (some (.string "car002")), .runClocks, .tick 101, .runClocks,
    .playerReady (.number 1), .playerReady (.number 2), .unknown]

def duelEnd : Room :=
  (exec Room.step free (Room.new none 0) duelEvents).getD (Room.new none 0)

example : duelEnd.statuses = [.inited, .counted, .started, .exited] := by decide +kernel

theorem forward_duel :
    (duelEnd.statuses.Pairwise fun earlier later => earlier.toNat ≤ later.toNat) ∧
      (duelEnd.closed = false →
        duelEnd.statuses.getLast? = duelEnd.roomInfo.map RoomInfo.status) ∧
        duelEnd.broadcasts.count .gameStart ≤ 1 ∧ duelEnd.frameLineStarts ≤ 1 := by
  have hrun : Run Room.step free (Room.new none 0) duelEvents duelEnd :=
    run_exec_getD _ (by decide +kernel)
  exact forward_of_run hrun

end Combat
end ArmyRs
