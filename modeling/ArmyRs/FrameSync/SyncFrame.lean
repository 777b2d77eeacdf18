import ArmyRs.FrameSync.Deliveries

/-!
# A `sync_frame` session

A client asks for the frames after `startFrame` and from then on only receives.
`Room.Session` says where such a session stands: the frames up to `upTo` have
been sent, each once and in order, and either its `startBatchSend` sleeps, to
go on from `upTo`, or every frame produced so far has been sent and the next
tick sends the next one.  Ticks, inputs, other clients and the wakings of the
loop keep this, at whatever point of the loop they fall.

What can go wrong is the start.  The stop frame of the player is only written
by ticks, and a missing one counts as 0: a player that enters a running room
and asks before the next tick is sent no batch, and no later frame comes right
after its `startFrame`.  `sync_frame_iff` has the exact condition.
-/

namespace ArmyRs
namespace FrameSync

open Foundation

variable {Pid Action : Type*}

/-! ## The frames sent to a player -/

/-- The frames of a message with their numbers. -/
def Msg.frames : Msg Action → List (Nat × List Action)
  | .frame curFrame actions => [(curFrame, actions)]
  | .batch startFrame _ _ frames => (List.range' (startFrame + 1) frames.length).zip frames

/-- The numbered frames that the messages to a player carry. -/
def framesTo [DecidableEq Pid] (pid : Pid) (messages : List (Pid × Msg Action)) :
    List (Nat × List Action) :=
  messages.flatMap fun entry => if entry.1 = pid then entry.2.frames else []

/-- The frames after `startFrame`, up to `upTo`, each with its inputs. -/
def framesBetween (inputs : Nat → List Action) (startFrame upTo : Nat) :
    List (Nat × List Action) :=
  (List.range' (startFrame + 1) (upTo - startFrame)).map fun frm => (frm, inputs frm)

theorem framesBetween_append (inputs : Nat → List Action) {startFrame middle upTo : Nat}
    (hlow : startFrame ≤ middle) (hhigh : middle ≤ upTo) :
    framesBetween inputs startFrame middle ++ framesBetween inputs middle upTo =
      framesBetween inputs startFrame upTo := by
  unfold framesBetween
  rw [← List.map_append]
  congr 1
  have hsplit := List.range'_append_1 (s := startFrame + 1) (m := middle - startFrame)
    (n := upTo - middle)
  rw [show startFrame + 1 + (middle - startFrame) = middle + 1 by omega,
    show middle - startFrame + (upTo - middle) = upTo - startFrame by omega] at hsplit
  exact hsplit

/-- The frames before the current one have their final inputs. -/
theorem framesBetween_congr {inputs others : Nat → List Action} {startFrame upTo cur : Nat}
    (hupTo : upTo < cur ∨ upTo ≤ startFrame) (hsame : ∀ i, i < cur → others i = inputs i) :
    framesBetween others startFrame upTo = framesBetween inputs startFrame upTo := by
  unfold framesBetween
  refine List.map_congr_left fun frm hfrm => ?_
  have hrange := List.mem_range'_1.mp hfrm
  rw [hsame frm (by omega)]

/-- An exact batch carries the frames after its start frame. -/
theorem frames_batch {inputs : Nat → List Action} {startFrame stopFrame : Nat} {finished : Bool}
    {frames : List (List Action)}
    (h : (Msg.batch startFrame stopFrame finished frames).Exact inputs) :
    (Msg.batch startFrame stopFrame finished frames).frames =
      framesBetween inputs startFrame stopFrame := by
  have hframes : frames =
      (List.range' (startFrame + 1) (stopFrame - startFrame)).map inputs := h
  have hzip := List.zip_map' (f := id) (g := inputs)
    (l := List.range' (startFrame + 1) (stopFrame - startFrame))
  rw [List.map_id] at hzip
  unfold Msg.frames framesBetween
  simp only
  rw [hframes, List.length_map, List.length_range', hzip]
  rfl

theorem framesTo_append [DecidableEq Pid] (pid : Pid) (messages others : List (Pid × Msg Action)) :
    framesTo pid (messages ++ others) = framesTo pid messages ++ framesTo pid others :=
  List.flatMap_append

/-- One live frame reaches a player once, when it reaches the player at all. -/
theorem framesTo_live [DecidableEq Pid] {players : List Pid} (hnodup : players.Nodup)
    (live : Pid → Bool) (pid : Pid) (frm : Nat) (actions : List Action) :
    framesTo pid ((players.filter live).map fun other => (other, Msg.frame frm actions)) =
      if pid ∈ players ∧ live pid = true then [(frm, actions)] else [] := by
  induction players with
  | nil => simp [framesTo]
  | cons first players ih =>
      obtain ⟨hfirst, hrest⟩ := List.nodup_cons.mp hnodup
      have ih := ih hrest
      unfold framesTo at ih ⊢
      by_cases hlive : live first = true
      · rw [List.filter_cons_of_pos hlive, List.map_cons, List.flatMap_cons, ih]
        by_cases hpid : first = pid
        · subst hpid
          simp [hfirst, hlive, Msg.frames]
        · simp [hpid, Ne.symm hpid]
      · rw [List.filter_cons_of_neg hlive, ih]
        by_cases hpid : first = pid
        · subst hpid
          simp [hfirst, hlive]
        · simp [Ne.symm hpid]

section

variable [DecidableEq Pid]

/-! ## Sessions -/

/-- During a session the player neither comes nor goes nor asks again. -/
def duringSession (pid : Pid) (_ : Room Pid Action) : Event Pid Action → Prop
  | .playerEnter other => other ≠ pid
  | .playerDisconnect other => other ≠ pid
  | .syncFrame other _ => other ≠ pid
  | .pushInput _ => True
  | .tick => True
  | .wake _ => True

instance (pid : Pid) (room : Room Pid Action) (event : Event Pid Action) :
    Decidable (duringSession pid room event) := by
  cases event <;> unfold duringSession <;> infer_instance

/-- The sleeping loops of a player. -/
def Room.loops (room : Room Pid Action) (pid : Pid) : List (Loop Pid) :=
  room.sleeping.filter fun loop => loop.pid = pid

/-- How often the loop of a player is woken by an event. -/
def Event.wakes (pid : Pid) : Event Pid Action → Nat
  | .wake loop => if loop.pid = pid then 1 else 0
  | _ => 0

def wakes (pid : Pid) (events : List (Event Pid Action)) : Nat :=
  (events.map (Event.wakes pid)).sum

/-- The loop sleeps, and goes on from `upTo`. -/
structure Room.CatchingUp (room : Room Pid Action) (pid : Pid) (upTo : Nat) : Prop where
  loops : room.loops pid = [⟨pid, upTo⟩]
  sending : room.batchSending pid = true
  stop : room.sendStopFrames pid = some (room.curFrm - 1)
  behind : upTo < room.curFrm

/-- The loop is over, and every frame that there is has been sent. -/
structure Room.Live (room : Room Pid Action) (pid : Pid) (startFrame upTo : Nat) : Prop where
  loops : room.loops pid = []
  sending : room.batchSending pid = false
  current : upTo = max startFrame (room.curFrm - 1)

/-- What holds of a player throughout its session, `outbox` being the messages
sent before. -/
structure Room.Served (room : Room Pid Action) (inputs : Nat → List Action) (pid : Pid)
    (startFrame : Nat) (outbox : List (Pid × Msg Action)) (upTo : Nat) : Prop where
  member : pid ∈ room.players
  online : room.status pid = .online
  started : startFrame ≤ upTo
  sendStart : room.sendStartFrames pid = some upTo
  known : upTo < room.curFrm ∨ upTo = startFrame
  frames : ∃ messages, room.outbox = outbox ++ messages ∧
    framesTo pid messages = framesBetween inputs startFrame upTo

/-- A session between two events. -/
structure Room.Session (room : Room Pid Action) (inputs : Nat → List Action) (pid : Pid)
    (startFrame : Nat) (outbox : List (Pid × Msg Action)) (upTo : Nat) : Prop where
  served : room.Served inputs pid startFrame outbox upTo
  phase : room.CatchingUp pid upTo ∨ room.Live pid startFrame upTo

variable {inputs others : Nat → List Action} {room middle next : Room Pid Action} {pid : Pid}
  {startFrame upTo : Nat} {outbox : List (Pid × Msg Action)}

/-! ## The loop -/

/-- At the head of its loop the session either sends the next batch and sleeps
again, or it has caught up and goes live. -/
theorem Room.Served.loopBatch {stopFrame : Nat} (sound : room.Sound inputs)
    (served : room.Served inputs pid startFrame outbox upTo)
    (hloops : room.loops pid = []) (hsending : room.batchSending pid = true)
    (hstop : (room.sendStopFrames pid = some stopFrame ∧ stopFrame + 1 = room.curFrm) ∨
      (stopFrame ≤ upTo ∧ room.curFrm ≤ upTo + 1)) :
    ∃ reached, upTo ≤ reached ∧ min (upTo + 10) (room.curFrm - 1) ≤ reached ∧
      (room.loopBatch pid upTo stopFrame).Session inputs pid startFrame outbox reached := by
  by_cases hmore : upTo < stopFrame
  · obtain ⟨hsend, hcur⟩ : room.sendStopFrames pid = some stopFrame ∧
        stopFrame + 1 = room.curFrm := by
      rcases hstop with h | h
      · exact h
      · omega
    have hsound : (room.loopBatch pid upTo stopFrame).Sound inputs :=
      sound.loopBatch pid (by omega)
    have hloop : room.loopBatch pid upTo stopFrame = room.sendBatch pid upTo stopFrame :=
      if_pos ⟨hmore, served.online⟩
    rw [hloop] at hsound ⊢
    obtain ⟨messages, houtbox, hframes⟩ := served.frames
    have hstop : (if stopFrame ≤ upTo + 10 then stopFrame else upTo + 10) =
        min (upTo + 10) stopFrame := by
      split <;> omega
    refine ⟨min (upTo + 10) stopFrame, by omega, by omega, ?_, Or.inl ?_⟩
    · refine
        { member := served.member
          online := served.online
          started := by have := served.started; omega
          sendStart := ?_
          known := Or.inl (by
            show min (upTo + 10) stopFrame < room.curFrm
            omega)
          frames := ?_ }
      · simp [Room.sendBatch, hstop]
      · have hexact := (hsound.outbox (pid, _)
          (List.mem_append_right room.outbox (List.mem_singleton_self _))).2
        refine ⟨_, (congrArg (· ++ _) houtbox).trans (List.append_assoc _ _ _), ?_⟩
        rw [framesTo_append, hframes]
        simp only [framesTo, List.flatMap_cons, List.flatMap_nil, List.append_nil, if_true]
        rw [frames_batch hexact]
        simp only [hstop]
        exact framesBetween_append inputs served.started (by omega)
    · refine
        { loops := ?_
          sending := hsending
          stop := ?_
          behind := ?_ }
      · unfold Room.loops at hloops ⊢
        simp only [Room.sendBatch, Room.sendClientMsg, List.filter_append, hloops, hstop]
        simp
      · show room.sendStopFrames pid = some (room.curFrm - 1)
        rw [← hcur]
        exact hsend
      · show min (upTo + 10) stopFrame < room.curFrm
        omega
  · have hloop : room.loopBatch pid upTo stopFrame =
        { room with batchSending := Function.update room.batchSending pid false } :=
      if_neg fun h => hmore h.1
    rw [hloop]
    have hcur : room.curFrm ≤ upTo + 1 := by
      rcases hstop with h | h
      · omega
      · exact h.2
    have hstarted := served.started
    have hknown := served.known
    refine ⟨upTo, le_rfl, by omega, ⟨served.member, served.online, served.started,
      served.sendStart, served.known, served.frames⟩, Or.inr ⟨hloops, ?_, ?_⟩⟩
    · exact Function.update_self _ _ _
    · show upTo = max startFrame (room.curFrm - 1)
      omega

/-! ## Events that are not about the player -/

/-- What a player sees of the room does not change. -/
structure Untouched (pid : Pid) (room next : Room Pid Action) : Prop where
  member : pid ∈ room.players → pid ∈ next.players
  status : next.status pid = room.status pid
  sendStart : next.sendStartFrames pid = room.sendStartFrames pid
  sendStop : next.sendStopFrames pid = room.sendStopFrames pid
  sending : next.batchSending pid = room.batchSending pid
  loops : next.loops pid = room.loops pid
  curFrm : next.curFrm = room.curFrm
  outbox : ∃ messages, next.outbox = room.outbox ++ messages ∧ framesTo pid messages = []

theorem Untouched.refl (pid : Pid) (room : Room Pid Action) : Untouched pid room room where
  member := id
  status := rfl
  sendStart := rfl
  sendStop := rfl
  sending := rfl
  loops := rfl
  curFrm := rfl
  outbox := ⟨[], (List.append_nil _).symm, rfl⟩

theorem Untouched.trans (first : Untouched pid room middle) (second : Untouched pid middle next) :
    Untouched pid room next where
  member := fun h => second.member (first.member h)
  status := second.status.trans first.status
  sendStart := second.sendStart.trans first.sendStart
  sendStop := second.sendStop.trans first.sendStop
  sending := second.sending.trans first.sending
  loops := second.loops.trans first.loops
  curFrm := second.curFrm.trans first.curFrm
  outbox := by
    obtain ⟨messages, hmessages, hnone⟩ := first.outbox
    obtain ⟨more, hmore, hnone'⟩ := second.outbox
    refine ⟨messages ++ more, ?_, ?_⟩
    · rw [hmore, hmessages, List.append_assoc]
    · rw [framesTo_append, hnone, hnone', List.append_nil]

/-- A pass of the loop of another player. -/
theorem untouched_loopBatch {other : Pid} (hother : other ≠ pid) (room : Room Pid Action)
    (startFrame stopFrame : Nat) :
    Untouched pid room (room.loopBatch other startFrame stopFrame) := by
  have hne : pid ≠ other := Ne.symm hother
  unfold Room.loopBatch
  split
  · exact
      { member := id
        status := rfl
        sendStart := Function.update_of_ne hne _ _
        sendStop := rfl
        sending := rfl
        loops := by simp [Room.loops, Room.sendBatch, Room.sendClientMsg, hother]
        curFrm := rfl
        outbox := ⟨_, rfl, by simp [framesTo, hother]⟩ }
  · exact { Untouched.refl pid room with sending := Function.update_of_ne hne _ _ }

/-- The events of a session that are neither ticks nor wakings of its own loop
do not touch the player. -/
theorem untouched_step {event : Event Pid Action} (hevent : duringSession pid room event)
    (htick : event ≠ .tick) (hwake : ∀ loop, event = .wake loop → loop.pid ≠ pid)
    (hstep : step room event = some next) : Untouched pid room next := by
  cases event with
  | playerEnter other =>
      cases hstep
      have hne : pid ≠ other := Ne.symm hevent
      unfold Room.playerEnter
      split
      · split
        · exact { Untouched.refl pid room with
            status := Function.update_of_ne hne _ _
            sendStart := Function.update_of_ne hne _ _ }
        · exact { Untouched.refl pid room with status := Function.update_of_ne hne _ _ }
      · exact { Untouched.refl pid room with
          member := fun h => List.mem_append_left _ h
          status := Function.update_of_ne hne _ _ }
  | playerDisconnect other =>
      simp only [step] at hstep
      split at hstep
      · cases hstep
        have hne : pid ≠ other := Ne.symm hevent
        exact { Untouched.refl pid room with
          status := Function.update_of_ne hne _ _
          sendStart := Function.update_of_ne hne _ _ }
      · cases hstep
        exact Untouched.refl pid room
  | pushInput action =>
      cases hstep
      exact { Untouched.refl pid room with member := id }
  | tick => exact absurd rfl htick
  | syncFrame other startFrame =>
      simp only [step] at hstep
      split at hstep
      · cases hstep
        have hne : pid ≠ other := Ne.symm hevent
        refine Untouched.trans ?_ (untouched_loopBatch hevent _ _ _)
        exact { Untouched.refl pid room with
          sendStart := Function.update_of_ne hne _ _
          sending := Function.update_of_ne hne _ _ }
      · cases hstep
        exact Untouched.refl pid room
  | wake loop =>
      simp only [step] at hstep
      split at hstep
      · cases hstep
        have hother := hwake loop rfl
        have herased : Untouched pid room { room with sleeping := room.sleeping.erase loop } := by
          refine { Untouched.refl pid room with loops := ?_ }
          unfold Room.loops
          rw [← List.erase_filter]
          refine List.erase_of_not_mem fun hmem => hother ?_
          simpa using (List.mem_filter.mp hmem).2
        unfold Room.wake
        simp only
        split
        · exact herased.trans (untouched_loopBatch hother _ _ _)
        · exact herased
      · cases hstep

/-- A session goes on when the player is not touched. -/
theorem Room.Session.untouched (session : room.Session inputs pid startFrame outbox upTo)
    (huntouched : Untouched pid room next) (hsame : ∀ i, i < room.curFrm → others i = inputs i) :
    next.Session others pid startFrame outbox upTo := by
  obtain ⟨served, phase⟩ := session
  obtain ⟨messages, hmessages, hframes⟩ := served.frames
  obtain ⟨more, hmore, hnone⟩ := huntouched.outbox
  have hknown := served.known
  refine
    ⟨{ member := huntouched.member served.member
       online := huntouched.status.trans served.online
       started := served.started
       sendStart := huntouched.sendStart.trans served.sendStart
       known := by rw [huntouched.curFrm]; exact served.known
       frames := ⟨messages ++ more, ?_, ?_⟩ }, ?_⟩
  · rw [hmore, hmessages, List.append_assoc]
  · rw [framesTo_append, hframes, hnone, List.append_nil]
    exact (framesBetween_congr (hknown.imp_right Nat.le_of_eq) hsame).symm
  · rcases phase with catching | live
    · refine Or.inl ⟨huntouched.loops.trans catching.loops,
        huntouched.sending.trans catching.sending, ?_, ?_⟩
      · rw [huntouched.sendStop, huntouched.curFrm]
        exact catching.stop
      · rw [huntouched.curFrm]
        exact catching.behind
    · refine Or.inr ⟨huntouched.loops.trans live.loops,
        huntouched.sending.trans live.sending, ?_⟩
      rw [huntouched.curFrm]
      exact live.current

/-! ## Ticks and wakings -/

/-- A tick goes to the player when the session is live and has reached the
frame before; a sleeping loop only learns the new stop frame. -/
theorem Room.Session.tick (sound : room.Sound inputs)
    (session : room.Session inputs pid startFrame outbox upTo) :
    ∃ reached, upTo ≤ reached ∧ room.tick.Session inputs pid startFrame outbox reached := by
  obtain ⟨served, phase⟩ := session
  obtain ⟨messages, hmessages, hframes⟩ := served.frames
  have hpositive := sound.positive
  have hcontent : room.settled.1.heap room.settled.2 = inputs room.curFrm := by
    obtain ⟨hold, hactions⟩ := sound.lists.getActionLst
    exact (hold.settle hactions).2
  have hlive : room.goesLive room.curFrm pid = true ↔
      room.curFrm = upTo + 1 ∧ room.batchSending pid = false := by
    unfold Room.goesLive
    simp [served.online, served.sendStart]
  have houtbox : room.tick.outbox = outbox ++ (messages ++
      (room.players.filter (room.goesLive room.curFrm)).map fun other =>
        (other, Msg.frame room.curFrm (inputs room.curFrm))) := by
    rw [tick_eq room sound.players, hcontent, hmessages, List.append_assoc]
  have hsent := framesTo_live sound.players (room.goesLive room.curFrm) pid room.curFrm
    (inputs room.curFrm)
  have hstart : room.tick.sendStartFrames pid =
      if room.goesLive room.curFrm pid = true then some room.curFrm else some upTo := by
    rw [tick_eq room sound.players]
    simp [served.member, served.sendStart]
  have hstop : room.tick.sendStopFrames pid = some room.curFrm := by
    rw [tick_eq room sound.players]
    simp [served.member]
  have hcur : room.tick.curFrm = room.curFrm + 1 := by rw [tick_eq room sound.players]
  have hsame : room.tick.players = room.players ∧ room.tick.status = room.status ∧
      room.tick.batchSending = room.batchSending ∧ room.tick.loops pid = room.loops pid := by
    rw [tick_eq room sound.players]
    exact ⟨rfl, rfl, rfl, rfl⟩
  obtain ⟨hplayers, hstatus, hbatch, hloops⟩ := hsame
  have hstarted := served.started
  by_cases hgoes : room.goesLive room.curFrm pid = true
  · obtain ⟨hnext, hidle⟩ := hlive.mp hgoes
    have live : room.Live pid startFrame upTo := by
      rcases phase with catching | live
      · rw [catching.sending] at hidle
        cases hidle
      · exact live
    rw [if_pos hgoes] at hstart
    rw [if_pos ⟨served.member, hgoes⟩] at hsent
    refine ⟨room.curFrm, by omega, ⟨⟨?_, ?_, by omega, hstart, Or.inl (by omega), ?_⟩, Or.inr ?_⟩⟩
    · rw [hplayers]
      exact served.member
    · rw [hstatus]
      exact served.online
    · refine ⟨_, houtbox, ?_⟩
      rw [framesTo_append, hframes, hsent]
      have hone : framesBetween inputs upTo room.curFrm =
          [(room.curFrm, inputs room.curFrm)] := by
        rw [hnext]
        simp [framesBetween]
      rw [← hone]
      exact framesBetween_append inputs served.started (by omega)
    · refine ⟨hloops.trans live.loops, ?_, ?_⟩
      · rw [hbatch]
        exact live.sending
      · rw [hcur]
        omega
  · rw [if_neg hgoes] at hstart
    rw [if_neg fun h => hgoes h.2] at hsent
    refine ⟨upTo, le_rfl, ⟨⟨?_, ?_, served.started, hstart, ?_, ?_⟩, ?_⟩⟩
    · rw [hplayers]
      exact served.member
    · rw [hstatus]
      exact served.online
    · exact served.known.imp_left fun h => by omega
    · refine ⟨_, houtbox, ?_⟩
      rw [framesTo_append, hframes, hsent, List.append_nil]
    · rcases phase with catching | live
      · refine Or.inl ⟨hloops.trans catching.loops, ?_, ?_, ?_⟩
        · rw [hbatch]
          exact catching.sending
        · rw [hcur, hstop]
          rfl
        · rw [hcur]
          exact Nat.lt_succ_of_lt catching.behind
      · -- the session is ahead of the room: the frame is not one of its frames
        have hahead : room.curFrm ≠ upTo + 1 := fun h => hgoes (hlive.mpr ⟨h, live.sending⟩)
        have hcurrent := live.current
        refine Or.inr ⟨hloops.trans live.loops, ?_, ?_⟩
        · rw [hbatch]
          exact live.sending
        · rw [hcur]
          omega

/-- The loop of the session wakes up. -/
theorem Room.Session.wake (sound : room.Sound inputs)
    (session : room.Session inputs pid startFrame outbox upTo) {loop : Loop Pid}
    (hloop : loop ∈ room.sleeping) (hpid : loop.pid = pid) :
    ∃ reached, upTo ≤ reached ∧ min (upTo + 10) (room.curFrm - 1) ≤ reached ∧
      (room.wake loop).Session inputs pid startFrame outbox reached := by
  obtain ⟨served, phase⟩ := session
  have hmem : loop ∈ room.loops pid := List.mem_filter.mpr ⟨hloop, by simpa using hpid⟩
  rcases phase with catching | live
  · rw [catching.loops, List.mem_singleton] at hmem
    have hpositive := sound.positive
    have hwake : room.wake loop =
        { room with sleeping := room.sleeping.erase loop }.loopBatch pid upTo
          (room.curFrm - 1) := by
      unfold Room.wake
      simp only [hmem, catching.stop]
    rw [hwake]
    have sound' : Room.Sound inputs { room with sleeping := room.sleeping.erase loop } :=
      ⟨sound.lists, sound.positive, sound.players, sound.stops, sound.outbox⟩
    have served' : Room.Served { room with sleeping := room.sleeping.erase loop } inputs pid
        startFrame outbox upTo :=
      ⟨served.member, served.online, served.started, served.sendStart, served.known,
        served.frames⟩
    refine served'.loopBatch sound' ?_ catching.sending
      (Or.inl ⟨catching.stop, Nat.sub_add_cancel sound.positive⟩)
    have hloops := catching.loops
    unfold Room.loops at hloops ⊢
    rw [← List.erase_filter, hloops, hmem]
    simp
  · rw [live.loops] at hmem
    cases hmem

/-- Every event of a session keeps it.  A waking of its loop brings it ten
frames further, or to the last frame. -/
theorem session_step {event : Event Pid Action} (sound : room.Sound inputs)
    (session : room.Session inputs pid startFrame outbox upTo)
    (hevent : duringSession pid room event) (hstep : step room event = some next)
    (hsame : ∀ i, i < room.curFrm + event.frames → others i = inputs i) :
    ∃ reached, upTo ≤ reached ∧
      min (upTo + 10 * event.wakes pid) (room.curFrm - 1) ≤ reached ∧
      next.Session others pid startFrame outbox reached := by
  have hframes : ∀ {r : Room Pid Action} {reached : Nat},
      r.Session inputs pid startFrame outbox reached → r.curFrm = room.curFrm + event.frames →
        r.Session others pid startFrame outbox reached :=
    fun session hcur => session.untouched (Untouched.refl pid _) (hcur ▸ hsame)
  by_cases htick : event = .tick
  · subst htick
    cases hstep
    obtain ⟨reached, hle, session⟩ := session.tick sound
    refine ⟨reached, hle, ?_, hframes session (step_curFrm sound.players rfl)⟩
    have hnone : (Event.tick : Event Pid Action).wakes pid = 0 := rfl
    omega
  · by_cases hwake : ∃ loop, event = .wake loop ∧ loop.pid = pid
    · obtain ⟨loop, rfl, hpid⟩ := hwake
      have hcur := step_curFrm sound.players hstep
      simp only [step] at hstep
      split at hstep
      · next hloop =>
        cases hstep
        obtain ⟨reached, hle, hmin, session⟩ := session.wake sound hloop hpid
        refine ⟨reached, hle, ?_, hframes session hcur⟩
        have hone : (Event.wake loop : Event Pid Action).wakes pid = 1 := if_pos hpid
        omega
      · cases hstep
    · push Not at hwake
      have huntouched := untouched_step hevent htick hwake hstep
      refine ⟨upTo, le_rfl, ?_, session.untouched huntouched fun i hi => hsame i (by omega)⟩
      have hnone : event.wakes pid = 0 := by
        cases event with
        | wake loop => exact if_neg (hwake loop rfl)
        | _ => rfl
      omega

/-! ## Whole sessions -/

theorem wakes_snoc (pid : Pid) (events : List (Event Pid Action)) (event : Event Pid Action) :
    wakes pid (events ++ [event]) = wakes pid events + event.wakes pid := by
  simp [wakes]

/-- A session keeps going, and never goes back.  The loop reaches the last
frame there was at the beginning once it has been woken often enough. -/
theorem session_run {events during : List (Event Pid Action)} {opened final : Room Pid Action}
    (hopened : Run step free initial events opened)
    (session : opened.Session (inputsOf events) pid startFrame outbox upTo)
    (hrun : Run step (duringSession pid) opened during final) :
    ∃ reached, upTo ≤ reached ∧
      min (upTo + 10 * wakes pid during) (opened.curFrm - 1) ≤ reached ∧
      opened.curFrm ≤ final.curFrm ∧
      final.Session (inputsOf (events ++ during)) pid startFrame outbox reached := by
  induction hrun with
  | refl =>
      refine ⟨upTo, le_rfl, ?_, le_rfl, by rw [List.append_nil]; exact session⟩
      exact min_le_left _ _
  | @snoc during final event next hrun hevent hstep ih =>
      obtain ⟨reached, hle, hmin, hcur, session⟩ := ih
      obtain ⟨sound, hticks⟩ := sound_run (hopened.append (hrun.mono fun _ _ _ => trivial))
      obtain ⟨after, hle', hmin', session'⟩ : ∃ after, reached ≤ after ∧
          min (reached + 10 * event.wakes pid) (final.curFrm - 1) ≤ after ∧
          next.Session (inputsOf (events ++ (during ++ [event]))) pid startFrame outbox after :=
        session_step sound session hevent hstep (by
          intro i hi
          rw [← List.append_assoc, inputsOf_snoc]
          split
          · next hi' =>
            have hquiet : event.inputs = [] := by
              cases event with
              | pushInput action =>
                  have hzero : (Event.pushInput action : Event Pid Action).frames = 0 := rfl
                  omega
              | _ => rfl
            rw [hquiet, List.append_nil]
          · rw [List.append_nil])
      refine ⟨after, hle.trans hle', ?_, ?_, session'⟩
      · rw [wakes_snoc]
        omega
      · rw [step_curFrm sound.players hstep]
        omega

/-- The messages of a session are those after the messages before it. -/
theorem Room.Session.frames_drop (session : room.Session inputs pid startFrame outbox upTo) :
    framesTo pid (room.outbox.drop outbox.length) = framesBetween inputs startFrame upTo := by
  obtain ⟨messages, hmessages, hframes⟩ := session.served.frames
  rw [hmessages, List.drop_left]
  exact hframes

/-- A session that begins in `room`, after `events`.  In all its states the
frames sent to the player are the frames after `startFrame` with their inputs,
each once and in order; unless its loop sleeps, they are all the frames there
are; and a sleeping loop reaches the last frame there is once it has been woken
once for every ten frames. -/
def Follows (events : List (Event Pid Action)) (room : Room Pid Action) (pid : Pid)
    (startFrame : Nat) : Prop :=
  ∀ during final, Run step (duringSession pid) (room.startBatchSend pid startFrame) during final →
    ∃ upTo,
      framesTo pid (final.outbox.drop room.outbox.length) =
        framesBetween (inputsOf (events ++ .syncFrame pid startFrame :: during)) startFrame upTo ∧
      (final.loops pid = [] → upTo = max startFrame (final.curFrm - 1)) ∧
      ∀ more later, Run step (duringSession pid) final more later →
        final.curFrm ≤ upTo + 10 * wakes pid more + 1 →
          ∃ reached, final.curFrm ≤ reached + 1 ∧
            framesTo pid (later.outbox.drop room.outbox.length) =
              framesBetween (inputsOf (events ++ .syncFrame pid startFrame :: (during ++ more)))
                startFrame reached

/-- The stop frame of the player, 0 when it is missing, is the last frame, or
the client asks for no frame that there is already. -/
def Room.InStep (room : Room Pid Action) (pid : Pid) (startFrame : Nat) : Prop :=
  (room.sendStopFrames pid).getD 0 + 1 = room.curFrm ∨ room.curFrm ≤ startFrame + 1

/-- A session that begins in step. -/
theorem session_opened (sound : room.Sound inputs) (hmember : pid ∈ room.players)
    (honline : room.status pid = .online) (hloops : room.loops pid = [])
    (hstep : room.InStep pid startFrame) :
    ∃ upTo, (room.startBatchSend pid startFrame).Session inputs pid startFrame room.outbox
      upTo := by
  have sound' : Room.Sound inputs { room with
      batchSending := Function.update room.batchSending pid true
      sendStartFrames := Function.update room.sendStartFrames pid (some startFrame) } :=
    ⟨sound.lists, sound.positive, sound.players, sound.stops, sound.outbox⟩
  have served : Room.Served { room with
      batchSending := Function.update room.batchSending pid true
      sendStartFrames := Function.update room.sendStartFrames pid (some startFrame) } inputs pid
      startFrame room.outbox startFrame :=
    { member := hmember
      online := honline
      started := le_rfl
      sendStart := Function.update_self _ _ _
      known := Or.inr rfl
      frames := ⟨[], (List.append_nil _).symm, by simp [framesTo, framesBetween]⟩ }
  have hstops : (room.sendStopFrames pid = some ((room.sendStopFrames pid).getD 0) ∧
        (room.sendStopFrames pid).getD 0 + 1 = room.curFrm) ∨
      ((room.sendStopFrames pid).getD 0 ≤ startFrame ∧ room.curFrm ≤ startFrame + 1) := by
    cases hstop : room.sendStopFrames pid with
    | none =>
        have hpositive := sound.positive
        rcases hstep with hstep | hstep
        · rw [hstop] at hstep
          exact Or.inr ⟨Nat.zero_le _, by simp only [Option.getD_none] at hstep; omega⟩
        · exact Or.inr ⟨Nat.zero_le _, hstep⟩
    | some stopFrame => exact Or.inl ⟨rfl, (sound.stops pid stopFrame hstop).2⟩
  obtain ⟨reached, -, -, session⟩ :=
    served.loopBatch sound' hloops (Function.update_self _ _ _) hstops
  exact ⟨reached, session⟩

/-- A session follows the room exactly when it begins in step. -/
theorem follows_iff {events : List (Event Pid Action)} (hrun : Run step free initial events room)
    (hmember : pid ∈ room.players) (honline : room.status pid = .online)
    (hloops : room.loops pid = []) :
    Follows events room pid startFrame ↔ room.InStep pid startFrame := by
  obtain ⟨sound, -⟩ := sound_run hrun
  constructor
  · intro hfollows
    by_contra hout
    unfold Room.InStep at hout
    push Not at hout
    obtain ⟨hstop, hcur⟩ := hout
    have hnone : room.sendStopFrames pid = none := by
      cases hstop' : room.sendStopFrames pid with
      | none => rfl
      | some stopFrame =>
          rw [hstop'] at hstop
          exact absurd (sound.stops pid stopFrame hstop').2 hstop
    -- with no stop frame the loop ends before it begins
    have hidle : (room.startBatchSend pid startFrame).outbox = room.outbox ∧
        (room.startBatchSend pid startFrame).loops pid = [] ∧
        (room.startBatchSend pid startFrame).curFrm = room.curFrm := by
      unfold Room.startBatchSend Room.loopBatch
      simp only [hnone, Option.getD_none, Nat.not_lt_zero, false_and, if_false]
      exact ⟨trivial, hloops, trivial⟩
    obtain ⟨upTo, hsent, hall, -⟩ := hfollows [] _ .refl
    have hupTo := hall hidle.2.1
    rw [hidle.1, List.drop_length] at hsent
    have hlength := congrArg List.length hsent
    simp only [framesTo, framesBetween, List.flatMap_nil, List.length_nil, List.length_map,
      List.length_range'] at hlength
    rw [hidle.2.2] at hupTo
    omega
  · intro hstep during final hduring
    obtain ⟨first, session⟩ := session_opened sound hmember honline hloops hstep
    have hsync : step room (.syncFrame pid startFrame) =
        some (room.startBatchSend pid startFrame) := if_pos hmember
    have hopened : Run step free initial (events ++ [.syncFrame pid startFrame])
        (room.startBatchSend pid startFrame) := .snoc hrun trivial hsync
    have hquiet : inputsOf (events ++ [.syncFrame pid startFrame]) = inputsOf events := by
      funext frm
      rw [inputsOf_snoc]
      split <;> exact List.append_nil _
    rw [← hquiet] at session
    obtain ⟨upTo, -, -, -, session'⟩ := session_run hopened session hduring
    rw [List.append_assoc, List.singleton_append] at session'
    refine ⟨upTo, session'.frames_drop, ?_, ?_⟩
    · intro hidle
      rcases session'.phase with catching | live
      · rw [catching.loops] at hidle
        cases hidle
      · exact live.current
    · intro more later hmore henough
      have hfinal := hopened.append (hduring.mono fun _ _ _ => trivial)
      rw [List.append_assoc, List.singleton_append] at hfinal
      obtain ⟨reached, -, hmin, -, session''⟩ := session_run hfinal session' hmore
      refine ⟨reached, by omega, ?_⟩
      rw [session''.frames_drop, List.append_assoc, List.cons_append]

/-- Every message carries the inputs of its frames, and a session of an online
player follows the room exactly when it begins in step. -/
theorem sync_frame_iff :
    (∀ (events : List (Event Pid Action)) (room : Room Pid Action),
      Run step free initial events room →
        ∀ entry ∈ room.outbox, entry.2.Exact (inputsOf events)) ∧
    ∀ (events : List (Event Pid Action)) (room : Room Pid Action) (pid : Pid) (startFrame : Nat),
      Run step free initial events room → pid ∈ room.players → room.status pid = .online →
        room.loops pid = [] →
          (Follows events room pid startFrame ↔ room.InStep pid startFrame) := by
  constructor
  · intro events room hrun entry hentry
    exact ((sound_run hrun).1.outbox entry hentry).2
  · intro events room pid startFrame hrun hmember honline hloops
    exact follows_iff hrun hmember honline hloops

end

/-! ## A late client -/

/-- Player 1 is in the room for two frames, then player 2 enters. -/
def lateEvents : List (Event Nat Nat) :=
  [.playerEnter 1, .pushInput 7, .tick, .tick, .playerEnter 2]

def lateRoom : Room Nat Nat := (exec step free initial lateEvents).getD initial

/-- The same room one tick later. -/
def settledRoom : Room Nat Nat := (exec step free initial (lateEvents ++ [.tick])).getD initial

/-- After the tick player 2 asks for all frames and gets them. -/
theorem sync_frame_after_tick : Follows (lateEvents ++ [.tick]) settledRoom 2 0 := by
  have hrun : Run step free initial (lateEvents ++ [.tick]) settledRoom :=
    run_exec_getD initial (by decide)
  have hstep : settledRoom.InStep 2 0 := by
    left
    decide
  exact (sync_frame_iff.2 (lateEvents ++ [.tick]) settledRoom 2 0 hrun (by decide) (by decide)
    (by decide)).mpr hstep

/-- Player 2 asks before the next tick: no frame is sent, then or later. -/
theorem sync_frame_before_tick :
    Run step free initial lateEvents lateRoom ∧ ¬ Follows lateEvents lateRoom 2 0 ∧
      (exec step (duringSession 2) (lateRoom.startBatchSend 2 0) [.tick, .tick, .tick]).map
        (fun final => (final.curFrm, framesTo 2 final.outbox)) = some (6, []) := by
  refine ⟨run_exec_getD initial (by decide), fun hfollows => ?_, by decide⟩
  obtain ⟨upTo, hsent, hall, -⟩ := hfollows [] _ .refl
  have hupTo : upTo = 2 := hall (by decide)
  subst hupTo
  exact absurd hsent (by decide)

end FrameSync
end ArmyRs
