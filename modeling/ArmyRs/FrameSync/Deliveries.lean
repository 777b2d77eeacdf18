import ArmyRs.FrameSync.ActionLists

/-!
# What the messages carry

Every message of a room carries, for each of its frames, exactly the inputs of
that frame: `Room.Sound` is the invariant, `sound_run` its induction over the
events of a room.  It also keeps what a session needs to know about the stop
frames: the stop frame of a player is missing until the first tick after the
player has entered, and from then on it is the last frame.
-/

namespace ArmyRs
namespace FrameSync

open Foundation

variable {Pid Action : Type*}

/-- The lists of a message are the inputs of its frames. -/
def Msg.Exact (inputs : Nat → List Action) : Msg Action → Prop
  | .frame curFrame actions => actions = inputs curFrame
  | .batch startFrame stopFrame _ frames =>
      frames = (List.range' (startFrame + 1) (stopFrame - startFrame)).map inputs

/-- The last frame of a message. -/
def Msg.lastFrame : Msg Action → Nat
  | .frame curFrame _ => curFrame
  | .batch _ stopFrame _ _ => stopFrame

theorem Msg.Exact.congr {inputs others : Nat → List Action} {msg : Msg Action} {cur : Nat}
    (h : msg.Exact inputs) (hlast : msg.lastFrame < cur)
    (hsame : ∀ i, i < cur → others i = inputs i) : msg.Exact others := by
  cases msg with
  | frame curFrame actions => exact Eq.trans h (hsame _ hlast).symm
  | batch startFrame stopFrame finished frames =>
      refine Eq.trans h (List.map_congr_left fun i hi => (hsame i ?_).symm)
      have hrange := List.mem_range'_1.mp hi
      have hstop : stopFrame < cur := hlast
      omega

/-- Tables that are read off produced frames hold the inputs of these frames. -/
theorem Lists.Hold.read {inputs : Nat → List Action} {cur : Nat} {lists : Lists Action}
    (hold : lists.Hold inputs cur) (frames : List Nat)
    (hframes : ∀ i ∈ frames, 0 < i ∧ i < cur) :
    (frames.filterMap lists.actions).map lists.heap = frames.map inputs := by
  induction frames with
  | nil => rfl
  | cons frm frames ih =>
      rw [List.forall_mem_cons] at hframes
      cases hactions : lists.actions frm with
      | none => exact absurd hactions (hold.produced frm hframes.1.1 hframes.1.2)
      | some lst =>
          rw [List.filterMap_cons_some hactions, List.map_cons, List.map_cons,
            (hold.used frm lst hactions).2.2, ih hframes.2]

section

variable [DecidableEq Pid]

/-! ## One tick -/

/-- What `broadcast` does for all players at once. -/
theorem foldl_broadcastTo (frm : Nat) (lst : Ref) (players : List Pid) (room : Room Pid Action)
    (hnodup : players.Nodup) :
    players.foldl (Room.broadcastTo frm lst) room =
      { room with
        sendStopFrames := fun pid => if pid ∈ players then some frm else room.sendStopFrames pid
        sendStartFrames := fun pid =>
          if pid ∈ players ∧ room.goesLive frm pid = true then some frm
          else room.sendStartFrames pid
        outbox := room.outbox ++ (players.filter (room.goesLive frm)).map fun pid =>
          (pid, .frame frm (room.lists.heap lst)) } := by
  induction players generalizing room with
  | nil => simp
  | cons first players ih =>
      obtain ⟨hfirst, hrest⟩ := List.nodup_cons.mp hnodup
      rw [List.foldl_cons, ih _ hrest]
      -- the players after the first see the room as it was before the first
      have hlive : ∀ pid ∈ players,
          (room.broadcastTo frm lst first).goesLive frm pid = room.goesLive frm pid := by
        intro pid hpid
        have hne : pid ≠ first := fun h => hfirst (h ▸ hpid)
        unfold Room.broadcastTo
        simp only
        split
        · simp only [Room.goesLive, Room.sendClientMsg, Function.update_of_ne hne]
          rfl
        · rfl
      rw [List.filter_congr hlive, List.filter_cons]
      have hstart : ∀ pid, (pid ∈ players ∧
          (room.broadcastTo frm lst first).goesLive frm pid = true) ↔
            pid ∈ players ∧ room.goesLive frm pid = true := by
        intro pid
        constructor
        · rintro ⟨hpid, h⟩
          exact ⟨hpid, (hlive pid hpid).symm.trans h⟩
        · rintro ⟨hpid, h⟩
          exact ⟨hpid, (hlive pid hpid).trans h⟩
      simp only [hstart]
      have hstop : (fun pid => if pid ∈ players then some frm
          else Function.update room.sendStopFrames first (some frm) pid) =
          fun pid => if pid ∈ first :: players then some frm else room.sendStopFrames pid := by
        funext pid
        by_cases hpid : pid = first
        · subst hpid
          simp
        · simp [hpid]
      by_cases hgoes : room.goesLive frm first = true
      · have hbroadcast : room.broadcastTo frm lst first =
            { room with
              sendStopFrames := Function.update room.sendStopFrames first (some frm)
              sendStartFrames := Function.update room.sendStartFrames first (some frm)
              outbox := room.outbox ++ [(first, .frame frm (room.lists.heap lst))] } :=
          if_pos hgoes
        rw [hbroadcast, if_pos hgoes]
        simp only [hstop, List.map_cons, List.append_assoc, List.singleton_append]
        congr 1
        funext pid
        by_cases hpid : pid = first
        · subst hpid
          simp [hgoes]
        · simp [hpid]
      · have hbroadcast : room.broadcastTo frm lst first =
            { room with
              sendStopFrames := Function.update room.sendStopFrames first (some frm) } :=
          if_neg hgoes
        rw [hbroadcast, if_neg hgoes]
        simp only [hstop]
        congr 1
        funext pid
        by_cases hpid : pid = first
        · subst hpid
          simp [hgoes]
        · simp [hpid]

/-- The tables after the tick of the current frame, and the table it sends. -/
def Room.settled (room : Room Pid Action) : Lists Action × Ref :=
  (room.lists.getActionLst room.curFrm).1.settle room.curFrm
    (room.lists.getActionLst room.curFrm).2

/-- The room after a tick. -/
theorem tick_eq (room : Room Pid Action) (hnodup : room.players.Nodup) :
    room.tick =
      { room with
        lists := room.settled.1
        curFrm := room.curFrm + 1
        sendStopFrames := fun pid =>
          if pid ∈ room.players then some room.curFrm else room.sendStopFrames pid
        sendStartFrames := fun pid =>
          if pid ∈ room.players ∧ room.goesLive room.curFrm pid = true then some room.curFrm
          else room.sendStartFrames pid
        outbox := room.outbox ++ (room.players.filter (room.goesLive room.curFrm)).map fun pid =>
          (pid, .frame room.curFrm (room.settled.1.heap room.settled.2)) } := by
  unfold Room.tick Room.broadcast
  simp only
  rw [foldl_broadcastTo _ _ _ _ hnodup]
  rfl

/-! ## The invariant -/

/-- The tables hold the inputs, the stop frames are missing or up to date, and
every message sent carries the inputs of its frames. -/
structure Room.Sound (inputs : Nat → List Action) (room : Room Pid Action) : Prop where
  lists : room.lists.Hold inputs room.curFrm
  positive : 0 < room.curFrm
  players : room.players.Nodup
  stops : ∀ pid stopFrame, room.sendStopFrames pid = some stopFrame →
    pid ∈ room.players ∧ stopFrame + 1 = room.curFrm
  outbox : ∀ entry ∈ room.outbox, entry.2.lastFrame < room.curFrm ∧ entry.2.Exact inputs

variable {inputs : Nat → List Action} {room : Room Pid Action}

omit [DecidableEq Pid] in
theorem Room.Sound.pushInput (sound : room.Sound inputs) (action : Action) :
    (room.pushInput action).Sound
      (Function.update inputs room.curFrm (inputs room.curFrm ++ [action])) := by
  obtain ⟨hold, hactions⟩ := sound.lists.getActionLst
  refine
    { lists := hold.insert hactions action
      positive := sound.positive
      players := sound.players
      stops := sound.stops
      outbox := ?_ }
  intro entry hentry
  obtain ⟨hlast, hexact⟩ := sound.outbox entry hentry
  exact ⟨hlast, hexact.congr hlast fun i hi => Function.update_of_ne (Nat.ne_of_lt hi) _ _⟩

theorem Room.Sound.tick (sound : room.Sound inputs) : room.tick.Sound inputs := by
  obtain ⟨hold, hactions⟩ := sound.lists.getActionLst
  obtain ⟨hsettled, hcontent⟩ := hold.settle hactions
  rw [tick_eq room sound.players]
  refine
    { lists := hsettled
      positive := Nat.succ_pos _
      players := sound.players
      stops := ?_
      outbox := ?_ }
  · intro pid stopFrame hstop
    simp only at hstop
    split at hstop
    · next hmem =>
      cases hstop
      exact ⟨hmem, rfl⟩
    · next hmem => exact absurd (sound.stops pid stopFrame hstop).1 hmem
  · intro entry hentry
    rcases List.mem_append.mp hentry with hold | hnew
    · obtain ⟨hlast, hexact⟩ := sound.outbox entry hold
      exact ⟨Nat.lt_succ_of_lt hlast, hexact⟩
    · obtain ⟨pid, -, rfl⟩ := List.mem_map.mp hnew
      exact ⟨Nat.lt_succ_self _, hcontent⟩

/-- A pass of the batch loop, for a stop frame that has been produced. -/
theorem Room.Sound.loopBatch (sound : room.Sound inputs) (pid : Pid) {startFrame stopFrame : Nat}
    (hstop : stopFrame < room.curFrm) : (room.loopBatch pid startFrame stopFrame).Sound inputs := by
  unfold Room.loopBatch
  split
  · refine
      { lists := sound.lists
        positive := sound.positive
        players := sound.players
        stops := sound.stops
        outbox := ?_ }
    intro entry hentry
    rcases List.mem_append.mp hentry with hold | hnew
    · exact sound.outbox entry hold
    · rw [List.mem_singleton.mp hnew]
      have hle : (if stopFrame ≤ startFrame + 10 then stopFrame else startFrame + 10) ≤
          stopFrame := by
        split <;> omega
      refine ⟨Nat.lt_of_le_of_lt hle hstop, ?_⟩
      unfold Msg.Exact
      rw [sound.lists.read, forRange_one, Nat.add_sub_add_right]
      intro i hi
      have hrange := mem_forRange_one.mp hi
      omega
  · exact ⟨sound.lists, sound.positive, sound.players, sound.stops, sound.outbox⟩

theorem Room.Sound.startBatchSend (sound : room.Sound inputs) (pid : Pid) (startFrame : Nat) :
    (room.startBatchSend pid startFrame).Sound inputs := by
  unfold Room.startBatchSend
  simp only
  have sending : Room.Sound inputs { room with
      batchSending := Function.update room.batchSending pid true
      sendStartFrames := Function.update room.sendStartFrames pid (some startFrame) } :=
    ⟨sound.lists, sound.positive, sound.players, sound.stops, sound.outbox⟩
  refine sending.loopBatch pid ?_
  cases hstop : room.sendStopFrames pid with
  | none => exact sound.positive
  | some stopFrame => exact Nat.lt_of_succ_le (sound.stops pid stopFrame hstop).2.le

theorem Room.Sound.wake (sound : room.Sound inputs) (loop : Loop Pid) :
    (room.wake loop).Sound inputs := by
  have sleeping : Room.Sound inputs { room with sleeping := room.sleeping.erase loop } :=
    ⟨sound.lists, sound.positive, sound.players, sound.stops, sound.outbox⟩
  unfold Room.wake
  simp only
  split
  · next stopFrame hstop =>
    exact sleeping.loopBatch _ (Nat.lt_of_succ_le (sound.stops _ stopFrame hstop).2.le)
  · exact sleeping

theorem Room.Sound.playerEnter (sound : room.Sound inputs) (pid : Pid) :
    (room.playerEnter pid).Sound inputs := by
  unfold Room.playerEnter
  split
  · split <;> exact ⟨sound.lists, sound.positive, sound.players, sound.stops, sound.outbox⟩
  · next hmem =>
    refine
      { lists := sound.lists
        positive := sound.positive
        players := ?_
        stops := ?_
        outbox := sound.outbox }
    · exact List.Nodup.append sound.players (List.nodup_singleton pid)
        (List.disjoint_singleton.mpr hmem)
    · intro other stopFrame hstop
      obtain ⟨hother, hframe⟩ := sound.stops other stopFrame hstop
      exact ⟨List.mem_append_left _ hother, hframe⟩

theorem Room.Sound.playerDisconnect (sound : room.Sound inputs) (pid : Pid) :
    (room.playerDisconnect pid).Sound inputs :=
  ⟨sound.lists, sound.positive, sound.players, sound.stops, sound.outbox⟩

/-! ## All runs -/

omit [DecidableEq Pid] in
theorem sound_initial : Room.Sound (fun _ => []) (initial : Room Pid Action) where
  lists :=
    { empty := rfl
      fresh := Nat.one_pos
      pond := List.nodup_nil
      pooled := fun r hr => (by cases hr)
      used := fun i r hi => (by cases hi)
      unused := fun i _ => rfl
      apart := fun i j r hi => (by cases hi)
      current := fun h => (by cases h)
      produced := fun i hpos hi => absurd hi (Nat.not_lt.mpr hpos)
      ahead := fun i _ => rfl }
  positive := Nat.one_pos
  players := List.nodup_nil
  stops := fun pid stopFrame h => (by cases h)
  outbox := fun entry h => (by cases h)

/-- A tick opens the next frame; no other event does. -/
theorem step_curFrm (hnodup : room.players.Nodup) {event : Event Pid Action}
    {next : Room Pid Action} (hstep : step room event = some next) :
    next.curFrm = room.curFrm + event.frames := by
  have hloop : ∀ (r : Room Pid Action) (pid : Pid) (startFrame stopFrame : Nat),
      (r.loopBatch pid startFrame stopFrame).curFrm = r.curFrm := by
    intro r pid startFrame stopFrame
    unfold Room.loopBatch
    split <;> rfl
  cases event with
  | playerEnter pid =>
      cases hstep
      unfold Room.playerEnter
      split
      · split <;> rfl
      · rfl
  | playerDisconnect pid =>
      simp only [step] at hstep
      split at hstep <;> cases hstep <;> rfl
  | pushInput action =>
      cases hstep
      rfl
  | tick =>
      cases hstep
      rw [tick_eq room hnodup]
      rfl
  | syncFrame pid startFrame =>
      simp only [step] at hstep
      split at hstep
      · cases hstep
        exact hloop _ _ _ _
      · cases hstep
        rfl
  | wake loop =>
      simp only [step] at hstep
      split at hstep
      · cases hstep
        unfold Room.wake
        simp only
        split
        · exact hloop _ _ _ _
        · rfl
      · cases hstep

/-- Every event keeps the room sound, for the inputs that include its own. -/
theorem sound_step {events : List (Event Pid Action)} {event : Event Pid Action}
    {next : Room Pid Action} (sound : room.Sound (inputsOf events))
    (hcur : room.curFrm = 1 + ticks events) (hstep : step room event = some next) :
    next.Sound (inputsOf (events ++ [event])) := by
  have hinputs : inputsOf (events ++ [event]) =
      Function.update (inputsOf events) room.curFrm
        (inputsOf events room.curFrm ++ event.inputs) := by
    funext frm
    rw [inputsOf_snoc, ← hcur]
    by_cases hfrm : frm = room.curFrm
    · rw [hfrm, Function.update_self, if_pos rfl]
    · rw [Function.update_of_ne hfrm, if_neg (Ne.symm hfrm), List.append_nil]
  have hquiet : event.inputs = [] → inputsOf (events ++ [event]) = inputsOf events := by
    intro hnil
    rw [hinputs, hnil, List.append_nil, Function.update_eq_self]
  cases event with
  | playerEnter pid =>
      cases hstep
      rw [hquiet rfl]
      exact sound.playerEnter pid
  | playerDisconnect pid =>
      rw [hquiet rfl]
      simp only [step] at hstep
      split at hstep
      · cases hstep
        exact sound.playerDisconnect pid
      · cases hstep
        exact sound
  | pushInput action =>
      cases hstep
      rw [hinputs]
      exact sound.pushInput action
  | tick =>
      cases hstep
      rw [hquiet rfl]
      exact sound.tick
  | syncFrame pid startFrame =>
      rw [hquiet rfl]
      simp only [step] at hstep
      split at hstep
      · cases hstep
        exact sound.startBatchSend pid startFrame
      · cases hstep
        exact sound
  | wake loop =>
      rw [hquiet rfl]
      simp only [step] at hstep
      split at hstep
      · cases hstep
        exact sound.wake loop
      · cases hstep

/-- Every room that is reached is sound. -/
theorem sound_run {events : List (Event Pid Action)} (hrun : Run step free initial events room) :
    room.Sound (inputsOf events) ∧ room.curFrm = 1 + ticks events := by
  induction hrun with
  | refl => exact ⟨sound_initial, rfl⟩
  | snoc hrun hguard hstep ih =>
      obtain ⟨sound, hcur⟩ := ih
      refine ⟨sound_step sound hcur hstep, ?_⟩
      rw [step_curFrm sound.players hstep, ticks_snoc, hcur]
      omega

end

end FrameSync
end ArmyRs
