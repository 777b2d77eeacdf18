import ArmyRs.FrameSync.Deliveries

/-!
# The flag of a running catch-up

`batchSending` is there to hold live frames back while a `startBatchSend` of the
player is asleep.  `Room.Orderly` says that it does: the flag is set as long as
a loop sleeps, and a tick sends its frame live only to players whose loops have
sent all frames before it.

There is one flag for all loops of a player, and every loop that ends takes it
back.  Hence the flag is right exactly as long as no loop ends while another one
of the same player sleeps (`flagged_step_iff`), and a run without such an end is
orderly in every state (`orderly_of_run`).
-/

namespace ArmyRs
namespace FrameSync

open Foundation

variable {Pid Action : Type*} [DecidableEq Pid]

/-- The flag of a player is set as long as one of its loops sleeps. -/
def Room.Flagged (room : Room Pid Action) : Prop :=
  ∀ loop ∈ room.sleeping, room.batchSending loop.pid = true

/-- A live frame overtakes no frame of a sleeping loop: whenever a tick sends
`frm` to a player, the loops of the player have sent what comes before `frm`. -/
def Room.InTurn (room : Room Pid Action) : Prop :=
  ∀ pid frm actions, (pid, Msg.frame frm actions) ∈ room.tick.outbox.drop room.outbox.length →
    ∀ loop ∈ room.sleeping, loop.pid = pid → ∀ earlier < frm, earlier ≤ loop.startFrame

structure Room.Orderly (room : Room Pid Action) : Prop where
  flagged : room.Flagged
  inTurn : room.InTurn

/-- The loop of a player goes on after `startFrame`. -/
def Room.GoesOn (room : Room Pid Action) (pid : Pid) (startFrame stopFrame : Nat) : Prop :=
  startFrame < stopFrame ∧ room.status pid = .online

/-- No loop of the player is among the sleeping ones. -/
def NoLoop (sleeping : List (Loop Pid)) (pid : Pid) : Prop :=
  ∀ loop ∈ sleeping, loop.pid ≠ pid

instance (room : Room Pid Action) (pid : Pid) (startFrame stopFrame : Nat) :
    Decidable (room.GoesOn pid startFrame stopFrame) :=
  inferInstanceAs (Decidable (_ ∧ _))

instance (sleeping : List (Loop Pid)) (pid : Pid) : Decidable (NoLoop sleeping pid) :=
  inferInstanceAs (Decidable (∀ loop ∈ sleeping, loop.pid ≠ pid))

/-- A `startBatchSend` ends only when no other one of its player sleeps. -/
def EndsAlone (room : Room Pid Action) : Event Pid Action → Prop
  | .syncFrame pid startFrame =>
      pid ∈ room.players → room.GoesOn pid startFrame ((room.sendStopFrames pid).getD 0) ∨
        NoLoop room.sleeping pid
  | .wake loop =>
      ∀ stopFrame ∈ room.sendStopFrames loop.pid,
        room.GoesOn loop.pid loop.startFrame stopFrame ∨
          NoLoop (room.sleeping.erase loop) loop.pid
  | _ => True

instance (room : Room Pid Action) : (event : Event Pid Action) → Decidable (EndsAlone room event)
  | .syncFrame pid startFrame =>
      inferInstanceAs (Decidable (pid ∈ room.players →
        room.GoesOn pid startFrame ((room.sendStopFrames pid).getD 0) ∨
          NoLoop room.sleeping pid))
  | .wake loop =>
      inferInstanceAs (Decidable (∀ stopFrame ∈ room.sendStopFrames loop.pid,
        room.GoesOn loop.pid loop.startFrame stopFrame ∨
          NoLoop (room.sleeping.erase loop) loop.pid))
  | .playerEnter .. | .playerDisconnect .. | .pushInput .. | .tick =>
      inferInstanceAs (Decidable True)

variable {room next : Room Pid Action}

/-! ## The flag -/

omit [DecidableEq Pid] in
theorem Room.Flagged.congr (flagged : room.Flagged) (hsleeping : next.sleeping = room.sleeping)
    (hflag : next.batchSending = room.batchSending) : next.Flagged := by
  unfold Room.Flagged
  rw [hsleeping, hflag]
  exact flagged

/-- A pass of the loop keeps the flags right exactly when the loop goes on or was
the last one of its player. -/
theorem flagged_loopBatch_iff (room : Room Pid Action) {pid : Pid} {startFrame stopFrame : Nat}
    (flagged : ∀ loop ∈ room.sleeping, loop.pid ≠ pid → room.batchSending loop.pid = true)
    (hset : room.GoesOn pid startFrame stopFrame → room.batchSending pid = true) :
    (room.loopBatch pid startFrame stopFrame).Flagged ↔
      room.GoesOn pid startFrame stopFrame ∨ NoLoop room.sleeping pid := by
  unfold Room.loopBatch
  by_cases hgoes : room.GoesOn pid startFrame stopFrame
  · refine ⟨fun _ => .inl hgoes, fun _ => ?_⟩
    have hhead : startFrame < stopFrame ∧ room.status pid = .online := hgoes
    rw [if_pos hhead]
    intro loop hloop
    show room.batchSending loop.pid = true
    by_cases hpid : loop.pid = pid
    · rw [hpid]
      exact hset hgoes
    · rcases List.mem_append.mp hloop with hold | hnew
      · exact flagged loop hold hpid
      · exact absurd (congrArg Loop.pid (List.mem_singleton.mp hnew)) hpid
  · have hhead : ¬ (startFrame < stopFrame ∧ room.status pid = .online) := hgoes
    rw [if_neg hhead]
    constructor
    · intro h
      refine .inr fun loop hloop hpid => ?_
      have hflag : Function.update room.batchSending pid false loop.pid = true := h loop hloop
      rw [hpid, Function.update_self] at hflag
      cases hflag
    · rintro (hgo | hnone)
      · exact absurd hgo hgoes
      · intro loop hloop
        show Function.update room.batchSending pid false loop.pid = true
        rw [Function.update_of_ne (hnone loop hloop)]
        exact flagged loop hloop (hnone loop hloop)

theorem flagged_startBatchSend_iff (flagged : room.Flagged) (pid : Pid) (startFrame : Nat) :
    (room.startBatchSend pid startFrame).Flagged ↔
      room.GoesOn pid startFrame ((room.sendStopFrames pid).getD 0) ∨
        NoLoop room.sleeping pid := by
  apply flagged_loopBatch_iff { room with
    batchSending := Function.update room.batchSending pid true
    sendStartFrames := Function.update room.sendStartFrames pid (some startFrame) }
  · intro loop hloop hpid
    exact (Function.update_of_ne hpid _ _).trans (flagged loop hloop)
  · exact fun _ => Function.update_self _ _ _

theorem flagged_wake_iff {loop : Loop Pid} (flagged : room.Flagged)
    (hloop : loop ∈ room.sleeping) :
    (room.wake loop).Flagged ↔ ∀ stopFrame ∈ room.sendStopFrames loop.pid,
      room.GoesOn loop.pid loop.startFrame stopFrame ∨
        NoLoop (room.sleeping.erase loop) loop.pid := by
  have herased : Room.Flagged { room with sleeping := room.sleeping.erase loop } :=
    fun other hother => flagged other (List.mem_of_mem_erase hother)
  unfold Room.wake
  dsimp only
  cases hstop : room.sendStopFrames loop.pid with
  | none => exact ⟨fun _ stopFrame hsome => (nomatch hsome), fun _ => herased⟩
  | some stopFrame =>
      have hiff : (Room.loopBatch { room with sleeping := room.sleeping.erase loop } loop.pid
          loop.startFrame stopFrame).Flagged ↔ _ :=
        flagged_loopBatch_iff _ (fun other hother _ => herased other hother)
          (fun _ => flagged loop hloop)
      refine hiff.trans ⟨?_, ?_⟩
      · intro h other hother
        cases hother
        exact h
      · exact fun h => h stopFrame rfl

/-- A tick neither starts nor ends a loop. -/
theorem flags_tick (room : Room Pid Action) :
    room.tick.sleeping = room.sleeping ∧ room.tick.batchSending = room.batchSending := by
  have hfold : ∀ (frm : Nat) (lst : Ref) (players : List Pid) (room : Room Pid Action),
      (players.foldl (Room.broadcastTo frm lst) room).sleeping = room.sleeping ∧
        (players.foldl (Room.broadcastTo frm lst) room).batchSending = room.batchSending := by
    intro frm lst players
    induction players with
    | nil => exact fun room => ⟨rfl, rfl⟩
    | cons first players ih =>
        intro room
        have hfirst : (room.broadcastTo frm lst first).sleeping = room.sleeping ∧
            (room.broadcastTo frm lst first).batchSending = room.batchSending := by
          unfold Room.broadcastTo
          dsimp only
          split
          all_goals exact ⟨rfl, rfl⟩
        obtain ⟨hsleeping, hflag⟩ := ih (room.broadcastTo frm lst first)
        exact ⟨hsleeping.trans hfirst.1, hflag.trans hfirst.2⟩
  exact hfold room.curFrm room.settled.2 room.players { room with lists := room.settled.1 }

/-- What keeps the flags right is exactly that a loop ends alone. -/
theorem flagged_step_iff {event : Event Pid Action} (flagged : room.Flagged)
    (hstep : step room event = some next) : next.Flagged ↔ EndsAlone room event := by
  cases event with
  | playerEnter pid =>
      cases hstep
      refine ⟨fun _ => trivial, fun _ => flagged.congr ?_ ?_⟩
      all_goals
        unfold Room.playerEnter
        split
        · split <;> rfl
        · rfl
  | playerDisconnect pid =>
      simp only [step] at hstep
      split at hstep
      · cases hstep
        exact ⟨fun _ => trivial, fun _ => flagged.congr rfl rfl⟩
      · cases hstep
        exact ⟨fun _ => trivial, fun _ => flagged⟩
  | pushInput action =>
      cases hstep
      exact ⟨fun _ => trivial, fun _ => flagged.congr rfl rfl⟩
  | tick =>
      cases hstep
      exact ⟨fun _ => trivial, fun _ => flagged.congr (flags_tick room).1 (flags_tick room).2⟩
  | syncFrame pid startFrame =>
      simp only [step] at hstep
      split at hstep
      · next hmember =>
        cases hstep
        rw [flagged_startBatchSend_iff flagged]
        exact ⟨fun h _ => h, fun h => h hmember⟩
      · next hmember =>
        cases hstep
        exact ⟨fun _ h => absurd h hmember, fun _ => flagged⟩
  | wake loop =>
      simp only [step] at hstep
      split at hstep
      · next hloop =>
        cases hstep
        exact flagged_wake_iff flagged hloop
      · cases hstep

/-! ## Live frames -/

/-- While a flag is set no frame goes live to its player. -/
theorem Room.Flagged.inTurn (flagged : room.Flagged) (hnodup : room.players.Nodup) :
    room.InTurn := by
  intro pid frm actions hsent loop hloop hpid
  rw [tick_eq room hnodup, List.drop_left] at hsent
  obtain ⟨other, hother, heq⟩ := List.mem_map.mp hsent
  cases heq
  have hlive := (List.mem_filter.mp hother).2
  unfold Room.goesLive at hlive
  rw [← hpid, flagged loop hloop] at hlive
  simp at hlive

/-! ## Runs -/

/-- A run in which every loop ends alone is orderly in every state. -/
theorem orderly_of_run {events : List (Event Pid Action)}
    (hrun : Run step EndsAlone initial events room) : room.Orderly := by
  have hstart : Room.Flagged (initial : Room Pid Action) := fun loop hloop => (nomatch hloop)
  have flagged : room.Flagged :=
    hrun.invariant hstart
      fun _ _ _ flagged hends hstep => (flagged_step_iff flagged hstep).mpr hends
  have sound := (sound_run (hrun.mono fun _ _ _ => trivial)).1
  exact ⟨flagged, flagged.inTurn sound.players⟩

/-- Player 1 has missed 25 frames and asks for all of them, and then for the last
five. -/
def asksTwice : List (Event Nat Nat) :=
  [.playerEnter 1, .playerDisconnect 1] ++ List.replicate 25 .tick ++
    [.playerEnter 1, .syncFrame 1 0, .syncFrame 1 20]

/-- Both loops sleep, the flag is set, and no frame goes live. -/
theorem orderly_asksTwice :
    ((exec step EndsAlone initial asksTwice).getD initial).Orderly := by
  have hrun : Run step EndsAlone initial asksTwice
      ((exec step EndsAlone initial asksTwice).getD initial) :=
    run_exec_getD initial (by decide +kernel)
  exact orderly_of_run hrun

/-- The second loop is done while the first one sleeps. -/
theorem not_orderly_overlapping :
    ¬ ∀ (events : List (Event Nat Nat)) (room : Room Nat Nat),
      Run step free initial events room → room.Orderly := by
  intro h
  generalize hlast : (exec step free initial (asksTwice ++ [.wake ⟨1, 25⟩])).getD initial = last
  have hrun : Run step free initial (asksTwice ++ [.wake ⟨1, 25⟩]) last := by
    rw [← hlast]
    exact run_exec_getD initial (by decide +kernel)
  have hsleeps : ⟨1, 10⟩ ∈ last.sleeping := by
    subst hlast
    decide +kernel
  -- frame 26 is sent while the first loop has yet to send the frames after 10
  have hlive : (1, Msg.frame 26 []) ∈ last.tick.outbox.drop last.outbox.length := by
    subst hlast
    decide +kernel
  have hturn := (h _ _ hrun).inTurn 1 26 [] hlive ⟨1, 10⟩ hsleeps rfl 11 (by decide)
  exact absurd hturn (by decide)

end FrameSync
end ArmyRs
