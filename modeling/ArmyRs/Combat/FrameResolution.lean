import ArmyRs.Combat.CombatStatModel
import ArmyRs.Foundation.Tables

/-!
# When a frame is resolved

The counter of a frame counts messages.  It is not reset when the frame times
out, and it still counts the message of a player that has left.  So it says that
everybody has reported only when nobody has reported twice and everybody who has
reported is still there.  And a frame that was resolved or has timed out is taken
for a new one when a late report comes.

`OnTime` is the condition on the reports: none comes for a frame that was
reported before and is closed now, and the one that completes a frame finds only
messages of different players who are still there.  In a run of such reports no
frame is resolved twice, and every one is complete or has timed out
(`resolves_of_run`).
-/

namespace ArmyRs
namespace Combat

open Foundation

/-- A room with the frames that its players have reported so far; nothing reads
them. -/
structure Reporting where
  model : StatModel
  reported : List Frame

def Reporting.new (staResolve : Option CombatStat) (now : Nat) : Reporting :=
  ⟨StatModel.new staResolve now, []⟩

/-- What a step adds to the frames that were reported. -/
def StatModel.reports (s : StatModel) : Event → List Frame
  | .combatDetail pid frame _ => if pid ∈ s.playerdata then [frame] else []
  | _ => []

def Reporting.step (r : Reporting) (event : Event) : Option Reporting :=
  (r.model.step event).map fun model => ⟨model, r.reported ++ r.model.reports event⟩

variable {s s' : StatModel} {r r' : Reporting} {event : Event}

/-- Every player of the room has reported the frame, the sender included. -/
def Complete (s : StatModel) (pid : Pid) (frame : Frame) : Prop :=
  ∀ p ∈ s.playerdata, p = pid ∨ ∃ reports, s.framedata.lookup frame = some reports ∧ p ∈ reports

/-- The first report of the frame is long ago. -/
def Expired (s : StatModel) (frame : Frame) : Prop :=
  ∃ tick, s.framebegintick.lookup frame = some tick ∧ 500 ≤ s.now - tick

/-- What the step resolves is complete or has timed out. -/
def Resolves (s : StatModel) (event : Event) (s' : StatModel) : Prop :=
  ∃ frames, s'.resolved = s.resolved ++ frames ∧ ∀ frame ∈ frames,
    (∃ pid detail, event = .combatDetail pid frame detail ∧ Complete s pid frame) ∨
      event = .checkFrameData ∧ Expired s frame

/-- The report of the player makes the counter of the frame equal to the number
of players. -/
def StatModel.Completes (s : StatModel) (pid : Pid) (frame : Frame) : Prop :=
  pid ∈ s.playerdata ∧ (((s.framepcnt.lookup frame).getD 0 + 1 : Nat) : Int) = s.playercnt

/-- The reports are for frames that are open or new, and the one that completes a
frame finds that the counter has counted players who are there, each once. -/
def OnTime (r : Reporting) : Event → Prop
  | .combatDetail pid frame _ =>
      (pid ∈ r.model.playerdata → frame ∈ r.reported → frame ∈ r.model.framedata) ∧
        (r.model.Completes pid frame → (r.model.senders frame ++ [pid]).Nodup ∧
          ∀ p ∈ r.model.senders frame, p ∈ r.model.playerdata)
  | _ => True

instance (s : StatModel) (pid : Pid) (frame : Frame) : Decidable (s.Completes pid frame) :=
  inferInstanceAs (Decidable (_ ∧ _))

instance (r : Reporting) (event : Event) : Decidable (OnTime r event) := by
  cases event <;> unfold OnTime <;> infer_instance

/-! ## What the loops keep -/

/-- Nobody gets or loses a view. -/
def SamePlayers (playerdata playerdata' : Table Pid PlayerData) : Prop :=
  ∀ p, p ∈ playerdata' ↔ p ∈ playerdata

theorem samePlayers_insert {playerdata : Table Pid PlayerData} {pid : Pid} {view : PlayerData}
    (h : playerdata.lookup pid = some view) (view' : PlayerData) :
    SamePlayers playerdata (playerdata.insert pid view') := by
  have hmem : pid ∈ playerdata := by
    rw [← AList.lookup_isSome, h]
    rfl
  exact mem_insert_of_mem hmem view'

theorem samePlayers_setPlayerdata {playerdata playerdata' : Table Pid PlayerData} {pid : Pid}
    {data : Detail} (h : setPlayerdata playerdata pid data = some playerdata') :
    SamePlayers playerdata playerdata' := by
  unfold setPlayerdata at h
  split at h
  · next view hview =>
    cases h
    exact samePlayers_insert hview _
  · split at h
    · cases h
    · cases h
      exact fun _ => Iff.rfl

theorem samePlayers_writeVotes (most : Nat) (detail : Detail) (cnts : List (Pid × Nat))
    (playerdata : Table Pid PlayerData) :
    SamePlayers playerdata (writeVotes most detail cnts playerdata).1 := by
  induction cnts generalizing playerdata with
  | nil => exact fun _ => Iff.rfl
  | cons cnt cnts ih =>
      unfold writeVotes
      split
      · exact ih playerdata
      · split
        · exact fun _ => Iff.rfl
        · next playerdata' hset =>
          exact fun p => (ih playerdata' p).trans (samePlayers_setPlayerdata hset p)

/-- Voters who are there are all written. -/
theorem writeVotes_snd (most : Nat) (detail : Detail) {cnts : List (Pid × Nat)}
    {playerdata : Table Pid PlayerData} (hvoters : ∀ cnt ∈ cnts, cnt.1 ∈ playerdata) :
    (writeVotes most detail cnts playerdata).2 = true := by
  induction cnts generalizing playerdata with
  | nil => rfl
  | cons cnt cnts ih =>
      have hrest : ∀ cnt ∈ cnts, cnt.1 ∈ playerdata := fun cnt hcnt =>
        hvoters cnt (List.mem_cons_of_mem _ hcnt)
      obtain ⟨view, hview⟩ := exists_lookup (hvoters cnt List.mem_cons_self)
      unfold writeVotes
      split
      · exact ih hrest
      · unfold setPlayerdata
        rw [hview]
        exact ih fun other hother =>
          (samePlayers_insert hview _ other.1).mpr (hrest other hother)

theorem samePlayers_writeReports (reports : Table Pid Detail) (playerdata : Table Pid PlayerData) :
    SamePlayers playerdata (writeReports reports playerdata) := by
  unfold writeReports
  induction reports.entries generalizing playerdata with
  | nil => exact fun _ => Iff.rfl
  | cons report entries ih =>
      intro p
      rw [List.foldl_cons, ih]
      split
      · next view hview => exact samePlayers_insert hview _ p
      · exact Iff.rfl

theorem samePlayers_checkFrameData (s : StatModel) :
    SamePlayers s.playerdata s.checkFrameData.playerdata := by
  unfold StatModel.checkFrameData
  dsimp only
  induction s.timedOut generalizing s with
  | nil => exact fun _ => Iff.rfl
  | cons frame dellst ih =>
      intro p
      rw [List.foldl_cons]
      have hrest := ih { s with
        playerdata := writeReports ((s.framedata.lookup frame).getD ∅) s.playerdata } p
      exact hrest.trans (samePlayers_writeReports _ _ p)

/-! ## The number of players -/

/-- There are at least as many players as views, and nobody before the start. -/
structure Counted (s : StatModel) : Prop where
  counted : (s.playerdata.keys.length : Int) ≤ s.playercnt
  started : s.initialized = false → s.playerdata = ∅ ∧ s.offlinePlayers = ∅

theorem counted_new (staResolve : Option CombatStat) (now : Nat) :
    Counted (StatModel.new staResolve now) := ⟨le_rfl, fun _ => ⟨rfl, rfl⟩⟩

/-- The seats are at least as many as the views. -/
theorem length_seats_foldl (seats : List (Nat × Seat)) (view : PlayerData)
    (playerdata : Table Pid PlayerData) :
    (seats.foldl (fun playerdata seat => playerdata.insert seat.2.pid view)
      playerdata).keys.length ≤ playerdata.keys.length + seats.length := by
  induction seats generalizing playerdata with
  | nil => exact le_rfl
  | cons seat seats ih =>
      have hrest := ih (playerdata.insert seat.2.pid view)
      have hfirst := length_keys_insert_le playerdata seat.2.pid view
      rw [List.foldl_cons, List.length_cons]
      omega

theorem counted_init (counted : Counted s) (members : Members) : Counted (s.init members) := by
  unfold StatModel.init
  split
  · exact counted
  · next hinitialized =>
    refine ⟨?_, fun hfalse => nomatch hfalse⟩
    have hempty := (counted.started (Bool.eq_false_of_not_eq_true hinitialized)).1
    have hlength := length_seats_foldl members.seats
      (members.seats.foldl (fun view seat => initPlayers view seat.1 seat.2)
        ⟨emptySide, emptySide⟩) s.playerdata
    rw [hempty, AList.keys_empty, List.length_nil, Nat.zero_add] at hlength
    dsimp only
    rw [hempty]
    exact_mod_cast hlength

theorem counted_reEnter (counted : Counted s) (pid : Pid) : Counted (s.reEnter pid) := by
  unfold StatModel.reEnter
  split
  · next view hnone hoffline =>
    constructor
    · have hlength := length_keys_insert_of_notMem (AList.lookup_eq_none.mp hnone) view
      have hcounted := counted.counted
      dsimp only
      omega
    · intro hfalse
      -- nobody is offline before the start
      have hempty := (counted.started hfalse).2
      rw [hempty, AList.lookup_empty] at hoffline
      cases hoffline
  · exact counted

theorem counted_playerOffline (counted : Counted s) (pid : Pid) :
    Counted (s.playerOffline pid) := by
  unfold StatModel.playerOffline
  split
  · next view hview =>
    have hmem : pid ∈ s.playerdata := by
      rw [← AList.lookup_isSome, hview]
      rfl
    constructor
    · have hlength := length_keys_erase_of_mem hmem
      have hcounted := counted.counted
      dsimp only
      omega
    · intro hfalse
      have hempty := (counted.started hfalse).1
      rw [hempty, AList.lookup_empty] at hview
      cases hview
  · exact counted

/-- The views change, and nothing about who is a player or has uploaded. -/
structure SameRoom (s s' : StatModel) : Prop where
  players : SamePlayers s.playerdata s'.playerdata
  totalData : s'.totalData = s.totalData
  playercnt : s'.playercnt = s.playercnt
  initialized : s'.initialized = s.initialized
  offlinePlayers : s'.offlinePlayers = s.offlinePlayers

theorem SameRoom.refl (s : StatModel) : SameRoom s s := ⟨fun _ => Iff.rfl, rfl, rfl, rfl, rfl⟩

theorem SameRoom.trans {s s' s'' : StatModel} (h : SameRoom s s') (h' : SameRoom s' s'') :
    SameRoom s s'' where
  players := fun p => (h'.players p).trans (h.players p)
  totalData := h'.totalData.trans h.totalData
  playercnt := h'.playercnt.trans h.playercnt
  initialized := h'.initialized.trans h.initialized
  offlinePlayers := h'.offlinePlayers.trans h.offlinePlayers

theorem SameRoom.counted (same : SameRoom s s') (counted : Counted s) : Counted s' := by
  have hlength := length_keys_congr same.players
  constructor
  · rw [hlength, same.playercnt]
    exact counted.counted
  · intro hfalse
    rw [same.initialized] at hfalse
    obtain ⟨hempty, hnobody⟩ := counted.started hfalse
    rw [hempty, AList.keys_empty, List.length_nil, List.length_eq_zero_iff] at hlength
    exact ⟨AList.ext (List.map_eq_nil_iff.mp hlength), same.offlinePlayers.trans hnobody⟩

theorem sameRoom_vote (s : StatModel) (frame : Frame) (detail : Detail) :
    SameRoom s (s.vote frame detail) := by
  have hplayers := samePlayers_writeVotes
    (maxCnt (counts compareFrameData ((s.framedata.lookup frame).getD ∅))) detail
    (counts compareFrameData ((s.framedata.lookup frame).getD ∅)) s.playerdata
  unfold StatModel.vote
  dsimp only
  split
  · next playerdata heq =>
    rw [heq] at hplayers
    exact ⟨hplayers, rfl, rfl, rfl, rfl⟩
  · next playerdata heq =>
    rw [heq] at hplayers
    exact ⟨hplayers, rfl, rfl, rfl, rfl⟩

theorem sameRoom_modifyPlayerdata (s : StatModel) (pid : Pid) (frame : Frame) (detail : Detail) :
    SameRoom s (s.modifyPlayerdata pid frame detail) := by
  unfold StatModel.modifyPlayerdata
  split
  · have hcollect : SameRoom s (s.collect pid frame detail) :=
      ⟨fun _ => Iff.rfl, rfl, rfl, rfl, rfl⟩
    dsimp only
    split
    · exact hcollect.trans (sameRoom_vote _ frame detail)
    · exact hcollect
  · exact SameRoom.refl s

theorem sameRoom_checkFrameData (s : StatModel) : SameRoom s s.checkFrameData :=
  ⟨samePlayers_checkFrameData s, rfl, rfl, rfl, rfl⟩

theorem counted_step (counted : Counted s) (hstep : s.step event = some s') : Counted s' := by
  cases event with
  | tick elapsed =>
      cases hstep
      exact ⟨counted.counted, counted.started⟩
  | init members =>
      cases hstep
      exact counted_init counted members
  | reEnter pid =>
      cases hstep
      exact counted_reEnter counted pid
  | playerOffline pid =>
      cases hstep
      exact counted_playerOffline counted pid
  | combatDetail pid frame detail =>
      cases hstep
      exact (sameRoom_modifyPlayerdata s pid frame detail).counted counted
  | checkFrameData =>
      simp only [StatModel.step] at hstep
      split at hstep
      · cases hstep
        exact (sameRoom_checkFrameData s).counted counted
      · cases hstep

/-! ## The invariant -/

/-- What the counters stand for.  This holds in every run. -/
structure Sound (s : StatModel) : Prop where
  counted : (s.playerdata.keys.length : Int) ≤ s.playercnt
  started : s.initialized = false → s.playerdata = ∅ ∧ s.offlinePlayers = ∅
  counter : ∀ frame, (s.framepcnt.lookup frame).getD 0 = (s.senders frame).length
  voters : ∀ frame reports, s.framedata.lookup frame = some reports →
    ∀ p ∈ reports, p ∈ s.senders frame
  reported : ∀ frame ∉ s.resolved, ∀ p ∈ s.senders frame,
    ∃ reports, s.framedata.lookup frame = some reports ∧ p ∈ reports

theorem Sound.toCounted (sound : Sound s) : Counted s := ⟨sound.counted, sound.started⟩

theorem sound_new (staResolve : Option CombatStat) (now : Nat) :
    Sound (StatModel.new staResolve now) where
  counted := le_rfl
  started := fun _ => ⟨rfl, rfl⟩
  counter := fun _ => rfl
  voters := fun _ _ hreports => nomatch hreports
  reported := fun _ _ _ hp => absurd hp List.not_mem_nil

/-- Only the players change. -/
theorem Sound.players (sound : Sound s) (counted : Counted s')
    (hframedata : s'.framedata = s.framedata) (hframepcnt : s'.framepcnt = s.framepcnt)
    (hsenders : s'.senders = s.senders) (hresolved : s'.resolved = s.resolved) : Sound s' where
  counted := counted.counted
  started := counted.started
  counter := by
    rw [hframepcnt, hsenders]
    exact sound.counter
  voters := by
    rw [hframedata, hsenders]
    exact sound.voters
  reported := by
    rw [hframedata, hsenders, hresolved]
    exact sound.reported

theorem sound_init (sound : Sound s) (members : Members) : Sound (s.init members) := by
  have counted := counted_init sound.toCounted members
  unfold StatModel.init at counted ⊢
  split
  · exact sound
  · next hinitialized =>
    rw [if_neg hinitialized] at counted
    exact sound.players counted rfl rfl rfl rfl

theorem sound_reEnter (sound : Sound s) (pid : Pid) : Sound (s.reEnter pid) := by
  refine sound.players (counted_reEnter sound.toCounted pid) ?_ ?_ ?_ ?_ <;>
    (unfold StatModel.reEnter; split <;> rfl)

theorem sound_playerOffline (sound : Sound s) (pid : Pid) : Sound (s.playerOffline pid) := by
  refine sound.players (counted_playerOffline sound.toCounted pid) ?_ ?_ ?_ ?_ <;>
    (unfold StatModel.playerOffline; split <;> rfl)

/-! ## Reports -/

/-- Collecting a message counts its sender. -/
theorem sound_collect (sound : Sound s) (pid : Pid) (frame : Frame) (detail : Detail) :
    Sound (s.collect pid frame detail) where
  counted := sound.counted
  started := sound.started
  counter := by
    intro f
    show ((s.framepcnt.insert frame _).lookup f).getD 0 =
      (Function.update s.senders frame _ f).length
    by_cases hf : f = frame
    · subst hf
      rw [AList.lookup_insert, Function.update_self, Option.getD_some, sound.counter,
        List.length_append, List.length_singleton]
    · rw [AList.lookup_insert_ne hf, Function.update_of_ne hf]
      exact sound.counter f
  voters := by
    intro f reports hreports p hp
    replace hreports : (s.framedata.insert frame _).lookup f = some reports := hreports
    show p ∈ Function.update s.senders frame (s.senders frame ++ [pid]) f
    by_cases hframe : f = frame
    · subst hframe
      rw [AList.lookup_insert, Option.some_inj] at hreports
      subst hreports
      rw [Function.update_self, List.mem_append, List.mem_singleton]
      rcases AList.mem_insert _ |>.mp hp with rfl | hold
      · exact .inr rfl
      · left
        -- a report of somebody else is one of those collected before
        cases hbefore : s.framedata.lookup f with
        | none =>
            rw [hbefore] at hold
            exact absurd hold (AList.notMem_empty p)
        | some before =>
            rw [hbefore] at hold
            exact sound.voters f before hbefore p hold
    · rw [AList.lookup_insert_ne hframe] at hreports
      rw [Function.update_of_ne hframe]
      exact sound.voters f reports hreports p hp
  reported := by
    intro f hf p hp
    replace hp : p ∈ Function.update s.senders frame (s.senders frame ++ [pid]) f := hp
    show ∃ reports, (s.framedata.insert frame _).lookup f = some reports ∧ p ∈ reports
    by_cases hframe : f = frame
    · subst hframe
      rw [Function.update_self, List.mem_append, List.mem_singleton] at hp
      refine ⟨_, AList.lookup_insert s.framedata, AList.mem_insert _ |>.mpr ?_⟩
      -- this report is in the table, and the earlier ones stay in it
      rcases hp with hold | hnew
      · obtain ⟨reports, hreports, hmem⟩ := sound.reported f hf p hold
        rw [hreports]
        exact .inr hmem
      · exact .inl hnew
    · rw [Function.update_of_ne hframe] at hp
      rw [AList.lookup_insert_ne hframe]
      exact sound.reported f hf p hp

theorem sound_vote (sound : Sound s) (frame : Frame) (detail : Detail) :
    Sound (s.vote frame detail) := by
  have counted := (sameRoom_vote s frame detail).counted sound.toCounted
  unfold StatModel.vote at counted ⊢
  dsimp only at counted ⊢
  generalize counts compareFrameData ((s.framedata.lookup frame).getD ∅) = cnts at counted ⊢
  split
  · next playerdata hwrite =>
    rw [hwrite] at counted
    -- the vote met a player without a view: the script stops before the frame is cleared
    constructor
    · exact counted.counted
    · exact counted.started
    · exact sound.counter
    · exact sound.voters
    · intro f hf
      exact sound.reported f fun hmem => hf (List.mem_append_left _ hmem)
  · next playerdata hwrite =>
    rw [hwrite] at counted
    -- the frame is cleared, with its counter and its reports
    constructor
    · exact counted.counted
    · exact counted.started
    · intro f
      dsimp only
      by_cases hf : f = frame
      · subst hf
        rw [AList.lookup_erase, Function.update_self]
        rfl
      · rw [AList.lookup_erase_ne hf, Function.update_of_ne hf]
        exact sound.counter f
    · intro f reports hreports
      dsimp only at hreports ⊢
      obtain ⟨hbefore, hframe⟩ := lookup_erase_eq_some.mp hreports
      rw [Function.update_of_ne hframe]
      exact sound.voters f reports hbefore
    · intro f hf p hp
      have hframe : f ≠ frame := by
        rintro rfl
        exact hf (List.mem_append_right _ List.mem_cons_self)
      dsimp only at hp ⊢
      rw [Function.update_of_ne hframe] at hp
      rw [AList.lookup_erase_ne hframe]
      exact sound.reported f (fun hmem => hf (List.mem_append_left _ hmem)) p hp

/-! ## Timeouts -/

theorem mem_timedOut {frame : Frame} : frame ∈ s.timedOut ↔ Expired s frame := by
  unfold StatModel.timedOut Expired
  constructor
  · intro h
    obtain ⟨tick, htick, rfl⟩ := List.mem_map.mp h
    rw [List.mem_filter, decide_eq_true_eq] at htick
    exact ⟨tick.2, AList.mem_lookup_iff.mpr htick.1, htick.2⟩
  · rintro ⟨tick, hlookup, hlong⟩
    refine List.mem_map.mpr ⟨⟨frame, tick⟩, ?_, rfl⟩
    rw [List.mem_filter, decide_eq_true_eq]
    exact ⟨AList.mem_lookup_iff.mp hlookup, hlong⟩

theorem nodup_timedOut (s : StatModel) : s.timedOut.Nodup := by
  unfold StatModel.timedOut
  exact List.Nodup.sublist (List.filter_sublist.map Sigma.fst) s.framebegintick.nodupKeys

theorem sound_checkFrameData (sound : Sound s) : Sound s.checkFrameData := by
  have counted := (sameRoom_checkFrameData s).counted sound.toCounted
  constructor
  · exact counted.counted
  · exact counted.started
  · exact sound.counter
  · intro frame reports hreports
    replace hreports : (s.timedOut.foldl (fun framedata frame => framedata.erase frame)
      s.framedata).lookup frame = some reports := hreports
    have hkept : frame ∉ s.timedOut := ((mem_foldl_erase _).mp (mem_of_lookup hreports)).2
    rw [lookup_foldl_erase hkept] at hreports
    exact sound.voters frame reports hreports
  · intro frame hframe p hp
    replace hframe : frame ∉ s.resolved ++ s.timedOut := hframe
    rw [List.mem_append, not_or] at hframe
    show ∃ reports, (s.timedOut.foldl (fun framedata frame => framedata.erase frame)
      s.framedata).lookup frame = some reports ∧ p ∈ reports
    rw [lookup_foldl_erase hframe.2]
    exact sound.reported frame hframe.1 p hp

/-! ## A step of the counters -/

/-- `modify_playerdata` votes exactly when the report completes the frame. -/
theorem modifyPlayerdata_eq (s : StatModel) (pid : Pid) (frame : Frame) (detail : Detail) :
    s.modifyPlayerdata pid frame detail =
      if s.Completes pid frame then (s.collect pid frame detail).vote frame detail
      else if pid ∈ s.playerdata then s.collect pid frame detail
      else s := by
  have hcount : ((s.collect pid frame detail).framepcnt.lookup frame).getD 0 =
      (s.framepcnt.lookup frame).getD 0 + 1 := by
    show ((s.framepcnt.insert frame _).lookup frame).getD 0 = _
    rw [AList.lookup_insert]
    rfl
  unfold StatModel.modifyPlayerdata
  by_cases hmem : pid ∈ s.playerdata
  · rw [if_pos (AList.lookup_isSome.mpr hmem)]
    dsimp only
    rw [hcount]
    by_cases hequal : (((s.framepcnt.lookup frame).getD 0 + 1 : Nat) : Int) = s.playercnt
    · rw [if_pos (show s.Completes pid frame from ⟨hmem, hequal⟩)]
      exact if_pos hequal
    · rw [if_neg (show ¬ s.Completes pid frame from fun h => hequal h.2), if_pos hmem]
      exact if_neg hequal
  · rw [if_neg (show ¬ s.Completes pid frame from fun h => hmem h.1), if_neg hmem]
    exact if_neg fun h => hmem (AList.lookup_isSome.mp h)

theorem sound_step (sound : Sound s) (hstep : s.step event = some s') : Sound s' := by
  cases event with
  | tick elapsed =>
      cases hstep
      exact sound.players ⟨sound.counted, sound.started⟩ rfl rfl rfl rfl
  | init members =>
      cases hstep
      exact sound_init sound members
  | reEnter pid =>
      cases hstep
      exact sound_reEnter sound pid
  | playerOffline pid =>
      cases hstep
      exact sound_playerOffline sound pid
  | combatDetail pid frame detail =>
      cases hstep
      rw [modifyPlayerdata_eq]
      split
      · exact sound_vote (sound_collect sound pid frame detail) frame detail
      · split
        · exact sound_collect sound pid frame detail
        · exact sound
  | checkFrameData =>
      simp only [StatModel.step] at hstep
      split at hstep
      · cases hstep
        exact sound_checkFrameData sound
      · cases hstep

/-! ## Frames that are open -/

/-- A frame is open until it is resolved, and what is resolved was reported before.
This is what the condition on the reports keeps. -/
structure Fresh (r : Reporting) : Prop where
  begun : ∀ frame ∈ r.model.framebegintick, frame ∈ r.model.framedata
  opened : ∀ frame ∈ r.model.framedata, frame ∈ r.reported ∧ frame ∉ r.model.resolved
  recorded : ∀ frame ∈ r.model.resolved, frame ∈ r.reported
  once : r.model.resolved.Nodup

theorem fresh_new (staResolve : Option CombatStat) (now : Nat) :
    Fresh (Reporting.new staResolve now) where
  begun := fun frame hframe => absurd hframe (AList.notMem_empty frame)
  opened := fun frame hframe => absurd hframe (AList.notMem_empty frame)
  recorded := fun _ hframe => absurd hframe List.not_mem_nil
  once := List.nodup_nil

/-- A report for an open or a new frame is for one that is not resolved. -/
theorem Fresh.notMem_resolved (fresh : Fresh r) {frame : Frame}
    (hlate : frame ∈ r.reported → frame ∈ r.model.framedata) : frame ∉ r.model.resolved := by
  intro hresolved
  have hopen := hlate (fresh.recorded frame hresolved)
  exact (fresh.opened frame hopen).2 hresolved

/-- Nothing about the frames changes. -/
theorem Fresh.frames (fresh : Fresh r) (hframedata : s.framedata = r.model.framedata)
    (hticks : s.framebegintick = r.model.framebegintick)
    (hresolved : s.resolved = r.model.resolved) : Fresh ⟨s, r.reported⟩ := by
  constructor
  · rw [hframedata, hticks]
    exact fresh.begun
  · rw [hframedata, hresolved]
    exact fresh.opened
  · rw [hresolved]
    exact fresh.recorded
  · rw [hresolved]
    exact fresh.once

theorem fresh_collect (fresh : Fresh r) (pid : Pid) {frame : Frame} (detail : Detail)
    (hlate : frame ∈ r.reported → frame ∈ r.model.framedata) :
    Fresh ⟨r.model.collect pid frame detail, r.reported ++ [frame]⟩ where
  begun := by
    intro f hf
    replace hf : f ∈ if (r.model.framedata.lookup frame).isNone then
      r.model.framebegintick.insert frame r.model.now else r.model.framebegintick := hf
    show f ∈ r.model.framedata.insert frame _
    rw [AList.mem_insert]
    -- a frame begins with its first report, which also opens its table
    split at hf
    · rcases AList.mem_insert _ |>.mp hf with heq | hold
      · exact .inl heq
      · exact .inr (fresh.begun f hold)
    · exact .inr (fresh.begun f hf)
  opened := by
    intro f hf
    replace hf : f ∈ r.model.framedata.insert frame _ := hf
    rcases AList.mem_insert _ |>.mp hf with rfl | hold
    · exact ⟨List.mem_append_right _ List.mem_cons_self, fresh.notMem_resolved hlate⟩
    · obtain ⟨hreported, hnew⟩ := fresh.opened f hold
      exact ⟨List.mem_append_left _ hreported, hnew⟩
  recorded := fun f hf => List.mem_append_left _ (fresh.recorded f hf)
  once := fresh.once

/-- A vote of players who are there closes the frame. -/
theorem fresh_vote (fresh : Fresh r) {frame : Frame} (detail : Detail)
    (hopen : frame ∈ r.model.framedata)
    (hvoters : ∀ reports, r.model.framedata.lookup frame = some reports →
      ∀ p ∈ reports, p ∈ r.model.playerdata) : Fresh ⟨r.model.vote frame detail, r.reported⟩ := by
  obtain ⟨hreported, hnew⟩ := fresh.opened frame hopen
  have hkeys : ∀ cnt ∈ counts compareFrameData ((r.model.framedata.lookup frame).getD ∅),
      cnt.1 ∈ r.model.playerdata := by
    intro cnt hcnt
    obtain ⟨reports, hreports⟩ := exists_lookup hopen
    rw [hreports, Option.getD_some] at hcnt
    obtain ⟨ballot, hballot, rfl⟩ := List.mem_map.mp hcnt
    exact hvoters reports hreports _ (AList.mem_keys.mpr (List.mem_map_of_mem hballot))
  unfold StatModel.vote
  dsimp only
  generalize counts compareFrameData ((r.model.framedata.lookup frame).getD ∅) = cnts at hkeys ⊢
  have hwritten := writeVotes_snd (maxCnt cnts) detail hkeys
  split
  · next playerdata hwrite =>
    rw [hwrite] at hwritten
    -- every key of the vote has a view, so the votes are all written
    cases hwritten
  · constructor
    · intro f hf
      obtain ⟨hne, hold⟩ := AList.mem_erase.mp hf
      exact AList.mem_erase.mpr ⟨hne, fresh.begun f hold⟩
    · intro f hf
      obtain ⟨hne, hold⟩ := AList.mem_erase.mp hf
      obtain ⟨hbefore, hunresolved⟩ := fresh.opened f hold
      refine ⟨hbefore, fun hmem => ?_⟩
      -- an open frame has not been resolved, and this one is open no more
      rcases List.mem_append.mp hmem with hresolved | hlast
      · exact hunresolved hresolved
      · exact hne (List.mem_singleton.mp hlast)
    · intro f hf
      rcases List.mem_append.mp hf with hresolved | hlast
      · exact fresh.recorded f hresolved
      · exact List.mem_singleton.mp hlast ▸ hreported
    · show (r.model.resolved ++ [frame]).Nodup
      rw [List.nodup_append_comm, List.singleton_append, List.nodup_cons]
      exact ⟨hnew, fresh.once⟩

/-- A timeout closes its frames. -/
theorem fresh_checkFrameData (fresh : Fresh r) :
    Fresh ⟨r.model.checkFrameData, r.reported⟩ := by
  have hexpired : ∀ frame ∈ r.model.timedOut, frame ∈ r.model.framedata := by
    intro frame hframe
    obtain ⟨tick, htick, -⟩ := mem_timedOut.mp hframe
    exact fresh.begun frame (mem_of_lookup htick)
  constructor
  · intro frame hframe
    obtain ⟨hold, hkept⟩ := (mem_foldl_erase _).mp hframe
    exact (mem_foldl_erase _).mpr ⟨fresh.begun frame hold, hkept⟩
  · intro frame hframe
    obtain ⟨hold, hkept⟩ := (mem_foldl_erase _).mp hframe
    obtain ⟨hreported, hnew⟩ := fresh.opened frame hold
    refine ⟨hreported, fun hmem => ?_⟩
    rcases List.mem_append.mp hmem with hresolved | htimedOut
    · exact hnew hresolved
    · exact hkept htimedOut
  · intro frame hframe
    rcases List.mem_append.mp hframe with hresolved | htimedOut
    · exact fresh.recorded frame hresolved
    · exact (fresh.opened frame (hexpired frame htimedOut)).1
  · show (r.model.resolved ++ r.model.timedOut).Nodup
    -- a frame that times out is open, so it was not resolved before
    refine List.nodup_append'.mpr ⟨fresh.once, nodup_timedOut r.model, ?_⟩
    exact fun frame hold hnew => (fresh.opened frame (hexpired frame hnew)).2 hold

/-- Whoever has reported a frame that is completed on time is there. -/
theorem voters_collect (sound : Sound s) {pid : Pid} {frame : Frame} {detail : Detail}
    (hpid : pid ∈ s.playerdata) (hsenders : ∀ p ∈ s.senders frame, p ∈ s.playerdata) :
    ∀ reports, (s.collect pid frame detail).framedata.lookup frame = some reports →
      ∀ p ∈ reports, p ∈ s.playerdata := by
  intro reports hreports p hp
  have hsender := (sound_collect sound pid frame detail).voters frame reports hreports p hp
  replace hsender : p ∈ Function.update s.senders frame (s.senders frame ++ [pid]) frame := hsender
  rw [Function.update_self, List.mem_append, List.mem_singleton] at hsender
  rcases hsender with hbefore | rfl
  · exact hsenders p hbefore
  · exact hpid

theorem fresh_step (fresh : Fresh r) (sound : Sound r.model) (hontime : OnTime r event)
    (hstep : r.step event = some r') : Fresh r' := by
  obtain ⟨model, hmodel, rfl⟩ := Option.map_eq_some_iff.mp hstep
  cases event with
  | tick elapsed =>
      cases hmodel
      simp only [StatModel.reports, List.append_nil]
      exact fresh.frames rfl rfl rfl
  | init members =>
      cases hmodel
      simp only [StatModel.reports, List.append_nil]
      apply fresh.frames
      all_goals
        unfold StatModel.init
        split <;> rfl
  | reEnter pid =>
      cases hmodel
      simp only [StatModel.reports, List.append_nil]
      apply fresh.frames
      all_goals
        unfold StatModel.reEnter
        split <;> rfl
  | playerOffline pid =>
      cases hmodel
      simp only [StatModel.reports, List.append_nil]
      apply fresh.frames
      all_goals
        unfold StatModel.playerOffline
        split <;> rfl
  | combatDetail pid frame detail =>
      cases hmodel
      obtain ⟨hlate, hcounts⟩ := hontime
      rw [modifyPlayerdata_eq, StatModel.reports]
      by_cases hpid : pid ∈ r.model.playerdata
      · have hcollect := fresh_collect fresh pid detail (hlate hpid)
        rw [if_pos hpid, if_pos hpid]
        split
        · next hcompletes =>
          have hsenders := (hcounts hcompletes).2
          apply fresh_vote hcollect
          · exact AList.mem_insert _ |>.mpr (.inl rfl)
          · exact voters_collect sound hpid hsenders
        · exact hcollect
      · -- the report of a player who is not there is dropped
        rw [if_neg hpid, if_neg hpid, if_neg fun h => hpid h.1, List.append_nil]
        exact fresh
  | checkFrameData =>
      simp only [StatModel.step] at hmodel
      split at hmodel
      · cases hmodel
        simp only [StatModel.reports, List.append_nil]
        exact fresh_checkFrameData fresh
      · cases hmodel

/-! ## What a step resolves -/

/-- The report that completes a frame in time comes after those of all others. -/
theorem complete_of_onTime (sound : Sound s) {pid : Pid} {frame : Frame}
    (hnew : frame ∉ s.resolved) (hcompletes : s.Completes pid frame)
    (hnodup : (s.senders frame ++ [pid]).Nodup)
    (hsenders : ∀ p ∈ s.senders frame, p ∈ s.playerdata) : Complete s pid frame := by
  have hlength : s.playerdata.keys.length ≤ (s.senders frame ++ [pid]).length := by
    have hcounted := sound.counted
    have hcounter := sound.counter frame
    have hequal := hcompletes.2
    rw [List.length_append, List.length_singleton]
    omega
  -- as many reports as players, none twice and none of a stranger: they are all players
  have hsubset : s.senders frame ++ [pid] ⊆ s.playerdata.keys := by
    intro p hp
    rw [List.mem_append, List.mem_singleton] at hp
    rcases hp with hp | rfl
    · exact hsenders p hp
    · exact hcompletes.1
  intro p hp
  have hcovered := covers_of_nodup hlength hnodup hsubset hp
  rw [List.mem_append, List.mem_singleton] at hcovered
  rcases hcovered with hsender | rfl
  · exact .inr (sound.reported frame hnew p hsender)
  · exact .inl rfl

/-- When as many players are counted as have views, the condition on the counter
is the exact one: otherwise somebody has not reported. -/
theorem covers_iff_onTime (sound : Sound s)
    (hcounted : (s.playerdata.keys.length : Int) = s.playercnt) {pid : Pid} {frame : Frame}
    (hcompletes : s.Completes pid frame) :
    (∀ p ∈ s.playerdata, p ∈ s.senders frame ++ [pid]) ↔
      (s.senders frame ++ [pid]).Nodup ∧ ∀ p ∈ s.senders frame, p ∈ s.playerdata := by
  have hlength : (s.senders frame ++ [pid]).length = s.playerdata.keys.length := by
    have hcounter := sound.counter frame
    have hequal := hcompletes.2
    rw [List.length_append, List.length_singleton]
    omega
  refine (covers_iff s.playerdata.keys_nodup hlength).trans (and_congr_right fun _ => ?_)
  constructor
  · exact fun h p hp => h (List.mem_append_left _ hp)
  · intro h p hp
    rw [List.mem_append, List.mem_singleton] at hp
    rcases hp with hp | rfl
    · exact h p hp
    · exact hcompletes.1

theorem resolved_vote (s : StatModel) (frame : Frame) (detail : Detail) :
    (s.vote frame detail).resolved = s.resolved ++ [frame] := by
  unfold StatModel.vote
  dsimp only
  split
  · rfl
  · rfl

theorem resolves_of_nothing (h : s'.resolved = s.resolved) : Resolves s event s' :=
  ⟨[], by rw [h, List.append_nil], fun _ hframe => absurd hframe List.not_mem_nil⟩

theorem resolves_step (fresh : Fresh r) (sound : Sound r.model) (hontime : OnTime r event)
    (hstep : r.model.step event = some s') : Resolves r.model event s' := by
  cases event with
  | tick elapsed =>
      cases hstep
      exact resolves_of_nothing rfl
  | init members =>
      cases hstep
      apply resolves_of_nothing
      unfold StatModel.init
      split <;> rfl
  | reEnter pid =>
      cases hstep
      apply resolves_of_nothing
      unfold StatModel.reEnter
      split <;> rfl
  | playerOffline pid =>
      cases hstep
      apply resolves_of_nothing
      unfold StatModel.playerOffline
      split <;> rfl
  | combatDetail pid frame detail =>
      cases hstep
      obtain ⟨hlate, hcounts⟩ := hontime
      rw [modifyPlayerdata_eq]
      split
      · next hcompletes =>
        refine ⟨[frame], resolved_vote _ frame detail, ?_⟩
        intro f hf
        rw [List.mem_singleton.mp hf]
        obtain ⟨hnodup, hsenders⟩ := hcounts hcompletes
        have hnew := fresh.notMem_resolved (hlate hcompletes.1)
        exact .inl ⟨pid, detail, rfl, complete_of_onTime sound hnew hcompletes hnodup hsenders⟩
      · split
        · exact resolves_of_nothing rfl
        · exact resolves_of_nothing rfl
  | checkFrameData =>
      simp only [StatModel.step] at hstep
      split at hstep
      · cases hstep
        -- the frames that are resolved are those that time out
        exact ⟨r.model.timedOut, rfl, fun frame hframe => .inr ⟨rfl, mem_timedOut.mp hframe⟩⟩
      · cases hstep

/-! ## Runs -/

theorem fresh_run {staResolve : Option CombatStat} {now : Nat} {events : List Event}
    (hrun : Run Reporting.step OnTime (Reporting.new staResolve now) events r) :
    Sound r.model ∧ Fresh r := by
  apply hrun.invariant
  · exact ⟨sound_new staResolve now, fresh_new staResolve now⟩
  · rintro state event next ⟨sound, fresh⟩ hontime hstep
    refine ⟨?_, fresh_step fresh sound hontime hstep⟩
    obtain ⟨model, hmodel, rfl⟩ := Option.map_eq_some_iff.mp hstep
    exact sound_step sound hmodel

/-- In a run of reports that are on time no frame is resolved twice, and a step
resolves only frames that everybody has reported or that have timed out. -/
theorem resolves_of_run {staResolve : Option CombatStat} {now : Nat} {events : List Event}
    (hrun : Run Reporting.step OnTime (Reporting.new staResolve now) events r) :
    r.model.resolved.Nodup ∧ ∀ event s', OnTime r event → r.model.step event = some s' →
      Resolves r.model event s' := by
  obtain ⟨sound, fresh⟩ := fresh_run hrun
  exact ⟨fresh.once, fun _ _ hontime hstep => resolves_step fresh sound hontime hstep⟩

/-! ## Two players -/

def player (n : ℚ) : Pid := .number n

def twoPlayers : Members :=
  [[some ⟨player 1, .string "one", .string "car001"⟩],
    [some ⟨player 2, .string "two", .string "car001"⟩, none]]

/-- The second player comes back before the first frame is complete, and the
second frame times out. -/
def inTime : List Event :=
  [.init twoPlayers, .combatDetail (player 1) (.number 1) ∅, .playerOffline (player 2),
    .reEnter (player 2), .combatDetail (player 2) (.number 1) ∅,
    .combatDetail (player 1) (.number 2) ∅, .tick 500, .checkFrameData]

def inTimeEnd : Reporting :=
  (exec Reporting.step OnTime (Reporting.new none 0) inTime).getD (Reporting.new none 0)

theorem resolves_inTime :
    inTimeEnd.model.resolved.Nodup ∧ ∀ event s', OnTime inTimeEnd event →
      inTimeEnd.model.step event = some s' → Resolves inTimeEnd.model event s' := by
  have hrun : Run Reporting.step OnTime (Reporting.new none 0) inTime inTimeEnd :=
    run_exec_getD _ (by decide +kernel)
  exact resolves_of_run hrun

/-- The first player reports the frame twice. -/
def twice : List Event := [.init twoPlayers, .combatDetail (player 1) (.number 1) ∅]

def twiceEnd : StatModel :=
  (exec StatModel.step free (StatModel.new none 0) twice).getD (StatModel.new none 0)

/-- The second report of a player completes a frame that the other one has not
reported, and a third one completes it again. -/
theorem not_resolves_twice :
    ¬ ∀ (events : List Event) (s : StatModel),
      Run StatModel.step free (StatModel.new none 0) events s →
        s.resolved.Nodup ∧ ∀ event s', s.step event = some s' → Resolves s event s' := by
  intro h
  have hrun : Run StatModel.step free (StatModel.new none 0) twice twiceEnd :=
    run_exec_getD _ (by decide +kernel)
  obtain ⟨frames, hframes, hall⟩ :=
    (h _ _ hrun).2 (.combatDetail (player 1) (.number 1) ∅) _ rfl
  have hresolved : (twiceEnd.modifyPlayerdata (player 1) (.number 1) ∅).resolved =
      [.number 1] := by decide +kernel
  have hbefore : twiceEnd.resolved = [] := by decide +kernel
  rw [hresolved, hbefore, List.nil_append] at hframes
  rcases hall (.number 1) (by rw [← hframes]; exact List.mem_cons_self) with
    ⟨pid, detail, hevent, hcomplete⟩ | ⟨hevent, -⟩
  · cases hevent
    have hmem : player 2 ∈ twiceEnd.playerdata := by decide +kernel
    have hreports : (twiceEnd.framedata.lookup (.number 1)).map AList.keys = some [player 1] := by
      decide +kernel
    rcases hcomplete (player 2) hmem with hsame | ⟨reports, hlookup, hreported⟩
    · cases hsame
    · rw [hlookup, Option.map_some, Option.some_inj] at hreports
      rw [AList.mem_keys, hreports, List.mem_singleton] at hreported
      cases hreported
  · cases hevent

end Combat
end ArmyRs
