import ArmyRs.Combat.RoomProgress

/-!
# The sessions of a room

`sids` keeps the sessions that a player has replaced, and `player_disconnect` looks
only there: when the gate notices late that an old session has ended, the player
goes offline although its new session is there.

A player whose last session has not ended stays online in every run in which a
session that was replaced ends only after its player has left
(`online_of_run`).
-/

namespace ArmyRs
namespace Combat

open Foundation

/-- The end of a session that its player has replaced changes neither the status of
the player nor its statistics. -/
def Harmless (s : Room) (event : RoomEvent) (s' : Room) : Prop :=
  ∀ sid pid player, event = .playerDisconnect sid → s.sids.lookup sid = some pid →
    s.players.lookup pid = some player → player.sid ≠ sid →
      (∃ player', s'.players.lookup pid = some player' ∧ player'.status = player.status) ∧
        s'.statModel.playerdata.lookup pid = s.statModel.playerdata.lookup pid

/-- When a session ends that its player has replaced, the player is offline and not
part of the statistics. -/
def Room.Careful (s : Room) : RoomEvent → Prop
  | .playerDisconnect sid =>
      ∀ pid ∈ s.sids.lookup sid, ∀ player ∈ s.players.lookup pid,
        player.sid = sid ∨ player.status = .offline ∧ pid ∉ s.statModel.playerdata
  | _ => True

instance Room.decidableCareful (s : Room) : ∀ event, Decidable (s.Careful event)
  | .playerDisconnect sid =>
      inferInstanceAs (Decidable (∀ pid ∈ s.sids.lookup sid, ∀ player ∈ s.players.lookup pid,
        player.sid = sid ∨ player.status = .offline ∧ pid ∉ s.statModel.playerdata))
  | .tick _ | .playerEnter _ _ _ _ | .playerReady _ | .heroSelected _ _ | .heroLoaded _
  | .combatDetail _ _ _ | .uploadStat _ _ _ _ | .unknown | .runClocks | .exitResumed =>
      inferInstanceAs (Decidable True)

/-- A player whose last session has not ended is online. -/
def Room.Online (s : Room) : Prop :=
  ∀ pid sid, s.session pid = some sid →
    ∃ player, s.players.lookup pid = some player ∧ player.sid = sid ∧ player.status = .online

/-! ## What does not touch the players -/

/-- The players are the same, and so are their sessions. -/
structure SameSessions (s s' : Room) : Prop where
  players : s'.players = s.players
  sids : s'.sids = s.sids
  session : s'.session = s.session

section

variable {s s' s'' : Room}

theorem SameSessions.refl (s : Room) : SameSessions s s := ⟨rfl, rfl, rfl⟩

theorem SameSessions.trans (h : SameSessions s s') (h' : SameSessions s' s'') :
    SameSessions s s'' :=
  ⟨h'.players.trans h.players, h'.sids.trans h.sids, h'.session.trans h.session⟩

theorem SameSessions.after (h' : SameSessions s' s'') (h : SameSessions s s') :
    SameSessions s s'' :=
  h.trans h'

theorem SameSessions.online (h : SameSessions s s') (online : s.Online) : s'.Online := by
  intro pid sid hsession
  rw [h.session] at hsession
  rw [h.players]
  exact online pid sid hsession

/-- The statistics are the same, too. -/
structure SameRecords (s s' : Room) : Prop extends SameSessions s s' where
  statModel : s'.statModel = s.statModel

theorem SameRecords.refl (s : Room) : SameRecords s s := ⟨SameSessions.refl s, rfl⟩

theorem SameRecords.trans (h : SameRecords s s') (h' : SameRecords s' s'') :
    SameRecords s s'' :=
  ⟨h.toSameSessions.trans h'.toSameSessions, h'.statModel.trans h.statModel⟩

theorem SameRecords.after (h' : SameRecords s' s'') (h : SameRecords s s') : SameRecords s s'' :=
  h.trans h'

theorem records_setRoomStatus (s : Room) (status : RoomStatus) :
    SameRecords s (s.setRoomStatus status) := by
  unfold Room.setRoomStatus
  split <;> exact ⟨⟨rfl, rfl, rfl⟩, rfl⟩

theorem records_stopCountDown (s : Room) : SameRecords s s.stopCountDown := by
  unfold Room.stopCountDown
  split <;> exact ⟨⟨rfl, rfl, rfl⟩, rfl⟩

theorem records_startCountDown (s : Room) : SameRecords s s.startCountDown := by
  unfold Room.startCountDown
  split
  · split <;> exact ⟨⟨rfl, rfl, rfl⟩, rfl⟩
  · exact SameRecords.refl s

theorem records_stopCheckAllLeft (s : Room) : SameRecords s s.stopCheckAllLeft := by
  unfold Room.stopCheckAllLeft
  split <;> exact ⟨⟨rfl, rfl, rfl⟩, rfl⟩

theorem records_inputFrmLineExit (s : Room) : SameRecords s s.inputFrmLineExit := by
  unfold Room.inputFrmLineExit
  split <;> exact ⟨⟨rfl, rfl, rfl⟩, rfl⟩

theorem records_notifyOnlinePeers (s : Room) : SameRecords s s.notifyOnlinePeers := by
  unfold Room.notifyOnlinePeers
  split
  · exact SameRecords.refl s
  · dsimp only
    split <;> exact ⟨⟨rfl, rfl, rfl⟩, rfl⟩

theorem records_checkAllLeft (s : Room) : SameRecords s s.checkAllLeft := by
  unfold Room.checkAllLeft
  dsimp only
  apply (records_stopCheckAllLeft s).trans
  split <;> exact ⟨⟨rfl, rfl, rfl⟩, rfl⟩

theorem records_checkLoadingReady (s : Room) : SameRecords s s.checkLoadingReady := by
  unfold Room.checkLoadingReady
  split
  · exact SameRecords.refl s
  · split
    · exact SameRecords.refl s
    · split
      · have hstart : SameRecords s ((s.broadcastMsg .gameStart).inputFrmLineStart) :=
          ⟨⟨rfl, rfl, rfl⟩, rfl⟩
        exact hstart.trans (records_setRoomStatus _ _)
      · exact SameRecords.refl s

theorem records_onRcvPlayerReady (s : Room) (pid : Pid) :
    SameRecords s (s.onRcvPlayerReady pid) := by
  unfold Room.onRcvPlayerReady
  split
  · exact SameRecords.refl s
  · exact (records_checkLoadingReady _).after ⟨⟨rfl, rfl, rfl⟩, rfl⟩

theorem records_destroy (s : Room) : SameRecords s s.destroy := by
  have hstop := (records_setRoomStatus s .exited).trans (records_stopCheckAllLeft _)
  have hcount := hstop.trans (records_stopCountDown _)
  have hbroadcaster : SameRecords s
      (((s.setRoomStatus .exited).stopCheckAllLeft).stopCountDown).broadcasterExit :=
    hcount.trans ⟨⟨rfl, rfl, rfl⟩, rfl⟩
  have hexit : SameRecords s s.exit := hbroadcaster.trans (records_inputFrmLineExit _)
  unfold Room.destroy
  split
  · exact hexit.trans ⟨⟨rfl, rfl, rfl⟩, rfl⟩
  · exact hexit.trans ⟨⟨rfl, rfl, rfl⟩, rfl⟩

theorem records_setRoomInfo (s : Room) (token : String) (roomInfo : RoomInfo) :
    SameRecords s (s.setRoomInfo token roomInfo) := by
  unfold Room.setRoomInfo
  split
  · exact (records_setRoomStatus _ _).after ⟨⟨rfl, rfl, rfl⟩, rfl⟩
  · exact SameRecords.refl s

theorem players_statModelReEnter (s : Room) (pid : Pid) :
    SameSessions s (s.statModelReEnter pid) := by
  unfold Room.statModelReEnter
  split
  · exact SameSessions.refl s
  · split <;> exact ⟨rfl, rfl, rfl⟩

theorem players_onRcvHeroSelected (s : Room) (pid : Pid) (tid : Option LuaValue) :
    SameSessions s (s.onRcvHeroSelected pid tid) := by
  unfold Room.onRcvHeroSelected
  split <;> exact ⟨rfl, rfl, rfl⟩

theorem players_heroLoaded (s : Room) (playerData : Option (Table Pid LuaValue)) :
    SameSessions s (s.heroLoaded playerData) := by
  unfold Room.heroLoaded
  split <;> exact ⟨rfl, rfl, rfl⟩

theorem players_onRcvUploadStat (s : Room) (pid : Pid) (total : Total)
    (playerdataOrder cntlstOrder : List Pid) :
    SameSessions s (s.onRcvUploadStat pid total playerdataOrder cntlstOrder) := by
  unfold Room.onRcvUploadStat
  dsimp only
  split
  · split <;> exact ⟨rfl, rfl, rfl⟩
  · exact ⟨rfl, rfl, rfl⟩

theorem players_countedDown (s : Room) (info : RoomInfo) :
    SameSessions s (s.countedDown info).1 := by
  have hcounted :=
    ((records_stopCountDown s).trans (records_setRoomStatus _ .counted)).toSameSessions
  unfold Room.countedDown
  dsimp only
  split <;> exact hcounted.trans ⟨rfl, rfl, rfl⟩

theorem players_call (s : Room) (func : Callback) : SameSessions s (s.call func).1 := by
  cases func with
  | doCheck =>
      show SameSessions s s.doCheck.1
      unfold Room.doCheck
      split
      · exact SameSessions.refl s
      · dsimp only
        split <;> split <;> exact ⟨rfl, rfl, rfl⟩
  | countDown =>
      show SameSessions s s.onCountDown.1
      unfold Room.onCountDown
      split
      · exact SameSessions.refl s
      · dsimp only
        split
        · exact (players_countedDown _ _).after ⟨rfl, rfl, rfl⟩
        · exact ⟨rfl, rfl, rfl⟩
  | allLeft =>
      show SameSessions s s.onAllLeft.1
      unfold Room.onAllLeft
      dsimp only
      split
      · exact ((records_stopCheckAllLeft s).trans (records_destroy _)).toSameSessions
      · exact (records_stopCheckAllLeft s).toSameSessions
  | onFrame => exact SameSessions.refl s
  | checkFrameData => exact ⟨rfl, rfl, rfl⟩

theorem players_calls (funcs : List Callback) (s : Room) :
    SameSessions s (Room.calls funcs s) := by
  induction funcs generalizing s with
  | nil => exact SameSessions.refl s
  | cons func funcs ih =>
      have hcall := players_call s func
      unfold Room.calls
      split
      · next s' heq =>
        rw [heq] at hcall
        exact hcall.trans (ih s')
      · next s' heq =>
        rw [heq] at hcall
        exact hcall.trans ⟨rfl, rfl, rfl⟩

theorem players_runClocks (s : Room) : SameSessions s s.runClocks :=
  (players_calls _ _).after ⟨rfl, rfl, rfl⟩

/-! ## Connections -/

theorem online_addPlayer (online : s.Online) (pid : Pid) (token : String) (sid : Sid) :
    (s.addPlayer pid token sid).Online := by
  intro other otherSid hsession
  by_cases hother : other = pid
  · subst hother
    have hsid : (Function.update s.session other (some sid)) other = some otherSid := hsession
    rw [Function.update_self, Option.some_inj] at hsid
    exact ⟨_, AList.lookup_insert _, hsid, rfl⟩
  · have hold : (Function.update s.session pid (some sid)) other = some otherSid := hsession
    rw [Function.update_of_ne hother] at hold
    obtain ⟨player, hplayer, hrest⟩ := online other otherSid hold
    exact ⟨player, (AList.lookup_insert_ne hother).trans hplayer, hrest⟩

theorem online_playerEnter (online : s.Online) (pid : Pid) (token : String)
    (roomInfo : RoomInfo) (sid : Sid) : (s.playerEnter pid token roomInfo sid).1.Online := by
  have hinfo := (records_setRoomInfo s token roomInfo).toSameSessions.online online
  unfold Room.playerEnter
  dsimp only
  split
  · exact hinfo
  · have hadd := online_addPlayer ((players_statModelReEnter _ pid).online hinfo) pid token sid
    have hstart := (records_startCountDown _).toSameSessions.online hadd
    have hstop := (records_stopCheckAllLeft _).toSameSessions.online hstart
    exact (records_notifyOnlinePeers _).toSameSessions.online hstop

/-- What a disconnect does to the players and the statistics. -/
theorem records_dispatch_playerDisconnect {sid : Sid} {pid : Pid} {player : Player}
    (hsid : s.sids.lookup sid = some pid) (hplayer : s.players.lookup pid = some player) :
    SameRecords (s.setOffline sid pid player)
      (s.dispatch fun s => s.playerDisconnect sid) := by
  unfold Room.dispatch Room.playerDisconnect
  dsimp only
  rw [hsid]
  dsimp only
  rw [hplayer]
  dsimp only
  have hactive : SameRecords (s.setOffline sid pid player)
      (Room.setOffline { s with activetick := s.now } sid pid player) := ⟨⟨rfl, rfl, rfl⟩, rfl⟩
  by_cases hexited :
      (Room.setOffline { s with activetick := s.now } sid pid player).broadcasterExited = true
  · rw [if_pos hexited]
    exact hactive.trans (records_destroy _)
  · rw [if_neg hexited]
    dsimp only
    have hcheck := (hactive.trans (records_notifyOnlinePeers _)).trans (records_checkAllLeft _)
    split
    · exact hcheck
    · exact hcheck.trans (records_checkLoadingReady _)

theorem online_setOffline (online : s.Online) {sid : Sid} {pid : Pid} {player : Player}
    (hplayer : s.players.lookup pid = some player)
    (hcareful : player.sid = sid ∨ player.status = .offline) :
    (s.setOffline sid pid player).Online := by
  intro other otherSid hsession
  have hold : s.session other = some otherSid ∧ other ≠ pid := by
    unfold Room.setOffline at hsession
    dsimp only at hsession
    split at hsession
    · by_cases hother : other = pid
      · rw [hother, Function.update_self] at hsession
        cases hsession
      · rw [Function.update_of_ne hother] at hsession
        exact ⟨hsession, hother⟩
    · next hkept =>
      refine ⟨hsession, ?_⟩
      rintro rfl
      -- a session that has not ended is the one of the player, who is online
      obtain ⟨player', hplayer', hsid, hstatus⟩ := online other otherSid hsession
      rw [hplayer] at hplayer'
      cases hplayer'
      rcases hcareful with rfl | hoffline
      · exact hkept (hsession.trans (congrArg some hsid.symm))
      · rw [hstatus] at hoffline
        cases hoffline
  obtain ⟨player', hplayer', hrest⟩ := online other otherSid hold.1
  exact ⟨player', (AList.lookup_insert_ne hold.2).trans hplayer', hrest⟩

/-- A session without a player changes nothing. -/
theorem online_dispatch_playerDisconnect (online : s.Online) {sid : Sid}
    (hcareful : s.Careful (.playerDisconnect sid)) :
    (s.dispatch fun s => s.playerDisconnect sid).Online := by
  cases hsid : s.sids.lookup sid with
  | none =>
      have hdispatch : (s.dispatch fun s => s.playerDisconnect sid) =
          { s with activetick := s.now } := by
        unfold Room.dispatch Room.playerDisconnect
        dsimp only
        rw [hsid]
      rw [hdispatch]
      exact online
  | some pid =>
      cases hplayer : s.players.lookup pid with
      | none =>
          have hdispatch : (s.dispatch fun s => s.playerDisconnect sid) =
              Room.destroy { s with activetick := s.now } := by
            unfold Room.dispatch Room.playerDisconnect
            dsimp only
            rw [hsid]
            dsimp only
            rw [hplayer]
          rw [hdispatch]
          exact (records_destroy _).toSameSessions.online online
      | some player =>
          apply (records_dispatch_playerDisconnect hsid hplayer).toSameSessions.online
          apply online_setOffline online hplayer
          exact (hcareful pid hsid player hplayer).imp_right And.left

/-! ## Runs -/

theorem online_dispatch (online : s.Online) {handler : Room → Room × Bool}
    (hhandler : ∀ s, s.Online → (handler s).1.Online) : (s.dispatch handler).Online := by
  have hhandled := hhandler { s with activetick := s.now } online
  unfold Room.dispatch
  split
  · next s' hs' =>
    rw [hs'] at hhandled
    exact hhandled
  · next s' hs' =>
    rw [hs'] at hhandled
    exact (records_destroy _).toSameSessions.online hhandled

theorem online_handle (online : s.Online) {event : RoomEvent} (hcareful : s.Careful event)
    (hstep : s.handle event = some s') : s'.Online := by
  cases event with
  | tick elapsed =>
      cases hstep
      exact online
  | playerEnter pid token roomInfo sid =>
      cases hstep
      exact online_dispatch online fun s online =>
        online_playerEnter online pid token roomInfo sid
  | playerDisconnect sid =>
      cases hstep
      exact online_dispatch_playerDisconnect online hcareful
  | playerReady sender =>
      cases hstep
      exact online_dispatch online fun s online =>
        (records_onRcvPlayerReady s sender).toSameSessions.online online
  | heroSelected pid tid =>
      cases hstep
      exact online_dispatch online fun s online =>
        (players_onRcvHeroSelected s pid tid).online online
  | heroLoaded playerData =>
      obtain ⟨-, hstep⟩ := Option.ite_none_right_eq_some.mp hstep
      cases hstep
      exact (players_heroLoaded s playerData).online online
  | combatDetail sender frame detail =>
      cases hstep
      exact online_dispatch online fun s online => online
  | uploadStat sender total playerdataOrder cntlstOrder =>
      cases hstep
      exact online_dispatch online fun s online =>
        (players_onRcvUploadStat s sender total playerdataOrder cntlstOrder).online online
  | unknown =>
      cases hstep
      exact online_dispatch online fun s online => online
  | runClocks =>
      obtain ⟨-, hstep⟩ := Option.ite_none_right_eq_some.mp hstep
      cases hstep
      exact (players_runClocks s).online online
  | exitResumed =>
      obtain ⟨-, hstep⟩ := Option.ite_none_right_eq_some.mp hstep
      cases hstep
      exact fun pid sid hsession => nomatch hsession

theorem playerOffline_lookup (s : StatModel) (pid : Pid) :
    (s.playerOffline pid).playerdata.lookup pid = none := by
  unfold StatModel.playerOffline
  split
  · exact AList.lookup_erase _ _
  · next hnone => exact hnone

/-- A disconnect is harmless exactly when it is careful. -/
theorem harmless_iff {event : RoomEvent} (hstep : s.step event = some s') :
    Harmless s event s' ↔ s.Careful event := by
  unfold Room.step at hstep
  obtain ⟨-, hstep⟩ := Option.ite_none_left_eq_some.mp hstep
  cases event with
  | playerDisconnect sid =>
      have hrecords : ∀ pid player, s.sids.lookup sid = some pid →
          s.players.lookup pid = some player →
            s'.players.lookup pid = some { player with status := .offline } ∧
              s'.statModel.playerdata.lookup pid = none := by
        intro pid player hsid hplayer
        cases hstep
        have hsame := records_dispatch_playerDisconnect hsid hplayer
        rw [hsame.players, hsame.statModel]
        exact ⟨AList.lookup_insert _, playerOffline_lookup _ _⟩
      constructor
      · intro h pid hpid player hplayer
        obtain ⟨hplayer', hdata⟩ := hrecords pid player hpid hplayer
        by_cases hsid : player.sid = sid
        · exact .inl hsid
        · obtain ⟨⟨kept, hkept, hstatus⟩, hsameData⟩ := h sid pid player rfl hpid hplayer hsid
          rw [hplayer'] at hkept
          cases hkept
          rw [hdata] at hsameData
          exact .inr ⟨hstatus.symm, AList.lookup_eq_none.mp hsameData.symm⟩
      · intro h sid' pid player hevent hpid hplayer hne
        cases hevent
        obtain ⟨hplayer', hdata⟩ := hrecords pid player hpid hplayer
        rcases h pid hpid player hplayer with hsid | ⟨hoffline, hout⟩
        · exact absurd hsid hne
        · exact ⟨⟨_, hplayer', hoffline.symm⟩, hdata.trans (AList.lookup_eq_none.mpr hout).symm⟩
  | _ => exact ⟨fun _ => trivial, fun _ _ _ _ hevent => nomatch hevent⟩

/-- In every run whose disconnects are careful a player whose last session has not
ended is online.  There the end of a session that was replaced changes neither the
status of its player nor the statistics, and only careful disconnects do not. -/
theorem online_of_run {staResolve : Option CombatStat} {now : Nat} {events : List RoomEvent}
    (hrun : Run Room.step Room.Careful (Room.new staResolve now) events s) :
    s.Online ∧ ∀ event s', s.step event = some s' → (Harmless s event s' ↔ s.Careful event) := by
  have online : s.Online := by
    apply hrun.invariant
    · exact fun pid sid hsession => nomatch hsession
    · intro s event s' online hcareful hstep
      unfold Room.step at hstep
      exact online_handle online hcareful (Option.ite_none_left_eq_some.mp hstep).2
  exact ⟨online, fun event s' hstep => harmless_iff hstep⟩

end

/-! ## One player -/

/-- The player comes back after its first session has ended. -/
def comesBack : List RoomEvent :=
  [.playerEnter (.number 1) "token" duel 10, .playerDisconnect 10,
    .playerEnter (.number 1) "token" duel 11]

def comesBackEnd : Room :=
  (exec Room.step Room.Careful (Room.new none 0) comesBack).getD (Room.new none 0)

theorem online_comesBack :
    comesBackEnd.Online ∧ ∀ event s', comesBackEnd.step event = some s' →
      (Harmless comesBackEnd event s' ↔ comesBackEnd.Careful event) := by
  have hrun : Run Room.step Room.Careful (Room.new none 0) comesBack comesBackEnd :=
    run_exec_getD _ (by decide +kernel)
  exact online_of_run hrun

/-- The first session ends when the player is back already. -/
def endsLate : List RoomEvent :=
  [.playerEnter (.number 1) "token" duel 10, .playerEnter (.number 1) "token" duel 11,
    .playerDisconnect 10]

def endsLateEnd : Room :=
  (exec Room.step free (Room.new none 0) endsLate).getD (Room.new none 0)

/-- The player is offline, although its last session has not ended. -/
theorem not_online_endsLate :
    ¬ ∀ (events : List RoomEvent) (s : Room),
      Run Room.step free (Room.new none 0) events s → s.Online := by
  intro h
  have hrun : Run Room.step free (Room.new none 0) endsLate endsLateEnd :=
    run_exec_getD _ (by decide +kernel)
  have hsession : endsLateEnd.session (.number 1) = some 11 := by decide +kernel
  obtain ⟨player, hplayer, -, hstatus⟩ := h _ _ hrun _ _ hsession
  have hoffline : (endsLateEnd.players.lookup (.number 1)).map Player.status =
      some .offline := by decide +kernel
  rw [hplayer, Option.map_some, hstatus] at hoffline
  cases hoffline

end Combat
end ArmyRs
