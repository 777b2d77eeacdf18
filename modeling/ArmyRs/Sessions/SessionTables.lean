import ArmyRs.Foundation.Parties
import ArmyRs.Sessions.SessionManager

/-!
# The tables agree with the sessions

`Registered` says that a session in the table of players is registered under its id and
is that player's, in that zone; `PresenceHeld` that the server recorded for a player has
a session of his.

A session that logs in again as the same player is not taken out of the table: only his
presence is removed.  When the new login names another zone, the old entry stays.  And
the table of sessions is cleaned by id, also when another object has been registered
under that id in the meantime.  `Careful` excludes these two.
-/

namespace ArmyRs
namespace Sessions

open Foundation

/-- Every session in the table of players is registered and is the player's in the zone. -/
def Registered (c : Cluster) : Prop :=
  ∀ x zone uid r, (c.servers x).players zone uid = some r →
    ∃ session, (c.servers x).objects[r]? = some session ∧ session.playerId = some uid ∧
      session.zone = some zone ∧ (c.servers x).sessions session.id = some r

/-- The server that is recorded for a player has a session of his. -/
def PresenceHeld (c : Cluster) : Prop :=
  ∀ zone uid x, c.online zone uid = some x →
    ∃ r session, (c.servers x).players zone uid = some r ∧
      (c.servers x).objects[r]? = some session ∧ session.playerId = some uid

/-- The session that is registered under the id of this one, if it is in the table of
players, is there for the same player in the same zone. -/
def Alone (server : Server) (session : Session) : Prop :=
  ∀ r ∈ server.sessions session.id, ∀ other ∈ server.objects[r]?, ∀ zone ∈ other.zone,
    ∀ uid ∈ other.playerId, server.players zone uid = some r →
      session.zone = some zone ∧ session.playerId = some uid

/-- The session passes `validate_id_zone`. -/
def Validates (session : Session) : Prop :=
  ∃ uid ∈ session.playerId, 0 < uid ∧ ∃ zone ∈ session.zone, 0 < zone

/-- What an event has to meet.

* A session that is in the table of players does not log in again as the same player in
  another zone.
* When a session is logged out, unbound or put into the table of players, no other
  player's session is registered under its id. -/
def Careful (c : Cluster) : Event → Prop
  | .loginBegin x r cur zone => ∀ session ∈ c.idle x r,
      (∀ uid ∈ cur, session.playerId = some uid → ∀ old ∈ session.zone,
        (c.servers x).players old uid = some r → zone = old) ∧
      (session.playerId ≠ cur → Validates session → Alone (c.servers x) session)
  | .loginFinish x r accepted openZones => ∀ session ∈ (c.servers x).objects[r]?,
      ∀ zone ∈ session.loggingIn, 0 < zone → zone ≤ openZones → accepted →
        Alone (c.servers x) session
  | .logout x r => ∀ session ∈ c.idle x r, Validates session → Alone (c.servers x) session
  | .unbind x r => ∀ session ∈ c.idle x r, Validates session → Alone (c.servers x) session
  | _ => True

instance Alone.decidable (server : Server) (session : Session) :
    Decidable (Alone server session) :=
  inferInstanceAs (Decidable (∀ r ∈ (_ : Option Nat), ∀ other ∈ (_ : Option Session),
    ∀ zone ∈ (_ : Option Int), ∀ uid ∈ (_ : Option Nat), _ → _))

instance Validates.decidable (session : Session) : Decidable (Validates session) :=
  inferInstanceAs (Decidable (∃ uid ∈ (_ : Option Nat), _ ∧ ∃ zone ∈ (_ : Option Int), _))

instance Careful.decidable (c : Cluster) : (event : Event) → Decidable (Careful c event)
  | .loginBegin _ _ _ _ => inferInstanceAs (Decidable (∀ session ∈ (_ : Option Session),
      (∀ uid ∈ (_ : Option Nat), _ → ∀ old ∈ (_ : Option Int), _ → _) ∧ (_ → _ → _)))
  | .loginFinish _ _ _ _ => inferInstanceAs (Decidable (∀ session ∈ (_ : Option Session),
      ∀ zone ∈ (_ : Option Int), _ → _ → _ → _))
  | .logout _ _ => inferInstanceAs (Decidable (∀ session ∈ (_ : Option Session), _ → _))
  | .unbind _ _ => inferInstanceAs (Decidable (∀ session ∈ (_ : Option Session), _ → _))
  | .connect _ _ => isTrue trivial
  | .request _ _ => isTrue trivial
  | .kick _ _ _ => isTrue trivial
  | .cleanup _ _ => isTrue trivial
  | .removeOnline _ _ => isTrue trivial

/-! ## One server -/

/-- What holds of a server's tables. -/
structure Server.Kept (server : Server) : Prop where
  registered : ∀ zone uid r, server.players zone uid = some r →
    ∃ session, server.objects[r]? = some session ∧ session.playerId = some uid ∧
      session.zone = some zone ∧ server.sessions session.id = some r
  valid : ∀ zone uid r, server.players zone uid = some r → HasTable zone
  positive : ∀ session ∈ server.objects, ∀ uid ∈ session.playerId, 0 < uid

namespace Server

variable {server : Server} {zone zone' : Int} {uid uid' : Nat} {r r' sid : Nat} {o : Option Nat}
  {session : Session}

theorem setPlayer_players_self : (server.setPlayer zone uid o).players zone uid = o := by
  simp [setPlayer]

theorem setPlayer_players_of_ne (h : ¬(zone' = zone ∧ uid' = uid)) :
    (server.setPlayer zone uid o).players zone' uid' = server.players zone' uid' := by
  by_cases hzone : zone' = zone
  · subst hzone
    have huid : uid' ≠ uid := fun heq => h ⟨rfl, heq⟩
    simp [setPlayer, huid]
  · simp [setPlayer, hzone]

/-- An entry that is still there after another one was taken out. -/
theorem players_of_setPlayer_none (h : (server.setPlayer zone uid none).players zone' uid' =
    some r) : ¬(zone' = zone ∧ uid' = uid) ∧ server.players zone' uid' = some r := by
  by_cases heq : zone' = zone ∧ uid' = uid
  · obtain ⟨rfl, rfl⟩ := heq
    rw [setPlayer_players_self] at h
    cases h
  · exact ⟨heq, by rwa [setPlayer_players_of_ne heq] at h⟩

/-- The entry of a session tells its player and zone. -/
theorem Kept.entry_unique (h : server.Kept) (hr : server.players zone uid = some r)
    (hr' : server.players zone' uid' = some r) : zone' = zone ∧ uid' = uid := by
  obtain ⟨session, hsession, huid, hzone, -⟩ := h.registered zone uid r hr
  obtain ⟨session', hsession', huid', hzone', -⟩ := h.registered zone' uid' r hr'
  rw [hsession] at hsession'
  cases hsession'
  rw [huid] at huid'
  rw [hzone] at hzone'
  exact ⟨(Option.some.inj hzone').symm, (Option.some.inj huid').symm⟩

/-- Two sessions in the table of players have different ids. -/
theorem Kept.eq_of_id {session' : Session} (h : server.Kept)
    (hr : server.players zone uid = some r) (hsession : server.objects[r]? = some session)
    (hr' : server.players zone' uid' = some r') (hsession' : server.objects[r']? = some session')
    (hid : session'.id = session.id) : zone' = zone ∧ uid' = uid := by
  obtain ⟨_, hobject, -, -, hsessions⟩ := h.registered zone uid r hr
  obtain ⟨_, hobject', -, -, hsessions'⟩ := h.registered zone' uid' r' hr'
  rw [hsession] at hobject
  rw [hsession'] at hobject'
  cases hobject
  cases hobject'
  rw [hid, hsessions] at hsessions'
  cases hsessions'
  exact h.entry_unique hr hr'

/-- A session that is not registered under its id, or registered for the same player. -/
theorem Kept.place_of_alone (h : server.Kept) {session' : Session} (halone : Alone server session)
    (hr' : server.players zone' uid' = some r') (hsession' : server.objects[r']? = some session')
    (hid : session'.id = session.id) :
    session.zone = some zone' ∧ session.playerId = some uid' := by
  obtain ⟨_, hobject, huid, hzone, hsessions⟩ := h.registered zone' uid' r' hr'
  rw [hsession'] at hobject
  cases hobject
  exact halone r' (hid ▸ hsessions) session' hsession' zone' hzone uid' huid hr'

/-- A session object is changed: in the table of players it has to be what its entry says. -/
theorem Kept.setObject (h : server.Kept)
    (hentry : ∀ zone uid, server.players zone uid = some r →
      session.playerId = some uid ∧ session.zone = some zone ∧
        server.sessions session.id = some r)
    (hpositive : ∀ uid ∈ session.playerId, 0 < uid) : (server.setObject r session).Kept where
  registered := by
    intro zone uid r' hr'
    by_cases hr : r' = r
    · subst hr
      obtain ⟨old, hold, -⟩ := h.registered zone uid r' hr'
      have hlt := (List.getElem?_eq_some_iff.mp hold).1
      exact ⟨session, by simp [Server.setObject, hlt], hentry zone uid hr'⟩
    · obtain ⟨old, hold, hrest⟩ := h.registered zone uid r' hr'
      exact ⟨old, by simpa [Server.setObject, List.getElem?_set_ne (Ne.symm hr)] using hold, hrest⟩
  valid := h.valid
  positive := forall_set h.positive hpositive

/-- A new session object. -/
theorem Kept.addObject (h : server.Kept) (sid : Nat) :
    Server.Kept { server with objects := server.objects ++ [Session.new sid] } where
  registered := by
    intro zone uid r hr
    obtain ⟨old, hold, hrest⟩ := h.registered zone uid r hr
    have hlt := (List.getElem?_eq_some_iff.mp hold).1
    exact ⟨old, by simpa [List.getElem?_append_left hlt] using hold, hrest⟩
  valid := h.valid
  positive := by
    intro session hsession
    rcases List.mem_append.mp hsession with hold | hnew
    · exact h.positive session hold
    · rw [List.mem_singleton.mp hnew]
      simp [Session.new]

/-- An entry of the table of sessions is changed: that of no session in the table of
players. -/
theorem Kept.setSession (h : server.Kept)
    (hfree : ∀ zone uid r session, server.players zone uid = some r →
      server.objects[r]? = some session → session.id ≠ sid) : (server.setSession sid o).Kept where
  registered := by
    intro zone uid r hr
    obtain ⟨session, hsession, huid, hzone, hsessions⟩ := h.registered zone uid r hr
    refine ⟨session, hsession, huid, hzone, ?_⟩
    simpa [Server.setSession, hfree zone uid r session hr hsession] using hsessions
  valid := h.valid
  positive := h.positive

/-- A player is taken out, together with his session. -/
theorem Kept.removed (h : server.Kept) (hr : server.players zone uid = some r)
    (hsession : server.objects[r]? = some session) :
    ((server.setPlayer zone uid none).setSession session.id none).Kept := by
  have hout : (server.setPlayer zone uid none).Kept :=
    { registered := fun zone' uid' r' hr' =>
        h.registered zone' uid' r' (players_of_setPlayer_none hr').2
      valid := fun zone' uid' r' hr' => h.valid zone' uid' r' (players_of_setPlayer_none hr').2
      positive := h.positive }
  apply hout.setSession
  intro zone' uid' r' session' hr' hsession' hid
  obtain ⟨hne, hold⟩ := players_of_setPlayer_none hr'
  exact hne (h.eq_of_id hr hsession hold hsession' hid)

theorem takeOut_objects : (server.takeOut uid zone).objects = server.objects := by
  unfold takeOut
  split
  · rfl
  · split
    · rfl
    · rfl

theorem takeOut_players :
    (server.takeOut uid zone).players = (server.setPlayer zone uid none).players := by
  unfold takeOut
  split
  · next hnone =>
    funext zone' uid'
    by_cases heq : zone' = zone ∧ uid' = uid
    · obtain ⟨rfl, rfl⟩ := heq
      rw [setPlayer_players_self, hnone]
    · rw [setPlayer_players_of_ne heq]
  · split
    · rfl
    · rfl

theorem sessions_of_takeOut (h : (server.takeOut uid zone).sessions sid = some r) :
    server.sessions sid = some r := by
  unfold takeOut at h
  split at h
  · exact h
  · split at h
    · exact h
    · next session _ =>
      by_cases hid : sid = session.id
      · simp [setSession, hid] at h
      · simpa [setSession, setPlayer, hid] using h

/-- Whoever is alone stays alone. -/
theorem alone_takeOut (h : Alone server session) (uid : Nat) (zone : Int) :
    Alone (server.takeOut uid zone) session := by
  intro r hr other hother zone' hzone' uid' huid' hplayer
  rw [takeOut_objects] at hother
  rw [takeOut_players] at hplayer
  exact h r (sessions_of_takeOut hr) other hother zone' hzone' uid' huid'
    (players_of_setPlayer_none hplayer).2

theorem Kept.takeOut (h : server.Kept) (uid : Nat) (zone : Int) :
    (server.takeOut uid zone).Kept := by
  unfold Server.takeOut
  split
  · exact h
  · next r hr =>
    obtain ⟨session, hsession, -⟩ := h.registered zone uid r hr
    rw [hsession]
    exact h.removed hr hsession

/-- A session is put into the table of players. -/
theorem Kept.added (h : server.Kept) (hsession : server.objects[r]? = some session)
    (huid : session.playerId = some uid) (hzone : session.zone = some zone)
    (htable : HasTable zone)
    (hfree : ∀ zone' uid' r' session', server.players zone' uid' = some r' →
      server.objects[r']? = some session' → session'.id = session.id →
        zone' = zone ∧ uid' = uid) :
    ((server.setSession session.id (some r)).setPlayer zone uid (some r)).Kept where
  registered := by
    intro zone' uid' r' hr'
    by_cases heq : zone' = zone ∧ uid' = uid
    · obtain ⟨rfl, rfl⟩ := heq
      rw [setPlayer_players_self] at hr'
      cases hr'
      exact ⟨session, hsession, huid, hzone, by simp [Server.setPlayer, Server.setSession]⟩
    · rw [setPlayer_players_of_ne heq] at hr'
      obtain ⟨other, hother, huid', hzone', hsessions⟩ := h.registered zone' uid' r' hr'
      have hid : other.id ≠ session.id := fun hid => heq (hfree zone' uid' r' other hr' hother hid)
      refine ⟨other, hother, huid', hzone', ?_⟩
      simpa [Server.setPlayer, Server.setSession, hid] using hsessions
  valid := by
    intro zone' uid' r' hr'
    by_cases heq : zone' = zone ∧ uid' = uid
    · obtain ⟨rfl, rfl⟩ := heq
      exact htable
    · rw [setPlayer_players_of_ne heq] at hr'
      exact h.valid zone' uid' r' hr'
  positive := h.positive

end Server

/-! ## All servers -/

/-- What the events keep. -/
structure Cluster.Kept (c : Cluster) : Prop where
  servers : ∀ x, (c.servers x).Kept
  held : ∀ zone uid x, c.online zone uid = some x → (c.servers x).players zone uid ≠ none

namespace Cluster

variable {c c' : Cluster} {x r sid uid : Nat} {zone : Int} {server : Server} {session : Session}

theorem kept_new : Cluster.Kept .new where
  servers := fun _ =>
    { registered := by simp [Cluster.new, Server.new]
      valid := by simp [Cluster.new, Server.new]
      positive := by simp [Cluster.new, Server.new] }
  held := by simp [Cluster.new]

theorem Kept.registered (h : c.Kept) : Registered c :=
  fun x => (h.servers x).registered

theorem Kept.presenceHeld (h : c.Kept) : PresenceHeld c := by
  intro zone uid x honline
  obtain ⟨r, hr⟩ := Option.ne_none_iff_exists'.mp (h.held zone uid x honline)
  obtain ⟨session, hsession, huid, -⟩ := (h.servers x).registered zone uid r hr
  exact ⟨r, session, hr, hsession, huid⟩

@[simp]
theorem setServer_servers_self : (c.setServer x server).servers x = server := by
  simp [setServer]

theorem setServer_servers_of_ne {y : Nat} (h : y ≠ x) :
    (c.setServer x server).servers y = c.servers y := by
  simp [setServer, h]

/-- A server changes; whoever is recorded there stays there. -/
theorem Kept.setServer (h : c.Kept) (hserver : server.Kept)
    (hplayers : ∀ zone uid, c.online zone uid = some x → server.players zone uid ≠ none) :
    (c.setServer x server).Kept where
  servers := by
    intro y
    by_cases hy : y = x
    · subst hy
      simpa using hserver
    · rw [setServer_servers_of_ne hy]
      exact h.servers y
  held := by
    intro zone uid y honline
    by_cases hy : y = x
    · subst hy
      simpa using hplayers zone uid honline
    · rw [setServer_servers_of_ne hy]
      exact h.held zone uid y honline

/-- The same, when the table of players is as it was. -/
theorem Kept.setServer_same (h : c.Kept) (hserver : server.Kept)
    (hplayers : server.players = (c.servers x).players) : (c.setServer x server).Kept := by
  apply h.setServer hserver
  intro zone uid honline
  rw [hplayers]
  exact h.held zone uid x honline

theorem Kept.setObject (h : c.Kept)
    (hentry : ∀ zone uid, (c.servers x).players zone uid = some r →
      session.playerId = some uid ∧ session.zone = some zone ∧
        (c.servers x).sessions session.id = some r)
    (hpositive : ∀ uid ∈ session.playerId, 0 < uid) : (c.setObject x r session).Kept :=
  h.setServer_same ((h.servers x).setObject hentry hpositive) rfl

/-- A presence is removed. -/
theorem Kept.setOffline (h : c.Kept) (zone : Int) (uid : Nat) :
    (c.setOnline zone uid none).Kept where
  servers := h.servers
  held := by
    intro zone' uid' y honline
    by_cases hzone : zone' = zone
    · subst hzone
      by_cases huid : uid' = uid
      · subst huid
        simp [setOnline] at honline
      · exact h.held zone' uid' y (by simpa [setOnline, huid] using honline)
    · exact h.held zone' uid' y (by simpa [setOnline, hzone] using honline)

/-! ### The operations of `SessionManager` -/

/-- A player who is forced out is not recorded any more either. -/
theorem Kept.forceRemovePlayer (h : c.Kept) (x uid : Nat) (zone : Int) :
    (c.forceRemovePlayer x uid zone).Kept := by
  have hserver := (h.servers x).takeOut uid zone
  apply (h.setOffline zone uid).setServer hserver
  intro zone' uid' honline
  have hne : ¬(zone' = zone ∧ uid' = uid) := by
    rintro ⟨rfl, rfl⟩
    simp [setOnline] at honline
  rw [Server.takeOut_players, Server.setPlayer_players_of_ne hne]
  apply h.held zone' uid' x
  by_cases hzone : zone' = zone
  · subst hzone
    have huid : uid' ≠ uid := fun heq => hne ⟨rfl, heq⟩
    simpa [setOnline, huid] using honline
  · simpa [setOnline, hzone] using honline

/-- What `remove_player` leaves of the tables of the server: no session with the id. -/
structure Removes (server next : Server) (sid : Nat) : Prop where
  objects : next.objects = server.objects
  players : ∀ zone uid r, next.players zone uid = some r → server.players zone uid = some r ∧
    ∀ session, server.objects[r]? = some session → session.id ≠ sid

/-- `remove_player` keeps the tables when a session with the id can only be in the place
that is looked at. -/
theorem Kept.removePlayer (h : c.Kept)
    (hplace : ∀ zone' uid' r session, (c.servers x).players zone' uid' = some r →
      (c.servers x).objects[r]? = some session → session.id = sid → zone' = zone ∧ uid' = uid)
    (hremove : c.removePlayer x uid zone sid = some c') :
    c'.Kept ∧ Removes (c.servers x) (c'.servers x) sid := by
  -- when the place is empty or has another session, no session has the id
  have hforget : (∀ zone' uid' r session, (c.servers x).players zone' uid' = some r →
      (c.servers x).objects[r]? = some session → session.id ≠ sid) →
      (c.setServer x ((c.servers x).setSession sid none)).Kept ∧ Removes (c.servers x)
        ((c.setServer x ((c.servers x).setSession sid none)).servers x) sid := by
    intro hfree
    constructor
    · exact h.setServer_same ((h.servers x).setSession hfree) rfl
    · rw [setServer_servers_self]
      exact ⟨rfl, fun zone' uid' r hr => ⟨hr, fun session => hfree zone' uid' r session hr⟩⟩
  unfold Cluster.removePlayer at hremove
  split at hremove
  · dsimp only at hremove
    split at hremove
    · next hnone =>
      cases hremove
      apply hforget
      intro zone' uid' r session hr hsession hid
      obtain ⟨rfl, rfl⟩ := hplace zone' uid' r session hr hsession hid
      rw [hr] at hnone
      simp [hsession] at hnone
    · next found hfound =>
      obtain ⟨r, hr, hobject⟩ := Option.bind_eq_some_iff.mp hfound
      split at hremove
      · next hid =>
        cases hremove
        refine ⟨h.forceRemovePlayer x uid zone, ?_⟩
        have hserver : (c.forceRemovePlayer x uid zone).servers x =
            (c.servers x).takeOut uid zone := setServer_servers_self
        rw [hserver]
        refine ⟨Server.takeOut_objects, ?_⟩
        intro zone' uid' r' hr'
        rw [Server.takeOut_players] at hr'
        obtain ⟨hne, hold⟩ := Server.players_of_setPlayer_none hr'
        exact ⟨hold, fun session hsession hid' =>
          hne (hplace zone' uid' r' session hold hsession hid')⟩
      · next hid =>
        cases hremove
        apply hforget
        intro zone' uid' r' session hr' hsession hid'
        obtain ⟨rfl, rfl⟩ := hplace zone' uid' r' session hr' hsession hid'
        rw [hr] at hr'
        cases hr'
        rw [hobject] at hsession
        cases hsession
        exact hid hid'
  · cases hremove

/-- `unbind` takes the session out of the table of players. -/
theorem Kept.unbind (h : c.Kept) (hsession : (c.servers x).objects[r]? = some session)
    (halone : Validates session → Alone (c.servers x) session)
    (hunbind : c.unbind x session = some c') :
    c'.Kept ∧ (c'.servers x).objects = (c.servers x).objects ∧
      ∀ zone uid, (c'.servers x).players zone uid ≠ some r := by
  -- a session in the table is the one of its player, and so passes the check
  have hentry : ∀ zone uid, (c.servers x).players zone uid = some r →
      session.playerId = some uid ∧ session.zone = some zone ∧ 0 < uid ∧ 0 < zone := by
    intro zone uid hr
    obtain ⟨other, hother, huid, hzone, -⟩ := (h.servers x).registered zone uid r hr
    rw [hsession] at hother
    cases hother
    have htable := ((h.servers x).valid zone uid r hr).1
    exact ⟨huid, hzone, (h.servers x).positive session (List.mem_of_getElem? hsession) uid huid,
      by omega⟩
  unfold Cluster.unbind at hunbind
  split at hunbind
  · next uid zone huid hzone =>
    split at hunbind
    · next hvalid =>
      obtain ⟨hkept, hremoves⟩ := h.removePlayer (by
        intro zone' uid' r' other hr' hother hid
        obtain ⟨hzone', huid'⟩ := (h.servers x).place_of_alone
          (halone ⟨uid, huid, hvalid.1, zone, hzone, hvalid.2⟩) hr' hother hid
        rw [hzone] at hzone'
        rw [huid] at huid'
        exact ⟨(Option.some.inj hzone').symm, (Option.some.inj huid').symm⟩) hunbind
      refine ⟨hkept, hremoves.objects, ?_⟩
      intro zone' uid' hr
      exact (hremoves.players zone' uid' r hr).2 session hsession rfl
    · next hinvalid =>
      cases hunbind
      refine ⟨h, rfl, ?_⟩
      intro zone' uid' hr
      obtain ⟨huid', hzone', hpositive⟩ := hentry zone' uid' hr
      rw [huid] at huid'
      rw [hzone] at hzone'
      cases huid'
      cases hzone'
      exact hinvalid hpositive
  · next hnone =>
    cases hunbind
    refine ⟨h, rfl, ?_⟩
    intro zone uid hr
    obtain ⟨huid, hzone, -⟩ := hentry zone uid hr
    exact hnone uid zone huid hzone

/-- `Logout`: the session is in no place of the table, and has no player. -/
theorem Kept.logout (h : c.Kept) (hsession : (c.servers x).objects[r]? = some session)
    (halone : Validates session → Alone (c.servers x) session)
    (hlogout : c.logout x r session = some c') :
    c'.Kept ∧ ∀ zone uid, (c'.servers x).players zone uid ≠ some r := by
  unfold Cluster.logout at hlogout
  split at hlogout
  · cases hlogout
  · next middle hunbind =>
    cases hlogout
    obtain ⟨hkept, -, hout⟩ := h.unbind hsession halone hunbind
    constructor
    · apply hkept.setObject
      · exact fun zone uid hr => absurd hr (hout zone uid)
      · simp
    · intro zone uid hr
      apply hout zone uid
      simpa [Cluster.setObject, Server.setObject] using hr

/-- A player is put into the table and recorded. -/
theorem Kept.register (h : c.Kept) (hsession : (c.servers x).objects[r]? = some session)
    (huid : session.playerId = some uid) (hzone : session.zone = some zone)
    (htable : HasTable zone) (halone : Alone (c.servers x) session) :
    ((c.setServer x (((c.servers x).setSession session.id (some r)).setPlayer zone uid
      (some r))).setOnline zone uid (some x)).Kept := by
  have hserver := (h.servers x).added hsession huid hzone htable (by
    intro zone' uid' r' other hr' hother hid
    obtain ⟨hzone', huid'⟩ := (h.servers x).place_of_alone halone hr' hother hid
    rw [hzone] at hzone'
    rw [huid] at huid'
    exact ⟨(Option.some.inj hzone').symm, (Option.some.inj huid').symm⟩)
  have hset : (c.setServer x (((c.servers x).setSession session.id (some r)).setPlayer zone uid
      (some r))).Kept := by
    apply h.setServer hserver
    intro zone' uid' honline
    by_cases heq : zone' = zone ∧ uid' = uid
    · obtain ⟨rfl, rfl⟩ := heq
      rw [Server.setPlayer_players_self]
      exact Option.some_ne_none r
    · rw [Server.setPlayer_players_of_ne heq]
      exact h.held zone' uid' x honline
  constructor
  · exact hset.servers
  · intro zone' uid' y honline
    by_cases heq : zone' = zone ∧ uid' = uid
    · obtain ⟨rfl, rfl⟩ := heq
      obtain rfl : x = y := by simpa [setOnline] using honline
      simp [setOnline, Server.setPlayer]
    · apply hset.held zone' uid' y
      by_cases hzone' : zone' = zone
      · subst hzone'
        have huid' : uid' ≠ uid := fun heq' => heq ⟨rfl, heq'⟩
        simpa [setOnline, huid'] using honline
      · simpa [setOnline, hzone'] using honline

/-- `add_player`. -/
theorem Kept.addPlayer (h : c.Kept) (hsession : (c.servers x).objects[r]? = some session)
    (halone : Alone (c.servers x) session)
    (hadd : c.addPlayer x uid zone r session = some c') : c'.Kept := by
  unfold Cluster.addPlayer at hadd
  split at hadd
  · next hfits =>
    obtain ⟨huid, hzone, htable⟩ := hfits
    cases hadd
    split
    · exact h.register hsession huid hzone htable halone
    · split
      · next hother =>
        have hserver : (c.forceRemovePlayer x uid zone).servers x =
            (c.servers x).takeOut uid zone := setServer_servers_self
        apply (h.forceRemovePlayer x uid zone).register _ huid hzone htable
        · rw [hserver]
          exact Server.alone_takeOut halone uid zone
        · rw [hserver, Server.takeOut_objects]
          exact hsession
      · exact h.register hsession huid hzone htable halone
  · cases hadd

/-- `delete_session`. -/
theorem Kept.deleteSession (h : c.Kept) (hdelete : c.deleteSession x sid = some c') : c'.Kept := by
  -- a session in the table of players that has the id is the one that is looked at
  have hlooked : ∀ zone uid r session, (c.servers x).players zone uid = some r →
      (c.servers x).objects[r]? = some session → session.id = sid →
        ((c.servers x).sessions sid).bind (fun r => (c.servers x).objects[r]?) = some session ∧
          session.playerId = some uid ∧ session.zone = some zone ∧ 0 < zone := by
    intro zone uid r session hr hsession hid
    obtain ⟨other, hother, huid, hzone, hsessions⟩ := (h.servers x).registered zone uid r hr
    rw [hsession] at hother
    cases hother
    have htable := ((h.servers x).valid zone uid r hr).1
    refine ⟨?_, huid, hzone, by omega⟩
    rw [← hid, hsessions]
    exact hsession
  have hforget : (∀ zone uid r session, (c.servers x).players zone uid = some r →
      (c.servers x).objects[r]? = some session → session.id ≠ sid) →
      (c.setServer x ((c.servers x).setSession sid none)).Kept :=
    fun hfree => h.setServer_same ((h.servers x).setSession hfree) rfl
  unfold Cluster.deleteSession at hdelete
  dsimp only at hdelete
  split at hdelete
  · cases hdelete
    exact h
  · next session hfound =>
    split at hdelete
    · next uid zone huid hzone =>
      split at hdelete
      · apply (h.removePlayer _ hdelete).1
        intro zone' uid' r' session' hr' hsession' hid
        obtain ⟨hsame, huid', hzone', -⟩ := hlooked zone' uid' r' session' hr' hsession' hid
        rw [hfound] at hsame
        cases hsame
        rw [huid] at huid'
        rw [hzone] at hzone'
        exact ⟨(Option.some.inj hzone').symm, (Option.some.inj huid').symm⟩
      · next hnegative =>
        cases hdelete
        apply hforget
        intro zone' uid' r' session' hr' hsession' hid
        obtain ⟨hsame, -, hzone', hpositive⟩ := hlooked zone' uid' r' session' hr' hsession' hid
        rw [hfound] at hsame
        cases hsame
        rw [hzone] at hzone'
        cases hzone'
        exact hnegative hpositive
    · next hnone =>
      cases hdelete
      apply hforget
      intro zone' uid' r' session' hr' hsession' hid
      obtain ⟨hsame, huid', hzone', -⟩ := hlooked zone' uid' r' session' hr' hsession' hid
      rw [hfound] at hsame
      cases hsame
      exact hnone uid' zone' huid' hzone'

/-! ### Logins -/

/-- A session in no place of the table of players is free to change. -/
theorem Kept.setObject_out (h : c.Kept) (hout : ∀ zone uid, (c.servers x).players zone uid ≠ some r)
    (hpositive : ∀ uid ∈ session.playerId, 0 < uid) : (c.setObject x r session).Kept :=
  h.setObject (fun zone uid hr => absurd hr (hout zone uid)) hpositive

/-- The last of two changes of an object counts. -/
theorem setObject_setObject (c : Cluster) (x r : Nat) (first session : Session) :
    (c.setObject x r first).setObject x r session = c.setObject x r session := by
  simp [Cluster.setObject, setServer, Server.setObject]

/-- A login takes the session over.  When it is in the table of players, it is there for
the same player, and the zone is the same. -/
theorem Kept.loginBegin {cur : Option Nat} (h : c.Kept)
    (hsession : (c.servers x).objects[r]? = some session)
    (hzone : ∀ uid ∈ cur, session.playerId = some uid → ∀ old ∈ session.zone,
      (c.servers x).players old uid = some r → zone = old)
    (halone : session.playerId ≠ cur → Validates session → Alone (c.servers x) session)
    (hlogin : c.loginBegin x cur zone r session = some c') : c'.Kept := by
  have hentry : ∀ zone uid, (c.servers x).players zone uid = some r →
      session.playerId = some uid ∧ session.zone = some zone ∧
        (c.servers x).sessions session.id = some r := by
    intro zone uid hr
    obtain ⟨other, hother, hrest⟩ := (h.servers x).registered zone uid r hr
    rw [hsession] at hother
    cases hother
    exact hrest
  unfold Cluster.loginBegin at hlogin
  split at hlogin
  · cases hlogin
  · next hreserved =>
    have hpositive : ∀ uid ∈ cur, 0 < uid := by
      intro uid huid
      by_contra hzero
      exact hreserved ⟨uid, huid, by omega⟩
    split at hlogin
    · cases hlogin
    · next middle left hbefore =>
      unfold commonBefore at hbefore
      split at hbefore
      · -- nobody was logged in
        next hnone =>
        cases hbefore
        split at hlogin
        · cases hlogin
          exact h
        · cases hlogin
          apply h.setObject_out
          · intro zone uid hr
            rw [(hentry zone uid hr).1] at hnone
            cases hnone
          · simpa using hpositive
      · next prev hprev =>
        split at hbefore
        · -- the same player again
          next hsame =>
          subst hsame
          have hagain : (c.setObject x r { session with
              playerId := some prev, zone := some zone, loggingIn := some zone }).Kept := by
            apply h.setObject
            · intro zone' uid' hr
              obtain ⟨huid', hzone', hsessions⟩ := hentry zone' uid' hr
              rw [hprev] at huid'
              cases huid'
              exact ⟨rfl, congrArg some (hzone prev rfl hprev zone' hzone' hr), hsessions⟩
            · simpa using hpositive
          dsimp only at hbefore hlogin
          split at hbefore
          · cases hbefore
            cases hlogin
            rw [setObject_setObject]
            exact hagain
          · cases hbefore
            cases hlogin
            have hcommute := hagain.setOffline ‹Int› prev
            rw [← setObject_setObject c x r { session with playerId := none }] at hcommute
            exact hcommute
        · -- another player, or nobody: the session is logged out
          next hother =>
          have hne : session.playerId ≠ cur := by
            rw [hprev]
            exact Ne.symm hother
          split at hbefore
          · cases hbefore
          · next middle hlogout =>
            cases hbefore
            obtain ⟨hkept, hout⟩ := h.logout hsession (halone hne) hlogout
            split at hlogin
            · cases hlogin
              exact hkept
            · cases hlogin
              apply hkept.setObject_out hout
              simpa using hpositive

/-- The player is put into the table, or refused. -/
theorem Kept.loginFinish {accepted : Bool} {openZones : Int} (h : c.Kept)
    (hsession : (c.servers x).objects[r]? = some session)
    (halone : 0 < zone → zone ≤ openZones → accepted → Alone (c.servers x) session) :
    (c.loginFinish x accepted openZones zone r session).Kept := by
  have hlt := (List.getElem?_eq_some_iff.mp hsession).1
  have hdone : (c.setObject x r { session with loggingIn := none }).Kept := by
    apply h.setObject
    · intro zone uid hr
      obtain ⟨other, hother, hrest⟩ := (h.servers x).registered zone uid r hr
      rw [hsession] at hother
      cases hother
      exact hrest
    · exact (h.servers x).positive session (List.mem_of_getElem? hsession)
  have hobject : ((c.setObject x r { session with loggingIn := none }).servers x).objects[r]? =
      some { session with loggingIn := none } := by
    simp [Cluster.setObject, Server.setObject, hlt]
  unfold Cluster.loginFinish
  dsimp only
  split
  · exact hdone
  · next uid huid =>
    split
    · next hpasses =>
      obtain ⟨hpositive, hopen, haccepted⟩ := hpasses
      cases hadd : (c.setObject x r { session with loggingIn := none }).addPlayer x uid zone r
        { session with loggingIn := none } with
      | none => exact hdone
      | some c' =>
          apply hdone.addPlayer hobject _ hadd
          intro r' hr' other hother zone' hzone' uid' huid' hplayer
          have hsame := halone hpositive hopen haccepted
          simp only [Cluster.setObject, setServer_servers_self, Server.setObject]
            at hr' hother hplayer
          rcases getElem?_set_some hother with ⟨-, rfl⟩ | ⟨-, hold⟩
          · exact ⟨hzone', huid'⟩
          · exact hsame r' hr' other hold zone' hzone' uid' huid' hplayer
    · exact hdone

/-! ## Runs -/

theorem idle_eq_some (h : c.idle x r = some session) :
    (c.servers x).objects[r]? = some session := by
  unfold Cluster.idle at h
  split at h
  · cases h
  · next found hfound =>
    split at h
    · cases h
      exact hfound
    · cases h

/-- What an operation leaves when it may raise. -/
theorem Kept.getD {o : Option Cluster} (h : c.Kept) (hsome : ∀ c', o = some c' → c'.Kept) :
    (o.getD c).Kept := by
  cases o with
  | none => exact h
  | some c' => exact hsome c' rfl

theorem Kept.step {event : Event} (h : c.Kept) (hcareful : Careful c event)
    (hstep : Sessions.step c event = some c') : c'.Kept := by
  cases event with
  | connect x sid =>
      cases hstep
      exact h.setServer_same ((h.servers x).addObject sid) rfl
  | request x sid =>
      dsimp only [Sessions.step] at hstep
      split at hstep
      · cases hstep
        exact h
      · next hnone =>
        cases hstep
        refine h.setServer_same (((h.servers x).addObject sid).setSession ?_) rfl
        -- a session in the table of players is registered, and this id is not
        intro zone uid r session hr hsession hid
        obtain ⟨other, hother, -, -, hsessions⟩ :=
          ((h.servers x).addObject sid).registered zone uid r hr
        rw [hsession] at hother
        cases hother
        rw [hid] at hsessions
        exact Option.some_ne_none r (hsessions.symm.trans hnone)
  | loginBegin x r cur zone =>
      dsimp only [Sessions.step] at hstep
      split at hstep
      · cases hstep
      · next session hidle =>
        cases hstep
        obtain ⟨hzone, halone⟩ := hcareful session hidle
        exact h.getD fun c' hlogin => h.loginBegin (idle_eq_some hidle) hzone halone hlogin
  | loginFinish x r accepted openZones =>
      dsimp only [Sessions.step] at hstep
      split at hstep
      · cases hstep
      · next session hsession =>
        split at hstep
        · cases hstep
        · next zone hzone =>
          cases hstep
          exact h.loginFinish hsession (hcareful session hsession zone hzone)
  | logout x r =>
      dsimp only [Sessions.step] at hstep
      split at hstep
      · cases hstep
      · next session hidle =>
        cases hstep
        exact h.getD fun c' hlogout =>
          (h.logout (idle_eq_some hidle) (hcareful session hidle) hlogout).1
  | unbind x r =>
      dsimp only [Sessions.step] at hstep
      split at hstep
      · cases hstep
      · next session hidle =>
        cases hstep
        exact h.getD fun c' hunbind =>
          (h.unbind (idle_eq_some hidle) (hcareful session hidle) hunbind).1
  | kick x uid zone =>
      cases hstep
      split
      · exact h.setOffline zone uid
      · exact h
  | cleanup x sid =>
      cases hstep
      exact h.getD fun c' hdelete => h.deleteSession hdelete
  | removeOnline uid zone =>
      cases hstep
      exact h.setOffline zone uid

end Cluster

/-- In every run of events that meet the condition, the tables agree with the sessions
and the recorded servers have a session of the player. -/
theorem registered_of_run {events : List Event} {c : Cluster}
    (hrun : Run step Careful .new events c) : Registered c ∧ PresenceHeld c := by
  have hkept : c.Kept :=
    hrun.invariant Cluster.kept_new fun _ _ _ h hcareful hstep => h.step hcareful hstep
  exact ⟨hkept.registered, hkept.presenceHeld⟩

/-- A player logs in on two servers and on a second connection of the first, comes back
as another player, is kicked and leaves. -/
def comesAndGoes : List Event :=
  [.request 0 7, .loginBegin 0 0 (some 10000001) 1, .loginFinish 0 0 true 10,
    .connect 1 3, .loginBegin 1 0 (some 10000001) 1, .loginFinish 1 0 true 10,
    .request 0 8, .loginBegin 0 1 (some 10000001) 1, .loginFinish 0 1 true 10,
    .loginBegin 0 1 (some 10000001) 1, .loginFinish 0 1 true 10,
    .loginBegin 0 1 (some 10000002) 2, .loginFinish 0 1 true 10,
    .kick 1 10000001 1, .unbind 1 0, .cleanup 0 8]

theorem registered_comesAndGoes :
    Registered ((exec step Careful .new comesAndGoes).getD .new) ∧
      PresenceHeld ((exec step Careful .new comesAndGoes).getD .new) := by
  have hrun : Run step Careful .new comesAndGoes
      ((exec step Careful .new comesAndGoes).getD .new) :=
    run_exec_getD Cluster.new (by decide +kernel)
  exact registered_of_run hrun

/-- A player logs in again on the same session, in another zone. -/
def otherZone : List Event :=
  [.request 0 7, .loginBegin 0 0 (some 10000001) 1, .loginFinish 0 0 true 10,
    .loginBegin 0 0 (some 10000001) 2, .loginFinish 0 0 true 10]

theorem not_registered_otherZone :
    Run step free .new otherZone ((exec step free .new otherZone).getD .new) ∧
      ¬ Registered ((exec step free .new otherZone).getD .new) := by
  refine ⟨run_exec_getD Cluster.new (by decide +kernel), ?_⟩
  intro hregistered
  obtain ⟨session, hsession, -, hzone, -⟩ := hregistered 0 1 10000001 0 (by decide +kernel)
  have hother : ((((exec step free .new otherZone).getD .new).servers 0).objects[0]?).map
      Session.zone = some (some 2) := by decide +kernel
  rw [hsession, Option.map_some, hzone] at hother
  revert hother
  decide

end Sessions
end ArmyRs
