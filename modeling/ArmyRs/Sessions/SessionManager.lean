import ArmyRs.Foundation.Transition

/-!
# Sessions and players of the servers

Every server keeps two tables: `sessions` by session id and, for each zone, `players`
by player id.  Which server a player is on is recorded in Redis, in a hash for each
zone that all servers write.

A session is an object that the tables refer to, and its player and its zone are
changed by the handlers.  An object can outlive its entry: when the id of a request is
not in the table, the dispatcher makes another object with that id.

The requests of a session are worked off one after the other, and registering is done
under the login lock of the zone.  A login is two steps: it takes the session over
for the player, and after its checks it registers the player or refuses him.  All
other operations are one step each, with the Redis commands that they wait for.
-/

namespace ArmyRs
namespace Sessions

/-- `RsSession`, as far as the tables go.  The player is missing before a login
(`'$noauth$'`) and after a logout.  `loggingIn` is the zone of a login at work. -/
structure Session where
  id : Nat
  playerId : Option Nat
  zone : Option Int
  loggingIn : Option Int
  deriving DecidableEq, Repr

def Session.new (id : Nat) : Session where
  id := id
  playerId := none
  zone := some 0
  loggingIn := none

/-- The session objects of a server, and its tables of references to them. -/
structure Server where
  objects : List Session
  sessions : Nat → Option Nat
  players : Int → Nat → Option Nat

def Server.new : Server where
  objects := []
  sessions := fun _ => none
  players := fun _ _ => none

/-- `MAX_ZONES`. -/
def maxZones : Int := 5000

/-- `UserHelper::RESERVED_ID_RANGE`. -/
def reservedIdRange : Nat := 10000000

/-- There is a table for the zone. -/
def HasTable (zone : Int) : Prop :=
  1 ≤ zone ∧ zone ≤ maxZones

instance HasTable.decidable (zone : Int) : Decidable (HasTable zone) :=
  inferInstanceAs (Decidable (_ ∧ _))

namespace Server

/-- `session.player_id = …; session.zone = …`. -/
def setObject (server : Server) (r : Nat) (session : Session) : Server :=
  { server with objects := server.objects.set r session }

/-- `@@sessions[sid] = session`. -/
def setSession (server : Server) (sid : Nat) (r : Option Nat) : Server :=
  { server with sessions := Function.update server.sessions sid r }

/-- `@@players[zone][uid] = session`. -/
def setPlayer (server : Server) (zone : Int) (uid : Nat) (r : Option Nat) : Server :=
  { server with
    players := Function.update server.players zone (Function.update (server.players zone) uid r) }

/-- `table.delete(uid)`, and `@@sessions.delete(sid)` for the session found. -/
def takeOut (server : Server) (uid : Nat) (zone : Int) : Server :=
  match server.players zone uid with
  | none => server
  | some r =>
      match server.objects[r]? with
      | none => server.setPlayer zone uid none
      | some session => (server.setPlayer zone uid none).setSession session.id none

end Server

/-- All servers, and the Redis hashes `clients:zone`. -/
structure Cluster where
  servers : Nat → Server
  online : Int → Nat → Option Nat

def Cluster.new : Cluster where
  servers := fun _ => .new
  online := fun _ _ => none

namespace Cluster

variable (c : Cluster) (x : Nat)

def setServer (server : Server) : Cluster :=
  { c with servers := Function.update c.servers x server }

/-- `hset` and `hdel` of `players_zone_key(zone)`. -/
def setOnline (zone : Int) (uid : Nat) (server : Option Nat) : Cluster :=
  { c with
    online := Function.update c.online zone (Function.update (c.online zone) uid server) }

/-- `force_remove_player`, for a zone that has a table. -/
def forceRemovePlayer (uid : Nat) (zone : Int) : Cluster :=
  (c.setServer x ((c.servers x).takeOut uid zone)).setOnline zone uid none

/-- `remove_player`; it raises when the zone has no table. -/
def removePlayer (uid : Nat) (zone : Int) (sid : Nat) : Option Cluster :=
  if HasTable zone then
    let server := c.servers x
    match (server.players zone uid).bind fun r => server.objects[r]? with
    | none => some (c.setServer x (server.setSession sid none))
    | some session =>
        if session.id = sid then some (c.forceRemovePlayer x uid zone)
        else some (c.setServer x (server.setSession sid none))
  else none

/-- `add_player`; it raises when the session is not that of the player in the zone and
when the zone has no table. -/
def addPlayer (uid : Nat) (zone : Int) (r : Nat) (session : Session) : Option Cluster :=
  if session.playerId = some uid ∧ session.zone = some zone ∧ HasTable zone then
    let cleared :=
      match ((c.servers x).players zone uid).bind fun r => (c.servers x).objects[r]? with
      | none => c
      | some old => if old.id ≠ session.id then c.forceRemovePlayer x uid zone else c
    let server := cleared.servers x
    some ((cleared.setServer x
      ((server.setSession session.id (some r)).setPlayer zone uid (some r))).setOnline zone uid
        (some x))
  else none

/-- `delete_session`; it raises when the session's zone has no table. -/
def deleteSession (sid : Nat) : Option Cluster :=
  let server := c.servers x
  match (server.sessions sid).bind fun r => server.objects[r]? with
  | none => some c
  | some session =>
      match session.playerId, session.zone with
      | some uid, some zone =>
          if 0 < zone then c.removePlayer x uid zone sid
          else some (c.setServer x (server.setSession sid none))
      | _, _ => some (c.setServer x (server.setSession sid none))

/-- `unbind` of the connection delegate: `validate_id_zone`, then `remove_player`. -/
def unbind (session : Session) : Option Cluster :=
  match session.playerId, session.zone with
  | some uid, some zone =>
      if 0 < uid ∧ 0 < zone then c.removePlayer x uid zone session.id else some c
  | _, _ => some c

/-- A session object is changed. -/
def setObject (r : Nat) (session : Session) : Cluster :=
  c.setServer x ((c.servers x).setObject r session)

/-- `Logout`. -/
def logout (r : Nat) (session : Session) : Option Cluster :=
  match c.unbind x session with
  | none => none
  | some c => some (c.setObject x r { session with playerId := none, zone := none })

/-- `common_before` of `Login`: the cluster and the session after it. -/
def commonBefore (cur : Option Nat) (r : Nat) (session : Session) :
    Option (Cluster × Session) :=
  match session.playerId with
  | none => some (c, session)
  | some prev =>
      if cur = some prev then
        let left := { session with playerId := none }
        match session.zone with
        | none => some (c.setObject x r left, left)
        | some zone => some ((c.setObject x r left).setOnline zone prev none, left)
      else
        match c.logout x r session with
        | none => none
        | some c => some (c, { session with playerId := none, zone := none })

/-- `Login` up to its checks.  `cur` is the user whose password was given, if any; a
user id in the reserved range raises. -/
def loginBegin (cur : Option Nat) (zone : Int) (r : Nat) (session : Session) : Option Cluster :=
  if ∃ uid ∈ cur, uid ≤ reservedIdRange then none
  else
    match c.commonBefore x cur r session with
    | none => none
    | some (c, session) =>
        match cur with
        | none => some c
        | some uid =>
            some (c.setObject x r
              { session with playerId := some uid, zone := some zone, loggingIn := some zone })

/-- The rest of `Login`: the zone has to be open, and none of the other checks may
refuse the player.  What `add_player` raises is rescued. -/
def loginFinish (accepted : Bool) (openZones : Int) (zone : Int) (r : Nat) (session : Session) :
    Cluster :=
  let done := { session with loggingIn := none }
  let c := c.setObject x r done
  match session.playerId with
  | none => c
  | some uid =>
      if 0 < zone ∧ zone ≤ openZones ∧ accepted then (c.addPlayer x uid zone r done).getD c else c

end Cluster

/-! ## Events -/

inductive Event
  /-- A connection of `GameServer`. -/
  | connect (server sid : Nat)
  /-- A request that reaches `RpcDispatcher`: `get_session`. -/
  | request (server sid : Nat)
  | loginBegin (server r : Nat) (cur : Option Nat) (zone : Int)
  | loginFinish (server r : Nat) (accepted : Bool) (openZones : Int)
  | logout (server r : Nat)
  /-- A connection that is closed. -/
  | unbind (server r : Nat)
  /-- A message on the channel `m:uid`.  The id is a part of the channel's name, a string
  that no key of a table equals; in Redis it is the same field. -/
  | kick (server uid : Nat) (zone : Int)
  /-- A session that `cleanup_inactive_sessions` finds inactive. -/
  | cleanup (server sid : Nat)
  /-- `remove_online`, as the tools use it. -/
  | removeOnline (uid : Nat) (zone : Int)
  deriving DecidableEq, Repr

/-- The session object of a request that is worked off now: no login of it is at work. -/
def Cluster.idle (c : Cluster) (x r : Nat) : Option Session :=
  match (c.servers x).objects[r]? with
  | none => none
  | some session => if session.loggingIn = none then some session else none

def step (c : Cluster) : Event → Option Cluster
  | .connect x sid =>
      some (c.setServer x
        { c.servers x with objects := (c.servers x).objects ++ [Session.new sid] })
  | .request x sid =>
      match (c.servers x).sessions sid with
      | some _ => some c
      | none =>
          some (c.setServer x
            ({ c.servers x with objects := (c.servers x).objects ++ [Session.new sid] }.setSession
              sid (some (c.servers x).objects.length)))
  | .loginBegin x r cur zone =>
      match c.idle x r with
      | none => none
      | some session => some ((c.loginBegin x cur zone r session).getD c)
  | .loginFinish x r accepted openZones =>
      match (c.servers x).objects[r]? with
      | none => none
      | some session =>
          match session.loggingIn with
          | none => none
          | some zone => some (c.loginFinish x accepted openZones zone r session)
  | .logout x r =>
      match c.idle x r with
      | none => none
      | some session => some ((c.logout x r session).getD c)
  | .unbind x r =>
      match c.idle x r with
      | none => none
      | some session => some ((c.unbind x session).getD c)
  | .kick _ uid zone => some (if HasTable zone then c.setOnline zone uid none else c)
  | .cleanup x sid => some ((c.deleteSession x sid).getD c)
  | .removeOnline uid zone => some (c.setOnline zone uid none)

end Sessions
end ArmyRs
