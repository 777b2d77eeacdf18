import ArmyRs.Combat.CombatStatItem
import ArmyRs.Foundation.Transition

/-!
# Combat servers

The data server allocates a combat to the combat server with the least payload.
The payload is a counter in Redis: `GET_SERVER` increments it on the data server,
and the maintenance service of the combat server decrements it when the room
manager has removed the room.

`allocated` records the combats that were allocated to a server since its
registration and whose removal is not over; nothing reads it.  A removal by
`remove_room` is over when its `releasePayload` has run, one by the periodic clear
at once.
-/

namespace ArmyRs
namespace Combat

/-- A server is named by its address and port. -/
abbrev Srv := String

/-- A combat is named by the id of its room. -/
abbrev Token := String

inductive SrvStatus
  | disable
  | enable
  deriving DecidableEq

structure CombatInfo where
  timestamp : Nat
  creator : Pid

/-- The room manager and the maintenance service of a combat server. -/
structure CombatServer where
  running : Bool
  serverStarted : Bool
  /-- Calls of `start` that wait for Redis. -/
  starting : Nat
  keepAlive : Bool
  combats : Table Token CombatInfo
  roomcount : Int
  /-- Calls of `remove_room` that wait for Redis. -/
  removing : List Token
  /-- Messages `releasePayload` that are on their way. -/
  releases : List Token

/-- The tables in Redis, and the servers. -/
structure Cluster where
  status : Table Srv SrvStatus
  count : Table Srv Int
  tick : Table Srv Int
  servers : Srv → CombatServer
  allocated : Srv → List Token

/-- A process before its start, or when it has just been started. -/
def CombatServer.fresh (running : Bool) : CombatServer where
  running := running
  serverStarted := false
  starting := 0
  keepAlive := false
  combats := ∅
  roomcount := 0
  removing := []
  releases := []

def Cluster.new : Cluster where
  status := ∅
  count := ∅
  tick := ∅
  servers := fun _ => CombatServer.fresh false
  allocated := fun _ => []

def Cluster.setServer (s : Cluster) (srv : Srv) (server : CombatServer) : Cluster :=
  { s with servers := Function.update s.servers srv server }

def Cluster.setAllocated (s : Cluster) (srv : Srv) (tokens : List Token) : Cluster :=
  { s with allocated := Function.update s.allocated srv tokens }

/-! ## Allocation -/

/-- The first loop of `GET_SERVER`. -/
def refreshStatus (now : Int) (tick : Table Srv Int) (status : Table Srv SrvStatus) :
    Table Srv SrvStatus :=
  tick.entries.foldl (fun status entry =>
    status.insert entry.1 (if 10 < now - entry.2 then .disable else .enable)) status

/-- One round of the last loop.  The counters are strings there, and they are
compared as strings. -/
def lessPayload (status : Table Srv SrvStatus) (min : Option (Srv × Int)) (entry : Srv × Int) :
    Option (Srv × Int) :=
  if status.lookup entry.1 = some .enable then
    match min with
    | none => some entry
    | some min => if toString entry.2 < toString min.2 then some entry else some min
  else min

/-- `GET_SERVER`, with the order in which `hgetall` answers. -/
def Cluster.getServer (s : Cluster) (token : Token) (now : Int) (order : List Srv) : Cluster :=
  let status := refreshStatus now s.tick s.status
  let counts := order.filterMap fun srv => (s.count.lookup srv).map fun count => (srv, count)
  let s := { s with status := status }
  match counts.foldl (lessPayload status) none with
  | none => s
  | some (srv, min) =>
      { s with count := s.count.insert srv (min + 1) }.setAllocated srv (token :: s.allocated srv)

/-! ## The maintenance service -/

/-- `registerServer` -/
def Cluster.registerServer (s : Cluster) (srv : Srv) : Cluster :=
  ({ s with
      status := s.status.insert srv .enable
      count := s.count.insert srv 0
      tick := s.tick.insert srv 0 }.setAllocated srv []).setServer srv
    { s.servers srv with keepAlive := true }

/-- `unregisterServer` -/
def Cluster.unregisterServer (s : Cluster) (srv : Srv) : Cluster :=
  if (s.servers srv).serverStarted then
    { s with
      status := s.status.erase srv
      count := s.count.erase srv
      tick := s.tick.erase srv }.setServer srv { s.servers srv with keepAlive := false }
  else s

/-- `releasePayload`: a script that finds no counter fails. -/
def Cluster.releasePayload (s : Cluster) (srv : Srv) : Cluster :=
  match s.count.lookup srv with
  | none => s
  | some count =>
      { s with count := s.count.insert srv (if count - 1 < 0 then 0 else count - 1) }

/-- The servers without a sign of life for five seconds. -/
def Cluster.timeoutServers (s : Cluster) (now : Int) : List Srv :=
  (s.tick.entries.filter fun entry => decide (5 ≤ now - entry.2)).map Sigma.fst

/-- `clearTimeoutServers` -/
def Cluster.clearTimeoutServers (s : Cluster) (now : Int) : Cluster :=
  let srvs := s.timeoutServers now
  { s with
    status := srvs.foldl (fun status srv => status.erase srv) s.status
    count := srvs.foldl (fun count srv => count.erase srv) s.count
    tick := srvs.foldl (fun tick srv => tick.erase srv) s.tick }

/-! ## The room manager -/

/-- `get_room`; a room is made for a player that has not been in one. -/
def CombatServer.getRoom (server : CombatServer) (pid : Pid) (token : Token) (entered : Bool)
    (now : Nat) : CombatServer :=
  match server.combats.lookup token with
  | some _ => server
  | none =>
      if entered then server
      else
        { server with
          combats := server.combats.insert token ⟨now, pid⟩
          roomcount := server.roomcount + 1 }

/-- `remove_room`, up to where it waits for Redis. -/
def CombatServer.removeRoom (server : CombatServer) (token : Token) : CombatServer :=
  if token ∈ server.combats then { server with removing := token :: server.removing }
  else server

/-- The rest of `remove_room`. -/
def CombatServer.roomRemoved (server : CombatServer) (token : Token) : CombatServer :=
  { server with
    combats := server.combats.erase token
    roomcount := server.roomcount - 1
    removing := server.removing.erase token
    releases := server.releases ++ [token] }

/-- The rooms that are older than an hour. -/
def CombatServer.timedOut (server : CombatServer) (now : Nat) : List Token :=
  (server.combats.entries.filter fun entry =>
    decide (360000 ≤ now - entry.2.timestamp)).map Sigma.fst

/-- `checkClearPeriodic` -/
def CombatServer.checkClearPeriodic (server : CombatServer) (now : Nat) : CombatServer :=
  let toRemove := server.timedOut now
  { server with
    combats := toRemove.foldl (fun combats token => combats.erase token) server.combats
    roomcount := server.roomcount - toRemove.length }

/-! ## Runs -/

inductive ClusterEvent
  | getServer (token : Token) (now : Int) (order : List Srv)
  /-- The process of a server is started, maybe again. -/
  | boot (srv : Srv)
  | start (srv : Srv) (now : Int)
  | startResumed (srv : Srv)
  | registerServer (srv : Srv)
  | unregisterServer (srv : Srv)
  | clearTimeoutServers (srv : Srv) (now : Int)
  | keepAlive (srv : Srv) (now : Int)
  | getRoom (srv : Srv) (pid : Pid) (token : Token) (entered : Bool) (now : Nat)
  | removeRoom (srv : Srv) (token : Token)
  | roomRemoved (srv : Srv) (token : Token)
  | releasePayload (srv : Srv) (token : Token)
  | checkClearPeriodic (srv : Srv) (now : Nat)

/-- A step of a server that is running. -/
def Cluster.onServer (s : Cluster) (srv : Srv) (next : CombatServer → Cluster) : Option Cluster :=
  if (s.servers srv).running then some (next (s.servers srv)) else none

def Cluster.step (s : Cluster) : ClusterEvent → Option Cluster
  | .getServer token now order =>
      if order.Perm s.count.keys then some (s.getServer token now order) else none
  | .boot srv => some (s.setServer srv (CombatServer.fresh true))
  | .start srv now =>
      s.onServer srv fun server =>
        if server.serverStarted then s
        else (s.clearTimeoutServers now).setServer srv
          { server with starting := server.starting + 1 }
  | .startResumed srv =>
      if 0 < (s.servers srv).starting then
        s.onServer srv fun server => (s.registerServer srv).setServer srv
          { server with keepAlive := true, starting := server.starting - 1, serverStarted := true }
      else none
  | .registerServer srv => s.onServer srv fun _ => s.registerServer srv
  | .unregisterServer srv => s.onServer srv fun _ => s.unregisterServer srv
  | .clearTimeoutServers srv now => s.onServer srv fun _ => s.clearTimeoutServers now
  | .keepAlive srv now =>
      if (s.servers srv).keepAlive then
        s.onServer srv fun _ => { s with tick := s.tick.insert srv now }
      else none
  | .getRoom srv pid token entered now =>
      s.onServer srv fun server => s.setServer srv (server.getRoom pid token entered now)
  | .removeRoom srv token =>
      s.onServer srv fun server => s.setServer srv (server.removeRoom token)
  | .roomRemoved srv token =>
      if token ∈ (s.servers srv).removing then
        s.onServer srv fun server => s.setServer srv (server.roomRemoved token)
      else none
  | .releasePayload srv token =>
      if token ∈ (s.servers srv).releases then
        s.onServer srv fun server =>
          ((s.releasePayload srv).setAllocated srv ((s.allocated srv).erase token)).setServer srv
            { server with releases := server.releases.erase token }
      else none
  | .checkClearPeriodic srv now =>
      s.onServer srv fun server =>
        (s.setAllocated srv ((s.allocated srv).diff (server.timedOut now))).setServer srv
          (server.checkClearPeriodic now)

end Combat
end ArmyRs
