import Mathlib.Data.List.AList
import Mathlib.Data.Rat.Defs

/-!
# Combat statistics of a room

Every client of a room computes the statistics of all players on its own and
reports them.  The room keeps what each player reports, as that player's view of
all the others: `playerdata[pid]` has for either side the statistics of the
players on it.

A Lua table is an association list without repeated keys.  The order of its
entries is one that `pairs` may take.  Two tables are the same when they hold the
same under every key (`Table.Same`).
-/

namespace ArmyRs
namespace Combat

/-- A value that is not a table. -/
inductive LuaValue
  | number (n : ℚ)
  | string (s : String)
  | boolean (b : Bool)
  deriving DecidableEq

abbrev Table (K V : Type*) := AList fun _ : K => V

abbrev Pid := LuaValue

/-- The statistics of one player: `kill`, `death`, `mvp_score` and so on. -/
abbrev PStat := Table LuaValue LuaValue

/-- What a client reports: the fields that have changed, by player. -/
abbrev Detail := Table Pid PStat

/-- The statistics of the players of one side. -/
structure Side where
  mvp : LuaValue
  pstats : Table Pid PStat

/-- The view of one player. -/
structure PlayerData where
  side0 : Side
  side1 : Side

/-- A seat of a room that is taken. -/
structure Seat where
  pid : Pid
  name : LuaValue
  tid : LuaValue

/-- The sides of a room; an empty seat is `-1`. -/
abbrev Members := List (List (Option Seat))

/-- The seats that are taken, with the number of their side. -/
def Members.seats (members : Members) : List (Nat × Seat) :=
  members.zipIdx.flatMap fun side =>
    side.1.filterMap fun seat => seat.map fun seat => (side.2, seat)

/-- The same under every key. -/
def Table.Same {K V : Type*} [DecidableEq K] (stat1 stat2 : Table K V) : Prop :=
  ∀ k, stat1.lookup k = stat2.lookup k

/-! ## The view of a player -/

/-- The statistics of a player at the start. -/
def initialPStat (seat : Seat) : PStat :=
  ([⟨.string "assist", .number 0⟩, ⟨.string "cs", .number 0⟩, ⟨.string "death", .number 0⟩,
    ⟨.string "dmg", .number 0⟩, ⟨.string "fmbl", .number 0⟩, ⟨.string "goal", .number 0⟩,
    ⟨.string "heal", .number 0⟩, ⟨.string "hsqj", .number 0⟩, ⟨.string "icon", .number 0⟩,
    ⟨.string "icon_frame", .number 0⟩, ⟨.string "kill", .number 0⟩,
    ⟨.string "mvp_score", .number 0⟩, ⟨.string "name", seat.name⟩, ⟨.string "pid", seat.pid⟩,
    ⟨.string "series_kill", .number 0⟩, ⟨.string "tdmg", .number 0⟩,
    ⟨.string "team", .number 0⟩, ⟨.string "tid", seat.tid⟩, ⟨.string "txws", .number 0⟩,
    ⟨.string "wjbc", .number 0⟩, ⟨.string "wl", .number 0⟩, ⟨.string "zzbs", .number 0⟩] :
    List (Sigma fun _ : LuaValue => LuaValue)).toAList

def emptySide : Side := ⟨.string "", ∅⟩

/-- `init_players`: the seat is put on its side. -/
def initPlayers (view : PlayerData) (sideindex : Nat) (seat : Seat) : PlayerData :=
  match sideindex with
  | 0 => { view with side0 :=
      { view.side0 with pstats := view.side0.pstats.insert seat.pid (initialPStat seat) } }
  | 1 => { view with side1 :=
      { view.side1 with pstats := view.side1.pstats.insert seat.pid (initialPStat seat) } }
  | _ => view

/-- Changes the statistics of a player on the side where it is. -/
def PlayerData.modify (view : PlayerData) (p : Pid) (change : PStat → PStat) : PlayerData :=
  match view.side0.pstats.lookup p with
  | some pstat => { view with side0 :=
      { view.side0 with pstats := view.side0.pstats.insert p (change pstat) } }
  | none =>
      match view.side1.pstats.lookup p with
      | some pstat => { view with side1 :=
          { view.side1 with pstats := view.side1.pstats.insert p (change pstat) } }
      | none => view

/-- The loops of `set_playerdata` over what was reported. -/
def PlayerData.set (view : PlayerData) (data : Detail) : PlayerData :=
  data.entries.foldl (fun view entry => entry.2.entries.foldl
    (fun view field => view.modify entry.1 fun pstat => pstat.insert field.1 field.2) view) view

/-- Whether anything is reported. -/
def Detail.hasFields (data : Detail) : Bool :=
  data.entries.any fun entry => !entry.2.entries.isEmpty

/-- `set_playerdata`: it is an error to set a field in the view of a player that
is not there. -/
def setPlayerdata (playerdata : Table Pid PlayerData) (pid : Pid) (data : Detail) :
    Option (Table Pid PlayerData) :=
  match playerdata.lookup pid with
  | some view => some (playerdata.insert pid (view.set data))
  | none => if data.hasFields then none else some playerdata

/-! ## The statistics of a combat -/

/-- What a client uploads at the end. -/
structure Total where
  token : Option LuaValue
  mtype : Option LuaValue
  ctype : Option LuaValue
  winner : Option LuaValue
  duration : Option LuaValue
  begintime : Option LuaValue
  enterType : Option LuaValue
  side0Mvp : Option LuaValue
  side1Mvp : Option LuaValue
  mvpScores : Option (Table Pid LuaValue)
  playerData : Option Detail

/-- One side in the statistics of a combat.  Lua compares tables by identity, so
a table that is compared has one: `ref` is the number under which it was made. -/
structure SideStat where
  ref : Nat
  side : Nat
  mvp : LuaValue
  pstats : List PStat

/-- The statistics of a combat as one player sees it. -/
structure CombatStat where
  token : Option LuaValue
  mtype : Option LuaValue
  ctype : Option LuaValue
  winner : Option LuaValue
  duration : Option LuaValue
  begintime : Option LuaValue
  enterType : Option LuaValue
  stats : List SideStat

/-- The view of a player with what it has uploaded at the end. -/
def PlayerData.finish (view : PlayerData) (total : Total) : PlayerData :=
  let view := { view with
    side0 := { view.side0 with mvp := total.side0Mvp.getD view.side0.mvp }
    side1 := { view.side1 with mvp := total.side1Mvp.getD view.side1.mvp } }
  let view := (total.mvpScores.getD ∅).entries.foldl
    (fun view score => view.modify score.1 fun pstat =>
      pstat.insert (.string "mvp_score") score.2) view
  view.set (total.playerData.getD ∅)

/-- The statistics on a side of the players that sit there. -/
def Side.collect (side : Side) (pids : List Pid) : List PStat :=
  pids.filterMap fun pid => side.pstats.lookup pid

/-- `getCombatStat` makes two tables for the sides, numbered from `ref`. -/
def getCombatStat (ref : Nat) (members : Members) (view : PlayerData) (total : Total) :
    PlayerData × CombatStat :=
  let view := view.finish total
  let pids := fun (onSide : Nat → Bool) =>
    (members.seats.filter fun seat => onSide seat.1).map fun seat => seat.2.pid
  (view,
    { token := total.token, mtype := total.mtype, ctype := total.ctype, winner := total.winner
      duration := total.duration, begintime := total.begintime, enterType := total.enterType
      stats :=
        [⟨ref, 0, view.side0.mvp, view.side0.collect (pids fun side => side = 0)⟩,
          ⟨ref + 1, 1, view.side1.mvp, view.side1.collect (pids fun side => side ≠ 0)⟩] })

end Combat
end ArmyRs
