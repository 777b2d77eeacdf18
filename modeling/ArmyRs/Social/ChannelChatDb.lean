import Mathlib.Data.Finset.Card
import Mathlib.Data.Rat.Init
import Mathlib.Logic.Function.Basic
import ArmyRs.Foundation.Decimals

/-!
# Chat channels

`ChannelChatDb` keeps, for each zone, a list of the keys of its channels and under
each key a hash of the players in the channel.  A key ends with the channel id that
a client has named, as a text, and is given here by this text; a request that names
none leaves it empty.

`add_player2` puts a player into the channel that he names, or else into the first
empty channel behind the world channel, or else into a new one, and answers with a
channel id.  For an empty channel that id is the position in the list, and for a
new one the length of the list with the new channel; these are the ids of the keys
as long as the key at each position has the number of the position.  The key of a
new channel is the key that was named with another number at its end, so that it
gets no number when the named id does not end with one.
-/

namespace ArmyRs
namespace Social

open Foundation

/-- How a named id is read as a number. -/
structure Readings where
  /-- Lua's `tonumber` -/
  tonumber : String → Option ℚ
  /-- `String#to_i` -/
  toI : String → Int

/-- `channel_ids_key` and the `channel_key`s of a zone. -/
structure ChannelChatDb where
  chIds : List String
  channels : String → Finset String

def ChannelChatDb.new : ChannelChatDb where
  chIds := []
  channels := fun _ => ∅

/-- `fieldPlayer`. -/
def fieldPlayer (pid zone : String) : String :=
  pid ++ zone

/-- `channel_key` of an id. -/
def channelKey (chId : Int) : String :=
  toString chId

namespace ChannelChatDb

/-- `hset` of a player. -/
def hset (db : ChannelChatDb) (key field : String) : ChannelChatDb :=
  { db with channels := Function.update db.channels key (insert field (db.channels key)) }

/-- The loop that looks for a usable channel, from the position `i` on. -/
def findEmpty (channels : String → Finset String) : Nat → List String → Option (Nat × String)
  | _, [] => none
  | i, key :: keys =>
      if i ≠ 1 ∧ (channels key).card = 0 then some (i, key)
      else findEmpty channels (i + 1) keys

/-- The script `ADD_PLAYER_TWO`, with the channel id that `add_player2` makes of its
answer. -/
def addPlayer2 (readings : Readings) (db : ChannelChatDb) (chId zone pid : String) :
    Int × ChannelChatDb :=
  let field := fieldPlayer pid zone
  if readings.tonumber chId ≠ some 0 ∧ chId ∈ db.chIds then
    (readings.toI chId, if field ∈ db.channels chId then db else db.hset chId field)
  else
    match findEmpty db.channels 1 db.chIds with
    | some (i, key) => (i, db.hset key field)
    | none =>
        let chIndex := db.chIds.length + 1
        -- `string.gsub(keyChOld, '%d+$', chIndex)`
        let keyCh := replaceNumber chId chIndex
        (chIndex, { db with chIds := db.chIds ++ [keyCh] }.hset keyCh field)

/-- The script `DEL_PLAYER`. -/
def delPlayer (db : ChannelChatDb) (chId zone pid : String) : ChannelChatDb :=
  { db with
    channels := Function.update db.channels chId ((db.channels chId).erase (fieldPlayer pid zone)) }

/-- The script `DEL_CH_ID`. -/
def delChannelId (db : ChannelChatDb) (chId : String) : ChannelChatDb where
  chIds := db.chIds.filter fun key => key ≠ chId
  channels := Function.update db.channels chId ∅

/-- The script `DEL_ALLPLAYER`. -/
def delAllPlayer (db : ChannelChatDb) : ChannelChatDb where
  chIds := []
  channels := fun key => if key ∈ db.chIds then ∅ else db.channels key

end ChannelChatDb

/-- A step with the id as its caller names it. -/
inductive ChannelEvent
  | addPlayer2 (chId pid : String)
  | delPlayer (chId pid : String)
  | delChannelId (chId : String)
  | delAllPlayer
  deriving DecidableEq, Repr

/-- The channels of a zone after an event. -/
def ChannelChatDb.event (readings : Readings) (zone : String) (db : ChannelChatDb) :
    ChannelEvent → ChannelChatDb
  | .addPlayer2 chId pid => (db.addPlayer2 readings chId zone pid).2
  | .delPlayer chId pid => db.delPlayer chId zone pid
  | .delChannelId chId => db.delChannelId chId
  | .delAllPlayer => db.delAllPlayer

/-- The channels of a zone after some events. -/
def ChannelChatDb.events (readings : Readings) (zone : String) (db : ChannelChatDb)
    (events : List ChannelEvent) : ChannelChatDb :=
  events.foldl (ChannelChatDb.event readings zone) db

variable {readings : Readings} {zone : String}

/-! ## What the answer should be -/

/-- The id names the channel that holds the player, and the id of a channel that is
created is no channel's id. -/
def NamesItsChannel (readings : Readings) (zone : String) (db : ChannelChatDb)
    (chId pid : String) : Prop :=
  fieldPlayer pid zone ∈ (db.addPlayer2 readings chId zone pid).2.channels
      (channelKey (db.addPlayer2 readings chId zone pid).1) ∧
    ((db.addPlayer2 readings chId zone pid).2.chIds ≠ db.chIds →
      channelKey (db.addPlayer2 readings chId zone pid).1 ∉ db.chIds)

/-- A channel that the player names has the key of the number that is read.  Without
one, the first empty channel behind the world channel is at the position of its
number; and when no channel is empty, the named id is a numeral, and the number
behind the number of channels is free.  Instead of the key it is enough that the
player is in the channel of the answer already. -/
def Placed (readings : Readings) (zone : String) (db : ChannelChatDb) (chId pid : String) : Prop :=
  let field := fieldPlayer pid zone
  if readings.tonumber chId ≠ some 0 ∧ chId ∈ db.chIds then
    channelKey (readings.toI chId) = chId ∨ field ∈ db.channels (channelKey (readings.toI chId))
  else
    match ChannelChatDb.findEmpty db.channels 1 db.chIds with
    | some (i, key) => channelKey i = key ∨ field ∈ db.channels (channelKey i)
    | none =>
        (IsNumeral chId ∨ field ∈ db.channels (channelKey (db.chIds.length + 1 : Nat))) ∧
          channelKey (db.chIds.length + 1 : Nat) ∉ db.chIds

section

variable {db : ChannelChatDb} {key other field : String}

@[simp] theorem channelKey_natCast (n : Nat) : channelKey n = toString n := rfl

@[simp] theorem hset_chIds : (db.hset key field).chIds = db.chIds := rfl

/-- A player that is put into a channel is in it, and otherwise where he was. -/
theorem mem_hset :
    field ∈ (db.hset key field).channels other ↔ other = key ∨ field ∈ db.channels other := by
  unfold ChannelChatDb.hset
  by_cases heq : other = key
  · subst heq
    simp
  · simp [heq]

end

/-- A player who is put into a channel is named rightly exactly when he is placed
so. -/
theorem namesItsChannel_iff_placed (readings : Readings) (zone : String) (db : ChannelChatDb)
    (chId pid : String) :
    NamesItsChannel readings zone db chId pid ↔ Placed readings zone db chId pid := by
  unfold NamesItsChannel Placed ChannelChatDb.addPlayer2
  dsimp only
  by_cases hjoin : readings.tonumber chId ≠ some 0 ∧ chId ∈ db.chIds
  · rw [if_pos hjoin, if_pos hjoin]
    dsimp only
    split
    · next hpresent =>
      -- the player is in the channel that he names
      simp only [ne_eq, not_true_eq_false, false_implies, and_true]
      constructor
      · exact .inr
      · rintro (hkey | hmem)
        · rw [hkey]
          exact hpresent
        · exact hmem
    · rw [mem_hset, hset_chIds]
      simp only [ne_eq, not_true_eq_false, false_implies, and_true]
  · rw [if_neg hjoin, if_neg hjoin]
    cases hempty : ChannelChatDb.findEmpty db.channels 1 db.chIds with
    | some pair =>
        obtain ⟨i, key⟩ := pair
        dsimp only
        rw [mem_hset, hset_chIds]
        simp only [ne_eq, not_true_eq_false, false_implies, and_true]
    | none =>
        dsimp only
        rw [mem_hset, hset_chIds, channelKey_natCast, eq_comm, replaceNumber_eq_iff]
        simp

/-- After any events: the id that a player gets names the channel that holds him,
and is new when the channel is, exactly when he is placed so. -/
theorem namesItsChannel_iff (readings : Readings) (zone : String) (events : List ChannelEvent)
    (chId pid : String) :
    NamesItsChannel readings zone (ChannelChatDb.new.events readings zone events) chId pid ↔
      Placed readings zone (ChannelChatDb.new.events readings zone events) chId pid :=
  namesItsChannel_iff_placed readings zone _ chId pid

/-! ## Runs without deleted channels -/

/-- The key at each position has the number of the position. -/
def Numbered (db : ChannelChatDb) : Prop :=
  db.chIds = (List.range' 1 db.chIds.length).map toString

theorem findEmpty_eq_some {channels : String → Finset String} {start count i : Nat} {key : String}
    (h : ChannelChatDb.findEmpty channels start ((List.range' start count).map toString) =
      some (i, key)) : channelKey i = key := by
  induction count generalizing start with
  | zero => cases h
  | succ count ih =>
      rw [List.range'_succ, List.map_cons] at h
      unfold ChannelChatDb.findEmpty at h
      split at h
      · cases h
        rfl
      · exact ih h

/-- With numbered keys every player who names a numeral is placed. -/
theorem Numbered.placed {db : ChannelChatDb} (h : Numbered db)
    (hreadings : ∀ n : Nat, readings.toI (toString n) = n) {chId : String}
    (hnumeral : IsNumeral chId) (pid : String) : Placed readings zone db chId pid := by
  unfold Placed
  dsimp only
  split
  · next hjoin =>
    have hlisted := hjoin.2
    rw [h] at hlisted
    obtain ⟨n, -, rfl⟩ := List.mem_map.mp hlisted
    rw [hreadings]
    exact .inl rfl
  · split
    · next i key hempty =>
      rw [h] at hempty
      exact .inl (findEmpty_eq_some hempty)
    · refine ⟨.inl hnumeral, fun hmem => ?_⟩
      rw [h, channelKey_natCast] at hmem
      obtain ⟨n, hn, heq⟩ := List.mem_map.mp hmem
      rw [toString_injective heq, List.mem_range'_1, List.length_map, List.length_range'] at hn
      omega

theorem Numbered.addPlayer2 {db : ChannelChatDb} (h : Numbered db) {chId : String}
    (hnumeral : IsNumeral chId) (pid : String) :
    Numbered (db.addPlayer2 readings chId zone pid).2 := by
  unfold ChannelChatDb.addPlayer2
  dsimp only
  split
  · dsimp only
    split
    · exact h
    · exact h
  · split
    · exact h
    · unfold Numbered
      dsimp only
      rw [hset_chIds, List.length_append, List.length_singleton, List.range'_concat,
        List.map_append, ← h, (replaceNumber_eq_iff chId _).mpr hnumeral]
      simp [Nat.add_comm]

/-- As long as single channels are not deleted and all named ids are numerals, every
player is named his channel. -/
theorem namesItsChannel_of_no_deletion (hreadings : ∀ n : Nat, readings.toI (toString n) = n)
    {events : List ChannelEvent} (hevents : ∀ chId, ChannelEvent.delChannelId chId ∉ events)
    (hnumerals : ∀ chId pid, ChannelEvent.addPlayer2 chId pid ∈ events → IsNumeral chId)
    {chId : String} (hnumeral : IsNumeral chId) (pid : String) :
    NamesItsChannel readings zone (ChannelChatDb.new.events readings zone events) chId pid := by
  rw [namesItsChannel_iff_placed]
  refine Numbered.placed ?_ hreadings hnumeral pid
  have hrun : ∀ db, Numbered db → Numbered (ChannelChatDb.events readings zone db events) := by
    induction events with
    | nil => exact fun db hdb => hdb
    | cons event events ih =>
        intro db hdb
        apply ih
        · exact fun chId hmem => hevents chId (List.mem_cons_of_mem _ hmem)
        · exact fun chId pid hmem => hnumerals chId pid (List.mem_cons_of_mem _ hmem)
        · cases event with
          | addPlayer2 chId pid => exact hdb.addPlayer2 (hnumerals chId pid List.mem_cons_self) pid
          | delPlayer chId pid => exact hdb
          | delChannelId chId => exact absurd List.mem_cons_self (hevents chId)
          | delAllPlayer => rfl
  exact hrun _ rfl

/-- How numerals are read; other texts are no numbers for `tonumber`, and 0 for
`to_i`. -/
def readNumerals : Readings where
  tonumber := fun text => if IsNumeral text then some (ofNumeral text : Nat) else none
  toI := fun text => if IsNumeral text then ofNumeral text else 0

/-- Three channels, of which the second is deleted: a new channel gets the number
of the third, and when the third is empty a player is told the number of the
second.  And in a new zone a player who names no id gets a key without a number. -/
theorem not_namesItsChannel_deleted :
    ¬ NamesItsChannel readNumerals "1" (ChannelChatDb.new.events readNumerals "1"
        [.addPlayer2 "0" "a", .addPlayer2 "0" "b", .addPlayer2 "0" "c", .delChannelId "2"])
          "0" "d" ∧
      ¬ NamesItsChannel readNumerals "1" (ChannelChatDb.new.events readNumerals "1"
        [.addPlayer2 "0" "a", .addPlayer2 "0" "b", .addPlayer2 "0" "c", .delChannelId "2",
          .delPlayer "3" "c"]) "0" "d" ∧
      ¬ NamesItsChannel readNumerals "1" ChannelChatDb.new "" "a" := by
  unfold NamesItsChannel
  decide +kernel

end Social
end ArmyRs
