import Mathlib.Data.Finset.Basic
import Mathlib.Logic.Function.Basic
import ArmyRs.Foundation.Transition

/-!
# Friends

`SocialDb` keeps two Redis sets for each player of a zone: whom he follows, and
who follows him.  An operation sends its commands one after the other, and the
commands of operations that run at the same time interleave.

An operation is the list of the commands that it has yet to send.  Reading a set
and removing its members one by one is a command that is replaced by the commands
of the loop when the reply arrives; the order of the members is Redis' choice.
-/

namespace ArmyRs
namespace Social

open Foundation

variable {Id : Type*}

/-- `follows_key` and `follower_key`. -/
inductive Key (Id : Type*)
  | follows (id : Id)
  | follower (id : Id)
  deriving DecidableEq, Repr

inductive Command (Id : Type*)
  | sadd (key : Key Id) (member : Id)
  | srem (key : Key Id) (member : Id)
  | del (key : Key Id)
  /-- `smembers`, and `remove_friend(id, …)` of every member. -/
  | removeEach (key : Key Id) (id : Id)
  deriving DecidableEq, Repr

/-- The sets of a zone, and the operations that are running. -/
structure SocialDb (Id : Type*) where
  sets : Key Id → Finset Id
  running : List (List (Command Id))

def SocialDb.new : SocialDb Id where
  sets := fun _ => ∅
  running := []

/-- The commands of `remove_friend` of two players. -/
def removeCommands (id friendId : Id) : List (Command Id) :=
  [.srem (.follows id) friendId, .srem (.follower id) friendId, .srem (.follows friendId) id,
    .srem (.follower friendId) id]

inductive Operation (Id : Type*)
  | addFriend (id friendId : Option Id)
  | removeFriend (id friendId : Option Id)
  | clearFriends (id : Id)
  deriving DecidableEq, Repr

variable [DecidableEq Id]

/-- `add_friend`, `remove_friend` and `clear_friends`. -/
def commands : Operation Id → List (Command Id)
  | .addFriend (some id) (some friendId) =>
      if id ≠ friendId then [.sadd (.follows id) friendId, .sadd (.follower friendId) id] else []
  | .addFriend _ _ => []
  | .removeFriend (some id) (some friendId) => removeCommands id friendId
  | .removeFriend _ _ => []
  | .clearFriends id =>
      [.removeEach (.follower id) id, .removeEach (.follows id) id, .del (.follower id),
        .del (.follows id)]

/-- What a command does to the sets. -/
def execute (sets : Key Id → Finset Id) : Command Id → Key Id → Finset Id
  | .sadd key member => Function.update sets key (insert member (sets key))
  | .srem key member => Function.update sets key ((sets key).erase member)
  | .del key => Function.update sets key ∅
  | .removeEach _ _ => sets

/-- The commands that take the place of a command that was sent; `order` is the
reply of `smembers`. -/
def expand (order : List Id) : Command Id → List (Command Id)
  | .removeEach _ id => order.flatMap (removeCommands id)
  | _ => []

/-- `order` can be the reply to a command. -/
def IsReply (sets : Key Id → Finset Id) (order : List Id) : Command Id → Prop
  | .removeEach key _ => order.toFinset = sets key
  | _ => True

instance IsReply.decidable (sets : Key Id → Finset Id) (order : List Id) (command : Command Id) :
    Decidable (IsReply sets order command) := by
  cases command <;> unfold IsReply <;> infer_instance

inductive Event (Id : Type*)
  /-- An operation starts. -/
  | call (operation : Operation Id)
  /-- A running operation sends its next command. -/
  | send (index : Nat) (order : List Id)
  deriving DecidableEq, Repr

def step (db : SocialDb Id) : Event Id → Option (SocialDb Id)
  | .call operation => some { db with running := db.running ++ [commands operation] }
  | .send index order =>
      match db.running[index]? with
      | some (command :: rest) =>
          if IsReply db.sets order command then
            some
              { sets := execute db.sets command
                running := db.running.set index (expand order command ++ rest) }
          else none
      | _ => none

end Social
end ArmyRs
