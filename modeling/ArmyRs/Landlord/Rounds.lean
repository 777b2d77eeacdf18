import ArmyRs.Landlord.CombatController

/-!
# A round of the game

`CombatController` deals from `queue`: `DealCard` takes the card at a random
position of what is left.  The order of the queue itself is the one in which
`initCardLibrary` goes through its tables.

A `Round` is a game with its queue.  `played` records the cards that were played,
`turns` how often a player has played or passed, and `passes` how often players
have passed since the last play; nothing reads them.
-/

namespace ArmyRs
namespace Landlord

/-! ## Dealing -/

/-- `DealCard`, with the position that `math.random(1, count)` answers. -/
def dealCard (queue : List Card) (index : Nat) : Option (Card × List Card) :=
  if index = 0 then none
  else (queue[index - 1]?).map fun card => (card, queue.eraseIdx (index - 1))

/-- The cards that are drawn one after the other, and what is left. -/
def drawCards : List Nat → List Card → Option (List Card × List Card)
  | [], queue => some ([], queue)
  | index :: choices, queue =>
      match dealCard queue index with
      | none => none
      | some (card, queue) =>
          (drawCards choices queue).map fun drawn => (card :: drawn.1, drawn.2)

/-! ## Rounds -/

structure Round where
  game : Game
  queue : List Card
  played : List Card
  turns : Nat
  passes : Nat

def Round.new (queue : List Card) : Round where
  game := newGame
  queue := queue
  played := []
  turns := 0
  passes := 0

/-- The cards that a player plays with an event. -/
def Game.plays (pairs : List Rule → List Rule) (game : Game) : Event → List Card
  | .computer => if game.selects game.curPly then (game.choice game.curPly).cardList else []
  | .play selected => if (game.canPlay pairs selected).isSome then sortCards selected else []
  | _ => []

/-- The event ends the turn of a player.  After a refused play the human player
may try again. -/
def Game.endsTurn (pairs : List Rule → List Rule) (game : Game) : Event → Bool
  | .computer => true
  | .play selected => (game.canPlay pairs selected).isSome
  | .pass => true
  | _ => false

/-- What is recorded about an event. -/
def Round.record (round : Round) (game : Game) (cards : List Card) (endsTurn : Bool) : Round where
  game := game
  queue := round.queue
  played := round.played ++ cards
  turns := if endsTurn then round.turns + 1 else round.turns
  passes := if endsTurn then (if cards = [] then round.passes + 1 else 0) else round.passes

inductive RoundEvent
  /-- The deal, with the random positions. -/
  | deal (choices : List Nat)
  | move (event : Event)
  deriving DecidableEq, Repr

def Round.step (pairs : List Rule → List Rule) (round : Round) : RoundEvent → Option Round
  | .deal choices =>
      match drawCards choices round.queue with
      | none => none
      | some (drawn, queue) =>
          (Landlord.step pairs round.game (.deal drawn)).map fun game =>
            { round with game := game, queue := queue }
  | .move (.deal _) => none
  | .move event =>
      (Landlord.step pairs round.game event).map fun game =>
        round.record game (round.game.plays pairs event) (round.game.endsTurn pairs event)

end Landlord
end ArmyRs
