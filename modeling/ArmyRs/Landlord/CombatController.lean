import ArmyRs.Foundation.Quicksort
import ArmyRs.Foundation.Transition
import ArmyRs.Landlord.CardsWeight
import ArmyRs.Landlord.ComputerAI

/-!
# The game

`CombatController` deals the cards, asks who wants to be the landlord, and then
goes round the three players.  It records the type, the weight and the length
of the last play; the cards of the play lie on the desk in front of the player
that has made it until that player's next turn.

A game goes through the phases of `Phase`.  The computer players move by
themselves (`computerTurn`); the human player selects cards of the hand and
tries to play them (`canPlay`), as often as it takes, or passes.  Which cards
the dealing draws and which cards the human player selects come with the
events.

Views, sounds, the tags that say to whom a card belongs and the texts on the
screen are not modelled: no decision reads them.
-/

namespace ArmyRs
namespace Landlord

open Foundation

/-- `CHARACTER`. -/
inductive Character
  | library
  | me
  | right
  | left
  | desk
  deriving DecidableEq, Repr

/-- `IDENTITY`. -/
inductive Identity
  | farmer
  | landlord
  | desk
  deriving DecidableEq, Repr

inductive Phase
  /-- The deal button is shown. -/
  | ready
  /-- The cards are dealt; the computer players decide about the landlord. -/
  | dealt
  /-- The human player is asked about the landlord. -/
  | asked
  /-- The landlord has the three cards of the desk; the game is about to start. -/
  | granted
  | playing
  | over
  deriving DecidableEq, Repr

/-- A `CombatController` with its four card controllers and the module
`ComputerAI`.  `hand` holds the `saveCards` of the players, `desk` the lists of
the desk: the three cards for the landlord under `desk`, the last plays of the
players under their own names. -/
structure Game where
  phase : Phase
  dizhuType : Character
  curCardType : CardType
  curWeight : Int
  curLength : Int
  biggestPly : Character
  curPly : Character
  curIdentity : Identity
  hand : Character → List Card
  identity : Character → Identity
  desk : Character → List Card
  ai : ComputerAI

/-- `CombatController:init`. -/
def newGame : Game where
  phase := .ready
  dizhuType := .me
  curCardType := .none
  curWeight := -1
  curLength := -1
  biggestPly := .desk
  curPly := .desk
  curIdentity := .desk
  hand := fun _ => []
  identity := fun _ => .farmer
  desk := fun _ => []
  ai := {}

/-- `cc:sort(cards, true)`. -/
def sortCards (cards : List Card) : List Card :=
  quicksort (fun x y => decide (x.weight ≤ y.weight)) cards.length cards

/-! ## Dealing -/

/-- `curType + 1` in the dealing loop, which stays at the desk once it is
there. -/
def Character.succ : Character → Character
  | .library => .me
  | .me => .right
  | .right => .left
  | .left => .desk
  | .desk => .desk

/-- The dealing loop from card number `i` on: the first 51 cards go to the three
players in turn, the last three to the desk. -/
def dealFrom (game : Game) : Nat → Character → List Card → Game
  | _, _, [] => game
  | i, curType, card :: cards =>
      let curType :=
        if i > 51 then .desk
        else if curType = .library ∨ curType = .desk then .me
        else curType
      let game :=
        if curType = .desk then
          { game with desk := Function.update game.desk .desk (game.desk .desk ++ [card]) }
        else
          { game with hand := Function.update game.hand curType (game.hand curType ++ [card]) }
      dealFrom game (i + 1) curType.succ cards

/-- A character sorts its hand. -/
def Game.sortHand (game : Game) (seat : Character) : Game :=
  { game with hand := Function.update game.hand seat (sortCards (game.hand seat)) }

/-- `deal`, with the cards in the order in which `DealCard` draws them, and
`ctrlAutoSort`. -/
def Game.deal (game : Game) (cards : List Card) : Game :=
  { (((dealFrom game 1 .me cards).sortHand .me).sortHand .right).sortHand .left with
    phase := .dealt }

/-! ## The landlord -/

/-- `if #isfind ~= 0 then return true end`. -/
def orFound (found : Found) (next : ComputerAI → Bool × ComputerAI) : Bool × ComputerAI :=
  if found.1.length ≠ 0 then (true, found.2) else next found.2

/-- The loop over the lengths of a triple straight. -/
def anyTripleStraight (cards : List Card) :
    List Nat → ComputerAI → (ComputerAI → Bool × ComputerAI) → Bool × ComputerAI
  | [], m, next => next m
  | i :: lengths, m, next =>
      orFound (findTripleStraight m cards (-1) i) fun m => anyTripleStraight cards lengths m next

/-- `ComputerAI.caleIsQdZ`: whether a computer player wants to be the landlord. -/
def caleIsQdZ (m : ComputerAI) (cards : List Card) : Bool × ComputerAI :=
  orFound (findJokerBoom m cards) fun m =>
  orFound (findBoom m cards (-1)) fun m =>
  anyTripleStraight cards [18, 15, 12, 9, 6] m fun m =>
  orFound (findThree m cards 39 false) fun m =>
    let double := findDouble m cards 28 false
    if double.1.length ≠ 0 then
      let single := findSingle double.2 cards 15 false
      (decide (single.1.length ≠ 0), single.2)
    else (false, double.2)

/-- One decision of `isJDZ`. -/
def Game.askComputer (game : Game) (seat : Character) : Game :=
  let (find, ai) := caleIsQdZ game.ai (game.hand seat)
  { game with
    ai := ai
    dizhuType := if find then seat else game.dizhuType }

/-- `isJDZ`: the right player decides, then the left one. -/
def Game.isJDZ (game : Game) : Game :=
  { (game.askComputer .right).askComputer .left with phase := .asked }

/-- `dealDiZhuCards`: the cards of the desk go to the landlord. -/
def Game.dealDiZhuCards (game : Game) : Game :=
  let landlord := game.dizhuType
  let hand := Function.update game.hand landlord (game.hand landlord ++ game.desk .desk)
  { { game with hand := hand }.sortHand landlord with
    desk := Function.update game.desk .desk []
    identity := Function.update game.identity landlord .landlord
    curIdentity := .landlord
    phase := .granted }

/-- `addDZIndex`: the human player wants to be the landlord. -/
def Game.addDZIndex (game : Game) : Game := { game with dizhuType := .me }.dealDiZhuCards

/-- `loseDZ`: the human player does not want to. -/
def Game.loseDZ (game : Game) : Game := game.dealDiZhuCards

/-! ## Turns -/

/-- `BeginWith`, up to the move of the player: the player's last play leaves
the desk. -/
def Game.beginWith (game : Game) (seat : Character) : Game :=
  { game with desk := Function.update game.desk seat [] }

/-- `start`. -/
def Game.start (game : Game) : Game :=
  { game with
    biggestPly := game.dizhuType
    curPly := game.dizhuType
    phase := .playing }.beginWith game.dizhuType

/-- `self.curPly + 1`, going back to the human player after the left one. -/
def Character.next : Character → Character
  | .library => .me
  | .me => .right
  | .right => .left
  | .left => .me
  | .desk => .desk

/-- `Turn`. -/
def Game.turn (game : Game) : Game :=
  { game with curPly := game.curPly.next }.beginWith game.curPly.next

/-- The cards leave the hand, which is sorted again. -/
def Game.removeCards (game : Game) (seat : Character) (cards : List Card) : Game :=
  { game with
    hand := Function.update game.hand seat (sortCards ((game.hand seat).diff cards)) }

/-- The computer player chooses at all: it does not go over a partner's play of
five or more cards. -/
def Game.selects (game : Game) (seat : Character) : Bool :=
  decide (game.curIdentity ≠ game.identity seat) || decide (game.biggestPly = seat) ||
    decide (game.curCardType.code < 5)

/-- The call of `smartSelectCards` by `BeginWith`. -/
def Game.choice (game : Game) (seat : Character) : ComputerAI :=
  smartSelectCards game.ai (game.hand seat) game.curCardType game.curWeight game.curLength.toNat
    (decide (game.biggestPly = seat))

/-- The cards are the last play. -/
def Game.record (game : Game) (seat : Character) (cards : List Card) (cardType : CardType)
    (weight length : Int) : Game :=
  { game with
    biggestPly := seat
    curCardType := cardType
    curWeight := weight
    curLength := length
    desk := Function.update game.desk seat (game.desk seat ++ cards) }

/-- The move of a computer player in `BeginWith`. -/
def Game.computerTurn (game : Game) (seat : Character) : Game :=
  if game.selects seat then
    let ai := game.choice seat
    let find := decide (ai.cardList.length ≠ 0)
    let game := { game with ai := ai }
    let game := if find then game.removeCards seat ai.cardList else game
    if (game.hand seat).length = 0 then { game with phase := .over }
    else if find then
      { game.record seat ai.cardList ai.curType ai.curWeight ai.curLength with
        curIdentity := game.identity seat }.turn
    else game.turn
  else game.turn

/-! ## The human player -/

/-- `setTypeData`. -/
def Game.setTypeData (game : Game) (cards : List Card) (cardType : CardType)
    (totalweight : Int) : Game :=
  let game := (game.record .me cards cardType totalweight cards.length).removeCards .me cards
  if (game.hand .me).length = 0 then { game with phase := .over }
  else { game with curIdentity := game.identity .me }.turn

/-- The comparison of `canPlay` with the last play. -/
def Game.allows (game : Game) (cardType : CardType) (totalweight : Int) : Bool :=
  if game.biggestPly ≠ .me then
    if cardType = .jokerBoom ∨
        (cardType = .boom ∧ cardType.code > game.curCardType.code) then true
    else if cardType = game.curCardType ∧ totalweight > game.curWeight then true
    else false
  else true

/-- `canPlay` with the selected cards, sorted by `findSelectFind`: the game
after an accepted play, and nothing when the selection is refused or the ruler
raises an error. -/
def Game.canPlay (pairs : List Rule → List Rule) (game : Game) (selected : List Card) :
    Option Game :=
  let cards := sortCards selected
  match canPopWith pairs cards with
  | .accepted cardType =>
      let totalweight := getCardsWeight cards cardType
      if game.allows cardType totalweight then
        some ({ game with curPly := .me }.setTypeData cards cardType totalweight)
      else none
  | .rejected => none
  | .raised => none

/-! ## Events -/

inductive Event
  /-- The human player presses the deal button; the cards are drawn in this
  order. -/
  | deal (cards : List Card)
  /-- The computer players decide about the landlord. -/
  | isJDZ
  | grab
  | disGrab
  /-- The delay before the game is over. -/
  | start
  /-- The computer player whose turn it is moves. -/
  | computer
  /-- The human player tries to play the selected cards. -/
  | play (selected : List Card)
  | pass
  deriving DecidableEq, Repr

/-- It is the turn of the human player. -/
def Game.myTurn (game : Game) : Prop := game.phase = .playing ∧ game.curPly = .me

instance (game : Game) : Decidable game.myTurn := inferInstanceAs (Decidable (_ ∧ _))

/-- It is the turn of a computer player. -/
def Game.computersTurn (game : Game) : Prop :=
  game.phase = .playing ∧ (game.curPly = .right ∨ game.curPly = .left)

instance (game : Game) : Decidable game.computersTurn := inferInstanceAs (Decidable (_ ∧ _))

/-- One event.  The buttons are only shown when they can be pressed; a refused
play changes nothing. -/
def step (pairs : List Rule → List Rule) (game : Game) : Event → Option Game
  | .deal cards =>
      if game.phase = .ready ∧ cards.Perm cardLibrary then some (game.deal cards) else none
  | .isJDZ => if game.phase = .dealt then some game.isJDZ else none
  | .grab => if game.phase = .asked then some game.addDZIndex else none
  | .disGrab => if game.phase = .asked then some game.loseDZ else none
  | .start => if game.phase = .granted then some game.start else none
  | .computer => if game.computersTurn then some (game.computerTurn game.curPly) else none
  | .play selected =>
      if game.myTurn ∧ selected.Subperm (game.hand .me) then
        some ((game.canPlay pairs selected).getD { game with curPly := .me })
      else none
  | .pass => if game.myTurn then some game.turn else none

end Landlord
end ArmyRs
