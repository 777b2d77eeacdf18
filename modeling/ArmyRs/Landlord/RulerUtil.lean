import ArmyRs.Landlord.Cards

/-!
# The ruler

`RulerUtil` decides whether a card list may be played and of which type it is.
For each length it keeps a table of named predicates; `canPop` runs over that
table with `pairs`, whose order is unspecified, and answers with the first
predicate that holds.

Every predicate reads the list by position, so each definition below keeps the
positions of the source.  A difference such as `cards[i+1].weight -
cards[i].weight` is only ever compared with one, and a truncated difference is
one exactly when the signed difference is.
-/

namespace ArmyRs
namespace Landlord

open Foundation

def isSigle (cards : List Card) : Bool := cards.length == 1

def isDouble (cards : List Card) : Bool :=
  cards.length == 2 && weightAt cards 1 == weightAt cards 2

def isTwoDouble (cards : List Card) : Bool :=
  if cards.length ≠ 4 then false
  else if weightAt cards 1 ≠ weightAt cards 2 then false
  else if weightAt cards 3 ≠ weightAt cards 4 then false
  else if weightAt cards 1 > Weight.one ∨ weightAt cards 3 > Weight.one then false
  else if weightAt cards 2 = weightAt cards 3 then false
  else if weightAt cards 3 - weightAt cards 2 ≠ 1 then false
  else true

def isStraight (cards : List Card) : Bool :=
  let count := cards.length
  if count < 5 ∨ count > 12 then false
  else (forRange 1 (count - 1) 1).all fun i =>
    weightAt cards (i + 1) - weightAt cards i == 1 &&
      !(weightAt cards i > Weight.one || weightAt cards (i + 1) > Weight.one)

def isDoubleStraight (cards : List Card) : Bool :=
  let count := cards.length
  if count % 2 ≠ 0 ∨ count < 6 then false
  else (forRange 1 (count - 1) 2).all fun i =>
    weightAt cards (i + 1) == weightAt cards i &&
      (!(i + 2 < count) || weightAt cards (i + 2) - weightAt cards i == 1) &&
      (!(i + 2 < count) ||
        !(weightAt cards i > Weight.one || weightAt cards (i + 2) > Weight.one))

def isTripleStraight (cards : List Card) : Bool :=
  let count := cards.length
  if count % 3 ≠ 0 ∨ count < 6 then false
  else (forRange 1 (count - 2) 3).all fun i =>
    weightAt cards (i + 2) == weightAt cards i &&
      (!(i + 3 < count) || weightAt cards (i + 3) - weightAt cards i == 1) &&
      (!(i + 3 < count) ||
        !(weightAt cards i > Weight.one || weightAt cards (i + 3) > Weight.one))

def isThree (cards : List Card) : Bool :=
  cards.length == 3 && weightAt cards 1 == weightAt cards 3

def isThreeAndOne (cards : List Card) : Bool :=
  if cards.length ≠ 4 then false
  else if weightAt cards 1 ≠ weightAt cards 2 then
    weightAt cards 2 == weightAt cards 4
  else
    weightAt cards 2 == weightAt cards 3 && weightAt cards 3 != weightAt cards 4

def isThreeAndTwo (cards : List Card) : Bool :=
  if cards.length ≠ 5 then false
  else if weightAt cards 1 = weightAt cards 4 then false
  else if weightAt cards 2 = weightAt cards 5 then false
  else if weightAt cards 1 = weightAt cards 3 then true
  else if weightAt cards 3 = weightAt cards 5 then true
  else false

def isBoom (cards : List Card) : Bool :=
  let count := cards.length
  if count ≠ 4 then false
  else weightAt cards 1 == weightAt cards count

def isJokerBoom (cards : List Card) : Bool :=
  cards.length == 2 && weightAt cards 1 == Weight.sJoker &&
    weightAt cards 2 == Weight.lJoker

/-- A named predicate of a rule table. -/
abbrev Rule := CardType × (List Card → Bool)

/-- `RulerUtil:construct`: the hand-kept table of predicates for each length.
There is no table for lengths outside `1..20`. -/
def construct : Nat → Option (List Rule)
  | 1 => some [(.single, isSigle)]
  | 2 => some [(.double, isDouble), (.jokerBoom, isJokerBoom)]
  | 3 => some [(.three, isThree)]
  | 4 => some [(.twoDouble, isTwoDouble), (.threeAndOne, isThreeAndOne), (.boom, isBoom)]
  | 5 => some [(.straight, isStraight), (.threeAndTwo, isThreeAndTwo)]
  | 6 => some [(.doubleStraight, isDoubleStraight), (.straight, isStraight),
      (.tripleStraight, isTripleStraight)]
  | 7 => some [(.straight, isStraight)]
  | 8 => some [(.straight, isStraight), (.doubleStraight, isDoubleStraight)]
  | 9 => some [(.straight, isStraight), (.tripleStraight, isTripleStraight)]
  | 10 => some [(.straight, isStraight), (.doubleStraight, isDoubleStraight)]
  | 11 => some [(.straight, isStraight)]
  | 12 => some [(.doubleStraight, isDoubleStraight), (.tripleStraight, isTripleStraight)]
  | 13 => some []
  | 14 => some [(.doubleStraight, isDoubleStraight)]
  | 15 => some [(.tripleStraight, isTripleStraight)]
  | 16 => some [(.doubleStraight, isDoubleStraight)]
  | 17 => some []
  | 18 => some [(.doubleStraight, isDoubleStraight), (.tripleStraight, isTripleStraight)]
  | 19 => some []
  | 20 => some [(.doubleStraight, isDoubleStraight)]
  | _ => none

/-- The loop of `canPop` over one enumeration of a rule table: the type of the
first predicate that holds. -/
def firstRule (rules : List Rule) (cards : List Card) : Option CardType :=
  (rules.find? fun rule => rule.2 cards).map Prod.fst

/-- The ways a call of the ruler can end. -/
inductive PopResult
  /-- `pairs(nil)` raises: there is no rule table for this number of cards. -/
  | raised
  | rejected
  | accepted (cardType : CardType)
  deriving DecidableEq, Repr

/-- `RulerUtil:canPop` when `pairs` enumerates each rule table in the order
`pairs` gives it. -/
def canPopWith (pairs : List Rule → List Rule) (cards : List Card) : PopResult :=
  match construct cards.length with
  | none => .raised
  | some rules =>
      match firstRule (pairs rules) cards with
      | none => .rejected
      | some cardType => .accepted cardType

/-- `canPop` with the rule tables enumerated as they are written. -/
def canPop (cards : List Card) : PopResult := canPopWith id cards

end Landlord
end ArmyRs
