import ArmyRs.Landlord.Cards

/-!
# The computer player

`ComputerAI` chooses the cards a computer player puts on the desk.  It never
asks the ruler: each kind of combination has its own search over the sorted
hand, and the chosen type, weight and length are written to the fields of the
module, which the controller copies afterwards.

The searches come in three families, each written once with parameters and
then instantiated under the source's names:

* `findSame` looks for `k` neighbouring cards of one weight (single, double,
  three, boom);
* `findRun` looks for a run of `k` equal cards with its two nested loops, the
  running counter and the index list (the three straights);
* `findThreeAnd` takes a triple out of the hand and then looks for the cards
  that go with it.
-/

namespace ArmyRs
namespace Landlord

open Foundation

/-- The fields of the module `ComputerAI`. -/
structure ComputerAI where
  cardList : List Card := []
  curType : CardType := .none
  curWeight : Int := -1
  curLength : Int := -1
  deriving DecidableEq, Repr

/-- What a search returns: its selection and the module's fields after it. -/
abbrev Found := List Card × ComputerAI

/-- The cards at positions `i, ..., i + n - 1`, counted from one. -/
def slice (cards : List Card) (i n : Nat) : List Card := (cards.drop (i - 1)).take n

/-! ## Neighbouring cards of one weight -/

/-- `cards[i]` has the weight of each of the `k - 1` cards after it. -/
def sameAt (k : Nat) (cards : List Card) (i : Nat) : Bool :=
  (List.range k).all fun r => weightAt cards i == weightAt cards (i + r)

/-- Searches positions `1..last` for `k` neighbouring cards of one weight whose
total exceeds `weight`.  `ti` is set when the selection is part of a larger
one; the fields are then left to the caller. -/
def findSame (k last : Nat) (m : ComputerAI) (cards : List Card) (weight : Int)
    (ti : Bool) : Found :=
  match (forRange 1 last 1).find? fun i =>
      sameAt k cards i && decide (weight < (k : Int) * weightAt cards i) with
  | none => ([], m)
  | some i =>
      (slice cards i k,
        if ti then m
        else { m with curWeight := (k : Int) * weightAt cards i, curLength := k })

def findSingle (m : ComputerAI) (cards : List Card) (weight : Int) (ti : Bool) : Found :=
  findSame 1 cards.length m cards weight ti

def findDouble (m : ComputerAI) (cards : List Card) (weight : Int) (ti : Bool) : Found :=
  if cards.length < 2 then ([], m)
  else findSame 2 (cards.length - 1) m cards weight ti

def findThree (m : ComputerAI) (cards : List Card) (weight : Int) (ti : Bool) : Found :=
  if cards.length < 3 then ([], m)
  else findSame 3 (cards.length - 2) m cards weight ti

/-- The loop stops at `#cards - 4`, so four cards at the very end of the hand
are not seen. -/
def findBoom (m : ComputerAI) (cards : List Card) (weight : Int) : Found :=
  if cards.length < 4 then ([], m)
  else findSame 4 (cards.length - 4) m cards weight false

/-- Two neighbouring pairs of consecutive weights.  The loop leaves the
function with an empty selection at the first such place beyond the ace. -/
def findTwoDouble (m : ComputerAI) (cards : List Card) (weight : Int) : Found :=
  let shape := fun i : Nat =>
    weightAt cards i == weightAt cards (i + 1) &&
      weightAt cards (i + 2) == weightAt cards (i + 3) &&
      (weightAt cards (i + 2) : Int) - weightAt cards (i + 1) == 1
  let beyond := fun i : Nat => decide (weightAt cards (i + 3) > Weight.one)
  let total := fun i : Nat => (weightAt cards i : Int) * 2 + weightAt cards (i + 2) * 2
  if cards.length < 4 then ([], m)
  else
    match (forRange 1 (cards.length - 3) 1).find? fun i =>
        shape i && (beyond i || decide (weight < total i)) with
    | none => ([], m)
    | some i =>
        if beyond i then ([], m)
        else (slice cards i 4, { m with curWeight := total i, curLength := 4 })

/-! ## Runs -/

/-- The inner loop over `j`.  `temp` counts the cards taken since `i`, and
`counter` the completed groups of `k`; the loop ends at a card beyond the ace,
at a card that does not continue the run, or when the run is long enough. -/
def scanRun (k : Nat) (cards : List Card) (length i : Nat) :
    List Nat → Nat → Nat → List Nat → Nat × List Nat
  | [], _, counter, indexList => (counter, indexList)
  | j :: js, temp, counter, indexList =>
      if weightAt cards j > Weight.one then (counter, indexList)
      else if (weightAt cards j : Int) - weightAt cards i = counter then
        let temp := temp + 1
        let indexList := indexList ++ [j]
        let counter := if temp % k = 0 then counter + 1 else counter
        if k * counter = length then (counter, indexList)
        else scanRun k cards length i js temp counter indexList
      else (counter, indexList)

/-- The outer loop over the first card of the run.  A straight starts with one
completed group, the other two runs with none. -/
def runLoop (k : Nat) (cards : List Card) (weight : Int) (length : Nat) :
    List Nat → Nat → List Nat → Nat × List Nat
  | [], counter, indexList => (counter, indexList)
  | i :: is, counter, indexList =>
      let state :=
        if weight < weightAt cards i then
          scanRun k cards length i (forRange (i + 1) cards.length 1) 1
            (if k = 1 then 1 else 0) [i]
        else (counter, indexList)
      if k * state.1 = length then state
      else runLoop k cards weight length is state.1 state.2

/-- The cards at the positions of an index list. -/
def cardsAt (cards : List Card) (indexList : List Nat) : List Card :=
  indexList.filterMap fun index => cards[index - 1]?

/-- The sum of the weights of a card list. -/
def sumWeight (cards : List Card) : Int := ((weights cards).sum : Nat)

/-- A run of `length` cards in groups of `k`, each position after the first at
most the ace; hands shorter than `shortest` are not searched. -/
def findRun (k shortest : Nat) (m : ComputerAI) (cards : List Card) (weight : Int)
    (length : Nat) : Found :=
  if cards.length < shortest then ([], m)
  else
    let state := runLoop k cards weight length
      (forRange 1 (cards.length - (shortest - 1)) 1) 0 []
    if k * state.1 = length then
      let selects := cardsAt cards state.2
      (selects,
        { m with curWeight := m.curWeight + sumWeight selects, curLength := length })
    else ([], m)

def findStraight := findRun 1 5

def findDoubleStraight := findRun 2 6

def findTripleStraight := findRun 3 6

/-! ## A triple with other cards -/

/-- A triple above `weight`, completed by what `kicker` finds in the rest of
the hand.  The fields are reset when nothing completes it. -/
def findThreeAnd (count : Nat)
    (kicker : ComputerAI → List Card → Int → Bool → Found)
    (m : ComputerAI) (cards : List Card) (weight : Int) : Found :=
  let three := (findThree m cards weight true).1
  if three.length > 0 then
    let newcards := cards.diff three
    let m := { m with curWeight := m.curWeight + sumWeight three }
    let others := (kicker m newcards weight true).1
    if others.length > 0 then (three ++ others, { m with curLength := count })
    else ([], { m with curWeight := 0, curLength := 0 })
  else ([], m)

def findThreeAndTwo := findThreeAnd 5 findDouble

def findThreeAndOne := findThreeAnd 4 findSingle

/-- The joker bomb is only looked for in a hand of two cards, and both tests
read the first of them. -/
def findJokerBoom (m : ComputerAI) (cards : List Card) : Found :=
  if cards.length ≠ 2 then ([], m)
  else
    match (forRange 1 (cards.length - 1) 1).find? fun i =>
        weightAt cards i == Weight.sJoker && weightAt cards i == Weight.lJoker with
    | none => ([], m)
    | some i => (slice cards i 2, { m with curWeight := 99, curLength := 2 })

/-! ## Choosing a play -/

/-- One search of `findSmallestCards`: the first bound with a result decides,
and its type is recorded. -/
def firstFound (cardType : CardType) (find : ComputerAI → Int → Found) :
    List Int → ComputerAI → Found
  | [], m => ([], m)
  | bound :: bounds, m =>
      let found := find m bound
      if found.1.length ≠ 0 then (found.1, { found.2 with curType := cardType })
      else firstFound cardType find bounds found.2

/-- `if #selects == 0 then ... end`: the next search runs when the earlier ones
found nothing. -/
def orSearch (found : Found) (search : ComputerAI → Found) : Found :=
  if found.1.length = 0 then search found.2 else found

/-- `9, 12, ..., 45`: three times the weights from three to two. -/
def threeBounds : List Int := [9, 12, 15, 18, 21, 24, 27, 30, 33, 36, 39, 42, 45]

/-- `6, 8, ..., 30`: twice the weights from three to two. -/
def doubleBounds : List Int := [6, 8, 10, 12, 14, 16, 18, 20, 22, 24, 26, 28, 30]

/-- The play of a computer player that leads. -/
def findSmallestCards (m : ComputerAI) (cards : List Card) : Found :=
  let found := firstFound .tripleStraight
    (fun m i => findTripleStraight m cards (-1) i.toNat) [18, 15, 12, 9, 6] m
  let found := orSearch found <| firstFound .doubleStraight
    (fun m i => findDoubleStraight m cards (-1) i.toNat) [20, 18, 16, 14, 12, 10, 8, 6]
  let found := orSearch found <| firstFound .straight
    (fun m i => findStraight m cards (-1) i.toNat) [12, 11, 10, 9, 8, 7, 6, 5]
  let found := orSearch found <| firstFound .threeAndTwo
    (fun m i => findThreeAndTwo m cards (i - 1)) threeBounds
  let found := orSearch found <| firstFound .threeAndOne
    (fun m i => findThreeAndOne m cards (i - 1)) threeBounds
  let found := orSearch found <| firstFound .three
    (fun m i => findThree m cards (i - 1) false) threeBounds
  let found := orSearch found <| firstFound .twoDouble
    (fun m i => findTwoDouble m cards (i - 1)) doubleBounds
  let found := orSearch found <| firstFound .double
    (fun m i => findDouble m cards (i - 1) false) doubleBounds
  orSearch found fun m =>
    let found := findSingle m cards (-1) false
    (found.1, { found.2 with curType := .single })

/-- A straight of its own type answers a straight; failing that any bomb, and
failing that the joker bomb. -/
def orBoom (cardType : CardType) (cards : List Card) (own : Found) : Found :=
  if own.1.length = 0 then
    let boom := findBoom own.2 cards (-1)
    if boom.1.length = 0 then
      let joker := findJokerBoom boom.2 cards
      if joker.1.length > 0 then (joker.1, { joker.2 with curType := .jokerBoom })
      else joker
    else (boom.1, { boom.2 with curType := .boom })
  else (own.1, { own.2 with curType := cardType })

def selectCardType (m : ComputerAI) (cardType : CardType) (cards : List Card)
    (weight : Int) (length : Nat) : Found :=
  match cardType with
  | .none => findSmallestCards m cards
  | .single => findSingle m cards weight false
  | .double => findDouble m cards weight false
  | .twoDouble => findTwoDouble m cards weight
  | .straight => orBoom .straight cards (findStraight m cards weight length)
  | .doubleStraight =>
      orBoom .doubleStraight cards (findDoubleStraight m cards weight length)
  | .tripleStraight =>
      orBoom .tripleStraight cards (findTripleStraight m cards weight length)
  | .three => findThree m cards weight false
  | .threeAndOne => findThreeAndOne m cards weight
  | .threeAndTwo => findThreeAndTwo m cards weight
  | .boom =>
      let boom := findBoom m cards weight
      if boom.1.length = 0 then
        let joker := findJokerBoom boom.2 cards
        (joker.1, { joker.2 with curType := .jokerBoom })
      else boom
  | .jokerBoom => ([], m)

/-- The fields at the start of a selection. -/
def ComputerAI.cleared (m : ComputerAI) (cardType : CardType) : ComputerAI :=
  { m with curType := cardType, curWeight := 0, curLength := 0, cardList := [] }

/-- `ComputerAI.smartSelectCards`. -/
def smartSelectCards (m : ComputerAI) (cards : List Card) (cardType : CardType)
    (weight : Int) (length : Nat) (isBiggest : Bool) : ComputerAI :=
  let cardType := if isBiggest then .none else cardType
  let found := selectCardType (m.cleared cardType) cardType cards weight length
  { found.2 with cardList := found.1 }

end Landlord
end ArmyRs
