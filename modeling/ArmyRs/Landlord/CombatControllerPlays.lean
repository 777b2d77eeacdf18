import ArmyRs.Landlord.CombatController
import ArmyRs.Landlord.ComputerAISound

/-!
# What the human player may put on the last play

The last play is what lies on the desk in front of the player that holds the
biggest play, as the ruler sees it.  `Playing` is the invariant of a running
game: the recorded type, weight and length are those of the last play, as long
as no computer player misplays.

`canPlay_iff` compares `canPlay` with the rule of the game.  The comparison of
`canPlay` has no test of the number of cards, so a straight of another length
is accepted when its sum is larger; it agrees with the rule on everything else.
-/

namespace ArmyRs
namespace Landlord

open Foundation

/-! ## Sorting -/

theorem sortCards_perm (cards : List Card) : (sortCards cards).Perm cards :=
  quicksort_perm _ _ _

theorem sortCards_ascending (cards : List Card) : Ascending (sortCards cards) := by
  have hpairwise : (sortCards cards).Pairwise fun x y => x.weight ≤ y.weight :=
    quicksort_pairwise (by simp) (by simp; omega) (by omega) cards.length cards le_rfl
  exact List.pairwise_map.mpr hpairwise

/-! ## Plays -/

/-- The play that some cards make: sorted, with the type the ruler finds. -/
def playFor (cards : List Card) : Option Play :=
  match canPop (sortCards cards) with
  | .accepted cardType => some (playOf (sortCards cards) cardType)
  | .rejected => none
  | .raised => none

/-- The last play: the cards in front of the player that holds the biggest
play. -/
def Game.lastPlay (game : Game) : Option Play := playFor (game.desk game.biggestPly)

theorem playFor_eq_some_iff {cards : List Card} {play : Play} :
    playFor cards = some play ↔
      canPop (sortCards cards) = .accepted play.cardType ∧
        play = playOf (sortCards cards) play.cardType := by
  unfold playFor
  cases hpop : canPop (sortCards cards) with
  | accepted cardType =>
      constructor
      · rintro ⟨rfl⟩
        exact ⟨rfl, rfl⟩
      · rintro ⟨htype, hplay⟩
        cases htype
        exact congrArg some hplay.symm
  | rejected => simp
  | raised => simp

/-- The order in which `pairs` visits the rules does not matter. -/
theorem canPopWith_iff_canPop {pairs : List Rule → List Rule}
    (hpairs : ∀ rules, (pairs rules).Perm rules) {cards : List Card} (hasc : Ascending cards)
    (cardType : CardType) :
    canPopWith pairs cards = .accepted cardType ↔ canPop cards = .accepted cardType := by
  exact (canPopWith_accepted_iff hasc hpairs cardType).trans
    (canPopWith_accepted_iff hasc (fun _ => List.Perm.refl _) cardType).symm

/-- The ruler only knows one to twenty cards. -/
theorem length_of_accepted {cards : List Card} {cardType : CardType}
    (h : canPop cards = .accepted cardType) : 1 ≤ cards.length ∧ cards.length ≤ 20 := by
  by_contra hlength
  have hnone : construct cards.length = none := by
    rcases Nat.lt_or_ge cards.length 1 with hlt | hge
    · rw [Nat.lt_one_iff.mp hlt]
      rfl
    · obtain ⟨n, hn⟩ := Nat.exists_eq_add_of_le (show 21 ≤ cards.length by omega)
      rw [hn, Nat.add_comm]
      rfl
  simp [canPop, canPopWith, hnone] at h

/-- A joker bomb has two cards. -/
theorem length_of_jokerBoom {cards : List Card} {play : Play} (h : playFor cards = some play)
    (htype : play.cardType = .jokerBoom) : play.length = 2 := by
  obtain ⟨haccepted, hplay⟩ := playFor_eq_some_iff.mp h
  rw [htype] at haccepted
  obtain ⟨-, -, -, hholds⟩ := (canPopWith_accepted_iff (sortCards_ascending cards)
    (fun _ => List.Perm.refl _) _).mp haccepted
  have hlength : (sortCards cards).length = 2 := by
    have hjoker : isJokerBoom (sortCards cards) = true := hholds
    unfold isJokerBoom at hjoker
    simp only [Bool.and_eq_true, beq_iff_eq] at hjoker
    exact hjoker.1.1
  rw [hplay]
  show ((sortCards cards).length : Int) = 2
  rw [hlength]
  rfl

/-- The recorded type, weight and length are those of some play that the ruler
accepts. -/
def Recorded (cardType : CardType) (weight length : Int) : Prop :=
  ∃ last : Selection, canPop last.cards = .accepted cardType ∧
    weight = getCardsWeight last.cards cardType ∧ length = last.cards.length

theorem recorded_of_playFor {cards : List Card} {play : Play} (h : playFor cards = some play)
    (hlibrary : ∀ card ∈ cards, card ∈ cardLibrary) (hnodup : cards.Nodup) :
    Recorded play.cardType play.weight play.length := by
  obtain ⟨haccepted, hplay⟩ := playFor_eq_some_iff.mp h
  have hperm := sortCards_perm cards
  have hlength := length_of_accepted haccepted
  refine ⟨⟨⟨sortCards cards, fun card hcard => hlibrary card (hperm.mem_iff.mp hcard),
    hperm.nodup_iff.mpr hnodup, sortCards_ascending cards⟩, hlength.1, hlength.2⟩,
    haccepted, ?_, ?_⟩
  · rw [hplay]
    rfl
  · rw [hplay]
    rfl

/-! ## The choice of a computer player -/

/-- A pick the ruler knows is the play it is recorded as. -/
theorem Picked.playFor_eq {cards : List Card} {found : Found} {cardType : CardType}
    (h : Picked cards found cardType) (hatMost : found.1.length ≤ 20)
    (hshort : ¬ (cardType = .straight ∧ found.1.length = 12)) :
    playFor found.1 = some ⟨cardType, found.2.curWeight, found.2.curLength⟩ := by
  have hperm := sortCards_perm found.1
  have hasc := sortCards_ascending found.1
  refine playFor_eq_some_iff.mpr
    ⟨(h.accepted_iff hatMost hperm hasc fun _ => List.Perm.refl _).mpr hshort, ?_⟩
  unfold playOf
  rw [h.curWeight _ hperm hasc, h.curLength, hperm.length_eq]

/-- What a choice that is no misplay puts on the desk is the play it records. -/
def ChoicePlays (hand : Hand) (ai : ComputerAI) : Prop :=
  ai.cardList ≠ [] → ai.cardList.Subperm hand.cards ∧
    playFor ai.cardList = some ⟨ai.curType, ai.curWeight, ai.curLength⟩

theorem choicePlays_of_sound {m : ComputerAI} {hand : Hand} {situation : Situation}
    (h : ChoiceSound m hand situation) : ChoicePlays hand (choose m hand.cards situation) := by
  intro hne
  obtain ⟨hsub, hruler, -⟩ := h hne
  obtain ⟨haccepted, hweight, hlength⟩ := hruler (sortCards _) (sortCards_perm _)
    (sortCards_ascending _)
  refine ⟨hsub, playFor_eq_some_iff.mpr ⟨haccepted id fun _ => List.Perm.refl _, ?_⟩⟩
  unfold playOf
  rw [hweight, hlength]

/-- The reply to a recorded play.  The play may also be a triple with two odd
cards, which the ruler takes for a triple with a pair. -/
theorem choicePlays_reply (m : ComputerAI) (hand : Hand) {cardType : CardType} {weight length : Int}
    (hrecorded : Recorded cardType weight length)
    (hfour : ¬ (cardType = .threeAndOne ∧ ∃ w, TakesFourth w (weights hand.cards) weight)) :
    ChoicePlays hand (smartSelectCards m hand.cards cardType weight length.toNat false) := by
  obtain ⟨last, haccepted, rfl, rfl⟩ := hrecorded
  obtain ⟨-, -, -, hholds⟩ := (canPopWith_accepted_iff last.ascending
    (fun _ => List.Perm.refl _) _).mp haccepted
  rcases (predicateOf_iff last.ascending _).mp hholds with hlegal | ⟨rfl, -⟩
  · exact choicePlays_of_sound
      ((choiceSound_iff m hand (.replying last cardType hlegal)).mpr hfour)
  · intro hne
    rcases @findThreeAndTwo_picked hand (m.cleared .threeAndTwo)
        (getCardsWeight last.cards .threeAndTwo) rfl rfl with hnil | ⟨hpicked, hlength, -⟩
    · exact absurd hnil hne
    · have hplay := hpicked.playFor_eq (by omega) (by simp)
      exact ⟨hpicked.subperm, hplay.trans
        (congrArg (fun cardType => some (Play.mk cardType _ _)) hpicked.curType.symm)⟩

/-- A leading computer player always finds cards to play. -/
theorem findSmallestCards_ne_nil (m : ComputerAI) {cards : List Card} (hasc : Ascending cards)
    (hne : cards ≠ []) : (findSmallestCards m cards).1 ≠ [] := by
  have hlast : ∀ (found : Found) (search : ComputerAI → Found), (∀ m, (search m).1 ≠ []) →
      (orSearch found search).1 ≠ [] := by
    intro found search hsearch
    by_cases hnil : found.1 = []
    · rw [orSearch_of_nil hnil]
      exact hsearch _
    · rwa [orSearch_of_ne hnil]
  unfold findSmallestCards
  refine hlast _ _ fun m => ?_
  simp only
  obtain ⟨card, hcard⟩ := List.exists_mem_of_ne_nil cards hne
  intro hnil
  rcases @findSingle_cases m cards (-1) false hasc with
    ⟨w, selects, heq, -, hweights, -⟩ | ⟨-, hnone⟩
  · rw [heq] at hnil
    have hselects : selects = [] := hnil
    rw [hselects] at hweights
    exact absurd hweights (by simp)
  · refine hnone trivial card.weight ⟨?_, ?_⟩
    · exact List.count_pos_iff.mpr (List.mem_map_of_mem hcard)
    · push_cast
      omega

/-! ## The cards of a game -/

/-- The three players. -/
def Character.plays (seat : Character) : Prop := seat = .me ∨ seat = .right ∨ seat = .left

theorem Character.plays.next {seat : Character} (h : seat.plays) : seat.next.plays := by
  rcases h with rfl | rfl | rfl
  · exact Or.inr (Or.inl rfl)
  · exact Or.inr (Or.inr rfl)
  · exact Or.inl rfl

theorem Character.plays.ne_desk {seat : Character} (h : seat.plays) : seat ≠ .desk := by
  rintro rfl
  rcases h with h | h | h <;> cases h

/-- The cards in the hands and the cards for the landlord. -/
def Game.cards (game : Game) : List Card :=
  game.hand .me ++ game.hand .right ++ game.hand .left ++ game.desk .desk

/-- The cards are cards of the deck, each once, and the hands are sorted. -/
structure Game.Decked (game : Game) : Prop where
  nodup : game.cards.Nodup
  inLibrary : ∀ card ∈ game.cards, card ∈ cardLibrary
  ascending : ∀ seat : Character, seat.plays → Ascending (game.hand seat)

variable {game next : Game} {seat : Character}

theorem Game.hand_sublist (game : Game) (hseat : seat.plays) :
    (game.hand seat).Sublist game.cards := by
  unfold Game.cards
  rcases hseat with rfl | rfl | rfl
  · rw [List.append_assoc, List.append_assoc]
    exact List.sublist_append_left _ _
  · rw [List.append_assoc]
    exact (List.sublist_append_right _ _).trans (List.sublist_append_left _ _)
  · exact (List.sublist_append_right _ _).trans (List.sublist_append_left _ _)

/-- The hand of a player. -/
def Game.Decked.toHand (decked : game.Decked) (hseat : seat.plays) : Hand where
  cards := game.hand seat
  inLibrary := fun card hcard => decked.inLibrary card ((game.hand_sublist hseat).subset hcard)
  nodup := decked.nodup.sublist (game.hand_sublist hseat)
  ascending := decked.ascending seat hseat

theorem nodup_of_subperm {cards others : List Card} (hsub : cards.Subperm others)
    (hnodup : others.Nodup) : cards.Nodup := by
  obtain ⟨middle, hperm, hsublist⟩ := hsub
  exact hperm.nodup_iff.mp (hnodup.sublist hsublist)

/-- Hands only get smaller in the course of a game. -/
theorem Game.Decked.shrink (decked : game.Decked)
    (hhand : ∀ seat, (next.hand seat).Subperm (game.hand seat))
    (hascending : ∀ seat : Character, seat.plays → Ascending (next.hand seat))
    (hdesk : next.desk .desk = game.desk .desk) : next.Decked := by
  have hsub : next.cards.Subperm game.cards := by
    unfold Game.cards
    rw [hdesk]
    exact (((hhand .me).append (hhand .right)).append (hhand .left)).append
      (List.Subperm.refl _)
  exact ⟨nodup_of_subperm hsub decked.nodup,
    fun card hcard => decked.inLibrary card (hsub.subset hcard), hascending⟩

theorem Game.Decked.removeCards (decked : game.Decked) (seat : Character) (cards : List Card) :
    (game.removeCards seat cards).Decked := by
  refine decked.shrink ?_ ?_ rfl
  · intro other
    unfold Game.removeCards
    by_cases hother : other = seat
    · subst hother
      simp only [Function.update_self]
      exact (sortCards_perm _).subperm.trans (List.diff_sublist _ _).subperm
    · simp only [Function.update_of_ne hother]
      exact List.Subperm.refl _
  · intro other hplays
    unfold Game.removeCards
    by_cases hother : other = seat
    · subst hother
      simp only [Function.update_self]
      exact sortCards_ascending _
    · simp only [Function.update_of_ne hother]
      exact decked.ascending other hplays

/-- A change of anything but the hands and the cards for the landlord. -/
theorem Game.Decked.congr (decked : game.Decked) (hhand : next.hand = game.hand)
    (hdesk : next.desk .desk = game.desk .desk) : next.Decked := by
  refine decked.shrink ?_ ?_ hdesk
  · intro other
    rw [hhand]
  · intro other hplays
    rw [hhand]
    exact decked.ascending other hplays

theorem Game.Decked.record (decked : game.Decked) (hseat : seat.plays) {cards : List Card}
    {cardType : CardType} {weight length : Int} :
    (game.record seat cards cardType weight length).Decked := by
  refine decked.congr rfl ?_
  unfold Game.record
  exact Function.update_of_ne hseat.ne_desk.symm _ _

/-! ## Dealing -/

theorem perm_of_count {cards others : List Card}
    (h : ∀ card, cards.count card = others.count card) : cards.Perm others :=
  List.perm_iff_count.mpr h

/-- Every drawn card goes to a player or to the desk. -/
theorem dealFrom_spec (drawn : List Card) (game : Game) (i : Nat) (curType : Character) :
    (dealFrom game i curType drawn).cards.Perm (game.cards ++ drawn) ∧
      (∀ seat, (game.hand seat).length ≤ ((dealFrom game i curType drawn).hand seat).length) ∧
      (dealFrom game i curType drawn).curCardType = game.curCardType ∧
      (dealFrom game i curType drawn).dizhuType = game.dizhuType := by
  induction drawn generalizing game i curType with
  | nil =>
      refine ⟨?_, fun _ => le_rfl, rfl, rfl⟩
      rw [List.append_nil]
      exact List.Perm.refl _
  | cons card drawn ih =>
      unfold dealFrom
      simp only
      generalize hseat : (if i > 51 then Character.desk
        else if curType = .library ∨ curType = .desk then .me else curType) = seat
      have hlibrary : seat ≠ .library := by
        rintro rfl
        split at hseat
        · cases hseat
        · split at hseat
          · cases hseat
          · next hother => exact hother (Or.inl hseat)
      by_cases hdesk : seat = .desk
      · rw [if_pos hdesk]
        obtain ⟨hperm, hgrow, htype, hlandlord⟩ := ih
          { game with desk := Function.update game.desk .desk (game.desk .desk ++ [card]) } (i + 1)
          seat.succ
        refine ⟨hperm.trans (perm_of_count fun c => ?_), hgrow, htype, hlandlord⟩
        simp [Game.cards, List.count_append, List.count_cons]
      · rw [if_neg hdesk]
        obtain ⟨hperm, hgrow, htype, hlandlord⟩ := ih
          { game with hand := Function.update game.hand seat (game.hand seat ++ [card]) } (i + 1)
          seat.succ
        refine ⟨hperm.trans (perm_of_count fun c => ?_), fun other => ?_, htype, hlandlord⟩
        · cases seat with
          | library => exact absurd rfl hlibrary
          | me => simp [Game.cards, List.count_append, List.count_cons]; omega
          | right => simp [Game.cards, List.count_append, List.count_cons]; omega
          | left => simp [Game.cards, List.count_append, List.count_cons]; omega
          | desk => exact absurd rfl hdesk
        · refine le_trans ?_ (hgrow other)
          simp only
          by_cases hother : other = seat
          · subst hother
            simp
          · rw [Function.update_of_ne hother]

theorem sortHand_cards (game : Game) (hseat : seat.plays) :
    (game.sortHand seat).cards.Perm game.cards := by
  refine perm_of_count fun card => ?_
  have hcount := (sortCards_perm (game.hand seat)).count_eq card
  rcases hseat with rfl | rfl | rfl
  · simp [Game.cards, Game.sortHand, List.count_append, hcount]
  · simp [Game.cards, Game.sortHand, List.count_append, hcount]
  · simp [Game.cards, Game.sortHand, List.count_append, hcount]

/-- The whole deck is dealt. -/
theorem deal_cards (hcards : game.cards = []) {drawn : List Card}
    (hdrawn : drawn.Perm cardLibrary) : (game.deal drawn).cards.Perm cardLibrary := by
  have hplays : Character.me.plays ∧ Character.right.plays ∧ Character.left.plays :=
    ⟨Or.inl rfl, Or.inr (Or.inl rfl), Or.inr (Or.inr rfl)⟩
  refine ((sortHand_cards _ hplays.2.2).trans ((sortHand_cards _ hplays.2.1).trans
    ((sortHand_cards _ hplays.1).trans (dealFrom_spec drawn game 1 .me).1))).trans ?_
  rw [hcards, List.nil_append]
  exact hdrawn

/-- The hands after the deal. -/
theorem deal_decked (hcards : game.cards = []) {drawn : List Card}
    (hdrawn : drawn.Perm cardLibrary) : (game.deal drawn).Decked := by
  have hperm := deal_cards hcards hdrawn
  refine ⟨hperm.nodup_iff.mpr cardLibrary_nodup, fun card hcard => hperm.mem_iff.mp hcard, ?_⟩
  rintro seat (rfl | rfl | rfl) <;>
    simp [Game.deal, Game.sortHand, sortCards_ascending]

/-- Every player gets a card. -/
theorem deal_stocked {drawn : List Card} (hdrawn : drawn.Perm cardLibrary)
    (hseat : seat.plays) : (game.deal drawn).hand seat ≠ [] := by
  have hlength : drawn.length = 54 := hdrawn.length_eq.trans length_cardLibrary
  obtain ⟨first, second, third, rest, rfl⟩ :
      ∃ first second third rest, drawn = first :: second :: third :: rest := by
    match drawn, hlength with
    | first :: second :: third :: rest, _ => exact ⟨first, second, third, rest, rfl⟩
  -- the first three cards go to the three players
  obtain ⟨dealt, hdealt, hone⟩ : ∃ dealt : Game,
      dealFrom game 1 .me (first :: second :: third :: rest) = dealFrom dealt 4 .desk rest ∧
        ∀ seat : Character, seat.plays → 1 ≤ (dealt.hand seat).length := by
    refine ⟨{ game with
      hand := Function.update (Function.update (Function.update game.hand
        .me (game.hand .me ++ [first])) .right (game.hand .right ++ [second]))
        .left (game.hand .left ++ [third]) }, rfl, ?_⟩
    rintro seat (rfl | rfl | rfl) <;> simp
  have hgrow := (hone seat hseat).trans ((dealFrom_spec rest dealt 4 .desk).2.1 seat)
  rw [← hdealt] at hgrow
  have hsorted : ((game.deal (first :: second :: third :: rest)).hand seat).length =
      ((dealFrom game 1 .me (first :: second :: third :: rest)).hand seat).length := by
    rcases hseat with rfl | rfl | rfl <;>
      simp [Game.deal, Game.sortHand, (sortCards_perm _).length_eq]
  rw [← hsorted] at hgrow
  exact List.ne_nil_of_length_pos hgrow

/-! ## A running game -/

/-- A running game between two events: the player whose turn it is has no cards
on the desk, the record belongs to some play, and unless the human player holds
the biggest play or its holder is about to lead, the record is the last
play. -/
structure Game.Playing (game : Game) : Prop where
  turn : game.curPly.plays
  biggest : game.biggestPly.plays
  cleared : game.desk game.curPly = []
  recorded : game.curCardType = .none ∨
    Recorded game.curCardType game.curWeight game.curLength
  shown : game.biggestPly = .me ∨ game.curPly = game.biggestPly ∨
    game.lastPlay = some ⟨game.curCardType, game.curWeight, game.curLength⟩

/-- The invariant of a game, through all its phases. -/
structure Game.Sound (game : Game) : Prop where
  decked : game.Decked
  ready : game.phase = .ready → game.cards = []
  landlord : game.dizhuType.plays
  unplayed : game.phase ≠ .playing → game.phase ≠ .over → game.curCardType = .none
  stocked : game.phase ≠ .ready → game.phase ≠ .over → ∀ seat : Character, seat.plays →
    game.hand seat ≠ []
  playing : game.phase = .playing → game.Playing

/-- `Turn` hands the game to the next player. -/
theorem Game.turn_playing (hturn : game.curPly.plays) (hbiggest : game.biggestPly.plays)
    (hrecorded : game.curCardType = .none ∨
      Recorded game.curCardType game.curWeight game.curLength)
    (hshown : game.biggestPly = .me ∨ game.curPly.next = game.biggestPly ∨
      game.lastPlay = some ⟨game.curCardType, game.curWeight, game.curLength⟩) :
    game.turn.Playing where
  turn := hturn.next
  biggest := hbiggest
  cleared := Function.update_self _ _ _
  recorded := hrecorded
  shown := by
    by_cases hnext : game.curPly.next = game.biggestPly
    · exact Or.inr (Or.inl hnext)
    · refine hshown.imp_right fun h => Or.inr ?_
      refine Eq.trans ?_ (h.resolve_left hnext)
      unfold Game.lastPlay
      exact congrArg playFor (Function.update_of_ne (Ne.symm hnext) _ _)

theorem Game.Decked.turn (decked : game.Decked) (hturn : game.curPly.plays) :
    game.turn.Decked :=
  decked.congr rfl (Function.update_of_ne hturn.next.ne_desk.symm _ _)

/-- The turn goes on with the cards, the landlord and the phase as they are. -/
theorem Game.turn_sound (hdecked : game.Decked) (hphase : game.phase = .playing)
    (hlandlord : game.dizhuType.plays)
    (hstocked : ∀ seat : Character, seat.plays → game.hand seat ≠ [])
    (hplaying : game.turn.Playing) (hturn : game.curPly.plays) : game.turn.Sound where
  decked := hdecked.turn hturn
  ready := fun h => (by rw [show game.turn.phase = game.phase from rfl, hphase] at h; cases h)
  landlord := hlandlord
  unplayed := fun h => absurd hphase h
  stocked := fun _ _ => hstocked
  playing := fun _ => hplaying

/-- Once a hand is empty the game is over. -/
theorem Game.over_sound (hdecked : game.Decked) (hlandlord : game.dizhuType.plays) :
    Game.Sound { game with phase := .over } where
  decked := hdecked.congr rfl rfl
  ready := fun h => (by cases h)
  landlord := hlandlord
  unplayed := fun _ h => absurd rfl h
  stocked := fun _ h => absurd rfl h
  playing := fun h => (by cases h)

theorem removeCards_stocked {cards : List Card}
    (hstocked : ∀ seat : Character, seat.plays → game.hand seat ≠ [])
    (hleft : ¬ ((game.removeCards seat cards).hand seat).length = 0) :
    ∀ other : Character, other.plays → (game.removeCards seat cards).hand other ≠ [] := by
  intro other hplays
  by_cases hother : other = seat
  · subst hother
    exact fun hnil => hleft (by rw [hnil]; rfl)
  · unfold Game.removeCards
    simp only [Function.update_of_ne hother]
    exact hstocked other hplays

/-! ## Computer players -/

/-- A computer player is about to misplay: it leads, or replies to a triple
with one card, in one of the situations in which its choice is not what it
records. -/
def Game.Misplays (game : Game) (seat : Character) : Prop :=
  game.selects seat = true ∧
    if game.biggestPly = seat ∨ game.curCardType = .none then
      Landlord.Misplays (weights (game.hand seat)) (.leading .none 0 0)
    else game.curCardType = .threeAndOne ∧
      ∃ w, TakesFourth w (weights (game.hand seat)) game.curWeight

/-- Computer players do not misplay. -/
def noMisplay (game : Game) : Event → Prop
  | .computer => ¬ game.Misplays game.curPly
  | _ => True

/-- A player that leads is asked for its smallest cards, whatever the record. -/
theorem smartSelectCards_leading (m : ComputerAI) (cards : List Card) {cardType : CardType}
    (weight : Int) (length : Nat) {isBiggest : Bool}
    (h : isBiggest = true ∨ cardType = .none) :
    smartSelectCards m cards cardType weight length isBiggest =
      smartSelectCards m cards .none 0 0 true := by
  have hnone : (if isBiggest = true then CardType.none else cardType) = .none := by
    rcases h with rfl | rfl
    · rfl
    · exact ite_self _
  unfold smartSelectCards
  simp only [hnone, if_true, selectCardType]

/-- The choice of a computer player that does not misplay is the play it
records. -/
theorem Game.choice_plays (decked : game.Decked) (playing : game.Playing) (hseat : seat.plays)
    (hselects : game.selects seat = true) (hsound : ¬ game.Misplays seat) :
    ChoicePlays (decked.toHand hseat) (game.choice seat) := by
  unfold Game.Misplays at hsound
  rw [not_and] at hsound
  have hsound := hsound hselects
  by_cases hleads : game.biggestPly = seat ∨ game.curCardType = .none
  · rw [if_pos hleads] at hsound
    have hchoice : game.choice seat =
        choose game.ai (decked.toHand hseat).cards (.leading .none 0 0) := by
      unfold Game.choice choose
      simp only
      exact smartSelectCards_leading _ _ _ _ (hleads.imp_left decide_eq_true)
    rw [hchoice]
    exact choicePlays_of_sound ((choiceSound_iff _ _ _).mpr hsound)
  · rw [if_neg hleads] at hsound
    rw [not_or] at hleads
    have hchoice : game.choice seat = smartSelectCards game.ai (game.hand seat)
        game.curCardType game.curWeight game.curLength.toNat false := by
      unfold Game.choice
      rw [decide_eq_false hleads.1]
    rw [hchoice]
    exact choicePlays_reply _ (decked.toHand hseat) (playing.recorded.resolve_left hleads.2) hsound

/-- The holder of the biggest play always plays. -/
theorem Game.choice_ne_nil (decked : game.Decked) (hseat : seat.plays)
    (hhand : game.hand seat ≠ []) (hbiggest : game.biggestPly = seat) :
    (game.choice seat).cardList ≠ [] := by
  unfold Game.choice smartSelectCards
  simp only [hbiggest, decide_true, if_true, selectCardType]
  exact findSmallestCards_ne_nil _ (decked.ascending seat hseat) hhand

/-- The move of a computer player. -/
theorem Game.Sound.computerTurn (sound : game.Sound) (hphase : game.phase = .playing)
    (hsound : ¬ game.Misplays game.curPly) :
    (game.computerTurn game.curPly).Sound := by
  have playing := sound.playing hphase
  have hturn := playing.turn
  have hhands := sound.stocked (by simp [hphase]) (by simp [hphase])
  -- passing is only possible for a player that does not hold the biggest play
  have hpass : game.biggestPly ≠ game.curPly → ∀ ai : ComputerAI,
      Game.Sound (Game.turn { game with ai := ai }) := by
    intro hother ai
    refine Game.turn_sound (sound.decked.congr rfl rfl) hphase sound.landlord hhands ?_ hturn
    refine Game.turn_playing hturn playing.biggest playing.recorded ?_
    exact playing.shown.imp_right fun h => Or.inr (h.resolve_left (Ne.symm hother))
  unfold Game.computerTurn
  by_cases hselects : game.selects game.curPly = true
  · rw [if_pos hselects]
    simp only
    have hplays := game.choice_plays sound.decked playing hturn hselects hsound
    by_cases hnil : (game.choice game.curPly).cardList = []
    · simp only [hnil, List.length_nil, ne_eq, not_true_eq_false, decide_false,
        Bool.false_eq_true, if_false]
      rw [if_neg fun h => hhands _ hturn (List.length_eq_zero_iff.mp h)]
      refine hpass (fun hbiggest => ?_) _
      exact Game.choice_ne_nil sound.decked hturn (hhands _ hturn) hbiggest hnil
    · obtain ⟨hsub, hplay⟩ := hplays hnil
      have hfind : ¬ (game.choice game.curPly).cardList.length = 0 :=
        fun h => hnil (List.length_eq_zero_iff.mp h)
      simp only [ne_eq, hfind, not_false_eq_true, decide_true, if_true]
      have chosen : Game.Decked { game with ai := game.choice game.curPly } :=
        sound.decked.congr rfl rfl
      have hdecked := chosen.removeCards game.curPly (game.choice game.curPly).cardList
      split
      · exact Game.over_sound hdecked sound.landlord
      · next hleft =>
        have hrecorded := recorded_of_playFor hplay
          (fun card hcard => (sound.decked.toHand hturn).inLibrary card (hsub.subset hcard))
          (nodup_of_subperm hsub (sound.decked.toHand hturn).nodup)
        refine Game.turn_sound ?_ hphase sound.landlord ?_ ?_ hturn
        · exact hdecked.congr rfl (Function.update_of_ne hturn.ne_desk.symm _ _)
        · exact removeCards_stocked hhands hleft
        · refine Game.turn_playing hturn hturn (Or.inr hrecorded) (Or.inr (Or.inr ?_))
          show playFor (Function.update game.desk game.curPly
            (game.desk game.curPly ++ (game.choice game.curPly).cardList) game.curPly) = _
          rw [Function.update_self, playing.cleared, List.nil_append]
          exact hplay
  · rw [if_neg hselects]
    refine hpass (fun hbiggest => hselects ?_) game.ai
    unfold Game.selects
    simp [hbiggest]

/-! ## The human player -/

section Human

variable {pairs : List Rule → List Rule} (hpairs : ∀ rules, (pairs rules).Perm rules)
include hpairs

/-- A selection is accepted when it makes a play that the comparison with the
record allows. -/
theorem Game.canPlay_isSome_iff (game : Game) (selected : List Card) :
    (game.canPlay pairs selected).isSome = true ↔
      ∃ new, playFor selected = some new ∧ game.allows new.cardType new.weight = true := by
  have hruler := canPopWith_iff_canPop hpairs (sortCards_ascending selected)
  have hnot : (∀ cardType, canPopWith pairs (sortCards selected) ≠ .accepted cardType) →
      ¬ ∃ new, playFor selected = some new ∧ game.allows new.cardType new.weight = true := by
    rintro hrefused ⟨new, hnew, -⟩
    exact hrefused _ ((hruler _).mpr (playFor_eq_some_iff.mp hnew).1)
  unfold Game.canPlay
  simp only
  cases hpop : canPopWith pairs (sortCards selected) with
  | accepted cardType =>
      have hplay : playFor selected = some (playOf (sortCards selected) cardType) :=
        playFor_eq_some_iff.mpr ⟨(hruler cardType).mp hpop, rfl⟩
      rw [hplay]
      simp only [Option.some.injEq, exists_eq_left']
      by_cases hallows : game.allows cardType
          (getCardsWeight (sortCards selected) cardType) = true
      · simp [hallows, playOf]
      · simp [hallows, playOf]
  | rejected =>
      rw [hpop] at hnot
      exact iff_of_false (by simp) (hnot (by simp))
  | raised =>
      rw [hpop] at hnot
      exact iff_of_false (by simp) (hnot (by simp))

/-- An accepted play. -/
theorem Game.Sound.canPlay (sound : game.Sound) (hphase : game.phase = .playing)
    {selected : List Card} (hselected : selected.Subperm (game.hand .me))
    (hnext : game.canPlay pairs selected = some next) : next.Sound := by
  have hme : Character.me.plays := Or.inl rfl
  have hhands := sound.stocked (by simp [hphase]) (by simp [hphase])
  have hruler := canPopWith_iff_canPop hpairs (sortCards_ascending selected)
  unfold Game.canPlay at hnext
  simp only at hnext
  cases hpop : canPopWith pairs (sortCards selected) with
  | rejected =>
      rw [hpop] at hnext
      cases hnext
  | raised =>
      rw [hpop] at hnext
      cases hnext
  | accepted cardType =>
      rw [hpop] at hnext
      simp only at hnext
      split at hnext
      · cases hnext
        have hplay : playFor selected = some (playOf (sortCards selected) cardType) :=
          playFor_eq_some_iff.mpr ⟨(hruler cardType).mp hpop, rfl⟩
        have hrecorded := recorded_of_playFor hplay
          (fun card hcard => (sound.decked.toHand hme).inLibrary card (hselected.subset hcard))
          (nodup_of_subperm hselected (sound.decked.toHand hme).nodup)
        have playing : Game.Decked { game with curPly := .me } := sound.decked.congr rfl rfl
        have hdecked := (@Game.Decked.record _ _ playing hme (sortCards selected) cardType
          (getCardsWeight (sortCards selected) cardType)
          (sortCards selected).length).removeCards .me (sortCards selected)
        unfold Game.setTypeData
        simp only
        split
        · exact Game.over_sound hdecked sound.landlord
        · next hleft =>
          refine Game.turn_sound (hdecked.congr rfl rfl) hphase sound.landlord ?_ ?_ hme
          · exact removeCards_stocked hhands hleft
          · exact Game.turn_playing hme hme (Or.inr hrecorded) (Or.inl rfl)
      · cases hnext

end Human

/-! ## All runs -/

theorem sound_newGame : newGame.Sound where
  decked := ⟨List.nodup_nil, fun _ h => (by cases h), fun _ _ => List.Pairwise.nil⟩
  ready := fun _ => rfl
  landlord := Or.inl rfl
  unplayed := fun _ _ => rfl
  stocked := fun h => absurd rfl h
  playing := fun h => (by cases h)

/-- A phase before the game keeps the invariant when the cards stay where they
are. -/
theorem Game.Sound.waiting (sound : game.Sound)
    (hphase : next.phase ≠ .ready ∧ next.phase ≠ .playing)
    (hbefore : game.phase ≠ .ready ∧ game.phase ≠ .playing ∧ game.phase ≠ .over)
    (hhand : next.hand = game.hand) (hdesk : next.desk = game.desk)
    (htype : next.curCardType = game.curCardType) (hlandlord : next.dizhuType.plays) :
    next.Sound where
  decked := sound.decked.congr hhand (by rw [hdesk])
  ready := fun h => absurd h hphase.1
  landlord := hlandlord
  unplayed := fun _ _ => htype.trans (sound.unplayed hbefore.2.1 hbefore.2.2)
  stocked := fun _ _ seat hseat => by
    rw [hhand]
    exact sound.stocked hbefore.1 hbefore.2.2 seat hseat
  playing := fun h => absurd h hphase.2

theorem Game.Sound.deal (sound : game.Sound) (hphase : game.phase = .ready) {drawn : List Card}
    (hdrawn : drawn.Perm cardLibrary) : (game.deal drawn).Sound where
  decked := deal_decked (sound.ready hphase) hdrawn
  ready := fun h => (by cases h)
  landlord := by
    have hspec := (dealFrom_spec drawn game 1 .me).2.2.2
    show (dealFrom game 1 .me drawn).dizhuType.plays
    rw [hspec]
    exact sound.landlord
  unplayed := fun _ _ => by
    have hspec := (dealFrom_spec drawn game 1 .me).2.2.1
    show (dealFrom game 1 .me drawn).curCardType = .none
    rw [hspec]
    exact sound.unplayed (by simp [hphase]) (by simp [hphase])
  stocked := fun _ _ seat hseat => deal_stocked hdrawn hseat
  playing := fun h => (by cases h)

theorem Game.Sound.isJDZ (sound : game.Sound) (hphase : game.phase = .dealt) :
    game.isJDZ.Sound := by
  refine sound.waiting ⟨by simp [Game.isJDZ], by simp [Game.isJDZ]⟩
    ⟨by simp [hphase], by simp [hphase], by simp [hphase]⟩ rfl rfl rfl ?_
  have hask : ∀ (g : Game) (seat : Character), seat.plays → g.dizhuType.plays →
      (g.askComputer seat).dizhuType.plays := by
    intro g seat hseat hlandlord
    unfold Game.askComputer
    simp only
    split
    · exact hseat
    · exact hlandlord
  exact hask _ _ (Or.inr (Or.inr rfl)) (hask _ _ (Or.inr (Or.inl rfl)) sound.landlord)

/-- The landlord takes the cards of the desk. -/
theorem dealDiZhuCards_cards (hlandlord : game.dizhuType.plays) :
    game.dealDiZhuCards.cards.Perm game.cards := by
  refine perm_of_count fun card => ?_
  have hcount := (sortCards_perm (game.hand game.dizhuType ++ game.desk .desk)).count_eq card
  rw [List.count_append] at hcount
  rcases hlandlord with h | h | h
  · rw [h] at hcount
    simp [Game.cards, Game.dealDiZhuCards, Game.sortHand, h, List.count_append, hcount]
    omega
  · rw [h] at hcount
    simp [Game.cards, Game.dealDiZhuCards, Game.sortHand, h, List.count_append, hcount]
    omega
  · rw [h] at hcount
    simp [Game.cards, Game.dealDiZhuCards, Game.sortHand, h, List.count_append, hcount]

theorem dealDiZhuCards_ascending
    (hascending : ∀ seat : Character, seat.plays → Ascending (game.hand seat)) :
    ∀ seat : Character, seat.plays → Ascending (game.dealDiZhuCards.hand seat) := by
  intro seat hseat
  by_cases hlandlord : seat = game.dizhuType
  · subst hlandlord
    simp [Game.dealDiZhuCards, Game.sortHand, sortCards_ascending]
  · simp only [Game.dealDiZhuCards, Game.sortHand, Function.update_of_ne hlandlord]
    exact hascending seat hseat

/-- The landlord gets the cards of the desk. -/
theorem Game.Sound.dealDiZhuCards (sound : game.Sound) (hphase : game.phase = .asked) :
    game.dealDiZhuCards.Sound := by
  have hperm := dealDiZhuCards_cards sound.landlord
  refine
    { decked := ⟨hperm.nodup_iff.mpr sound.decked.nodup,
        fun card hcard => sound.decked.inLibrary card (hperm.mem_iff.mp hcard), ?_⟩
      ready := fun h => (by cases h)
      landlord := sound.landlord
      unplayed := fun _ _ => sound.unplayed (by simp [hphase]) (by simp [hphase])
      stocked := ?_
      playing := fun h => (by cases h) }
  · exact dealDiZhuCards_ascending sound.decked.ascending
  · intro _ _ seat hseat
    have hhand := sound.stocked (by simp [hphase]) (by simp [hphase]) seat hseat
    by_cases hlandlord : seat = game.dizhuType
    · subst hlandlord
      simp only [Game.dealDiZhuCards, Game.sortHand, Function.update_self]
      intro hnil
      have hempty := (sortCards_perm (game.hand game.dizhuType ++ game.desk .desk)).symm
      rw [hnil] at hempty
      exact hhand (List.append_eq_nil_iff.mp (List.perm_nil.mp hempty)).1
    · simp only [Game.dealDiZhuCards, Game.sortHand, Function.update_of_ne hlandlord]
      exact hhand

theorem Game.Sound.start (sound : game.Sound) (hphase : game.phase = .granted) :
    game.start.Sound where
  decked := sound.decked.congr rfl (Function.update_of_ne sound.landlord.ne_desk.symm _ _)
  ready := fun h => (by cases h)
  landlord := sound.landlord
  unplayed := fun h => absurd rfl h
  stocked := fun _ _ => sound.stocked (by simp [hphase]) (by simp [hphase])
  playing := fun _ =>
    { turn := sound.landlord
      biggest := sound.landlord
      cleared := Function.update_self _ _ _
      recorded := Or.inl (sound.unplayed (by simp [hphase]) (by simp [hphase]))
      shown := Or.inr (Or.inl rfl) }

/-- The human player passes. -/
theorem Game.Sound.pass (sound : game.Sound) (hturn : game.myTurn) : game.turn.Sound := by
  obtain ⟨hphase, hme⟩ := hturn
  have playing := sound.playing hphase
  refine Game.turn_sound sound.decked hphase sound.landlord
    (sound.stocked (by simp [hphase]) (by simp [hphase])) ?_ playing.turn
  refine Game.turn_playing playing.turn playing.biggest playing.recorded ?_
  rcases playing.shown with hown | hholder | hshown
  · exact Or.inl hown
  · exact Or.inl (hholder.symm.trans hme)
  · exact Or.inr (Or.inr hshown)

/-- Every event keeps the invariant, as long as no computer player misplays. -/
theorem sound_step {pairs : List Rule → List Rule} (hpairs : ∀ rules, (pairs rules).Perm rules)
    {event : Event} (sound : game.Sound) (hguard : noMisplay game event)
    (hstep : step pairs game event = some next) : next.Sound := by
  cases event with
  | deal drawn =>
      simp only [step] at hstep
      split at hstep
      · next hready =>
        cases hstep
        exact sound.deal hready.1 hready.2
      · cases hstep
  | isJDZ =>
      simp only [step] at hstep
      split at hstep
      · next hphase =>
        cases hstep
        exact sound.isJDZ hphase
      · cases hstep
  | grab =>
      simp only [step] at hstep
      split at hstep
      · next hphase =>
        cases hstep
        have mine : Game.Sound { game with dizhuType := .me } :=
          sound.waiting ⟨by simp [hphase], by simp [hphase]⟩
            ⟨by simp [hphase], by simp [hphase], by simp [hphase]⟩ rfl rfl rfl (Or.inl rfl)
        exact mine.dealDiZhuCards hphase
      · cases hstep
  | disGrab =>
      simp only [step] at hstep
      split at hstep
      · next hphase =>
        cases hstep
        exact sound.dealDiZhuCards hphase
      · cases hstep
  | start =>
      simp only [step] at hstep
      split at hstep
      · next hphase =>
        cases hstep
        exact sound.start hphase
      · cases hstep
  | computer =>
      simp only [step] at hstep
      split at hstep
      · next hturn =>
        cases hstep
        exact sound.computerTurn hturn.1 hguard
      · cases hstep
  | play selected =>
      simp only [step] at hstep
      split at hstep
      · next hturn =>
        cases hstep
        obtain ⟨⟨hphase, hme⟩, hselected⟩ := hturn
        cases hplay : game.canPlay pairs selected with
        | none =>
            rw [← hme]
            exact sound
        | some played => exact sound.canPlay hpairs hphase hselected hplay
      · cases hstep
  | pass =>
      simp only [step] at hstep
      split at hstep
      · next hturn =>
        cases hstep
        exact sound.pass hturn
      · cases hstep

/-- In a run without misplays every game reached is sound. -/
theorem sound_run {pairs : List Rule → List Rule} (hpairs : ∀ rules, (pairs rules).Perm rules)
    {events : List Event} (hrun : Run (step pairs) noMisplay newGame events game) : game.Sound :=
  hrun.invariant sound_newGame fun _ _ _ sound hguard hstep =>
    sound_step hpairs sound hguard hstep

/-! ## The rule of the game -/

/-- The new play is heavier than the last one and of the same type, but not of
the same number of cards. -/
def OtherLength (new last : Play) : Prop :=
  new.cardType = last.cardType ∧ new.length ≠ last.length ∧ last.weight < new.weight

instance (new last : Play) : Decidable (OtherLength new last) :=
  inferInstanceAs (Decidable (_ ∧ _))

/-- What the comparison of `canPlay` allows, when another player holds the
biggest play. -/
theorem Game.allows_iff (hother : game.biggestPly ≠ .me) (new : Play) :
    game.allows new.cardType new.weight = true ↔
      new.cardType = .jokerBoom ∨
        (new.cardType = .boom ∧ game.curCardType ≠ .boom ∧ game.curCardType ≠ .jokerBoom) ∨
        (new.cardType = game.curCardType ∧ game.curWeight < new.weight) := by
  have hcode : CardType.code .boom > game.curCardType.code ↔
      game.curCardType ≠ .boom ∧ game.curCardType ≠ .jokerBoom := by
    cases game.curCardType <;> decide
  unfold Game.allows
  rw [if_pos hother]
  by_cases hbomb : new.cardType = .jokerBoom ∨
      (new.cardType = .boom ∧ new.cardType.code > game.curCardType.code)
  · rw [if_pos hbomb]
    refine iff_of_true rfl ?_
    rcases hbomb with hjoker | ⟨hboom, hgt⟩
    · exact Or.inl hjoker
    · rw [hboom] at hgt
      exact Or.inr (Or.inl ⟨hboom, hcode.mp hgt⟩)
  · rw [if_neg hbomb]
    rw [not_or] at hbomb
    constructor
    · intro h
      split at h
      · next hsame => exact Or.inr (Or.inr hsame)
      · cases h
    · rintro (hjoker | ⟨hboom, hlower⟩ | hsame)
      · exact absurd hjoker hbomb.1
      · refine absurd ⟨hboom, ?_⟩ hbomb.2
        rw [hboom]
        exact hcode.mpr hlower
      · rw [if_pos hsame]

/-- In a run without misplays, when it is the turn of the human player and
another player holds the biggest play, there is a last play, and `canPlay`
accepts a selection exactly when it beats the last play, unless the selection
is a heavier play of the same type and of another number of cards. -/
theorem canPlay_iff {pairs : List Rule → List Rule} (hpairs : ∀ rules, (pairs rules).Perm rules)
    {events : List Event} (hrun : Run (step pairs) noMisplay newGame events game)
    (hturn : game.myTurn) (hother : game.biggestPly ≠ .me) (selected : List Card) :
    ∃ last, game.lastPlay = some last ∧
      (((game.canPlay pairs selected).isSome = true ↔
          ∃ new, playFor selected = some new ∧ Beats new last) ↔
        ¬ ∃ new, playFor selected = some new ∧ OtherLength new last) := by
  obtain ⟨hphase, hme⟩ := hturn
  have playing := (sound_run hpairs hrun).playing hphase
  have hlast : game.lastPlay = some ⟨game.curCardType, game.curWeight, game.curLength⟩ := by
    rcases playing.shown with hown | hholder | hshown
    · exact absurd hown hother
    · exact absurd (hholder.symm.trans hme) hother
    · exact hshown
  refine ⟨_, hlast, ?_⟩
  rw [game.canPlay_isSome_iff hpairs]
  cases hplay : playFor selected with
  | none => simp
  | some new =>
      simp only [Option.some.injEq, exists_eq_left']
      rw [Game.allows_iff hother]
      unfold Beats OtherLength
      simp only
      by_cases hjoker : new.cardType = .jokerBoom
      · -- two joker bombs have the same length
        refine iff_of_true (iff_of_true (Or.inl hjoker) (Or.inl hjoker)) ?_
        rintro ⟨hsame, hlength, -⟩
        have hnew := length_of_jokerBoom hplay hjoker
        have hold := length_of_jokerBoom hlast (hsame.symm.trans hjoker)
        exact hlength (hnew.trans hold.symm)
      · by_cases hboom : new.cardType = .boom ∧ game.curCardType ≠ .boom ∧
            game.curCardType ≠ .jokerBoom
        · refine iff_of_true (iff_of_true (Or.inr (Or.inl hboom)) (Or.inr (Or.inl hboom))) ?_
          rintro ⟨hsame, -⟩
          exact hboom.2.1 (hsame.symm.trans hboom.1)
        · simp only [hjoker, hboom, false_or]
          tauto

/-! ## A longer straight -/

/-- The draws of a deal that gives these cards to the players and the last
three to the desk. -/
def drawsOf (me right left desk : List Card) : List Card :=
  ((me.zip (right.zip left)).flatMap fun cards => [cards.1, cards.2.1, cards.2.2]) ++ desk

/-- The left player holds the four nines and the straight from three to seven. -/
def opening : List Event :=
  [.deal (drawsOf
    [⟨.club, 3⟩, ⟨.club, 4⟩, ⟨.club, 5⟩, ⟨.club, 6⟩, ⟨.club, 7⟩, ⟨.club, 8⟩, ⟨.heart, 3⟩,
      ⟨.heart, 4⟩, ⟨.heart, 5⟩, ⟨.heart, 6⟩, ⟨.heart, 7⟩, ⟨.heart, 8⟩, ⟨.club, 10⟩,
      ⟨.heart, 10⟩, ⟨.club, 12⟩, ⟨.heart, 12⟩, ⟨.club, 14⟩]
    [⟨.spade, 3⟩, ⟨.spade, 4⟩, ⟨.spade, 5⟩, ⟨.spade, 6⟩, ⟨.spade, 7⟩, ⟨.spade, 8⟩,
      ⟨.square, 8⟩, ⟨.spade, 10⟩, ⟨.square, 10⟩, ⟨.spade, 12⟩, ⟨.square, 12⟩, ⟨.heart, 14⟩,
      ⟨.spade, 14⟩, ⟨.square, 14⟩, ⟨.club, 11⟩, ⟨.club, 13⟩, ⟨.none, 17⟩]
    [⟨.square, 3⟩, ⟨.square, 4⟩, ⟨.square, 5⟩, ⟨.square, 6⟩, ⟨.square, 7⟩, ⟨.club, 9⟩,
      ⟨.heart, 9⟩, ⟨.spade, 9⟩, ⟨.square, 9⟩, ⟨.heart, 11⟩, ⟨.spade, 11⟩, ⟨.square, 11⟩,
      ⟨.heart, 13⟩, ⟨.spade, 13⟩, ⟨.square, 13⟩, ⟨.club, 15⟩, ⟨.heart, 15⟩]
    [⟨.spade, 15⟩, ⟨.square, 15⟩, ⟨.none, 16⟩]), .isJDZ, .disGrab, .start]

/-- The left player is the landlord and about to lead. -/
def opened : Game :=
  (exec (step id) (fun _ event => event ≠ .computer) newGame opening).getD newGame

/-- It leads the straight from three to seven. -/
def straightLed : Game := (step id opened .computer).getD newGame

theorem opened_run : Run (step id) (fun _ event => event ≠ .computer) newGame opening opened :=
  run_exec_getD newGame (by decide +kernel)

/-- A leading computer player with a straight of five does not misplay, when it
has not the straight from three to ace. -/
theorem Game.not_misplays_of_straight
    (hleads : game.biggestPly = seat ∨ game.curCardType = .none) {a : Nat}
    (hace : a + 5 ≤ Weight.one + 1) (hfive : blocks 1 a 5 <:+: weights (game.hand seat))
    (hfull : ¬ blocks 1 Weight.three 12 <:+: weights (game.hand seat)) :
    ¬ game.Misplays seat := by
  rintro ⟨-, hmisplays⟩
  rw [if_pos hleads] at hmisplays
  rcases hmisplays with h | ⟨hnone, -⟩
  · exact hfull h
  · exact hnone a hace hfive

theorem opened_plays : ¬ opened.Misplays opened.curPly :=
  Game.not_misplays_of_straight (by decide +kernel) (by decide : 3 + 5 ≤ Weight.one + 1)
    (by decide +kernel) (by decide +kernel)

theorem straightLed_run :
    Run (step id) noMisplay newGame (opening ++ [.computer]) straightLed := by
  have hwaiting : ∀ (game : Game) (event : Event), event ≠ .computer → noMisplay game event := by
    intro game event hevent
    cases event with
    | computer => exact absurd rfl hevent
    | _ => trivial
  exact .snoc (opened_run.mono hwaiting) opened_plays (eq_some_getD newGame (by decide +kernel))

/-- The clubs from three to eight. -/
def sixClubs : List Card :=
  [⟨.club, 3⟩, ⟨.club, 4⟩, ⟨.club, 5⟩, ⟨.club, 6⟩, ⟨.club, 7⟩, ⟨.club, 8⟩]

/-- Five of them go over the straight from three to seven. -/
theorem canPlay_fiveClubs :
    ∃ last, straightLed.lastPlay = some last ∧
      (((straightLed.canPlay id sixClubs.tail).isSome = true ↔
          ∃ new, playFor sixClubs.tail = some new ∧ Beats new last) ↔
        ¬ ∃ new, playFor sixClubs.tail = some new ∧ OtherLength new last) :=
  canPlay_iff (fun _ => List.Perm.refl _) straightLed_run (by decide +kernel) (by decide +kernel)
    sixClubs.tail

/-- All six of them are accepted too, but a straight of six does not beat a
straight of five. -/
theorem canPlay_sixClubs :
    Run (step id) noMisplay newGame (opening ++ [.computer]) straightLed ∧
      (straightLed.myTurn ∧ straightLed.biggestPly = .left ∧
        sixClubs.Subperm (straightLed.hand .me)) ∧
      straightLed.lastPlay = some ⟨.straight, 25, 5⟩ ∧
      playFor sixClubs = some ⟨.straight, 33, 6⟩ ∧
      (straightLed.canPlay id sixClubs).isSome = true ∧
      ¬ Beats ⟨.straight, 33, 6⟩ ⟨.straight, 25, 5⟩ :=
  ⟨straightLed_run, by decide +kernel, by decide +kernel, by decide, by decide +kernel,
    by decide⟩

end Landlord
end ArmyRs
