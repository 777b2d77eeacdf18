import ArmyRs.Landlord.CombatControllerPlays
import ArmyRs.Landlord.ComputerAIHands
import ArmyRs.Landlord.Rounds

/-!
# No card is lost

`Moved` says what one move of a running game changes: the cards that are played
leave the hand of the player whose turn it is, and nothing else happens to the
hands.  `Round.Conserved` counts the cards in every phase of a round, and
`conserved_of_run` carries it over all runs: the hands, the cards of the desk,
the queue and the played cards are always the whole deck.
-/

namespace ArmyRs
namespace Landlord

open Foundation

variable {game next : Game} {seat : Character} {cards : List Card}

/-! ## The draw -/

/-- A random position between one and the number of cards left, for each card
that is drawn. -/
def Positions : Nat → List Nat → Prop
  | _, [] => True
  | count, index :: choices => (1 ≤ index ∧ index ≤ count) ∧ Positions (count - 1) choices

/-- A drawn card leaves the queue. -/
theorem dealCard_perm {queue rest : List Card} {index : Nat} {card : Card}
    (h : dealCard queue index = some (card, rest)) : (card :: rest).Perm queue := by
  unfold dealCard at h
  split at h
  · cases h
  · rw [Option.map_eq_some_iff] at h
    obtain ⟨drawn, hdrawn, hpair⟩ := h
    cases hpair
    obtain ⟨hlt, rfl⟩ := List.getElem?_eq_some_iff.mp hdrawn
    exact List.getElem_cons_eraseIdx_perm hlt

/-- The drawn cards and the cards left are the cards of the queue. -/
theorem drawCards_perm {choices : List Nat} {queue drawn rest : List Card}
    (h : drawCards choices queue = some (drawn, rest)) :
    (drawn ++ rest).Perm queue ∧ drawn.length = choices.length := by
  induction choices generalizing queue drawn with
  | nil =>
      cases h
      exact ⟨List.Perm.refl _, rfl⟩
  | cons index choices ih =>
      unfold drawCards at h
      split at h
      · cases h
      · next card left hcard =>
        rw [Option.map_eq_some_iff] at h
        obtain ⟨⟨others, rest'⟩, hothers, hpair⟩ := h
        cases hpair
        obtain ⟨hperm, hlength⟩ := ih hothers
        constructor
        · exact (hperm.cons card).trans (dealCard_perm hcard)
        · exact congrArg (· + 1) hlength

/-- The draw never fails. -/
theorem drawCards_isSome {choices : List Nat} {queue : List Card}
    (h : Positions queue.length choices) : (drawCards choices queue).isSome = true := by
  induction choices generalizing queue with
  | nil => rfl
  | cons index choices ih =>
      obtain ⟨⟨hone, hle⟩, hrest⟩ := h
      have hlt : index - 1 < queue.length := by omega
      have hcard : dealCard queue index = some (queue[index - 1], queue.eraseIdx (index - 1)) := by
        unfold dealCard
        rw [if_neg (by omega), List.getElem?_eq_getElem hlt]
        rfl
      unfold drawCards
      rw [hcard]
      simp only [Option.isSome_map]
      apply ih
      rw [List.length_eraseIdx_of_lt hlt]
      exact hrest

/-! ## The deal -/

/-- The cards of the hands and of the desk after a loop of the deal that starts
with the human player: three cards go round, as often as it takes, and the last
three cards go to the desk. -/
theorem length_dealFrom {n i : Nat} (hi : i + 3 * n = 52) {curType : Character}
    (hfirst : curType = .me ∨ curType = .desk) {drawn : List Card}
    (hdrawn : drawn.length = 3 * n + 3) (game : Game) :
    (∀ seat : Character, seat.plays →
      ((dealFrom game i curType drawn).hand seat).length = (game.hand seat).length + n) ∧
    ((dealFrom game i curType drawn).desk .desk).length = (game.desk .desk).length + 3 := by
  induction n generalizing i curType drawn game with
  | zero =>
      obtain rfl : i = 52 := by omega
      obtain ⟨first, second, third, rfl⟩ := List.length_eq_three.mp hdrawn
      exact ⟨fun _ _ => rfl, by simp [dealFrom]⟩
  | succ n ih =>
      obtain ⟨first, second, third, rest, rfl⟩ :
          ∃ first second third rest, drawn = first :: second :: third :: rest := by
        match drawn, hdrawn with
        | first :: second :: third :: rest, _ => exact ⟨first, second, third, rest, rfl⟩
      have hrest : rest.length = 3 * n + 3 := by
        simp only [List.length_cons] at hdrawn
        omega
      have hround : dealFrom game i curType (first :: second :: third :: rest) =
          dealFrom { game with
            hand := Function.update (Function.update (Function.update game.hand
              .me (game.hand .me ++ [first])) .right (game.hand .right ++ [second]))
              .left (game.hand .left ++ [third]) } (i + 3) .desk rest := by
        have hlow : ¬ i > 51 ∧ ¬ i + 1 > 51 ∧ ¬ i + 1 + 1 > 51 := by omega
        rcases hfirst with rfl | rfl
        · simp [dealFrom, hlow, Character.succ]
        · simp [dealFrom, hlow, Character.succ]
      obtain ⟨hhands, hdesk⟩ := @ih (i + 3) (by omega) .desk (Or.inr rfl) rest hrest { game with
            hand := Function.update (Function.update (Function.update game.hand
              .me (game.hand .me ++ [first])) .right (game.hand .right ++ [second]))
              .left (game.hand .left ++ [third]) }
      rw [hround]
      refine ⟨fun seat hseat => ?_, hdesk⟩
      rw [hhands seat hseat]
      rcases hseat with rfl | rfl | rfl <;> simp <;> omega

/-- The hands and the desk after the deal. -/
theorem length_deal (hcards : game.cards = []) {drawn : List Card}
    (hdrawn : drawn.Perm cardLibrary) :
    (∀ seat : Character, seat.plays → ((game.deal drawn).hand seat).length = 17) ∧
      ((game.deal drawn).desk .desk).length = 3 := by
  have hempty : (∀ seat : Character, seat.plays → game.hand seat = []) ∧ game.desk .desk = [] := by
    simp only [Game.cards, List.append_eq_nil_iff] at hcards
    obtain ⟨⟨⟨hme, hright⟩, hleft⟩, hdesk⟩ := hcards
    refine ⟨?_, hdesk⟩
    rintro seat (rfl | rfl | rfl)
    · exact hme
    · exact hright
    · exact hleft
  have hlength : drawn.length = 3 * 17 + 3 := hdrawn.length_eq.trans length_cardLibrary
  obtain ⟨hhands, hdesk⟩ := length_dealFrom (n := 17) rfl (Or.inl rfl) hlength game
  constructor
  · intro seat hseat
    have hsorted : ((game.deal drawn).hand seat).length =
        ((dealFrom game 1 .me drawn).hand seat).length := by
      rcases hseat with rfl | rfl | rfl <;>
        simp [Game.deal, Game.sortHand, (sortCards_perm _).length_eq]
    rw [hsorted, hhands seat hseat, hempty.1 seat hseat]
    rfl
  · show ((dealFrom game 1 .me drawn).desk .desk).length = 3
    rw [hdesk, hempty.2]
    rfl

/-! ## Moves -/

/-- The cards leave one hand. -/
structure Game.Removes (game next : Game) (seat : Character) (cards : List Card) : Prop where
  removed : (game.hand seat).Perm (next.hand seat ++ cards)
  others : ∀ other, other ≠ seat → next.hand other = game.hand other
  desk : next.desk .desk = game.desk .desk

theorem Game.Removes.nothing (hhand : next.hand = game.hand)
    (hdesk : next.desk .desk = game.desk .desk) : game.Removes next seat [] where
  removed := by
    rw [hhand, List.append_nil]
  others := fun other _ => by rw [hhand]
  desk := hdesk

theorem Game.removes_removeCards (game : Game) (hsub : cards.Subperm (game.hand seat)) :
    game.Removes (game.removeCards seat cards) seat cards where
  removed := by
    have hsorted := sortCards_perm ((game.hand seat).diff cards)
    unfold Game.removeCards
    dsimp only
    rw [Function.update_self]
    calc (game.hand seat).Perm (cards ++ (game.hand seat).diff cards) :=
          (List.subperm_append_diff_self_of_count_le
            (List.subperm_ext_iff.mp hsub)).symm
      _ |>.Perm ((game.hand seat).diff cards ++ cards) := List.perm_append_comm
      _ |>.Perm (sortCards ((game.hand seat).diff cards) ++ cards) := hsorted.symm.append_right _
  others := fun other hother => Function.update_of_ne hother _ _
  desk := rfl

/-- A player makes a move: the cards leave the hand, and unless that wins the
game or the turn goes on, the next player moves. -/
structure Game.Moved (game next : Game) (seat : Character) (cards : List Card)
    (endsTurn : Bool) : Prop extends Game.Removes game next seat cards where
  ascending : Ascending (game.hand seat) → Ascending (next.hand seat)
  stocked : next.phase = .playing → cards ≠ [] → next.hand seat ≠ []
  phase : next.phase = .playing ∨ next.phase = .over
  ended : next.phase = .over → next.hand seat = []
  landlord : next.dizhuType = game.dizhuType
  turn : next.phase = .playing → next.curPly = if endsTurn then seat.next else seat
  biggest : next.phase = .playing → next.biggestPly = if cards = [] then game.biggestPly else seat

/-- The game after the cards have left the hand, before the turn ends. -/
structure Game.Laid (game middle : Game) (seat : Character) (cards : List Card) : Prop
    extends Game.Removes game middle seat cards where
  ascending : Ascending (game.hand seat) → Ascending (middle.hand seat)
  landlord : middle.dizhuType = game.dizhuType

theorem Game.Laid.nothing (hhand : next.hand = game.hand)
    (hdesk : next.desk .desk = game.desk .desk)
    (hlandlord : next.dizhuType = game.dizhuType) : game.Laid next seat [] where
  toRemoves := Game.Removes.nothing hhand hdesk
  ascending := fun h => by rwa [hhand]
  landlord := hlandlord

theorem Game.laid_removeCards (game : Game) (hsub : cards.Subperm (game.hand seat)) :
    game.Laid (game.removeCards seat cards) seat cards where
  toRemoves := game.removes_removeCards hsub
  ascending := fun _ => by
    unfold Game.removeCards
    dsimp only
    rw [Function.update_self]
    exact sortCards_ascending _
  landlord := rfl

theorem Game.Laid.congr {middle : Game} (laid : game.Laid middle seat cards)
    (hhand : next.hand = middle.hand) (hdesk : next.desk .desk = middle.desk .desk)
    (hlandlord : next.dizhuType = middle.dizhuType) : game.Laid next seat cards where
  removed := by
    rw [hhand]
    exact laid.removed
  others := fun other hother => by
    rw [hhand]
    exact laid.others other hother
  desk := hdesk.trans laid.desk
  ascending := fun h => by
    rw [hhand]
    exact laid.ascending h
  landlord := hlandlord.trans laid.landlord

/-- The last card is played. -/
theorem Game.Laid.over {middle : Game} (laid : game.Laid middle seat cards)
    (hempty : (middle.hand seat).length = 0) (endsTurn : Bool) :
    game.Moved { middle with phase := .over } seat cards endsTurn where
  toRemoves := by
    have closed : game.Laid { middle with phase := .over } seat cards := laid.congr rfl rfl rfl
    exact closed.toRemoves
  ascending := laid.ascending
  stocked := fun h => (by cases h)
  phase := Or.inr rfl
  ended := fun _ => List.length_eq_zero_iff.mp hempty
  landlord := laid.landlord
  turn := fun h => (by cases h)
  biggest := fun h => (by cases h)

/-- The turn goes to the next player. -/
theorem Game.Laid.ends {middle : Game} (laid : game.Laid middle seat cards) (hseat : seat.plays)
    (hphase : middle.phase = .playing) (hturn : middle.curPly = seat)
    (hstocked : cards ≠ [] → middle.hand seat ≠ [])
    (hbiggest : middle.biggestPly = if cards = [] then game.biggestPly else seat) :
    game.Moved middle.turn seat cards true where
  toRemoves := by
    have hdesk : middle.turn.desk .desk = middle.desk .desk := by
      show Function.update middle.desk middle.curPly.next [] .desk = middle.desk .desk
      rw [hturn]
      exact Function.update_of_ne hseat.next.ne_desk.symm _ _
    have turned : game.Laid middle.turn seat cards := laid.congr rfl hdesk rfl
    exact turned.toRemoves
  ascending := laid.ascending
  stocked := fun _ => hstocked
  phase := Or.inl hphase
  ended := fun h => (by rw [show middle.turn.phase = middle.phase from rfl, hphase] at h; cases h)
  landlord := laid.landlord
  turn := fun _ => by
    rw [if_pos rfl, ← hturn]
    rfl
  biggest := fun _ => hbiggest

/-- The move of a computer player. -/
theorem Game.computerTurn_moved (pairs : List Rule → List Rule) (hphase : game.phase = .playing)
    (hturn : game.curPly.plays) :
    game.Moved (game.computerTurn game.curPly) game.curPly (game.plays pairs .computer) true := by
  have waits : ∀ ai : ComputerAI, game.Laid { game with ai := ai } game.curPly [] :=
    fun ai => Game.Laid.nothing rfl rfl rfl
  have hpass : ∀ ai : ComputerAI,
      game.Moved (Game.turn { game with ai := ai }) game.curPly [] true :=
    fun ai => (waits ai).ends hturn hphase rfl (fun h => absurd rfl h) rfl
  unfold Game.computerTurn Game.plays
  by_cases hselects : game.selects game.curPly = true
  · rw [if_pos hselects, if_pos hselects]
    dsimp only
    by_cases hnil : (game.choice game.curPly).cardList = []
    · simp only [hnil, List.length_nil, ne_eq, not_true_eq_false, decide_false,
        Bool.false_eq_true, if_false]
      split
      · next hempty => exact (waits (game.choice game.curPly)).over hempty true
      · exact hpass (game.choice game.curPly)
    · have hfind : ¬ (game.choice game.curPly).cardList.length = 0 :=
        fun h => hnil (List.length_eq_zero_iff.mp h)
      simp only [ne_eq, hfind, not_false_eq_true, decide_true, if_true]
      have hsub : (game.choice game.curPly).cardList.Subperm (game.hand game.curPly) :=
        smartSelectCards_subperm _ _ _ _ _ _
      have laid : game.Laid (Game.removeCards { game with ai := game.choice game.curPly }
          game.curPly (game.choice game.curPly).cardList) game.curPly
          (game.choice game.curPly).cardList :=
        (game.laid_removeCards hsub).congr rfl rfl rfl
      split
      · next hempty => exact laid.over hempty true
      · next hleft =>
        apply Game.Laid.ends
        · apply laid.congr
          · rfl
          · exact Function.update_of_ne hturn.ne_desk.symm _ _
          · rfl
        · exact hturn
        · exact hphase
        · rfl
        · exact fun _ h => hleft (congrArg List.length h)
        · exact (if_neg hnil).symm
  · rw [if_neg hselects, if_neg hselects]
    exact hpass game.ai

/-- The ruler knows no play without cards. -/
theorem ne_nil_of_accepted {pairs : List Rule → List Rule} {cardType : CardType}
    (h : canPopWith pairs cards = .accepted cardType) : cards ≠ [] := by
  rintro rfl
  cases h

/-- A play of the human player. -/
theorem Game.canPlay_moved {pairs : List Rule → List Rule} (hphase : game.phase = .playing)
    {selected : List Card} (hselected : selected.Subperm (game.hand .me))
    (hplay : game.canPlay pairs selected = some next) :
    game.Moved next .me (sortCards selected) true := by
  have hsub : (sortCards selected).Subperm (game.hand .me) :=
    (sortCards_perm selected).subperm.trans hselected
  unfold Game.canPlay at hplay
  dsimp only at hplay
  cases hpop : canPopWith pairs (sortCards selected) with
  | rejected =>
      rw [hpop] at hplay
      cases hplay
  | raised =>
      rw [hpop] at hplay
      cases hplay
  | accepted cardType =>
      have hne := ne_nil_of_accepted hpop
      rw [hpop] at hplay
      dsimp only at hplay
      split at hplay
      · cases hplay
        unfold Game.setTypeData
        dsimp only
        have laid := game.laid_removeCards hsub
        split
        · next hempty =>
          apply Game.Laid.over
          · exact laid.congr rfl rfl rfl
          · exact hempty
        · next hleft =>
          apply Game.Laid.ends
          · exact laid.congr rfl rfl rfl
          · exact Or.inl rfl
          · exact hphase
          · rfl
          · exact fun _ h => hleft (congrArg List.length h)
          · exact (if_neg hne).symm
      · cases hplay

/-- Every move of a running game. -/
theorem step_moved {pairs : List Rule → List Rule} {event : Event}
    (hphase : game.phase = .playing) (hturn : game.curPly.plays)
    (hstep : step pairs game event = some next) :
    game.Moved next game.curPly (game.plays pairs event) (game.endsTurn pairs event) := by
  cases event with
  | computer =>
      simp only [step] at hstep
      split at hstep
      · cases hstep
        exact Game.computerTurn_moved pairs hphase hturn
      · cases hstep
  | play selected =>
      simp only [step] at hstep
      split at hstep
      · next hguard =>
        obtain ⟨⟨-, hme⟩, hselected⟩ := hguard
        cases hstep
        cases hplay : game.canPlay pairs selected with
        | some played =>
            simp only [Game.plays, Game.endsTurn, hplay, Option.isSome_some, Option.getD_some,
              if_true, hme]
            exact Game.canPlay_moved hphase hselected hplay
        | none =>
            simp only [Game.plays, Game.endsTurn, hplay, Option.isSome_none, Option.getD_none,
              Bool.false_eq_true, if_false]
            -- a refused play changes nothing
            have laid : game.Laid { game with curPly := .me } game.curPly [] :=
              Game.Laid.nothing rfl rfl rfl
            exact
              { laid with
                stocked := fun _ h => absurd rfl h
                phase := Or.inl hphase
                ended := fun h => absurd (hphase.symm.trans h) (by simp)
                turn := fun _ => hme.symm
                biggest := fun _ => rfl }
      · cases hstep
  | pass =>
      simp only [step] at hstep
      split at hstep
      · cases hstep
        have laid : game.Laid game game.curPly [] := Game.Laid.nothing rfl rfl rfl
        exact laid.ends hturn hphase rfl (fun h => absurd rfl h) rfl
      · cases hstep
  | deal drawn => simp [step, hphase] at hstep
  | isJDZ => simp [step, hphase] at hstep
  | grab => simp [step, hphase] at hstep
  | disGrab => simp [step, hphase] at hstep
  | start => simp [step, hphase] at hstep

/-! ## Rounds -/

/-- How many cards lie where in each phase. -/
def Round.Counts (round : Round) : Prop :=
  match round.game.phase with
  | .ready => round.game.cards = [] ∧ round.played = []
  | .dealt | .asked =>
      (∀ seat : Character, seat.plays → (round.game.hand seat).length = 17) ∧
        (round.game.desk .desk).length = 3 ∧ round.queue = [] ∧ round.played = []
  | .granted =>
      (∀ seat : Character, seat.plays →
        (round.game.hand seat).length = if seat = round.game.dizhuType then 20 else 17) ∧
        round.game.desk .desk = [] ∧ round.queue = [] ∧ round.played = []
  | .playing =>
      (∀ seat : Character, seat.plays → round.game.hand seat ≠ []) ∧
        round.game.desk .desk = [] ∧ round.queue = []
  | .over => round.game.desk .desk = [] ∧ round.queue = []

/-- The cards of a round: what is in the hands and on the desk, what is not yet
dealt and what has been played are the cards of the deck. -/
structure Round.Conserved (round : Round) : Prop where
  deck : (round.game.hand .me ++ round.game.hand .right ++ round.game.hand .left ++
    round.game.desk .desk ++ round.queue ++ round.played).Perm cardLibrary
  counts : round.Counts

/-- The invariant of a round, whatever the players do. -/
structure Round.Kept (round : Round) : Prop extends Round.Conserved round where
  ascending : ∀ seat : Character, seat.plays → Ascending (round.game.hand seat)
  landlord : round.game.dizhuType.plays
  turn : round.game.phase = .playing → round.game.curPly.plays ∧ round.game.biggestPly.plays

theorem kept_new {queue : List Card} (hqueue : queue.Perm cardLibrary) :
    (Round.new queue).Kept where
  deck := by
    show ([] ++ queue ++ []).Perm cardLibrary
    rw [List.append_nil, List.nil_append]
    exact hqueue
  counts := ⟨rfl, rfl⟩
  ascending := fun _ _ => List.Pairwise.nil
  landlord := Or.inl rfl
  turn := fun h => (by cases h)

variable {round : Round}

theorem Round.counts_of_playing (hphase : round.game.phase = .playing)
    (h : (∀ seat : Character, seat.plays → round.game.hand seat ≠ []) ∧
      round.game.desk .desk = [] ∧ round.queue = []) : round.Counts := by
  unfold Round.Counts
  rw [hphase]
  exact h

theorem Round.counts_of_over (hphase : round.game.phase = .over)
    (h : round.game.desk .desk = [] ∧ round.queue = []) : round.Counts := by
  unfold Round.Counts
  rw [hphase]
  exact h

/-- The deal. -/
theorem Round.Kept.deal (kept : round.Kept) (hphase : round.game.phase = .ready)
    {drawn queue : List Card} {choices : List Nat}
    (hdraw : drawCards choices round.queue = some (drawn, queue))
    (hdrawn : drawn.Perm cardLibrary) :
    Round.Kept { round with game := round.game.deal drawn, queue := queue } := by
  have hcounts := kept.counts
  unfold Round.Counts at hcounts
  rw [hphase] at hcounts
  obtain ⟨hcards, hplayed⟩ := hcounts
  have decked := deal_decked hcards hdrawn
  -- the whole queue has been drawn
  have hqueue : queue = [] := by
    have hdeck := kept.deck.length_eq
    have hnone := congrArg List.length hcards
    have hperm := (drawCards_perm hdraw).1.length_eq
    simp only [Game.cards, List.length_append, List.length_nil, hplayed] at hdeck hnone hperm
    apply List.length_eq_zero_iff.mp
    have hall := hdrawn.length_eq
    omega
  obtain ⟨hhands, hdesk⟩ := length_deal hcards hdrawn
  exact
    { deck := by
        have hperm := deal_cards hcards hdrawn
        unfold Game.cards at hperm
        show (_ ++ queue ++ round.played).Perm cardLibrary
        rw [hqueue, hplayed, List.append_nil, List.append_nil]
        exact hperm
      counts := ⟨hhands, hdesk, hqueue, hplayed⟩
      ascending := decked.ascending
      landlord := by
        have hspec := (dealFrom_spec drawn round.game 1 .me).2.2.2
        show (dealFrom round.game 1 .me drawn).dizhuType.plays
        rw [hspec]
        exact kept.landlord
      turn := fun h => (by cases h) }

/-- The decisions of the computer players about the landlord. -/
theorem isJDZ_landlord (hlandlord : game.dizhuType.plays) : game.isJDZ.dizhuType.plays := by
  have hask : ∀ (g : Game) (seat : Character), seat.plays → g.dizhuType.plays →
      (g.askComputer seat).dizhuType.plays := by
    intro g seat hseat hlandlord
    unfold Game.askComputer
    dsimp only
    split
    · exact hseat
    · exact hlandlord
  exact hask _ _ (Or.inr (Or.inr rfl)) (hask _ _ (Or.inr (Or.inl rfl)) hlandlord)

/-- The landlord takes the cards of the desk. -/
theorem Round.Kept.dealDiZhuCards (kept : round.Kept) (hphase : round.game.phase = .asked) :
    Round.Kept { round with game := round.game.dealDiZhuCards } := by
  have hcounts := kept.counts
  unfold Round.Counts at hcounts
  rw [hphase] at hcounts
  obtain ⟨hhands, hdesk, hqueue, hplayed⟩ := hcounts
  have hcleared : round.game.dealDiZhuCards.desk .desk = [] := by
    simp [Game.dealDiZhuCards]
  exact
    { deck := by
        have hperm := dealDiZhuCards_cards kept.landlord
        exact ((hperm.append_right round.queue).append_right round.played).trans kept.deck
      counts := by
        refine ⟨fun seat hseat => ?_, hcleared, hqueue, hplayed⟩
        show (round.game.dealDiZhuCards.hand seat).length =
          if seat = round.game.dizhuType then 20 else 17
        by_cases hlandlord : seat = round.game.dizhuType
        · rw [if_pos hlandlord]
          subst hlandlord
          have hsorted := (sortCards_perm (round.game.hand round.game.dizhuType ++
            round.game.desk .desk)).length_eq
          rw [List.length_append, hhands _ hseat, hdesk] at hsorted
          simpa [Game.dealDiZhuCards, Game.sortHand] using hsorted
        · rw [if_neg hlandlord]
          simp only [Game.dealDiZhuCards, Game.sortHand, Function.update_of_ne hlandlord]
          exact hhands seat hseat
      ascending := dealDiZhuCards_ascending kept.ascending
      landlord := kept.landlord
      turn := fun h => (by cases h) }

/-- The landlord begins. -/
theorem Round.Kept.start (kept : round.Kept) (hphase : round.game.phase = .granted) :
    Round.Kept { round with game := round.game.start } := by
  have hcounts := kept.counts
  unfold Round.Counts at hcounts
  rw [hphase] at hcounts
  obtain ⟨hhands, hdesk, hqueue, hplayed⟩ := hcounts
  have hkept : round.game.start.desk .desk = round.game.desk .desk :=
    Function.update_of_ne kept.landlord.ne_desk.symm _ _
  exact
    { deck := by
        show (_ ++ round.game.start.desk .desk ++ round.queue ++ round.played).Perm cardLibrary
        rw [hkept]
        exact kept.deck
      counts := by
        refine ⟨fun seat hseat hnil => ?_, hkept.trans hdesk, hqueue⟩
        have hlength := hhands seat hseat
        have hzero : (round.game.hand seat).length = 0 := congrArg List.length hnil
        split at hlength
        · omega
        · omega
      ascending := kept.ascending
      landlord := kept.landlord
      turn := fun _ => ⟨kept.landlord, kept.landlord⟩ }

/-- A move of a running game. -/
theorem Round.Kept.moved (kept : round.Kept) (hphase : round.game.phase = .playing)
    {endsTurn : Bool}
    (moved : round.game.Moved next round.game.curPly cards endsTurn) :
    (round.record next cards endsTurn).Kept := by
  have hcounts := kept.counts
  unfold Round.Counts at hcounts
  rw [hphase] at hcounts
  obtain ⟨hhands, hdesk, hqueue⟩ := hcounts
  obtain ⟨hturn, hbiggest⟩ := kept.turn hphase
  have hhand : ∀ other : Character, other.plays → next.hand other = round.game.hand other ∨
      other = round.game.curPly := by
    intro other _
    by_cases hother : other = round.game.curPly
    · exact Or.inr hother
    · exact Or.inl (moved.others other hother)
  exact
    { deck := by
        refine List.Perm.trans ?_ kept.deck
        refine perm_of_count fun card => ?_
        have hremoved := moved.removed.count_eq card
        show (next.hand .me ++ next.hand .right ++ next.hand .left ++ next.desk .desk ++
          round.queue ++ (round.played ++ cards)).count card = _
        rw [moved.desk]
        simp only [List.count_append] at hremoved ⊢
        rcases hturn with h | h | h
        · rw [h] at hremoved
          rw [moved.others .right (by simp [h]), moved.others .left (by simp [h])]
          omega
        · rw [h] at hremoved
          rw [moved.others .me (by simp [h]), moved.others .left (by simp [h])]
          omega
        · rw [h] at hremoved
          rw [moved.others .me (by simp [h]), moved.others .right (by simp [h])]
          omega
      counts := by
        have hempty : next.desk .desk = [] := moved.desk.trans hdesk
        rcases moved.phase with hplaying | hover
        · refine Round.counts_of_playing hplaying ⟨fun seat hseat => ?_, hempty, hqueue⟩
          show next.hand seat ≠ []
          rcases hhand seat hseat with heq | rfl
          · rw [heq]
            exact hhands seat hseat
          · by_cases hnil : cards = []
            · have hremoved := moved.removed
              rw [hnil, List.append_nil] at hremoved
              exact fun h => hhands _ hseat (List.perm_nil.mp (h ▸ hremoved))
            · exact moved.stocked hplaying hnil
        · exact Round.counts_of_over hover ⟨hempty, hqueue⟩
      ascending := by
        intro seat hseat
        rcases hhand seat hseat with heq | rfl
        · show Ascending (next.hand seat)
          rw [heq]
          exact kept.ascending seat hseat
        · exact moved.ascending (kept.ascending _ hseat)
      landlord := by
        show next.dizhuType.plays
        rw [moved.landlord]
        exact kept.landlord
      turn := by
        intro hplaying
        show next.curPly.plays ∧ next.biggestPly.plays
        rw [moved.turn hplaying, moved.biggest hplaying]
        constructor
        · split
          · exact hturn.next
          · exact hturn
        · split
          · exact hbiggest
          · exact hturn }

/-! ## All runs -/

variable {pairs : List Rule → List Rule} {event : Event} {following : Round}

/-- A move of the round is a move of the game, and its cards are recorded. -/
theorem exists_step_of_move (hstep : Round.step pairs round (.move event) = some following) :
    ∃ next, step pairs round.game event = some next ∧
      following = round.record next (round.game.plays pairs event)
        (round.game.endsTurn pairs event) := by
  cases event with
  | deal drawn => cases hstep
  | _ =>
      obtain ⟨next, hnext, hfollowing⟩ := Option.map_eq_some_iff.mp hstep
      exact ⟨next, hnext, hfollowing.symm⟩

/-- Before the game starts no cards are played. -/
theorem Round.record_nothing (next : Game) :
    round.record next [] false = { round with game := next } := by
  unfold Round.record
  rw [List.append_nil]
  rfl

theorem kept_step {roundEvent : RoundEvent} (kept : round.Kept)
    (hstep : Round.step pairs round roundEvent = some following) : following.Kept := by
  cases roundEvent with
  | deal choices =>
      unfold Round.step at hstep
      dsimp only at hstep
      split at hstep
      · cases hstep
      · next drawn queue hdraw =>
        obtain ⟨next, hnext, rfl⟩ := Option.map_eq_some_iff.mp hstep
        simp only [step] at hnext
        split at hnext
        · next hguard =>
          cases hnext
          exact kept.deal hguard.1 hdraw hguard.2
        · cases hnext
  | move event =>
      obtain ⟨next, hnext, rfl⟩ := exists_step_of_move hstep
      by_cases hphase : round.game.phase = .playing
      · exact kept.moved hphase (step_moved hphase (kept.turn hphase).1 hnext)
      · cases event with
        | deal drawn => cases hstep
        | isJDZ =>
            simp only [step] at hnext
            split at hnext
            · next hdealt =>
              cases hnext
              show (round.record _ [] false).Kept
              rw [Round.record_nothing]
              have hcounts := kept.counts
              unfold Round.Counts at hcounts
              rw [hdealt] at hcounts
              exact
                { deck := kept.deck
                  counts := hcounts
                  ascending := kept.ascending
                  landlord := isJDZ_landlord kept.landlord
                  turn := fun h => (by cases h) }
            · cases hnext
        | grab =>
            simp only [step] at hnext
            split at hnext
            · next hasked =>
              cases hnext
              show (round.record _ [] false).Kept
              rw [Round.record_nothing]
              have mine : Round.Kept
                  { round with game := { round.game with dizhuType := .me } } :=
                { kept with
                  counts := by
                    have hcounts := kept.counts
                    unfold Round.Counts at hcounts ⊢
                    rw [hasked] at hcounts ⊢
                    exact hcounts
                  landlord := Or.inl rfl }
              exact mine.dealDiZhuCards hasked
            · cases hnext
        | disGrab =>
            simp only [step] at hnext
            split at hnext
            · next hasked =>
              cases hnext
              show (round.record _ [] false).Kept
              rw [Round.record_nothing]
              exact kept.dealDiZhuCards hasked
            · cases hnext
        | start =>
            simp only [step] at hnext
            split at hnext
            · next hgranted =>
              cases hnext
              show (round.record _ [] false).Kept
              rw [Round.record_nothing]
              exact kept.start hgranted
            · cases hnext
        | computer =>
            simp only [step] at hnext
            split at hnext
            · next hturn => exact absurd hturn.1 hphase
            · cases hnext
        | play selected =>
            simp only [step] at hnext
            split at hnext
            · next hturn => exact absurd hturn.1.1 hphase
            · cases hnext
        | pass =>
            simp only [step] at hnext
            split at hnext
            · next hturn => exact absurd hturn.1 hphase
            · cases hnext

theorem kept_run {queue : List Card} (hqueue : queue.Perm cardLibrary) {events : List RoundEvent}
    (hrun : Run (Round.step pairs) free (Round.new queue) events round) : round.Kept :=
  hrun.invariant (kept_new hqueue) fun _ _ _ kept _ hstep => kept_step kept hstep

/-- A deal of a round that is ready: each sequence of random positions draws
cards, and until the deal is complete no card is lost. -/
theorem Round.Kept.deals (kept : round.Kept) (hphase : round.game.phase = .ready)
    {choices : List Nat} (hchoices : Positions 54 choices) :
    ∃ drawn rest, drawCards choices round.queue = some (drawn, rest) ∧
      ((dealFrom round.game 1 .me drawn).cards ++ rest).Perm cardLibrary ∧
      (choices.length = 54 → (Round.step pairs round (.deal choices)).isSome = true) := by
  have hcounts := kept.counts
  unfold Round.Counts at hcounts
  rw [hphase] at hcounts
  obtain ⟨hcards, hplayed⟩ := hcounts
  have hqueue : round.queue.Perm cardLibrary := by
    have hdeck := kept.deck
    unfold Game.cards at hcards
    rwa [hcards, hplayed, List.nil_append, List.append_nil] at hdeck
  have hlength : round.queue.length = 54 := hqueue.length_eq.trans length_cardLibrary
  have hsome : (drawCards choices round.queue).isSome = true := by
    apply drawCards_isSome
    rw [hlength]
    exact hchoices
  obtain ⟨⟨drawn, rest⟩, hdraw⟩ := Option.isSome_iff_exists.mp hsome
  obtain ⟨hperm, hdrawn⟩ := drawCards_perm hdraw
  refine ⟨drawn, rest, hdraw, ?_, fun hall => ?_⟩
  · have hdealt := (dealFrom_spec drawn round.game 1 .me).1
    rw [hcards, List.nil_append] at hdealt
    exact (hdealt.append_right rest).trans (hperm.trans hqueue)
  · -- the last card has been drawn
    have hnone : rest = [] := by
      apply List.length_eq_zero_iff.mp
      have hsum := hperm.length_eq
      rw [List.length_append] at hsum
      omega
    rw [hnone, List.append_nil] at hperm
    unfold Round.step
    dsimp only
    rw [hdraw]
    simp only [Landlord.step, Option.isSome_map]
    rw [if_pos ⟨hphase, hperm.trans hqueue⟩]
    rfl

/-- In every round that is reached, whatever was drawn, bid and played, the
cards of the hands, of the desk and of the queue and the played cards are the
deck, and each phase has its numbers of cards.  A deal works for every sequence
of random positions.  A move takes the played cards from the hand of the player
whose turn it is. -/
theorem conserved_of_run {queue : List Card} (hqueue : queue.Perm cardLibrary)
    {events : List RoundEvent}
    (hrun : Run (Round.step pairs) free (Round.new queue) events round) :
    round.Conserved ∧
      (round.game.phase = .ready → ∀ choices, Positions 54 choices →
        ∃ drawn rest, drawCards choices round.queue = some (drawn, rest) ∧
          ((dealFrom round.game 1 .me drawn).cards ++ rest).Perm cardLibrary ∧
          (choices.length = 54 → (Round.step pairs round (.deal choices)).isSome = true)) ∧
      (round.game.phase = .playing → ∀ event following,
        Round.step pairs round (.move event) = some following →
          round.game.curPly.plays ∧
            round.game.Removes following.game round.game.curPly (round.game.plays pairs event) ∧
            following.played = round.played ++ round.game.plays pairs event) := by
  have kept := kept_run hqueue hrun
  refine ⟨kept.toConserved, fun hphase choices hchoices => kept.deals hphase hchoices, ?_⟩
  intro hphase event following hstep
  obtain ⟨next, hnext, rfl⟩ := exists_step_of_move hstep
  have hturn := (kept.turn hphase).1
  exact ⟨hturn, (step_moved hphase hturn hnext).toRemoves, rfl⟩

/-! ## A round -/

/-- A round in which every first card of the queue is drawn.  The human player
becomes the landlord and plays both jokers. -/
def jokersLed : List RoundEvent :=
  [.deal (List.replicate 54 1), .move .isJDZ, .move .disGrab, .move .start,
    .move (.play [⟨.none, 16⟩, ⟨.none, 17⟩])]

def jokersRound : Round :=
  (exec (Round.step id) (fun _ event => event ≠ .move .pass) (Round.new cardLibrary)
    jokersLed).getD (Round.new cardLibrary)

/-- The human player has not passed. -/
theorem jokersRound_run :
    Run (Round.step id) (fun _ event => event ≠ .move .pass) (Round.new cardLibrary) jokersLed
      jokersRound :=
  run_exec_getD (Round.new cardLibrary) (by decide +kernel)

theorem conserved_jokersRound : jokersRound.Conserved :=
  (conserved_of_run (List.Perm.refl _) (jokersRound_run.mono fun _ _ _ => trivial)).1

end Landlord
end ArmyRs
