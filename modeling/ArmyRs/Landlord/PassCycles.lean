import ArmyRs.Landlord.CardConservation

/-!
# Passing

A computer player that holds the biggest play is asked for its smallest cards
and plays.  The human player is shown the pass button at every turn, and
`playPass` does not look at who holds the biggest play.

`Careful` rounds are those in which the human player does not pass on the own
biggest play.  `Placed` is their invariant: where the turn is after how many
passes.  `plays_of_run` says that the holder of the biggest play passes exactly
at a step that is not careful, and that in a careful round there are at most two
passes in a row and three turns play a card.
-/

namespace ArmyRs
namespace Landlord

open Foundation

variable {pairs : List Rule → List Rule} {round following later : Round} {event : RoundEvent}
  {game next : Game} {seat : Character} {cards : List Card}

/-- The human player does not pass when it holds the biggest play. -/
def Careful (round : Round) (event : RoundEvent) : Prop :=
  event = .move .pass → round.game.biggestPly ≠ .me

instance (round : Round) (event : RoundEvent) : Decidable (Careful round event) :=
  inferInstanceAs (Decidable (_ → _))

/-- The player that holds the biggest play, or leads the first trick, passes. -/
def HolderPasses (pairs : List Rule → List Rule) (round : Round) : RoundEvent → Prop
  | .deal _ => False
  | .move event =>
      round.game.phase = .playing ∧ round.game.curPly = round.game.biggestPly ∧
        round.game.endsTurn pairs event = true ∧ round.game.plays pairs event = []

/-! ## The holder of the biggest play -/

theorem Round.Kept.decked (kept : round.Kept) : round.game.Decked where
  nodup := by
    have hnodup := kept.deck.nodup_iff.mpr cardLibrary_nodup
    exact (List.nodup_append.mp (List.nodup_append.mp hnodup).1).1
  inLibrary := fun card hcard => by
    apply kept.deck.mem_iff.mp
    apply List.mem_append_left
    apply List.mem_append_left
    exact hcard
  ascending := kept.ascending

theorem Round.Kept.hand_ne_nil (kept : round.Kept) (hphase : round.game.phase = .playing)
    (hseat : seat.plays) : round.game.hand seat ≠ [] := by
  have hcounts := kept.counts
  unfold Round.Counts at hcounts
  rw [hphase] at hcounts
  exact hcounts.1 seat hseat

/-- A computer player never passes on its own biggest play. -/
theorem Round.Kept.computer_plays (kept : round.Kept) (hphase : round.game.phase = .playing)
    (hholder : round.game.curPly = round.game.biggestPly) :
    round.game.plays pairs .computer ≠ [] := by
  have hturn := (kept.turn hphase).1
  have hselects : round.game.selects round.game.curPly = true := by
    unfold Game.selects
    simp [hholder]
  unfold Game.plays
  dsimp only
  rw [if_pos hselects]
  exact Game.choice_ne_nil kept.decked hturn (kept.hand_ne_nil hphase hturn) hholder.symm

/-- An accepted play of the human player has cards. -/
theorem Game.play_ne_nil {selected : List Card}
    (haccepted : (game.canPlay pairs selected).isSome = true) :
    game.plays pairs (.play selected) ≠ [] := by
  unfold Game.plays
  dsimp only
  rw [if_pos haccepted]
  unfold Game.canPlay at haccepted
  dsimp only at haccepted
  split at haccepted
  · next hpop => exact ne_nil_of_accepted hpop
  · cases haccepted
  · cases haccepted

/-- The holder of the biggest play passes only with the pass button. -/
theorem Round.Kept.holderPasses_iff (kept : round.Kept)
    (hstep : Round.step pairs round event = some following) :
    HolderPasses pairs round event ↔ ¬ Careful round event := by
  have hcareful : event ≠ .move .pass → Careful round event := fun hevent h => absurd h hevent
  cases event with
  | deal choices => exact iff_of_false id (fun h => h (hcareful (by simp)))
  | move move =>
      obtain ⟨next, hnext, -⟩ := exists_step_of_move hstep
      cases move with
      | pass =>
          simp only [Landlord.step] at hnext
          split at hnext
          · next hguard =>
            obtain ⟨hphase, hme⟩ := hguard
            constructor
            · rintro ⟨-, hholder, -⟩ hcareful
              exact hcareful rfl (hholder.symm.trans hme)
            · intro hcareless
              have hbiggest : round.game.biggestPly = .me := by
                by_contra hother
                exact hcareless fun _ => hother
              exact ⟨hphase, hme.trans hbiggest.symm, rfl, rfl⟩
          · cases hnext
      | computer =>
          refine iff_of_false ?_ (fun h => h (hcareful (by simp)))
          rintro ⟨hphase, hholder, -, hnone⟩
          exact kept.computer_plays hphase hholder hnone
      | play selected =>
          refine iff_of_false ?_ (fun h => h (hcareful (by simp)))
          rintro ⟨-, -, haccepted, hnone⟩
          exact Game.play_ne_nil haccepted hnone
      | _ =>
          refine iff_of_false ?_ (fun h => h (hcareful (by simp)))
          rintro ⟨-, -, hends, -⟩
          cases hends

/-! ## Where the turn is -/

/-- After no pass it is the turn of the player after the holder of the biggest
play, or of the holder itself when it leads; after one pass the turn is one
player further, and after two it is back at the holder. -/
def Round.Placed (round : Round) : Prop :=
  match round.game.phase with
  | .playing =>
      (round.passes = 0 ∧ (round.game.curPly = round.game.biggestPly ∨
        round.game.curPly = round.game.biggestPly.next)) ∨
      (round.passes = 1 ∧ round.game.curPly = round.game.biggestPly.next.next) ∨
      (round.passes = 2 ∧ round.game.curPly = round.game.biggestPly)
  | _ => round.passes = 0

theorem Character.plays.next_three (h : seat.plays) : seat.next.next.next = seat := by
  rcases h with rfl | rfl | rfl
  · rfl
  · rfl
  · rfl

theorem Round.Placed.atMostTwo (placed : round.Placed) : round.passes ≤ 2 := by
  unfold Round.Placed at placed
  split at placed
  · rcases placed with h | h | h
    · omega
    · omega
    · omega
  · omega

theorem Round.placed_of_waiting (hphase : round.game.phase ≠ .playing)
    (hpasses : round.passes = 0) : round.Placed := by
  unfold Round.Placed
  split
  · next hplaying => exact absurd hplaying hphase
  · exact hpasses

/-- A turn of a careful round. -/
theorem Round.Placed.moved (kept : round.Kept) (placed : round.Placed)
    (hphase : round.game.phase = .playing) {endsTurn : Bool}
    (moved : round.game.Moved next round.game.curPly cards endsTurn)
    (hends : cards ≠ [] → endsTurn = true)
    (hcareful : ¬ (round.game.curPly = round.game.biggestPly ∧ endsTurn = true ∧ cards = [])) :
    (round.record next cards endsTurn).Placed := by
  obtain ⟨hturn, hbiggest⟩ := kept.turn hphase
  unfold Round.Placed at placed
  rw [hphase] at placed
  dsimp only at placed
  rcases moved.phase with hplaying | hover
  · unfold Round.Placed
    rw [show (round.record next cards endsTurn).game.phase = .playing from hplaying]
    dsimp only [Round.record]
    rw [moved.turn hplaying, moved.biggest hplaying]
    by_cases hnil : cards = []
    · subst hnil
      cases endsTurn with
      | false => exact placed
      | true =>
          -- a pass, and not of the holder
          simp only [if_true]
          rcases placed with ⟨hpasses, hcur | hcur⟩ | ⟨hpasses, hcur⟩ | ⟨hpasses, hcur⟩
          · exact absurd ⟨hcur, rfl, rfl⟩ hcareful
          · exact Or.inr (Or.inl ⟨by omega, congrArg Character.next hcur⟩)
          · refine Or.inr (Or.inr ⟨by omega, ?_⟩)
            rw [hcur]
            exact hbiggest.next_three
          · exact absurd ⟨hcur, rfl, rfl⟩ hcareful
    · -- whoever plays holds the biggest play
      rw [hends hnil]
      simp [hnil]
  · -- the last card has been played
    apply Round.placed_of_waiting
    · show next.phase ≠ .playing
      rw [hover]
      simp
    · have hne : cards ≠ [] := by
        intro hnil
        have hremoved := moved.removed
        rw [hnil, moved.ended hover] at hremoved
        exact kept.hand_ne_nil hphase hturn (List.perm_nil.mp hremoved)
      unfold Round.record
      dsimp only
      rw [hends hne, if_pos rfl, if_neg hne]

/-- Whoever plays cards ends the turn. -/
theorem Game.endsTurn_of_plays {event : Event} (h : game.plays pairs event ≠ []) :
    game.endsTurn pairs event = true := by
  cases event with
  | computer => rfl
  | play selected =>
      unfold Game.plays at h
      dsimp only at h
      split at h
      · next haccepted => exact haccepted
      · exact absurd rfl h
  | _ => exact absurd rfl h

/-- Outside a running game nobody plays or passes. -/
theorem turnless {event : Event} (hphase : game.phase ≠ .playing)
    (hstep : step pairs game event = some next) :
    game.plays pairs event = [] ∧ game.endsTurn pairs event = false ∧
      (next.phase = .playing → next.curPly = next.biggestPly) := by
  cases event with
  | start =>
      simp only [step] at hstep
      split at hstep
      · cases hstep
        exact ⟨rfl, rfl, fun _ => rfl⟩
      · cases hstep
  | computer =>
      simp only [step] at hstep
      split at hstep
      · next hturn => exact absurd hturn.1 hphase
      · cases hstep
  | play selected =>
      simp only [step] at hstep
      split at hstep
      · next hturn => exact absurd hturn.1.1 hphase
      · cases hstep
  | pass =>
      simp only [step] at hstep
      split at hstep
      · next hturn => exact absurd hturn.1 hphase
      · cases hstep
  | _ =>
      simp only [step] at hstep
      split at hstep
      · cases hstep
        exact ⟨rfl, rfl, fun h => (by cases h)⟩
      · cases hstep

theorem placed_step (kept : round.Kept) (placed : round.Placed) (hcareful : Careful round event)
    (hstep : Round.step pairs round event = some following) : following.Placed := by
  have hwaiting : round.game.phase ≠ .playing → round.passes = 0 := by
    intro hphase
    unfold Round.Placed at placed
    split at placed
    · next hplaying => exact absurd hplaying hphase
    · exact placed
  cases event with
  | deal choices =>
      unfold Round.step at hstep
      dsimp only at hstep
      split at hstep
      · cases hstep
      · obtain ⟨next, hnext, rfl⟩ := Option.map_eq_some_iff.mp hstep
        simp only [step] at hnext
        split at hnext
        · next hguard =>
          cases hnext
          apply Round.placed_of_waiting
          · show Phase.dealt ≠ .playing
            simp
          · apply hwaiting
            simp [hguard.1]
        · cases hnext
  | move move =>
      have hholder := mt (kept.holderPasses_iff hstep).mp (not_not_intro hcareful)
      obtain ⟨next, hnext, rfl⟩ := exists_step_of_move hstep
      by_cases hphase : round.game.phase = .playing
      · have moved := step_moved hphase (kept.turn hphase).1 hnext
        exact placed.moved kept hphase moved Game.endsTurn_of_plays
          fun h => hholder ⟨hphase, h.1, h.2.1, h.2.2⟩
      · obtain ⟨hnone, hends, hstart⟩ := turnless hphase hnext
        rw [hnone, hends]
        by_cases hplaying : next.phase = .playing
        · unfold Round.Placed
          rw [show (round.record next [] false).game.phase = .playing from hplaying]
          exact Or.inl ⟨hwaiting hphase, Or.inl (hstart hplaying)⟩
        · exact Round.placed_of_waiting hplaying (hwaiting hphase)

/-! ## Three turns -/

/-- What is played since a round: as long as nothing is, every turn is a pass. -/
theorem plays_step (hstep : Round.step pairs round event = some following) :
    ∃ cards, following.played = round.played ++ cards ∧
      (cards = [] → following.passes + round.turns = round.passes + following.turns) := by
  cases event with
  | deal choices =>
      unfold Round.step at hstep
      dsimp only at hstep
      split at hstep
      · cases hstep
      · obtain ⟨next, -, rfl⟩ := Option.map_eq_some_iff.mp hstep
        exact ⟨[], (List.append_nil _).symm, fun _ => rfl⟩
  | move move =>
      obtain ⟨next, -, rfl⟩ := exists_step_of_move hstep
      refine ⟨round.game.plays pairs move, rfl, fun hnone => ?_⟩
      rw [hnone]
      unfold Round.record
      dsimp only
      split
      · rw [if_pos rfl]
        omega
      · rfl

theorem plays_run {guard : Round → RoundEvent → Prop} {events : List RoundEvent}
    (hrun : Run (Round.step pairs) guard round events later) :
    ∃ cards, later.played = round.played ++ cards ∧
      (cards = [] → later.passes + round.turns = round.passes + later.turns) := by
  induction hrun with
  | refl => exact ⟨[], (List.append_nil _).symm, fun _ => rfl⟩
  | snoc hrun hguard hstep ih =>
      obtain ⟨before, hbefore, hpassed⟩ := ih
      obtain ⟨cards, hcards, hpasses⟩ := plays_step hstep
      refine ⟨before ++ cards, ?_, fun hnone => ?_⟩
      · rw [hcards, hbefore, List.append_assoc]
      · obtain ⟨hfirst, hsecond⟩ := List.append_eq_nil_iff.mp hnone
        have := hpassed hfirst
        have := hpasses hsecond
        omega

/-- The cards that are left, once the deal is over. -/
theorem Round.Kept.length_cards (kept : round.Kept) :
    round.game.cards.length + round.queue.length + round.played.length = 54 := by
  have hdeck := kept.deck.length_eq
  rw [length_cardLibrary, List.length_append, List.length_append] at hdeck
  exact hdeck

/-! ## Careful rounds -/

theorem placed_run {queue : List Card} (hqueue : queue.Perm cardLibrary)
    {events : List RoundEvent}
    (hrun : Run (Round.step pairs) Careful (Round.new queue) events round) :
    round.Kept ∧ round.Placed := by
  induction hrun with
  | refl => exact ⟨kept_new hqueue, rfl⟩
  | snoc hrun hcareful hstep ih =>
      obtain ⟨kept, placed⟩ := ih
      exact ⟨kept_step kept hstep, placed_step kept placed hcareful hstep⟩

/-- In a round in which the human player has not passed on the own biggest play,
the holder of the biggest play passes at a step exactly when the human player
does so there.  There are at most two passes in a row, and as long as the human
player goes on like this, three turns take a card from a hand. -/
theorem plays_of_run {queue : List Card} (hqueue : queue.Perm cardLibrary)
    {events : List RoundEvent}
    (hrun : Run (Round.step pairs) Careful (Round.new queue) events round) :
    (∀ event following, Round.step pairs round event = some following →
      (HolderPasses pairs round event ↔ ¬ Careful round event)) ∧
    round.passes ≤ 2 ∧
    (round.game.phase = .playing → ∀ more later,
      Run (Round.step pairs) Careful round more later → round.turns + 3 ≤ later.turns →
        later.game.cards.length < round.game.cards.length) := by
  obtain ⟨kept, placed⟩ := placed_run hqueue hrun
  refine ⟨fun event following hstep => kept.holderPasses_iff hstep, placed.atMostTwo, ?_⟩
  intro hphase more later hmore hturns
  obtain ⟨keptLater, placedLater⟩ := placed_run hqueue (hrun.append hmore)
  obtain ⟨cards, hcards, hpasses⟩ := plays_run hmore
  have hne : cards ≠ [] := by
    intro hnone
    have hatMost := placedLater.atMostTwo
    have hall := hpasses hnone
    omega
  have hgrown : round.played.length < later.played.length := by
    rw [hcards, List.length_append]
    have hpos := List.length_pos_iff.mpr hne
    omega
  -- nothing is left in the queue of a running game
  have hqueue : round.queue.length = 0 := by
    have hcounts := kept.counts
    unfold Round.Counts at hcounts
    rw [hphase] at hcounts
    rw [hcounts.2.2]
    rfl
  have hbefore := kept.length_cards
  have hafter := keptLater.length_cards
  omega

/-! ## Three passes -/

theorem plays_jokersRound : jokersRound.passes ≤ 2 :=
  (plays_of_run (List.Perm.refl _)
    (jokersRound_run.mono fun _ _ hpass h => absurd h hpass)).2.1

/-- Nobody can go over the jokers, and then the human player passes too. -/
def allPass : List RoundEvent := [.move .computer, .move .computer, .move .pass]

def jokersPassed : Round :=
  (exec (Round.step id) free jokersRound allPass).getD jokersRound

theorem plays_allPass :
    Run (Round.step id) free (Round.new cardLibrary) jokersLed jokersRound ∧
      jokersRound.game.phase = .playing ∧ jokersRound.game.biggestPly = .me ∧
      Run (Round.step id) free jokersRound allPass jokersPassed ∧
      jokersPassed.turns = jokersRound.turns + 3 ∧ jokersPassed.passes = 3 ∧
      jokersPassed.game.cards.length = jokersRound.game.cards.length :=
  ⟨jokersRound_run.mono fun _ _ _ => trivial, by decide +kernel, by decide +kernel,
    run_exec_getD jokersRound (by decide +kernel), by decide +kernel, by decide +kernel,
    by decide +kernel⟩

end Landlord
end ArmyRs
