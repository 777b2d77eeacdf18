import ArmyRs.Foundation.Transition

/-!
# Month cards

A month card gives a bonus on every day of its period.  A recharge extends a period
that has not ended and starts a new one otherwise; the last day belongs to the
period.  `last_receive_day` keeps the day of the last bonus, so that there is one
bonus a day.

Days are the times at which they begin (`Helper.reset_time`), in seconds.  `received`
and `bought` count the bonuses and the days that were paid for.
-/

namespace ArmyRs
namespace Player

open Foundation

/-- The seconds of a day. -/
def day : Int := 24 * 60 * 60

structure MonthCard where
  firstDay : Int
  lastDay : Int
  lastReceiveDay : Option Int
  deriving DecidableEq, Repr

/-- `MonthCard.new` -/
def MonthCard.new : MonthCard := ⟨0, 0, some 0⟩

/-- `can_receive?` -/
def MonthCard.CanReceive (card : MonthCard) (resetTime : Int) : Prop :=
  (card.firstDay ≤ resetTime ∧ resetTime ≤ card.lastDay) ∧
    ∀ received ∈ card.lastReceiveDay, received < resetTime

instance MonthCard.decidableCanReceive (card : MonthCard) (resetTime : Int) :
    Decidable (card.CanReceive resetTime) :=
  inferInstanceAs (Decidable (_ ∧ _))

/-- `receive` -/
def MonthCard.receive (card : MonthCard) (resetTime : Int) : MonthCard :=
  { card with lastReceiveDay := some resetTime }

/-- `recharge`, where `days` is `cfg.days.to_i`. -/
def MonthCard.recharge (card : MonthCard) (resetTime : Int) (days : Nat) : MonthCard :=
  if card.lastDay < resetTime then
    { card with firstDay := resetTime, lastDay := resetTime + day * (days - 1) }
  else { card with lastDay := card.lastDay + day * days }

/-- `valid?` -/
def MonthCard.Valid (card : MonthCard) (resetTime : Int) : Prop := resetTime ≤ card.lastDay

/-- A player with a card. -/
structure Holder where
  card : MonthCard
  today : Int
  received : Nat
  bought : Nat
  deriving DecidableEq, Repr

inductive CardEvent
  /-- The next request comes this many days later. -/
  | pass (days : Nat)
  | recharge (days : Nat)
  | receive
  deriving DecidableEq, Repr

def Holder.step (s : Holder) : CardEvent → Option Holder
  | .pass days => some { s with today := s.today + day * days }
  | .recharge days =>
      some { s with card := s.card.recharge s.today days, bought := s.bought + days }
  | .receive =>
      if s.card.CanReceive s.today then
        some { s with card := s.card.receive s.today, received := s.received + 1 }
      else none

/-- A new card on some day since the beginning of the time count. -/
def Holder.start (today : Nat) : Holder := ⟨MonthCard.new, today, 0, 0⟩

/-- No day on which the bonus can be received is let pass. -/
def Holder.Diligent (s : Holder) : CardEvent → Prop
  | .pass days => ∀ passed < days, ¬ s.card.CanReceive (s.today + day * passed)
  | _ => True

instance Holder.decidableDiligent (s : Holder) (event : CardEvent) :
    Decidable (s.Diligent event) := by
  cases event <;> unfold Holder.Diligent <;> infer_instance

/-- There is no day left on which the bonus can be received. -/
def Holder.Ended (s : Holder) : Prop :=
  ∀ passed : Nat, ¬ s.card.CanReceive (s.today + day * passed)

/-! ## The days that are left -/

section

variable {s t : Holder} {n : Nat}

/-- There are `n` days left, today included when its bonus was not received. -/
inductive Holder.Left (s : Holder) (n : Nat) : Prop
  /-- There is no period any more. -/
  | ended (hlast : s.card.lastDay < s.today)
      (hreceived : ∀ received ∈ s.card.lastReceiveDay, received < s.today) (hn : n = 0)
  /-- The bonus of today was received. -/
  | received (hfirst : s.card.firstDay ≤ s.today) (hlast : s.card.lastDay = s.today + day * n)
      (hreceived : s.card.lastReceiveDay = some s.today)
  | due (hfirst : s.card.firstDay ≤ s.today) (hlast : s.card.lastDay = s.today + day * (n - 1))
      (hreceived : ∀ received ∈ s.card.lastReceiveDay, received < s.today) (hn : 0 < n)

theorem left_start (today : Nat) : (Holder.start today).Left 0 := by
  rcases Nat.eq_zero_or_pos today with rfl | hpos
  · exact .received (le_refl 0) rfl rfl
  · refine .ended (by simpa [Holder.start, MonthCard.new] using hpos) ?_ rfl
    intro received hreceived
    cases hreceived
    simpa [Holder.start] using hpos

theorem Holder.Left.canReceive_iff (left : s.Left n) :
    s.card.CanReceive s.today ↔ s.card.lastReceiveDay ≠ some s.today ∧ 0 < n := by
  unfold MonthCard.CanReceive
  cases left with
  | ended hlast hreceived hn => simp [hn, hlast]
  | received hfirst hlast hreceived => simp [hreceived]
  | due hfirst hlast hreceived hn =>
      have hne : s.card.lastReceiveDay ≠ some s.today :=
        fun h => lt_irrefl _ (hreceived _ h)
      have hle : s.today ≤ s.card.lastDay := by rw [hlast, day]; omega
      exact ⟨fun _ => ⟨hne, hn⟩, fun _ => ⟨⟨hfirst, hle⟩, hreceived⟩⟩

/-- With days left after today's bonus, tomorrow is one of them. -/
theorem Holder.Left.canReceive_tomorrow (left : s.Left n)
    (hreceived : s.card.lastReceiveDay = some s.today) (hn : 0 < n) :
    s.card.CanReceive (s.today + day * (1 : Nat)) := by
  cases left with
  | ended hlast hbefore hzero => omega
  | received hfirst hlast =>
      refine ⟨⟨by rw [day]; omega, by rw [hlast, day]; omega⟩, ?_⟩
      intro received hmem
      rw [hreceived] at hmem
      cases hmem
      rw [day]
      omega
  | due hfirst hlast hbefore => exact absurd (hbefore _ hreceived) (lt_irrefl _)

/-! ## What a step does to them -/

theorem Holder.Left.pass (left : s.Left n) (days : Nat) :
    ∃ m ≤ n, Holder.Left { s with today := s.today + day * days } m ∧
      (s.Diligent (.pass days) → m = n) := by
  rcases Nat.eq_zero_or_pos days with rfl | hpos
  · exact ⟨n, le_rfl, by simpa using left, fun _ => rfl⟩
  cases left with
  | ended hlast hreceived hn =>
      refine ⟨0, by omega, .ended (by simp only [day] at *; omega) ?_ rfl, fun _ => hn.symm⟩
      exact fun received hmem => (hreceived received hmem).trans_le (by simp only [day] at *; omega)
  | received hfirst hlast hreceived =>
      -- a second day that goes by would be tomorrow
      have htomorrow : s.Diligent (.pass days) → 0 < n → days = 1 := by
        intro hdiligent hn
        have hcan := (Holder.Left.received hfirst hlast hreceived).canReceive_tomorrow hreceived hn
        by_contra hne
        exact hdiligent 1 (by omega) hcan
      have hbefore : ∀ received ∈ s.card.lastReceiveDay, received < s.today + day * days := by
        intro received hmem
        rw [hreceived] at hmem
        cases hmem
        simp only [day]
        omega
      by_cases hn : n < days
      · refine ⟨0, Nat.zero_le n, .ended (by simp only [day] at *; omega) hbefore rfl, ?_⟩
        intro hdiligent
        by_contra hne
        have := htomorrow hdiligent (by omega)
        omega
      · refine ⟨n + 1 - days, by omega,
          .due (by simp only [day] at *; omega) (by simp only [day] at *; omega) hbefore
            (by omega), ?_⟩
        intro hdiligent
        have := htomorrow hdiligent (by omega)
        omega
  | due hfirst hlast hreceived hn =>
      have htoday : ¬ s.Diligent (.pass days) := by
        intro hdiligent
        refine hdiligent 0 hpos ?_
        simpa using (Holder.Left.due hfirst hlast hreceived hn).canReceive_iff.mpr
          ⟨fun h => lt_irrefl _ (hreceived _ h), hn⟩
      have hbefore : ∀ received ∈ s.card.lastReceiveDay, received < s.today + day * days :=
        fun received hmem => (hreceived received hmem).trans_le (by simp only [day] at *; omega)
      by_cases hle : n ≤ days
      · exact ⟨0, Nat.zero_le n, .ended (by simp only [day] at *; omega) hbefore rfl,
          fun hdiligent => absurd hdiligent htoday⟩
      · exact ⟨n - days, Nat.sub_le _ _,
          .due (by simp only [day] at *; omega) (by simp only [day] at *; omega) hbefore (by omega),
          fun hdiligent => absurd hdiligent htoday⟩

theorem Holder.Left.recharge (left : s.Left n) (days : Nat) :
    Holder.Left { s with card := s.card.recharge s.today days, bought := s.bought + days }
      (n + days) := by
  unfold MonthCard.recharge
  cases left with
  | ended hlast hreceived hn =>
      rw [if_pos hlast]
      rcases Nat.eq_zero_or_pos days with rfl | hpos
      · exact .ended (by simp only [day] at *; omega) hreceived (by omega)
      · exact .due le_rfl (by simp only [day] at *; omega) hreceived (by omega)
  | received hfirst hlast hreceived =>
      rw [if_neg (by simp only [day] at *; omega)]
      exact .received hfirst (by simp only [day] at *; omega) hreceived
  | due hfirst hlast hreceived hn =>
      rw [if_neg (by simp only [day] at *; omega)]
      exact .due hfirst (by simp only [day] at *; omega) hreceived (by omega)

theorem Holder.Left.receive (left : s.Left n) (hcan : s.card.CanReceive s.today) :
    0 < n ∧ Holder.Left
      { s with card := s.card.receive s.today, received := s.received + 1 } (n - 1) := by
  obtain ⟨hne, hn⟩ := left.canReceive_iff.mp hcan
  refine ⟨hn, ?_⟩
  cases left with
  | ended hlast hreceived hzero => omega
  | received hfirst hlast hreceived => exact absurd hreceived hne
  | due hfirst hlast hreceived =>
      refine .received hfirst ?_ rfl
      rw [MonthCard.receive, hlast, Nat.cast_pred hn]

theorem left_step (left : s.Left n) {event : CardEvent} (hstep : s.step event = some t) :
    ∃ m, t.Left m ∧ t.received + m + s.bought ≤ s.received + n + t.bought ∧
      (s.Diligent event → t.received + m + s.bought = s.received + n + t.bought) := by
  cases event with
  | pass days =>
      cases hstep
      obtain ⟨m, hle, hleft, hdiligent⟩ := left.pass days
      exact ⟨m, hleft, by dsimp only; omega, fun h => by rw [hdiligent h]⟩
  | recharge days =>
      cases hstep
      exact ⟨n + days, left.recharge days, by dsimp only; omega, fun _ => by dsimp only; omega⟩
  | receive =>
      rw [Holder.step] at hstep
      split at hstep
      · next hcan =>
        cases hstep
        obtain ⟨hpos, hleft⟩ := left.receive hcan
        exact ⟨n - 1, hleft, by dsimp only; omega, fun _ => by dsimp only; omega⟩
      · cases hstep

/-! ## Runs -/

/-- In every run there are at most as many bonuses as days that were paid for, and a
player who lets no day pass has as many when the last period has ended. -/
theorem received_of_run {today : Nat} {events : List CardEvent}
    (hrun : Run Holder.step free (Holder.start today) events s) :
    s.received ≤ s.bought ∧
      (Run Holder.step Holder.Diligent (Holder.start today) events s → s.Ended →
        s.received = s.bought) := by
  constructor
  · have hleft : ∃ n, s.Left n ∧ s.received + n ≤ s.bought := by
      apply hrun.invariant
      · exact ⟨0, left_start today, le_rfl⟩
      · rintro s event t ⟨n, left, hle⟩ - hstep
        obtain ⟨m, hleft, hcount, -⟩ := left_step left hstep
        exact ⟨m, hleft, by omega⟩
    obtain ⟨n, -, hle⟩ := hleft
    omega
  · intro hdiligent hended
    have hleft : ∃ n, s.Left n ∧ s.received + n = s.bought := by
      apply hdiligent.invariant
      · exact ⟨0, left_start today, rfl⟩
      · rintro s event t ⟨n, left, heq⟩ hguard hstep
        obtain ⟨m, hleft, -, hcount⟩ := left_step left hstep
        have := hcount hguard
        exact ⟨m, hleft, by omega⟩
    obtain ⟨n, left, heq⟩ := hleft
    have hzero : n = 0 := by
      by_contra hne
      by_cases hreceived : s.card.lastReceiveDay = some s.today
      · exact hended 1 (left.canReceive_tomorrow hreceived (by omega))
      · refine hended 0 ?_
        simpa using left.canReceive_iff.mpr ⟨hreceived, by omega⟩
    omega

end

/-- Two days are bought, one more while they run, and one after a gap. -/
def boughtThrice : List CardEvent :=
  [.recharge 2, .receive, .recharge 1, .pass 1, .receive, .pass 1, .receive, .pass 5,
    .recharge 1, .receive, .pass 1]

def boughtThriceEnd : Holder :=
  (exec Holder.step Holder.Diligent (.start 1550102400) boughtThrice).getD (.start 0)

theorem received_boughtThrice : boughtThriceEnd.received = boughtThriceEnd.bought := by
  have hrun : Run Holder.step Holder.Diligent (.start 1550102400) boughtThrice boughtThriceEnd :=
    run_exec_getD (Holder.start 0) (by decide +kernel)
  have hended : boughtThriceEnd.Ended := by
    intro passed hcan
    have hlast : boughtThriceEnd.card.lastDay < boughtThriceEnd.today := by decide +kernel
    have hle := hcan.1.2
    simp only [day] at hle
    omega
  exact (received_of_run (hrun.mono fun _ _ _ => trivial)).2 hrun hended

example : boughtThriceEnd.received = 4 := by decide +kernel

end Player
end ArmyRs
