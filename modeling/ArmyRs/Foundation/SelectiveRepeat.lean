import Mathlib.Tactic

/-!
# Selective repeat

A sender numbers items from 0 on and holds each until it knows that the receiver has
it.  The receiver takes items in any order and passes them on in the order of their
numbers.  `Channel` has one direction of such a connection.  `SenderStep` and
`ReceiverStep` say what may happen at the two ends: an item is numbered, items that the
receiver has are let go of, an item arrives, the next one is passed on.  How the ends
learn of one another is not part of it; a protocol is shown correct by showing that each
of its steps amounts to some of these.

What was passed on is a beginning of what was numbered (`passed_isPrefix`), a numbered
item is with the sender or with the receiver (`Sound.kept`), and when the sender holds
nothing and the next item has not arrived, all has been passed on
(`Sound.passedItems_eq`).
-/

namespace ArmyRs
namespace Foundation

variable {α : Type*}

/-- One direction of a connection: the items numbered so far, the numbers that the sender
holds, those that the receiver has had, and how many items it has passed on. -/
structure Channel (α : Type*) where
  log : List α
  held : Set ℕ
  received : Set ℕ
  passed : ℕ

namespace Channel

/-- Nothing has been sent. -/
def empty : Channel α := ⟨[], ∅, ∅, 0⟩

/-- The next item gets its number. -/
def number (c : Channel α) (item : α) : Channel α :=
  { c with log := c.log ++ [item], held := insert c.log.length c.held }

/-- The sender lets go of some items. -/
def release (c : Channel α) (ns : Set ℕ) : Channel α := { c with held := c.held \ ns }

/-- The item with this number arrives. -/
def receive (c : Channel α) (n : ℕ) : Channel α := { c with received := insert n c.received }

/-- The receiver passes the next item on. -/
def pass (c : Channel α) : Channel α := { c with passed := c.passed + 1 }

inductive SenderStep : Channel α → Channel α → Prop
  | number (c : Channel α) (item : α) : SenderStep c (c.number item)
  | release (c : Channel α) {ns : Set ℕ} (hns : ns ⊆ c.received) : SenderStep c (c.release ns)

inductive ReceiverStep : Channel α → Channel α → Prop
  | receive (c : Channel α) {n : ℕ} (hn : n < c.log.length) : ReceiverStep c (c.receive n)
  | pass (c : Channel α) (hnext : c.passed ∈ c.received) : ReceiverStep c c.pass

/-- Some steps of the sender, or none. -/
abbrev SenderReaches : Channel α → Channel α → Prop := Relation.ReflTransGen SenderStep

/-- Some steps of the receiver, or none. -/
abbrev ReceiverReaches : Channel α → Channel α → Prop := Relation.ReflTransGen ReceiverStep

/-- The items passed on. -/
def passedItems (c : Channel α) : List α := c.log.take c.passed

/-- What holds of a channel after any steps. -/
structure Sound (c : Channel α) : Prop where
  received_lt : ∀ n ∈ c.received, n < c.log.length
  passed_received : ∀ n < c.passed, n ∈ c.received
  kept : ∀ n < c.log.length, n ∈ c.held ∨ n ∈ c.received

theorem sound_empty : Sound (empty : Channel α) where
  received_lt := fun _ h => h.elim
  passed_received := fun _ h => absurd h (Nat.not_lt_zero _)
  kept := fun _ h => absurd h (Nat.not_lt_zero _)

theorem length_log_number (c : Channel α) (item : α) :
    (c.number item).log.length = c.log.length + 1 := by
  simp [number]

theorem Sound.senderStep {c next : Channel α} (h : Sound c) (hstep : SenderStep c next) :
    Sound next := by
  cases hstep with
  | number item =>
      refine ⟨?_, h.passed_received, ?_⟩
      · intro n hn
        rw [length_log_number]
        exact Nat.lt_succ_of_lt (h.received_lt n hn)
      · intro n hn
        rw [length_log_number] at hn
        rcases Nat.lt_succ_iff_lt_or_eq.mp hn with hlt | rfl
        · exact (h.kept n hlt).imp_left (Set.mem_insert_of_mem _)
        · exact Or.inl (Set.mem_insert _ _)
  | @release ns hns =>
      refine ⟨h.received_lt, h.passed_received, ?_⟩
      intro n hn
      by_cases hgone : n ∈ ns
      · exact Or.inr (hns hgone)
      · exact (h.kept n hn).imp_left fun hheld => ⟨hheld, hgone⟩

theorem Sound.receiverStep {c next : Channel α} (h : Sound c) (hstep : ReceiverStep c next) :
    Sound next := by
  cases hstep with
  | @receive n hn =>
      refine ⟨?_, ?_, ?_⟩
      · rintro m (rfl | hm)
        · exact hn
        · exact h.received_lt m hm
      · exact fun m hm => Set.mem_insert_of_mem _ (h.passed_received m hm)
      · exact fun m hm => (h.kept m hm).imp_right (Set.mem_insert_of_mem _)
  | pass hnext =>
      refine ⟨h.received_lt, ?_, h.kept⟩
      intro m hm
      rcases Nat.lt_succ_iff_lt_or_eq.mp hm with hlt | rfl
      · exact h.passed_received m hlt
      · exact hnext

theorem Sound.senderReaches {c next : Channel α} (h : Sound c) (hreach : SenderReaches c next) :
    Sound next := by
  induction hreach with
  | refl => exact h
  | tail _ hstep ih => exact ih.senderStep hstep

theorem Sound.receiverReaches {c next : Channel α} (h : Sound c)
    (hreach : ReceiverReaches c next) : Sound next := by
  induction hreach with
  | refl => exact h
  | tail _ hstep ih => exact ih.receiverStep hstep

/-- The sender changes nothing of what the receiver knows, and forgets no number. -/
theorem SenderReaches.frame {c next : Channel α} (hreach : SenderReaches c next) :
    c.log <+: next.log ∧ next.received = c.received ∧ next.passed = c.passed := by
  induction hreach with
  | refl => exact ⟨List.prefix_refl _, rfl, rfl⟩
  | tail _ hstep ih =>
      cases hstep with
      | number item => exact ⟨ih.1.trans (List.prefix_append _ _), ih.2⟩
      | release _ => exact ih

/-- The receiver changes nothing of what the sender knows, and forgets no item. -/
theorem ReceiverReaches.frame {c next : Channel α} (hreach : ReceiverReaches c next) :
    next.log = c.log ∧ next.held = c.held ∧ c.received ⊆ next.received ∧
      c.passed ≤ next.passed := by
  induction hreach with
  | refl => exact ⟨rfl, rfl, subset_rfl, le_rfl⟩
  | tail _ hstep ih =>
      obtain ⟨hlog, hheld, hreceived, hpassed⟩ := ih
      cases hstep with
      | receive hn => exact ⟨hlog, hheld, hreceived.trans (Set.subset_insert _ _), hpassed⟩
      | pass hnext => exact ⟨hlog, hheld, hreceived, Nat.le_succ_of_le hpassed⟩

section

variable {c : Channel α}

/-- Only numbered items are passed on. -/
theorem Sound.passed_le (h : Sound c) : c.passed ≤ c.log.length := by
  by_contra hlt
  have hmem : c.log.length ∈ c.received := h.passed_received _ (not_le.mp hlt)
  exact lt_irrefl _ (h.received_lt _ hmem)

theorem passed_isPrefix (c : Channel α) : c.passedItems <+: c.log := List.take_prefix _ _

/-- When the sender holds nothing and the next item has not arrived, there is none. -/
theorem Sound.passedItems_eq (h : Sound c) (hheld : c.held = ∅)
    (hnext : c.passed ∉ c.received) : c.passedItems = c.log := by
  have hle : c.log.length ≤ c.passed := by
    by_contra hlt
    rcases h.kept _ (not_le.mp hlt) with hmem | hmem
    · rw [hheld] at hmem
      exact hmem
    · exact hnext hmem
  exact List.take_of_length_le hle

end

end Channel

end Foundation
end ArmyRs
