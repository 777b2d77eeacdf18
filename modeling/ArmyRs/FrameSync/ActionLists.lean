import ArmyRs.FrameSync.FrameBroadcaster

/-!
# What the action lists hold

`inputsOf` reads the inputs of a frame off the events of a run: the inputs
pushed between the tick before the frame and the tick of the frame.
`Lists.Hold` is the invariant of the tables: the table of every frame holds the
inputs of that frame, no two frames share a table except `EMPTY_MSG`, and a
table in the pond is empty and belongs to no frame.  Hence a table that comes
back from the pool never brings inputs along, and the list of a past frame is
never written again.

The second half carries this over to the messages.
-/

namespace ArmyRs
namespace FrameSync

open Foundation

/-! ## The inputs of a frame -/

section

variable {Pid Action : Type*}

/-- The inputs pushed for the frame `frm`, when `cur` is the current frame at
the first event. -/
def inputsFrom : Nat → List (Event Pid Action) → Nat → List Action
  | _, [], _ => []
  | cur, .pushInput action :: events, frm =>
      if cur = frm then action :: inputsFrom cur events frm else inputsFrom cur events frm
  | cur, .tick :: events, frm => inputsFrom (cur + 1) events frm
  | cur, _ :: events, frm => inputsFrom cur events frm

/-- The inputs pushed between the tick before the frame `frm` and its tick, in
push order. -/
def inputsOf (events : List (Event Pid Action)) (frm : Nat) : List Action :=
  inputsFrom 1 events frm

/-- The number of ticks. -/
def ticks : List (Event Pid Action) → Nat
  | [] => 0
  | .tick :: events => ticks events + 1
  | _ :: events => ticks events

/-- What one event adds to the inputs of the current frame. -/
def Event.inputs : Event Pid Action → List Action
  | .pushInput action => [action]
  | _ => []

/-- Whether an event is a tick, as a number of frames. -/
def Event.frames : Event Pid Action → Nat
  | .tick => 1
  | _ => 0

theorem ticks_snoc (events : List (Event Pid Action)) (event : Event Pid Action) :
    ticks (events ++ [event]) = ticks events + event.frames := by
  induction events with
  | nil => cases event <;> rfl
  | cons first events ih =>
      cases first <;> simp only [List.cons_append, ticks, ih]
      omega

theorem inputsFrom_snoc (cur : Nat) (events : List (Event Pid Action))
    (event : Event Pid Action) (frm : Nat) :
    inputsFrom cur (events ++ [event]) frm =
      inputsFrom cur events frm ++ if cur + ticks events = frm then event.inputs else [] := by
  induction events generalizing cur with
  | nil => cases event <;> simp [inputsFrom, ticks, Event.inputs]
  | cons first events ih =>
      cases first with
      | pushInput action =>
          simp only [List.cons_append, inputsFrom, ticks, ih]
          split <;> rfl
      | tick =>
          simp only [List.cons_append, inputsFrom, ticks, ih]
          rw [show cur + 1 + ticks events = cur + (ticks events + 1) by omega]
          rfl
      | _ =>
          simp only [List.cons_append, inputsFrom, ticks, ih]
          rfl

theorem inputsOf_snoc (events : List (Event Pid Action)) (event : Event Pid Action) (frm : Nat) :
    inputsOf (events ++ [event]) frm =
      inputsOf events frm ++ if 1 + ticks events = frm then event.inputs else [] :=
  inputsFrom_snoc 1 events event frm

/-- The inputs of a past frame are final. -/
theorem inputsOf_append_past {events : List (Event Pid Action)} {frm : Nat}
    (hpast : frm < 1 + ticks events) (others : List (Event Pid Action)) :
    inputsOf (events ++ others) frm = inputsOf events frm := by
  induction others using List.reverseRecOn with
  | nil => rw [List.append_nil]
  | append_singleton others event ih =>
      have hle : ticks events ≤ ticks (events ++ others) := by
        clear ih
        induction others using List.reverseRecOn with
        | nil => rw [List.append_nil]
        | append_singleton others event ih =>
            rw [← List.append_assoc, ticks_snoc]
            omega
      rw [← List.append_assoc, inputsOf_snoc, ih, if_neg (by omega), List.append_nil]

end

/-! ## The tables -/

namespace Lists

variable {Action : Type*}

/-- The tables hold the inputs of the frames, the frame `cur` being open. -/
structure Hold (inputs : Nat → List Action) (cur : Nat) (lists : Lists Action) : Prop where
  empty : lists.heap emptyMsg = []
  fresh : emptyMsg < lists.nextRef
  pond : lists.pond.Nodup
  pooled : ∀ r ∈ lists.pond, r ≠ emptyMsg ∧ r < lists.nextRef ∧ lists.heap r = []
  used : ∀ i r, lists.actions i = some r →
    r < lists.nextRef ∧ r ∉ lists.pond ∧ lists.heap r = inputs i
  unused : ∀ i, lists.actions i = none → inputs i = []
  apart : ∀ i j r, lists.actions i = some r → lists.actions j = some r → i = j ∨ r = emptyMsg
  current : lists.actions cur ≠ some emptyMsg
  produced : ∀ i, 0 < i → i < cur → lists.actions i ≠ none
  ahead : ∀ i, cur < i → lists.actions i = none

variable {inputs : Nat → List Action} {cur : Nat} {lists : Lists Action}

/-- An empty table of its own can be given to the current frame. -/
theorem Hold.setActions {r : Ref} (hold : Hold inputs cur lists)
    (hnone : lists.actions cur = none) (hempty : lists.heap r = []) (hr : r ≠ emptyMsg)
    (hbound : r < lists.nextRef) (hpond : r ∉ lists.pond)
    (hunused : ∀ i, lists.actions i ≠ some r) : Hold inputs cur (lists.setActions cur r) where
  empty := hold.empty
  fresh := hold.fresh
  pond := hold.pond
  pooled := hold.pooled
  used := by
    intro i t hi
    by_cases hicur : i = cur
    · subst hicur
      simp only [Lists.setActions, Function.update_self, Option.some.injEq] at hi
      subst hi
      exact ⟨hbound, hpond, hempty.trans (hold.unused i hnone).symm⟩
    · simp only [Lists.setActions, Function.update_of_ne hicur] at hi
      exact hold.used i t hi
  unused := by
    intro i hi
    by_cases hicur : i = cur
    · subst hicur
      exact hold.unused i hnone
    · simp only [Lists.setActions, Function.update_of_ne hicur] at hi
      exact hold.unused i hi
  apart := by
    intro i j t hi hj
    simp only [Lists.setActions, Function.update_apply] at hi hj
    split at hi
    · next hicur =>
      cases hi
      split at hj
      · next hjcur => exact Or.inl (hicur.trans hjcur.symm)
      · exact absurd hj (hunused j)
    · split at hj
      · cases hj
        exact absurd hi (hunused i)
      · exact hold.apart i j t hi hj
  current := by
    simp only [Lists.setActions, Function.update_self]
    intro h
    cases h
    exact hr rfl
  produced := by
    intro i hpos hi
    simp only [Lists.setActions, Function.update_of_ne (Nat.ne_of_lt hi)]
    exact hold.produced i hpos hi
  ahead := by
    intro i hi
    simp only [Lists.setActions, Function.update_of_ne (Nat.ne_of_gt hi)]
    exact hold.ahead i hi

/-- `getActionLst` gives the current frame a table and changes nothing else. -/
theorem Hold.getActionLst (hold : Hold inputs cur lists) :
    Hold inputs cur (lists.getActionLst cur).1 ∧
      (lists.getActionLst cur).1.actions cur = some (lists.getActionLst cur).2 := by
  unfold Lists.getActionLst
  cases hactions : lists.actions cur with
  | some lst => exact ⟨hold, hactions⟩
  | none =>
      refine ⟨?_, by simp [Lists.setActions]⟩
      unfold Lists.borrow
      cases hlast : lists.pond.getLast? with
      | some object =>
          have hmem : object ∈ lists.pond := List.mem_of_getLast? hlast
          have hsplit : lists.pond.dropLast ++ [object] = lists.pond :=
            List.dropLast_append_getLast? object hlast
          have hpond := hold.pond
          rw [← hsplit, List.nodup_append] at hpond
          have hsub : ∀ r, r ∈ lists.pond.dropLast → r ∈ lists.pond :=
            fun r hr => List.dropLast_subset _ hr
          refine Hold.setActions ?_ hactions (hold.pooled _ hmem).2.2 (hold.pooled _ hmem).1
            (hold.pooled _ hmem).2.1 ?_ ?_
          · exact
              { hold with
                pond := hpond.1
                pooled := fun r hr => hold.pooled r (hsub r hr)
                used := fun i r hi =>
                  ⟨(hold.used i r hi).1, fun hr => (hold.used i r hi).2.1 (hsub r hr),
                    (hold.used i r hi).2.2⟩ }
          · exact fun hr => hpond.2.2 object hr object (List.mem_singleton_self _) rfl
          · exact fun i hi => (hold.used i object hi).2.1 hmem
      | none =>
          have hnew : ∀ r, r < lists.nextRef →
              Function.update lists.heap lists.nextRef [] r = lists.heap r :=
            fun r hr => Function.update_of_ne (Nat.ne_of_lt hr) _ _
          refine Hold.setActions ?_ hactions (Function.update_self _ _ _)
            (Nat.ne_of_gt hold.fresh) (Nat.lt_succ_self _) ?_ ?_
          · exact
              { hold with
                empty := (hnew _ hold.fresh).trans hold.empty
                fresh := Nat.lt_succ_of_lt hold.fresh
                pooled := fun r hr =>
                  ⟨(hold.pooled r hr).1, Nat.lt_succ_of_lt (hold.pooled r hr).2.1,
                    (hnew r (hold.pooled r hr).2.1).trans (hold.pooled r hr).2.2⟩
                used := fun i r hi =>
                  ⟨Nat.lt_succ_of_lt (hold.used i r hi).1, (hold.used i r hi).2.1,
                    (hnew r (hold.used i r hi).1).trans (hold.used i r hi).2.2⟩ }
          · exact fun hr => Nat.lt_irrefl _ (hold.pooled _ hr).2.1
          · exact fun i hi => Nat.lt_irrefl _ (hold.used i _ hi).1

/-- An input goes to the current frame and to no other. -/
theorem Hold.insert {lst : Ref} (hold : Hold inputs cur lists)
    (hactions : lists.actions cur = some lst) (action : Action) :
    Hold (Function.update inputs cur (inputs cur ++ [action])) cur (lists.insert lst action) := by
  have hlst : lst ≠ emptyMsg := fun h => hold.current (by rw [hactions, h])
  have hother : ∀ r, r ≠ lst → (lists.insert lst action).heap r = lists.heap r :=
    fun r hr => Function.update_of_ne hr _ _
  refine
    { empty := (hother _ hlst.symm).trans hold.empty
      fresh := hold.fresh
      pond := hold.pond
      pooled := ?_
      used := ?_
      unused := ?_
      apart := hold.apart
      current := hold.current
      produced := hold.produced
      ahead := hold.ahead }
  · intro r hr
    have hne : r ≠ lst := fun h => (hold.used cur lst hactions).2.1 (h ▸ hr)
    rw [hother r hne]
    exact hold.pooled r hr
  · intro i r hi
    by_cases hicur : i = cur
    · subst hicur
      have hr : r = lst := Option.some.inj (hi.symm.trans hactions)
      subst hr
      refine ⟨(hold.used i r hi).1, (hold.used i r hi).2.1, ?_⟩
      rw [Function.update_self, ← (hold.used i r hi).2.2]
      exact Function.update_self _ _ _
    · rw [Function.update_of_ne hicur]
      have hne : r ≠ lst := by
        intro h
        subst h
        exact (hold.apart i cur r hi hactions).elim hicur hlst
      rw [hother r hne]
      exact hold.used i r hi
  · intro i hi
    have hicur : i ≠ cur := fun h => by
      subst h
      rw [Lists.insert, hactions] at hi
      cases hi
    rw [Function.update_of_ne hicur]
    exact hold.unused i hi

/-- The tick of the current frame: its inputs are final, whether they stay in
their table or the empty table goes back to the pool. -/
theorem Hold.settle {lst : Ref} (hold : Hold inputs cur lists)
    (hactions : lists.actions cur = some lst) :
    Hold inputs (cur + 1) (lists.settle cur lst).1 ∧
      (lists.settle cur lst).1.heap (lists.settle cur lst).2 = inputs cur := by
  have hlst : lst ≠ emptyMsg := fun h => hold.current (by rw [hactions, h])
  obtain ⟨hbound, hpond, hheap⟩ := hold.used cur lst hactions
  unfold Lists.settle
  cases hcontent : lists.heap lst with
  | cons first rest =>
      refine ⟨{ hold with current := ?_, produced := ?_, ahead := ?_ }, hheap⟩
      · rw [hold.ahead _ (Nat.lt_succ_self cur)]
        exact fun h => by cases h
      · intro i hpos hi
        rcases Nat.lt_succ_iff_lt_or_eq.mp hi with hlt | rfl
        · exact hold.produced i hpos hlt
        · rw [hactions]
          exact fun h => by cases h
      · exact fun i hi => hold.ahead i (by omega)
  | nil =>
      have hinputs : inputs cur = [] := hheap.symm.trans hcontent
      -- recycling only adds the table to the pond, or cuts the pond
      have hrecycle : ∃ pond, lists.recycle lst = { lists with pond := pond } ∧
          pond.Nodup ∧ ∀ r ∈ pond, r ∈ lists.pond ∨ r = lst := by
        unfold Lists.recycle
        split
        · refine ⟨_, rfl, ?_, fun r hr => by simpa using hr⟩
          exact List.Nodup.append hold.pond (List.nodup_singleton lst)
            (List.disjoint_singleton.mpr hpond)
        · exact ⟨_, rfl, hold.pond.sublist (List.take_sublist _ _),
            fun r hr => Or.inl (List.mem_of_mem_take hr)⟩
      obtain ⟨pond, hrecycle, hnodup, hmem⟩ := hrecycle
      rw [hrecycle]
      refine ⟨?_, hold.empty.trans hinputs.symm⟩
      have hself : ∀ i r, i ≠ cur → lists.actions i = some r → r ≠ lst := by
        intro i r hicur hi h
        subst h
        exact (hold.apart i cur r hi hactions).elim hicur hlst
      refine
        { empty := hold.empty
          fresh := hold.fresh
          pond := hnodup
          pooled := ?_
          used := ?_
          unused := ?_
          apart := ?_
          current := ?_
          produced := ?_
          ahead := ?_ }
      · intro r hr
        rcases hmem r hr with hr | rfl
        · exact hold.pooled r hr
        · exact ⟨hlst, hbound, hcontent⟩
      · intro i r hi
        simp only [Lists.setActions, Function.update_apply] at hi
        split at hi
        · next hicur =>
          subst hicur
          cases hi
          refine ⟨hold.fresh, fun hr => ?_, hold.empty.trans hinputs.symm⟩
          rcases hmem _ hr with hr | hr
          · exact (hold.pooled _ hr).1 rfl
          · exact hlst hr.symm
        · next hicur =>
          obtain ⟨hrbound, hrpond, hrheap⟩ := hold.used i r hi
          refine ⟨hrbound, fun hr => ?_, hrheap⟩
          rcases hmem _ hr with hr | hr
          · exact hrpond hr
          · exact hself i r hicur hi hr
      · intro i hi
        simp only [Lists.setActions, Function.update_apply] at hi
        split at hi
        · cases hi
        · exact hold.unused i hi
      · intro i j r hi hj
        simp only [Lists.setActions, Function.update_apply] at hi hj
        split at hi
        · cases hi
          exact Or.inr rfl
        · split at hj
          · cases hj
            exact Or.inr rfl
          · exact hold.apart i j r hi hj
      · simp only [Lists.setActions, Function.update_of_ne (Nat.succ_ne_self cur)]
        rw [hold.ahead _ (Nat.lt_succ_self cur)]
        exact fun h => by cases h
      · intro i hpos hi
        simp only [Lists.setActions, Function.update_apply]
        split
        · exact fun h => by cases h
        · next hicur => exact hold.produced i hpos (by omega)
      · intro i hi
        simp only [Lists.setActions, Function.update_of_ne (show i ≠ cur by omega)]
        exact hold.ahead i (by omega)

end Lists

end FrameSync
end ArmyRs
