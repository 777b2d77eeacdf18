import ArmyRs.Foundation.Transition

/-!
# The client's stack of states

A state is exited when another one is pushed on it and entered again when that one is
popped, so only the top of the stack is entered.  `StateMachine` holds the stack, bottom
first, and the `enter` and `exit` calls made so far.

`clear` exits every state of the stack, also those that were exited when they were
covered.  In every run the calls of each state alternate, and the top alone is entered,
exactly as long as `clear` and `switch` are called with at most one state on the stack
(`run_inTurn_iff`).
-/

namespace ArmyRs
namespace Client

open Foundation

inductive FsmCall
  | enter
  | exit
  deriving DecidableEq, Repr

/-- The stack of states, with the calls that the states have got. -/
structure StateMachine (S : Type*) where
  states : List S
  calls : List (S × FsmCall)

inductive FsmEvent (S : Type*)
  | push (state : S)
  | switch (state : Option S)
  | pop
  | clear
  deriving DecidableEq, Repr

namespace StateMachine

section Operations

variable {S Name : Type*} [DecidableEq Name]

def new : StateMachine S where
  states := []
  calls := []

def currentState (m : StateMachine S) : Option S := m.states.getLast?

def call (m : StateMachine S) (state : S) (c : FsmCall) : StateMachine S :=
  { m with calls := m.calls ++ [(state, c)] }

/-- `if top then top:exit() end`, and the same with `enter`. -/
def callTop (m : StateMachine S) (c : FsmCall) : StateMachine S :=
  match m.currentState with
  | some top => m.call top c
  | none => m

/-- A state of the same name as the top takes its place. -/
def push (stateName : S → Name) (m : StateMachine S) (state : S) : StateMachine S :=
  let states :=
    if m.currentState.map stateName = some (stateName state) then m.states.dropLast ++ [state]
    else m.states ++ [state]
  { m.callTop .exit with states := states }.call state .enter

def pop (m : StateMachine S) : StateMachine S :=
  { m.callTop .exit with states := m.states.dropLast }.callTop .enter

/-- The loop of `clear`, from the index `i` down to the first state. -/
def clearFrom : Nat → StateMachine S → StateMachine S
  | 0, m => m
  | i + 1, m =>
      match m.states[i]? with
      | some state => clearFrom i { m.call state .exit with states := m.states.take i }
      | none => clearFrom i m

def clear (m : StateMachine S) : StateMachine S := clearFrom m.states.length m

/-- Clears the stack and switches to the given state. -/
def switch (stateName : S → Name) (m : StateMachine S) (state : Option S) : StateMachine S :=
  match state with
  | some state => m.clear.push stateName state
  | none => m.clear

def step (stateName : S → Name) (m : StateMachine S) : FsmEvent S → Option (StateMachine S)
  | .push state => some (m.push stateName state)
  | .switch state => some (m.switch stateName state)
  | .pop => some m.pop
  | .clear => some m.clear

theorem currentState_concat {xs : List S} {top : S} {calls : List (S × FsmCall)} :
    (⟨xs ++ [top], calls⟩ : StateMachine S).currentState = some top :=
  List.getLast?_concat ..

/-- The loop empties the stack and exits every state of it, the top first. -/
theorem clearFrom_eq (xs : List S) (calls : List (S × FsmCall)) :
    clearFrom xs.length ⟨xs, calls⟩ =
      ⟨[], calls ++ xs.reverse.map fun state => (state, .exit)⟩ := by
  induction xs using List.reverseRecOn generalizing calls with
  | nil => simp [clearFrom]
  | append_singleton xs top ih =>
      have htop : (xs ++ [top])[xs.length]? = some top := by simp
      have hrest : (xs ++ [top]).take xs.length = xs := by simp
      rw [List.length_append, List.length_singleton]
      simp only [clearFrom, htop, call, hrest, ih]
      simp

theorem clear_eq (m : StateMachine S) :
    m.clear = ⟨[], m.calls ++ m.states.reverse.map fun state => (state, .exit)⟩ :=
  clearFrom_eq m.states m.calls

end Operations

section Turns

variable {S : Type*} [DecidableEq S]

/-- The calls of one state, in their order. -/
def callsOf (calls : List (S × FsmCall)) (state : S) : List FsmCall :=
  (calls.filter fun entry => entry.1 = state).map Prod.snd

/-- The calls alternate, starting with `enter`. -/
def Alternates (calls : List FsmCall) : Prop :=
  calls.head? ≠ some .exit ∧ calls.IsChain (· ≠ ·)

/-- The last call of the state was `enter`. -/
def Entered (calls : List (S × FsmCall)) (state : S) : Prop :=
  (callsOf calls state).getLast? = some .enter

/-- The calls of every state alternate, and `open?` alone is entered. -/
structure TurnOf (calls : List (S × FsmCall)) (opened : Option S) : Prop where
  alternates : ∀ state, Alternates (callsOf calls state)
  entered : ∀ state, Entered calls state ↔ opened = some state

/-- Every state is entered and exited in turn, and exactly the top is entered. -/
def InTurn (m : StateMachine S) : Prop := TurnOf m.calls m.currentState

/-- The operation leaves the machine in turn. -/
def Keeps {Name : Type*} [DecidableEq Name] (stateName : S → Name) (m : StateMachine S)
    (event : FsmEvent S) : Prop :=
  ∀ next, m.step stateName event = some next → next.InTurn

end Turns

/-- Only a stack of at most one state is cleared. -/
def Single {S : Type*} (m : StateMachine S) : FsmEvent S → Prop
  | .push _ => True
  | .pop => True
  | .switch _ => m.states.length ≤ 1
  | .clear => m.states.length ≤ 1

section Calls

variable {S : Type*} [DecidableEq S] {calls more : List (S × FsmCall)} {state top : S} {c : FsmCall}

/-! ## The calls of one state -/

theorem alternates_append {cs : List FsmCall} :
    Alternates (cs ++ [c]) ↔ Alternates cs ∧ (c = .enter ↔ cs.getLast? ≠ some .enter) := by
  rcases List.eq_nil_or_concat' cs with rfl | ⟨init, last, rfl⟩
  · cases c <;> simp [Alternates]
  · have hhead : (init ++ [last] ++ [c]).head? = (init ++ [last]).head? := by simp
    rw [Alternates, Alternates, hhead, List.isChain_append, List.getLast?_concat]
    cases c <;> cases last <;> simp

theorem Alternates.of_append {cs ds : List FsmCall} (h : Alternates (cs ++ ds)) :
    Alternates cs := by
  refine ⟨fun hhead => h.1 ?_, (List.isChain_append.mp h.2).1⟩
  rw [List.head?_append, hhead]
  rfl

theorem callsOf_append (calls more : List (S × FsmCall)) (state : S) :
    callsOf (calls ++ more) state = callsOf calls state ++ callsOf more state := by
  simp [callsOf]

theorem callsOf_self (calls : List (S × FsmCall)) (state : S) (c : FsmCall) :
    callsOf (calls ++ [(state, c)]) state = callsOf calls state ++ [c] := by
  simp [callsOf]

theorem callsOf_of_ne (hne : top ≠ state) :
    callsOf (calls ++ [(top, c)]) state = callsOf calls state := by
  simp [callsOf, hne]

theorem turnOf_nil : TurnOf ([] : List (S × FsmCall)) none where
  alternates := fun state => by simp [callsOf, Alternates]
  entered := fun state => by simp [callsOf, Entered]

/-- The state that is entered gets exited. -/
theorem TurnOf.exit (h : TurnOf calls (some top)) : TurnOf (calls ++ [(top, .exit)]) none := by
  have hentered : (callsOf calls top).getLast? = some .enter := (h.entered top).mpr rfl
  constructor
  · intro state
    by_cases heq : top = state
    · subst heq
      rw [callsOf_self, alternates_append]
      exact ⟨h.alternates top, by simp [hentered]⟩
    · rw [callsOf_of_ne heq]
      exact h.alternates state
  · intro state
    refine iff_of_false ?_ (by simp)
    by_cases heq : top = state
    · subst heq
      simp [Entered, callsOf_self]
    · rw [Entered, callsOf_of_ne heq]
      exact fun hin => heq (Option.some.inj ((h.entered state).mp hin))

/-- A state is entered when none is. -/
theorem TurnOf.enter (h : TurnOf calls none) (state : S) :
    TurnOf (calls ++ [(state, .enter)]) (some state) := by
  have hentered : ∀ other, (callsOf calls other).getLast? ≠ some .enter := by
    intro other hin
    cases (h.entered other).mp hin
  constructor
  · intro other
    by_cases heq : state = other
    · subst heq
      rw [callsOf_self, alternates_append]
      exact ⟨h.alternates state, by simp [hentered]⟩
    · rw [callsOf_of_ne heq]
      exact h.alternates other
  · intro other
    by_cases heq : state = other
    · subst heq
      simp [Entered, callsOf_self]
    · rw [Entered, callsOf_of_ne heq]
      exact iff_of_false (hentered other) fun hin => heq (Option.some.inj hin)

/-- No state is exited when none is entered, whatever is called afterwards. -/
theorem TurnOf.not_exit (h : TurnOf calls none) (more : List (S × FsmCall)) :
    ¬ Alternates (callsOf (calls ++ (state, .exit) :: more) state) := by
  intro halternates
  have hsplit : calls ++ (state, .exit) :: more = calls ++ [(state, .exit)] ++ more := by simp
  rw [hsplit, callsOf_append, callsOf_self] at halternates
  have hexit := (alternates_append.mp halternates.of_append).2
  have hlast : (callsOf calls state).getLast? = some .enter := by
    by_contra hlast
    cases hexit.mpr hlast
  cases (h.entered state).mp hlast

end Calls

section Runs

variable {S Name : Type*} [DecidableEq S] [DecidableEq Name] {stateName : S → Name}
  {m next : StateMachine S} {event : FsmEvent S} {events : List (FsmEvent S)}

/-! ## The operations -/

/-- After the exit of the top no state is entered. -/
theorem InTurn.exitTop (h : m.InTurn) : TurnOf (m.callTop .exit).calls none := by
  unfold callTop
  unfold InTurn at h
  split
  · next top htop =>
    rw [htop] at h
    exact h.exit
  · next htop =>
    rw [htop] at h
    exact h

/-- Entering the top makes it the one that is entered. -/
theorem inTurn_enterTop (h : TurnOf m.calls none) : (m.callTop .enter).InTurn := by
  unfold callTop
  split
  · next top htop =>
    show TurnOf (m.calls ++ [(top, .enter)]) m.currentState
    rw [htop]
    exact h.enter top
  · next htop =>
    show TurnOf m.calls m.currentState
    rw [htop]
    exact h

theorem inTurn_new : (new : StateMachine S).InTurn := turnOf_nil

theorem InTurn.push (h : m.InTurn) (stateName : S → Name) (state : S) :
    (m.push stateName state).InTurn := by
  have hcalls := h.exitTop.enter state
  have hcurrent : (m.push stateName state).currentState = some state := by
    simp only [StateMachine.push, call]
    split
    · exact currentState_concat
    · exact currentState_concat
  unfold InTurn
  rw [hcurrent]
  exact hcalls

theorem InTurn.pop (h : m.InTurn) : m.pop.InTurn :=
  inTurn_enterTop (m := { m.callTop .exit with states := m.states.dropLast }) h.exitTop

theorem InTurn.clear (h : m.InTurn) (hsingle : m.states.length ≤ 1) : m.clear.InTurn := by
  rw [clear_eq]
  obtain ⟨states, calls⟩ := m
  match states, hsingle with
  | [], _ => simpa [InTurn, currentState] using h
  | [top], _ => exact TurnOf.exit h

/-- With two states on the stack, the lower one is exited a second time. -/
theorem InTurn.not_clear (h : m.InTurn) (hmany : 1 < m.states.length)
    (more : List (S × FsmCall)) :
    ∃ state, ¬ Alternates (callsOf (m.clear.calls ++ more) state) := by
  rw [clear_eq]
  obtain ⟨states, calls⟩ := m
  rcases List.eq_nil_or_concat' states with rfl | ⟨init, top, rfl⟩
  · simp at hmany
  rcases List.eq_nil_or_concat' init with rfl | ⟨xs, below, rfl⟩
  · simp at hmany
  have hexit : TurnOf (calls ++ [(top, .exit)]) none := by
    unfold InTurn at h
    rw [currentState_concat] at h
    exact h.exit
  refine ⟨below, ?_⟩
  have hcalls : ¬ Alternates (callsOf (calls ++ [(top, .exit)] ++ (below, .exit) ::
      (xs.reverse.map (fun state => (state, .exit)) ++ more)) below) := hexit.not_exit _
  simpa using hcalls

/-! ## Runs -/

theorem InTurn.step (h : m.InTurn) (hsingle : Single m event)
    (hstep : m.step stateName event = some next) : next.InTurn := by
  cases event with
  | push state =>
      cases hstep
      exact h.push stateName state
  | pop =>
      cases hstep
      exact h.pop
  | clear =>
      cases hstep
      exact h.clear hsingle
  | switch state =>
      cases hstep
      cases state with
      | none => exact h.clear hsingle
      | some state => exact (h.clear hsingle).push stateName state

/-- A stack of two states or more is not cleared in turn. -/
theorem InTurn.single (h : m.InTurn) (hkeeps : Keeps stateName m event) : Single m event := by
  cases event with
  | push state => trivial
  | pop => trivial
  | clear =>
      refine Nat.le_of_not_lt fun hmany => ?_
      obtain ⟨state, hnot⟩ := h.not_clear hmany []
      rw [List.append_nil] at hnot
      exact hnot ((hkeeps _ rfl).alternates state)
  | switch state =>
      refine Nat.le_of_not_lt fun hmany => ?_
      cases state with
      | none =>
          obtain ⟨state, hnot⟩ := h.not_clear hmany []
          rw [List.append_nil] at hnot
          exact hnot ((hkeeps _ rfl).alternates state)
      | some pushed =>
          -- nothing is on the stack any more, and the new state is entered
          obtain ⟨state, hnot⟩ := h.not_clear hmany [(pushed, .enter)]
          have hcalls : (m.switch stateName (some pushed)).calls =
              m.clear.calls ++ [(pushed, .enter)] := by
            simp only [StateMachine.switch, clear_eq]
            rfl
          refine hnot ?_
          rw [← hcalls]
          exact (hkeeps _ rfl).alternates state

/-- Over any sequence of operations: the calls of every state alternate, and exactly the
top is entered, as long as only stacks of at most one state are cleared, and no longer. -/
theorem run_inTurn_iff (stateName : S → Name) (events : List (FsmEvent S))
    (m : StateMachine S) :
    Run (step stateName) (Keeps stateName) new events m ↔
      Run (step stateName) Single new events m := by
  constructor
  · refine Run.mono_of_invariant inTurn_new ?_ ?_
    · intro state event h hkeeps
      exact h.single hkeeps
    · intro state event next h hkeeps hstep
      exact hkeeps next hstep
  · refine Run.mono_of_invariant inTurn_new ?_ ?_
    · intro state event h hsingle next hstep
      exact h.step hsingle hstep
    · intro state event next h hsingle hstep
      exact h.step hsingle hstep

/-- Two states are pushed, and the stack is cleared. -/
def pushTwice : List (FsmEvent Nat) := [.push 1, .push 2, .clear]

/-- The state that was covered is exited twice. -/
theorem not_inTurn_pushTwice :
    ¬ ∀ (events : List (FsmEvent Nat)) (m : StateMachine Nat),
      Run (step id) free new events m → m.InTurn := by
  intro hall
  have hinTurn := hall pushTwice _ (run_exec_getD new (by decide))
  have halternates := (hinTurn.alternates 1).2
  revert halternates
  decide

end Runs

end StateMachine
end Client
end ArmyRs
