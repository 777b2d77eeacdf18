import Mathlib.Logic.Function.Basic
import ArmyRs.Foundation.Calls

/-!
# Behaviour trees

The nodes of a behaviour tree are objects.  A node is told to run, and reports to
its control with a call of `success`, `fail` or `running`; a control goes on with
its next child in the middle of such a call.  So a tick of the tree is one chain
of calls, and what a composite has to do next it knows by its fields.

A node is known by its path, the numbers of the children on the way to it.  The
children and the class of a node do not change, and are looked up in the tree.
`bt.lua` loads `Repeater.lua` after `Inverter.lua`, which puts its `running` into
the class `Inverter`.
-/

namespace ArmyRs
namespace Client

open Foundation

inductive Outcome
  | success
  | fail
  | running
  deriving DecidableEq, Repr

/-- The branch nodes. -/
inductive Composite
  | sequence
  | priority
  deriving DecidableEq, Repr

inductive Decorator
  | inverter
  | succeeder
  | failer
  deriving DecidableEq, Repr

/-- A tree, with tasks at its leaves. -/
inductive Tree (L : Type*)
  | leaf (task : L)
  | branch (kind : Composite) (nodes : List (Tree L))
  | decorator (kind : Decorator) (node : Tree L)

abbrev Path := List Nat

/-- Whom a node reports to. -/
inductive Control
  | behaviourTree
  | node (path : Path)
  deriving DecidableEq, Repr

/-- The fields of the nodes, and those of `BehaviourTree`. -/
structure Fields where
  started : Bool
  /-- What `BehaviourTree` was told in this tick. -/
  outcomes : List Outcome
  control : Path → Option Control
  nodeRunning : Path → Bool
  /-- The child of a branch node that is at work. -/
  node : Path → Option Path
  actualTask : Path → Nat

/-- A function returns, or raises an error. -/
inductive Return
  | returned (s : Fields)
  | raised (s : Fields)

/-- What a node, or the `BehaviourTree`, is told. -/
inductive Method
  | run (path : Path)
  /-- `BranchNode:_run` -/
  | runNode (path : Path)
  /-- `success`, `fail` or `running` -/
  | report (outcome : Outcome) (control : Control)
  deriving DecidableEq, Repr

abbrev Call := Method × Fields

variable {L : Type*}

/-- The node with the path. -/
def Tree.node? : Tree L → Path → Option (Tree L)
  | tree, [] => some tree
  | .leaf _, _ :: _ => none
  | .branch _ nodes, i :: path =>
      match nodes[i]? with
      | none => none
      | some node => node.node? path
  | .decorator _ node, i :: path => if i = 0 then node.node? path else none

namespace Return

/-- What is done after a call; an error leaves it out. -/
def map (f : Fields → Fields) : Return → Return
  | .returned s => .returned (f s)
  | .raised s => .raised s

def fields : Return → Fields
  | .returned s => s
  | .raised s => s

end Return

namespace Fields

def new : Fields where
  started := false
  outcomes := []
  control := fun _ => none
  nodeRunning := fun _ => false
  node := fun _ => none
  actualTask := fun _ => 0

def setControl (s : Fields) (path : Path) (control : Control) : Fields :=
  { s with control := Function.update s.control path (some control) }

def resetActualTask (s : Fields) (path : Path) : Fields :=
  { s with actualTask := Function.update s.actualTask path 1 }

/-- `BranchNode:success` and `BranchNode:fail`; the `finish` of the child changes
nothing. -/
def leave (s : Fields) (path : Path) : Fields :=
  { s with
    nodeRunning := Function.update s.nodeRunning path false
    node := Function.update s.node path none }

def advance (s : Fields) (path : Path) : Fields :=
  { s with actualTask := Function.update s.actualTask path (s.actualTask path + 1) }

end Fields

/-- `start`, by the class of the node. -/
def Tree.start : Tree L → Path → Fields → Fields
  | .leaf _, _, s => s
  | .branch _ _, path, s => if s.nodeRunning path then s else s.resetActualTask path
  | .decorator _ node, path, s =>
      node.start (path ++ [0]) (s.setControl (path ++ [0]) (.node path))

/-- `self.control:success()` and so on, and what follows.  The call of a missing
control is an error. -/
def tellControl (path : Path) (outcome : Outcome) (s : Fields) (rest : Fields → Fields) :
    Body Call Return :=
  match s.control path with
  | none => .returns (.raised s)
  | some control => .calls (.report outcome control, s) (Return.map rest)

/-- `Node:success`, `Node:fail` and `Node:running` -/
def nodeReport (path : Path) (outcome : Outcome) (s : Fields) : Body Call Return :=
  match s.control path with
  | none => .returns (.returned s)
  | some control => .calls (.report outcome control, s) id

/-! ## Branch nodes -/

/-- `BranchNode:run` -/
def branchRun (nodes : List (Tree L)) (path : Path) (s : Fields) : Body Call Return :=
  if s.actualTask path ≤ nodes.length then .calls (.runNode path, s) id
  else .returns (.returned s)

/-- `BranchNode:_run` -/
def branchRunNode (nodes : List (Tree L)) (path : Path) (s : Fields) : Body Call Return :=
  if s.nodeRunning path then
    match s.node path with
    | none => .returns (.returned s)
    | some node => .calls (.run node, s) id
  else
    match s.actualTask path with
    | 0 => .returns (.raised s)
    | i + 1 =>
        match nodes[i]? with
        | none => .returns (.raised s)
        | some node =>
            let s := { s with node := Function.update s.node path (some (path ++ [i])) }
            let s := s.setControl (path ++ [i]) (.node path)
            .calls (.run (path ++ [i]), node.start (path ++ [i]) s) id

/-- `BranchNode:running` -/
def branchRunning (path : Path) (s : Fields) : Body Call Return :=
  tellControl path .running
    { s with nodeRunning := Function.update s.nodeRunning path true } id

/-- `Sequence:success` and `Priority:fail`: the next child has its turn. -/
def branchProceed (nodes : List (Tree L)) (path : Path) (outcome : Outcome) (s : Fields) :
    Body Call Return :=
  let s := (s.leave path).advance path
  if s.actualTask path ≤ nodes.length then .calls (.runNode path, s) id
  else tellControl path outcome s fun s => s.resetActualTask path

/-- `Sequence:fail` and `Priority:success` -/
def branchStop (path : Path) (outcome : Outcome) (s : Fields) : Body Call Return :=
  tellControl path outcome (s.leave path) fun s => s.resetActualTask path

def Composite.report : Composite → List (Tree L) → Path → Outcome → Fields → Body Call Return
  | .sequence, nodes, path, .success, s => branchProceed nodes path .success s
  | .sequence, _, path, .fail, s => branchStop path .fail s
  | .priority, _, path, .success, s => branchStop path .success s
  | .priority, nodes, path, .fail, s => branchProceed nodes path .fail s
  | _, _, path, .running, s => branchRunning path s

/-! ## Decorators -/

/-- An inverter has no `count` and no `num`, which `running` compares. -/
def Decorator.report : Decorator → Path → Outcome → Fields → Body Call Return
  | .inverter, path, .success, s => tellControl path .fail s id
  | .inverter, path, .fail, s => tellControl path .success s id
  | .inverter, _, .running, s => .returns (.raised s)
  | .succeeder, path, .success, s | .succeeder, path, .fail, s => tellControl path .success s id
  | .failer, path, .success, s | .failer, path, .fail, s => tellControl path .fail s id
  | .succeeder, path, .running, s | .failer, path, .running, s => nodeReport path .running s

/-! ## Ticks -/

/-- `BehaviourTree:success`, `BehaviourTree:fail` and `BehaviourTree:running`; the
tree itself has no control. -/
def behaviourTreeReport (outcome : Outcome) (s : Fields) : Body Call Return :=
  .returns (.returned { s with started := false, outcomes := s.outcomes ++ [outcome] })

/-- What a call does, when the tasks end so in this tick. -/
def Tree.body (tree : Tree L) (task : L → Outcome) : Call → Body Call Return
  | (.run path, s) =>
      match tree.node? path with
      | none => .returns (.raised s)
      | some (.leaf own) => .calls (.report (task own) (.node path), s) id
      | some (.branch _ nodes) => branchRun nodes path s
      | some (.decorator _ _) => .calls (.run (path ++ [0]), s) id
  | (.runNode path, s) =>
      match tree.node? path with
      | some (.branch _ nodes) => branchRunNode nodes path s
      | _ => .returns (.raised s)
  | (.report outcome .behaviourTree, s) => behaviourTreeReport outcome s
  | (.report outcome (.node path), s) =>
      match tree.node? path with
      | none => .returns (.raised s)
      | some (.leaf _) => nodeReport path outcome s
      | some (.branch kind nodes) => kind.report nodes path outcome s
      | some (.decorator kind _) => kind.report path outcome s

/-- `BehaviourTree:run`, with a bound on the calls.  A tree that is started still
does nothing. -/
def Tree.tick (tree : Tree L) (depth : Nat) (task : L → Outcome) (s : Fields) : Option Return :=
  if s.started then some (.returned { s with outcomes := [] })
  else
    let s := { s with started := true, outcomes := [] }
    perform (tree.body task) depth (.run [], tree.start [] (s.setControl [] .behaviourTree))

/-- What `BehaviourTree` is told in each tick. -/
def Tree.ticks (tree : Tree L) (depth : Nat) : List (L → Outcome) → Fields → List (List Outcome)
  | [], _ => []
  | task :: tasks, s =>
      match tree.tick depth task s with
      | none => [] :: tree.ticks depth tasks s
      | some ret => ret.fields.outcomes :: tree.ticks depth tasks ret.fields

end Client
end ArmyRs
