import ArmyRs.Client.BehaviourTree

/-!
# What a behaviour tree stands for

The standard semantics of a behaviour tree, by recursion on the tree: a sequence
and a priority evaluate their children from left to right up to the first one
that does not let them go on, an inverter swaps success and failure, and the
other decorators force the result of a child that has finished.  When a leaf is
running, its path is all that is kept, and the next tick resumes there.
-/

namespace ArmyRs
namespace Client

/-- The result of a tick; a tree that is running keeps the path of its leaf. -/
inductive Result
  | success
  | fail
  | running (path : Path)
  deriving DecidableEq, Repr

namespace Result

def outcome : Result → Outcome
  | .success => .success
  | .fail => .fail
  | .running _ => .running

/-- Where the next tick resumes. -/
def resume : Result → Option Path
  | .running path => some path
  | .success | .fail => none

end Result

/-- What a leaf gives. -/
def Outcome.result : Outcome → Result
  | .success => .success
  | .fail => .fail
  | .running => .running []

def Decorator.result : Decorator → Result → Result
  | _, .running path => .running (0 :: path)
  | .inverter, .success => .fail
  | .inverter, .fail => .success
  | .succeeder, .success | .succeeder, .fail => .success
  | .failer, .success | .failer, .fail => .fail

/-- The result of a child with which a branch node goes on to the next one. -/
def Composite.proceeds : Composite → Result
  | .sequence => .success
  | .priority => .fail

/-- The result, when the child with this number has given `result` and the ones
after it would give `rest`. -/
def Composite.result (kind : Composite) (i : Nat) (result rest : Result) : Result :=
  match result with
  | .running path => .running (i :: path)
  | .success => if kind.proceeds = .success then rest else .success
  | .fail => if kind.proceeds = .fail then rest else .fail

variable {L : Type*}

mutual

/-- The result of a tree, which resumes at the path. -/
def Tree.eval (task : L → Outcome) : Tree L → Option Path → Result
  | .leaf own, _ => (task own).result
  | .branch kind nodes, resume => evalNodes task kind nodes 0 resume
  | .decorator kind node, resume => kind.result (node.eval task (resume.map List.tail))

/-- The children from this number on; the ones before the resumed child have
finished. -/
def evalNodes (task : L → Outcome) (kind : Composite) :
    List (Tree L) → Nat → Option Path → Result
  | [], _, _ => kind.proceeds
  | _ :: nodes, i, some ((j + 1) :: path) => evalNodes task kind nodes (i + 1) (some (j :: path))
  | node :: nodes, i, resume =>
      kind.result i (node.eval task (resume.map List.tail)) (evalNodes task kind nodes (i + 1) none)

end

mutual

/-- No branch node without children is reached, and no inverter whose child is
running. -/
def Tree.plain (task : L → Outcome) : Tree L → Option Path → Bool
  | .leaf _, _ => true
  | .branch kind nodes, resume => !nodes.isEmpty && plainNodes task kind nodes resume
  | .decorator kind node, resume =>
      node.plain task (resume.map List.tail) &&
        !(kind = .inverter && (node.eval task (resume.map List.tail)).outcome = .running)

/-- The same of the children that are evaluated. -/
def plainNodes (task : L → Outcome) (kind : Composite) : List (Tree L) → Option Path → Bool
  | [], _ => true
  | _ :: nodes, some ((j + 1) :: path) => plainNodes task kind nodes (some (j :: path))
  | node :: nodes, resume =>
      node.plain task (resume.map List.tail) &&
        (node.eval task (resume.map List.tail) != kind.proceeds || plainNodes task kind nodes none)

end

/-- The outcomes of ticks one after the other. -/
def Tree.standard (tree : Tree L) : List (L → Outcome) → Option Path → List Outcome
  | [], _ => []
  | task :: tasks, resume =>
      (tree.eval task resume).outcome :: tree.standard tasks (tree.eval task resume).resume

/-- Every tick is plain. -/
def Tree.plainTicks (tree : Tree L) : List (L → Outcome) → Option Path → Bool
  | [], _ => true
  | task :: tasks, resume =>
      tree.plain task resume && tree.plainTicks tasks (tree.eval task resume).resume

end Client
end ArmyRs
