import BlockScript.Evaluation.Steps
/-!
# Running programs

The fields of a program are evaluated in order, its methods are bound, and then its method `main`
is called without arguments. A machine can run programs one after another; what they define stays.
-/
namespace BlockScript

open Run

variable {M : Type → Type} [Monad M] [MonadLiftT Run M]

/-- How many nested steps a run may take before it is cut off: more than can ever be taken. -/
def stepLimit : Nat := 1000000000000000

@[specialize] def executeField (s : Steps M) (a : Activation) : Node → M Unit
  | .field name _ constant value _ => do
    let v ← if value.isAbsent then pure Value.nil else s.evaluate a value
    bindVariable a "field" name ⟨constant, v⟩
  | .literal value _ =>
    match value with
    | .nil => (throw .misplacedNode : Run Unit)
    | value => (throw (.unexpectedNode .evaluate value.kindPath) : Run Unit)
  | _ => (throw .misplacedNode : Run Unit)

def defineMethod (a : Activation) : Node → Run Unit
  | .method name parameters _ _ statements _ => do
    let signature : Signature := ⟨name, parameters.length⟩
    defineFunction a.scope signature
      ⟨name, some (.method a.scope a.level name parameters statements)⟩
    noteAt a 2 (return "define method " ++ signature.toText)
  | _ => throw .misplacedNode

def findMain (a : Activation) : Run Function := do
  match (← get).scopes.findFunction? a.scope ⟨"main", 0⟩ with
  | some (_, main) => pure main
  | none => fail .noMain

@[specialize] def executeSource (s : Steps M) (a : Activation) : Node → M Value
  | .source fields methods => do
    fields.forM (executeField s a)
    methods.forM fun method => (defineMethod a method : Run Unit)
    let main ← findMain a
    s.invoke a ⟨"main", 0⟩ main []
  | _ => (throw .misplacedNode : Run Value)

/-- Executes a whole program between two lines of the trace. The result is turned into text even
without a trace. -/
@[specialize] def executeProgram (s : Steps M) (a : Activation) (program : Node) : M Value := do
  noteAt a 1 (return "run source")
  let v ← executeSource s a program
  let shown ← s.write v
  noteAt a 1 (return "main returned " ++ shown)
  return v

def Run.outcome {α : Type} (run : Run α) (m : Machine) : Except Fault α × Machine :=
  match run m with
  | .ok a m => (.ok a, m)
  | .error fault m => (.error fault, m)

namespace Machine

def activation (m : Machine) : Activation := ⟨m.root, m.calls, m.level⟩

def runWithin (fuel : Nat) (m : Machine) (program : Node) : Except Fault Value × Machine :=
  let (result, m) := Run.outcome (executeProgram (steps fuel) m.activation program) m
  (result, { m with console := m.console.close })

def run (m : Machine) (program : Node) : Except Fault Value × Machine :=
  m.runWithin stepLimit program

end Machine
end BlockScript
