import BlockScript.Console
import BlockScript.Evaluation.Operators
/-!
# The state of a running program

A machine keeps the scopes of a program with the values of its variables, and what it has
printed. Each run of a method, a branch or the body of a loop gets a frame of its own; frames
stay when they are left.
-/
namespace BlockScript

structure Variable where
  constant : Bool
  value : Value
deriving Repr, Inhabited

/-- What a function of the surroundings answers: the value of a literal, or one of its arguments. -/
inductive HostAnswer where
  | literal (value : Literal)
  | argument (index : Nat)
deriving Inhabited

/-- The value that an answer gives to arguments, nil for an argument that is not there. -/
def HostAnswer.value (answer : HostAnswer) (values : List Value) : Value :=
  match answer with
  | literal value => value.toValue
  | argument index => values.getD index .nil

/-- What a function does: print its argument, run the statements of a method in a frame under
`home`, tracing at the level of the machine that defined it, or what the surroundings do. What they
do depends on the arguments alone, of which it sees no frames, and leaves the machine as it is. -/
inductive Body where
  | print
  | method (home : FrameId) (level : Nat) (name : String) (parameters : List String)
      (statements : List Node)
  | host (act : List Value → Except RunFault HostAnswer)
deriving Inhabited

/-- A function may be bound without anything that it does. -/
structure Function where
  javaName : String
  body : Option Body
deriving Inhabited

/-- The scopes of a running program, the frame and the level of the trace that its own fields and
methods have, what it has written, and how many calls may be nested. Only calls of methods count.
What nested expressions and statements take of a stack is left out, and so is what reading, checking
and writing deep trees takes. -/
structure Machine where
  scopes : Scopes Variable Function
  root : FrameId
  level : Nat
  console : Console
  calls : Nat

/-- How many calls may be nested if nothing else is said. -/
def callLimit : Nat := 2000

abbrev Run := EStateM Fault Machine

namespace Machine

def empty (calls : Nat := callLimit) : Machine := ⟨.empty, 0, 0, .empty, calls⟩

/-- Adds the frame of a program, under a frame that is there already if there is one. -/
def addRoot (m : Machine) (parent : Option FrameId) (level : Nat) : Machine :=
  let root := m.scopes.next
  { m with
    scopes := (m.scopes.addFrame parent).addFunction root ⟨"print", 1⟩
      ⟨"System.out.println", some .print⟩
    root, level }

def new (level : Nat) (calls : Nat := callLimit) : Machine := (empty calls).addRoot none level

def newObject (m : Machine) (typeName : String) : Value × Machine :=
  (.object typeName m.scopes.next, { m with scopes := m.scopes.addFrame none })

end Machine

namespace Run

def fail {α : Type} (fault : RunFault) : Run α := throw (.run fault)

def lift {α : Type} : Except Fault α → Run α
  | .ok a => pure a
  | .error fault => throw fault

/-- The text of a value, if it is not too long an integer. -/
def text (v : Value) : Run String :=
  match v.toText? with
  | some s => pure s
  | none => throw .tooManyDigits

def printLine (line : String) : Run Unit :=
  modify fun m => { m with console := m.console.printLine line }

def note (line : String) : Run Unit :=
  modify fun m => { m with console := m.console.note .running line }

def newFrame (parent : Option FrameId) : Run FrameId :=
  modifyGet fun m => (m.scopes.next, { m with scopes := m.scopes.addFrame parent })

def defineVariable (scope : FrameId) (name : String) (v : Variable) : Run Unit := do
  if (← get).scopes.bindsVariable scope name then fail (.scope (.variableDefined name))
  else modify fun m => { m with scopes := m.scopes.addVariable scope name v }

def defineFunction (scope : FrameId) (signature : Signature) (f : Function) : Run Unit := do
  if (← get).scopes.bindsFunction scope signature then
    fail (.scope (.functionDefined signature))
  else modify fun m => { m with scopes := m.scopes.addFunction scope signature f }

def findVariable (scope : FrameId) (name : String) : Run (FrameId × Variable) := do
  match (← get).scopes.getVariable scope name with
  | .ok found => pure found
  | .error fault => fail (.scope fault)

def findFunction (scope : FrameId) (signature : Signature) : Run Function := do
  match (← get).scopes.getFunction scope signature with
  | .ok (_, f) => pure f
  | .error fault => fail (.scope fault)

def assignVariable (scope : FrameId) (name : String) (value : Value) : Run Unit := do
  let (home, v) ← findVariable scope name
  if v.constant then fail (.constantAssigned name)
  else modify fun m => { m with scopes := m.scopes.setVariable home name ⟨false, value⟩ }

def getField (typeName : String) (members : FrameId) (name : String) : Run Value := do
  match (← get).scopes.findVariable? members name with
  | some (_, v) => pure v.value
  | none => fail (.noField typeName name)

def setField (typeName : String) (members : FrameId) (name : String) (value : Value) :
    Run Unit := do
  match (← get).scopes.findVariable? members name with
  | some (home, v) =>
    if v.constant then fail (.constantField name)
    else modify fun m => { m with scopes := m.scopes.setVariable home name ⟨false, value⟩ }
  | none => fail (.noField typeName name)

/-- The method of an object for a number of arguments. The object itself is one more. -/
def findMethod (typeName : String) (members : FrameId) (name : String) (arguments : Nat) :
    Run Function := do
  match (← get).scopes.findFunction? members ⟨name, arguments + 1⟩ with
  | some (_, f) => pure f
  | none => fail (.noMethod typeName name arguments)

/-- Binds parameters to arguments in a frame, as many as there are of both. -/
def bindArguments (scope : FrameId) : List String → List Value → Run Unit
  | name :: names, v :: vs => do
    defineVariable scope name ⟨false, v⟩
    bindArguments scope names vs
  | _, _ => pure ()

def texts (values : List Value) : Run String := do
  return ", ".intercalate (← values.mapM text)

end Run
end BlockScript
