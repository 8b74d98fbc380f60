import BlockScript.Console
import BlockScript.Typing.Operators
/-!
# The state of checking

A checker keeps the scopes that it has filled and its trace. The scope of a program is the frame
`root`, which binds the printing of one value.
-/
namespace BlockScript

structure Checker where
  scopes : Scopes StaticVariable StaticFunction
  root : FrameId
  level : Nat
  console : Console

abbrev Check := EStateM Fault Checker

/-- Prints one value of any type. -/
def StaticFunction.print : StaticFunction :=
  ⟨"print", "System.out.println", 1, [.any], .nil⟩

namespace Checker

def empty : Checker := ⟨.empty, 0, 0, .empty⟩

/-- Adds the frame of a program, under a frame that is there already if there is one. -/
def addRoot (c : Checker) (parent : Option FrameId) (level : Nat) : Checker :=
  let root := c.scopes.next
  { c with
    scopes := (c.scopes.addFrame parent).addFunction root StaticFunction.print.signature .print
    root, level }

def new (level : Nat) : Checker := empty.addRoot none level

end Checker

namespace Check

def fail {α : Type} (fault : TypeFault) : Check α := throw (.typing fault)

def lift {α : Type} : Except TypeFault α → Check α
  | .ok a => pure a
  | .error fault => fail fault

def note (least : Nat) (line : String) : Check Unit :=
  modify fun c =>
    if least ≤ c.level then { c with console := c.console.note .checking line } else c

def newFrame (parent : Option FrameId) : Check FrameId :=
  modifyGet fun c => (c.scopes.next, { c with scopes := c.scopes.addFrame parent })

def defineVariable (v : StaticVariable) : Check Unit := do
  if (← get).scopes.bindsVariable v.home v.name then fail (.scope (.variableDefined v.name))
  else modify fun c => { c with scopes := c.scopes.addVariable v.home v.name v }

def defineFunction (scope : FrameId) (f : StaticFunction) : Check Unit := do
  if (← get).scopes.bindsFunction scope f.signature then
    fail (.scope (.functionDefined f.signature))
  else modify fun c => { c with scopes := c.scopes.addFunction scope f.signature f }

/-- The variable that a name means in a frame; no frame binds nothing. -/
def findVariable (scope : Option FrameId) (name : String) : Check StaticVariable := do
  match scope.bind ((← get).scopes.findVariable? · name) with
  | some (_, v) => pure v
  | none => fail (.scope (.unboundVariable name))

def findFunction (scope : Option FrameId) (signature : Signature) : Check StaticFunction := do
  match scope.bind ((← get).scopes.findFunction? · signature) with
  | some (_, f) => pure f
  | none => fail (.scope (.unboundFunction signature))

/-- Fails unless every argument may be passed for its parameter. -/
def requireArguments : List StaticType → List StaticType → Check Unit
  | p :: ps, a :: as => do
    lift (requireAccepts p a)
    requireArguments ps as
  | _, _ => pure ()

end Check
end BlockScript
