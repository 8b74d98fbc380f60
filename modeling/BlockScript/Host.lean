import BlockScript.Program
/-!
# Surroundings of a program

What a program finds outside of itself: variables, objects with fields and methods, and
functions, all bound in a frame around the frame of the program. Checking sees their types and
running sees their values; the bodies of their methods are not checked and leave no trace. A
function may also be one that no program defines, or stand without anything that it does.
-/
namespace BlockScript

/-- Something that the surroundings bind. The members of an object, and methods, are given as a
program of fields and methods. -/
inductive HostEntry where
  | binding (name javaName : String) (constant : Bool) (typeName : String) (value : Value)
  | object (name javaName : String) (constant : Bool) (typeName typeJavaName : String)
      (members : Node)
  | methods (program : Node)
  | function (name javaName : String) (parameterTypes : List String) (returnType : String)
      (act : Option (List Value → Except RunFault HostAnswer))

def Node.members : Node → List Node × List Node
  | source fields methods => (fields, methods)
  | _ => ([], [])

/-- Checks the fields of an object and binds its methods, in a frame of their own. -/
def checkMembers (members : Node) : Check FrameId := do
  let frame ← Check.newFrame none
  let _ ← members.members.1.mapM (checkField frame)
  let _ ← members.members.2.mapM (declareMethod frame)
  return frame

namespace HostEntry

def declare (scope : FrameId) : HostEntry → Check Unit
  | binding name javaName constant typeName _ => do
    let t ← Check.lift (typeNamed typeName)
    Check.defineVariable ⟨scope, name, javaName, constant, t⟩
  | object name javaName constant typeName typeJavaName members => do
    let frame ← checkMembers members
    Check.defineVariable ⟨scope, name, javaName, constant, .object typeName typeJavaName frame⟩
  | methods program => do
    let _ ← program.members.2.mapM (declareMethod scope)
  | function name javaName parameterTypes returnType _ => do
    let types ← Check.lift (parameterTypes.mapM typeNamed)
    let t ← Check.lift (typeNamed returnType)
    Check.defineFunction scope ⟨name, javaName, parameterTypes.length, types, t⟩

/-- Where the fields and methods of the surroundings are evaluated and bound. -/
def place (scope : FrameId) (calls : Nat := callLimit) : Activation := ⟨scope, calls, 0⟩

/-- The same with as many nested calls as the machine allows. -/
def placed (scope : FrameId) : Run Activation := return place scope (← get).calls

end HostEntry

def makeObject (typeName : String) (members : Node) : Run Value := do
  let frame ← Run.newFrame none
  let a ← HostEntry.placed frame
  members.members.1.forM (executeField (steps stepLimit) a)
  members.members.2.forM (defineMethod a)
  return .object typeName frame

namespace HostEntry

def define (scope : FrameId) : HostEntry → Run Unit
  | binding name _ constant _ value => Run.defineVariable scope name ⟨constant, value⟩
  | object name _ constant typeName _ members => do
    let value ← makeObject typeName members
    Run.defineVariable scope name ⟨constant, value⟩
  | methods program => program.members.2.forM (defineMethod (place scope))
  | function name javaName parameterTypes _ act =>
    Run.defineFunction scope ⟨name, parameterTypes.length⟩ ⟨javaName, act.map Body.host⟩

end HostEntry

/-- Binds entries in a new frame for checking, and adds the frame of a program under it. -/
def Checker.inside (c : Checker) (entries : List HostEntry) (level : Nat) :
    Except Fault Checker := do
  let (result, c) := Check.outcome (do
    let frame ← Check.newFrame none
    entries.forM (HostEntry.declare frame)
    return frame) c
  return c.addRoot (some (← result)) level

/-- Binds entries in a new frame for running, and adds the frame of a program under it. -/
def Machine.inside (m : Machine) (entries : List HostEntry) (level : Nat) :
    Except Fault Machine := do
  let (result, m) := Run.outcome (do
    let frame ← Run.newFrame none
    entries.forM (HostEntry.define frame)
    return frame) m
  return m.addRoot (some (← result)) level

def callMethod (object : Value) (name : String) (arguments : List Value) : Run Value := do
  match object with
  | .object typeName members =>
    let f ← Run.findMethod typeName members name arguments.length
    let a ← HostEntry.placed members
    invoke stepLimit a ⟨name, arguments.length + 1⟩ f (object :: arguments)
  | v => Run.fail (.methodCalledOn name v.typeName)

/-- Prints values as the function that programs have for it does. -/
def callPrint (arguments : List Value) : Run Value := do
  let a ← HostEntry.placed 0
  invoke stepLimit a ⟨"print", 1⟩ ⟨"System.out.println", some .print⟩ arguments

end BlockScript
