import BlockScript.Evaluation.Machine
/-!
# Evaluating and executing

Expressions give values and statements run in a frame; a statement gives a value only when it
returns from the method around it. Nothing here relies on the program having been checked: what
an operation needs of its operands is tested when it is reached. Each kind of step says what it
does by the steps that are nested in it, in any monad that can run a program. A program may run for
ever, so the steps that run it are given the number of nested steps after which they give up.
-/
namespace BlockScript

open Run

/-- Where a step takes place: the frame, how many more calls may be nested, and the level of the
trace. -/
structure Activation where
  scope : FrameId
  calls : Nat
  level : Nat

namespace Activation

def within (a : Activation) (scope : FrameId) : Activation := { a with scope }

end Activation

variable {M : Type → Type} [Monad M] [MonadLiftT Run M]

def noteAt (a : Activation) (least : Nat) (line : Run String) : Run Unit := do
  if least ≤ a.level then note (← line) else pure ()

def requireBoolean (a : Activation) (construct : String) (v : Value) : Run Bool := do
  match v with
  | .boolean b => do
    noteAt a 3 (return construct ++ " condition -> " ++ (← text v))
    return b
  | v => fail (.condition construct v.typeName)

def bindVariable (a : Activation) (what name : String) (v : Variable) : Run Unit := do
  defineVariable a.scope name v
  noteAt a 2 (return what ++ " " ++ name ++ " = " ++ (← text v.value))

/-- What a function of the surroundings gives for arguments, which it is shown without the frames of
objects. -/
def callHost (act : List Value → Except RunFault HostAnswer) (values : List Value) :
    Except Fault Value :=
  match act (values.map Value.shown) with
  | .ok answer => .ok (answer.value values)
  | .error fault => .error (.run fault)

/-- The kinds of steps: the value of an expression, the values of expressions from left to right, an
operator that needs the values of both operands, the text of a value that is written out, the result
of a function for its arguments, a statement, a loop from its condition on, and statements in turn
until one returns. -/
structure Steps (M : Type → Type) where
  evaluate : Activation → Node → M Value
  evaluateAll : Activation → List Node → M (List Value)
  operate : String → Value → Value → M Value
  write : Value → M String
  invoke : Activation → Signature → Function → List Value → M Value
  execute : Activation → Node → M (Option Value)
  executeLoop : Activation → String → Node → Node → List Node → M (Option Value)
  executeAll : Activation → List Node → M (Option Value)

namespace Steps

@[specialize] def evaluateNode (s : Steps M) (a : Activation) (node : Node) : M Value :=
  match node with
  | .literal value _ => return value.toValue
  | .group inner _ => s.evaluate a inner
  | .binary operator left right _ => do
    let l ← s.evaluate a left
    if conjunctions.contains operator then
      if ← requireBoolean a operator l then
        return .boolean (← requireBoolean a operator (← s.evaluate a right))
      else return .boolean false
    else if disjunctions.contains operator then
      if ← requireBoolean a operator l then return .boolean true
      else return .boolean (← requireBoolean a operator (← s.evaluate a right))
    else
      let r ← s.evaluate a right
      s.operate operator l r
  | .access receiver name _ _ => do
    if receiver.isAbsent then
      let (_, v) ← findVariable a.scope name
      return v.value
    else
      match ← s.evaluate a receiver with
      | .object typeName members => getField typeName members name
      | v => (fail (.fieldAccessedOn name v.typeName) : Run Value)
  | .call receiver name arguments _ _ => do
    if receiver.isAbsent then
      let values ← s.evaluateAll a arguments
      let signature : Signature := ⟨name, values.length⟩
      let f ← findFunction a.scope signature
      s.invoke a signature f values
    else
      let target ← s.evaluate a receiver
      let values ← s.evaluateAll a arguments
      match target with
      | .object typeName members => do
        let f ← findMethod typeName members name values.length
        s.invoke a ⟨name, values.length + 1⟩ f (target :: values)
      | v => (fail (.methodCalledOn name v.typeName) : Run Value)
  | node => (throw (.unexpectedNode .evaluate node.kindPath) : Run Value)

@[specialize] def evaluateNodes (s : Steps M) (a : Activation) (nodes : List Node) :
    M (List Value) :=
  match nodes with
  | [] => return []
  | node :: rest => do
    let v ← s.evaluate a node
    let vs ← s.evaluateAll a rest
    return v :: vs

/-- The result of a function for its arguments. A method that ends without returning gives
nil. -/
@[specialize] def invokeFunction (s : Steps M) (a : Activation) (signature : Signature)
    (f : Function) (values : List Value) : M Value :=
  match f.body with
  | none => (throw (.scope (.noImplementation signature)) : Run Value)
  | some .print =>
    match values with
    | [v] => do
      printLine (← s.write v)
      return .nil
    | _ => (fail .printArguments : Run Value)
  | some (.method home level name parameters statements) =>
    match a.calls with
    | 0 => (fail .callsExhausted : Run Value)
    | calls + 1 => do
      let inner : Activation := ⟨← newFrame (some home), calls, level⟩
      bindArguments inner.scope parameters values
      noteAt inner 3 (return "call " ++ name ++ "(" ++ (← texts values) ++ ")")
      return (← s.executeAll inner statements).getD .nil
  | some (.host act) => (lift (callHost act values) : Run Value)

@[specialize] def executeNode (s : Steps M) (a : Activation) (node : Node) : M (Option Value) :=
  match node with
  | .exprStmt expression => do
    let _ ← s.evaluate a expression
    return none
  | .declaration name _ value _ => do
    let v ← if value.isAbsent then pure Value.nil else s.evaluate a value
    bindVariable a "declare" name ⟨false, v⟩
    return none
  | .assign receiver value =>
    match receiver with
    | .access object name _ _ => do
      let v ← s.evaluate a value
      if object.isAbsent then assignVariable a.scope name v
      else
        match ← s.evaluate a object with
        | .object typeName members => setField typeName members name v
        | target => (fail (.fieldAssignedOn name target.typeName) : Run Unit)
      return none
    | _ => (fail .assignmentReceiver : Run (Option Value))
  | .ifStmt condition thens elses => do
    if ← requireBoolean a "if" (← s.evaluate a condition) then
      s.executeAll (a.within (← newFrame (some a.scope))) thens
    else s.executeAll (a.within (← newFrame (some a.scope))) elses
  | .forStmt initialization condition increment statements => do
    let a := a.within (← newFrame (some a.scope))
    if initialization.isAbsent then s.executeLoop a "for" condition increment statements
    else
      let _ ← s.execute a initialization
      s.executeLoop a "for" condition increment statements
  | .whileStmt condition statements => s.executeLoop a "while" condition .absent statements
  | .returnStmt value => do
    let v ← s.evaluate a value
    return some v
  | node => (throw (.unexpectedNode .execute node.kindPath) : Run (Option Value))

/-- Executes the body of a loop and then its increment, if it has one, for as long as the
condition holds and nothing is returned. -/
@[specialize] def executeRound (s : Steps M) (a : Activation) (construct : String)
    (condition increment : Node) (statements : List Node) : M (Option Value) := do
  if ← requireBoolean a construct (← s.evaluate a condition) then
    match ← s.executeAll (a.within (← newFrame (some a.scope))) statements with
    | some v => return some v
    | none =>
      if increment.isAbsent then s.executeLoop a construct condition increment statements
      else
        let _ ← s.execute a increment
        s.executeLoop a construct condition increment statements
  else return none

@[specialize] def executeNodes (s : Steps M) (a : Activation) (nodes : List Node) :
    M (Option Value) :=
  match nodes with
  | [] => return none
  | node :: rest => do
    match ← s.execute a node with
    | some v => return some v
    | none => s.executeAll a rest

def giveUp : Steps M where
  evaluate _ _ := (throw .unfinished : Run Value)
  evaluateAll _ _ := (throw .unfinished : Run (List Value))
  operate _ _ _ := (throw .unfinished : Run Value)
  write _ := (throw .unfinished : Run String)
  invoke _ _ _ _ := (throw .unfinished : Run Value)
  execute _ _ := (throw .unfinished : Run (Option Value))
  executeLoop _ _ _ _ _ := (throw .unfinished : Run (Option Value))
  executeAll _ _ := (throw .unfinished : Run (Option Value))

end Steps

/-- The steps that run a program, with a limit to how deeply they are nested. -/
def steps : Nat → Steps Run
  | 0 => .giveUp
  | fuel + 1 =>
    { evaluate := fun a node => (steps fuel).evaluateNode a node
      evaluateAll := fun a nodes => (steps fuel).evaluateNodes a nodes
      operate := fun operator l r => lift (applyBinary operator l r)
      write := text
      invoke := fun a signature f values => (steps fuel).invokeFunction a signature f values
      execute := fun a node => (steps fuel).executeNode a node
      executeLoop := fun a construct condition increment statements =>
        (steps fuel).executeRound a construct condition increment statements
      executeAll := fun a nodes => (steps fuel).executeNodes a nodes }

def invoke (fuel : Nat) (a : Activation) (signature : Signature) (f : Function)
    (values : List Value) : Run Value :=
  (steps fuel).invoke a signature f values

end BlockScript
