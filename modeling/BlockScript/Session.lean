import BlockScript.Host
/-!
# Sessions

Pieces of a program are entered one by one and take effect in one frame. A piece goes through the
stages in turn; where it fails the later ones do not see it, but what the earlier ones did stays.
-/
namespace BlockScript

inductive PieceKind where
  | field | method | statement | expression | program
deriving DecidableEq, Repr

/-- What entering a piece gives: nothing, the value that it returns, or its value and its type
if it was checked. -/
inductive PieceResult where
  | done
  | returned (value : Value)
  | value (value : Value) (type : Option StaticType)

/-- The scopes that the pieces have filled, and whether pieces are checked. -/
structure Session where
  checker : Checker
  machine : Machine
  checks : Bool

def PieceKind.ofNode (node : Node) : PieceKind :=
  match node with
  | .source .. => program
  | node => if node.isExpression then expression else statement

/-- Checks a piece in a frame and gives its type if it is an expression. -/
def PieceKind.check (kind : PieceKind) (scope : FrameId) (node : Node) :
    Check (Node × Option StaticType) := do
  match kind with
  | field => return (← checkField scope node, none)
  | method => return (← checkBody scope (← declareMethod scope node), none)
  | statement => return (← checkStatement none scope node, none)
  | expression =>
    let (node, t) ← checkExpression scope node
    return (node, some t)
  | program => return (← checkSource scope node, none)

def PieceKind.run (kind : PieceKind) (a : Activation) (node : Node) (type : Option StaticType) :
    Run PieceResult := do
  match kind with
  | field =>
    executeField (steps stepLimit) a node
    return .done
  | method =>
    defineMethod a node
    return .done
  | statement =>
    match ← (steps stepLimit).execute a node with
    | some v => return .returned v
    | none => return .done
  | expression => return .value (← (steps stepLimit).evaluate a node) type
  | program => return .value (← executeSource (steps stepLimit) a node) none

/-- Reads a piece; what stands after it does not matter. -/
def PieceKind.read (kind : PieceKind) (text : String) : Except Fault Node :=
  match kind with
  | field => readAs Rule.field text
  | method => readAs Rule.method text
  | statement => readAs Rule.statement text
  | expression => readAs Rule.expression text
  | program => readAs Rule.source text

namespace Session

def checked (s : Session) (kind : PieceKind) (node : Node) :
    Except Fault (Node × Option StaticType) × Session :=
  if s.checks then
    let (result, c) := Check.outcome (kind.check s.checker.root node) s.checker
    (result, { s with checker := c })
  else (.ok (node, none), s)

def enter (s : Session) (kind : PieceKind) (text : String) :
    Except Fault PieceResult × Session :=
  match kind.read text with
  | .error fault => (.error fault, s)
  | .ok node =>
    match s.checked kind node with
    | (.error fault, s) => (.error fault, s)
    | (.ok (node, type), s) =>
      let (result, m) := Run.outcome (kind.run s.machine.activation node type) s.machine
      (result, { s with machine := m })

end Session
end BlockScript
