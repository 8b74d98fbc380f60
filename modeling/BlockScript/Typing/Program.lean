import BlockScript.Typing.Checker
/-!
# Checking programs

One pass over a tree that resolves every name, finds the type of every expression, and gives the
tree back with its slots filled. Fields come before methods and see the fields above them; the
signatures of all methods come before their bodies, so bodies may call any of them. Slots that
are filled already are not looked at.
-/
namespace BlockScript

open Check

def noteType (kind : String) (t : StaticType) : Check Unit := note 3 (kind ++ " : " ++ t.name)

mutual

def checkExpression (scope : FrameId) : Node → Check (Node × StaticType)
  | .literal value _ => do
    match value.staticType with
    | .ok t =>
      noteType "Literal" t
      return (.literal value (some t), t)
    | .error fault => throw fault
  | .group inner _ => do
    let (inner, t) ← checkExpression scope inner
    noteType "Group" t
    return (.group inner (some t), t)
  | .binary operator left right _ => do
    let (left, l) ← checkExpression scope left
    let (right, r) ← checkExpression scope right
    let t ← lift (binaryType operator l r)
    noteType "BinaryOp" t
    return (.binary operator left right (some t), t)
  | .access receiver name _ _ => do
    if receiver.isAbsent then
      let v ← findVariable (some scope) name
      noteType "Access" v.type
      return (.access .absent name (some v.type) (some v), v.type)
    else
      let (receiver, t) ← checkExpression scope receiver
      let v ← findVariable t.members? name
      noteType "Access" v.type
      return (.access receiver name (some v.type) (some v), v.type)
  | .call receiver name arguments _ _ => do
    let (arguments, types) ← checkExpressions scope arguments
    if receiver.isAbsent then
      let f ← findFunction (some scope) ⟨name, arguments.length⟩
      requireArguments f.parameterTypes types
      noteType "Call" f.returnType
      return (.call .absent name arguments (some f.returnType) (some f), f.returnType)
    else
      let (receiver, t) ← checkExpression scope receiver
      let f ← findFunction t.members? ⟨name, arguments.length + 1⟩
      requireArguments (f.parameterTypes.drop 1) types
      noteType "Call" f.returnType
      return (.call receiver name arguments (some f.returnType) (some f), f.returnType)
  | node => throw (.unexpectedNode .checkExpression node.kindPath)

def checkExpressions (scope : FrameId) : List Node → Check (List Node × List StaticType)
  | [] => return ([], [])
  | node :: rest => do
    let (node, t) ← checkExpression scope node
    let (rest, ts) ← checkExpressions scope rest
    return (node :: rest, t :: ts)

end

def checkCondition (scope : FrameId) (construct : String) (node : Node) : Check Node := do
  let (node, t) ← checkExpression scope node
  if t == .boolean then return node else fail (.condition construct t)

def checkInitial (scope : FrameId) (value : Node) : Check (Node × Option StaticType) := do
  if value.isAbsent then return (value, none)
  else
    let (value, t) ← checkExpression scope value
    return (value, some t)

def introduce (what : String) (v : StaticVariable) : Check Unit := do
  defineVariable v
  note 2 (what ++ " " ++ v.name ++ ": " ++ v.type.name)

def declaredType (name : String) (typeName : Option String) (initial : Option StaticType) :
    Except TypeFault StaticType := do
  match typeName, initial with
  | some typeName, some t => do
    let declared ← typeNamed typeName
    requireAccepts declared t
    return declared
  | some typeName, none => typeNamed typeName
  | none, some t => return t
  | none, none => throw (.untypedDeclaration name)

/-- The type of what the first or the last part of the header of a loop assigns to, after that part
has been checked. -/
def headerType : Node → Check (Option StaticType)
  | .absent => return none
  | .assign (.access _ _ (some t) _) _ => return (some t)
  | _ => throw .misplacedNode

/-- Fails if both parts of the header of a loop assign, but to different types. -/
def requireSameType : Option StaticType → Option StaticType → Check Unit
  | some t, some t' => if t' == t then pure () else fail (.incrementType t' t)
  | _, _ => pure ()

mutual

/-- Checks a statement in a frame. `returns` is what the method around it returns, if there is
one. -/
def checkStatement (returns : Option StaticType) (scope : FrameId) : Node → Check Node
  | .exprStmt expression => do
    let (expression, _) ← checkExpression scope expression
    return .exprStmt expression
  | .declaration name typeName value _ => do
    let (value, initial) ← checkInitial scope value
    let t ← lift (declaredType name typeName initial)
    let v : StaticVariable := ⟨scope, name, name, false, t⟩
    introduce "declare" v
    return .declaration name typeName value (some v)
  | .assign receiver value => do
    match receiver with
    | .access .. =>
      let (receiver, target) ← checkExpression scope receiver
      let (value, t) ← checkExpression scope value
      match receiver with
      | .access _ name _ (some v) =>
        if v.constant then fail (.constantAssigned name)
        else
          lift (requireAccepts target t)
          return .assign receiver value
      | _ => fail .assignmentReceiver
    | _ => fail .assignmentReceiver
  | .ifStmt condition thens elses => do
    let condition ← checkCondition scope "if" condition
    if thens.isEmpty then fail .emptyThenBranch
    else
      let thens ← checkStatements returns (← newFrame (some scope)) thens
      if elses.isEmpty then return .ifStmt condition thens elses
      else
        let elses ← checkStatements returns (← newFrame (some scope)) elses
        return .ifStmt condition thens elses
  | .forStmt initialization condition increment statements => do
    let loop ← newFrame (some scope)
    let initialization ←
      if initialization.isAbsent then pure .absent
      else checkStatement returns loop initialization
    let first ← headerType initialization
    let condition ← checkCondition loop "for" condition
    let increment ←
      if increment.isAbsent then pure .absent
      else checkStatement returns loop increment
    let next ← headerType increment
    requireSameType first next
    if statements.isEmpty then fail .emptyForBody
    else
      let statements ← checkStatements returns (← newFrame (some loop)) statements
      return .forStmt initialization condition increment statements
  | .whileStmt condition statements => do
    let condition ← checkCondition scope "while" condition
    let statements ← checkStatements returns (← newFrame (some scope)) statements
    return .whileStmt condition statements
  | .returnStmt value => do
    let (value, t) ← checkExpression scope value
    match returns with
    | none => fail .returnOutsideMethod
    | some r =>
      lift (requireAccepts r t)
      return .returnStmt value
  | node => throw (.unexpectedNode .checkStatement node.kindPath)

def checkStatements (returns : Option StaticType) (scope : FrameId) :
    List Node → Check (List Node)
  | [] => return []
  | node :: rest => do
    let node ← checkStatement returns scope node
    let rest ← checkStatements returns scope rest
    return node :: rest

end

def fieldType (name : String) (constant : Bool) (declared initial : Option StaticType) :
    Except TypeFault StaticType := do
  match declared, initial with
  | some t, some t' => do
    requireAccepts t t'
    return t
  | none, some t' => return t'
  | declared, none =>
    if constant then throw (.constantWithoutValue name)
    else
      match declared with
      | some t => return t
      | none => throw (.untypedField name)

def checkField (scope : FrameId) : Node → Check Node
  | .field name typeName constant value _ => do
    let declared ← lift (typeName.mapM typeNamed)
    let (value, initial) ← checkInitial scope value
    let t ← lift (fieldType name constant declared initial)
    let v : StaticVariable := ⟨scope, name, name, constant, t⟩
    introduce "field" v
    return .field name typeName constant value (some v)
  | _ => throw .misplacedNode

def typeOr (default : StaticType) : Option String → Except TypeFault StaticType
  | some name => typeNamed name
  | none => .ok default

/-- What the head of a method says: parameters are of any type and nothing is returned unless it
says otherwise. -/
def headFunction (name : String) (parameters : List String) (parameterTypes : List (Option String))
    (returnType : Option String) : Except TypeFault StaticFunction := do
  let types ← parameterTypes.mapM (typeOr .any)
  let result ← typeOr .nil returnType
  return ⟨name, name, parameters.length, types, result⟩

/-- Binds the function of a method in a frame; its body waits. -/
def declareMethod (scope : FrameId) : Node → Check Node
  | .method name parameters parameterTypes returnType statements _ => do
    let f ← lift (headFunction name parameters parameterTypes returnType)
    defineFunction scope f
    note 2 ("method " ++ f.signature.toText ++ " -> " ++ f.returnType.name)
    return .method name parameters parameterTypes returnType statements (some f)
  | _ => throw .misplacedNode

def bindParameters (scope : FrameId) : List String → List StaticType → Check Unit
  | name :: names, t :: ts => do
    defineVariable ⟨scope, name, name, false, t⟩
    bindParameters scope names ts
  | _, _ => pure ()

def checkBody (scope : FrameId) : Node → Check Node
  | .method name parameters parameterTypes returnType statements (some f) => do
    let inner ← newFrame (some scope)
    bindParameters inner parameters f.parameterTypes
    let statements ← checkStatements (some f.returnType) inner statements
    return .method name parameters parameterTypes returnType statements (some f)
  | .method _ _ _ _ _ none => throw (.unresolved "Method" "function")
  | _ => throw .misplacedNode

/-- Checks a whole program in a frame. It has to have a method `main` without parameters that
returns an integer. -/
def checkSource (scope : FrameId) : Node → Check Node
  | .source fields methods => do
    let fields ← fields.mapM (checkField scope)
    let methods ← methods.mapM (declareMethod scope)
    let methods ← methods.mapM (checkBody scope)
    match (← get).scopes.findFunction? scope ⟨"main", 0⟩ with
    | some (_, main) =>
      if main.returnType == .integer then return .source fields methods
      else fail (.mainReturns main.returnType)
    | none => fail .noMain
  | _ => throw .misplacedNode

def Check.outcome {α : Type} (check : Check α) (c : Checker) : Except Fault α × Checker :=
  match check c with
  | .ok a c => (.ok a, c)
  | .error fault c => (.error fault, c)

/-- Checks a program in the frame of the checker and closes the trace. -/
def Checker.check (c : Checker) (program : Node) : Except Fault Node × Checker :=
  let (result, c) := Check.outcome (do
    note 1 "analyze source"
    checkSource c.root program) c
  (result, { c with console := c.console.close })

end BlockScript
