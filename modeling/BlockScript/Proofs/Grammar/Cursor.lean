import BlockScript.Program
import BlockScript.Proofs.Ends
/-!
# Descent with a cursor

The rules of the grammar as they go over all the tokens with a cursor. A token is looked at by its
distance from the cursor, and a place outside of the tokens stops the reading for good. Rules call
each other, and a rule that goes on in rounds calls itself for the next round. Nothing bounds the
calls but a limit on how deep they nest, and each is put down with the one that it comes from.
-/
namespace BlockScript.Descent

open Rule

/-- What a rule reads: a phrase of the grammar, or what is left of a sequence of them. -/
inductive Goal where
  | source
  | fields
  | methods
  | field
  | method
  | parameters
  | typeClause
  | block (terminators : List String)
  | statement
  | declaration
  | ifStatement
  | forStatement
  | loopAssignment
  | whileStatement
  | returnStatement
  | expression
  | level (level : Level)
  | operations (level : Level) (left : Node)
  | secondary
  | members (node : Node)
  | arguments
  | moreArguments
  | primary

def someParameters (ts : List Token) : Parse (List (String × Option String)) 1 ts.length :=
  ((Rule.parameter ts).andThen fun first rest _ => (moreParameters rest).map (first :: ·)).weaken

namespace Goal

def Result : Goal → Type
  | fields | methods | block _ | arguments | moreArguments => List Node
  | parameters => List (String × Option String)
  | typeClause => Option String
  | _ => Node

/-- The least number of tokens that are used where the goal is reached. -/
def least : Goal → Nat
  | source | fields | methods | typeClause => 0
  | block _ | loopAssignment | operations .. | members _ => 0
  | _ => 1

def rank : Goal → Nat
  | block _ => 12
  | statement | arguments => 11
  | expression => 10
  | level l => l.rank
  | source => 2
  | fields | methods | secondary => 1
  | _ => 0

def reading : (goal : Goal) → (ts : List Token) → Parse goal.Result goal.least ts.length
  | source, ts => Rule.source ts
  | fields, ts => Rule.fields ts
  | methods, ts => Rule.methods ts
  | field, ts => Rule.field ts
  | method, ts => Rule.method ts
  | parameters, ts => someParameters ts
  | typeClause, ts => Rule.typeClause ts
  | block terminators, ts => Rule.block terminators ts
  | statement, ts => Rule.statement ts
  | declaration, ts => declarationStatement ts
  | ifStatement, ts => Rule.ifStatement ts
  | forStatement, ts => Rule.forStatement ts
  | loopAssignment, ts => Rule.loopAssignment ts
  | whileStatement, ts => Rule.whileStatement ts
  | returnStatement, ts => Rule.returnStatement ts
  | expression, ts => Rule.expression ts
  | level l, ts => binaryExpression l ts
  | operations l left, ts => binaryRest l left ts
  | secondary, ts => secondaryExpression ts
  | members node, ts => secondaryRest node ts
  | arguments, ts => Rule.arguments ts
  | moreArguments, ts => Rule.moreArguments ts
  | primary, ts => primaryExpression ts

end Goal

/-- A rule at work, and where it began. -/
structure Call where
  goal : Goal
  start : Nat

structure Nesting where
  outer : Call
  inner : Call

/-- How many tokens a call has before it, and then its place in the order of the rules. -/
def Call.measure (tokens : List Token) (call : Call) : Nat × Nat :=
  (tokens.length - call.start, call.goal.rank)

/-- The inner call begins within the tokens. It has fewer tokens before it than the outer one, or
as many and its rule is further down. -/
structure Nesting.Descends (tokens : List Token) (nesting : Nesting) : Prop where
  within : nesting.inner.start ≤ tokens.length
  decreases : Prod.Lex (· < ·) (· < ·) (nesting.inner.measure tokens)
    (nesting.outer.measure tokens)

/-- How many tokens have been used, and the calls that have been made. -/
structure Cursor where
  index : Nat
  nestings : List Nesting

/-- Why reading stops: for a fault of the text, for a look outside of the tokens, or because calls
nest too deep. -/
inductive Halt where
  | fault (fault : Fault)
  | outOfRange
  | tooDeep

abbrev Reader := EStateM Halt Cursor

def Reader.outcome {α : Type} (x : Reader α) (s : Cursor) : Except Halt α × Cursor :=
  match x s with
  | .ok a s' => (.ok a, s')
  | .error halt s' => (.error halt, s')

section Steps

variable (tokens : List Token)

def has (offset : Nat) : Reader Bool := do
  return decide ((← get).index + offset < tokens.length)

def tokenAt (offset : Int) : Reader Token := do
  match ((← get).index : Int) + offset with
  | .ofNat place =>
    match tokens[place]? with
    | some t => pure t
    | none => throw .outOfRange
  | .negSucc _ => throw .outOfRange

def advance : Reader Token := do
  let t ← tokenAt tokens 0
  modify fun s => { s with index := s.index + 1 }
  return t

def skip : Nat → Reader Unit
  | 0 => pure ()
  | n + 1 => do
    let _ ← advance tokens
    skip n

def peekFrom (offset : Nat) : List Pattern → Reader Bool
  | [] => pure true
  | p :: ps => do
    if ← has tokens offset then
      if p.fits (← tokenAt tokens offset) then peekFrom (offset + 1) ps else return false
    else return false

def peek (patterns : List Pattern) : Reader Bool := peekFrom tokens 0 patterns

def accept (patterns : List Pattern) : Reader Bool := do
  if ← peek tokens patterns then
    skip tokens patterns.length
    return true
  else return false

def peekAny : List String → Reader (Option String)
  | [] => pure none
  | option :: options => do
    if ← peek tokens [.literal option] then return some option else peekAny options

/-- The index of the next token, or the one just past the last token. -/
def errorIndex : Reader Nat := do
  if ← has tokens 0 then return (← tokenAt tokens 0).index
  else if (← get).index = 0 then return 0
  else return (← tokenAt tokens (-1)).finish

def refuse {α : Type} (cause : ParseFault) : Reader α := do
  throw (.fault (.parse cause (← errorIndex tokens)))

def consume (p : Pattern) (what : String) : Reader Token := do
  if ← peek tokens [p] then advance tokens
  else refuse tokens (.expected what)

def keyword (text : String) : Reader Token := consume tokens (.literal text) text

def sign (text : String) : Reader Token := consume tokens (.literal text) ("'" ++ text ++ "'")

def identifier : Reader String := do
  return (← consume tokens (.kind .identifier) "identifier").literal

end Steps

section Rules

variable (tokens : List Token) (call : (goal : Goal) → Reader goal.Result)

def typeClause : Reader (Option String) := do
  if ← accept tokens [.literal ":"] then return some (← identifier tokens) else return none

def initialValue : Reader Node := do
  if ← accept tokens [.literal "="] then call .expression else return .absent

def declaration : Reader Node := do
  let _ ← keyword tokens "LET"
  let name ← identifier tokens
  let type ← call .typeClause
  let value ← initialValue tokens call
  let _ ← sign tokens ";"
  return .declaration name type value none

def field : Reader Node := do
  let _ ← keyword tokens "LET"
  let constant ← accept tokens [.literal "CONST"]
  let name ← identifier tokens
  let type ← call .typeClause
  let value ← initialValue tokens call
  let _ ← sign tokens ";"
  return .field name type constant value none

def fields : Reader (List Node) := do
  if ← peek tokens [.literal "LET"] then
    let first ← call .field
    let more ← call .fields
    return first :: more
  else return []

def parameter : Reader (String × Option String) := do
  let name ← identifier tokens
  let type ← call .typeClause
  return (name, type)

def parameters : Reader (List (String × Option String)) := do
  let first ← parameter tokens call
  if ← accept tokens [.literal ","] then
    let more ← call .parameters
    return first :: more
  else return [first]

def parameterList : Reader (List (String × Option String)) := do
  if ← peek tokens [.literal ")"] then return [] else call .parameters

def method : Reader Node := do
  let _ ← keyword tokens "DEF"
  let name ← identifier tokens
  let _ ← sign tokens "("
  let ps ← parameterList tokens call
  let _ ← sign tokens ")"
  let returnType ← call .typeClause
  let _ ← keyword tokens "DO"
  let statements ← call (.block ["END"])
  let _ ← keyword tokens "END"
  return .method name (ps.map Prod.fst) (ps.map Prod.snd) returnType statements none

def methods : Reader (List Node) := do
  if ← peek tokens [.literal "DEF"] then
    let first ← call .method
    let more ← call .methods
    return first :: more
  else return []

def source : Reader Node := do
  let fs ← call .fields
  let ms ← call .methods
  if ← has tokens 0 then refuse tokens .unexpectedToken
  else return .source fs ms

def block (terminators : List String) : Reader (List Node) := do
  if (← peekAny tokens terminators).isSome then return []
  else
    if ← has tokens 0 then
      let first ← call .statement
      let more ← call (.block terminators)
      return first :: more
    else refuse tokens (.expected (terminators.getLast?.getD ""))

def expressionStatement : Reader Node := do
  let left ← call .expression
  if ← accept tokens [.literal "="] then
    let value ← call .expression
    let _ ← sign tokens ";"
    return .assign left value
  else
    let _ ← sign tokens ";"
    return .exprStmt left

def statement : Reader Node := do
  if ← peek tokens [.literal "LET"] then call .declaration
  else if ← peek tokens [.literal "IF"] then call .ifStatement
  else if ← peek tokens [.literal "FOR"] then call .forStatement
  else if ← peek tokens [.literal "WHILE"] then call .whileStatement
  else if ← peek tokens [.literal "RETURN"] then call .returnStatement
  else expressionStatement tokens call

def elseBranch : Reader (List Node) := do
  if ← accept tokens [.literal "ELSE"] then call (.block ["END"]) else return []

def ifStatement : Reader Node := do
  let _ ← keyword tokens "IF"
  let condition ← call .expression
  let _ ← keyword tokens "DO"
  let thens ← call (.block ["ELSE", "END"])
  let elses ← elseBranch tokens call
  let _ ← keyword tokens "END"
  return .ifStmt condition thens elses

def loopAssignment : Reader Node := do
  if ← peek tokens [.kind .identifier] then
    let name ← identifier tokens
    let _ ← sign tokens "="
    let value ← call .expression
    return .assign (.access .absent name none none) value
  else return .absent

def forStatement : Reader Node := do
  let _ ← keyword tokens "FOR"
  let _ ← sign tokens "("
  let initialization ← call .loopAssignment
  let _ ← sign tokens ";"
  let condition ← call .expression
  let _ ← sign tokens ";"
  let increment ← call .loopAssignment
  let _ ← sign tokens ")"
  let statements ← call (.block ["END"])
  let _ ← keyword tokens "END"
  return .forStmt initialization condition increment statements

def whileStatement : Reader Node := do
  let _ ← keyword tokens "WHILE"
  let condition ← call .expression
  let _ ← keyword tokens "DO"
  let statements ← call (.block ["END"])
  let _ ← keyword tokens "END"
  return .whileStmt condition statements

def returnStatement : Reader Node := do
  let _ ← keyword tokens "RETURN"
  let value ← call .expression
  let _ ← sign tokens ";"
  return .returnStmt value

def operand (level : Level) : Reader Node :=
  match level.tighter? with
  | some tighter => call (.level tighter)
  | none => call .secondary

def binary (level : Level) : Reader Node := do
  let left ← operand call level
  call (.operations level left)

def operations (level : Level) (left : Node) : Reader Node := do
  match ← peekAny tokens level.operators with
  | some operator =>
    let _ ← advance tokens
    let right ← operand call level
    call (.operations level (.binary operator left right none))
  | none => return left

def secondary : Reader Node := do
  let node ← call .primary
  call (.members node)

def members (node : Node) : Reader Node := do
  if ← accept tokens [.literal "."] then
    let name ← identifier tokens
    if ← accept tokens [.literal "("] then
      let args ← call .arguments
      call (.members (.call node name args none none))
    else call (.members (.access node name none none))
  else return node

def arguments : Reader (List Node) := do
  if ← accept tokens [.literal ")"] then return []
  else
    let first ← call .expression
    let more ← call .moreArguments
    return first :: more

def moreArguments : Reader (List Node) := do
  if ← accept tokens [.literal ","] then
    let next ← call .expression
    let more ← call .moreArguments
    return next :: more
  else
    let _ ← sign tokens ")"
    return []

/-- Uses a number, also if it has no value. -/
def number (value : Token → Except ParseFault Literal) : Reader Node := do
  match value (← advance tokens) with
  | .ok value => return .literal value none
  | .error cause => throw (.fault (.ofParse [] [] cause))

def group : Reader Node := do
  let inner ← call .expression
  let _ ← sign tokens ")"
  return .group inner none

def named : Reader Node := do
  let name ← identifier tokens
  if ← accept tokens [.literal "("] then
    let args ← call .arguments
    return .call .absent name args none none
  else return .access .absent name none none

def primary : Reader Node := do
  if ← has tokens 0 then
    if ← accept tokens [.literal "NIL"] then return .literal .nil none
    else if ← accept tokens [.literal "TRUE"] then return .literal (.boolean true) none
    else if ← accept tokens [.literal "FALSE"] then return .literal (.boolean false) none
    else if ← peek tokens [.kind .integer] then number tokens integerLiteral
    else if ← peek tokens [.kind .decimal] then number tokens decimalLiteral
    else if ← peek tokens [.kind .character] then
      return .literal (characterLiteral (← advance tokens)) none
    else if ← peek tokens [.kind .string] then
      return .literal (stringLiteral (← advance tokens)) none
    else if ← accept tokens [.literal "("] then group tokens call
    else if ← peek tokens [.kind .identifier] then named tokens call
    else refuse tokens .expectedExpression
  else refuse tokens .expectedExpression

/-- What each rule does, given what the rules do that it calls. -/
def pursue : (goal : Goal) → Reader goal.Result
  | .source => source tokens call
  | .fields => fields tokens call
  | .methods => methods tokens call
  | .field => field tokens call
  | .method => method tokens call
  | .parameters => parameters tokens call
  | .typeClause => typeClause tokens
  | .block terminators => block tokens call terminators
  | .statement => statement tokens call
  | .declaration => declaration tokens call
  | .ifStatement => ifStatement tokens call
  | .forStatement => forStatement tokens call
  | .loopAssignment => loopAssignment tokens call
  | .whileStatement => whileStatement tokens call
  | .returnStatement => returnStatement tokens call
  | .expression => call (.level .logical)
  | .level level => binary call level
  | .operations level left => operations tokens call level left
  | .secondary => secondary call
  | .members node => members tokens call node
  | .arguments => arguments tokens call
  | .moreArguments => moreArguments tokens call
  | .primary => primary tokens call

end Rules

def noteCall (outer : Call) (goal : Goal) : Reader Unit :=
  modify fun s => { s with nestings := s.nestings ++ [⟨outer, goal, s.index⟩] }

/-- Reads for a goal from the cursor on, with calls that nest less deep than the limit. -/
def reach (tokens : List Token) : Nat → (goal : Goal) → Reader goal.Result
  | 0, _ => throw .tooDeep
  | limit + 1, goal => do
    let outer : Call := ⟨goal, (← get).index⟩
    pursue tokens (fun inner => do
      noteCall outer inner
      reach tokens limit inner) goal

end BlockScript.Descent
