import BlockScript.Decimal.Double
import BlockScript.Tree.Basic
/-!
# Syntax trees as JSON

A node is an object with its kind as `type` and a member for each part; the slots that checking
fills are left out. Optional parts may be missing, and members of other names do not matter. The
literals that JSON does not have are objects with a tag of their own. Names and characters are
texts; an object with anything else in their place is no tree here.
-/
namespace BlockScript

inductive TreeFault where
  | notAnObject
  | missingMember
  | unknownNode (tag : Json)
  | unknownLiteral (tag : Json)
  | notADecimal
  | notAList
  | misplacedValue
deriving Repr

def Json.tag (key : String) (o : Json) : Json := (o.get? key).getD .null

namespace Literal

def tagged (tag value : String) : Json :=
  .object [("__type__", .string tag), ("value", .string value)]

def toJson : Literal → Json
  | nil => .null
  | boolean b => .bool b
  | character s => tagged "Character" s
  | string s => .string s
  | integer n => .integer n
  | decimal d => tagged "Decimal" d.toText
  | raw j => j

/-- The integer that a value counts as; the truth values are one and zero. -/
def integerOfJson? : Json → Option Int
  | .integer n => some n
  | .bool b => some b.toNat
  | _ => none

/-- The natural number up to `most` that a value counts as. -/
def smallOfJson? (most : Nat) (j : Json) : Option Nat := do
  let n ← integerOfJson? j
  if 0 ≤ n && n ≤ most then some n.toNat else none

/-- The decimal of a sign, its digits, and its exponent or the letter of a special value. -/
def decimalOfParts? (sign : Json) (digits : List Json) (exponent : Json) : Option Decimal := do
  let negative := (← smallOfJson? 1 sign) == 1
  let coefficient := (← digits.mapM (smallOfJson? 9)).foldl (fun c d => 10 * c + d) 0
  match exponent with
  | .string "F" => some (.infinite negative)
  | .string "n" => some (.nan negative false coefficient)
  | .string "N" => some (.nan negative true coefficient)
  | j => (integerOfJson? j).map (.finite negative coefficient)

/-- The decimal of a text, a number, a truth value, or the list of its parts. -/
def decimalOfJson : Json → Except TreeFault Literal
  | .string s =>
    match Decimal.ofText? s with
    | some d => .ok (decimal d)
    | none => .error .notADecimal
  | .integer n => .ok (decimal (.finite (n < 0) n.natAbs 0))
  | .bool b => .ok (decimal (.finite false b.toNat 0))
  | .number d => .ok (decimal d.double)
  | .array [sign, .array digits, exponent] =>
    match decimalOfParts? sign digits exponent with
    | some d => .ok (decimal d)
    | none => .error .misplacedValue
  | _ => .error .misplacedValue

/-- The character of a text of any length. -/
def characterOfJson : Json → Except TreeFault Literal
  | .string s => .ok (character s)
  | _ => .error .misplacedValue

def ofTagged (o : Json) : Except TreeFault Literal :=
  match o.tag "__type__" with
  | .string "Decimal" =>
    match o.get? "value" with
    | some j => decimalOfJson j
    | none => .error .missingMember
  | .string "Character" =>
    match o.get? "value" with
    | some j => characterOfJson j
    | none => .error .missingMember
  | tag => .error (.unknownLiteral tag)

def ofJson : Json → Except TreeFault Literal
  | .null => .ok nil
  | .bool b => .ok (boolean b)
  | .integer n => .ok (integer n)
  | .string s => .ok (string s)
  | .object members => ofTagged (.object members)
  | j => .ok (raw j)

end Literal

namespace Node

def nameOrNull : Option String → Json
  | some s => .string s
  | none => .null

mutual

def toJson : Node → Json
  | absent => .null
  | source fields methods =>
    .object [("type", .string "Source"), ("fields", .array (toJsonAll fields)),
      ("methods", .array (toJsonAll methods))]
  | field name typeName constant value _ =>
    .object [("type", .string "Field"), ("name", .string name),
      ("type_name", nameOrNull typeName), ("constant", .bool constant), ("value", toJson value)]
  | method name parameters parameterTypes returnType statements _ =>
    .object [("type", .string "Method"), ("name", .string name),
      ("parameters", .array (parameters.map Json.string)),
      ("parameter_type_names", .array (parameterTypes.map nameOrNull)),
      ("return_type_name", nameOrNull returnType), ("statements", .array (toJsonAll statements))]
  | exprStmt expression => .object [("type", .string "ExprStmt"), ("expr", toJson expression)]
  | declaration name typeName value _ =>
    .object [("type", .string "Declaration"), ("name", .string name),
      ("type_name", nameOrNull typeName), ("value", toJson value)]
  | assign receiver value =>
    .object [("type", .string "Assign"), ("receiver", toJson receiver), ("value", toJson value)]
  | ifStmt condition thenStatements elseStatements =>
    .object [("type", .string "IfStmt"), ("condition", toJson condition),
      ("then_statements", .array (toJsonAll thenStatements)),
      ("else_statements", .array (toJsonAll elseStatements))]
  | forStmt initialization condition increment statements =>
    .object [("type", .string "ForStmt"), ("initialization", toJson initialization),
      ("condition", toJson condition), ("increment", toJson increment),
      ("statements", .array (toJsonAll statements))]
  | whileStmt condition statements =>
    .object [("type", .string "WhileStmt"), ("condition", toJson condition),
      ("statements", .array (toJsonAll statements))]
  | returnStmt value => .object [("type", .string "ReturnStmt"), ("value", toJson value)]
  | literal value _ => .object [("type", .string "Literal"), ("value", value.toJson)]
  | group expression _ => .object [("type", .string "Group"), ("expression", toJson expression)]
  | binary operator left right _ =>
    .object [("type", .string "BinaryOp"), ("operator", .string operator),
      ("left", toJson left), ("right", toJson right)]
  | access receiver name _ _ =>
    .object [("type", .string "Access"), ("receiver", toJson receiver), ("name", .string name)]
  | call receiver name arguments _ _ =>
    .object [("type", .string "Call"), ("receiver", toJson receiver), ("name", .string name),
      ("arguments", .array (toJsonAll arguments))]

def toJsonAll : List Node → List Json
  | [] => []
  | node :: rest => toJson node :: toJsonAll rest

end

/-- The items of a list; a text counts as the list of its characters, and an object as the list
of its keys. -/
def listItems : Json → Except TreeFault (List Json)
  | .array items => .ok items
  | .string s => .ok (s.toList.map fun c => .string (String.singleton c))
  | .object members => .ok (members.map fun m => .string m.1)
  | _ => .error .notAList

def requireName : Json → Except TreeFault String
  | .string s => .ok s
  | _ => .error .misplacedValue

def requireNameOrNull : Json → Except TreeFault (Option String)
  | .string s => .ok (some s)
  | .null => .ok none
  | _ => .error .misplacedValue

def member (o : Json) (key : String) : Except TreeFault Json :=
  match o.get? key with
  | some j => .ok j
  | none => .error .missingMember

def nameMember (o : Json) (key : String) : Except TreeFault String :=
  member o key >>= requireName

def nameMember? (o : Json) (key : String) : Except TreeFault (Option String) :=
  requireNameOrNull (o.tag key)

/-- What a member of an object is as a tree and as a list of trees. -/
structure Part where
  tree : Except TreeFault Node
  list : Except TreeFault (List Node)

abbrev Parts := List (String × Part)

namespace Parts

def one (parts : Parts) (key : String) : Except TreeFault Node :=
  match parts.lookup key with
  | some part => part.tree
  | none => .error .missingMember

def one? (parts : Parts) (key : String) : Except TreeFault Node :=
  match parts.lookup key with
  | some part => part.tree
  | none => .ok absent

def many (parts : Parts) (key : String) : Except TreeFault (List Node) :=
  match parts.lookup key with
  | some part => part.list
  | none => .error .missingMember

def many? (parts : Parts) (key : String) : Except TreeFault (List Node) :=
  match parts.lookup key with
  | some part => part.list
  | none => .ok []

end Parts

/-- The node of an object whose members are read already. Only the members that belong to its
kind count, and the first of them that fails decides the failure. -/
def assemble (o : Json) (parts : Parts) : Except TreeFault Node :=
  match o.tag "type" with
  | .string "Source" => do
    return source (← parts.many "fields") (← parts.many "methods")
  | .string "Field" => do
    return field (← nameMember o "name") (← nameMember? o "type_name")
      (o.tag "constant").truthy (← parts.one? "value") none
  | .string "Method" => do
    let parameters ← (← listItems (← member o "parameters")).mapM requireName
    let name ← nameMember o "name"
    let parameterTypes ←
      match o.get? "parameter_type_names" with
      | some j => (← listItems j).mapM requireNameOrNull
      | none => pure (parameters.map fun _ => none)
    return method name parameters parameterTypes (← nameMember? o "return_type_name")
      (← parts.many "statements") none
  | .string "ExprStmt" => do
    return exprStmt (← parts.one "expr")
  | .string "Declaration" => do
    return declaration (← nameMember o "name") (← nameMember? o "type_name")
      (← parts.one? "value") none
  | .string "Assign" => do
    return assign (← parts.one "receiver") (← parts.one "value")
  | .string "IfStmt" => do
    return ifStmt (← parts.one "condition") (← parts.many "then_statements")
      (← parts.many? "else_statements")
  | .string "ForStmt" => do
    return forStmt (← parts.one? "initialization") (← parts.one "condition")
      (← parts.one? "increment") (← parts.many "statements")
  | .string "WhileStmt" => do
    return whileStmt (← parts.one "condition") (← parts.many "statements")
  | .string "ReturnStmt" => do
    return returnStmt (← parts.one "value")
  | .string "Literal" => do
    return literal (← Literal.ofJson (← member o "value")) none
  | .string "Group" => do
    return group (← parts.one "expression") none
  | .string "BinaryOp" => do
    return binary (← nameMember o "operator") (← parts.one "left") (← parts.one "right") none
  | .string "Access" => do
    return access (← parts.one? "receiver") (← nameMember o "name") none none
  | .string "Call" => do
    return call (← parts.one? "receiver") (← nameMember o "name") (← parts.many "arguments")
      none none
  | tag => .error (.unknownNode tag)

mutual

def ofJson : Json → Except TreeFault Node
  | .null => .ok absent
  | .object members => assemble (.object members) (readMembers members)
  | _ => .error .notAnObject

def readMembers : List (String × Json) → Parts
  | [] => []
  | (key, j) :: rest => (key, ⟨ofJson j, ofJsonList j⟩) :: readMembers rest

/-- The trees of a list. Characters and keys are no trees. -/
def ofJsonList : Json → Except TreeFault (List Node)
  | .array items => ofJsonAll items
  | j =>
    match listItems j with
    | .ok [] => .ok []
    | .ok _ => .error .notAnObject
    | .error e => .error e

def ofJsonAll : List Json → Except TreeFault (List Node)
  | [] => .ok []
  | j :: rest => do return (← ofJson j) :: (← ofJsonAll rest)

end

end Node
end BlockScript
