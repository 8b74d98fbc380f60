import BlockScript.Fault
import BlockScript.Value
/-!
# Types of literals and operators

The static type of a literal, which has to fit the numbers of Java, and that of a binary
operation, which the types of both operands decide.
-/
namespace BlockScript

def leastInt : Int := -2147483648

def greatestInt : Int := 2147483647

def fitsInt (n : Int) : Bool := leastInt ≤ n && n ≤ greatestInt

def Literal.staticType : Literal → Except Fault StaticType
  | nil => .ok .nil
  | boolean _ => .ok .boolean
  | character _ => .ok .character
  | string _ => .ok .string
  | integer n =>
    if fitsInt n then .ok .integer
    else if (Text.numeral? n).isNone then .error .tooManyDigits
    else .error (.typing (.integerOutOfRange n))
  | decimal d =>
    if d.isSignaling then .error .signalingDecimal
    else if d.fitsDouble then .ok .decimal
    else .error (.typing (.decimalOutOfRange d))
  | raw j => .error (.typing (.unsupportedLiteral j.display))

def Value.staticType (v : Value) : Except Fault StaticType :=
  match v.toLiteral? with
  | some l => l.staticType
  | none => .error (.typing (.unsupportedLiteral (Value.objectText v.typeName)))

/-- The two spellings of the operator that asks for both of its operands. -/
def conjunctions : List String := ["AND", "&&"]

/-- The two spellings of the operator that asks for one of its operands. -/
def disjunctions : List String := ["OR", "||"]

def equalities : List String := ["==", "!="]

def orderings : List String := ["<", "<=", ">", ">="]

def arithmetic : List String := ["+", "-", "*", "/"]

def binaryType (operator : String) (left right : StaticType) : Except TypeFault StaticType :=
  if conjunctions.contains operator || disjunctions.contains operator then
    if left == .boolean && right == .boolean then .ok .boolean
    else .error (.booleanOperands operator left right)
  else if orderings.contains operator || equalities.contains operator then
    if left.isOrdered && right == left then .ok .boolean
    else .error (.comparableOperands operator left right)
  else if operator == "+" && (left == .string || right == .string) then .ok .string
  else if arithmetic.contains operator then
    if (left == .integer || left == .decimal) && right == left then .ok left
    else .error (.numericOperands operator left right)
  else .error (.unknownOperator operator)

def typeNamed (name : String) : Except TypeFault StaticType :=
  match StaticType.named? name with
  | some t => .ok t
  | none => .error (.unknownType name)

/-- Fails unless a value of type `source` may be kept where `target` is expected. -/
def requireAccepts (target source : StaticType) : Except TypeFault Unit :=
  if target.accepts source then .ok () else .error (.mismatch target source)

end BlockScript
