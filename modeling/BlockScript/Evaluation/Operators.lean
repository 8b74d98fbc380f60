import BlockScript.Typing.Operators
/-!
# Operators on values

What the binary operators make of two values, apart from those that may leave their second
operand alone. Integers and decimals do not mix; text is joined with anything.
-/
namespace BlockScript

/-- The quotient of two integers without its fraction. -/
def divideIntegers (a b : Int) : Except RunFault Int :=
  if b == 0 then .error .divisionByZero else .ok (a.tdiv b)

def divideDecimals (a b : Decimal) : Except Fault Decimal :=
  if b.isSignaling then .error .invalidDecimal
  else if b.isZero then .error (.run .divisionByZero)
  else
    match a, b with
    | .finite s₁ c₁ e₁, .finite s₂ c₂ e₂ => .ok (.divFinite s₁ c₁ e₁ s₂ c₂ e₂)
    | _, _ => .error .misplacedOperand

def validDecimal : Option Decimal → Except Fault Value
  | some d => .ok (.decimal d)
  | none => .error .invalidDecimal

def integerArithmetic (operator : String) (a b : Int) : Except Fault Value :=
  if operator == "+" then .ok (.integer (a + b))
  else if operator == "-" then .ok (.integer (a - b))
  else if operator == "*" then .ok (.integer (a * b))
  else
    match divideIntegers a b with
    | .ok q => .ok (.integer q)
    | .error fault => .error (.run fault)

def decimalArithmetic (operator : String) (a b : Decimal) : Except Fault Value :=
  if operator == "+" then validDecimal (a.add? b)
  else if operator == "-" then validDecimal (a.sub? b)
  else if operator == "*" then validDecimal (a.mul? b)
  else (divideDecimals a b).map .decimal

/-- Whether two values are equal. Values of different types are not; objects are equal only to
themselves. -/
def equalValues (a b : Value) : Except Fault Bool :=
  if a.typeName != b.typeName then .ok false
  else
    match a, b with
    | .nil, .nil => .ok true
    | .boolean x, .boolean y => .ok (x == y)
    | .character x, .character y => .ok (x == y)
    | .string x, .string y => .ok (x == y)
    | .integer x, .integer y => .ok (x == y)
    | .decimal x, .decimal y =>
      match x.equal? y with
      | some e => .ok e
      | none => .error .invalidDecimal
    | .object _ x, .object _ y => .ok (x == y)
    | .raw x, .raw y => .ok (x.equal y)
    | _, _ => .ok false

def orderedTypeNames : List String := ["Integer", "Decimal", "Character", "String"]

def orderValues (a b : Value) : Except Fault Ordering :=
  if a.typeName != b.typeName || !orderedTypeNames.contains a.typeName then
    .error (.run (.incomparable a.typeName b.typeName))
  else
    match a, b with
    | .integer x, .integer y => .ok (compare x y)
    | .decimal x, .decimal y =>
      match x.compare? y with
      | some o => .ok o
      | none => .error .invalidDecimal
    | .character x, .character y => .ok (compare x y)
    | .string x, .string y => .ok (compare x y)
    | _, _ => .error .misplacedOperand

def holds (operator : String) (o : Ordering) : Bool :=
  if operator == "<" then o == .lt
  else if operator == "<=" then o != .gt
  else if operator == ">" then o == .gt
  else o != .lt

def joinTexts (a b : Value) : Except Fault Value :=
  match a.toText?, b.toText? with
  | some s, some t => .ok (.string (s ++ t))
  | _, _ => .error .tooManyDigits

def Value.isString : Value → Bool
  | string _ => true
  | _ => false

/-- Sum, difference, product or quotient of two numbers, both integers or both decimals. -/
def applyArithmetic (operator : String) (a b : Value) : Except Fault Value :=
  match a, b with
  | .integer x, .integer y => integerArithmetic operator x y
  | .decimal x, .decimal y => decimalArithmetic operator x y
  | _, _ => .error (.run (.unsupportedOperands operator a.typeName b.typeName))

def applyBinary (operator : String) (a b : Value) : Except Fault Value :=
  if equalities.contains operator then
    (equalValues a b).map fun e => .boolean (if operator == "==" then e else !e)
  else if orderings.contains operator then
    (orderValues a b).map fun o => .boolean (holds operator o)
  else if operator == "+" && (a.isString || b.isString) then joinTexts a b
  else if arithmetic.contains operator then applyArithmetic operator a b
  else .error (.run (.unknownOperator operator))

end BlockScript
