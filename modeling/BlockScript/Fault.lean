import BlockScript.Tree.Object
import BlockScript.Tree.Rules
/-!
# Faults

Everything that can go wrong between a text and the result of its program, as causes. Most
causes have a report, which is a category and a message; those of numbers and files that cannot
be read have none.
-/
namespace BlockScript

structure Report where
  category : String
  message : String
deriving DecidableEq, Repr

namespace Report

def toText (r : Report) : String := r.category ++ ": " ++ r.message

def display (r : Report) : String :=
  "Error(name=" ++ Text.quoted r.category ++ ", message=" ++ Text.quoted r.message ++ ")"

end Report

/-- Why a program is refused before it runs. -/
inductive TypeFault where
  | scope (fault : ScopeFault)
  | unknownType (name : String)
  | mismatch (expected received : StaticType)
  | noMain
  | mainReturns (type : StaticType)
  | constantWithoutValue (name : String)
  | untypedField (name : String)
  | untypedDeclaration (name : String)
  | assignmentReceiver
  | constantAssigned (name : String)
  | condition (construct : String) (type : StaticType)
  | emptyThenBranch
  | emptyForBody
  | incrementType (received expected : StaticType)
  | returnOutsideMethod
  | integerOutOfRange (value : Int)
  | decimalOutOfRange (value : Decimal)
  | unsupportedLiteral (display : String)
  | booleanOperands (operator : String) (left right : StaticType)
  | comparableOperands (operator : String) (left right : StaticType)
  | numericOperands (operator : String) (left right : StaticType)
  | unknownOperator (operator : String)
deriving DecidableEq, Repr

namespace TypeFault

def pair (left right : StaticType) : String := left.name ++ " and " ++ right.name

def message : TypeFault → String
  | scope fault => fault.message
  | unknownType name => "unknown type " ++ name
  | mismatch expected received => "expected " ++ expected.name ++ ", received " ++ received.name
  | noMain => "program has no main/0 method"
  | mainReturns type => "main/0 must return Integer, not " ++ type.name
  | constantWithoutValue name => "constant field " ++ name ++ " has no initial value"
  | untypedField name => "field " ++ name ++ " has neither a type nor an initial value"
  | untypedDeclaration name =>
    "declaration of " ++ name ++ " has neither a type nor an initial value"
  | assignmentReceiver => "assignment receiver must be a variable or field access"
  | constantAssigned name => "cannot assign to constant " ++ name
  | condition construct type => construct ++ " condition must be Boolean, not " ++ type.name
  | emptyThenBranch => "if statement has an empty then-branch"
  | emptyForBody => "for statement has an empty body"
  | incrementType received expected =>
    "for increment has type " ++ received.name ++ ", expected " ++ expected.name
  | returnOutsideMethod => "return statement outside of a method"
  | integerOutOfRange value => "integer literal " ++ Text.numeral value ++ " is out of range"
  | decimalOutOfRange value => "decimal literal " ++ value.toText ++ " is out of range"
  | unsupportedLiteral display => "unsupported literal " ++ display
  | booleanOperands operator left right =>
    operator ++ " requires Boolean operands, not " ++ pair left right
  | comparableOperands operator left right =>
    operator ++ " requires matching Comparable operands, not " ++ pair left right
  | numericOperands operator left right =>
    operator ++ " requires matching Integer or Decimal operands, not " ++ pair left right
  | unknownOperator operator => "unknown operator " ++ operator

end TypeFault

/-- Why a program stops while it runs. Types are named by the values that were met. -/
inductive RunFault where
  | scope (fault : ScopeFault)
  | noMain
  | mainReturned (typeName : String)
  | divisionByZero
  | callsExhausted
  | condition (construct typeName : String)
  | assignmentReceiver
  | constantAssigned (name : String)
  | constantField (name : String)
  | noField (typeName name : String)
  | noMethod (typeName name : String) (arguments : Nat)
  | fieldAssignedOn (name typeName : String)
  | fieldAccessedOn (name typeName : String)
  | methodCalledOn (name typeName : String)
  | printArguments
  | unsupportedOperands (operator left right : String)
  | incomparable (left right : String)
  | unknownOperator (operator : String)
deriving DecidableEq, Repr

def RunFault.message : RunFault → String
  | scope fault => fault.message
  | noMain => "program has no main/0 method"
  | mainReturned typeName => "main/0 returned " ++ typeName ++ ", not Integer"
  | divisionByZero => "division by zero"
  | callsExhausted => "call stack exhausted"
  | condition construct typeName => construct ++ " condition must be Boolean, got " ++ typeName
  | assignmentReceiver => "assignment receiver must be a variable or field access"
  | constantAssigned name => "cannot assign to constant " ++ name
  | constantField name => "cannot assign to constant field " ++ name
  | noField typeName name => typeName ++ " has no field " ++ name
  | noMethod typeName name arguments =>
    typeName ++ " has no method " ++ name ++ "/" ++ toString arguments
  | fieldAssignedOn name typeName => "cannot assign field " ++ name ++ " on " ++ typeName
  | fieldAccessedOn name typeName => "cannot access field " ++ name ++ " on " ++ typeName
  | methodCalledOn name typeName => "cannot call method " ++ name ++ " on " ++ typeName
  | printArguments => "print(value) expects 1 argument"
  | unsupportedOperands operator left right =>
    "unsupported " ++ operator ++ " for " ++ left ++ " and " ++ right
  | incomparable left right => "comparison not supported for " ++ left ++ " and " ++ right
  | unknownOperator operator => "unknown operator " ++ operator

/-- What can come upon a node of a kind that it cannot work on. -/
inductive Activity where
  | checkStatement | checkExpression | execute | evaluate | writeJava
deriving DecidableEq, Repr

def Activity.name : Activity → String
  | checkStatement => "analyze_statement"
  | checkExpression => "analyze_expression"
  | execute => "execute"
  | evaluate => "evaluate"
  | writeJava => "generate"

/-- A fault of any kind. `unfinished` stands for a run that was cut off before its end. -/
inductive Fault where
  | character (unexpected : Unexpected)
  | parse (fault : ParseFault) (index : Nat)
  | typing (fault : TypeFault)
  | run (fault : RunFault)
  | scope (fault : ScopeFault)
  | tree (fault : TreeFault)
  | serialization (kind : String)
  | unexpectedNode (activity : Activity) (kind : String)
  | unresolved (kind slot : String)
  | tooManyDigits
  | invalidDecimal
  | signalingDecimal
  | notJson
  | misplacedNode
  | misplacedOperand
  | unfinished
deriving Repr

def Node.kindPath : Node → String
  | absent => "NoneType"
  | node => "endive.ast." ++ node.kindName

def Literal.kindPath : Literal → String
  | nil => "NoneType"
  | boolean _ => "bool"
  | character _ => "endive.types.CharVal"
  | string _ => "str"
  | integer _ => "int"
  | decimal _ => "decimal.Decimal"
  | raw j => j.kindName

def located (message : String) (index : Nat) : String :=
  message ++ " (at index " ++ toString index ++ ")"

namespace TreeFault

def message? : TreeFault → Option String
  | notAnObject => some "Invalid AST object"
  | unknownNode tag => some ("Unknown AST node type: " ++ tag.plainText)
  | unknownLiteral tag => some ("Unknown literal encoding: " ++ tag.plainText)
  | _ => none

end TreeFault

namespace Fault

/-- A parse fault found at the tokens `rest` of `all`. A number without a value has no place; a text
that is no integer is refused like one of too many digits. -/
def ofParse (all rest : List Token) : ParseFault → Fault
  | .tooManyDigits | .invalidInteger => tooManyDigits
  | .invalidDecimal => invalidDecimal
  | fault => parse fault (faultIndex all rest)

def index? : Fault → Option Nat
  | character unexpected => some unexpected.index
  | parse _ index => some index
  | _ => none

def report? : Fault → Option Report
  | character unexpected =>
    some ⟨"SyntaxError", located
      ("unexpected character " ++ Text.quoted (String.singleton unexpected.character))
      unexpected.index⟩
  | parse fault index => some ⟨"SyntaxError", located fault.message index⟩
  | typing fault => some ⟨"SemanticError", fault.message⟩
  | run fault => some ⟨"RuntimeError", fault.message⟩
  | scope fault => some ⟨"NameError", fault.message⟩
  | _ => none

def message? (fault : Fault) : Option String :=
  match fault with
  | tree fault => fault.message?
  | serialization kind => some ("Unsupported node for serialization: " ++ kind)
  | unexpectedNode activity kind =>
    some (activity.name ++ ": unexpected node type <class '" ++ kind ++ "'>")
  | unresolved kind slot => some (kind ++ " " ++ slot ++ " has not been analyzed")
  | fault => fault.report?.map Report.toText

end Fault
end BlockScript
