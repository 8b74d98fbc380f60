import BlockScript.Literal
import BlockScript.Scope
/-!
# Values

What expressions evaluate to. An object is known by the frame that binds its members, so that
two objects are the same only if they share it.
-/
namespace BlockScript

inductive Value where
  | nil
  | boolean (value : Bool)
  | character (text : String)
  | string (text : String)
  | integer (value : Int)
  | decimal (value : Decimal)
  | object (typeName : String) (members : FrameId)
  | raw (value : Json)
deriving Repr, Inhabited

def Literal.toValue : Literal → Value
  | nil => .nil
  | boolean b => .boolean b
  | character s => .character s
  | string s => .string s
  | integer n => .integer n
  | decimal d => .decimal d
  | raw j => .raw j

namespace Value

def toLiteral? : Value → Option Literal
  | nil => some .nil
  | boolean b => some (.boolean b)
  | character s => some (.character s)
  | string s => some (.string s)
  | integer n => some (.integer n)
  | decimal d => some (.decimal d)
  | raw j => some (.raw j)
  | object .. => none

/-- A value without the frame that an object is known by. -/
def shown : Value → Value
  | object name _ => object name 0
  | v => v

def typeName : Value → String
  | nil => "Nil"
  | boolean _ => "Boolean"
  | character _ => "Character"
  | string _ => "String"
  | integer _ => "Integer"
  | decimal _ => "Decimal"
  | object name _ => name
  | raw j => j.kindName

def objectText (typeName : String) : String := "<" ++ typeName ++ " object>"

/-- The text that printing a value gives; none for an integer of too many digits. -/
def toText? : Value → Option String
  | nil => some "null"
  | boolean b => some (if b then "true" else "false")
  | character s => some s
  | string s => some s
  | integer n => Text.numeral? n
  | decimal d => some d.toText
  | object name _ => some (objectText name)
  | raw j => some j.display

/-- The text that shows a value with its kind; none for an integer of too many digits. -/
def display? : Value → Option String
  | nil => some "NIL"
  | boolean b => some (if b then "True" else "False")
  | character s => some ("CharVal(" ++ Text.quoted s ++ ")")
  | string s => some (Text.quoted s)
  | integer n => Text.numeral? n
  | decimal d => some ("Decimal('" ++ d.toText ++ "')")
  | object name _ => some (objectText name)
  | raw j => some j.display

def displayReturn? (v : Value) : Option String :=
  v.display?.map fun text => "ReturnSignal(" ++ text ++ ")"

end Value
end BlockScript
