import BlockScript.Scope
/-!
# Static types

The built-in types, and one type for each kind of object that the surroundings of a program
offer. The fields and methods of an object's type are bound in a frame of their own, which also
tells such types apart; values of the built-in types have no members.
-/
namespace BlockScript

inductive StaticType where
  | any | nil | comparable | boolean | integer | decimal | character | string
  | object (name javaName : String) (members : FrameId)
deriving DecidableEq, Repr, Inhabited

namespace StaticType

def name : StaticType → String
  | any => "Any"
  | nil => "Nil"
  | comparable => "Comparable"
  | boolean => "Boolean"
  | integer => "Integer"
  | decimal => "Decimal"
  | character => "Character"
  | string => "String"
  | object name _ _ => name

def javaName : StaticType → String
  | any => "Object"
  | nil => "Void"
  | comparable => "Comparable"
  | boolean => "boolean"
  | integer => "int"
  | decimal => "double"
  | character => "char"
  | string => "String"
  | object _ javaName _ => javaName

def builtin : List StaticType :=
  [any, nil, comparable, boolean, integer, decimal, character, string]

def named? (name : String) : Option StaticType := builtin.find? (·.name == name)

/-- The frame that binds the members of the values of a type. -/
def members? : StaticType → Option FrameId
  | object _ _ members => some members
  | _ => none

def isOrdered : StaticType → Bool
  | integer | decimal | character | string => true
  | _ => false

/-- Whether a value of type `source` may be kept where `target` is expected: the types are the
same, or anything will do, or something comparable will do and the source is ordered or nil. -/
def accepts (target source : StaticType) : Bool :=
  source == target || target == any ||
    (target == comparable && (source.isOrdered || source == nil))

end StaticType

/-- What checking knows of a variable. The frame that binds it and its name identify it. -/
structure StaticVariable where
  home : FrameId
  name : String
  javaName : String
  constant : Bool
  type : StaticType
deriving DecidableEq, Repr, Inhabited

structure StaticFunction where
  name : String
  javaName : String
  arity : Nat
  parameterTypes : List StaticType
  returnType : StaticType
deriving DecidableEq, Repr, Inhabited

def StaticFunction.signature (f : StaticFunction) : Signature := ⟨f.name, f.arity⟩

end BlockScript
