import BlockScript.Json.Basic
/-!
# Literals

The values that a program can write down. A tree that was read from JSON can hold a character of
any length, and as `raw` a list or a number of a kind that the language does not have.
-/
namespace BlockScript

inductive Literal where
  | nil
  | boolean (value : Bool)
  | character (text : String)
  | string (text : String)
  | integer (value : Int)
  | decimal (value : Decimal)
  | raw (value : Json)
deriving Repr, Inhabited

end BlockScript
