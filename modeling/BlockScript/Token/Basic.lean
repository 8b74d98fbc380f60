/-!
# Tokens

A token is a stretch of the source text with its kind and the index, in characters, of its first
character. Keywords are identifiers that the grammar matches by their text.
-/
namespace BlockScript

inductive TokenKind where
  | identifier | integer | decimal | character | string | operator
deriving DecidableEq, Repr, Inhabited

/-- A piece of the source text, and where it begins. -/
structure Token where
  kind : TokenKind
  literal : String
  index : Nat
deriving DecidableEq, Repr, Inhabited

/-- The identifiers that cannot end an operand. -/
def keywords : List String :=
  ["LET", "CONST", "DEF", "DO", "END", "IF", "ELSE", "FOR", "WHILE", "RETURN", "AND", "OR"]

namespace Token

/-- The index just past the last character of a token. -/
def finish (t : Token) : Nat := t.index + t.literal.length

def isNumber (t : Token) : Bool := t.kind == .integer || t.kind == .decimal

def isSign (t : Token) : Bool := t.kind == .operator && (t.literal == "+" || t.literal == "-")

/-- Whether an operand can end with this token, so that a sign after it is a binary operator. -/
def endsOperand (t : Token) : Bool :=
  match t.kind with
  | .identifier => !keywords.contains t.literal
  | .operator => t.literal == ")"
  | _ => true

end Token
end BlockScript
