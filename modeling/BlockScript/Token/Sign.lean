import BlockScript.Token.Basic
/-!
# Signed numbers

A sign directly in front of a number becomes part of it, unless the token before the sign can
end an operand: in `x -1` and `(a) -1` the sign stays a binary operator.
-/
namespace BlockScript

namespace Token

/-- Whether `sign` becomes part of `number` after the token `last`, if there is one. -/
def foldsInto (last : Option Token) (sign number : Token) : Bool :=
  sign.isSign && number.isNumber && number.index == sign.index + 1 && !last.any endsOperand

/-- The number with the sign in front, at the place of the sign. -/
def signed (sign number : Token) : Token :=
  ⟨number.kind, sign.literal ++ number.literal, sign.index⟩

end Token

def foldSignsAfter : Option Token → List Token → List Token
  | _, [] => []
  | _, [t] => [t]
  | last, t :: n :: rest =>
    if t.foldsInto last n then t.signed n :: foldSignsAfter (some (t.signed n)) rest
    else t :: foldSignsAfter (some t) (n :: rest)

def foldSigns (tokens : List Token) : List Token := foldSignsAfter none tokens

end BlockScript
