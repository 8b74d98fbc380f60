import BlockScript.Text.DecimalDigit
/-!
# Numerals

Decimal numerals of natural numbers and integers, and the length up to which an integer is
turned into a numeral or read from one.
-/
namespace BlockScript.Text

def digits (n : Nat) : List Char := n.repr.toList

def ofDigits (cs : List Char) : Nat :=
  cs.foldl (fun n c => 10 * n + (c.toNat - '0'.toNat)) 0

def numeral (n : Int) : String :=
  if n < 0 then String.ofList ('-' :: digits n.natAbs) else String.ofList (digits n.natAbs)

/-- The number of digits that an integer may have to be turned into text or read from it. -/
def digitLimit : Nat := 4300

/-- The least magnitude with more than `digitLimit` digits. -/
def digitBound : Nat := Nat.pow 10 digitLimit

def numeral? (n : Int) : Option String :=
  if digitBound ≤ n.natAbs then none else some (numeral n)

/-- Splits a leading sign off: whether it is a minus, and what follows. -/
def splitSign : List Char → Bool × List Char
  | '-' :: cs => (true, cs)
  | '+' :: cs => (false, cs)
  | cs => (false, cs)

def stripPlus (s : String) : String :=
  match s.toList with
  | '+' :: cs => String.ofList cs
  | _ => s

/-- The integer that the digits `0` to `9` write behind an optional sign. -/
def integer? (cs : List Char) : Option Int :=
  let (negative, ds) := splitSign cs
  if ds.isEmpty || !ds.all isAsciiDigit then none
  else some (if negative then -(ofDigits ds : Int) else ofDigits ds)

end BlockScript.Text
