import BlockScript.Text.Blank
import BlockScript.Text.Numeral
import BlockScript.Decimal.Basic
/-!
# The text of a decimal

A decimal is written plainly while its exponent is not positive and it does not begin with six
zeros behind the point; otherwise with an exponent. Both forms keep every digit of the
coefficient, so that reading them gives the same decimal again.
-/
namespace BlockScript.Decimal

open BlockScript.Text

/-- The digits with a point before the last `places` of them, after at least one digit. -/
def pointed (ds : List Char) (places : Nat) : List Char :=
  if places == 0 then ds
  else
    let padded := List.replicate (places + 1 - ds.length) '0' ++ ds
    let whole := padded.length - places
    padded.take whole ++ '.' :: padded.drop whole

/-- One digit, the others behind a point, and the exponent with its sign. -/
def scientific (ds : List Char) (exponent : Int) : List Char :=
  let mantissa :=
    match ds with
    | d :: d' :: rest => d :: '.' :: d' :: rest
    | ds => ds
  mantissa ++ 'E' :: (if exponent < 0 then '-' else '+') :: digits exponent.natAbs

def magnitude (c : Nat) (e : Int) : List Char :=
  if e ≤ 0 && -6 ≤ adjusted c e then pointed (digits c) (-e).toNat
  else scientific (digits c) (adjusted c e)

def chars : Decimal → List Char
  | finite s c e => (if s then ['-'] else []) ++ magnitude c e
  | infinite s => (if s then ['-'] else []) ++ "Infinity".toList
  | nan s signaling payload =>
    (if s then ['-'] else []) ++ (if signaling then "sNaN".toList else "NaN".toList) ++
      (if payload == 0 then [] else digits payload)

def toText (d : Decimal) : String := String.ofList d.chars

/-- The digit `0` to `9` of the same value for a digit of any script; other characters stay. -/
def westernDigit (c : Char) : Char :=
  match digitValue? c with
  | some v => Char.ofNat ('0'.toNat + v)
  | none => c

/-- The exponent part: nothing, or the letter e, a sign and at least one digit. -/
def exponent? : List Char → Option Int
  | [] => some 0
  | c :: cs =>
    if c == 'e' || c == 'E' then
      let (negative, ds) := splitSign cs
      if ds.isEmpty || !ds.all isAsciiDigit then none
      else some (signed negative (ofDigits ds))
    else none

/-- Digits with at most one point among them, at least one digit, and an exponent part. -/
def number? (negative : Bool) (cs : List Char) : Option Decimal :=
  let whole := cs.takeWhile isAsciiDigit
  let (fraction, rest) :=
    match cs.dropWhile isAsciiDigit with
    | '.' :: r => (r.takeWhile isAsciiDigit, r.dropWhile isAsciiDigit)
    | r => ([], r)
  if (whole ++ fraction).isEmpty then none
  else (exponent? rest).map fun e =>
    finite negative (ofDigits (whole ++ fraction)) (e - fraction.length)

def payload? (ds : List Char) : Option Nat :=
  if ds.all isAsciiDigit then some (ofDigits ds) else none

/-- What follows the sign, in lower case for the names of the special values. -/
def unsigned? (negative : Bool) (cs : List Char) : Option Decimal :=
  match cs.map Char.toLower with
  | ['i', 'n', 'f'] => some (infinite negative)
  | ['i', 'n', 'f', 'i', 'n', 'i', 't', 'y'] => some (infinite negative)
  | 'n' :: 'a' :: 'n' :: ds => (payload? ds).map (nan negative false)
  | 's' :: 'n' :: 'a' :: 'n' :: ds => (payload? ds).map (nan negative true)
  | _ => number? negative cs

/-- The decimal that a text writes. White space around it and underscores in it do not matter,
and digits may be those of any script. -/
def ofText? (s : String) : Option Decimal :=
  let cs := ((stripBlanks s.toList).filter (· != '_')).map westernDigit
  let (negative, body) := splitSign cs
  unsigned? negative body

/-- The decimal of a literal: an optional sign and digits on both sides of a point. -/
def literal? (cs : List Char) : Option Decimal :=
  let (negative, body) := splitSign cs
  let whole := body.takeWhile isAsciiDigit
  match body.dropWhile isAsciiDigit with
  | '.' :: fraction =>
    if whole.isEmpty || fraction.isEmpty || !fraction.all isAsciiDigit then none
    else some (finite negative (ofDigits (whole ++ fraction)) (-fraction.length))
  | _ => none

end BlockScript.Decimal
