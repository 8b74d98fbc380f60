import BlockScript.Decimal.Basic
/-!
# Doubles

The doubles are the numbers of at most 53 binary digits with exponents from -1074 on. A decimal is
rounded to the nearest of them, a half to the even one, and a double is itself a decimal.
-/
namespace BlockScript.Decimal

/-- The binary exponent of the leading digit of `num / den`. -/
def leadingBit (num den : Nat) : Int :=
  let e : Int := (Nat.log2 num : Int) - Nat.log2 den
  if num * Nat.pow 2 (-e).toNat < den * Nat.pow 2 e.toNat then e - 1 else e

/-- Takes factors of two out of a coefficient, at most `k` of them. What is left of `k` comes with
it. -/
def halved (c : Nat) : Nat → Nat × Nat
  | 0 => (c, 0)
  | k + 1 => if c % 2 == 0 then halved (c / 2) k else (c, k + 1)

/-- The decimal that is `c * 2 ^ e`, with no more digits behind the point than it needs. -/
def ofBinary (negative : Bool) (c : Nat) (e : Int) : Decimal :=
  let (c, places) := halved (c * Nat.pow 2 e.toNat) (-e).toNat
  finite negative (c * Nat.pow 5 places) (-places)

def double : Decimal → Decimal
  | finite s c e =>
    if !fitsDouble (finite s c e) then infinite s
    else if c == 0 || adjusted c e < -400 then finite s 0 0
    else
      let num := c * Nat.pow 10 e.toNat
      let den := Nat.pow 10 (-e).toNat
      let last := max (-1074) (leadingBit num den - 52)
      ofBinary s (roundedQuotient (num * Nat.pow 2 (-last).toNat) (den * Nat.pow 2 last.toNat)) last
  | infinite s => infinite s
  | nan .. => nan false false 0

end BlockScript.Decimal
