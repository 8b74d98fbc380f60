import BlockScript.Text.Numeral
/-!
# Decimal numbers

A decimal is a sign, a coefficient and an exponent of ten, so one number has many forms and zero
has a sign. Sums, differences and products are exact; a quotient is rounded to the larger scale
of its operands, a half going to the even neighbour. There are infinities and values that are no
number as well.
-/
namespace BlockScript

/-- `finite s c e` is `c * 10 ^ e`, negated when `s` holds. -/
inductive Decimal where
  | finite (negative : Bool) (coefficient : Nat) (exponent : Int)
  | infinite (negative : Bool)
  | nan (negative signaling : Bool) (payload : Nat)
deriving DecidableEq, Repr, Inhabited

namespace Decimal

def signed (negative : Bool) (coefficient : Nat) : Int :=
  if negative then -(coefficient : Int) else coefficient

/-- Whether there is a minus sign, also before a zero. -/
def isNegative : Decimal → Bool
  | finite s _ _ => s
  | infinite s => s
  | nan s _ _ => s

def isNaN : Decimal → Bool
  | nan .. => true
  | _ => false

/-- Whether a value refuses every operation. -/
def isSignaling : Decimal → Bool
  | nan _ signaling _ => signaling
  | _ => false

def isFinite : Decimal → Bool
  | finite .. => true
  | _ => false

def isZero : Decimal → Bool
  | finite _ c _ => c == 0
  | _ => false

def negate : Decimal → Decimal
  | finite s c e => finite (!s) c e
  | infinite s => infinite (!s)
  | nan s signaling p => nan (!s) signaling p

/-- The coefficient that `c * 10 ^ e` has at the smaller exponent `least`. -/
def aligned (c : Nat) (e least : Int) : Nat := c * Nat.pow 10 (e - least).toNat

/-- What an operation makes of operands of which one is no number: a signaling one is refused,
otherwise the first is the result. -/
def propagate (a b : Decimal) : Option Decimal :=
  if a.isSignaling || b.isSignaling then none
  else if a.isNaN then some a
  else some b

/-- The exact sum, at the smaller exponent. A zero sum is positive unless both operands are
negative. -/
def addFinite (s₁ : Bool) (c₁ : Nat) (e₁ : Int) (s₂ : Bool) (c₂ : Nat) (e₂ : Int) : Decimal :=
  let e := min e₁ e₂
  let total := signed s₁ (aligned c₁ e₁ e) + signed s₂ (aligned c₂ e₂ e)
  let negative := if total == 0 then s₁ && s₂ else decide (total < 0)
  finite negative total.natAbs e

def add? (a b : Decimal) : Option Decimal :=
  match a, b with
  | finite s₁ c₁ e₁, finite s₂ c₂ e₂ => some (addFinite s₁ c₁ e₁ s₂ c₂ e₂)
  | infinite s₁, infinite s₂ => if s₁ == s₂ then some a else none
  | infinite _, finite .. => some a
  | finite .., infinite _ => some b
  | a, b => propagate a b

/-- The difference; none when it is invalid. A second operand that is no number keeps its sign. -/
def sub? (a b : Decimal) : Option Decimal :=
  if b.isNaN then propagate a b else add? a b.negate

def mul? (a b : Decimal) : Option Decimal :=
  match a, b with
  | finite s₁ c₁ e₁, finite s₂ c₂ e₂ => some (finite (s₁ != s₂) (c₁ * c₂) (e₁ + e₂))
  | infinite s₁, infinite s₂ => some (infinite (s₁ != s₂))
  | infinite s₁, finite s₂ c _ => if c == 0 then none else some (infinite (s₁ != s₂))
  | finite s₁ c _, infinite s₂ => if c == 0 then none else some (infinite (s₁ != s₂))
  | a, b => propagate a b

/-- The quotient of two natural numbers rounded to the nearest one, a half to the even one. -/
def roundedQuotient (num den : Nat) : Nat :=
  let q := num / den
  let r := num % den
  if 2 * r < den then q
  else if den < 2 * r then q + 1
  else if q % 2 == 0 then q else q + 1

/-- The quotient of finite decimals at the larger of their scales, rounded to the nearest
coefficient, a half to the even one. A zero result is positive. The divisor is not zero. -/
def divFinite (s₁ : Bool) (c₁ : Nat) (e₁ : Int) (s₂ : Bool) (c₂ : Nat) (e₂ : Int) : Decimal :=
  let scale := max (-e₁) (-e₂)
  let shift := e₁ - e₂ + scale
  let q := roundedQuotient (c₁ * Nat.pow 10 shift.toNat) (c₂ * Nat.pow 10 (-shift).toNat)
  finite (q != 0 && s₁ != s₂) q (-scale)

def compareFinite (s₁ : Bool) (c₁ : Nat) (e₁ : Int) (s₂ : Bool) (c₂ : Nat) (e₂ : Int) : Ordering :=
  let e := min e₁ e₂
  compare (signed s₁ (aligned c₁ e₁ e)) (signed s₂ (aligned c₂ e₂ e))

def compare? (a b : Decimal) : Option Ordering :=
  match a, b with
  | finite s₁ c₁ e₁, finite s₂ c₂ e₂ => some (compareFinite s₁ c₁ e₁ s₂ c₂ e₂)
  | infinite s₁, infinite s₂ => some (compare (!s₁) (!s₂))
  | infinite s, finite .. => some (if s then .lt else .gt)
  | finite .., infinite s => some (if s then .gt else .lt)
  | _, _ => none

/-- Whether two decimals are the same number; none when one of them signals. Nothing is equal to
a value that is no number. -/
def equal? (a b : Decimal) : Option Bool :=
  if a.isSignaling || b.isSignaling then none
  else some (a.compare? b == some .eq)

/-- The exponent of the leading digit; for zero, that of its only digit. -/
def adjusted (c : Nat) (e : Int) : Int := e + (((Text.digits c).length : Int) - 1)

/-- Whether a decimal is a finite number whose nearest double is finite: its magnitude is less
than `2 ^ 1024 - 2 ^ 970`. The exponent of the leading digit decides all but the close cases. -/
def fitsDouble : Decimal → Bool
  | finite _ c e =>
    if c == 0 || adjusted c e < 308 then true
    else if 308 < adjusted c e then false
    else c * Nat.pow 10 e.toNat < (Nat.pow 2 1024 - Nat.pow 2 970) * Nat.pow 10 (-e).toNat
  | _ => false

end Decimal
end BlockScript
