import BlockScript.Text.Quoted
import BlockScript.Text.Numeral
import BlockScript.Decimal.Text
/-!
# JSON values

Integers have any size and are kept apart from numbers with a fraction or an exponent. Those stand
for doubles, but they keep the decimal with which they were written: two that round to the same
double are not the same here, nor do they show the digits of the double. The members of an object
are in the order in which they were written.
-/
namespace BlockScript

inductive Json where
  | null
  | bool (value : Bool)
  | integer (value : Int)
  | number (value : Decimal)
  | string (value : String)
  | array (items : List Json)
  | object (members : List (String × Json))
deriving Repr, Inhabited

namespace Json

def get? (key : String) : Json → Option Json
  | object members => members.lookup key
  | _ => none

/-- Whether a value counts as true: all do but null, false, zero and what is empty. -/
def truthy : Json → Bool
  | null => false
  | bool b => b
  | integer n => n != 0
  | number d => !d.isZero
  | string s => !s.isEmpty
  | array items => !items.isEmpty
  | object members => !members.isEmpty

def kindName : Json → String
  | null => "NoneType"
  | bool _ => "bool"
  | integer _ => "int"
  | number _ => "float"
  | string _ => "str"
  | array _ => "list"
  | object _ => "dict"

def dropTrailingZeros (ds : List Char) : List Char :=
  (ds.reverse.dropWhile (· == '0')).reverse

/-- A finite number in messages: positional while its exponent lies between -4 and 15, with at
least one digit behind the point, and otherwise with an exponent of at least two digits. -/
def displayFinite (c : Nat) (e : Int) : List Char :=
  if c == 0 then ['0', '.', '0']
  else
    let ds := dropTrailingZeros (Text.digits c)
    let lead := Decimal.adjusted c e
    if -4 ≤ lead && lead < 16 then
      let places := max 1 ((ds.length : Int) - 1 - lead).toNat
      let whole := ds ++ List.replicate (lead + 2 - ds.length).toNat '0'
      Decimal.pointed whole places
    else
      let mantissa := if ds.length == 1 then ds else Decimal.pointed ds (ds.length - 1)
      let size := Text.digits lead.natAbs
      mantissa ++ 'e' :: (if lead < 0 then '-' else '+') ::
        (List.replicate (2 - size.length) '0' ++ size)

def displayNumber : Decimal → String
  | .nan .. => "nan"
  | d =>
    String.ofList ((if d.isNegative then ['-'] else []) ++
      match d with
      | .finite _ c e => if d.fitsDouble then displayFinite c e else ['i', 'n', 'f']
      | _ => ['i', 'n', 'f'])

mutual

def display : Json → String
  | null => "None"
  | bool b => if b then "True" else "False"
  | integer n => Text.numeral n
  | number d => displayNumber d
  | string s => Text.quoted s
  | array items => "[" ++ ", ".intercalate (displayItems items) ++ "]"
  | object members => "\x7b" ++ ", ".intercalate (displayMembers members) ++ "\x7d"

def displayItems : List Json → List String
  | [] => []
  | j :: rest => display j :: displayItems rest

def displayMembers : List (String × Json) → List String
  | [] => []
  | (key, j) :: rest => (Text.quoted key ++ ": " ++ display j) :: displayMembers rest

end

/-- The number that a value counts as; the truth values are one and zero. -/
def numeric? : Json → Option Decimal
  | bool b => some (.finite false b.toNat 0)
  | integer n => some (.finite (n < 0) n.natAbs 0)
  | number d => some d
  | _ => none

mutual

/-- Whether two values are equal part by part, numbers by their size. -/
def same : Json → Json → Bool
  | null, null => true
  | string s, string t => s == t
  | array items, array items' => sameItems items items'
  | object members, object members' => sameMembers members members'
  | j, j' =>
    match j.numeric?, j'.numeric? with
    | some d, some d' => d.compare? d' == some .eq
    | _, _ => false

def sameItems : List Json → List Json → Bool
  | [], [] => true
  | j :: rest, j' :: rest' => same j j' && sameItems rest rest'
  | _, _ => false

/-- Whether two objects have the same keys with equal values, in the same order. -/
def sameMembers : List (String × Json) → List (String × Json) → Bool
  | [], [] => true
  | (key, j) :: rest, (key', j') :: rest' => key == key' && same j j' && sameMembers rest rest'
  | _, _ => false

end

/-- Puts a member before the first one with a greater key. -/
def insertMember (key : String) (j : Json) : List (String × Json) → List (String × Json)
  | [] => [(key, j)]
  | (key', j') :: rest =>
    if key ≤ key' then (key, j) :: (key', j') :: rest else (key', j') :: insertMember key j rest

mutual

/-- A value with the members of every object in the order of their keys. -/
def sorted : Json → Json
  | array items => array (sortedItems items)
  | object members => object (sortedMembers members)
  | j => j

def sortedItems : List Json → List Json
  | [] => []
  | j :: rest => sorted j :: sortedItems rest

def sortedMembers : List (String × Json) → List (String × Json)
  | [] => []
  | (key, j) :: rest => insertMember key (sorted j) (sortedMembers rest)

end

/-- Whether two values are equal; the order of members does not count. -/
def equal (j j' : Json) : Bool := j.sorted.same j'.sorted

/-- A value inside a message that shows texts without quotes. -/
def plainText : Json → String
  | string s => s
  | j => display j

end Json
end BlockScript
