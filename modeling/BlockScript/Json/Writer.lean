import BlockScript.Json.Basic
/-!
# Writing JSON

On one line, or over several lines with two spaces a level. Text is written as it is but for the
quote, the backslash and the control characters below the space.
-/
namespace BlockScript.Json

def escapeChar (c : Char) : List Char :=
  if c == '"' || c == '\\' then ['\\', c]
  else if c == '\n' then ['\\', 'n']
  else if c == '\r' then ['\\', 'r']
  else if c == '\t' then ['\\', 't']
  else if c == '\x08' then ['\\', 'b']
  else if c == '\x0C' then ['\\', 'f']
  else if c < ' ' then '\\' :: 'u' :: Text.hex 4 c.toNat
  else [c]

def writeString (s : String) : String :=
  String.ofList ('"' :: s.toList.flatMap escapeChar ++ ['"'])

/-- A number that has a fraction, an exponent or no finite value. -/
def writeNumber (d : Decimal) : String :=
  if d.isNaN then "NaN"
  else if d.fitsDouble then displayNumber d
  else if d.isNegative then "-Infinity" else "Infinity"

def writeAtom : Json → String
  | bool b => if b then "true" else "false"
  | integer n => Text.numeral n
  | number d => writeNumber d
  | string s => writeString s
  | _ => "null"

mutual

def compact : Json → String
  | array items => "[" ++ ",".intercalate (compactItems items) ++ "]"
  | object members => "\x7b" ++ ",".intercalate (compactMembers members) ++ "\x7d"
  | j => writeAtom j

def compactItems : List Json → List String
  | [] => []
  | j :: rest => compact j :: compactItems rest

def compactMembers : List (String × Json) → List String
  | [] => []
  | (key, j) :: rest => (writeString key ++ ":" ++ compact j) :: compactMembers rest

end

def lineBreak (depth : Nat) : String := String.ofList ('\n' :: List.replicate (2 * depth) ' ')

/-- Parts over several lines between brackets; the brackets stand together when there are none. -/
def writeBlock (opening closing : String) (depth : Nat) (parts : List String) : String :=
  if parts.isEmpty then opening ++ closing
  else
    opening ++ lineBreak (depth + 1) ++ ("," ++ lineBreak (depth + 1)).intercalate parts ++
      lineBreak depth ++ closing

mutual

/-- A value over several lines, inside `depth` others. -/
def indentedAt (depth : Nat) : Json → String
  | array items => writeBlock "[" "]" depth (indentedItems (depth + 1) items)
  | object members => writeBlock "\x7b" "\x7d" depth (indentedMembers (depth + 1) members)
  | j => writeAtom j

def indentedItems (depth : Nat) : List Json → List String
  | [] => []
  | j :: rest => indentedAt depth j :: indentedItems depth rest

def indentedMembers (depth : Nat) : List (String × Json) → List String
  | [] => []
  | (key, j) :: rest =>
    (writeString key ++ ": " ++ indentedAt depth j) :: indentedMembers depth rest

end

def indented (j : Json) : String := indentedAt 0 j

end BlockScript.Json
