import BlockScript.Value
/-!
# Literals in Java

Text between the quotes of Java, where some characters stand behind a backslash, and the Java
literals of values.
-/
namespace BlockScript.Java

def escapeChar (c : Char) : List Char :=
  match c with
  | '\x08' => ['\\', 'b']
  | '\n' => ['\\', 'n']
  | '\r' => ['\\', 'r']
  | '\t' => ['\\', 't']
  | '\'' => ['\\', '\'']
  | '"' => ['\\', '"']
  | '\\' => ['\\', '\\']
  | '\x00' => ['\\', '0']
  | c => [c]

def escapeChars (cs : List Char) : List Char := cs.flatMap escapeChar

def escape (s : String) : String := String.ofList (escapeChars s.toList)

def quoted (quote : Char) (s : String) : String :=
  String.ofList (quote :: escapeChars s.toList ++ [quote])

/-- The Java literal of a value; none for an integer of too many digits. -/
def literal? : Literal → Option String
  | .nil => some "null"
  | .boolean b => some (if b then "true" else "false")
  | .character s => some (quoted '\'' s)
  | .string s => some (quoted '"' s)
  | .integer n => Text.numeral? n
  | .decimal d => some d.toText
  | .raw j => some j.display

/-- What stands for a value in Java: its literal, or the text of an object. -/
def value? (v : Value) : Option String :=
  match v.toLiteral? with
  | some l => literal? l
  | none => some (Value.objectText v.typeName)

end BlockScript.Java
