/-!
# Escapes in literals

Between quotes a backslash gives the character after it another meaning, or takes a special
meaning from it.
-/
namespace BlockScript

/-- The character that a backslash and `c` stand for: a control character for four letters,
and `c` itself otherwise. -/
def escaped (c : Char) : Char :=
  match c with
  | 'b' => '\x08'
  | 'n' => '\n'
  | 'r' => '\r'
  | 't' => '\t'
  | c => c

/-- Resolves the escapes of a text. A backslash at its end stands for itself. -/
def unescapeChars : List Char → List Char
  | '\\' :: c :: cs => escaped c :: unescapeChars cs
  | c :: cs => c :: unescapeChars cs
  | [] => []

def unescape (s : String) : String := String.ofList (unescapeChars s.toList)

def insideQuotes (literal : String) : List Char := (literal.toList.drop 1).dropLast

end BlockScript
