import BlockScript.Text.Printable
/-!
# Quoted text

Text as messages and listings show it: in single quotes, or in double quotes when it holds a
single quote and no double one, with a backslash before what would otherwise not be seen.
-/
namespace BlockScript.Text

/-- Hexadecimal digits in lower case, padded with zeros to `width`. -/
def hex (width n : Nat) : List Char :=
  let ds := Nat.toDigits 16 n
  List.replicate (width - ds.length) '0' ++ ds

def quotedChar (quote c : Char) : List Char :=
  let n := c.toNat
  if c == quote || c == '\\' then ['\\', c]
  else if c == '\t' then ['\\', 't']
  else if c == '\n' then ['\\', 'n']
  else if c == '\r' then ['\\', 'r']
  else if isPrintable c then [c]
  else if n < 0x100 then '\\' :: 'x' :: hex 2 n
  else if n < 0x10000 then '\\' :: 'u' :: hex 4 n
  else '\\' :: 'U' :: hex 8 n

def quoteFor (s : String) : Char :=
  if s.contains '\'' && !s.contains '"' then '"' else '\''

def quoted (s : String) : String :=
  let quote := quoteFor s
  String.ofList (quote :: s.toList.flatMap (quotedChar quote) ++ [quote])

end BlockScript.Text
