import BlockScript.Text.Blank
import BlockScript.Text.DecimalDigit
import BlockScript.Token.Sign
/-!
# Scanning

The tokens of a source text. At each place the first character decides what may stand there:
layout, which is skipped; a name; a number; a character or string between its quotes; or an
operator, which is any other character but a quote or white space. Where none of them fits the
text has no tokens.
-/
namespace BlockScript

open Text

def isLetter (c : Char) : Bool := ('a' ≤ c && c ≤ 'z') || ('A' ≤ c && c ≤ 'Z')

def isNameStart (c : Char) : Bool := isLetter c || c == '_'

def isNamePart (c : Char) : Bool := isNameStart c || isAsciiDigit c

/-- A character that can stand for itself between the given quotes. -/
def isPlain (quote c : Char) : Bool := c != quote && c != '\\' && c != '\n' && c != '\r'

/-- What belongs to a number after its first digit: more digits, and a point with digits on both
sides of it. -/
def numberTail (cs : List Char) : TokenKind × List Char :=
  let whole := cs.takeWhile isAsciiDigit
  match cs.dropWhile isAsciiDigit with
  | '.' :: d :: rest =>
    if isAsciiDigit d then (.decimal, whole ++ '.' :: d :: rest.takeWhile isAsciiDigit)
    else (.integer, whole)
  | _ => (.integer, whole)

/-- What belongs to a character after its opening quote: at most one character, plain or behind
a backslash, and the closing quote. -/
def characterTail? : List Char → Option (List Char)
  | '\'' :: _ => some ['\'']
  | '\\' :: c :: '\'' :: _ => if c == '\n' then none else some ['\\', c, '\'']
  | c :: '\'' :: _ => if isPlain '\'' c then some [c, '\''] else none
  | _ => none

/-- What belongs to a string after its opening quote: characters, plain or behind a backslash,
and the closing quote. -/
def stringTail? : List Char → Option (List Char)
  | [] => none
  | '"' :: _ => some ['"']
  | '\\' :: c :: cs => if c == '\n' then none else (stringTail? cs).map ('\\' :: c :: ·)
  | c :: cs => if isPlain '"' c then (stringTail? cs).map (c :: ·) else none

def operatorTail (c : Char) (cs : List Char) : List Char :=
  match cs with
  | d :: _ =>
    if (c == '<' || c == '>' || c == '!' || c == '=') && d == '=' then [d]
    else if (c == '&' || c == '|') && d == c then [d]
    else []
  | [] => []

/-- The kind of the token that begins with `c` and what belongs to it of the characters `cs`
after that; none where no token can begin. -/
def tokenTail? (c : Char) (cs : List Char) : Option (TokenKind × List Char) :=
  if isNameStart c then some (.identifier, cs.takeWhile isNamePart)
  else if isAsciiDigit c then some (numberTail cs)
  else if c == '\'' then (characterTail? cs).map (.character, ·)
  else if c == '"' then (stringTail? cs).map (.string, ·)
  else if isBlank c then none
  else some (.operator, operatorTail c cs)

/-- A character at which no token can begin, and its index. -/
structure Unexpected where
  character : Char
  index : Nat
deriving DecidableEq, Repr

/-- The tokens of the characters that begin at `index`, signs apart from numbers. -/
def scanFrom (index : Nat) : List Char → Except Unexpected (List Token)
  | [] => .ok []
  | c :: cs =>
    if isLayout c then scanFrom (index + 1) cs
    else
      match tokenTail? c cs with
      | none => .error ⟨c, index⟩
      | some (kind, tail) =>
        match scanFrom (index + (tail.length + 1)) (cs.drop tail.length) with
        | .ok tokens => .ok (⟨kind, String.ofList (c :: tail), index⟩ :: tokens)
        | .error e => .error e
termination_by cs => cs.length
decreasing_by
  · simp
  · simp only [List.length_drop, List.length_cons]; omega

def scan (text : String) : Except Unexpected (List Token) :=
  (scanFrom 0 text.toList).map foldSigns

end BlockScript
