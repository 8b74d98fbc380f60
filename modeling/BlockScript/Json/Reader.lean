import BlockScript.Reading
import BlockScript.Json.Basic
/-!
# Reading JSON

Reads one value and nothing after it. Besides standard JSON the numbers `NaN`, `Infinity` and
`-Infinity` are read. Of several members of one key the last one counts, at the place of the
first.
-/
namespace BlockScript.Json

open Text

inductive ReadFault where
  | malformed
  | tooManyDigits
deriving DecidableEq, Repr

/-- Reading from `n` characters, of which a success uses `k` or more. -/
abbrev Read (α : Type) (k n : Nat) := Reading Char ReadFault α k n

def isSpace (c : Char) : Bool := c == ' ' || c == '\t' || c == '\n' || c == '\r'

def skipSpace (cs : List Char) : List Char := cs.dropWhile isSpace

theorem skipSpace_length_le (cs : List Char) : (skipSpace cs).length ≤ cs.length :=
  (List.dropWhile_suffix _).length_le

def hexValue? (c : Char) : Option Nat :=
  if isAsciiDigit c then some (c.toNat - '0'.toNat)
  else if 'a' ≤ c && c ≤ 'f' then some (c.toNat - 'a'.toNat + 10)
  else if 'A' ≤ c && c ≤ 'F' then some (c.toNat - 'A'.toNat + 10)
  else none

def hex4? (a b c d : Char) : Option Nat := do
  return (((← hexValue? a) * 16 + (← hexValue? b)) * 16 + (← hexValue? c)) * 16 + (← hexValue? d)

/-- The character that a backslash and a letter other than u stand for. -/
def letterEscape? (c : Char) : Option Char :=
  match c with
  | '"' | '\\' | '/' => some c
  | 'b' => some '\x08'
  | 'f' => some '\x0C'
  | 'n' => some '\n'
  | 'r' => some '\r'
  | 't' => some '\t'
  | _ => none

def isHighHalf (n : Nat) : Bool := 0xD800 ≤ n && n < 0xDC00

def isLowHalf (n : Nat) : Bool := 0xDC00 ≤ n && n < 0xE000

def ofHalves (high low : Nat) : Char :=
  Char.ofNat (0x10000 + (high - 0xD800) * 0x400 + (low - 0xDC00))

/-- The character of a code unit; half a pair alone is shown as the replacement character. -/
def ofUnit (n : Nat) : Char := if n.isValidChar then Char.ofNat n else '\uFFFD'

/-- A text up to its closing quote, with the characters `acc` in front of it, latest first, and what
comes behind the quote. -/
def stringTail (acc : List Char) : List Char → Except ReadFault String × List Char
  | '"' :: cs => (.ok (String.ofList acc.reverse), cs)
  | '\\' :: 'u' :: a :: b :: c :: d :: cs =>
    match hex4? a b c d with
    | none => (.error .malformed, cs)
    | some unit =>
      match cs with
      | '\\' :: 'u' :: a' :: b' :: c' :: d' :: cs' =>
        match hex4? a' b' c' d' with
        | none => (.error .malformed, cs')
        | some unit' =>
          if isHighHalf unit && isLowHalf unit' then stringTail (ofHalves unit unit' :: acc) cs'
          else stringTail (ofUnit unit :: acc) ('\\' :: 'u' :: a' :: b' :: c' :: d' :: cs')
      | cs => stringTail (ofUnit unit :: acc) cs
  | '\\' :: c :: cs =>
    match letterEscape? c with
    | none => (.error .malformed, cs)
    | some e => stringTail (e :: acc) cs
  | c :: cs =>
    if c < ' ' || c == '\\' then (.error .malformed, cs)
    else stringTail (c :: acc) cs
  | [] => (.error .malformed, [])
termination_by cs => cs.length
decreasing_by all_goals simp only [List.length_cons]; omega

theorem stringTail_length_le (acc cs : List Char) :
    (stringTail acc cs).2.length ≤ cs.length := by
  fun_induction stringTail acc cs <;> simp only [List.length_cons] at * <;> omega

def quotedText (cs : List Char) : Read String 0 cs.length :=
  match stringTail [] cs, stringTail_length_le [] cs with
  | (.ok text, rest), within => .done text rest within
  | (.error fault, rest), within => .failed fault rest within

/-- The digits in front, of which a leading zero is the only one. -/
def wholeDigits (cs : List Char) : List Char :=
  match cs with
  | '0' :: _ => ['0']
  | cs => cs.takeWhile isAsciiDigit

def fractionDigits (cs : List Char) : List Char :=
  match cs with
  | '.' :: cs => cs.takeWhile isAsciiDigit
  | _ => []

/-- The exponent in front: its sign, its digits, and how many characters it takes. -/
def exponentPart (cs : List Char) : Option (Bool × List Char × Nat) :=
  match cs with
  | e :: cs =>
    if e == 'e' || e == 'E' then
      let (negative, rest) := splitSign cs
      let ds := rest.takeWhile isAsciiDigit
      if ds.isEmpty then none else some (negative, ds, 1 + (cs.length - rest.length) + ds.length)
    else none
  | [] => none

/-- The number in front and how many characters it takes. Integers of more than `limit` digits
are refused. -/
def number? (limit : Option Nat) (cs : List Char) : Except ReadFault (Json × Nat) :=
  let (negative, signs, body) :=
    match cs with
    | '-' :: cs => (true, 1, cs)
    | cs => (false, 0, cs)
  let whole := wholeDigits body
  if whole.isEmpty then .error .malformed
  else
    let rest := body.drop whole.length
    let fraction := fractionDigits rest
    let used := if fraction.isEmpty then 0 else fraction.length + 1
    match exponentPart (rest.drop used) with
    | some (down, ds, more) =>
      let e := Decimal.signed down (ofDigits ds)
      let d := Decimal.finite negative (ofDigits (whole ++ fraction)) (e - fraction.length)
      .ok (.number d, signs + whole.length + used + more)
    | none =>
      if fraction.isEmpty then
        if limit.any (· < whole.length) then .error .tooManyDigits
        else .ok (.integer (Decimal.signed negative (ofDigits whole)), signs + whole.length)
      else
        let d := Decimal.finite negative (ofDigits (whole ++ fraction)) (-fraction.length)
        .ok (.number d, signs + whole.length + used)

/-- Puts a member behind those that are there, or in the place of one of its key. -/
def putMember (key : String) (j : Json) : List (String × Json) → List (String × Json)
  | [] => [(key, j)]
  | (k, v) :: rest => if k == key then (k, j) :: rest else (k, v) :: putMember key j rest

/-- The members of an object of which the last of each key counts. -/
def lastMembers (members : List (String × Json)) : List (String × Json) :=
  members.foldl (fun kept (key, j) => putMember key j kept) []

def word? : List Char → Option (Json × Nat)
  | 'n' :: 'u' :: 'l' :: 'l' :: _ => some (.null, 4)
  | 't' :: 'r' :: 'u' :: 'e' :: _ => some (.bool true, 4)
  | 'f' :: 'a' :: 'l' :: 's' :: 'e' :: _ => some (.bool false, 5)
  | 'N' :: 'a' :: 'N' :: _ => some (.number (.nan false false 0), 3)
  | 'I' :: 'n' :: 'f' :: 'i' :: 'n' :: 'i' :: 't' :: 'y' :: _ => some (.number (.infinite false), 8)
  | '-' :: 'I' :: 'n' :: 'f' :: 'i' :: 'n' :: 'i' :: 't' :: 'y' :: _ =>
    some (.number (.infinite true), 9)
  | _ => none

def atom (limit : Option Nat) (c : Char) (cs : List Char) : Read Json 1 (cs.length + 1) :=
  match word? (c :: cs) with
  | some (j, used) => .done j (cs.drop (used - 1)) (by simp only [List.length_drop]; omega)
  | none =>
    match number? limit (c :: cs) with
    | .ok (j, used) => .done j (cs.drop (used - 1)) (by simp only [List.length_drop]; omega)
    | .error e => .failed e cs (by omega)

mutual

def value (limit : Option Nat) (cs : List Char) : Read Json 1 cs.length :=
  match cs with
  | [] => .failed .malformed [] (Nat.zero_le _)
  | '"' :: cs => ((quotedText cs).map Json.string).widen
      (by simp only [List.length_cons]; omega) (by simp only [List.length_cons]; omega)
  | '[' :: cs =>
    match h : skipSpace cs with
    | ']' :: rest => .done (.array []) rest (by
        have := skipSpace_length_le cs
        simp only [h, List.length_cons] at this ⊢; omega)
    | rest => ((items limit rest).map Json.array).widen
        (by have := skipSpace_length_le cs; simp only [← h, List.length_cons]; omega)
        (by have := skipSpace_length_le cs; simp only [← h, List.length_cons]; omega)
  | '\x7b' :: cs =>
    match h : skipSpace cs with
    | '\x7d' :: rest => .done (.object []) rest (by
        have := skipSpace_length_le cs
        simp only [h, List.length_cons] at this ⊢; omega)
    | rest => ((members limit rest).map fun ms => Json.object (lastMembers ms)).widen
        (by have := skipSpace_length_le cs; simp only [← h, List.length_cons]; omega)
        (by have := skipSpace_length_le cs; simp only [← h, List.length_cons]; omega)
  | c :: cs => atom limit c cs
termination_by 2 * cs.length
decreasing_by
  all_goals
    have := skipSpace_length_le cs
    simp only [← h, List.length_cons]
    omega

/-- The items of an array, one at least, up to the closing bracket. -/
def items (limit : Option Nat) (cs : List Char) : Read (List Json) 1 cs.length :=
  ((value limit cs).andThen fun j rest used =>
    match h : skipSpace rest with
    | ']' :: rest' => (.done [j] rest' (by
        have := skipSpace_length_le rest
        simp only [h, List.length_cons] at this; omega) : Read (List Json) 0 rest.length)
    | ',' :: rest' => ((items limit (skipSpace rest')).map (j :: ·)).widen
        (by
          have := skipSpace_length_le rest
          have := skipSpace_length_le rest'
          simp only [h, List.length_cons] at *; omega)
        (by
          have := skipSpace_length_le rest
          have := skipSpace_length_le rest'
          simp only [h, List.length_cons] at *; omega)
    | _ => .failed .malformed rest (Nat.le_refl _)).weaken
termination_by 2 * cs.length + 1
decreasing_by
  · omega
  · have := skipSpace_length_le rest
    have := skipSpace_length_le rest'
    simp only [h, List.length_cons] at *; omega

/-- The members of an object, one at least, up to the closing brace. -/
def members (limit : Option Nat) (cs : List Char) : Read (List (String × Json)) 1 cs.length :=
  match cs with
  | '"' :: cs =>
    ((quotedText cs).andThen fun key rest used =>
      match hc : skipSpace rest with
      | ':' :: rest₁ =>
        ((value limit (skipSpace rest₁)).andThen fun j rest₂ used₂ =>
          match h : skipSpace rest₂ with
          | '\x7d' :: rest' => (.done [(key, j)] rest' (by
              have := skipSpace_length_le rest₂
              simp only [h, List.length_cons] at this; omega) :
              Read (List (String × Json)) 0 rest₂.length)
          | ',' :: rest' => ((members limit (skipSpace rest')).map ((key, j) :: ·)).widen
              (by
                have := skipSpace_length_le rest₂
                have := skipSpace_length_le rest'
                simp only [h, List.length_cons] at *; omega)
              (by
                have := skipSpace_length_le rest₂
                have := skipSpace_length_le rest'
                simp only [h, List.length_cons] at *; omega)
          | _ => .failed .malformed rest₂ (Nat.le_refl _)).widen
          (by
            have := skipSpace_length_le rest
            have := skipSpace_length_le rest₁
            simp only [hc, List.length_cons] at *; omega)
          (by
            have := skipSpace_length_le rest
            have := skipSpace_length_le rest₁
            simp only [hc, List.length_cons] at *; omega)
      | _ => (.failed .malformed rest (Nat.le_refl _) :
          Read (List (String × Json)) 0 rest.length)).widen
      (by simp only [List.length_cons]; omega) (by simp only [List.length_cons]; omega)
  | cs => .failed .malformed cs (Nat.le_refl _)
termination_by 2 * cs.length + 1
decreasing_by
  · have := skipSpace_length_le rest
    have := skipSpace_length_le rest₁
    simp only [hc, List.length_cons] at *; omega
  · have := skipSpace_length_le rest
    have := skipSpace_length_le rest₁
    have := skipSpace_length_le rest₂
    have := skipSpace_length_le rest'
    simp only [hc, h, List.length_cons] at *; omega

end

/-- The value that a text writes. Integers of more than `limit` digits are refused. -/
def ofText (limit : Option Nat) (text : String) : Except ReadFault Json :=
  match (value limit (skipSpace text.toList)).outcome with
  | (.ok j, rest) => if (skipSpace rest).isEmpty then .ok j else .error .malformed
  | (.error e, _) => .error e

end BlockScript.Json
