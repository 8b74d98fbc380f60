import BlockScript.Java.Escape
import BlockScript.Proofs.Decimal.Text
import BlockScript.Proofs.Java.Reading
import BlockScript.Proofs.Token.Shape
/-!
# The lexemes of an expression of Java

A text falls into names, numbers, quoted literals, operators and marks. A minus sign directly
before a digit belongs to the number. The lexemes of texts that are put one after another are put
one after another, if no name or number goes on where the texts meet.
-/
namespace BlockScript.Java

open Text

def fractionTail : List Char → List Char
  | '.' :: ds => '.' :: ds.takeWhile isAsciiDigit
  | _ => []

def exponentTail : List Char → List Char
  | c :: s :: ds =>
    if c == 'e' || c == 'E' then
      if s == '+' || s == '-' then c :: s :: ds.takeWhile isAsciiDigit
      else c :: (s :: ds).takeWhile isAsciiDigit
    else []
  | _ => []

/-- What belongs to a number: digits, places behind a point and an exponent. -/
def numeralTail (cs : List Char) : List Char :=
  let whole := cs.takeWhile isAsciiDigit
  let fraction := fractionTail (cs.drop whole.length)
  whole ++ fraction ++ exponentTail (cs.drop (whole.length + fraction.length))

/-- What belongs to a literal after its opening quote: characters on one line, of which those
behind a backslash do not end it, and the closing quote. -/
def quotedTail? (quote : Char) : List Char → Option (List Char)
  | [] => none
  | '\\' :: c :: cs => (quotedTail? quote cs).map ('\\' :: c :: ·)
  | c :: cs =>
    if c == quote then some [c]
    else if c == '\n' || c == '\r' then none
    else (quotedTail? quote cs).map (c :: ·)

def marks : List (Char × Lexeme) :=
  [('(', .opening), (')', .closing), (',', .comma), ('.', .dot)]

def wordOf (c : Char) (tail : List Char) : Lexeme × Nat :=
  (.word (String.ofList (c :: tail)), tail.length)

/-- The lexeme that begins with `c`, and how many of the characters `cs` after that belong to it. -/
def lexeme? (c : Char) (cs : List Char) : Option (Lexeme × Nat) :=
  if isNameStart c then some (wordOf c (cs.takeWhile isNamePart))
  else if isAsciiDigit c || c == '-' && cs.head?.any isAsciiDigit then
    some (wordOf c (numeralTail cs))
  else if c == '\'' || c == '"' then (quotedTail? c cs).map (wordOf c)
  else
    match marks.lookup c with
    | some mark => some (mark, 0)
    | none =>
      (levels.flatten.find? fun o => o.toList.isPrefixOf (c :: cs)).map fun o =>
        (.operator o, o.length - 1)

def lexemes? : List Char → Option (List Lexeme)
  | [] => some []
  | c :: cs =>
    if isLayout c then lexemes? cs
    else
      match lexeme? c cs with
      | none => none
      | some (t, used) => (lexemes? (cs.drop used)).map (t :: ·)
termination_by cs => cs.length
decreasing_by all_goals simp only [List.length_cons, List.length_drop]; omega

def readExpression? (s : String) : Option Expression := (lexemes? s.toList).bind read?

/-- What follows a name or a number does not go on with it. -/
def Stops (rest : List Char) : Prop := ∀ c ∈ rest.head?, isNamePart c = false ∧ c ≠ '.'

theorem stops_cons {c : Char} {rest : List Char} (hpart : isNamePart c = false) (hdot : c ≠ '.') :
    Stops (c :: rest) := by
  intro d hd
  cases hd
  exact ⟨hpart, hdot⟩

/-- The characters have these lexemes wherever no name or number goes on behind them. -/
def Scans (cs : List Char) (ts : List Lexeme) : Prop :=
  ∀ rest, Stops rest → lexemes? (cs ++ rest) = (lexemes? rest).map (ts ++ ·)

section Steps

variable {c : Char} {cs rest : List Char} {t : Lexeme} {used : Nat}

theorem lexemes?_cons (hlayout : isLayout c = false) (h : lexeme? c cs = some (t, used)) :
    lexemes? (c :: cs) = (lexemes? (cs.drop used)).map (t :: ·) := by
  rw [lexemes?, if_neg (by simp [hlayout]), h]

theorem lexemes?_word {tail : List Char} (hlayout : isLayout c = false)
    (h : lexeme? c (tail ++ rest) = some (wordOf c tail)) :
    lexemes? (c :: (tail ++ rest)) =
      (lexemes? rest).map (.word (String.ofList (c :: tail)) :: ·) := by
  rw [lexemes?_cons hlayout h, List.drop_left]

/-- A lexeme that is one character. -/
theorem lexemes?_single (hlayout : isLayout c = false) (h : lexeme? c rest = some (t, 0)) :
    lexemes? (c :: rest) = (lexemes? rest).map (t :: ·) :=
  lexemes?_cons hlayout h

/-- A lexeme that is two characters. -/
theorem lexemes?_double {d : Char} (hlayout : isLayout c = false)
    (h : lexeme? c (d :: rest) = some (t, 1)) :
    lexemes? (c :: d :: rest) = (lexemes? rest).map (t :: ·) :=
  lexemes?_cons hlayout h

theorem lexemes?_space : lexemes? (' ' :: rest) = lexemes? rest := by
  rw [lexemes?, if_pos (by decide)]

theorem lexemes?_opening : lexemes? ('(' :: rest) = (lexemes? rest).map (.opening :: ·) :=
  lexemes?_single rfl rfl

theorem lexemes?_closing : lexemes? (')' :: rest) = (lexemes? rest).map (.closing :: ·) :=
  lexemes?_single rfl rfl

theorem lexemes?_comma : lexemes? (',' :: rest) = (lexemes? rest).map (.comma :: ·) :=
  lexemes?_single rfl rfl

theorem lexemes?_dot : lexemes? ('.' :: rest) = (lexemes? rest).map (.dot :: ·) :=
  lexemes?_single rfl rfl

/-- An operator with a blank behind it. -/
theorem lexemes?_operator {o : String} (h : o ∈ levels.flatten) :
    lexemes? (o.toList ++ ' ' :: rest) = (lexemes? rest).map (.operator o :: ·) := by
  have hall : (o = "||" ∨ o = "&&" ∨ o = "==" ∨ o = "!=" ∨ o = "<=" ∨ o = ">=") ∨
      o = "<" ∨ o = ">" ∨ o = "+" ∨ o = "-" ∨ o = "*" ∨ o = "/" := by
    simpa [levels, or_assoc] using h
  have hblank : lexemes? (' ' :: rest) = lexemes? rest := lexemes?_space
  rw [← hblank]
  rcases hall with (rfl | rfl | rfl | rfl | rfl | rfl) | rfl | rfl | rfl | rfl | rfl | rfl
  all_goals first | exact lexemes?_double rfl rfl | exact lexemes?_single rfl rfl

/-- A character that begins a word is no layout. -/
theorem isLayout_eq_false (h : isNameStart c = true ∨ isAsciiDigit c = true ∨ c = '-' ∨ c = '\'' ∨
    c = '"') : isLayout c = false := by
  rw [Bool.eq_false_iff]
  intro hlayout
  simp only [isLayout, Bool.or_eq_true, beq_iff_eq] at hlayout
  rcases hlayout with (((rfl | rfl) | rfl) | rfl) | rfl <;> revert h <;> decide

end Steps

section Words

variable {c : Char} {cs tail rest : List Char}

theorem scans_name (hc : isNameStart c = true) (htail : ∀ d ∈ tail, isNamePart d = true)
    (hstop : ∀ d ∈ rest.head?, isNamePart d = false) :
    lexemes? (c :: (tail ++ rest)) =
      (lexemes? rest).map (.word (String.ofList (c :: tail)) :: ·) := by
  refine lexemes?_word (isLayout_eq_false (.inl hc)) ?_
  rw [lexeme?, if_pos hc, takeWhile_append_of_stop htail hstop]

def IsFraction (cs : List Char) : Prop :=
  cs = [] ∨ ∃ ds, cs = '.' :: ds ∧ ∀ d ∈ ds, isAsciiDigit d = true

def IsExponent (cs : List Char) : Prop :=
  cs = [] ∨ ∃ s ds, cs = 'E' :: s :: ds ∧ (s = '+' ∨ s = '-') ∧ ∀ d ∈ ds, isAsciiDigit d = true

theorem Stops.digit (h : Stops rest) : ∀ c ∈ rest.head?, isAsciiDigit c = false := by
  intro c hc
  have hpart := (h c hc).1
  simp only [isNamePart, Bool.or_eq_false_iff] at hpart
  exact hpart.2

theorem exponentTail_append {x : List Char} (hx : IsExponent x) (h : Stops rest) :
    exponentTail (x ++ rest) = x := by
  obtain rfl | ⟨s, ds, rfl, hs, hds⟩ := hx
  · rw [List.nil_append]
    unfold exponentTail
    split
    · next c s ds =>
      have hpart := (h c rfl).1
      rw [if_neg]
      intro he
      simp only [Bool.or_eq_true, beq_iff_eq] at he
      rcases he with rfl | rfl <;> revert hpart <;> decide
    · rfl
  · have htake := takeWhile_append_of_stop hds h.digit
    obtain rfl | rfl := hs <;> simp [exponentTail, htake]

theorem fractionTail_append {f : List Char} (hf : IsFraction f)
    (hstop : ∀ c ∈ rest.head?, isAsciiDigit c = false ∧ c ≠ '.') :
    fractionTail (f ++ rest) = f := by
  obtain rfl | ⟨ds, rfl, hds⟩ := hf
  · rw [List.nil_append]
    unfold fractionTail
    split
    · exact absurd rfl (hstop '.' rfl).2
    · rfl
  · rw [List.cons_append, fractionTail,
      takeWhile_append_of_stop hds fun c hc => (hstop c hc).1]

theorem IsExponent.stops {x : List Char} (hx : IsExponent x) (h : Stops rest) :
    ∀ c ∈ (x ++ rest).head?, isAsciiDigit c = false ∧ c ≠ '.' := by
  obtain rfl | ⟨s, ds, rfl, -, -⟩ := hx
  · exact fun c hc => ⟨h.digit c hc, (h c hc).2⟩
  · simp
    decide

theorem numeralTail_append {w f x : List Char} (hw : ∀ d ∈ w, isAsciiDigit d = true)
    (hf : IsFraction f) (hx : IsExponent x) (h : Stops rest) :
    numeralTail (w ++ f ++ x ++ rest) = w ++ f ++ x := by
  have hbehind : ∀ c ∈ (f ++ (x ++ rest)).head?, isAsciiDigit c = false := by
    obtain rfl | ⟨ds, rfl, -⟩ := hf
    · exact fun c hc => (hx.stops h c hc).1
    · simp
      decide
  have hwhole : (w ++ f ++ x ++ rest).takeWhile isAsciiDigit = w := by
    simpa using takeWhile_append_of_stop hw hbehind
  have hfraction : fractionTail ((w ++ f ++ x ++ rest).drop w.length) = f := by
    simpa using fractionTail_append hf (hx.stops h)
  have hexponent : exponentTail ((w ++ f ++ x ++ rest).drop (w.length + f.length)) = x := by
    rw [← List.length_append, List.append_assoc, List.drop_left]
    exact exponentTail_append hx h
  simp only [numeralTail, hwhole, hfraction, hexponent]

/-- Digits with places behind a point and an exponent, perhaps behind a minus sign. -/
theorem scans_number {w f x : List Char} (negative : Bool)
    (hw : ∀ d ∈ w, isAsciiDigit d = true) (hne : w ≠ []) (hf : IsFraction f)
    (hx : IsExponent x) :
    Scans ((if negative then ['-'] else []) ++ (w ++ f ++ x))
      [.word (String.ofList ((if negative then ['-'] else []) ++ (w ++ f ++ x)))] := by
  intro rest h
  obtain ⟨c, w, rfl⟩ := List.exists_cons_of_ne_nil hne
  obtain ⟨hc, hw⟩ := List.forall_mem_cons.mp hw
  cases negative with
  | true =>
    have hlexeme : lexeme? '-' (c :: w ++ f ++ x ++ rest) =
        some (wordOf '-' (c :: w ++ f ++ x)) := by
      rw [lexeme?, if_neg (by decide), if_pos (by simp [hc]),
        numeralTail_append (List.forall_mem_cons.mpr ⟨hc, hw⟩) hf hx h]
    exact lexemes?_word (isLayout_eq_false (by simp)) hlexeme
  | false =>
    have hlexeme : lexeme? c (w ++ f ++ x ++ rest) = some (wordOf c (w ++ f ++ x)) := by
      rw [lexeme?, if_neg (by simp [isNameStart_of_digit hc]), if_pos (by simp [hc]),
        numeralTail_append hw hf hx h]
    exact lexemes?_word (isLayout_eq_false (.inr (.inl hc))) hlexeme

/-- A character between quotes stands for itself or has a backslash before it. -/
theorem escapeChar_cases (c : Char) :
    (∃ d, escapeChar c = ['\\', d]) ∨
      escapeChar c = [c] ∧ c ≠ '\\' ∧ c ≠ '\'' ∧ c ≠ '"' ∧ c ≠ '\n' ∧ c ≠ '\r' := by
  unfold escapeChar
  split
  all_goals first
    | exact .inl ⟨_, rfl⟩
    | exact .inr ⟨rfl, by assumption, by assumption, by assumption, by assumption, by assumption⟩

theorem quotedTail?_escapeChars {quote : Char} (hquote : quote = '\'' ∨ quote = '"')
    (cs rest : List Char) :
    quotedTail? quote (escapeChars cs ++ quote :: rest) = some (escapeChars cs ++ [quote]) := by
  induction cs with
  | nil => obtain rfl | rfl := hquote <;> simp [escapeChars, quotedTail?]
  | cons c cs ih =>
    rw [escapeChars, List.flatMap_cons, ← escapeChars, List.append_assoc]
    obtain ⟨d, hd⟩ | ⟨hself, hslash, hsingle, hdouble, hline, hreturn⟩ := escapeChar_cases c
    · simp [hd, quotedTail?, ih]
    · have hne : c ≠ quote := by obtain rfl | rfl := hquote <;> assumption
      simp [hself, quotedTail?, hslash, hne, hline, hreturn, ih]

theorem scans_quoted {quote : Char} (hquote : quote = '\'' ∨ quote = '"') (s : String) :
    Scans (quoted quote s).toList [.word (quoted quote s)] := by
  intro rest _
  have hlayout : isLayout quote = false :=
    isLayout_eq_false (by obtain rfl | rfl := hquote <;> simp)
  have htail := quotedTail?_escapeChars hquote s.toList rest
  have hlexeme : lexeme? quote (escapeChars s.toList ++ [quote] ++ rest) =
      some (wordOf quote (escapeChars s.toList ++ [quote])) := by
    rw [List.append_assoc, List.singleton_append, lexeme?, if_neg ?_, if_neg ?_, if_pos ?_, htail]
    · rfl
    all_goals obtain rfl | rfl := hquote <;> simp <;> decide
  rw [quoted, String.toList_ofList]
  exact lexemes?_word hlayout hlexeme

end Words

end BlockScript.Java
