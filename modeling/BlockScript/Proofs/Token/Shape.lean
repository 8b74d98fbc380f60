import BlockScript.Text.Numeral
import BlockScript.Token.Scan
import Mathlib.Data.List.TakeWhile
/-!
# The shape of tokens

The text of a scanned token has the shape of its kind: a name begins with a letter, a number has
digits behind an optional sign, quotes enclose what they quote, and an operator begins with none of
these. Hence a word of the language is a name by its kind, and a sign an operator.
-/
namespace BlockScript

open Text

section Classes

variable {c : Char}

theorem isNameStart_of_digit (h : isAsciiDigit c = true) : isNameStart c = false := by
  simp only [isAsciiDigit, Bool.and_eq_true, decide_eq_true_eq] at h
  have hhigh : c.toNat ≤ 57 := h.2
  have hsmall : ¬( 'a' ≤ c) := fun hle =>
    Nat.not_le.mpr (by decide : 57 < 97) (Nat.le_trans hle hhigh)
  have hlarge : ¬( 'A' ≤ c) := fun hle =>
    Nat.not_le.mpr (by decide : 57 < 65) (Nat.le_trans hle hhigh)
  have hscore : c ≠ '_' := by
    rintro rfl
    exact absurd hhigh (by decide)
  simp [isNameStart, isLetter, hsmall, hlarge, hscore]

/-- No token but a quoted one goes on with layout. -/
theorem not_layout {p : Char → Bool} (h : [' ', '\t', '\n', '\x0C', '\r'].any p = false)
    (hc : isLayout c = true) : p c = false := by
  have hmem : c ∈ [' ', '\t', '\n', '\x0C', '\r'] := by simpa [isLayout, or_assoc] using hc
  simpa using List.any_eq_false.mp h c hmem

theorem isAsciiDigit_of_isLayout (hc : isLayout c = true) : isAsciiDigit c = false :=
  not_layout (by decide) hc

theorem isNamePart_of_isLayout (hc : isLayout c = true) : isNamePart c = false :=
  not_layout (by decide) hc

/-- What stands for itself between quotes is no quote of that kind, and no backslash. -/
theorem ne_of_isPlain {quote : Char} (h : isPlain quote c = true) : c ≠ quote ∧ c ≠ '\\' := by
  simp only [isPlain, Bool.and_eq_true, bne_iff_ne] at h
  exact ⟨h.1.1.1, h.1.1.2⟩

end Classes

/-- Whether the characters are a text of the kind, without the sign of a number. -/
def TokenKind.fits : TokenKind → List Char → Bool
  | .identifier, c :: cs => isNameStart c && cs.all isNamePart
  | .integer, cs => !cs.isEmpty && cs.all isAsciiDigit
  | .decimal, cs =>
    match cs.dropWhile isAsciiDigit with
    | '.' :: fs => !(cs.takeWhile isAsciiDigit).isEmpty && !fs.isEmpty && fs.all isAsciiDigit
    | _ => false
  | .character, '\'' :: cs => characterTail? cs == some cs
  | .string, '"' :: cs => stringTail? cs == some cs
  | .operator, c :: cs =>
    !isNameStart c && !isAsciiDigit c && c != '\'' && c != '"' && !isBlank c &&
      operatorTail c cs == cs
  | _, _ => false

def Token.Shaped (t : Token) : Prop :=
  t.kind.fits (if t.isNumber then (splitSign t.literal.toList).2 else t.literal.toList) = true

/-- What is taken of characters that all fit, when the next one does not. -/
theorem takeWhile_append_of_stop {p : Char → Bool} {cs rest : List Char}
    (h : ∀ c ∈ cs, p c = true) (hstop : ∀ c ∈ rest.head?, p c = false) :
    (cs ++ rest).takeWhile p = cs := by
  rw [List.takeWhile_append_of_pos h]
  cases rest with
  | nil => simp
  | cons c rest => rw [List.takeWhile_cons_of_neg (by simp [hstop c rfl]), List.append_nil]

theorem fits_numberTail {c : Char} {cs : List Char} (hc : isAsciiDigit c = true) :
    (numberTail cs).1.fits (c :: (numberTail cs).2) = true := by
  have hwhole : ∀ d ∈ cs.takeWhile isAsciiDigit, isAsciiDigit d = true :=
    fun _ hd => List.mem_takeWhile_imp hd
  unfold numberTail
  dsimp only
  split
  · next d rest hcs =>
    split
    · next hd =>
      have hdrop : (c :: (cs.takeWhile isAsciiDigit ++ '.' :: d :: rest.takeWhile isAsciiDigit)
          ).dropWhile isAsciiDigit = '.' :: d :: rest.takeWhile isAsciiDigit := by
        rw [List.dropWhile_cons_of_pos hc, List.dropWhile_append_of_pos hwhole,
          List.dropWhile_cons_of_neg (by decide)]
      simp only [TokenKind.fits, hdrop, List.takeWhile_cons_of_pos hc]
      simp [hd]
    · simp [TokenKind.fits, hc]
  · simp [TokenKind.fits, hc]

/-- A character ends with its closing quote, whatever stands behind it. -/
theorem characterTail?_append {cs tail : List Char} (h : characterTail? cs = some tail)
    (rest : List Char) : characterTail? (tail ++ rest) = some tail := by
  unfold characterTail? at h
  split at h
  · cases h
    rfl
  · split at h
    · cases h
    · next hc =>
      cases h
      simp [characterTail?, hc]
  · next c _ hcs _ =>
    split at h
    · next hc =>
      cases h
      have hback : c ≠ '\\' := by
        rintro rfl
        exact absurd hc (by decide)
      simp [characterTail?, hback, hc]
    · cases h
  · cases h

/-- A string ends with its closing quote, whatever stands behind it. -/
theorem stringTail?_append {cs tail : List Char} (h : stringTail? cs = some tail)
    (rest : List Char) : stringTail? (tail ++ rest) = some tail := by
  induction cs using stringTail?.induct generalizing tail with
  | case1 => simp [stringTail?] at h
  | case2 cs =>
    simp only [stringTail?, Option.some.injEq] at h
    subst h
    rfl
  | case3 c cs hc => simp [stringTail?, hc] at h
  | case4 c cs hc ih =>
    simp only [stringTail?, hc, Bool.false_eq_true, if_false, Option.map_eq_some_iff] at h
    obtain ⟨inner, hinner, rfl⟩ := h
    simp [stringTail?, hc, ih hinner]
  | case5 c cs hquote hescape hc ih =>
    rw [stringTail?.eq_4 _ _ hquote hescape, if_pos hc, Option.map_eq_some_iff] at h
    obtain ⟨inner, hinner, rfl⟩ := h
    have hback : c ≠ '\\' := by
      rintro rfl
      exact absurd hc (by decide)
    have hq : c ≠ '"' := by
      rintro rfl
      exact absurd hc (by decide)
    rw [List.cons_append, stringTail?.eq_4 _ _ (by simpa using hq) (by simp [hback]), if_pos hc,
      ih hinner]
    rfl
  | case6 c cs hquote hescape hc =>
    rw [stringTail?.eq_4 _ _ hquote hescape, if_neg hc] at h
    cases h

theorem operatorTail_tail (c : Char) (cs : List Char) :
    operatorTail c (operatorTail c cs) = operatorTail c cs := by
  cases cs with
  | nil => rfl
  | cons d cs =>
    by_cases hequals : ((c == '<' || c == '>' || c == '!' || c == '=') && d == '=') = true
    · simp only [operatorTail, hequals, if_true]
    by_cases htwice : ((c == '&' || c == '|') && d == c) = true
    · simp only [operatorTail, hequals, htwice, Bool.false_eq_true, if_true, if_false]
    · simp only [operatorTail, hequals, htwice, Bool.false_eq_true, if_false]

theorem fits_of_tokenTail? {c : Char} {cs tail : List Char} {kind : TokenKind}
    (h : tokenTail? c cs = some (kind, tail)) : kind.fits (c :: tail) = true := by
  unfold tokenTail? at h
  split at h
  · next hc =>
    obtain ⟨rfl, rfl⟩ := Prod.mk.inj (Option.some.inj h)
    simp [TokenKind.fits, hc]
  split at h
  · next hc =>
    have hfits : (numberTail cs).1.fits (c :: (numberTail cs).2) = true := fits_numberTail hc
    rw [Option.some.inj h] at hfits
    exact hfits
  split at h
  · next hc =>
    obtain ⟨inner, hinner, heq⟩ := Option.map_eq_some_iff.mp h
    obtain ⟨rfl, rfl⟩ := Prod.mk.inj heq
    obtain rfl : c = '\'' := by simpa using hc
    have htail : characterTail? inner = some inner := by simpa using characterTail?_append hinner []
    simp [TokenKind.fits, htail]
  split at h
  · next hc =>
    obtain ⟨inner, hinner, heq⟩ := Option.map_eq_some_iff.mp h
    obtain ⟨rfl, rfl⟩ := Prod.mk.inj heq
    obtain rfl : c = '"' := by simpa using hc
    have htail : stringTail? inner = some inner := by simpa using stringTail?_append hinner []
    simp [TokenKind.fits, htail]
  split at h
  · cases h
  · obtain ⟨rfl, rfl⟩ := Prod.mk.inj (Option.some.inj h)
    simp_all [TokenKind.fits, operatorTail_tail]

theorem splitSign_of_digit {c : Char} {cs : List Char} (hc : isAsciiDigit c = true) :
    splitSign (c :: cs) = (false, c :: cs) := by
  unfold splitSign
  split
  · next heq =>
    cases heq
    exact absurd hc (by decide)
  · next heq =>
    cases heq
    exact absurd hc (by decide)
  · rfl

/-- The numbers are what begins with a digit. -/
theorem isNumber_iff_of_fits {kind : TokenKind} {c : Char} {cs : List Char}
    (h : kind.fits (c :: cs) = true) :
    (kind = .integer ∨ kind = .decimal) ↔ isAsciiDigit c = true := by
  by_cases hc : isAsciiDigit c = true
  · have hstart : isNameStart c = false := isNameStart_of_digit hc
    have hsingle : c ≠ '\'' := by
      rintro rfl
      exact absurd hc (by decide)
    have hdouble : c ≠ '"' := by
      rintro rfl
      exact absurd hc (by decide)
    cases kind <;> simp_all [TokenKind.fits]
  · cases kind with
    | integer => simp [TokenKind.fits, hc] at h
    | decimal =>
      simp only [TokenKind.fits, List.dropWhile_cons_of_neg hc, List.takeWhile_cons_of_neg hc] at h
      split at h <;> simp_all
    | _ => simp [hc]

/-- A number without a sign begins with a digit. -/
theorem splitSign_of_fits {kind : TokenKind} {cs : List Char} (h : kind.fits cs = true)
    (hk : kind = .integer ∨ kind = .decimal) : (splitSign cs).2 = cs := by
  cases cs with
  | nil => rfl
  | cons c cs => rw [splitSign_of_digit ((isNumber_iff_of_fits h).mp hk)]

/-- What is scanned before signs are folded has its shape, and no sign. -/
theorem fits_of_scanFrom {index : Nat} {cs : List Char} {ts : List Token}
    (h : scanFrom index cs = .ok ts) : ∀ t ∈ ts, t.kind.fits t.literal.toList = true := by
  induction index, cs using scanFrom.induct generalizing ts with
  | case1 =>
    rw [scanFrom] at h
    cases h
    simp
  | case2 index c cs hc ih =>
    rw [scanFrom, if_pos hc] at h
    exact ih h
  | case3 index c cs hc htail =>
    simp [scanFrom, hc, htail] at h
  | case4 index c cs hc kind tail htail tokens htokens ih =>
    simp only [scanFrom, hc, htail, htokens, Bool.false_eq_true, if_false] at h
    cases h
    simp only [List.mem_cons, forall_eq_or_imp, String.toList_ofList]
    exact ⟨fits_of_tokenTail? htail, ih htokens⟩
  | case5 index c cs hc kind tail htail e he ih =>
    simp [scanFrom, hc, htail, he] at h

theorem shaped_of_fits {t : Token} (h : t.kind.fits t.literal.toList = true) : t.Shaped := by
  unfold Token.Shaped
  split
  · next hn =>
    rw [splitSign_of_fits h (by simpa [Token.isNumber] using hn)]
    exact h
  · exact h

theorem shaped_signed {last : Option Token} {sign number : Token}
    (hf : sign.foldsInto last number = true) (h : number.kind.fits number.literal.toList = true) :
    (sign.signed number).Shaped := by
  simp only [Token.foldsInto, Bool.and_eq_true, Token.isSign, Bool.or_eq_true, beq_iff_eq] at hf
  obtain ⟨⟨⟨⟨-, hsign⟩, hnumber⟩, -⟩, -⟩ := hf
  have hn : (sign.signed number).isNumber = true := hnumber
  rw [Token.Shaped, if_pos hn]
  obtain hs | hs := hsign <;> simpa [Token.signed, hs, splitSign] using h

theorem shaped_foldSignsAfter {last : Option Token} {ts : List Token}
    (h : ∀ t ∈ ts, t.kind.fits t.literal.toList = true) :
    ∀ t ∈ foldSignsAfter last ts, t.Shaped := by
  induction last, ts using foldSignsAfter.induct with
  | case1 => simp [foldSignsAfter]
  | case2 last t => simpa [foldSignsAfter] using shaped_of_fits (h t (by simp))
  | case3 last t n rest hf ih =>
    rw [foldSignsAfter, if_pos hf]
    simp only [List.mem_cons, forall_eq_or_imp] at h ⊢
    exact ⟨shaped_signed hf h.2.1, ih h.2.2⟩
  | case4 last t n rest hf ih =>
    rw [foldSignsAfter, if_neg hf]
    simp only [List.mem_cons, forall_eq_or_imp] at h ih ⊢
    exact ⟨shaped_of_fits h.1, ih h.2⟩

/-- Every token of a text has the shape of its kind. -/
theorem shaped_of_scan {text : String} {ts : List Token} (h : scan text = .ok ts) :
    ∀ t ∈ ts, t.Shaped := by
  unfold scan at h
  cases hs : scanFrom 0 text.toList with
  | error e =>
    rw [hs] at h
    cases h
  | ok raw =>
    rw [hs] at h
    cases h
    exact shaped_foldSignsAfter (fits_of_scanFrom hs)

def punctuation : List String := [":", "=", ";", "(", ")", ",", "."]

def reserved : List String := keywords ++ ["NIL", "TRUE", "FALSE"]

/-- A token is of a kind if its text does not have the shape of another one, with or without its
sign. -/
theorem Token.Shaped.kind_eq {t : Token} (h : t.Shaped) {kind : TokenKind}
    (hno : ∀ other : TokenKind, other = kind ∨ other.fits t.literal.toList = false ∧
      other.fits (splitSign t.literal.toList).2 = false) : t.kind = kind := by
  refine (hno t.kind).resolve_right fun ⟨hwhole, hunsigned⟩ => ?_
  unfold Token.Shaped at h
  split at h
  · simp [hunsigned] at h
  · simp [hwhole] at h

theorem Token.Shaped.kind_of_punctuation {t : Token} (h : t.Shaped) (ht : t.literal ∈ punctuation) :
    t.kind = .operator := by
  have hall : ∀ s ∈ punctuation, ∀ kind ∈ [TokenKind.identifier, .integer, .decimal, .character,
      .string, .operator], kind = .operator ∨ kind.fits s.toList = false ∧
        kind.fits (splitSign s.toList).2 = false := by
    decide
  exact h.kind_eq fun other => hall t.literal ht other (by cases other <;> decide)

theorem Token.Shaped.kind_of_reserved {t : Token} (h : t.Shaped) (ht : t.literal ∈ reserved) :
    t.kind = .identifier := by
  have hall : ∀ s ∈ reserved, ∀ kind ∈ [TokenKind.identifier, .integer, .decimal, .character,
      .string, .operator], kind = .identifier ∨ kind.fits s.toList = false ∧
        kind.fits (splitSign s.toList).2 = false := by
    decide
  exact h.kind_eq fun other => hall t.literal ht other (by cases other <;> decide)

end BlockScript
