import BlockScript.Proofs.Token.Shape
import Mathlib.Computability.Language
/-!
# The patterns of tokens

The texts of each kind of token as a regular language: classes of characters, one after another,
one or the other, and repeated. A number may have a sign in front. Every token that is scanned has
a text of the language of its kind.
-/
namespace BlockScript

open Text
open scoped Computability

def oneOf (p : Char → Bool) : Language Char := {cs | ∃ c, p c = true ∧ cs = [c]}

/-- A character between quotes: one that stands for itself, or any but a line feed behind a
backslash. -/
def quotedItem (quote : Char) : Language Char :=
  oneOf (isPlain quote) + oneOf (· == '\\') * oneOf (· != '\n')

/-- A character that is an operator by itself: no white space, no part of a name and no quote. -/
def isOperatorChar (c : Char) : Bool := !isBlank c && !isNamePart c && c != '\'' && c != '"'

/-- The texts of a kind of token, numbers without a sign. -/
def TokenKind.pattern : TokenKind → Language Char
  | .identifier => oneOf isNameStart * (oneOf isNamePart)∗
  | .integer => oneOf isAsciiDigit * (oneOf isAsciiDigit)∗
  | .decimal => oneOf isAsciiDigit * (oneOf isAsciiDigit)∗ *
      (oneOf (· == '.') * (oneOf isAsciiDigit * (oneOf isAsciiDigit)∗))
  | .character => oneOf (· == '\'') * ((1 + quotedItem '\'') * oneOf (· == '\''))
  | .string => oneOf (· == '"') * ((quotedItem '"')∗ * oneOf (· == '"'))
  | .operator =>
      oneOf (fun c => c == '<' || c == '>' || c == '!' || c == '=') * (1 + oneOf (· == '=')) +
        oneOf (· == '&') * oneOf (· == '&') + oneOf (· == '|') * oneOf (· == '|') +
        oneOf isOperatorChar

def Token.pattern (t : Token) : Language Char :=
  if t.isNumber then (1 + oneOf fun c => c == '+' || c == '-') * t.kind.pattern else t.kind.pattern

section Membership

variable {p : Char → Bool} {c : Char} {cs : List Char} {L : Language Char}

theorem singleton_mem_oneOf (h : p c = true) : [c] ∈ oneOf p := ⟨c, h, rfl⟩

theorem cons_mem_mul (h : p c = true) (hcs : cs ∈ L) : c :: cs ∈ oneOf p * L :=
  Language.mem_mul.mpr ⟨[c], singleton_mem_oneOf h, cs, hcs, rfl⟩

theorem mem_kstar_oneOf (h : ∀ c ∈ cs, p c = true) : cs ∈ (oneOf p)∗ := by
  have hflat : (cs.map fun c => [c]).flatten = cs := List.flatMap_singleton' cs
  refine Language.mem_kstar.mpr ⟨cs.map fun c => [c], hflat.symm, fun y hy => ?_⟩
  obtain ⟨c, hc, rfl⟩ := List.mem_map.mp hy
  exact singleton_mem_oneOf (h c hc)

/-- One more member of a repetition in front. -/
theorem append_mem_kstar_mul {ds : List Char} {M : Language Char} (hcs : cs ∈ L)
    (hds : ds ∈ L∗ * M) : cs ++ ds ∈ L∗ * M := by
  obtain ⟨a, ha, b, hb, rfl⟩ := Language.mem_mul.mp hds
  obtain ⟨parts, rfl, hparts⟩ := Language.mem_kstar.mp ha
  have hall : cs ++ parts.flatten ∈ L∗ :=
    Language.mem_kstar.mpr ⟨cs :: parts, rfl, List.forall_mem_cons.mpr ⟨hcs, hparts⟩⟩
  exact Language.mem_mul.mpr ⟨_, hall, b, hb, List.append_assoc ..⟩

end Membership

theorem mem_pattern_of_characterTail? {cs : List Char} (h : characterTail? cs = some cs) :
    cs ∈ (1 + quotedItem '\'') * oneOf (· == '\'') := by
  have hquote : ['\''] ∈ oneOf (· == '\'') := singleton_mem_oneOf (by decide)
  unfold characterTail? at h
  split at h
  · cases h
    exact Language.mem_mul.mpr ⟨[], .inl rfl, ['\''], hquote, rfl⟩
  · next c _ =>
    split at h
    · cases h
    · next hc =>
      cases h
      have hitem : ['\\', c] ∈ quotedItem '\'' :=
        .inr (cons_mem_mul (by decide) (singleton_mem_oneOf (by simpa using hc)))
      exact Language.mem_mul.mpr ⟨['\\', c], .inr hitem, ['\''], hquote, rfl⟩
  · next c _ _ _ =>
    split at h
    · next hc =>
      cases h
      have hitem : [c] ∈ quotedItem '\'' := .inl (singleton_mem_oneOf hc)
      exact Language.mem_mul.mpr ⟨[c], .inr hitem, ['\''], hquote, rfl⟩
    · cases h
  · cases h

theorem mem_pattern_of_stringTail? {cs tail : List Char} (h : stringTail? cs = some tail) :
    tail ∈ (quotedItem '"')∗ * oneOf (· == '"') := by
  induction cs using stringTail?.induct generalizing tail with
  | case1 => simp [stringTail?] at h
  | case2 cs =>
    simp only [stringTail?, Option.some.injEq] at h
    subst h
    exact Language.mem_mul.mpr ⟨[], Language.nil_mem_kstar _, _, singleton_mem_oneOf (by decide), rfl⟩
  | case3 c cs hc => simp [stringTail?, hc] at h
  | case4 c cs hc ih =>
    simp only [stringTail?, hc, Bool.false_eq_true, if_false, Option.map_eq_some_iff] at h
    obtain ⟨inner, hinner, rfl⟩ := h
    have hitem : ['\\', c] ∈ quotedItem '"' :=
      .inr (cons_mem_mul (by decide) (singleton_mem_oneOf (by simpa using hc)))
    exact append_mem_kstar_mul hitem (ih hinner)
  | case5 c cs hquote hescape hc ih =>
    rw [stringTail?.eq_4 _ _ hquote hescape, if_pos hc, Option.map_eq_some_iff] at h
    obtain ⟨inner, hinner, rfl⟩ := h
    have hitem : [c] ∈ quotedItem '"' := .inl (singleton_mem_oneOf hc)
    exact append_mem_kstar_mul hitem (ih hinner)
  | case6 c cs hquote hescape hc =>
    rw [stringTail?.eq_4 _ _ hquote hescape, if_neg hc] at h
    cases h

/-- What an operator has behind its first character is none, an equals sign, or the same
character. -/
theorem mem_pattern_of_operatorTail {c : Char} {cs : List Char} (hc : isOperatorChar c = true)
    (h : operatorTail c cs = cs) : c :: cs ∈ TokenKind.operator.pattern := by
  cases cs with
  | nil => exact .inr (singleton_mem_oneOf hc)
  | cons d ds =>
    unfold operatorTail at h
    dsimp only at h
    split at h
    · next hequals =>
      cases h
      obtain ⟨hstart, hd⟩ := Bool.and_eq_true_iff.mp hequals
      have hend : [d] ∈ 1 + oneOf (· == '=') := .inr (singleton_mem_oneOf hd)
      exact .inl (.inl (.inl (cons_mem_mul hstart hend)))
    split at h
    · next htwice =>
      cases h
      simp only [Bool.and_eq_true, Bool.or_eq_true, beq_iff_eq] at htwice
      obtain ⟨rfl | rfl, rfl⟩ := htwice
      · exact .inl (.inl (.inr (cons_mem_mul (by decide) (singleton_mem_oneOf (by decide)))))
      · exact .inl (.inr (cons_mem_mul (by decide) (singleton_mem_oneOf (by decide))))
    · cases h

theorem mem_pattern_of_digits {cs : List Char} (hempty : cs ≠ [])
    (h : ∀ c ∈ cs, isAsciiDigit c = true) : cs ∈ oneOf isAsciiDigit * (oneOf isAsciiDigit)∗ := by
  cases cs with
  | nil => exact absurd rfl hempty
  | cons c cs =>
    obtain ⟨hc, hcs⟩ := List.forall_mem_cons.mp h
    exact cons_mem_mul hc (mem_kstar_oneOf hcs)

theorem tail_of_fits_character {cs : List Char} (h : TokenKind.character.fits cs = true) :
    ∃ tail, cs = '\'' :: tail ∧ characterTail? tail = some tail := by
  cases cs with
  | nil => simp [TokenKind.fits] at h
  | cons c cs =>
    by_cases hc : c = '\''
    · subst hc
      exact ⟨cs, rfl, by simpa [TokenKind.fits] using h⟩
    · simp [TokenKind.fits, hc] at h

theorem tail_of_fits_string {cs : List Char} (h : TokenKind.string.fits cs = true) :
    ∃ tail, cs = '"' :: tail ∧ stringTail? tail = some tail := by
  cases cs with
  | nil => simp [TokenKind.fits] at h
  | cons c cs =>
    by_cases hc : c = '"'
    · subst hc
      exact ⟨cs, rfl, by simpa [TokenKind.fits] using h⟩
    · simp [TokenKind.fits, hc] at h

/-- A text of the shape of a kind is one of its pattern. -/
theorem mem_pattern_of_fits {kind : TokenKind} {cs : List Char} (h : kind.fits cs = true) :
    cs ∈ kind.pattern := by
  cases kind with
  | identifier =>
    cases cs with
    | nil => simp [TokenKind.fits] at h
    | cons c cs =>
      simp only [TokenKind.fits, Bool.and_eq_true, List.all_eq_true] at h
      exact cons_mem_mul h.1 (mem_kstar_oneOf h.2)
  | integer =>
    simp only [TokenKind.fits, Bool.and_eq_true, List.all_eq_true] at h
    exact mem_pattern_of_digits (by simpa using h.1) h.2
  | decimal =>
    simp only [TokenKind.fits] at h
    split at h
    · next fs hfs =>
      simp only [Bool.and_eq_true, List.all_eq_true] at h
      have hwhole : cs.takeWhile isAsciiDigit ∈ oneOf isAsciiDigit * (oneOf isAsciiDigit)∗ :=
        mem_pattern_of_digits (by simpa using h.1.1) fun c hc => List.mem_takeWhile_imp hc
      have hplaces : fs ∈ oneOf isAsciiDigit * (oneOf isAsciiDigit)∗ :=
        mem_pattern_of_digits (by simpa using h.1.2) h.2
      have hsplit : cs.takeWhile isAsciiDigit ++ '.' :: fs = cs := by
        rw [← hfs, List.takeWhile_append_dropWhile]
      exact Language.mem_mul.mpr ⟨_, hwhole, _, cons_mem_mul (by decide) hplaces, hsplit⟩
    · cases h
  | character =>
    obtain ⟨tail, rfl, htail⟩ := tail_of_fits_character h
    exact cons_mem_mul (by decide) (mem_pattern_of_characterTail? htail)
  | string =>
    obtain ⟨tail, rfl, htail⟩ := tail_of_fits_string h
    exact cons_mem_mul (by decide) (mem_pattern_of_stringTail? htail)
  | operator =>
    cases cs with
    | nil => simp [TokenKind.fits] at h
    | cons c cs =>
      simp only [TokenKind.fits, Bool.and_eq_true, beq_iff_eq] at h
      obtain ⟨⟨⟨⟨⟨hstart, hdigit⟩, hsingle⟩, hdouble⟩, hblank⟩, htail⟩ := h
      refine mem_pattern_of_operatorTail ?_ htail
      simp_all [isOperatorChar, isNamePart]

/-- The sign of a number is all that its text has more than its pattern. -/
theorem mem_of_splitSign {L : Language Char} {cs : List Char} (h : (splitSign cs).2 ∈ L) :
    cs ∈ (1 + oneOf fun c => c == '+' || c == '-') * L := by
  have hsigned : ∀ {c : Char} {ds : List Char}, (c == '+' || c == '-') = true → ds ∈ L →
      c :: ds ∈ (1 + oneOf fun c => c == '+' || c == '-') * L := fun {c ds} hc hds =>
    Language.mem_mul.mpr ⟨[c], .inr (singleton_mem_oneOf hc), ds, hds, rfl⟩
  unfold splitSign at h
  split at h
  · exact hsigned (by decide) h
  · exact hsigned (by decide) h
  · exact Language.mem_mul.mpr ⟨[], .inl rfl, cs, h, rfl⟩

theorem Token.Shaped.mem_pattern {t : Token} (h : t.Shaped) : t.literal.toList ∈ t.pattern := by
  unfold Token.Shaped at h
  unfold Token.pattern
  split at h
  · next hn =>
    rw [if_pos hn]
    exact mem_of_splitSign (mem_pattern_of_fits h)
  · next hn =>
    rw [if_neg hn]
    exact mem_pattern_of_fits h

end BlockScript
