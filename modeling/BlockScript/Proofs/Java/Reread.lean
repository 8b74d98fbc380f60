import BlockScript.Proofs.Grammar.Correctness
import BlockScript.Proofs.Java.Scan
import BlockScript.Proofs.Token.Folding
import BlockScript.Proofs.Token.Rescan
import BlockScript.Proofs.Tree.Written
import Mathlib.Data.Nat.Digits.Defs
/-!
# Java literals as literals of the language

What is written for a value in Java is a literal of the language too, and is read as the same value,
if it is a number in plain notation or a text without null characters. The text is one token: an
escaped character never closes the quotes, and a minus sign in front of digits is part of the
number.
-/
namespace BlockScript.Java

open Text Reading Grammar

/-- Values whose literal in Java has a form that the language has as well: texts without the null
character, integers of a size that can be written, and decimals with places behind a point and at
most five zeros before their first digit there. -/
def Portable : Literal → Prop
  | .string s => '\x00' ∉ s.toList
  | .character s => ∃ c, c ≠ '\x00' ∧ s = String.singleton c
  | .integer n => n.natAbs < digitBound
  | .decimal (.finite _ c e) => e ≤ -1 ∧ -6 ≤ Decimal.adjusted c e
  | _ => False

/-- The text is a single token, and it is an expression that is read as the value. -/
def IsLiteralOf (text : String) (v : Literal) : Prop :=
  ∃ kind, tokensOf text = .ok [⟨kind, text, 0⟩] ∧
    (Rule.expression [⟨kind, text, 0⟩]).Returns (.literal v none) []

section Quotes

variable {c : Char} {cs : List Char}

/-- An escape resolves to the character that it was made of, and else a character stands for itself
between quotes of either kind. -/
theorem escapeChar_resolves (hc : c ≠ '\x00') :
    (∃ d, escapeChar c = ['\\', d] ∧ d ≠ '\n' ∧ escaped d = c) ∨
      escapeChar c = [c] ∧ c ≠ '\\' ∧ isPlain '\'' c = true ∧ isPlain '"' c = true := by
  unfold escapeChar
  split
  case h_8 => exact absurd rfl hc
  case h_9 =>
    refine .inr ⟨rfl, by assumption, ?_, ?_⟩ <;> simp_all [isPlain]
  all_goals exact .inl ⟨_, rfl, by decide, rfl⟩

theorem unescapeChars_escapeChars (h : '\x00' ∉ cs) : unescapeChars (escapeChars cs) = cs := by
  induction cs with
  | nil => rfl
  | cons c cs ih =>
    obtain ⟨hc, hcs⟩ := not_or.mp (mt List.mem_cons.mpr h)
    rw [escapeChars, List.flatMap_cons, ← escapeChars]
    obtain ⟨d, hd, -, hmeans⟩ | ⟨hself, hslash, -⟩ := escapeChar_resolves (Ne.symm hc)
    · simp [hd, unescapeChars, hmeans, ih hcs]
    · simp [hself, unescapeChars, hslash, ih hcs]

/-- An escaped text does not close the quotes of a string. -/
theorem stringTail?_escapeChars (h : '\x00' ∉ cs) :
    stringTail? (escapeChars cs ++ ['"']) = some (escapeChars cs ++ ['"']) := by
  induction cs with
  | nil => rfl
  | cons c cs ih =>
    obtain ⟨hc, hcs⟩ := not_or.mp (mt List.mem_cons.mpr h)
    rw [escapeChars, List.flatMap_cons, ← escapeChars]
    obtain ⟨d, hd, hline, -⟩ | ⟨hself, hslash, -, hplain⟩ := escapeChar_resolves (Ne.symm hc)
    · simp [hd, stringTail?, hline, ih hcs]
    · have hquote : c ≠ '"' := (ne_of_isPlain hplain).1
      rw [hself, List.singleton_append, List.cons_append,
        stringTail?.eq_4 _ _ (by simpa using hquote) (by simp [hslash]), if_pos hplain, ih hcs,
        Option.map_some]

/-- An escaped character does not close the quotes of a character. -/
theorem characterTail?_escapeChar (hc : c ≠ '\x00') :
    characterTail? (escapeChar c ++ ['\'']) = some (escapeChar c ++ ['\'']) := by
  obtain ⟨d, hd, hline, -⟩ | ⟨hself, -, hplain, -⟩ := escapeChar_resolves hc
  · simp [hd, characterTail?, hline]
  · have hquote : c ≠ '\'' := (ne_of_isPlain hplain).1
    simp [hself, characterTail?, hplain]

end Quotes

section Tokens

variable {kind : TokenKind} {text : String} {v : Literal}

/-- A text that can be read as a token with nothing around it, and as a primary expression then. -/
theorem isLiteralOf_of_reads (hreads : Token.Reads none ⟨kind, text, 0⟩ [])
    (d : Derivation plainLeaf (.primary (.literal v none)) [⟨kind, text, 0⟩] []) :
    IsLiteralOf text v := by
  have htiling := Tiling.first hreads (.nil (show Gap [] by simp [Gap]))
  rw [List.append_nil] at htiling
  have htokens : tokensOf text = .ok [⟨kind, text, 0⟩] := tokensOf_eq_ok_iff.mpr htiling
  have hwhole : Derivation plainLeaf (.operation .logical (.literal v none))
      [⟨kind, text, 0⟩] [] :=
    .operation (.operandTighter rfl (.operation (.operandTighter rfl (.operation
      (.operandTighter rfl (.operation (.operandTightest rfl (.secondary d .membersNil))
        .operationsNil)) .operationsNil)) .operationsNil)) .operationsNil
  exact ⟨kind, htokens, hwhole.accepts (allShaped_of_tokensOf htokens) trivial⟩

end Tokens

section Numbers

variable {kind : TokenKind} {c : Char} {cs : List Char}

/-- Digits are read as a number, with a minus sign in front of them as well. -/
theorem reads_number (negative : Bool) (hc : isAsciiDigit c = true)
    (h : numberTail cs = (kind, cs)) :
    Token.Reads none ⟨kind, String.ofList ((if negative then ['-'] else []) ++ c :: cs), 0⟩ [] := by
  let digits : Token := ⟨kind, String.ofList (c :: cs), 1⟩
  have htail : tokenTail? c (cs ++ []) = some (kind, cs) := by
    rw [List.append_nil, tokenTail?, if_neg (by simp [isNameStart_of_digit hc]), if_pos hc, h]
  have hstands (index : Nat) : Token.Stands ⟨kind, String.ofList (c :: cs), index⟩ [] :=
    ⟨c, cs, String.toList_ofList, isLayout_eq_false (.inr (.inl hc)), htail⟩
  cases negative with
  | false => exact .plain (hstands 0) fun _ _ => rfl
  | true =>
    have hnumber : digits.isNumber = true := by
      have heq := (hstands 1).isNumber_eq
      rwa [String.toList_ofList, List.head?_cons, Option.any_some, hc] at heq
    have htext : String.ofList ('-' :: c :: cs) = "-" ++ String.ofList (c :: cs) := by
      rw [← String.toList_inj]
      simp
    have hreads : Token.Reads none (Token.signed ⟨.operator, "-", 0⟩ digits) [] :=
      .signed rfl rfl hnumber (hstands 1)
    rw [if_pos rfl, List.singleton_append, htext]
    exact hreads

theorem splitSign_signed (negative : Bool) (cs : List Char) (hc : isAsciiDigit c = true) :
    splitSign ((if negative then ['-'] else []) ++ c :: cs) = (negative, c :: cs) := by
  refine Decimal.splitSign_append negative ?_ ?_ <;>
    · rintro rfl
      exact absurd hc (by decide)

theorem length_digits_le {n : Nat} (h : n < digitBound) : (digits n).length ≤ digitLimit := by
  have hpos : 0 < digitLimit := by decide
  rw [digits_eq]
  unfold digitBound at h
  generalize digitLimit = limit at h hpos ⊢
  exact Nat.toDigits_length 10 n limit hpos h

/-- The numeral of an integer of few enough digits is read as that integer. -/
theorem isLiteralOf_numeral {n : Int} (h : n.natAbs < digitBound) :
    IsLiteralOf (numeral n) (.integer n) := by
  obtain ⟨c, cs, hdigits⟩ := List.exists_cons_of_ne_nil (digits_ne_nil n.natAbs)
  have hall : ∀ d ∈ c :: cs, isAsciiDigit d = true :=
    fun d hd => isAsciiDigit_of_mem_digits (hdigits ▸ hd)
  obtain ⟨hc, hcs⟩ := List.forall_mem_cons.mp hall
  have htext : numeral n =
      String.ofList ((if decide (n < 0) then ['-'] else []) ++ c :: cs) := by
    unfold numeral
    by_cases hn : n < 0 <;> simp [hn, hdigits]
  have htail : numberTail cs = (.integer, cs) := by
    rw [← List.append_nil cs, numberTail_integer hcs (by simp) (by simp), List.append_nil]
  have hsplit := splitSign_signed (decide (n < 0)) cs hc
  have hvalue : integerValue (numeral n).toList = n := by
    rw [htext, String.toList_ofList, integerValue, hsplit]
    dsimp only
    rw [← hdigits, ofDigits_digits]
    simp only [decide_eq_true_eq]
    split <;> omega
  have hplain : plainLeaf ⟨.integer, numeral n, 0⟩ := by
    refine ⟨by simp, fun _ => ?_⟩
    rw [htext, String.toList_ofList, hsplit, ← hdigits]
    exact length_digits_le h
  refine isLiteralOf_of_reads (htext ▸ reads_number _ hc htail) ?_
  have hprimary : Derivation plainLeaf
      (.primary (.literal (.integer (integerValue (numeral n).toList)) none))
      [⟨.integer, numeral n, 0⟩] [] := .integer ⟨rfl, hplain⟩
  rwa [hvalue] at hprimary

theorem isLiteralOf_decimalValue {text : String} (h : Token.Reads none ⟨.decimal, text, 0⟩ []) :
    IsLiteralOf text (.decimal (decimalValue text.toList)) :=
  isLiteralOf_of_reads h (.decimal (t := ⟨.decimal, text, 0⟩) ⟨rfl, by simp, by simp⟩)

/-- Digits on both sides of a point are read as the decimal with all of these digits. -/
theorem isLiteralOf_pointed (negative : Bool) {w f : List Char} (hw : w ≠ []) (hf : f ≠ [])
    (hall : ∀ d ∈ w ++ f, isAsciiDigit d = true) :
    IsLiteralOf (String.ofList ((if negative then ['-'] else []) ++ (w ++ '.' :: f)))
      (.decimal (.finite negative (ofDigits (w ++ f)) (-f.length))) := by
  obtain ⟨hwhole, hplaces⟩ := List.forall_mem_append.mp hall
  obtain ⟨c, w, rfl⟩ := List.exists_cons_of_ne_nil hw
  obtain ⟨d, f, rfl⟩ := List.exists_cons_of_ne_nil hf
  obtain ⟨hc, hrest⟩ := List.forall_mem_cons.mp hwhole
  obtain ⟨hd, hmore⟩ := List.forall_mem_cons.mp hplaces
  have htail : numberTail (w ++ '.' :: d :: f) = (.decimal, w ++ '.' :: d :: f) := by
    have hends := @numberTail_decimal [] w f d hrest hd hmore (by simp)
    rwa [List.append_nil] at hends
  have hstop : ∀ e ∈ ('.' :: d :: f).head?, isAsciiDigit e = false := by
    simp only [List.head?_cons, Option.mem_some_iff, forall_eq']
    decide
  have hvalue : decimalValue ((if negative then ['-'] else []) ++ (c :: w ++ '.' :: d :: f)) =
      .finite negative (ofDigits (c :: w ++ d :: f)) (-(d :: f).length) := by
    have htake := takeWhile_append_of_stop hwhole hstop
    have hdrop : (c :: w ++ '.' :: d :: f).drop ((c :: w).length + 1) = d :: f := by simp
    have hfraction : (d :: f).takeWhile isAsciiDigit = d :: f :=
      List.takeWhile_eq_self_iff.mpr hplaces
    have hsplit := splitSign_signed negative (w ++ '.' :: d :: f) hc
    rw [← List.cons_append] at hsplit
    simp only [decimalValue, hsplit, htake, hdrop, hfraction]
  have hreads := isLiteralOf_decimalValue (reads_number negative hc htail)
  rwa [String.toList_ofList, ← List.cons_append, hvalue] at hreads

end Numbers

section Values

/-- The literal of a string without null characters is read as the string. -/
theorem isLiteralOf_string {s : String} (h : '\x00' ∉ s.toList) :
    IsLiteralOf (quoted '"' s) (.string s) := by
  have htail := stringTail?_escapeChars h
  have hreads : Token.Reads none ⟨.string, quoted '"' s, 0⟩ [] := by
    refine .plain ⟨'"', escapeChars s.toList ++ ['"'], String.toList_ofList, rfl, ?_⟩ fun _ _ => rfl
    rw [List.append_nil]
    exact congrArg (Option.map (TokenKind.string, ·)) htail
  refine isLiteralOf_of_reads hreads ?_
  have hprimary : Derivation plainLeaf
      (.primary (.literal (Rule.stringLiteral ⟨.string, quoted '"' s, 0⟩) none))
      [⟨.string, quoted '"' s, 0⟩] [] := .string ⟨rfl, by simp, by simp⟩
  have hinside : insideQuotes (quoted '"' s) = escapeChars s.toList := by
    simp [insideQuotes, quoted]
  rwa [Rule.stringLiteral, hinside, unescapeChars_escapeChars h, String.ofList_toList] at hprimary

/-- The literal of a character but the null character is read as the character. -/
theorem isLiteralOf_character {c : Char} (hc : c ≠ '\x00') :
    IsLiteralOf (quoted '\'' (String.singleton c)) (.character (String.singleton c)) := by
  have hchars : escapeChars (String.singleton c).toList = escapeChar c := by simp [escapeChars]
  have htail := characterTail?_escapeChar hc
  have hreads : Token.Reads none ⟨.character, quoted '\'' (String.singleton c), 0⟩ [] := by
    refine .plain ⟨'\'', escapeChar c ++ ['\''], ?_, rfl, ?_⟩ fun _ _ => rfl
    · rw [quoted, hchars, String.toList_ofList, List.cons_append]
    · rw [List.append_nil]
      exact congrArg (Option.map (TokenKind.character, ·)) htail
  refine isLiteralOf_of_reads hreads ?_
  have hprimary : Derivation plainLeaf
      (.primary (.literal (Rule.characterLiteral ⟨.character, quoted '\'' (String.singleton c), 0⟩)
        none)) [⟨.character, quoted '\'' (String.singleton c), 0⟩] [] :=
    .character ⟨rfl, by simp, by simp⟩
  have hinside : insideQuotes (quoted '\'' (String.singleton c)) = escapeChars [c] := by
    simp [insideQuotes, quoted]
  have hnull : '\x00' ∉ [c] := by simpa using Ne.symm hc
  rwa [Rule.characterLiteral, hinside, unescapeChars_escapeChars hnull] at hprimary

/-- A decimal in plain notation is read as the same sign, coefficient and exponent. -/
theorem isLiteralOf_decimal {negative : Bool} {n : Nat} {e : Int} (he : e ≤ -1)
    (hsmall : -6 ≤ Decimal.adjusted n e) :
    IsLiteralOf (Decimal.toText (.finite negative n e)) (.decimal (.finite negative n e)) := by
  have hplain : Decimal.magnitude n e = Decimal.pointed (digits n) (-e).toNat := by
    rw [Decimal.magnitude, if_pos]
    simp only [Bool.and_eq_true, decide_eq_true_eq]
    omega
  obtain ⟨hnone, -⟩ | ⟨w, f, heq, hw, hall, hvalue, hlength⟩ :=
    Decimal.pointed_digits n (-e).toNat
  · omega
  · have hf : f ≠ [] := by
      rw [← List.length_pos_iff, hlength]
      omega
    have hexponent : -(f.length : Int) = e := by omega
    have hliteral := isLiteralOf_pointed negative hw hf hall
    rw [hvalue, hexponent] at hliteral
    rwa [Decimal.toText, Decimal.chars, hplain, heq]

theorem literal_rereads {v : Literal} (h : Portable v) :
    ∃ text, literal? v = some text ∧ IsLiteralOf text v := by
  cases v with
  | string s => exact ⟨_, rfl, isLiteralOf_string h⟩
  | character s =>
    obtain ⟨c, hc, rfl⟩ := h
    exact ⟨_, rfl, isLiteralOf_character hc⟩
  | integer n =>
    have hlt : n.natAbs < digitBound := h
    exact ⟨numeral n, by rw [literal?, numeral?, if_neg (Nat.not_le.mpr hlt)],
      isLiteralOf_numeral hlt⟩
  | decimal d =>
    cases d with
    | finite negative n e => exact ⟨_, rfl, isLiteralOf_decimal h.1 h.2⟩
    | infinite negative => exact h.elim
    | nan negative signaling payload => exact h.elim
  | nil => exact h.elim
  | boolean b => exact h.elim
  | raw j => exact h.elim

/-- What is written for a portable value is one token, and it is read as the same value, digit for
digit. Resolving the escapes of an escaped text gives the text back, if it has no null character. -/
theorem written_literals_reread :
    (∀ v, Portable v → ∃ text, literal? v = some text ∧ IsLiteralOf text v) ∧
      ∀ s : String, '\x00' ∉ s.toList → unescape (escape s) = s := by
  refine ⟨fun v h => literal_rereads h, fun s hs => ?_⟩
  rw [unescape, escape, String.toList_ofList, unescapeChars_escapeChars hs, String.ofList_toList]

/-- A string with quotes, a backslash and a line break, a negative integer and a negative zero. -/
theorem written_literals_reread_instances :
    IsLiteralOf "\"a\\\"\\\\\\n\"" (.string "a\"\\\n") ∧ IsLiteralOf "-12" (.integer (-12)) ∧
      IsLiteralOf "-0.0" (.decimal (.finite true 0 (-1))) ∧
      unescape (escape "a\"\\\n") = "a\"\\\n" := by
  have hnull : '\x00' ∉ "a\"\\\n".toList := by decide
  have hshort : (-12 : Int).natAbs < digitBound :=
    Nat.lt_of_lt_of_le (by decide : 12 < 10 ^ 2) (pow_le_digitBound (by decide))
  obtain ⟨s, hs, hstring⟩ := written_literals_reread.1 (.string "a\"\\\n") hnull
  obtain ⟨n, hn, hinteger⟩ := written_literals_reread.1 (.integer (-12)) hshort
  obtain ⟨d, hd, hdecimal⟩ := written_literals_reread.1 (.decimal (.finite true 0 (-1)))
    ⟨by decide, by decide⟩
  obtain rfl : "\"a\\\"\\\\\\n\"" = s := Option.some.inj ((by decide : _ = _).trans hs)
  obtain rfl : "-0.0" = d := Option.some.inj ((by decide : _ = _).trans hd)
  have hnumeral : literal? (.integer (-12)) = some "-12" := by
    rw [literal?, numeral?, if_neg (Nat.not_le.mpr hshort)]
    decide
  obtain rfl : "-12" = n := Option.some.inj (hnumeral.symm.trans hn)
  exact ⟨hstring, hinteger, hdecimal, written_literals_reread.2 _ hnull⟩

end Values

end BlockScript.Java
