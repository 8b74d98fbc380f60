import BlockScript.Java.Writer
import BlockScript.Proofs.Java.Scan
import BlockScript.Proofs.Typing.Subexpressions
/-!
# The Java text of an expression

How the operands of an expression of a program belong together, as a tree of Java, and the text
that is written for the expression. The lexemes of that text are those of the tree.
-/
namespace BlockScript.Java

open Text

/-- What a function is called by; printing is a method of a member. -/
def calleeOf (name : String) (f : Option StaticFunction) : Expression :=
  if f = some .print then .member (.member (.word "System") "out") "println" else .word name

mutual

/-- The operands of an expression as they belong together in the program, with the operators and
names of Java. -/
def grouping : Node → Expression
  | .literal value _ => .word ((literal? value).getD "")
  | .group inner _ => .group (grouping inner)
  | .binary op left right _ => .binary (operator op) (grouping left) (grouping right)
  | .access .absent name _ _ => .word name
  | .access receiver name _ _ => .member (grouping receiver) name
  | .call .absent name arguments _ f => .call (calleeOf name f) (groupings arguments)
  | .call receiver name arguments _ _ =>
    .call (.member (grouping receiver) name) (groupings arguments)
  | _ => .word ""

def groupings : List Node → List Expression
  | [] => []
  | node :: rest => grouping node :: groupings rest

end

/-- The step writes the text and changes nothing else. -/
def Emits (w : Write Unit) (s : String) : Prop :=
  ∀ p, w p = .ok () { p with text := p.text ++ s }

theorem emits_put (s : String) : Emits (put s) s := fun _ => rfl

theorem Emits.andThen {w w' : Write Unit} {s s' : String} (h : Emits w s) (h' : Emits w' s') :
    Emits (do w; w') (s ++ s') := by
  intro p
  show EStateM.bind _ _ p = _
  rw [EStateM.bind, h p]
  show w' _ = _
  rw [h', String.append_assoc]

def EmitsLexemes (w : Write Unit) (ts : List Lexeme) : Prop :=
  ∃ s, Emits w s ∧ Scans s.toList ts

section Literals

theorem scans_text {name : String} {c : Char} {tail : List Char} (h : name.toList = c :: tail)
    (hc : isNameStart c = true) (htail : tail.all isNamePart = true) :
    Scans name.toList [.word name] := by
  intro rest hstop
  have hname : String.ofList (c :: tail) = name := by rw [← h, String.ofList_toList]
  rw [h, List.cons_append, scans_name hc (List.all_eq_true.mp htail) fun d hd => (hstop d hd).1,
    hname]
  rfl

theorem scans_isName {name : String} (h : IsName name) : Scans name.toList [.word name] := by
  unfold IsName TokenKind.fits at h
  split at h
  · next c cs heq =>
    rw [Bool.and_eq_true] at h
    exact scans_text heq h.1 h.2
  all_goals simp_all

theorem scans_numeral (n : Int) : Scans (numeral n).toList [.word (numeral n)] := by
  have hscans := scans_number (w := digits n.natAbs) (f := []) (x := []) (decide (n < 0))
    (fun _ => isAsciiDigit_of_mem_digits) (digits_ne_nil _) (.inl rfl) (.inl rfl)
  have hnumeral : numeral n =
      String.ofList ((if decide (n < 0) then ['-'] else []) ++ (digits n.natAbs ++ [] ++ [])) := by
    unfold numeral
    by_cases hn : n < 0 <;> simp [hn]
  rw [hnumeral, String.toList_ofList]
  exact hscans

/-- What is written for the size of a finite decimal are digits, places and an exponent. -/
theorem magnitude_shape (n : Nat) (e : Int) : ∃ w f x, Decimal.magnitude n e = w ++ f ++ x ∧
    w ≠ [] ∧ (∀ d ∈ w, isAsciiDigit d = true) ∧ IsFraction f ∧ IsExponent x := by
  have hdigits : ∀ d ∈ digits n, isAsciiDigit d = true := fun _ => isAsciiDigit_of_mem_digits
  have hexponent (x : Int) : IsExponent (Decimal.exponentChars x) := by
    refine .inr ⟨_, _, rfl, ?_, fun _ => isAsciiDigit_of_mem_digits⟩
    split
    · exact .inr rfl
    · exact .inl rfl
  unfold Decimal.magnitude
  split
  · obtain ⟨-, heq⟩ | ⟨w, f, heq, hw, hall, -⟩ := Decimal.pointed_digits n (-e).toNat
    · exact ⟨digits n, [], [], by simpa using heq, digits_ne_nil n, hdigits, .inl rfl, .inl rfl⟩
    · refine ⟨w, '.' :: f, [], by simpa using heq, hw, fun d hd => ?_, .inr ⟨f, rfl, ?_⟩, .inl rfl⟩
      · exact hall d (List.mem_append_left f hd)
      · exact fun d hd => hall d (List.mem_append_right w hd)
  · obtain ⟨d, hd, heq⟩ | ⟨d, f, hd, heq⟩ := Decimal.scientific_digits n (Decimal.adjusted n e)
    · refine ⟨[d], [], _, heq, by simp, fun c hc => ?_, .inl rfl, hexponent _⟩
      exact hdigits c (hd ▸ hc)
    · refine ⟨[d], '.' :: f, _, by simpa using heq, by simp, fun c hc => ?_, .inr ⟨f, rfl, ?_⟩,
        hexponent _⟩
      · exact hdigits c (hd ▸ List.mem_singleton.mp hc ▸ List.mem_cons_self)
      · exact fun c hc => hdigits c (hd ▸ List.mem_cons_of_mem d hc)

theorem scans_decimal {d : Decimal} (h : d.Pointed) : Scans d.toText.toList [.word d.toText] := by
  obtain ⟨s, n, e, rfl, -⟩ := h
  obtain ⟨w, f, x, heq, hne, hw, hf, hx⟩ := magnitude_shape n e
  rw [Decimal.toText, String.toList_ofList, Decimal.chars, heq]
  exact scans_number s hw hne hf hx

/-- A value of a program has a literal, which is one word. -/
theorem literal_scans {value : Literal} (h : value.Plain) :
    ∃ s, literal? value = some s ∧ Scans s.toList [.word s] := by
  cases value with
  | nil => exact ⟨_, rfl, scans_text rfl rfl rfl⟩
  | boolean b => cases b <;> exact ⟨_, rfl, scans_text rfl rfl rfl⟩
  | character s => exact ⟨_, rfl, scans_quoted (.inl rfl) s⟩
  | string s => exact ⟨_, rfl, scans_quoted (.inr rfl) s⟩
  | integer n =>
    have hlt : n.natAbs < digitBound := h
    exact ⟨numeral n, by rw [literal?, numeral?, if_neg (Nat.not_le.mpr hlt)], scans_numeral n⟩
  | decimal d => exact ⟨_, rfl, scans_decimal h⟩
  | raw j => exact h.elim

end Literals

section Expressions

variable {node : Node} {op : String}

/-- Operators of programs are operators of Java. -/
theorem operator_mem {level : Rule.Level} (h : op ∈ level.operators) :
    operator op ∈ levels.flatten := by
  revert h op
  cases level <;> decide

/-- An operator between two texts. -/
theorem scans_binary {o : String} {cs ds : List Char} {x y : Expression}
    (ho : o ∈ levels.flatten) (hx : Scans cs x.lexemes) (hy : Scans ds y.lexemes) :
    Scans (cs ++ (' ' :: (o.toList ++ ' ' :: ds))) (Expression.binary o x y).lexemes := by
  intro rest hstop
  have hblank : Stops (' ' :: (o.toList ++ ' ' :: ds) ++ rest) := stops_cons rfl (by decide)
  rw [List.append_assoc, hx _ hblank, List.cons_append, lexemes?_space, List.append_assoc,
    List.cons_append, lexemes?_operator ho, hy rest hstop]
  simp [Expression.lexemes, Function.comp_def]

theorem scans_group {cs : List Char} {x : Expression} (hx : Scans cs x.lexemes) :
    Scans ('(' :: (cs ++ [')'])) (Expression.group x).lexemes := by
  intro rest _
  have hstop : Stops (')' :: rest) := stops_cons rfl (by decide)
  rw [List.cons_append, lexemes?_opening, List.append_assoc, List.singleton_append, hx _ hstop,
    lexemes?_closing]
  simp [Expression.lexemes, Function.comp_def]

abbrev ArgumentsEmit (args : List Node) : Prop :=
  ∀ node ∈ args, node.isAbsent = false ∧ EmitsLexemes (write node) (grouping node).lexemes

/-- The arguments after the first one are written with a comma before each. -/
theorem emits_moreArguments {args : List Node} (h : ArgumentsEmit args) :
    ∃ s, Emits (writeArguments false args) s ∧ (∀ rest, Stops (s.toList ++ ')' :: rest)) ∧
      ∀ rest, lexemes? (s.toList ++ ')' :: rest) =
        (lexemes? rest).map (Expression.moreLexemes (groupings args) ++ ·) := by
  induction args with
  | nil =>
    refine ⟨"", fun p => ?_, fun rest => stops_cons rfl (by decide), fun rest => lexemes?_closing⟩
    rw [String.append_empty]
    rfl
  | cons node args ih =>
    obtain ⟨⟨habsent, s, hs, hscans⟩, hargs⟩ := List.forall_mem_cons.mp h
    obtain ⟨s', hs', hstops, hscans'⟩ := ih hargs
    have hchars (rest : List Char) : (", " ++ (s ++ s')).toList ++ ')' :: rest =
        ',' :: ' ' :: (s.toList ++ (s'.toList ++ ')' :: rest)) := by
      simp
    refine ⟨", " ++ (s ++ s'), ?_, fun rest => ?_, fun rest => ?_⟩
    · rw [writeArguments, habsent]
      exact (emits_put ", ").andThen (hs.andThen hs')
    · rw [hchars]
      exact stops_cons rfl (by decide)
    · rw [hchars, lexemes?_comma, lexemes?_space, hscans _ (hstops rest), hscans']
      simp [groupings, Expression.moreLexemes, Function.comp_def]

theorem emits_arguments {args : List Node} (h : ArgumentsEmit args) :
    ∃ s, Emits (writeArguments true args) s ∧
      ∀ rest, lexemes? (s.toList ++ ')' :: rest) =
        (lexemes? rest).map (Expression.argumentLexemes (groupings args) ++ ·) := by
  cases args with
  | nil =>
    refine ⟨"", fun p => ?_, fun rest => lexemes?_closing⟩
    rw [String.append_empty]
    rfl
  | cons node args =>
    obtain ⟨⟨habsent, s, hs, hscans⟩, hargs⟩ := List.forall_mem_cons.mp h
    obtain ⟨s', hs', hstops, hscans'⟩ := emits_moreArguments hargs
    refine ⟨s ++ s', ?_, fun rest => ?_⟩
    · rw [writeArguments, habsent]
      exact hs.andThen hs'
    · rw [String.toList_append, List.append_assoc, hscans _ (hstops rest), hscans']
      simp [groupings, Expression.argumentLexemes, Function.comp_def]

/-- The name of a function in Java and the parenthesis behind it. -/
theorem scans_callee {name : String} {f : StaticFunction} (hname : IsName name)
    (hspelled : f = .print ∨ f.javaName = name) (rest : List Char) :
    lexemes? (f.javaName.toList ++ '(' :: rest) =
      (lexemes? rest).map ((calleeOf name (some f)).lexemes ++ .opening :: ·) := by
  unfold calleeOf
  split
  · next hprint =>
    cases hprint
    show lexemes? ('S' :: ("ystem".toList ++ '.' :: 'o' :: ("ut".toList ++ '.' :: 'p' ::
      ("rintln".toList ++ '(' :: rest)))) = _
    rw [scans_name rfl (by simp; decide) (by simp; decide), lexemes?_dot,
      scans_name rfl (by simp; decide) (by simp; decide), lexemes?_dot,
      scans_name rfl (by simp; decide) (by simp; decide), lexemes?_opening]
    simp [Expression.lexemes, Function.comp_def]
  · next hprint =>
    obtain rfl : f.javaName = name := hspelled.resolve_left fun h => hprint (h ▸ rfl)
    rw [scans_isName hname _ (stops_cons rfl (by decide)), lexemes?_opening]
    simp [Expression.lexemes, Function.comp_def]

/-- An expression of a checked program is written, with the lexemes of its operands as they belong
together. -/
theorem emits_expression (h : CheckedExpression node) :
    EmitsLexemes (write node) (grouping node).lexemes := by
  induction h with
  | literal plain =>
    obtain ⟨s, hs, hscans⟩ := literal_scans plain
    rw [write, grouping, hs]
    exact ⟨s, emits_put s, hscans⟩
  | group inside ih =>
    obtain ⟨s, hs, hscans⟩ := ih
    rw [write, inside.isAbsent, grouping]
    refine ⟨"(" ++ (s ++ ")"), (emits_put "(").andThen (hs.andThen (emits_put ")")), ?_⟩
    simpa using scans_group hscans
  | binary known first second _ before behind ihl ihr =>
    obtain ⟨s, hs, hscans⟩ := ihl
    obtain ⟨s', hs', hscans'⟩ := ihr
    rw [write, before.isAbsent, behind.isAbsent, grouping]
    refine ⟨_, hs.andThen ((emits_put _).andThen hs'), ?_⟩
    simpa using scans_binary (operator_mem known) hscans hscans'
  | access word spelled =>
    cases spelled
    rw [write, grouping]
    exact ⟨_, emits_put _, scans_isName word⟩
  | call word spelled passed ih =>
    obtain ⟨s, hs, hscans⟩ := emits_arguments fun node hmem =>
      ⟨(passed node hmem).isAbsent, ih node hmem⟩
    rw [write, grouping]
    refine ⟨_, (emits_put _).andThen (hs.andThen (emits_put ")")), fun rest _ => ?_⟩
    have hchars : ∀ name : String, (name ++ "(" ++ (s ++ ")")).toList ++ rest =
        name.toList ++ '(' :: (s.toList ++ ')' :: rest) := by
      simp
    rw [hchars, scans_callee word spelled, hscans]
    simp [Expression.lexemes, Function.comp_def]

end Expressions

end BlockScript.Java
