import BlockScript.Proofs.Java.Inline
import BlockScript.Proofs.Java.Text
import BlockScript.Proofs.Tree.Names
import BlockScript.Proofs.Typing.Slots
import BlockScript.Proofs.Typing.Program
import BlockScript.Proofs.Typing.Subexpressions
/-!
# The words of a checked program

Names, numbers, operators and the types that a program can name are words. As checking gives
everything but printing the name in Java that it has in the program, a checked program is written
line by line.
-/
namespace BlockScript

namespace Java

open Text

section Characters

variable {c : Char} {cs : List Char} {s : String}

/-- A class of characters that has neither a quote nor a bracket nor a line end in it. -/
theorem isInline_of {p : Char → Bool} (h : p c = true)
    (hp : ['\'', '"', '(', ')', '\x7b', '\x7d', '\n', '\r'].all (fun d => !p d) = true) :
    isInline c = true := by
  rw [List.all_eq_true] at hp
  by_contra hinline
  have hmem : c ∈ ['\'', '"', '(', ')', '\x7b', '\x7d', '\n', '\r'] := by
    simp only [isInline, isUnquoted, isQuote, Bool.and_eq_true, Bool.not_eq_true', not_and_or,
      Bool.not_eq_false, Bool.or_eq_true, beq_iff_eq, bne_iff_ne, ne_eq, not_not,
      List.contains_iff_mem] at hinline
    simp only [List.mem_cons] at hinline ⊢
    tauto
  have hnot := hp c hmem
  rw [h] at hnot
  cases hnot

theorem isInline_of_isNamePart (h : isNamePart c = true) : isInline c = true :=
  isInline_of h (by decide)

theorem isInline_of_isAsciiDigit (h : isAsciiDigit c = true) : isInline c = true :=
  isInline_of h (by decide)

theorem word_of_cons (h : s.toList = c :: cs) (hc : c ≠ ' ')
    (hinline : ∀ d ∈ c :: cs, isInline d = true) : Word s := by
  refine ⟨by rwa [Inline, h, List.all_eq_true], ?_⟩
  rw [h]
  simpa using hc

theorem word_of_isName {name : String} (h : IsName name) : Word name := by
  unfold IsName TokenKind.fits at h
  split at h
  · next c cs _ heq =>
    rw [Bool.and_eq_true, List.all_eq_true] at h
    have hpart : isNamePart c = true := by
      rw [isNamePart, h.1, Bool.true_or]
    refine word_of_cons heq (fun hblank => ?_) (List.forall_mem_cons.mpr
      ⟨isInline_of_isNamePart hpart, fun d hd => isInline_of_isNamePart (h.2 d hd)⟩)
    rw [hblank] at hpart
    revert hpart
    decide
  all_goals simp_all

end Characters

section Literals

theorem IsFraction.isInline {cs : List Char} (h : IsFraction cs) :
    ∀ c ∈ cs, isInline c = true := by
  obtain rfl | ⟨ds, rfl, hds⟩ := h
  · exact nofun
  · exact List.forall_mem_cons.mpr ⟨by decide, fun d hd => isInline_of_isAsciiDigit (hds d hd)⟩

theorem IsExponent.isInline {cs : List Char} (h : IsExponent cs) :
    ∀ c ∈ cs, isInline c = true := by
  obtain rfl | ⟨s, ds, rfl, hs, hds⟩ := h
  · exact nofun
  · refine List.forall_mem_cons.mpr ⟨by decide, List.forall_mem_cons.mpr ⟨?_, fun d hd => ?_⟩⟩
    · obtain rfl | rfl := hs <;> decide
    · exact isInline_of_isAsciiDigit (hds d hd)

/-- Digits with other characters of a number behind them, perhaps behind a minus sign. -/
theorem word_of_digits {w cs : List Char} (negative : Bool) (hne : w ≠ [])
    (hw : ∀ d ∈ w, isAsciiDigit d = true) (hcs : ∀ c ∈ cs, isInline c = true) :
    Word (String.ofList ((if negative then ['-'] else []) ++ (w ++ cs))) := by
  obtain ⟨d, w, rfl⟩ := List.exists_cons_of_ne_nil hne
  have hinline : ∀ c ∈ d :: (w ++ cs), isInline c = true :=
    List.forall_mem_append.mpr ⟨fun c hc => isInline_of_isAsciiDigit (hw c hc), hcs⟩
  cases negative with
  | true =>
    exact word_of_cons String.toList_ofList (by decide)
      (List.forall_mem_cons.mpr ⟨by decide, hinline⟩)
  | false =>
    refine word_of_cons String.toList_ofList (fun hblank => ?_) hinline
    have hd := hw d List.mem_cons_self
    rw [hblank] at hd
    revert hd
    decide

theorem word_numeral (n : Int) : Word (numeral n) := by
  have hword : Word (String.ofList ((if decide (n < 0) then ['-'] else []) ++
      (digits n.natAbs ++ []))) :=
    word_of_digits _ (digits_ne_nil _) (fun _ => isAsciiDigit_of_mem_digits) nofun
  unfold numeral
  by_cases hn : n < 0 <;> simpa [hn] using hword

theorem word_decimal {d : Decimal} (h : d.Pointed) : Word d.toText := by
  obtain ⟨s, n, e, rfl, -⟩ := h
  obtain ⟨w, f, x, heq, hne, hw, hf, hx⟩ := magnitude_shape n e
  rw [Decimal.toText, Decimal.chars, heq, List.append_assoc]
  exact word_of_digits s hne hw (List.forall_mem_append.mpr ⟨hf.isInline, hx.isInline⟩)

/-- What stands in Java for a value of a program is a word, unless it stands between quotes. -/
theorem inlineLiteral_of_plain {value : Literal} (h : value.Plain) : InlineLiteral value := by
  intro htext
  cases value with
  | nil => exact ⟨_, rfl, by decide⟩
  | boolean b => cases b <;> exact ⟨_, rfl, by decide⟩
  | character s => cases htext
  | string s => cases htext
  | integer n =>
    have hlt : n.natAbs < digitBound := h
    exact ⟨numeral n, by rw [literal?, numeral?, if_neg (Nat.not_le.mpr hlt)], word_numeral n⟩
  | decimal d => exact ⟨_, rfl, word_decimal h⟩
  | raw j => exact h.elim

end Literals

section Words

theorem word_javaName {t : StaticType} (h : t.Memberless) : Word t.javaName := by
  cases t with
  | object name javaName members => cases h
  | _ => decide

theorem word_of_function {name : String} {f : StaticFunction} (hname : IsName name)
    (hspelled : f = .print ∨ f.javaName = name) : Word f.javaName := by
  obtain rfl | rfl := hspelled
  · decide
  · exact word_of_isName hname

theorem inline_operator {level : Rule.Level} {op : String} (h : op ∈ level.operators) :
    Inline (operator op) := by
  revert h op
  cases level <;> decide

theorem inlineExpression_of_checked {node : Node} (h : CheckedExpression node) :
    InlineExpression node := by
  induction h with
  | literal plain => exact inlineLiteral_of_plain plain
  | group inside ih => exact ih
  | binary known first second typed before behind ihl ihr =>
    exact ⟨inline_operator known, ihl, ihr⟩
  | access word spelled => exact ⟨trivial, _, rfl, spelled ▸ word_of_isName word⟩
  | @call name arguments slot f word spelled passed ih =>
    refine ⟨trivial, ?_, _, rfl, word_of_function word spelled⟩
    exact inlineExpressions_iff.mpr ih

theorem inlineExpression_of_hasType {limit : Nat} {Γ : StaticView} {node : Node} {t : StaticType}
    (hw : WrittenOperand limit node) (h : HasType Γ node t) : InlineExpression node :=
  inlineExpression_of_checked (checkedExpression_of_hasType hw h)

end Words

section Statements

variable {C : Scopes StaticVariable StaticFunction} {Γ : StaticView} {node : Node}
  {nodes : List Node}

theorem inlineVariable_of_fresh {vars : List (String × StaticVariable)} {v : StaticVariable}
    (hp : Proper C) (hfresh : Fresh C vars v) (hname : IsName v.name) :
    InlineVariable (some v) := by
  obtain ⟨fr, hfr, hbound⟩ := hfresh.bound
  obtain ⟨-, -, htype, hspelled⟩ := hp.vars _ _ hfr _ (mem_of_lookup hbound)
  refine ⟨v, rfl, word_javaName htype, ?_⟩
  rw [hspelled]
  exact (word_of_isName hname).1

theorem inlineExpression_of_initializes {t : StaticType} (hw : WrittenInitial node)
    (h : Initializes Γ node t) : InlineExpression node := by
  obtain rfl | hw := hw
  · trivial
  · obtain rfl | ⟨source, htyped, -⟩ := h
    · trivial
    · exact inlineExpression_of_hasType hw htyped

theorem inlineAssign_of_typed {receiver value : Node} (hl : WrittenExpression receiver)
    (hr : WrittenExpression value) (h : AssignTyped Γ (.assign receiver value)) :
    InlineExpression receiver ∧ InlineExpression value := by
  cases h with
  | assign found assignable spelled typed accepted =>
    exact ⟨inlineExpression_of_hasType hl (.access found spelled),
      inlineExpression_of_hasType hr typed⟩

theorem inlineHeader_of_typed (hw : WrittenHeader node) (h : HeaderTyped Γ node) :
    InlineHeader node := by
  cases hw with
  | none => trivial
  | some spelled assigned =>
    exact inlineAssign_of_typed (.access spelled) assigned (h.resolve_left nofun)

theorem exists_statementTyped_of_mem {returns : StaticType} {Γ' : StaticView}
    (h : StatementsTyped C returns Γ nodes Γ') (hmem : node ∈ nodes) :
    ∃ Γ₁ Γ₂, StatementTyped C returns Γ₁ node Γ₂ := by
  induction nodes generalizing Γ with
  | nil => cases hmem
  | cons first rest ih =>
    cases h with
    | cons head tail =>
      rcases List.mem_cons.mp hmem with rfl | hmem
      · exact ⟨_, _, head⟩
      · exact ih tail hmem

/-- A written statement that is well typed is written in lines of its own. -/
theorem inLines_of_statementTyped {returns : StaticType} (hp : Proper C)
    (hw : WrittenStatement node) : ∀ {Γ Γ' : StaticView}, StatementTyped C returns Γ node Γ' →
      (∀ n ∈ node.preorder, n.Spelled) → InLines node := by
  have hbody : ∀ {nodes : List Node} {Γ Γ' : StaticView},
      (∀ node ∈ nodes, ∀ {Γ Γ' : StaticView}, StatementTyped C returns Γ node Γ' →
        (∀ n ∈ node.preorder, n.Spelled) → InLines node) →
      StatementsTyped C returns Γ nodes Γ' → (∀ n ∈ Node.preorderAll nodes, n.Spelled) →
        AllInLines nodes := by
    intro nodes Γ Γ' ih htyped hspelled
    rw [forall_mem_preorderAll] at hspelled
    refine allInLines_iff.mpr fun node hmem => ?_
    obtain ⟨Γ₁, Γ₂, h⟩ := exists_statementTyped_of_mem htyped hmem
    exact ih node hmem h (hspelled node hmem)
  -- On what is written, because what is seen changes from statement to statement.
  induction hw with
  | exprStmt whole =>
    intro Γ Γ' h _
    cases h with
    | exprStmt typed => exact inlineExpression_of_hasType whole typed
  | declaration initial =>
    intro Γ Γ' h hspelled
    cases h with
    | declaration typed fresh assignable =>
      exact ⟨inlineExpression_of_initializes initial typed,
        inlineVariable_of_fresh hp fresh (hspelled _ List.mem_cons_self)⟩
  | assign left right =>
    intro Γ Γ' h _
    cases h with
    | assign typed => exact inlineAssign_of_typed left right typed
  | ifStmt test first second ih₁ ih₂ =>
    intro Γ Γ' h hspelled
    obtain ⟨-, hspelled⟩ := List.forall_mem_cons.mp hspelled
    obtain ⟨hspelled, helses⟩ := List.forall_mem_append.mp hspelled
    obtain ⟨-, hthens⟩ := List.forall_mem_append.mp hspelled
    cases h with
    | ifStmt typed thens elses =>
      exact ⟨inlineExpression_of_hasType test typed, hbody ih₁ thens hthens,
        hbody ih₂ elses helses⟩
  | forStmt before test after body ih =>
    intro Γ Γ' h hspelled
    obtain ⟨-, hspelled⟩ := List.forall_mem_cons.mp hspelled
    obtain ⟨-, hstatements⟩ := List.forall_mem_append.mp hspelled
    cases h with
    | forStmt initialization condition increment statements =>
      exact ⟨inlineHeader_of_typed before initialization,
        inlineExpression_of_hasType test condition, inlineHeader_of_typed after increment,
        hbody ih statements hstatements⟩
  | whileStmt test body ih =>
    intro Γ Γ' h hspelled
    obtain ⟨-, hspelled⟩ := List.forall_mem_cons.mp hspelled
    obtain ⟨-, hstatements⟩ := List.forall_mem_append.mp hspelled
    cases h with
    | whileStmt condition statements =>
      exact ⟨inlineExpression_of_hasType test condition, hbody ih statements hstatements⟩
  | returnStmt whole =>
    intro Γ Γ' h _
    cases h with
    | returnStmt typed => exact inlineExpression_of_hasType whole typed

end Statements

section Programs

variable {C : Scopes StaticVariable StaticFunction} {Γ : StaticView} {nodes : List Node}
  {vars vars' : List (String × StaticVariable)} {funs funs' : List (Signature × StaticFunction)}

theorem inLines_of_fieldsTyped (hp : Proper C) (h : FieldsTyped C funs vars nodes vars')
    (hw : ∀ node ∈ nodes, WrittenField node)
    (hspelled : ∀ n ∈ Node.preorderAll nodes, n.Spelled) : AllInLines nodes := by
  induction h with
  | nil => trivial
  | cons initial fresh home tail ih =>
    obtain ⟨⟨given⟩, hrest⟩ := List.forall_mem_cons.mp hw
    obtain ⟨hfirst, hmore⟩ := List.forall_mem_append.mp hspelled
    exact ⟨⟨inlineExpression_of_initializes given initial,
      inlineVariable_of_fresh hp fresh (hfirst _ List.mem_cons_self)⟩, ih hrest hmore⟩

theorem inLines_of_methodsTyped (hp : Proper C) (h : MethodsTyped C Γ funs nodes funs')
    (hseen : C.Sees 0 [(vars, funs')]) (hw : ∀ node ∈ nodes, WrittenMethod node)
    (hspelled : ∀ n ∈ Node.preorderAll nodes, n.Spelled) : AllInLines nodes := by
  induction h with
  | nil => trivial
  | @cons funs funs' f _ _ _ _ _ paired typed unbound tail ih =>
    obtain ⟨⟨-, body⟩, hrest⟩ := List.forall_mem_cons.mp hw
    obtain ⟨hfirst, hmore⟩ := List.forall_mem_append.mp hspelled
    obtain ⟨⟨hname, hparameters⟩, hbody⟩ := List.forall_mem_cons.mp hfirst
    obtain ⟨hreturns, htypes, hjava⟩ : f.returnType.Memberless ∧
        (∀ t ∈ f.parameterTypes, t.Memberless) ∧ (f = .print ∨ f.javaName = f.name) := by
      have hmem : (f.signature, f) ∈ funs ++ [(f.signature, f)] :=
        List.mem_append_right funs List.mem_cons_self
      cases hseen with
      | root frame top => exact hp.funs _ _ frame _ (tail.grows.subset hmem)
      | child frame under outer => cases outer
    refine ⟨⟨?_, fun name hmem => (word_of_isName (hparameters name hmem)).1, f, rfl,
      word_javaName hreturns, (word_of_function hname hjava).1,
      fun t ht => (word_javaName (htypes t ht)).1⟩, ih hseen hrest hmore⟩
    cases typed with
    | method bound arity own placed statements =>
      refine allInLines_iff.mpr fun node hmem => ?_
      obtain ⟨Γ₁, Γ₂, hnode⟩ := exists_statementTyped_of_mem statements hmem
      exact inLines_of_statementTyped hp (body node hmem) hnode
        (forall_mem_preorderAll.mp hbody node hmem)

/-- A program that has been read from a text and checked is written line by line. -/
theorem programInLines_of_check {text : String} {level : Nat} {tree checked : Node} {c : Checker}
    (hread : readProgram text = .ok tree)
    (hcheck : (Checker.new level).check tree = (.ok checked, c)) : ProgramInLines checked := by
  have hwritten := Grammar.written_of_readProgram hread
  have hspelled := Node.forall_spelled_of_bare (bare_of_check hcheck)
    (Grammar.spelled_of_readProgram hread)
  have hp := proper_of_check hwritten hcheck
  have htyped := programTyped_of_check hwritten hcheck
  cases written_of_check hwritten hcheck with
  | source first second =>
    obtain ⟨-, hspelled⟩ := List.forall_mem_cons.mp hspelled
    obtain ⟨hfields, hmethods⟩ := List.forall_mem_append.mp hspelled
    cases htyped with
    | source fields methods seen entry integer =>
      exact ⟨inLines_of_fieldsTyped hp fields first hfields,
        inLines_of_methodsTyped hp methods seen second hmethods⟩

end Programs

end Java

end BlockScript
