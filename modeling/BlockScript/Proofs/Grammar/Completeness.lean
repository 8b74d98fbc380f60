import BlockScript.Proofs.Grammar.Productions
/-!
# What is derivable is read

A rule reads what the grammar derives, provided that the token behind it is none that the rule
would go on with. Each production hands the right kind of token to its parts, since the texts that
can follow a part and the texts that can continue it are apart.
-/
namespace BlockScript.Grammar

open Rule Reading

/-- The texts with which a level goes on: operators of this level and of tighter ones, and what
goes on after a primary expression. -/
def continuers : Level → List String
  | .logical => Level.logical.operators ++ Level.comparison.operators ++
      Level.additive.operators ++ Level.multiplicative.operators ++ [".", "("]
  | .comparison => Level.comparison.operators ++ Level.additive.operators ++
      Level.multiplicative.operators ++ [".", "("]
  | .additive => Level.additive.operators ++ Level.multiplicative.operators ++ [".", "("]
  | .multiplicative => Level.multiplicative.operators ++ [".", "("]

def operandContinuers (level : Level) : List String :=
  (level.tighter?.map continuers).getD [".", "("]

/-- What may stand behind a phrase so that its rule reads no further. -/
def Follows : Phrase → List Token → Prop
  | .source _ => fun rest => rest = []
  | .fields _ => Avoids ["LET"]
  | .methods _ => Avoids ["DEF"]
  | .constMark _ => Avoids ["CONST"]
  | .typeClause _ => Avoids [":"]
  | .initialValue _ => Avoids ("=" :: continuers .logical)
  | .parameters _ => Meets [")"]
  | .moreParameters _ => Meets [")"]
  | .statements _ => Meets ["ELSE", "END"]
  | .statement _ => fun _ => True
  | .elseBranch _ => Meets ["END"]
  | .header _ => Meets [";", ")"]
  | .operation level _ => Avoids (continuers level)
  | .operand level _ => Avoids (operandContinuers level)
  | .operations level _ _ => Avoids (continuers level)
  | .secondary _ => Avoids [".", "("]
  | .members _ _ => Avoids [".", "("]
  | .primary _ => Avoids ["("]
  | .arguments _ => Meets [")"]
  | .moreArguments _ => Meets [")"]

/-- The rule of the phrase reads it from the first tokens and leaves the second. A block ends at
any of its terminators, and arguments end behind the parenthesis. -/
def Accepts : Phrase → List Token → List Token → Prop
  | .source tree, ts, rest => (source ts).Returns tree rest
  | .fields trees, ts, rest => (fields ts).Returns trees rest
  | .methods trees, ts, rest => (methods ts).Returns trees rest
  | .constMark present, ts, rest => (accept "CONST" ts).Returns present rest
  | .typeClause name, ts, rest => (typeClause ts).Returns name rest
  | .initialValue tree, ts, rest => (initialValue ts).Returns tree rest
  | .parameters ps, ts, rest => (parameters ts).Returns ps rest
  | .moreParameters ps, ts, rest => (moreParameters ts).Returns ps rest
  | .statements trees, ts, rest => ∀ terminators, terminators ⊆ ["ELSE", "END"] →
      Meets terminators rest → (block terminators ts).Returns trees rest
  | .statement tree, ts, rest => (statement ts).Returns tree rest
  | .elseBranch trees, ts, rest => (elseBranch ts).Returns trees rest
  | .header tree, ts, rest => (loopAssignment ts).Returns tree rest
  | .operation level tree, ts, rest => (binaryExpression level ts).Returns tree rest
  | .operand level tree, ts, rest => (operand level ts).Returns tree rest
  | .operations level left tree, ts, rest => (binaryRest level left ts).Returns tree rest
  | .secondary tree, ts, rest => (secondaryExpression ts).Returns tree rest
  | .members node tree, ts, rest => (secondaryRest node ts).Returns tree rest
  | .primary tree, ts, rest => (primaryExpression ts).Returns tree rest
  | .arguments trees, ts, rest => (Rule.arguments ts).Returns trees rest.tail
  | .moreArguments trees, ts, rest => (Rule.moreArguments ts).Returns trees rest.tail

def Begins : Phrase → List Token → Prop
  | .operation _ _ | .operand _ _ | .secondary _ | .primary _ =>
    fun ts => ts ≠ [] ∧ Avoids (")" :: keywords) ts
  | .statement _ => fun ts => ts ≠ [] ∧ Avoids ["ELSE", "END"] ts
  | _ => fun _ => True

abbrev AllShaped (ts : List Token) : Prop := ∀ t ∈ ts, t.Shaped

variable {leaf : Token → Prop} {p : Phrase} {t n : Token} {ts rest : List Token}

theorem AllShaped.tail (h : AllShaped (t :: ts)) : AllShaped ts :=
  fun u hu => h u (List.mem_cons_of_mem t hu)

theorem AllShaped.head (h : AllShaped (t :: ts)) : t.Shaped := h t List.mem_cons_self

theorem Derivation.suffix (d : Derivation leaf p ts rest) : rest <:+ ts := by
  induction d <;> grind [List.IsSuffix.trans, List.suffix_cons]

theorem Derivation.shaped (d : Derivation leaf p ts rest) (h : AllShaped ts) : AllShaped rest :=
  fun t ht => h t (d.suffix.subset ht)

theorem noWord_of_kind (h : t.Shaped) (hk : t.kind ≠ .identifier) :
    NoWord t ∧ t.literal ∉ reserved := by
  have hres : t.literal ∉ reserved := fun hmem => hk (h.kind_of_reserved hmem)
  refine ⟨⟨?_, ?_, ?_⟩, hres⟩ <;> exact fun heq => hres (heq ▸ by decide)

theorem name_plain (hn : n.kind = .identifier ∧ plainLeaf n) (h : n.Shaped) :
    NoWord n ∧ n.literal ∉ reserved ∧ n.literal ∉ punctuation := by
  have hres : n.literal ∉ reserved := hn.2.1 hn.1
  refine ⟨⟨?_, ?_, ?_⟩, hres, fun hmem => ?_⟩
  · exact fun heq => hres (heq ▸ by decide)
  · exact fun heq => hres (heq ▸ by decide)
  · exact fun heq => hres (heq ▸ by decide)
  · exact absurd (hn.1.symm.trans (h.kind_of_punctuation hmem)) (by decide)

theorem name_ne_const (hn : n.kind = .identifier ∧ plainLeaf n) : n.literal ∉ ["CONST"] := by
  have hres : n.literal ∉ reserved := hn.2.1 hn.1
  exact fun hmem => hres (List.mem_singleton.mp hmem ▸ by decide)

/-- A token that is neither a sign nor a reserved word may begin an expression. -/
theorem avoids_openers (hsign : t.literal ∉ punctuation) (hword : t.literal ∉ reserved) :
    Avoids (")" :: keywords) (t :: ts) := by
  simp only [avoids_cons_iff, List.mem_cons, not_or]
  exact ⟨fun heq => hsign (heq ▸ by decide), fun hmem => hword (List.mem_append_left _ hmem)⟩

theorem avoids_openers_of_kind {kind : TokenKind} (h : t.Shaped) (hk : t.kind = kind)
    (hother : kind ≠ .operator ∧ kind ≠ .identifier) : Avoids (")" :: keywords) (t :: ts) := by
  subst hk
  exact avoids_openers (fun hmem => hother.1 (h.kind_of_punctuation hmem))
    (noWord_of_kind h hother.2).2

/-- Expressions begin with none of the keywords, and statements with none that ends a block. -/
theorem Derivation.begins (d : Derivation plainLeaf p ts rest) (h : AllShaped ts) :
    Begins p ts := by
  induction d with
  | declaration letWord => exact ⟨by simp, literal_not_mem letWord (by decide)⟩
  | ifStmt ifWord => exact ⟨by simp, literal_not_mem ifWord (by decide)⟩
  | forStmt forWord => exact ⟨by simp, literal_not_mem forWord (by decide)⟩
  | whileStmt whileWord => exact ⟨by simp, literal_not_mem whileWord (by decide)⟩
  | returnStmt returnWord => exact ⟨by simp, literal_not_mem returnWord (by decide)⟩
  | exprStmt whole stop ih => exact ⟨(ih h).1, (ih h).2.mono (by decide)⟩
  | assign left equals right stop ih₁ ih₂ => exact ⟨(ih₁ h).1, (ih₁ h).2.mono (by decide)⟩
  | operation first more ih₁ ih₂ => exact ih₁ h
  | operandTighter next inner ih => exact ih h
  | operandTightest last inner ih => exact ih h
  | secondary first more ih₁ ih₂ => exact ih₁ h
  | nilWord word => exact ⟨by simp, literal_not_mem word (by decide)⟩
  | trueWord word => exact ⟨by simp, literal_not_mem word (by decide)⟩
  | falseWord word => exact ⟨by simp, literal_not_mem word (by decide)⟩
  | integer number => exact ⟨by simp, avoids_openers_of_kind h.head number.1 (by decide)⟩
  | decimal number => exact ⟨by simp, avoids_openers_of_kind h.head number.1 (by decide)⟩
  | character quoted => exact ⟨by simp, avoids_openers_of_kind h.head quoted.1 (by decide)⟩
  | string quoted => exact ⟨by simp, avoids_openers_of_kind h.head quoted.1 (by decide)⟩
  | group opens => exact ⟨by simp, literal_not_mem opens (by decide)⟩
  | name name =>
    obtain ⟨-, hword, hsign⟩ := name_plain name h.head
    exact ⟨by simp, avoids_openers hsign hword⟩
  | call name =>
    obtain ⟨-, hword, hsign⟩ := name_plain name h.head
    exact ⟨by simp, avoids_openers hsign hword⟩
  | _ => trivial

theorem avoids_of_operations {level : Level} {left tree : Node}
    (d : Derivation leaf (.operations level left tree) ts rest)
    (h : Avoids (continuers level) rest) : Avoids (operandContinuers level) ts := by
  cases d with
  | operationsNil => exact h.mono (by cases level <;> decide)
  | operationsCons operator =>
    have hapart : ∀ s ∈ level.operators, s ∉ operandContinuers level := by cases level <;> decide
    exact hapart _ operator

theorem avoids_of_members {node tree : Node} (d : Derivation leaf (.members node tree) ts rest)
    (h : Avoids [".", "("] rest) : Avoids ["("] ts := by
  cases d with
  | membersNil => exact h.mono (by decide)
  | membersAccess point => exact literal_not_mem point (by decide)
  | membersCall point => exact literal_not_mem point (by decide)

theorem avoids_of_moreArguments {trees : List Node}
    (d : Derivation leaf (.moreArguments trees) ts rest) (h : Meets [")"] rest) :
    Avoids (continuers .logical) ts := by
  cases d with
  | moreArgumentsNil => exact avoids_of_meets h (by decide)
  | moreArgumentsCons comma => exact literal_not_mem comma (by decide)

theorem avoids_of_moreParameters {ps : List (String × Option String)}
    (d : Derivation leaf (.moreParameters ps) ts rest) (h : Meets [")"] rest) :
    Avoids [":"] ts := by
  cases d with
  | moreParametersNil => exact avoids_of_meets h (by decide)
  | moreParametersCons comma => exact literal_not_mem comma (by decide)

theorem avoids_of_initialValue {value : Node} (d : Derivation leaf (.initialValue value) ts rest)
    (h : Avoids [":"] rest) : Avoids [":"] ts := by
  cases d with
  | initialNone => exact h
  | initialSome equals => exact literal_not_mem equals (by decide)

theorem avoids_of_methods {trees : List Node} (d : Derivation leaf (.methods trees) ts []) :
    Avoids ["LET"] ts := by
  cases d with
  | methodsNil => trivial
  | methodsCons defWord => exact literal_not_mem defWord (by decide)

theorem meets_of_elseBranch {trees : List Node} (d : Derivation leaf (.elseBranch trees) ts rest)
    (h : Meets ["END"] rest) : Meets ["ELSE", "END"] ts := by
  cases d with
  | elseNone => exact h.mono (by decide)
  | elseSome elseWord => exact List.mem_cons.mpr (.inl elseWord)

theorem Derivation.accepts (d : Derivation plainLeaf p ts rest) (h : AllShaped ts)
    (hf : Follows p rest) : Accepts p ts rest := by
  -- What follows a part is the token with which the next part begins, or what follows the whole.
  induction d with
  | source fields methods ih₁ ih₂ =>
    subst hf
    exact source_returns (ih₁ h (avoids_of_methods methods)) (ih₂ (fields.shaped h) trivial)
  | fieldsNil => exact fields_nil hf
  | fieldsCons letWord mark name clause initial stop more ih₁ ih₂ ih₃ ih₄ =>
    have hn := mark.shaped h.tail
    have hv := clause.shaped hn.tail
    have hs := initial.shaped hv
    exact fields_cons letWord (ih₁ h.tail (name_ne_const name)) name.1
      (ih₂ hn.tail (avoids_of_initialValue initial (literal_not_mem stop (by decide))))
      (ih₃ hv (literal_not_mem stop (by decide))) stop (ih₄ hs.tail hf)
  | methodsNil => exact methods_nil hf
  | methodsCons defWord name opens params closes clause doWord statements endWord more
      ih₁ ih₂ ih₃ ih₄ =>
    have hr := params.shaped h.tail.tail.tail
    have hd := clause.shaped hr.tail
    have he := statements.shaped hd.tail
    exact methods_cons defWord name.1 opens
      (ih₁ h.tail.tail.tail (literal_mem closes (by decide))) closes
      (ih₂ hr.tail (literal_not_mem doWord (by decide))) doWord
      (ih₃ hd.tail (literal_mem endWord (by decide)) _ (by decide)
        (literal_mem endWord (by decide))) endWord (ih₄ he.tail hf)
  | constNone => exact returns_accept_of_avoids hf
  | constSome word => exact returns_accept word
  | typeNone => exact typeClause_none hf
  | typeSome colon name => exact typeClause_some colon name.1
  | initialNone => exact initialValue_none (hf.mono (by decide))
  | initialSome equals expression ih =>
    exact initialValue_some equals (ih h.tail (hf.mono (List.subset_cons_self _ _)))
  | parametersNone => exact parameters_nil hf
  | parametersSome name clause more ih₁ ih₂ =>
    have hsign := (name_plain name h.head).2.2
    exact parameters_cons (fun hmem => hsign (by simp_all [punctuation]))
      (parameter_returns name.1 (ih₁ h.tail (avoids_of_moreParameters more hf)))
      (ih₂ (clause.shaped h.tail) hf)
  | moreParametersNil => exact moreParameters_nil (avoids_of_meets hf (by decide))
  | moreParametersCons comma name clause more ih₁ ih₂ =>
    exact moreParameters_cons comma
      (parameter_returns name.1 (ih₁ h.tail.tail (avoids_of_moreParameters more hf)))
      (ih₂ (clause.shaped h.tail.tail) hf)
  | statementsNil => exact fun terminators _ hmeets => block_nil hmeets
  | @statementsCons first others ts mid rest head more ih₁ ih₂ =>
    intro terminators hsub hmeets
    obtain ⟨hne, havoid⟩ := head.begins h
    obtain ⟨t, us, rfl⟩ := List.exists_cons_of_ne_nil hne
    exact block_cons (havoid.mono hsub) (ih₁ h trivial)
      (ih₂ (head.shaped h) hf terminators hsub hmeets)
  | declaration letWord name clause initial stop ih₁ ih₂ =>
    exact statement_declaration letWord name.1
      (ih₁ h.tail.tail (avoids_of_initialValue initial (literal_not_mem stop (by decide))))
      (ih₂ (clause.shaped h.tail.tail) (literal_not_mem stop (by decide))) stop
  | @ifStmt _ _ e _ _ _ _ _ _ rest ifWord test doWord first second endWord ih₁ ih₂ ih₃ =>
    have hd := test.shaped h.tail
    have hend : Meets ["END"] (e :: rest) := literal_mem endWord (by decide)
    have helse := meets_of_elseBranch second hend
    exact statement_if ifWord (ih₁ h.tail (literal_not_mem doWord (by decide))) doWord
      (ih₂ hd.tail helse _ (by decide) helse)
      (ih₃ (first.shaped hd.tail) hend) endWord
  | elseNone => exact elseBranch_none (avoids_of_meets hf (by decide))
  | elseSome elseWord statements ih =>
    exact elseBranch_some elseWord (ih h.tail (hf.mono (by decide)) _ (by decide) hf)
  | forStmt forWord opens before stop₁ test stop₂ after closes statements endWord
      ih₁ ih₂ ih₃ ih₄ =>
    have hs₁ := before.shaped h.tail.tail
    have hs₂ := test.shaped hs₁.tail
    have hr := after.shaped hs₂.tail
    exact statement_for forWord opens (ih₁ h.tail.tail (literal_mem stop₁ (by decide))) stop₁
      (ih₂ hs₁.tail (literal_not_mem stop₂ (by decide))) stop₂
      (ih₃ hs₂.tail (literal_mem closes (by decide))) closes
      (ih₄ hr.tail (literal_mem endWord (by decide)) _ (by decide)
        (literal_mem endWord (by decide))) endWord
  | @headerNone ts =>
    cases ts with
    | nil => exact absurd hf id
    | cons t ts =>
      have hsub : [";", ")"] ⊆ punctuation := by decide
      have hmem : t.literal ∈ punctuation := hsub hf
      exact loopAssignment_none (by simp [h.head.kind_of_punctuation hmem])
  | headerSome name equals expression ih =>
    exact loopAssignment_some name.1 equals (ih h.tail.tail (avoids_of_meets hf (by decide)))
  | whileStmt whileWord test doWord statements endWord ih₁ ih₂ =>
    exact statement_while whileWord (ih₁ h.tail (literal_not_mem doWord (by decide))) doWord
      (ih₂ (test.shaped h.tail).tail (literal_mem endWord (by decide)) _ (by decide)
        (literal_mem endWord (by decide))) endWord
  | returnStmt returnWord expression stop ih =>
    exact statement_return returnWord (ih h.tail (literal_not_mem stop (by decide))) stop
  | exprStmt whole stop ih =>
    obtain ⟨hne, havoid⟩ := whole.begins h
    obtain ⟨t, us, rfl⟩ := List.exists_cons_of_ne_nil hne
    show (statement _).Returns _ _
    rw [statement_of_avoids (havoid.mono (by decide))]
    exact expressionStatement_plain (ih h (literal_not_mem stop (by decide))) stop
  | assign left equals right stop ih₁ ih₂ =>
    obtain ⟨hne, havoid⟩ := left.begins h
    obtain ⟨t, us, rfl⟩ := List.exists_cons_of_ne_nil hne
    show (statement _).Returns _ _
    rw [statement_of_avoids (havoid.mono (by decide))]
    exact expressionStatement_assign (ih₁ h (literal_not_mem equals (by decide))) equals
      (ih₂ (left.shaped h).tail (literal_not_mem stop (by decide))) stop
  | operation first more ih₁ ih₂ =>
    exact binaryExpression_returns (ih₁ h (avoids_of_operations more hf))
      (ih₂ (first.shaped h) hf)
  | operandTighter next inner ih =>
    exact operand_returns_tighter next (ih h (by simpa [Follows, operandContinuers, next] using hf))
  | operandTightest last inner ih =>
    exact operand_returns_tightest last (ih h (by simpa [Follows, operandContinuers, last] using hf))
  | @operationsNil level left ts => exact binaryRest_nil (hf.mono (by cases level <;> decide))
  | operationsCons operator next more ih₁ ih₂ =>
    exact binaryRest_cons operator (ih₁ h.tail (avoids_of_operations more hf))
      (ih₂ (next.shaped h.tail) hf)
  | secondary first more ih₁ ih₂ =>
    exact secondaryExpression_returns (ih₁ h (avoids_of_members more hf)) (ih₂ (first.shaped h) hf)
  | membersNil => exact secondaryRest_nil (hf.mono (by decide))
  | membersAccess point name more ih =>
    exact secondaryRest_access point name.1 (avoids_of_members more hf) (ih h.tail.tail hf)
  | membersCall point name opens list closes more ih₁ ih₂ =>
    exact secondaryRest_call point name.1 opens
      (ih₁ h.tail.tail.tail (literal_mem closes (by decide)))
      (ih₂ (list.shaped h.tail.tail.tail).tail hf)
  | nilWord word => exact primary_nil word
  | trueWord word => exact primary_true word
  | falseWord word => exact primary_false word
  | integer number =>
    exact primary_integer (noWord_of_kind h.head (by simp [number.1])).1 h.head number.1
      (number.2.2 number.1)
  | decimal number =>
    exact primary_decimal (noWord_of_kind h.head (by simp [number.1])).1 h.head number.1
  | character quoted =>
    exact primary_character (noWord_of_kind h.head (by simp [quoted.1])).1 quoted.1
  | string quoted =>
    exact primary_string (noWord_of_kind h.head (by simp [quoted.1])).1 quoted.1
  | group opens expression closes ih =>
    exact primary_group opens (h.head.kind_of_punctuation (opens ▸ by decide))
      (ih h.tail (literal_not_mem closes (by decide))) closes
  | name name =>
    obtain ⟨hno, -, hsign⟩ := name_plain name h.head
    exact primary_name hno name.1 (fun heq => hsign (heq ▸ by decide)) hf
  | call name opens list closes ih =>
    obtain ⟨hno, -, hsign⟩ := name_plain name h.head
    exact primary_call hno name.1 (fun heq => hsign (heq ▸ by decide)) opens
      (ih h.tail.tail (literal_mem closes (by decide)))
  | @argumentsNone ts =>
    cases ts with
    | nil => exact absurd hf id
    | cons r ts => exact arguments_none (List.mem_singleton.mp hf)
  | argumentsSome expression more ih₁ ih₂ =>
    obtain ⟨hne, havoid⟩ := expression.begins h
    obtain ⟨t, us, rfl⟩ := List.exists_cons_of_ne_nil hne
    exact arguments_some (havoid.mono (by decide)) (ih₁ h (avoids_of_moreArguments more hf))
      (ih₂ (expression.shaped h) hf)
  | @moreArgumentsNil ts =>
    cases ts with
    | nil => exact absurd hf id
    | cons r ts => exact moreArguments_none (List.mem_singleton.mp hf)
  | moreArgumentsCons comma expression more ih₁ ih₂ =>
    exact moreArguments_some comma (ih₁ h.tail (avoids_of_moreArguments more hf))
      (ih₂ (expression.shaped h.tail) hf)

end BlockScript.Grammar
