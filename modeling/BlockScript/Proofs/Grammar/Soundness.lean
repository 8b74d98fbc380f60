import BlockScript.Proofs.Grammar.Basic
import BlockScript.Proofs.Reading
/-!
# What is read is derivable

Every rule yields only trees that the grammar derives from the tokens it used. The rules of
expressions call each other, and so do those of statements; each group is one induction along the
calls, and the other rules follow from them step by step.
-/
namespace BlockScript.Grammar

open Rule Reading

abbrev Derives (p : Phrase) (ts rest : List Token) : Prop :=
  Nonempty (Derivation anyLeaf p ts rest)

theorem yields_expect (p : Pattern) (what : String) (ts : List Token) :
    (expect p what ts).Yields fun t rest => p.fits t = true ∧ ts = t :: rest := by
  cases ts with
  | nil => simp [expect]
  | cons t rest =>
    simp only [expect]
    split <;> simp_all

theorem yields_keyword (text : String) (ts : List Token) :
    (keyword text ts).Yields fun t rest => t.literal = text ∧ ts = t :: rest :=
  (yields_expect _ _ ts).imp fun t rest ⟨h, hts⟩ => ⟨by simpa [Pattern.fits] using h, hts⟩

theorem yields_sign (text : String) (ts : List Token) :
    (sign text ts).Yields fun t rest => t.literal = text ∧ ts = t :: rest :=
  (yields_expect _ _ ts).imp fun t rest ⟨h, hts⟩ => ⟨by simpa [Pattern.fits] using h, hts⟩

theorem yields_identifier (ts : List Token) :
    (identifier ts).Yields fun name rest =>
      ∃ t : Token, (t.kind = .identifier ∧ anyLeaf t) ∧ name = t.literal ∧ ts = t :: rest := by
  unfold identifier
  rw [yields_map]
  exact (yields_expect _ _ ts).imp fun t rest ⟨h, hts⟩ =>
    ⟨t, ⟨by simpa [Pattern.fits] using h, trivial⟩, rfl, hts⟩

theorem yields_accept (text : String) (ts : List Token) :
    (accept text ts).Yields fun used rest =>
      used = true ∧ (∃ t : Token, t.literal = text ∧ ts = t :: rest) ∨ used = false ∧ ts = rest := by
  cases ts with
  | nil => simp [accept]
  | cons t rest =>
    simp only [accept]
    split <;> simp_all

theorem yields_typeClause (ts : List Token) :
    (typeClause ts).Yields fun name rest => Derives (.typeClause name) ts rest := by
  cases ts with
  | nil =>
    simp only [typeClause, yields_done]
    exact ⟨.typeNone⟩
  | cons t ts =>
    simp only [typeClause]
    split
    · next h =>
      rw [yields_widen, yields_map]
      refine (yields_identifier ts).imp ?_
      rintro name rest ⟨n, hn, rfl, rfl⟩
      exact ⟨.typeSome (by simpa using h) hn⟩
    · exact yields_done.mpr ⟨.typeNone⟩

theorem eq_of_integerLiteral {t : Token} {value : Literal} (h : integerLiteral t = .ok value) :
    value = .integer (integerValue t.literal.toList) := by
  unfold integerLiteral at h
  split at h
  · cases h
  · split at h
    · next n hn =>
      cases h
      rw [eq_integerValue hn]
    · cases h

theorem eq_of_decimalLiteral {t : Token} {value : Literal} (h : decimalLiteral t = .ok value) :
    value = .decimal (decimalValue t.literal.toList) := by
  unfold decimalLiteral at h
  split at h
  · next d hd =>
    cases h
    rw [eq_decimalValue hd]
  · cases h

def Reads {k : Nat} {ts : List Token} (r : Parse Node k ts.length) (p : Node → Phrase) : Prop :=
  r.Yields fun n rest => Derives (p n) ts rest

def ReadsClosed {k : Nat} {ts : List Token} (r : Parse (List Node) k ts.length)
    (p : List Node → Phrase) : Prop :=
  r.Yields fun ns rest => ∃ t : Token, t.literal = ")" ∧ Derives (p ns) ts (t :: rest)

/-- What the rules of expressions read from fewer than `n` tokens is derivable. -/
structure SoundBelow (n : Nat) : Prop where
  operation : ∀ level ts, ts.length < n → Reads (binaryExpression level ts) (.operation level)
  operations : ∀ level left ts, ts.length < n →
    Reads (binaryRest level left ts) (.operations level left)
  operand : ∀ level ts, ts.length < n → Reads (operand level ts) (.operand level)
  members : ∀ node ts, ts.length < n → Reads (secondaryRest node ts) (.members node)
  arguments : ∀ ts, ts.length < n → ReadsClosed (Rule.arguments ts) .arguments
  moreArguments : ∀ ts, ts.length < n → ReadsClosed (Rule.moreArguments ts) .moreArguments

variable {ts : List Token}

theorem operations_sound (h : SoundBelow ts.length) (level : Level) (left : Node) :
    Reads (binaryRest level left ts) (.operations level left) := by
  cases ts with
  | nil =>
    rw [binaryRest]
    exact yields_done.mpr ⟨.operationsNil⟩
  | cons o ts =>
    rw [Reads, binaryRest]
    split
    · next ho =>
      rw [yields_widen, yields_andThen]
      intro right mid hr used n rest hn
      obtain ⟨d₁⟩ := h.operand level ts (by simp) right mid hr
      obtain ⟨d₂⟩ := h.operations level _ mid (by simp only [List.length_cons]; omega) n rest hn
      exact ⟨.operationsCons (by simpa using ho) d₁ d₂⟩
    · exact yields_done.mpr ⟨.operationsNil⟩

theorem members_sound (h : SoundBelow ts.length) (node : Node) :
    Reads (secondaryRest node ts) (.members node) := by
  cases ts with
  | nil =>
    rw [secondaryRest]
    exact yields_done.mpr ⟨.membersNil⟩
  | cons p ts =>
    rw [Reads, secondaryRest]
    split
    · next hp =>
      rw [yields_widen, yields_andThen]
      refine (yields_identifier ts).imp ?_
      rintro name mid ⟨n, hn, rfl, rfl⟩ used
      cases mid with
      | nil => exact yields_done.mpr ⟨.membersAccess (by simpa using hp) hn .membersNil⟩
      | cons l mid =>
        dsimp only
        split
        · next hl =>
          rw [yields_widen, yields_andThen]
          intro args after hargs used' tree rest htree
          obtain ⟨r, hr, ⟨d₁⟩⟩ :=
            h.arguments mid (by simp only [List.length_cons]; omega) args after hargs
          obtain ⟨d₂⟩ := h.members _ after (by simp only [List.length_cons]; omega) tree rest htree
          exact ⟨.membersCall (by simpa using hp) hn (by simpa using hl) d₁ hr d₂⟩
        · intro tree rest htree
          obtain ⟨d⟩ := h.members _ (l :: mid) (by simp) tree rest htree
          exact ⟨.membersAccess (by simpa using hp) hn d⟩
    · exact yields_done.mpr ⟨.membersNil⟩

theorem primary_sound (h : SoundBelow ts.length) : Reads (primaryExpression ts) .primary := by
  cases ts with
  | nil =>
    rw [primaryExpression]
    exact yields_failed
  | cons t ts =>
    rw [Reads, primaryExpression.eq_def]
    dsimp only
    -- the three words
    split
    · next hw => exact yields_done.mpr ⟨.nilWord (by simpa using hw)⟩
    split
    · next hw => exact yields_done.mpr ⟨.trueWord (by simpa using hw)⟩
    split
    · next hw => exact yields_done.mpr ⟨.falseWord (by simpa using hw)⟩
    -- the tokens that are literals
    split
    · next hk =>
      split
      · next value hv =>
        rw [eq_of_integerLiteral hv]
        exact yields_done.mpr ⟨.integer ⟨by simpa using hk, trivial⟩⟩
      · exact yields_failed
    split
    · next hk =>
      split
      · next value hv =>
        rw [eq_of_decimalLiteral hv]
        exact yields_done.mpr ⟨.decimal ⟨by simpa using hk, trivial⟩⟩
      · exact yields_failed
    split
    · next hk => exact yields_done.mpr ⟨.character ⟨by simpa using hk, trivial⟩⟩
    split
    · next hk => exact yields_done.mpr ⟨.string ⟨by simpa using hk, trivial⟩⟩
    -- parentheses
    split
    · next hl =>
      simp only [yields_widen, yields_andThen, yields_map]
      intro inner mid hi used
      refine (yields_sign ")" mid).imp ?_
      rintro r rest ⟨hr, rfl⟩
      obtain ⟨d⟩ := h.operation .logical ts (by simp) inner _ hi
      exact ⟨.group (by simpa using hl) d hr⟩
    -- a name or a call
    split
    · next hn =>
      cases ts with
      | nil => exact yields_done.mpr ⟨.name ⟨by simpa using hn, trivial⟩⟩
      | cons l ts =>
        dsimp only
        split
        · next hl =>
          rw [yields_widen, yields_map]
          intro args rest hargs
          obtain ⟨r, hr, ⟨d⟩⟩ :=
            h.arguments ts (by simp only [List.length_cons]; omega) args rest hargs
          exact ⟨.call ⟨by simpa using hn, trivial⟩ (by simpa using hl) d hr⟩
        · exact yields_done.mpr ⟨.name ⟨by simpa using hn, trivial⟩⟩
    · exact yields_failed

theorem secondary_sound (h : SoundBelow ts.length) : Reads (secondaryExpression ts) .secondary := by
  rw [Reads, secondaryExpression, yields_weaken, yields_andThen]
  intro node mid hp used n rest hn
  obtain ⟨d₁⟩ := primary_sound h node mid hp
  obtain ⟨d₂⟩ := h.members node mid (by omega) n rest hn
  exact ⟨.secondary d₁ d₂⟩

/-- A level reads what its operands read, with operators between them. -/
theorem operation_sound_of_operand (h : SoundBelow ts.length) {level : Level}
    (ho : Reads (operand level ts) (.operand level)) :
    Reads (binaryExpression level ts) (.operation level) := by
  rw [Reads, binaryExpression, yields_weaken, yields_andThen]
  intro left mid hl used n rest hn
  obtain ⟨d₁⟩ := ho left mid hl
  obtain ⟨d₂⟩ := h.operations level left mid (by omega) n rest hn
  exact ⟨.operation d₁ d₂⟩

theorem operand_sound_of_tighter {level tighter : Level} (ht : level.tighter? = some tighter)
    (h : Reads (binaryExpression tighter ts) (.operation tighter)) :
    Reads (operand level ts) (.operand level) := by
  rw [Reads, operand]
  split
  · next l hl =>
    obtain rfl : tighter = l := Option.some.inj (ht.symm.trans hl)
    exact h.imp fun _ _ => Nonempty.map (.operandTighter ht)
  · next hn => cases ht.symm.trans hn

theorem operand_sound (h : SoundBelow ts.length) (level : Level) :
    Reads (operand level ts) (.operand level) := by
  have hm : Reads (operand .multiplicative ts) (.operand .multiplicative) := by
    rw [Reads, operand]
    exact (secondary_sound h).imp fun n rest ⟨d⟩ => ⟨.operandTightest rfl d⟩
  have ha : Reads (operand .additive ts) (.operand .additive) :=
    operand_sound_of_tighter rfl (operation_sound_of_operand h hm)
  have hc : Reads (operand .comparison ts) (.operand .comparison) :=
    operand_sound_of_tighter rfl (operation_sound_of_operand h ha)
  have hl : Reads (operand .logical ts) (.operand .logical) :=
    operand_sound_of_tighter rfl (operation_sound_of_operand h hc)
  cases level <;> assumption

theorem moreArguments_sound (h : SoundBelow ts.length) :
    ReadsClosed (Rule.moreArguments ts) .moreArguments := by
  have hclose : (sign ")" ts).Yields fun _ rest =>
      ∃ t : Token, t.literal = ")" ∧ Derives (.moreArguments []) ts (t :: rest) :=
    (yields_sign ")" ts).imp fun r rest ⟨hr, hts⟩ => ⟨r, hr, hts ▸ ⟨.moreArgumentsNil⟩⟩
  cases ts with
  | nil =>
    rw [ReadsClosed, Rule.moreArguments, yields_map]
    exact hclose
  | cons c ts =>
    rw [ReadsClosed, Rule.moreArguments]
    split
    · next hc =>
      simp only [yields_widen, yields_andThen, yields_map]
      intro next mid hn used others rest ho
      obtain ⟨d₁⟩ := h.operation .logical ts (by simp) next mid hn
      obtain ⟨r, hr, ⟨d₂⟩⟩ :=
        h.moreArguments mid (by simp only [List.length_cons]; omega) others rest ho
      exact ⟨r, hr, ⟨.moreArgumentsCons (by simpa using hc) d₁ d₂⟩⟩
    · rw [yields_map]
      exact hclose

theorem arguments_sound (h : SoundBelow ts.length) :
    ReadsClosed (Rule.arguments ts) .arguments := by
  cases ts with
  | nil =>
    rw [ReadsClosed, Rule.arguments]
    exact yields_failed
  | cons t ts =>
    rw [ReadsClosed, Rule.arguments]
    split
    · next ht => exact yields_done.mpr ⟨t, by simpa using ht, ⟨.argumentsNone⟩⟩
    · simp only [yields_weaken, yields_andThen, yields_map]
      intro first mid hf used others rest ho
      obtain ⟨d₁⟩ := operation_sound_of_operand h (operand_sound h .logical) first mid hf
      obtain ⟨r, hr, ⟨d₂⟩⟩ := h.moreArguments mid (by omega) others rest ho
      exact ⟨r, hr, ⟨.argumentsSome d₁ d₂⟩⟩

theorem soundBelow (n : Nat) : SoundBelow n := by
  induction n with
  | zero => constructor <;> intros <;> omega
  | succ n ih =>
    have below {ts : List Token} (hts : ts.length < n + 1) : SoundBelow ts.length := by
      obtain heq | hlt := Nat.eq_or_lt_of_le (Nat.le_of_lt_succ hts)
      · exact heq ▸ ih
      · exact
          { operation := fun level us hu => ih.operation level us (by omega)
            operations := fun level left us hu => ih.operations level left us (by omega)
            operand := fun level us hu => ih.operand level us (by omega)
            members := fun node us hu => ih.members node us (by omega)
            arguments := fun us hu => ih.arguments us (by omega)
            moreArguments := fun us hu => ih.moreArguments us (by omega) }
    exact
      { operation := fun level us hu =>
          operation_sound_of_operand (below hu) (operand_sound (below hu) level)
        operations := fun level left us hu => operations_sound (below hu) level left
        operand := fun level us hu => operand_sound (below hu) level
        members := fun node us hu => members_sound (below hu) node
        arguments := fun us hu => arguments_sound (below hu)
        moreArguments := fun us hu => moreArguments_sound (below hu) }

/-- What is read as an expression is derivable as one. -/
theorem expression_sound (ts : List Token) : Reads (expression ts) (.operation .logical) :=
  (soundBelow (ts.length + 1)).operation .logical ts (by omega)

theorem initialValue_sound (ts : List Token) : Reads (initialValue ts) .initialValue := by
  cases ts with
  | nil => exact yields_done.mpr ⟨.initialNone⟩
  | cons q ts =>
    simp only [Reads, initialValue]
    split
    · next hq =>
      rw [yields_widen]
      exact (expression_sound ts).imp fun _ _ => Nonempty.map (.initialSome (by simpa using hq))
    · exact yields_done.mpr ⟨.initialNone⟩

theorem declarationStatement_sound (ts : List Token) :
    Reads (declarationStatement ts) .statement := by
  simp only [Reads, declarationStatement, yields_weaken, yields_andThen, yields_map]
  refine (yields_keyword "LET" ts).imp ?_
  rintro t ts₁ ⟨ht, rfl⟩ -
  refine (yields_identifier ts₁).imp ?_
  rintro _ ts₂ ⟨n, hn, rfl, rfl⟩ -
  refine (yields_typeClause ts₂).imp ?_
  rintro type ts₃ ⟨d₁⟩ -
  refine (initialValue_sound ts₃).imp ?_
  rintro value ts₄ ⟨d₂⟩ -
  refine (yields_sign ";" ts₄).imp ?_
  rintro s rest ⟨hs, rfl⟩
  exact ⟨.declaration ht hn d₁ d₂ hs⟩

theorem returnStatement_sound (ts : List Token) : Reads (returnStatement ts) .statement := by
  simp only [Reads, returnStatement, yields_weaken, yields_andThen, yields_map]
  refine (yields_keyword "RETURN" ts).imp ?_
  rintro t ts₁ ⟨ht, rfl⟩ -
  refine (expression_sound ts₁).imp ?_
  rintro value ts₂ ⟨d⟩ -
  refine (yields_sign ";" ts₂).imp ?_
  rintro s rest ⟨hs, rfl⟩
  exact ⟨.returnStmt ht d hs⟩

theorem expressionStatement_sound (ts : List Token) :
    Reads (expressionStatement ts) .statement := by
  simp only [Reads, expressionStatement, yields_weaken, yields_andThen]
  refine (expression_sound ts).imp ?_
  rintro left ts₁ ⟨d₁⟩ -
  refine (yields_accept "=" ts₁).imp ?_
  rintro assigned ts₂ (⟨rfl, q, hq, rfl⟩ | ⟨rfl, rfl⟩) -
  · simp only [if_true, yields_weaken, yields_andThen, yields_map]
    refine (expression_sound ts₂).imp ?_
    rintro value ts₃ ⟨d₂⟩ -
    refine (yields_sign ";" ts₃).imp ?_
    rintro s rest ⟨hs, rfl⟩
    exact ⟨.assign d₁ hq d₂ hs⟩
  · simp only [Bool.false_eq_true, if_false, yields_map]
    refine (yields_sign ";" ts₁).imp ?_
    rintro s rest ⟨hs, rfl⟩
    exact ⟨.exprStmt d₁ hs⟩

theorem loopAssignment_sound (ts : List Token) : Reads (loopAssignment ts) .header := by
  cases ts with
  | nil => exact yields_done.mpr ⟨.headerNone⟩
  | cons t ts =>
    simp only [Reads, loopAssignment]
    split
    · simp only [yields_weaken, yields_andThen, yields_map]
      refine (yields_identifier (t :: ts)).imp ?_
      rintro _ ts₁ ⟨n, hn, rfl, hts⟩ -
      refine (yields_sign "=" ts₁).imp ?_
      rintro q ts₂ ⟨hq, rfl⟩ -
      refine (expression_sound ts₂).imp ?_
      rintro value rest ⟨d⟩
      exact hts ▸ ⟨.headerSome hn hq d⟩
    · exact yields_done.mpr ⟨.headerNone⟩

def BlocksSoundBelow (n : Nat) : Prop :=
  ∀ terminators ts, ts.length < n →
    (block terminators ts).Yields fun ns rest => Derives (.statements ns) ts rest

theorem ifStatement_sound (h : BlocksSoundBelow ts.length) :
    Reads (ifStatement ts) .statement := by
  rw [Reads, ifStatement]
  simp only [yields_weaken, yields_andThen, yields_map]
  refine (yields_keyword "IF" ts).imp ?_
  rintro t ts₁ ⟨ht, rfl⟩ -
  intro condition ts₂ hc used₂
  obtain ⟨d₁⟩ := expression_sound ts₁ condition ts₂ hc
  refine (yields_keyword "DO" ts₂).imp ?_
  rintro d ts₃ ⟨hd, rfl⟩ -
  intro thens ts₄ hthens used₄
  simp only [List.length_cons] at used₂
  obtain ⟨d₂⟩ := h _ ts₃ (by simp only [List.length_cons]; omega) thens ts₄ hthens
  intro elses ts₅ helses used₅
  refine (yields_keyword "END" ts₅).imp ?_
  rintro e rest ⟨he, rfl⟩
  cases ts₄ with
  | nil => simp at used₅
  | cons t' ts₄ =>
    rw [elseBranch] at helses
    split at helses
    · next ht' =>
      rw [outcome_widen] at helses
      obtain ⟨d₃⟩ := h _ ts₄ (by simp only [List.length_cons] at *; omega) elses _ helses
      exact ⟨.ifStmt ht d₁ hd d₂ (.elseSome (by simpa using ht') d₃) he⟩
    · obtain ⟨rfl, heq⟩ := returns_done.mp helses
      exact ⟨.ifStmt ht d₁ hd d₂ (heq ▸ .elseNone) he⟩

theorem forStatement_sound (h : BlocksSoundBelow ts.length) :
    Reads (forStatement ts) .statement := by
  rw [Reads, forStatement]
  simp only [yields_weaken, yields_andThen, yields_map]
  refine (yields_keyword "FOR" ts).imp ?_
  rintro t ts₁ ⟨ht, rfl⟩ -
  refine (yields_sign "(" ts₁).imp ?_
  rintro l ts₂ ⟨hl, rfl⟩ -
  intro initialization ts₃ hi used₃
  obtain ⟨d₁⟩ := loopAssignment_sound ts₂ initialization ts₃ hi
  refine (yields_sign ";" ts₃).imp ?_
  rintro s₁ ts₄ ⟨hs₁, rfl⟩ -
  intro condition ts₅ hc used₅
  obtain ⟨d₂⟩ := expression_sound ts₄ condition ts₅ hc
  refine (yields_sign ";" ts₅).imp ?_
  rintro s₂ ts₆ ⟨hs₂, rfl⟩ -
  intro increment ts₇ hinc used₇
  obtain ⟨d₃⟩ := loopAssignment_sound ts₆ increment ts₇ hinc
  refine (yields_sign ")" ts₇).imp ?_
  rintro r ts₈ ⟨hr, rfl⟩ -
  intro body ts₉ hb used₉
  simp only [List.length_cons] at used₃ used₅ used₇
  obtain ⟨d₄⟩ := h _ ts₈ (by simp only [List.length_cons]; omega) body ts₉ hb
  refine (yields_keyword "END" ts₉).imp ?_
  rintro e rest ⟨he, rfl⟩
  exact ⟨.forStmt ht hl d₁ hs₁ d₂ hs₂ d₃ hr d₄ he⟩

theorem whileStatement_sound (h : BlocksSoundBelow ts.length) :
    Reads (whileStatement ts) .statement := by
  rw [Reads, whileStatement]
  simp only [yields_weaken, yields_andThen, yields_map]
  refine (yields_keyword "WHILE" ts).imp ?_
  rintro t ts₁ ⟨ht, rfl⟩ -
  intro condition ts₂ hc used₂
  obtain ⟨d₁⟩ := expression_sound ts₁ condition ts₂ hc
  refine (yields_keyword "DO" ts₂).imp ?_
  rintro d ts₃ ⟨hd, rfl⟩ -
  intro body ts₄ hb used₄
  simp only [List.length_cons] at used₂
  obtain ⟨d₂⟩ := h _ ts₃ (by simp only [List.length_cons]; omega) body ts₄ hb
  refine (yields_keyword "END" ts₄).imp ?_
  rintro e rest ⟨he, rfl⟩
  exact ⟨.whileStmt ht d₁ hd d₂ he⟩

theorem statement_sound (h : BlocksSoundBelow ts.length) : Reads (statement ts) .statement := by
  cases ts with
  | nil =>
    rw [statement]
    exact expressionStatement_sound []
  | cons t ts =>
    rw [Reads, statement]
    split
    · exact declarationStatement_sound _
    split
    · exact ifStatement_sound h
    split
    · exact forStatement_sound h
    split
    · exact whileStatement_sound h
    split
    · exact returnStatement_sound _
    · exact expressionStatement_sound _

theorem blocksSoundBelow (n : Nat) : BlocksSoundBelow n := by
  induction n with
  | zero =>
    intro terminators ts hts
    omega
  | succ n ih =>
    intro terminators ts hts
    have hbelow : BlocksSoundBelow ts.length := fun ws us hu => ih ws us (by omega)
    cases ts with
    | nil =>
      rw [block]
      exact yields_failed
    | cons t ts =>
      rw [block]
      split
      · exact yields_done.mpr ⟨.statementsNil⟩
      · simp only [yields_weaken, yields_andThen, yields_map]
        intro first mid hf used others rest ho
        obtain ⟨d₁⟩ := statement_sound hbelow first mid hf
        obtain ⟨d₂⟩ := ih terminators mid (by omega) others rest ho
        exact ⟨.statementsCons d₁ d₂⟩

/-- What is read as the statements of a block is derivable as statements. -/
theorem block_sound (terminators : List String) (ts : List Token) :
    (block terminators ts).Yields fun ns rest => Derives (.statements ns) ts rest :=
  blocksSoundBelow (ts.length + 1) terminators ts (by omega)

theorem yields_parameter (ts : List Token) :
    (parameter ts).Yields fun p rest => ∃ (n : Token) (mid : List Token),
      (n.kind = .identifier ∧ anyLeaf n) ∧ p.1 = n.literal ∧ ts = n :: mid ∧
        Derives (.typeClause p.2) mid rest := by
  simp only [parameter, yields_weaken, yields_andThen, yields_map]
  refine (yields_identifier ts).imp ?_
  rintro _ mid ⟨n, hn, rfl, rfl⟩ -
  exact (yields_typeClause mid).imp fun type rest d => ⟨n, mid, hn, rfl, rfl, d⟩

theorem moreParameters_sound (ts : List Token) :
    (moreParameters ts).Yields fun ps rest => Derives (.moreParameters ps) ts rest := by
  cases ts with
  | nil =>
    rw [moreParameters]
    exact yields_done.mpr ⟨.moreParametersNil⟩
  | cons c ts =>
    rw [moreParameters]
    split
    · next hc =>
      simp only [yields_widen, yields_andThen, yields_map]
      intro p mid hp used ps rest hps
      obtain ⟨n, mid', hn, hname, rfl, ⟨d₁⟩⟩ := yields_parameter ts p mid hp
      simp only [List.length_cons] at used
      obtain ⟨d₂⟩ := moreParameters_sound mid ps rest hps
      obtain ⟨name, type⟩ := p
      subst hname
      exact ⟨.moreParametersCons (by simpa using hc) hn d₁ d₂⟩
    · exact yields_done.mpr ⟨.moreParametersNil⟩
termination_by ts.length

theorem parameters_sound (ts : List Token) :
    (parameters ts).Yields fun ps rest => Derives (.parameters ps) ts rest := by
  unfold parameters
  split
  · exact yields_done.mpr ⟨.parametersNone⟩
  · simp only [yields_weaken, yields_andThen, yields_map]
    intro p mid hp used ps rest hps
    obtain ⟨n, mid', hn, hname, rfl, ⟨d₁⟩⟩ := yields_parameter ts p mid hp
    obtain ⟨d₂⟩ := moreParameters_sound mid ps rest hps
    obtain ⟨name, type⟩ := p
    subst hname
    exact ⟨.parametersSome hn d₁ d₂⟩

theorem fields_sound (ts : List Token) :
    (fields ts).Yields fun fs rest => Derives (.fields fs) ts rest := by
  cases ts with
  | nil =>
    rw [fields]
    exact yields_done.mpr ⟨.fieldsNil⟩
  | cons t ts =>
    rw [fields]
    split
    · simp only [yields_weaken, yields_andThen, yields_map, field]
      refine (yields_keyword "LET" (t :: ts)).imp ?_
      rintro t' ts₁ ⟨ht, hts⟩ used₁
      obtain ⟨rfl, rfl⟩ := List.cons.inj hts
      intro constant ts₂ hmark used₂
      refine (yields_identifier ts₂).imp ?_
      rintro _ ts₃ ⟨n, hn, rfl, rfl⟩ used₃
      intro type ts₄ hclause used₄
      obtain ⟨d₂⟩ := yields_typeClause ts₃ type ts₄ hclause
      intro value ts₅ hvalue used₅
      obtain ⟨d₃⟩ := initialValue_sound ts₄ value ts₅ hvalue
      refine (yields_sign ";" ts₅).imp ?_
      rintro s ts₆ ⟨hs, rfl⟩ used fs rest hfs
      have hshorter : ts₆.length < ts.length + 1 := used
      obtain ⟨d₄⟩ := fields_sound ts₆ fs rest hfs
      obtain ⟨rfl, c, hc, rfl⟩ | ⟨rfl, rfl⟩ := yields_accept "CONST" ts _ _ hmark
      · exact ⟨.fieldsCons ht (.constSome hc) hn d₂ d₃ hs d₄⟩
      · exact ⟨.fieldsCons ht .constNone hn d₂ d₃ hs d₄⟩
    · exact yields_done.mpr ⟨.fieldsNil⟩
termination_by ts.length

theorem methods_sound (ts : List Token) :
    (methods ts).Yields fun ms rest => Derives (.methods ms) ts rest := by
  cases ts with
  | nil =>
    rw [methods]
    exact yields_done.mpr ⟨.methodsNil⟩
  | cons t ts =>
    rw [methods]
    split
    · simp only [yields_weaken, yields_andThen, yields_map, method]
      refine (yields_keyword "DEF" (t :: ts)).imp ?_
      rintro t' ts₁ ⟨ht, hts⟩ used₁
      obtain ⟨rfl, rfl⟩ := List.cons.inj hts
      refine (yields_identifier ts).imp ?_
      rintro _ ts₂ ⟨n, hn, rfl, rfl⟩ used₂
      refine (yields_sign "(" ts₂).imp ?_
      rintro l ts₃ ⟨hl, rfl⟩ used₃
      intro ps ts₄ hps used₄
      obtain ⟨d₁⟩ := parameters_sound ts₃ ps ts₄ hps
      refine (yields_sign ")" ts₄).imp ?_
      rintro r ts₅ ⟨hr, rfl⟩ used₅
      intro type ts₆ hclause used₆
      obtain ⟨d₂⟩ := yields_typeClause ts₅ type ts₆ hclause
      refine (yields_keyword "DO" ts₆).imp ?_
      rintro d ts₇ ⟨hd, rfl⟩ used₇
      intro body ts₈ hbody used₈
      obtain ⟨d₃⟩ := block_sound _ ts₇ body ts₈ hbody
      refine (yields_keyword "END" ts₈).imp ?_
      rintro e ts₉ ⟨he, rfl⟩ used ms rest hms
      have hshorter : ts₉.length < (n :: l :: ts₃).length + 1 := used
      obtain ⟨d₄⟩ := methods_sound ts₉ ms rest hms
      exact ⟨.methodsCons ht hn hl d₁ hr d₂ hd d₃ he d₄⟩
    · exact yields_done.mpr ⟨.methodsNil⟩
termination_by ts.length

/-- A program that is read is derivable from all of its tokens. -/
theorem source_sound (ts : List Token) :
    (source ts).Yields fun tree rest => rest = [] ∧ Derives (.source tree) ts [] := by
  simp only [source, yields_weaken, yields_andThen, yields_map]
  intro fs mid hfs _ ms rest hms _
  obtain ⟨d₁⟩ := fields_sound ts fs mid hfs
  obtain ⟨d₂⟩ := methods_sound mid ms rest hms
  cases rest with
  | nil => exact yields_done.mpr ⟨rfl, ⟨.source d₁ d₂⟩⟩
  | cons t rest => exact yields_failed

end BlockScript.Grammar
