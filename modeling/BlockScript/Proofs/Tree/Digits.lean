import BlockScript.Program
/-!
# Integers that are too long to be read

Reading fails with an integer of too many digits exactly when it takes such a token. Every rule
takes some tokens from the front of what it is given before it ends, whether it succeeds or fails,
and a fault without a place is that of a number which it takes.
-/
namespace BlockScript

/-- The token is no integer, or it has at most as many digits as can be read. -/
def Token.Readable (t : Token) : Prop :=
  t.kind = .integer → (Text.splitSign t.literal.toList).2.length ≤ Text.digitLimit

theorem Text.splitSign_length_le (cs : List Char) : (splitSign cs).2.length ≤ cs.length := by
  unfold splitSign
  split <;> simp

theorem Token.readable_of_literal {t : Token} {text : String} (h : t.literal = text)
    (hs : text.length ≤ Text.digitLimit) : t.Readable := by
  intro _
  subst h
  exact Nat.le_trans (Text.splitSign_length_le _) hs

theorem Token.readable_of_kind {t : Token} (h : t.kind ≠ .integer) : t.Readable :=
  fun hk => absurd hk h

namespace Rule

open Reading Token

variable {α β : Type} {j k m n : Nat} {ts : List Token}

/-- The token is a number, and this is its value or the fault of it. -/
def NumberReads (t : Token) (result : Except ParseFault Literal) : Prop :=
  t.kind = .integer ∧ integerLiteral t = result ∨ t.kind = .decimal ∧ decimalLiteral t = result

/-- The rule takes tokens from the front of `ts`. It fails for too many digits if and only if it
takes an integer that has too many, and without a place only for a number that it takes. -/
def Takes (ts : List Token) (r : Parse α k n) : Prop :=
  ∃ taken, ts = taken ++ r.outcome.2 ∧
    ((∃ t ∈ taken, ¬t.Readable) ↔ r.outcome.1 = .error .tooManyDigits) ∧
    ∀ fault, r.outcome.1 = .error fault →
      fault.isPlaced = true ∨ ∃ t ∈ taken, NumberReads t (.error fault)

theorem takes_done {a : α} {rest : List Token} {used : rest.length + k ≤ n} :
    Takes rest (.done a rest used : Parse α k n) :=
  ⟨[], rfl, by simp [outcome], by simp [outcome]⟩

theorem takes_failed {cause : ParseFault} {rest : List Token} {within : rest.length ≤ n}
    (h : cause.isPlaced = true) : Takes rest (.failed cause rest within : Parse α k n) := by
  have hne : cause ≠ .tooManyDigits := by
    rintro rfl
    cases h
  exact ⟨[], rfl, by simp [outcome, hne], by simp [outcome, h]⟩

/-- Taking a readable token first. -/
theorem Takes.cons {r : Parse α k n} {t : Token} (ht : t.Readable) (h : Takes ts r) :
    Takes (t :: ts) r := by
  obtain ⟨taken, hts, hiff, hfault⟩ := h
  refine ⟨t :: taken, by rw [hts]; rfl, ?_, fun fault hout => ?_⟩
  · simp only [List.mem_cons, exists_eq_or_imp, not_true_eq_false, ht, false_or]
    exact hiff
  · exact (hfault fault hout).imp_right fun ⟨u, hu, hnumber⟩ =>
      ⟨u, List.mem_cons_of_mem _ hu, hnumber⟩

theorem Takes.andThen {r : Parse α k n}
    {next : (a : α) → (rest : List Token) → rest.length + k ≤ n → Parse β j rest.length}
    (h : Takes ts r) (hnext : ∀ a rest used, Takes rest (next a rest used)) :
    Takes ts (r.andThen next) := by
  obtain ⟨taken, hts, hiff, hfault⟩ := h
  cases r with
  | failed cause rest within =>
    exact ⟨taken, hts, hiff.trans (by simp [Reading.andThen, outcome]), fun fault hout =>
      hfault fault (by simpa [Reading.andThen, outcome] using hout)⟩
  | done a rest used =>
    obtain ⟨taken', hrest, hiff', hfault'⟩ := hnext a rest used
    have hno : ¬∃ t ∈ taken, ¬t.Readable := by simp [hiff, outcome]
    have hout : ((Reading.done a rest used : Parse α k n).andThen next).outcome =
        (next a rest used).outcome := by
      simp only [Reading.andThen]
      cases next a rest used <;> rfl
    rw [Takes, hout]
    refine ⟨taken ++ taken', ?_, ?_, fun fault hout => ?_⟩
    · rw [hts, List.append_assoc, ← hrest]
      rfl
    · rw [← hiff']
      constructor
      · rintro ⟨t, ht, hbad⟩
        rcases List.mem_append.mp ht with ht | ht
        · exact absurd ⟨t, ht, hbad⟩ hno
        · exact ⟨t, ht, hbad⟩
      · rintro ⟨t, ht, hbad⟩
        exact ⟨t, List.mem_append_right _ ht, hbad⟩
    · exact (hfault' fault hout).imp_right fun ⟨t, ht, hnumber⟩ =>
        ⟨t, List.mem_append_right _ ht, hnumber⟩

@[simp] theorem takes_map {r : Parse α k n} {f : α → β} : Takes ts (r.map f) ↔ Takes ts r := by
  unfold Takes
  rw [outcome_map]
  cases r.outcome.1 <;> simp [Except.map]

@[simp] theorem takes_weaken {r : Parse α j n} {le : decide (k ≤ j) = true} :
    Takes ts (r.weaken le) ↔ Takes ts r := by
  simp [Takes]

@[simp] theorem takes_widen {r : Parse α j m} {bound : m + k ≤ n + j} {le : m ≤ n} :
    Takes ts (r.widen bound le) ↔ Takes ts r := by
  simp [Takes]

theorem takes_expect {p : Pattern} (hp : ∀ t, p.fits t = true → t.Readable) (what : String)
    (ts : List Token) : Takes ts (expect p what ts) := by
  cases ts with
  | nil => exact takes_failed rfl
  | cons t rest =>
    unfold expect
    dsimp only
    split
    · next ht => exact takes_done.cons (hp t ht)
    · exact takes_failed rfl

theorem takes_keyword {text : String} (hs : text.length ≤ Text.digitLimit) (ts : List Token) :
    Takes ts (keyword text ts) :=
  takes_expect (fun _ ht => readable_of_literal (by simpa [Pattern.fits] using ht) hs) _ ts

theorem takes_sign {text : String} (hs : text.length ≤ Text.digitLimit) (ts : List Token) :
    Takes ts (sign text ts) :=
  takes_expect (fun _ ht => readable_of_literal (by simpa [Pattern.fits] using ht) hs) _ ts

theorem readable_of_identifier {t : Token} (h : (t.kind == .identifier) = true) : t.Readable :=
  readable_of_kind (by simp [eq_of_beq h])

theorem takes_identifier (ts : List Token) : Takes ts (identifier ts) :=
  takes_map.mpr
    (takes_expect (fun _ ht => readable_of_identifier (by simpa [Pattern.fits] using ht)) _ ts)

theorem takes_accept {text : String} (hs : text.length ≤ Text.digitLimit) (ts : List Token) :
    Takes ts (accept text ts) := by
  cases ts with
  | nil => exact takes_done
  | cons t rest =>
    unfold accept
    dsimp only
    split
    · next ht => exact takes_done.cons (readable_of_literal (eq_of_beq ht) hs)
    · exact takes_done

theorem takes_typeClause (ts : List Token) : Takes ts (typeClause ts) := by
  cases ts with
  | nil => exact takes_done
  | cons t rest =>
    unfold typeClause
    dsimp only
    split
    · next ht =>
      rw [takes_widen, takes_map]
      exact (takes_identifier rest).cons (readable_of_literal (eq_of_beq ht) (by decide))
    · exact takes_done

theorem readable_of_operator {level : Level} {t : Token}
    (h : level.operators.contains t.literal = true) : t.Readable := by
  have hshort : ∀ text ∈ level.operators, text.length ≤ Text.digitLimit := by
    cases level <;> decide
  exact readable_of_literal rfl (hshort _ (by simpa using h))

theorem readable_of_integerLiteral {t : Token} {value : Literal}
    (h : integerLiteral t = .ok value) : t.Readable := by
  intro _
  unfold integerLiteral at h
  split at h
  · cases h
  · next hle => exact Nat.le_of_not_lt hle

/-- A number without a value is taken all the same. -/
theorem takes_number {t : Token} {fault : ParseFault} {rest : List Token}
    {within : rest.length ≤ n} (hnumber : NumberReads t (.error fault))
    (h : ¬t.Readable ↔ fault = .tooManyDigits) :
    Takes (t :: rest) (.failed fault rest within : Parse α k n) := by
  refine ⟨[t], rfl, by simp [outcome, h], fun fault' hout => .inr ⟨t, List.mem_cons_self, ?_⟩⟩
  cases hout
  exact hnumber

theorem integerLiteral_tooManyDigits_iff {t : Token} {fault : ParseFault} (hk : t.kind = .integer)
    (h : integerLiteral t = .error fault) : ¬t.Readable ↔ fault = .tooManyDigits := by
  unfold Token.Readable
  unfold integerLiteral at h
  split at h
  · next hlt =>
    cases h
    simp [hk, hlt]
  · next hle =>
    split at h
    · cases h
    · cases h
      simp [Nat.le_of_not_lt hle]

theorem decimalLiteral_error {t : Token} {fault : ParseFault} (h : decimalLiteral t = .error fault) :
    fault = .invalidDecimal := by
  unfold decimalLiteral at h
  split at h
  · cases h
  · exact (Except.error.inj h).symm

mutual

theorem takes_binaryExpression (level : Level) (ts : List Token) :
    Takes ts (binaryExpression level ts) := by
  rw [binaryExpression, takes_weaken]
  exact (takes_operand level ts).andThen fun left rest used => takes_binaryRest level left rest
termination_by 16 * ts.length + level.rank
decreasing_by
  · have := Level.two_lt_rank level; omega
  · omega

theorem takes_operand (level : Level) (ts : List Token) : Takes ts (operand level ts) := by
  rw [operand]
  split
  · next tighter ht => exact takes_binaryExpression tighter ts
  · exact takes_secondaryExpression ts
termination_by 16 * ts.length + (level.rank - 1)
decreasing_by
  · have := Level.rank_of_tighter? ‹_›; omega
  · have := Level.two_lt_rank level; omega

theorem takes_binaryRest (level : Level) (left : Node) (ts : List Token) :
    Takes ts (binaryRest level left ts) := by
  cases ts with
  | nil =>
    rw [binaryRest]
    exact takes_done
  | cons t rest =>
    rw [binaryRest]
    split
    · next ht =>
      rw [takes_widen]
      refine Takes.cons (readable_of_operator ht) ?_
      exact (takes_operand level rest).andThen fun right rest' used => takes_binaryRest level _ rest'
    · exact takes_done
termination_by 16 * ts.length
decreasing_by
  · have := Level.rank_lt_ten level; simp only [List.length_cons]; omega
  · simp only [List.length_cons]; omega

theorem takes_secondaryExpression (ts : List Token) : Takes ts (secondaryExpression ts) := by
  rw [secondaryExpression, takes_weaken]
  exact (takes_primaryExpression ts).andThen fun node rest used => takes_secondaryRest node rest
termination_by 16 * ts.length + 1
decreasing_by
  · omega
  · omega

theorem takes_secondaryRest (node : Node) (ts : List Token) : Takes ts (secondaryRest node ts) := by
  cases ts with
  | nil =>
    rw [secondaryRest]
    exact takes_done
  | cons t rest =>
    rw [secondaryRest]
    split
    · next ht =>
      rw [takes_widen]
      refine Takes.cons (readable_of_literal (eq_of_beq ht) (by decide)) ?_
      refine (takes_identifier rest).andThen fun name rest' used => ?_
      cases rest' with
      | nil => exact takes_done
      | cons p rest'' =>
        dsimp only
        split
        · next hp =>
          rw [takes_widen]
          refine Takes.cons (readable_of_literal (eq_of_beq hp) (by decide)) ?_
          exact (takes_arguments rest'').andThen fun args rest₃ used' => takes_secondaryRest _ rest₃
        · exact takes_secondaryRest _ (p :: rest'')
    · exact takes_done
termination_by 16 * ts.length
decreasing_by
  all_goals
    simp only [List.length_cons] at *
    omega

theorem takes_arguments (ts : List Token) : Takes ts (Rule.arguments ts) := by
  cases ts with
  | nil =>
    rw [Rule.arguments]
    exact takes_failed rfl
  | cons t rest =>
    rw [Rule.arguments]
    split
    · next ht => exact takes_done.cons (readable_of_literal (eq_of_beq ht) (by decide))
    · rw [takes_weaken]
      refine (takes_binaryExpression .logical (t :: rest)).andThen fun first rest' used => ?_
      rw [takes_map]
      exact takes_moreArguments rest'
termination_by 16 * ts.length + 10
decreasing_by
  · simp only [Level.rank]; omega
  · omega

theorem takes_moreArguments (ts : List Token) : Takes ts (moreArguments ts) := by
  cases ts with
  | nil =>
    rw [moreArguments, takes_map]
    exact takes_sign (by decide) []
  | cons t rest =>
    rw [moreArguments]
    split
    · next ht =>
      rw [takes_widen]
      refine Takes.cons (readable_of_literal (eq_of_beq ht) (by decide)) ?_
      refine (takes_binaryExpression .logical rest).andThen fun next rest' used => ?_
      rw [takes_map]
      exact takes_moreArguments rest'
    · rw [takes_map]
      exact takes_sign (by decide) (t :: rest)
termination_by 16 * ts.length
decreasing_by
  · simp only [Level.rank, List.length_cons]; omega
  · simp only [List.length_cons]; omega

theorem takes_primaryExpression (ts : List Token) : Takes ts (primaryExpression ts) := by
  cases ts with
  | nil =>
    rw [primaryExpression]
    exact takes_failed rfl
  | cons t rest =>
    rw [primaryExpression.eq_def]
    dsimp only
    -- `NIL`, `TRUE` and `FALSE`
    split
    · next ht => exact takes_done.cons (readable_of_literal (eq_of_beq ht) (by decide))
    split
    · next ht => exact takes_done.cons (readable_of_literal (eq_of_beq ht) (by decide))
    split
    · next ht => exact takes_done.cons (readable_of_literal (eq_of_beq ht) (by decide))
    -- an integer, the only token that may not be readable
    split
    · next hk =>
      split
      · next value hvalue => exact takes_done.cons (readable_of_integerLiteral hvalue)
      · next fault hfault =>
        have hinteger := eq_of_beq hk
        exact takes_number (.inl ⟨hinteger, hfault⟩)
          (integerLiteral_tooManyDigits_iff hinteger hfault)
    -- a decimal, a character and a string
    split
    · next hk =>
      have hreadable : t.Readable := readable_of_kind (by simp [eq_of_beq hk])
      split
      · exact takes_done.cons hreadable
      · next fault hfault =>
        exact takes_number (.inr ⟨eq_of_beq hk, hfault⟩)
          (by simp [hreadable, decimalLiteral_error hfault])
    split
    · next hk => exact takes_done.cons (readable_of_kind (by simp [eq_of_beq hk]))
    split
    · next hk => exact takes_done.cons (readable_of_kind (by simp [eq_of_beq hk]))
    -- parentheses
    split
    · next ht =>
      rw [takes_widen]
      refine Takes.cons (readable_of_literal (eq_of_beq ht) (by decide)) ?_
      refine (takes_binaryExpression .logical rest).andThen fun inner rest' used => ?_
      rw [takes_map]
      exact takes_sign (by decide) rest'
    -- a name, or a call if an opening parenthesis follows
    split
    · next hk =>
      have ht : t.Readable := readable_of_identifier hk
      cases rest with
      | nil => exact takes_done.cons ht
      | cons p rest' =>
        dsimp only
        split
        · next hp =>
          rw [takes_widen, takes_map]
          exact ((takes_arguments rest').cons
            (readable_of_literal (eq_of_beq hp) (by decide))).cons ht
        · exact takes_done.cons ht
    · exact takes_failed rfl
termination_by 16 * ts.length
decreasing_by
  all_goals
    have := Level.rank_lt_ten .logical
    simp only [List.length_cons]
    omega

end

theorem takes_expression (ts : List Token) : Takes ts (expression ts) :=
  takes_binaryExpression .logical ts

theorem takes_initialValue (ts : List Token) : Takes ts (initialValue ts) := by
  cases ts with
  | nil => exact takes_done
  | cons t rest =>
    unfold initialValue
    dsimp only
    split
    · next ht =>
      rw [takes_widen]
      exact (takes_expression rest).cons (readable_of_literal (eq_of_beq ht) (by decide))
    · exact takes_done

theorem takes_declarationStatement (ts : List Token) : Takes ts (declarationStatement ts) := by
  rw [declarationStatement, takes_weaken]
  refine (takes_keyword (by decide) ts).andThen fun _ rest₁ _ => ?_
  refine (takes_identifier rest₁).andThen fun name rest₂ _ => ?_
  refine (takes_typeClause rest₂).andThen fun typeName rest₃ _ => ?_
  refine (takes_initialValue rest₃).andThen fun value rest₄ _ => ?_
  exact takes_map.mpr (takes_sign (by decide) rest₄)

theorem takes_returnStatement (ts : List Token) : Takes ts (returnStatement ts) := by
  rw [returnStatement, takes_weaken]
  refine (takes_keyword (by decide) ts).andThen fun _ rest₁ _ => ?_
  refine (takes_expression rest₁).andThen fun value rest₂ _ => ?_
  exact takes_map.mpr (takes_sign (by decide) rest₂)

theorem takes_expressionStatement (ts : List Token) : Takes ts (expressionStatement ts) := by
  rw [expressionStatement, takes_weaken]
  refine (takes_expression ts).andThen fun left rest₁ _ => ?_
  refine (takes_accept (by decide) rest₁).andThen fun assigned rest₂ _ => ?_
  cases assigned with
  | true =>
    rw [if_pos rfl, takes_weaken]
    refine (takes_expression rest₂).andThen fun value rest₃ _ => ?_
    exact takes_map.mpr (takes_sign (by decide) rest₃)
  | false => exact takes_map.mpr (takes_sign (by decide) rest₂)

theorem takes_loopAssignment (ts : List Token) : Takes ts (loopAssignment ts) := by
  cases ts with
  | nil => exact takes_done
  | cons t rest =>
    unfold loopAssignment
    dsimp only
    split
    · rw [takes_weaken]
      refine (takes_identifier (t :: rest)).andThen fun name rest₁ _ => ?_
      refine (takes_sign (by decide) rest₁).andThen fun _ rest₂ _ => ?_
      exact takes_map.mpr (takes_expression rest₂)
    · exact takes_done

mutual

theorem takes_block (terminators : List String) (ts : List Token) :
    Takes ts (block terminators ts) := by
  cases ts with
  | nil =>
    rw [block]
    exact takes_failed rfl
  | cons t rest =>
    rw [block]
    split
    · exact takes_done
    · rw [takes_weaken]
      refine (takes_statement (t :: rest)).andThen fun first rest' used => ?_
      exact takes_map.mpr (takes_block terminators rest')
termination_by 4 * ts.length + 2
decreasing_by
  · omega
  · omega

theorem takes_statement (ts : List Token) : Takes ts (statement ts) := by
  cases ts with
  | nil =>
    rw [statement]
    exact takes_expressionStatement []
  | cons t rest =>
    rw [statement]
    split
    · exact takes_declarationStatement (t :: rest)
    split
    · exact takes_ifStatement (t :: rest)
    split
    · exact takes_forStatement (t :: rest)
    split
    · exact takes_whileStatement (t :: rest)
    split
    · exact takes_returnStatement (t :: rest)
    · exact takes_expressionStatement (t :: rest)
termination_by 4 * ts.length + 1
decreasing_by
  all_goals omega

theorem takes_ifStatement (ts : List Token) : Takes ts (ifStatement ts) := by
  rw [ifStatement, takes_weaken]
  refine (takes_keyword (by decide) ts).andThen fun _ rest₁ used₁ => ?_
  refine (takes_expression rest₁).andThen fun condition rest₂ used₂ => ?_
  refine (takes_keyword (by decide) rest₂).andThen fun _ rest₃ used₃ => ?_
  refine (takes_block ["ELSE", "END"] rest₃).andThen fun thens rest₄ used₄ => ?_
  refine (takes_elseBranch rest₄).andThen fun elses rest₅ used₅ => ?_
  exact takes_map.mpr (takes_keyword (by decide) rest₅)
termination_by 4 * ts.length
decreasing_by
  · omega
  · omega

theorem takes_elseBranch (ts : List Token) : Takes ts (elseBranch ts) := by
  cases ts with
  | nil =>
    rw [elseBranch]
    exact takes_done
  | cons t rest =>
    rw [elseBranch]
    split
    · next ht =>
      rw [takes_widen]
      exact (takes_block ["END"] rest).cons (readable_of_literal (eq_of_beq ht) (by decide))
    · exact takes_done
termination_by 4 * ts.length
decreasing_by
  simp only [List.length_cons]; omega

theorem takes_forStatement (ts : List Token) : Takes ts (forStatement ts) := by
  rw [forStatement, takes_weaken]
  refine (takes_keyword (by decide) ts).andThen fun _ rest₁ used₁ => ?_
  refine (takes_sign (by decide) rest₁).andThen fun _ rest₂ used₂ => ?_
  refine (takes_loopAssignment rest₂).andThen fun initialization rest₃ used₃ => ?_
  refine (takes_sign (by decide) rest₃).andThen fun _ rest₄ used₄ => ?_
  refine (takes_expression rest₄).andThen fun condition rest₅ used₅ => ?_
  refine (takes_sign (by decide) rest₅).andThen fun _ rest₆ used₆ => ?_
  refine (takes_loopAssignment rest₆).andThen fun increment rest₇ used₇ => ?_
  refine (takes_sign (by decide) rest₇).andThen fun _ rest₈ used₈ => ?_
  refine (takes_block ["END"] rest₈).andThen fun statements rest₉ used₉ => ?_
  exact takes_map.mpr (takes_keyword (by decide) rest₉)
termination_by 4 * ts.length
decreasing_by
  omega

theorem takes_whileStatement (ts : List Token) : Takes ts (whileStatement ts) := by
  rw [whileStatement, takes_weaken]
  refine (takes_keyword (by decide) ts).andThen fun _ rest₁ used₁ => ?_
  refine (takes_expression rest₁).andThen fun condition rest₂ used₂ => ?_
  refine (takes_keyword (by decide) rest₂).andThen fun _ rest₃ used₃ => ?_
  refine (takes_block ["END"] rest₃).andThen fun statements rest₄ used₄ => ?_
  exact takes_map.mpr (takes_keyword (by decide) rest₄)
termination_by 4 * ts.length
decreasing_by
  omega

end

theorem takes_field (ts : List Token) : Takes ts (field ts) := by
  rw [field, takes_weaken]
  refine (takes_keyword (by decide) ts).andThen fun _ rest₁ _ => ?_
  refine (takes_accept (by decide) rest₁).andThen fun constant rest₂ _ => ?_
  refine (takes_identifier rest₂).andThen fun name rest₃ _ => ?_
  refine (takes_typeClause rest₃).andThen fun typeName rest₄ _ => ?_
  refine (takes_initialValue rest₄).andThen fun value rest₅ _ => ?_
  exact takes_map.mpr (takes_sign (by decide) rest₅)

theorem takes_parameter (ts : List Token) : Takes ts (parameter ts) := by
  rw [parameter, takes_weaken]
  refine (takes_identifier ts).andThen fun name rest _ => ?_
  exact takes_map.mpr (takes_typeClause rest)

theorem takes_moreParameters (ts : List Token) : Takes ts (moreParameters ts) := by
  cases ts with
  | nil =>
    rw [moreParameters]
    exact takes_done
  | cons t rest =>
    rw [moreParameters]
    split
    · next ht =>
      rw [takes_widen]
      refine Takes.cons (readable_of_literal (eq_of_beq ht) (by decide)) ?_
      refine (takes_parameter rest).andThen fun next rest' used => ?_
      exact takes_map.mpr (takes_moreParameters rest')
    · exact takes_done
termination_by ts.length
decreasing_by
  simp only [List.length_cons]; omega

theorem takes_parameters (ts : List Token) : Takes ts (parameters ts) := by
  unfold parameters
  split
  · exact takes_done
  · rw [takes_weaken]
    refine (takes_parameter ts).andThen fun first rest _ => ?_
    exact takes_map.mpr (takes_moreParameters rest)

theorem takes_method (ts : List Token) : Takes ts (method ts) := by
  rw [method, takes_weaken]
  refine (takes_keyword (by decide) ts).andThen fun _ rest₁ _ => ?_
  refine (takes_identifier rest₁).andThen fun name rest₂ _ => ?_
  refine (takes_sign (by decide) rest₂).andThen fun _ rest₃ _ => ?_
  refine (takes_parameters rest₃).andThen fun ps rest₄ _ => ?_
  refine (takes_sign (by decide) rest₄).andThen fun _ rest₅ _ => ?_
  refine (takes_typeClause rest₅).andThen fun returnType rest₆ _ => ?_
  refine (takes_keyword (by decide) rest₆).andThen fun _ rest₇ _ => ?_
  refine (takes_block ["END"] rest₇).andThen fun statements rest₈ _ => ?_
  exact takes_map.mpr (takes_keyword (by decide) rest₈)

theorem takes_fields (ts : List Token) : Takes ts (fields ts) := by
  cases ts with
  | nil =>
    rw [fields]
    exact takes_done
  | cons t rest =>
    rw [fields]
    split
    · rw [takes_weaken]
      refine (takes_field (t :: rest)).andThen fun first rest' used => ?_
      exact takes_map.mpr (takes_fields rest')
    · exact takes_done
termination_by ts.length
decreasing_by
  omega

theorem takes_methods (ts : List Token) : Takes ts (methods ts) := by
  cases ts with
  | nil =>
    rw [methods]
    exact takes_done
  | cons t rest =>
    rw [methods]
    split
    · rw [takes_weaken]
      refine (takes_method (t :: rest)).andThen fun first rest' used => ?_
      exact takes_map.mpr (takes_methods rest')
    · exact takes_done
termination_by ts.length
decreasing_by
  omega

theorem takes_endOfTokens (ts : List Token) : Takes ts (endOfTokens ts) := by
  cases ts with
  | nil => exact takes_done
  | cons t rest => exact takes_failed rfl

/-- Reading a program fails for too many digits exactly when it takes an integer that has too
many. -/
theorem takes_source (ts : List Token) : Takes ts (source ts) := by
  rw [source, takes_weaken]
  refine (takes_fields ts).andThen fun fs rest₁ _ => ?_
  refine (takes_methods rest₁).andThen fun ms rest₂ _ => ?_
  exact takes_map.mpr (takes_endOfTokens rest₂)

end Rule
end BlockScript
