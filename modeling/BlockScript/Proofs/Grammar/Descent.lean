import BlockScript.Proofs.Grammar.Tracking
/-!
# Descent makes progress

With the cursor each rule reads what it reads from the list of the tokens that are left, and stops
with the cursor where the rest of that list begins. Every call that it makes has fewer tokens before
it, or as many and a rule that is further down, so the calls do not nest without end.
-/
namespace BlockScript.Descent

open Grammar Reading Rule

variable {tokens : List Token} {s : Cursor}

/-- Each call that a rule may make goes with the cursor as with the list of the tokens that are
left. -/
def Serves (tokens : List Token) (call : (goal : Goal) → Reader goal.Result) (outer : Call) :
    Prop :=
  ∀ goal s, Nesting.Descends tokens ⟨outer, goal, s.index⟩ →
    Tracks tokens (call goal) s (goal.reading (tokens.drop s.index)).outcome

section Rules

variable {call : (goal : Goal) → Reader goal.Result} {start : Nat} {outer : Goal}

/-- Any rule may be called after a token has been used. -/
theorem Serves.later (hcall : Serves tokens call ⟨outer, start⟩) (goal : Goal)
    (hstart : start < s.index) (hs : s.index ≤ tokens.length) :
    Tracks tokens (call goal) s (goal.reading (tokens.drop s.index)).outcome :=
  hcall goal s ⟨hs, .left _ _ (by simp only; omega)⟩

/-- A rule that is further down may be called in any case. -/
theorem Serves.below (hcall : Serves tokens call ⟨outer, start⟩) (goal : Goal)
    (hrank : goal.rank < outer.rank) (hstart : start ≤ s.index) (hs : s.index ≤ tokens.length) :
    Tracks tokens (call goal) s (goal.reading (tokens.drop s.index)).outcome := by
  obtain rfl | hlt := Nat.eq_or_lt_of_le hstart
  · exact hcall goal s ⟨hs, .right _ hrank⟩
  · exact hcall.later goal hlt hs

theorem tracks_typeClause (hs : s.index ≤ tokens.length) :
    Tracks tokens (typeClause tokens) s (Rule.typeClause (tokens.drop s.index)).outcome := by
  refine tracks_accept hs (fun t hdrop ht hs' => ?_) fun h => tracks_pure hs (typeClause_none h)
  rw [hdrop, Rule.typeClause, if_pos (by simpa using ht), outcome_widen]
  exact tracks_map some (tracks_identifier hs')

section Expressions

theorem tracks_operand {level : Level}
    (hcall : ∀ goal : Goal, goal.rank < level.rank →
      Tracks tokens (call goal) s (goal.reading (tokens.drop s.index)).outcome) :
    Tracks tokens (operand call level) s (Rule.operand level (tokens.drop s.index)).outcome := by
  rw [operand, Rule.operand]
  cases ht : level.tighter? with
  | some tighter =>
    have hrank := Level.rank_of_tighter? ht
    exact hcall (.level tighter) (show tighter.rank < level.rank by omega)
  | none => exact hcall .secondary (Nat.lt_of_succ_lt (Level.two_lt_rank level))

theorem tracks_binary {level : Level} (hs : s.index ≤ tokens.length)
    (hcall : Serves tokens call ⟨.level level, s.index⟩) :
    Tracks tokens (binary call level) s
      (binaryExpression level (tokens.drop s.index)).outcome := by
  rw [binaryExpression, outcome_weaken]
  refine tracks_bind (tracks_operand fun goal hrank => ?_) fun left s₁ hs₁ h₁ _ => ?_
  · exact hcall.below goal hrank (Nat.le_refl _) hs
  · exact hcall.later (.operations level left) (by omega) hs₁

theorem tracks_operations {level : Level} {left : Node} (hs : s.index ≤ tokens.length)
    (hcall : Serves tokens call ⟨.operations level left, s.index⟩) :
    Tracks tokens (operations tokens call level left) s
      (binaryRest level left (tokens.drop s.index)).outcome := by
  refine tracks_peekAny hs (fun t hdrop ht => ?_) fun h => tracks_pure hs (binaryRest_nil h)
  rw [hdrop, binaryRest, if_pos (by simpa using ht), outcome_widen]
  refine tracks_step (advance_eq hdrop) (leads_next hdrop) ?_
  have hs' := (leads_next hdrop).within
  have hlater : s.index < s.next.index := Nat.lt_succ_self _
  refine tracks_bind (tracks_operand fun goal _ => hcall.later goal hlater hs') ?_
  intro right s₁ hs₁ h₁ _
  exact hcall.later (.operations level _) (by omega) hs₁

theorem tracks_secondary (hs : s.index ≤ tokens.length)
    (hcall : Serves tokens call ⟨.secondary, s.index⟩) :
    Tracks tokens (secondary call) s (secondaryExpression (tokens.drop s.index)).outcome := by
  rw [secondaryExpression, outcome_weaken]
  refine tracks_bind (hcall.below .primary Nat.zero_lt_one (Nat.le_refl _) hs) ?_
  intro node s₁ hs₁ h₁ _
  exact hcall.later (.members node) h₁ hs₁

theorem tracks_members {node : Node} (hs : s.index ≤ tokens.length)
    (hcall : Serves tokens call ⟨.members node, s.index⟩) :
    Tracks tokens (members tokens call node) s
      (secondaryRest node (tokens.drop s.index)).outcome := by
  refine tracks_accept hs (fun t hdrop ht hs' => ?_) fun h => tracks_pure hs (secondaryRest_nil h)
  rw [hdrop, outcome_secondaryRest_dot ht]
  refine tracks_bind (tracks_identifier hs') fun name s₁ hs₁ h₁ _ => ?_
  rw [Cursor.index_next] at h₁
  refine tracks_accept hs₁ (fun l hdrop₁ hl hs₁' => ?_) fun h => ?_
  · rw [hdrop₁, memberRest, if_pos (by simpa using hl), outcome_widen]
    refine tracks_bind (hcall.later .arguments (Nat.lt_succ_of_lt (by omega)) hs₁') ?_
    intro args s₂ hs₂ h₂ _
    rw [Cursor.index_next] at h₂
    exact hcall.later (.members _) (by omega) hs₂
  · rw [memberRest_of_avoids h]
    exact hcall.later (.members _) (by omega) hs₁

theorem tracks_moreArguments (hs : s.index ≤ tokens.length)
    (hcall : Serves tokens call ⟨.moreArguments, s.index⟩) :
    Tracks tokens (moreArguments tokens call) s
      (Rule.moreArguments (tokens.drop s.index)).outcome := by
  refine tracks_accept hs (fun t hdrop ht hs' => ?_) fun h => ?_
  · rw [hdrop, Rule.moreArguments, if_pos (by simpa using ht), outcome_widen]
    refine tracks_bind (hcall.later .expression (Nat.lt_succ_self _) hs') fun next s₁ hs₁ h₁ _ => ?_
    rw [Cursor.index_next] at h₁
    exact tracks_map _ (hcall.later .moreArguments (by omega) hs₁)
  · have hclose : (Rule.moreArguments (tokens.drop s.index)).outcome =
        ((Rule.sign ")" (tokens.drop s.index)).map fun _ => []).outcome := by
      cases hdrop : tokens.drop s.index with
      | nil => rw [Rule.moreArguments]
      | cons t rest =>
        rw [hdrop] at h
        rw [Rule.moreArguments, if_neg (by simpa using h)]
    rw [hclose]
    exact tracks_map _ (tracks_sign hs ")")

/-- Without a token there is no expression at any level. -/
theorem outcome_binaryExpression_nil (level : Level) :
    (binaryExpression level []).outcome = (.error .expectedExpression, []) := by
  have hoperand : (Rule.operand level []).outcome = (.error .expectedExpression, []) := by
    rw [Rule.operand]
    split
    · next tighter ht =>
      have hrank := Level.rank_of_tighter? ht
      exact outcome_binaryExpression_nil tighter
    · rw [secondaryExpression, outcome_weaken]
      exact outcome_andThen_error (by rw [primaryExpression]; rfl)
  rw [binaryExpression, outcome_weaken]
  exact outcome_andThen_error hoperand
termination_by level.rank

theorem tracks_arguments (hs : s.index ≤ tokens.length)
    (hcall : Serves tokens call ⟨.arguments, s.index⟩) :
    Tracks tokens (arguments tokens call) s (Rule.arguments (tokens.drop s.index)).outcome := by
  refine tracks_accept hs (fun t hdrop ht hs' => tracks_pure hs' ?_) fun h => ?_
  · rw [hdrop]
    exact arguments_none ht
  · have hfirst : (Rule.arguments (tokens.drop s.index)).outcome =
        ((expression (tokens.drop s.index)).andThen fun first rest _ =>
          (Rule.moreArguments rest).map (first :: ·)).outcome := by
      cases hdrop : tokens.drop s.index with
      | nil =>
        rw [Rule.arguments]
        exact (outcome_andThen_error (outcome_binaryExpression_nil .logical)).symm
      | cons t rest =>
        rw [hdrop] at h
        rw [Rule.arguments, if_neg (by simpa using h), outcome_weaken]
        rfl
    rw [hfirst]
    refine tracks_bind (hcall.below .expression (by decide) (Nat.le_refl _) hs) ?_
    intro first s₁ hs₁ h₁ _
    exact tracks_map _ (hcall.later .moreArguments h₁ hs₁)

theorem kind_of_allFit {t : Token} {kind : TokenKind} {ts rest : List Token} (hts : ts = t :: rest)
    (h : Pattern.allFit [.kind kind] ts = true) : t.kind = kind := by
  subst hts
  simpa [Pattern.allFit, Pattern.fits] using h

theorem tracks_number {t : Token} {value : Token → Except ParseFault Literal}
    (hdrop : tokens.drop s.index = t :: tokens.drop s.next.index)
    (hs : s.next.index ≤ tokens.length) (ht : NoWord t) (h : NumberReads t (value t)) :
    Tracks tokens (number tokens value) s (primaryExpression (tokens.drop s.index)).outcome := by
  refine tracks_step (advance_eq hdrop) (leads_next hdrop) ?_
  rw [hdrop, outcome_primary_number ht h]
  cases hvalue : value t with
  | ok value => exact tracks_pure hs rfl
  | error cause =>
    rw [hvalue] at h
    exact tracks_throw (unplaced_of_numberReads h) hs rfl

theorem tracks_group {t : Token} (hdrop : tokens.drop s.index = t :: tokens.drop s.next.index)
    (ht : t.literal = "(") (hk : t.kind = .identifier ∨ t.kind = .operator)
    (hs : s.next.index ≤ tokens.length) (hcall : Serves tokens call ⟨.primary, s.index⟩) :
    Tracks tokens (group tokens call) s.next
      (primaryExpression (tokens.drop s.index)).outcome := by
  rw [hdrop, outcome_primary_group ht hk]
  refine tracks_bind (hcall.later .expression (Nat.lt_succ_self _) hs) fun inner s₁ hs₁ _ _ => ?_
  exact tracks_map _ (tracks_sign hs₁ ")")

theorem tracks_named {t : Token} (hdrop : tokens.drop s.index = t :: tokens.drop s.next.index)
    (ht : NoWord t) (hk : t.kind = .identifier)
    (hl : t.literal ≠ "(") (hcall : Serves tokens call ⟨.primary, s.index⟩) :
    Tracks tokens (named tokens call) s (primaryExpression (tokens.drop s.index)).outcome := by
  have hs' := (leads_next hdrop).within
  refine tracks_step (identifier_eq hdrop hk) (leads_next hdrop) ?_
  refine tracks_accept hs' (fun p hdrop' hp hs'' => ?_) fun h => ?_
  · rw [hdrop, hdrop', outcome_primary_call ht hk hl hp]
    exact tracks_map _ (hcall.later .arguments (Nat.lt_succ_of_lt (Nat.lt_succ_self _)) hs'')
  · rw [hdrop]
    exact tracks_pure hs' (primary_name ht hk hl h)

theorem tracks_primary (hs : s.index ≤ tokens.length)
    (hcall : Serves tokens call ⟨.primary, s.index⟩) :
    Tracks tokens (primary tokens call) s (primaryExpression (tokens.drop s.index)).outcome := by
  refine tracks_has hs (fun t hdrop hs' => ?next) fun hdrop => ?none
  case none => exact tracks_refuse rfl hs (by rw [hdrop, primaryExpression]; rfl)
  refine tracks_accept hs (fun t hdrop ht hs' => tracks_pure hs' ?_) fun hnil => ?_
  · rw [hdrop]
    exact primary_nil ht
  refine tracks_accept hs (fun t hdrop ht hs' => tracks_pure hs' ?_) fun htrue => ?_
  · rw [hdrop]
    exact primary_true ht
  refine tracks_accept hs (fun t hdrop ht hs' => tracks_pure hs' ?_) fun hfalse => ?_
  · rw [hdrop]
    exact primary_false ht
  have ht : NoWord t := by
    rw [hdrop] at hnil htrue hfalse
    exact ⟨by simpa using hnil, by simpa using htrue, by simpa using hfalse⟩
  refine tracks_peek hs (fun hk => ?_) fun hinteger => ?_
  · exact tracks_number hdrop hs' ht (.inl ⟨kind_of_allFit hdrop hk, rfl⟩)
  refine tracks_peek hs (fun hk => ?_) fun hdecimal => ?_
  · exact tracks_number hdrop hs' ht (.inr ⟨kind_of_allFit hdrop hk, rfl⟩)
  refine tracks_peek hs (fun hk => ?_) fun hcharacter => ?_
  · refine tracks_step (advance_eq hdrop) (leads_next hdrop) (tracks_pure hs' ?_)
    rw [hdrop]
    exact primary_character ht (kind_of_allFit hdrop hk)
  refine tracks_peek hs (fun hk => ?_) fun hstring => ?_
  · refine tracks_step (advance_eq hdrop) (leads_next hdrop) (tracks_pure hs' ?_)
    rw [hdrop]
    exact primary_string ht (kind_of_allFit hdrop hk)
  -- The kinds of a literal are excluded, so what is left is a name or a sign.
  have hk : t.kind = .identifier ∨ t.kind = .operator := by
    rw [hdrop] at hinteger hdecimal hcharacter hstring
    cases hk : t.kind <;> simp_all [Pattern.allFit, Pattern.fits]
  refine tracks_accept hs (fun t' hdrop' hl hs' => ?_) fun hl => ?_
  · obtain rfl : t = t' := by simpa [hdrop] using hdrop'
    exact tracks_group hdrop hl hk hs' hcall
  have hl : t.literal ≠ "(" := by
    rw [hdrop] at hl
    simpa using hl
  refine tracks_peek hs (fun hk => ?_) fun hname => ?_
  · exact tracks_named hdrop ht (kind_of_allFit hdrop hk) hl hcall
  · refine tracks_refuse rfl hs ?_
    rw [hdrop] at hname ⊢
    refine outcome_primary_operator ht (hk.resolve_left fun hk => ?_) hl _
    simp [Pattern.allFit, Pattern.fits, hk] at hname

end Expressions

section Statements

theorem tracks_initialValue {outer : Goal} {start : Nat} (hcall : Serves tokens call ⟨outer, start⟩)
    (hstart : start < s.index) (hs : s.index ≤ tokens.length) :
    Tracks tokens (initialValue tokens call) s
      (Rule.initialValue (tokens.drop s.index)).outcome := by
  refine tracks_accept hs (fun t hdrop ht hs' => ?_) fun h => tracks_pure hs (initialValue_none h)
  rw [hdrop, Rule.initialValue, if_pos (by simpa using ht), outcome_widen]
  exact hcall.later .expression (Nat.lt_succ_of_lt hstart) hs'

theorem tracks_declaration (hs : s.index ≤ tokens.length)
    (hcall : Serves tokens call ⟨.declaration, s.index⟩) :
    Tracks tokens (declaration tokens call) s
      (declarationStatement (tokens.drop s.index)).outcome := by
  rw [declarationStatement, outcome_weaken]
  refine tracks_bind (tracks_keyword hs "LET") fun _ s₁ hs₁ h₁ _ => ?_
  refine tracks_bind (tracks_identifier hs₁) fun name s₂ hs₂ h₂ _ => ?_
  refine tracks_bind (hcall.later .typeClause (by omega) hs₂) fun type s₃ hs₃ h₃ _ => ?_
  refine tracks_bind (tracks_initialValue hcall (by omega) hs₃) fun value s₄ hs₄ _ _ => ?_
  exact tracks_map _ (tracks_sign hs₄ ";")

theorem tracks_returnStatement (hs : s.index ≤ tokens.length)
    (hcall : Serves tokens call ⟨.returnStatement, s.index⟩) :
    Tracks tokens (returnStatement tokens call) s
      (Rule.returnStatement (tokens.drop s.index)).outcome := by
  rw [Rule.returnStatement, outcome_weaken]
  refine tracks_bind (tracks_keyword hs "RETURN") fun _ s₁ hs₁ h₁ _ => ?_
  refine tracks_bind (hcall.later .expression h₁ hs₁) fun value s₂ hs₂ _ _ => ?_
  exact tracks_map _ (tracks_sign hs₂ ";")

theorem tracks_expressionStatement (hs : s.index ≤ tokens.length)
    (hcall : Serves tokens call ⟨.statement, s.index⟩) :
    Tracks tokens (expressionStatement tokens call) s
      (Rule.expressionStatement (tokens.drop s.index)).outcome := by
  rw [Rule.expressionStatement, outcome_weaken]
  refine tracks_bind (hcall.below .expression (by decide) (Nat.le_refl _) hs) ?_
  intro left s₁ hs₁ h₁ _
  refine tracks_bind (tracks_mark hs₁ "=") fun assigned s₂ hs₂ h₂ _ => ?_
  cases assigned with
  | false => exact tracks_map _ (tracks_sign hs₂ ";")
  | true =>
    rw [if_pos rfl, if_pos rfl, outcome_weaken]
    refine tracks_bind (hcall.later .expression (by omega) hs₂) fun value s₃ hs₃ _ _ => ?_
    exact tracks_map _ (tracks_sign hs₃ ";")

theorem tracks_loopAssignment (hs : s.index ≤ tokens.length)
    (hcall : Serves tokens call ⟨.loopAssignment, s.index⟩) :
    Tracks tokens (loopAssignment tokens call) s
      (Rule.loopAssignment (tokens.drop s.index)).outcome := by
  refine tracks_peek hs (fun hk => ?_) fun hk => tracks_pure hs ?_
  · cases hdrop : tokens.drop s.index with
    | nil => simp [hdrop, Pattern.allFit] at hk
    | cons t rest =>
      have hname : t.kind = .identifier := kind_of_allFit hdrop hk
      rw [Rule.loopAssignment, if_pos (by simpa using hname), outcome_weaken, ← hdrop]
      refine tracks_bind (tracks_identifier hs) fun name s₁ hs₁ h₁ _ => ?_
      refine tracks_bind (tracks_sign hs₁ "=") fun _ s₂ hs₂ h₂ _ => ?_
      exact tracks_map _ (hcall.later .expression (by omega) hs₂)
  · cases hdrop : tokens.drop s.index with
    | nil => rfl
    | cons t rest =>
      rw [hdrop] at hk
      exact loopAssignment_none (by simpa [Pattern.allFit, Pattern.fits] using hk)

theorem tracks_block {terminators : List String} (hs : s.index ≤ tokens.length)
    (hcall : Serves tokens call ⟨.block terminators, s.index⟩) :
    Tracks tokens (block tokens call terminators) s
      (Rule.block terminators (tokens.drop s.index)).outcome := by
  refine tracks_peekAny hs (fun t hdrop ht => tracks_pure hs ?_) fun h => ?_
  · exact block_nil (by rw [hdrop]; exact ht)
  refine tracks_has hs (fun t hdrop hs' => ?_) fun hdrop => ?_
  · rw [hdrop] at h
    rw [hdrop, Rule.block, if_neg (by simpa using h), outcome_weaken, ← hdrop]
    refine tracks_bind (hcall.below .statement (Nat.lt_succ_self _) (Nat.le_refl _) hs) ?_
    intro first s₁ hs₁ h₁ _
    exact tracks_map _ (hcall.later (.block terminators) h₁ hs₁)
  · exact tracks_refuse rfl hs (by rw [hdrop, Rule.block]; rfl)

theorem tracks_elseBranch {outer : Goal} {start : Nat} (hcall : Serves tokens call ⟨outer, start⟩)
    (hstart : start < s.index) (hs : s.index ≤ tokens.length) :
    Tracks tokens (elseBranch tokens call) s (Rule.elseBranch (tokens.drop s.index)).outcome := by
  refine tracks_accept hs (fun t hdrop ht hs' => ?_) fun h => tracks_pure hs (elseBranch_none h)
  rw [hdrop, Rule.elseBranch, if_pos (by simpa using ht), outcome_widen]
  exact hcall.later (.block ["END"]) (Nat.lt_succ_of_lt hstart) hs'

theorem tracks_ifStatement (hs : s.index ≤ tokens.length)
    (hcall : Serves tokens call ⟨.ifStatement, s.index⟩) :
    Tracks tokens (ifStatement tokens call) s (Rule.ifStatement (tokens.drop s.index)).outcome := by
  rw [Rule.ifStatement, outcome_weaken]
  refine tracks_bind (tracks_keyword hs "IF") fun _ s₁ hs₁ h₁ _ => ?_
  refine tracks_bind (hcall.later .expression h₁ hs₁) fun condition s₂ hs₂ h₂ _ => ?_
  refine tracks_bind (tracks_keyword hs₂ "DO") fun _ s₃ hs₃ h₃ _ => ?_
  refine tracks_bind (hcall.later (.block ["ELSE", "END"]) (by omega) hs₃) ?_
  intro thens s₄ hs₄ h₄ _
  refine tracks_bind (tracks_elseBranch hcall (by omega) hs₄) fun elses s₅ hs₅ _ _ => ?_
  exact tracks_map _ (tracks_keyword hs₅ "END")

theorem tracks_forStatement (hs : s.index ≤ tokens.length)
    (hcall : Serves tokens call ⟨.forStatement, s.index⟩) :
    Tracks tokens (forStatement tokens call) s
      (Rule.forStatement (tokens.drop s.index)).outcome := by
  rw [Rule.forStatement, outcome_weaken]
  refine tracks_bind (tracks_keyword hs "FOR") fun _ s₁ hs₁ h₁ _ => ?_
  refine tracks_bind (tracks_sign hs₁ "(") fun _ s₂ hs₂ h₂ _ => ?_
  refine tracks_bind (hcall.later .loopAssignment (by omega) hs₂) fun before s₃ hs₃ h₃ _ => ?_
  refine tracks_bind (tracks_sign hs₃ ";") fun _ s₄ hs₄ h₄ _ => ?_
  refine tracks_bind (hcall.later .expression (by omega) hs₄) fun condition s₅ hs₅ h₅ _ => ?_
  refine tracks_bind (tracks_sign hs₅ ";") fun _ s₆ hs₆ h₆ _ => ?_
  refine tracks_bind (hcall.later .loopAssignment (by omega) hs₆) fun after s₇ hs₇ h₇ _ => ?_
  refine tracks_bind (tracks_sign hs₇ ")") fun _ s₈ hs₈ h₈ _ => ?_
  refine tracks_bind (hcall.later (.block ["END"]) (by omega) hs₈) fun body s₉ hs₉ _ _ => ?_
  exact tracks_map _ (tracks_keyword hs₉ "END")

theorem tracks_whileStatement (hs : s.index ≤ tokens.length)
    (hcall : Serves tokens call ⟨.whileStatement, s.index⟩) :
    Tracks tokens (whileStatement tokens call) s
      (Rule.whileStatement (tokens.drop s.index)).outcome := by
  rw [Rule.whileStatement, outcome_weaken]
  refine tracks_bind (tracks_keyword hs "WHILE") fun _ s₁ hs₁ h₁ _ => ?_
  refine tracks_bind (hcall.later .expression h₁ hs₁) fun condition s₂ hs₂ h₂ _ => ?_
  refine tracks_bind (tracks_keyword hs₂ "DO") fun _ s₃ hs₃ h₃ _ => ?_
  refine tracks_bind (hcall.later (.block ["END"]) (by omega) hs₃) fun body s₄ hs₄ _ _ => ?_
  exact tracks_map _ (tracks_keyword hs₄ "END")

theorem tracks_statement (hs : s.index ≤ tokens.length)
    (hcall : Serves tokens call ⟨.statement, s.index⟩) :
    Tracks tokens (statement tokens call) s (Rule.statement (tokens.drop s.index)).outcome := by
  have hbelow : ∀ goal : Goal, goal.rank < 11 →
      Tracks tokens (call goal) s (goal.reading (tokens.drop s.index)).outcome :=
    fun goal hrank => hcall.below goal hrank (Nat.le_refl _) hs
  refine tracks_ahead hs (fun t hdrop ht => ?_) fun hlet => ?_
  · rw [hdrop, Rule.statement, if_pos (by simpa using ht), ← hdrop]
    exact hbelow .declaration (by decide)
  refine tracks_ahead hs (fun t hdrop ht => ?_) fun hif => ?_
  · rw [hdrop, Rule.statement, if_neg (by simp [ht]), if_pos (by simpa using ht), ← hdrop]
    exact hbelow .ifStatement (by decide)
  refine tracks_ahead hs (fun t hdrop ht => ?_) fun hfor => ?_
  · rw [hdrop, Rule.statement, if_neg (by simp [ht]), if_neg (by simp [ht]),
      if_pos (by simpa using ht), ← hdrop]
    exact hbelow .forStatement (by decide)
  refine tracks_ahead hs (fun t hdrop ht => ?_) fun hwhile => ?_
  · rw [hdrop, Rule.statement, if_neg (by simp [ht]), if_neg (by simp [ht]), if_neg (by simp [ht]),
      if_pos (by simpa using ht), ← hdrop]
    exact hbelow .whileStatement (by decide)
  refine tracks_ahead hs (fun t hdrop ht => ?_) fun hreturn => ?_
  · rw [hdrop, Rule.statement, if_neg (by simp [ht]), if_neg (by simp [ht]), if_neg (by simp [ht]),
      if_neg (by simp [ht]), if_pos (by simpa using ht), ← hdrop]
    exact hbelow .returnStatement (by decide)
  have hexpression : (Rule.statement (tokens.drop s.index)).outcome =
      (Rule.expressionStatement (tokens.drop s.index)).outcome := by
    cases hdrop : tokens.drop s.index with
    | nil => rw [Rule.statement]
    | cons t rest =>
      rw [hdrop] at hlet hif hfor hwhile hreturn
      rw [statement_of_avoids (by simp_all)]
  rw [hexpression]
  exact tracks_expressionStatement hs hcall

end Statements

section Declarations

theorem tracks_field (hs : s.index ≤ tokens.length)
    (hcall : Serves tokens call ⟨.field, s.index⟩) :
    Tracks tokens (field tokens call) s (Rule.field (tokens.drop s.index)).outcome := by
  rw [Rule.field, outcome_weaken]
  refine tracks_bind (tracks_keyword hs "LET") fun _ s₁ hs₁ h₁ _ => ?_
  refine tracks_bind (tracks_mark hs₁ "CONST") fun constant s₂ hs₂ h₂ _ => ?_
  refine tracks_bind (tracks_identifier hs₂) fun name s₃ hs₃ h₃ _ => ?_
  refine tracks_bind (hcall.later .typeClause (by omega) hs₃) fun type s₄ hs₄ h₄ _ => ?_
  refine tracks_bind (tracks_initialValue hcall (by omega) hs₄) fun value s₅ hs₅ _ _ => ?_
  exact tracks_map _ (tracks_sign hs₅ ";")

theorem tracks_fields (hs : s.index ≤ tokens.length)
    (hcall : Serves tokens call ⟨.fields, s.index⟩) :
    Tracks tokens (fields tokens call) s (Rule.fields (tokens.drop s.index)).outcome := by
  refine tracks_ahead hs (fun t hdrop ht => ?_) fun h => tracks_pure hs (fields_nil h)
  rw [hdrop, Rule.fields, if_pos (by simpa using ht), outcome_weaken, ← hdrop]
  refine tracks_bind (hcall.below .field Nat.zero_lt_one (Nat.le_refl _) hs) ?_
  intro first s₁ hs₁ h₁ _
  exact tracks_map _ (hcall.later .fields h₁ hs₁)

theorem tracks_parameter {outer : Goal} {start : Nat} (hcall : Serves tokens call ⟨outer, start⟩)
    (hstart : start ≤ s.index) (hs : s.index ≤ tokens.length) :
    Tracks tokens (parameter tokens call) s (Rule.parameter (tokens.drop s.index)).outcome := by
  rw [Rule.parameter, outcome_weaken]
  refine tracks_bind (tracks_identifier hs) fun name s₁ hs₁ h₁ _ => ?_
  exact tracks_map _ (hcall.later .typeClause (by omega) hs₁)

theorem tracks_parameters (hs : s.index ≤ tokens.length)
    (hcall : Serves tokens call ⟨.parameters, s.index⟩) :
    Tracks tokens (parameters tokens call) s
      (someParameters (tokens.drop s.index)).outcome := by
  rw [someParameters, outcome_weaken]
  refine tracks_bind (tracks_parameter hcall (Nat.le_refl _) hs) fun first s₁ hs₁ h₁ _ => ?_
  refine tracks_accept hs₁ (fun t hdrop ht hs₂ => ?_) fun h => ?_
  · have hmore : (moreParameters (tokens.drop s₁.index)).outcome =
        (someParameters (tokens.drop s₁.next.index)).outcome := by
      rw [hdrop, moreParameters, if_pos (by simpa using ht), outcome_widen, someParameters,
        outcome_weaken]
    rw [outcome_map, hmore, ← outcome_map]
    exact tracks_map _ (hcall.later .parameters (Nat.lt_succ_of_lt h₁) hs₂)
  · exact tracks_pure hs₁ ((moreParameters_nil h).map (first :: ·))

theorem tracks_parameterList {outer : Goal} {start : Nat}
    (hcall : Serves tokens call ⟨outer, start⟩) (hstart : start < s.index)
    (hs : s.index ≤ tokens.length) :
    Tracks tokens (parameterList tokens call) s
      (Rule.parameters (tokens.drop s.index)).outcome := by
  refine tracks_peek hs (fun hclose => ?_) fun hopen => ?_
  · rw [Rule.parameters, if_pos hclose]
    exact tracks_pure hs rfl
  · have hsome : (Rule.parameters (tokens.drop s.index)).outcome =
        (someParameters (tokens.drop s.index)).outcome := by
      rw [Rule.parameters, if_neg (by simp [hopen]), outcome_weaken, someParameters, outcome_weaken]
    rw [hsome]
    exact hcall.later .parameters hstart hs

theorem tracks_method (hs : s.index ≤ tokens.length)
    (hcall : Serves tokens call ⟨.method, s.index⟩) :
    Tracks tokens (method tokens call) s (Rule.method (tokens.drop s.index)).outcome := by
  rw [Rule.method, outcome_weaken]
  refine tracks_bind (tracks_keyword hs "DEF") fun _ s₁ hs₁ h₁ _ => ?_
  refine tracks_bind (tracks_identifier hs₁) fun name s₂ hs₂ h₂ _ => ?_
  refine tracks_bind (tracks_sign hs₂ "(") fun _ s₃ hs₃ h₃ _ => ?_
  refine tracks_bind (tracks_parameterList hcall (by omega) hs₃) fun ps s₄ hs₄ h₄ _ => ?_
  refine tracks_bind (tracks_sign hs₄ ")") fun _ s₅ hs₅ h₅ _ => ?_
  refine tracks_bind (hcall.later .typeClause (by omega) hs₅) fun type s₆ hs₆ h₆ _ => ?_
  refine tracks_bind (tracks_keyword hs₆ "DO") fun _ s₇ hs₇ h₇ _ => ?_
  refine tracks_bind (hcall.later (.block ["END"]) (by omega) hs₇) fun body s₈ hs₈ _ _ => ?_
  exact tracks_map _ (tracks_keyword hs₈ "END")

theorem tracks_methods (hs : s.index ≤ tokens.length)
    (hcall : Serves tokens call ⟨.methods, s.index⟩) :
    Tracks tokens (methods tokens call) s (Rule.methods (tokens.drop s.index)).outcome := by
  refine tracks_ahead hs (fun t hdrop ht => ?_) fun h => tracks_pure hs (methods_nil h)
  rw [hdrop, Rule.methods, if_pos (by simpa using ht), outcome_weaken, ← hdrop]
  refine tracks_bind (hcall.below .method Nat.zero_lt_one (Nat.le_refl _) hs) ?_
  intro first s₁ hs₁ h₁ _
  exact tracks_map _ (hcall.later .methods h₁ hs₁)

theorem tracks_source (hs : s.index ≤ tokens.length)
    (hcall : Serves tokens call ⟨.source, s.index⟩) :
    Tracks tokens (source tokens call) s (Rule.source (tokens.drop s.index)).outcome := by
  rw [Rule.source, outcome_weaken]
  refine tracks_bind (hcall.below .fields (by decide) (Nat.le_refl _) hs) fun fs s₁ hs₁ h₁ _ => ?_
  refine tracks_bind (hcall.below .methods (by decide) h₁ hs₁) fun ms s₂ hs₂ _ _ => ?_
  refine tracks_has hs₂ (fun t hdrop _ => ?_) fun hdrop => ?_
  · exact tracks_refuse rfl hs₂ (by rw [hdrop]; rfl)
  · exact tracks_pure hs₂ (by rw [hdrop]; rfl)

end Declarations

/-- Each rule goes with the cursor as with the list of the tokens that are left, as soon as the
rules do that it calls. -/
theorem tracks_pursue (goal : Goal) (hs : s.index ≤ tokens.length)
    (hcall : Serves tokens call ⟨goal, s.index⟩) :
    Tracks tokens (pursue tokens call goal) s (goal.reading (tokens.drop s.index)).outcome := by
  cases goal with
  | source => exact tracks_source hs hcall
  | fields => exact tracks_fields hs hcall
  | methods => exact tracks_methods hs hcall
  | field => exact tracks_field hs hcall
  | method => exact tracks_method hs hcall
  | parameters => exact tracks_parameters hs hcall
  | typeClause => exact tracks_typeClause hs
  | block terminators => exact tracks_block hs hcall
  | statement => exact tracks_statement hs hcall
  | declaration => exact tracks_declaration hs hcall
  | ifStatement => exact tracks_ifStatement hs hcall
  | forStatement => exact tracks_forStatement hs hcall
  | loopAssignment => exact tracks_loopAssignment hs hcall
  | whileStatement => exact tracks_whileStatement hs hcall
  | returnStatement => exact tracks_returnStatement hs hcall
  | expression => exact hcall.below (.level .logical) (by decide) (Nat.le_refl _) hs
  | level level => exact tracks_binary hs hcall
  | operations level left => exact tracks_operations hs hcall
  | secondary => exact tracks_secondary hs hcall
  | members node => exact tracks_members hs hcall
  | arguments => exact tracks_arguments hs hcall
  | moreArguments => exact tracks_moreArguments hs hcall
  | primary => exact tracks_primary hs hcall

end Rules

section Depth

theorem rank_lt (goal : Goal) : goal.rank < 13 := by
  cases goal with
  | level level => exact Nat.lt_trans (Level.rank_lt_ten level) (by decide)
  | _ => simp [Goal.rank]

/-- How deep calls may nest below a call. -/
def depth (tokens : List Token) (call : Call) : Nat :=
  13 * (tokens.length - call.start) + call.goal.rank

/-- A call that descends nests less deep. -/
theorem depth_lt {nesting : Nesting} (h : nesting.Descends tokens) :
    depth tokens nesting.inner < depth tokens nesting.outer := by
  have hrank := rank_lt nesting.inner.goal
  unfold depth
  rcases Prod.lex_iff.mp h.decreases with hfewer | ⟨hsame, hdown⟩
  · simp only [Call.measure] at hfewer
    omega
  · simp only [Call.measure] at hsame hdown
    omega

theorem tracks_noteCall {outer : Call} {inner : Goal} {x : Reader inner.Result}
    {o : Except ParseFault inner.Result × List Token}
    (hnesting : Nesting.Descends tokens ⟨outer, inner, s.index⟩)
    (h : ∀ s' : Cursor, s'.index = s.index → Tracks tokens x s' o) :
    Tracks tokens (do noteCall outer inner; x) s o := by
  have hmade : ∀ n ∈ [(⟨outer, inner, s.index⟩ : Nesting)], n.Descends tokens :=
    fun n hn => List.mem_singleton.mp hn ▸ hnesting
  exact tracks_step rfl ⟨Nat.le_refl _, hnesting.within, _, rfl, hmade⟩ (h _ rfl)

/-- The induction is on the limit: every call nests less deep than the one that it comes from. -/
theorem tracks_reach {limit : Nat} (goal : Goal) (hs : s.index ≤ tokens.length)
    (hlimit : depth tokens ⟨goal, s.index⟩ < limit) :
    Tracks tokens (reach tokens limit goal) s (goal.reading (tokens.drop s.index)).outcome := by
  induction limit generalizing goal s with
  | zero => exact absurd hlimit (Nat.not_lt_zero _)
  | succ limit ih =>
    refine tracks_step (get_eq s) (leads_refl hs) (tracks_pursue goal hs fun inner s' h => ?_)
    refine tracks_noteCall h fun s'' hindex => ?_
    have hdepth := depth_lt h
    simp only at hdepth
    rw [← hindex] at h hdepth ⊢
    exact ih inner h.within (by omega)

end Depth

theorem applyRule_eq {α : Type} {k : Nat} {rule : (ts : List Token) → Parse α k ts.length}
    {ts rest : List Token} {result : Except ParseFault α} (h : (rule ts).outcome = (result, rest)) :
    applyRule rule tokens ts = (result.mapError (.ofParse tokens rest), rest) := by
  rw [applyRule, h]
  cases result <;> rfl

/-- From any place within the tokens each rule ends, and its result is that of reading the list of
the tokens that are left. The cursor has not gone back and is at most at the end, and it has moved
past the tokens that the rule uses at least. No look has been outside of the tokens, and all calls
that were made descend. -/
theorem rule_progresses_within_tokens {start : Nat} (hstart : start ≤ tokens.length) (goal : Goal) :
    ∃ (result : Except Fault goal.Result) (stop : Nat),
      applyRule goal.reading tokens (tokens.drop start) = (result, tokens.drop stop) ∧
      start ≤ stop ∧ stop ≤ tokens.length ∧
      (∀ value, result = .ok value → start + goal.least ≤ stop) ∧
      ∀ limit, depth tokens ⟨goal, start⟩ < limit → ∃ nestings : List Nesting,
        (reach tokens limit goal).outcome ⟨start, []⟩ =
          (result.mapError Halt.fault, ⟨stop, nestings⟩) ∧
        ∀ nesting ∈ nestings, nesting.Descends tokens := by
  obtain ⟨result, rest, hreading⟩ : ∃ result rest,
      (goal.reading (tokens.drop start)).outcome = (result, rest) := ⟨_, _, rfl⟩
  have hends : ∀ limit, depth tokens ⟨goal, start⟩ < limit →
      ∃ s', (reach tokens limit goal).outcome ⟨start, []⟩ =
          (result.mapError (Halt.fault ∘ .ofParse tokens rest), s') ∧
        rest = tokens.drop s'.index ∧ Leads tokens ⟨start, []⟩ s' := by
    intro limit hlimit
    have htracks := tracks_reach (s := ⟨start, []⟩) goal hstart hlimit
    rw [hreading] at htracks
    exact htracks.outcome
  obtain ⟨s, -, hrest, hleads⟩ := hends _ (Nat.lt_succ_self _)
  refine ⟨result.mapError (.ofParse tokens rest), s.index, ?_, hleads.forward, hleads.within,
    fun value hvalue => ?_, fun limit hlimit => ?_⟩
  · rw [applyRule_eq hreading, ← hrest]
  · cases result with
    | error cause => cases hvalue
    | ok a =>
      have hused := Returns.length_le hreading
      have hwithin := hleads.within
      rw [hrest, List.length_drop, List.length_drop] at hused
      omega
  · obtain ⟨⟨stop, nestings⟩, hend, hrest', hleads'⟩ := hends limit hlimit
    have hlength := congrArg List.length (hrest.symm.trans hrest')
    have hwithin := hleads.within
    have hwithin' := hleads'.within
    obtain ⟨more, hmore, hdescends⟩ := hleads'.made
    simp only [List.length_drop] at hlength hwithin'
    obtain rfl : s.index = stop := by omega
    obtain rfl : nestings = more := by simpa using hmore
    refine ⟨nestings, ?_, hdescends⟩
    rw [hend]
    cases result <;> rfl

def cutHeader : List Token :=
  [⟨.identifier, "DEF", 0⟩, ⟨.identifier, "main", 4⟩, ⟨.operator, "(", 8⟩]

theorem rule_progresses_within_tokens_cut :
    0 ≤ cutHeader.length ∧ ∃ nestings : List Nesting,
      (reach cutHeader 42 .source).outcome ⟨0, []⟩ =
        (.error (.fault (.parse (.expected "identifier") 9)), ⟨3, nestings⟩) ∧
      ∀ nesting ∈ nestings, nesting.Descends cutHeader := by
  have hstart : 0 ≤ cutHeader.length := Nat.zero_le _
  obtain ⟨result, stop, hreading, -, hstop, -, hends⟩ :=
    rule_progresses_within_tokens hstart .source
  have hfails : applyRule Rule.source cutHeader cutHeader =
      (.error (.parse (.expected "identifier") 9), []) := by
    cbv
  obtain ⟨rfl, hdrop⟩ := Prod.mk.inj (hfails.symm.trans hreading)
  obtain rfl : stop = 3 := Nat.le_antisymm hstop (List.drop_eq_nil_iff.mp hdrop.symm)
  exact ⟨hstart, hends 42 (by decide)⟩

/-- The calls in the course of it. -/
example : ((reach cutHeader 42 .source).outcome ⟨0, []⟩).2.nestings =
    [⟨⟨.source, 0⟩, ⟨.fields, 0⟩⟩, ⟨⟨.source, 0⟩, ⟨.methods, 0⟩⟩, ⟨⟨.methods, 0⟩, ⟨.method, 0⟩⟩,
      ⟨⟨.method, 0⟩, ⟨.parameters, 3⟩⟩] := by
  cbv

end BlockScript.Descent
