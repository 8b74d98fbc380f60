import BlockScript.Proofs.Grammar.FirstFault
import BlockScript.Proofs.Token.Splice
/-!
# Rules do not see where tokens stand

From tokens of the same kinds and texts a rule reads the same, and fails for the same reason, with
as many tokens left, wherever the tokens stand. Each combinator passes this on, so each rule has it
as soon as the rules that it calls have it.
-/
namespace BlockScript.Grammar

open Rule Reading

variable {α β : Type} {j k k' m n : Nat}

/-- The first reading ends as the second does, on tokens without their places; `g` takes the places
from a result. -/
def Unplaced (g : α → α) (r' : Parse α k m) (r : Parse α k n) : Prop :=
  r'.outcome = (r.outcome.1.map g, r.outcome.2.map Token.unplaced)

section Combinators

variable {g : α → α} {h : β → β} {r' : Parse α k m} {r : Parse α k n}

theorem unplaced_done {a' a : α} {rest' rest : List Token} {used' : rest'.length + k ≤ m}
    {used : rest.length + k ≤ n} :
    Unplaced g (.done a' rest' used' : Parse α k m) (.done a rest used : Parse α k n) ↔
      a' = g a ∧ rest' = rest.map Token.unplaced := by
  simp [Unplaced, outcome, Except.map]

theorem unplaced_failed {cause' cause : ParseFault} {rest' rest : List Token}
    {within' : rest'.length ≤ m} {within : rest.length ≤ n} :
    Unplaced g (.failed cause' rest' within' : Parse α k m)
      (.failed cause rest within : Parse α k n) ↔
      cause' = cause ∧ rest' = rest.map Token.unplaced := by
  simp [Unplaced, outcome, Except.map]

theorem unplaced_of_returns {a : α} {rest : List Token}
    (hr' : r'.Returns (g a) (rest.map Token.unplaced)) (hr : r.Returns a rest) :
    Unplaced g r' r := by
  have hr : r.outcome = (.ok a, rest) := hr
  rw [Unplaced, hr]
  exact hr'

theorem unplaced_of_error {cause : ParseFault} {rest : List Token}
    (hr : r.outcome = (.error cause, rest))
    (hr' : r'.outcome = (.error cause, rest.map Token.unplaced)) : Unplaced g r' r := by
  rw [Unplaced, hr, hr']
  rfl

theorem Unplaced.congr {m' n' : Nat} {q' : Parse α k' m'} {q : Parse α k' n'} (hq : Unplaced g q' q)
    (hr' : r'.outcome = q'.outcome) (hr : r.outcome = q.outcome) : Unplaced g r' r := by
  unfold Unplaced at hq ⊢
  rw [hr', hr, hq]

theorem Unplaced.map {f' f : α → β} (hr : Unplaced g r' r) (hf : ∀ a, f' (g a) = h (f a)) :
    Unplaced h (r'.map f') (r.map f) := by
  unfold Unplaced at hr ⊢
  rw [outcome_map, outcome_map, hr]
  cases r.outcome.1 with
  | error cause => rfl
  | ok a => simp [Except.map, hf]

theorem unplaced_weaken {r' : Parse α k' m} {r : Parse α k' n} {le le' : decide (k ≤ k') = true} :
    Unplaced g (r'.weaken le') (r.weaken le) ↔ Unplaced g r' r := by
  simp [Unplaced]

theorem unplaced_widen {m' n' : Nat} {r' : Parse α j m'} {r : Parse α j n'}
    {bound' : m' + k ≤ m + j} {le' : m' ≤ m} {bound : n' + k ≤ n + j} {le : n' ≤ n} :
    Unplaced g (r'.widen bound' le' : Parse α k m) (r.widen bound le : Parse α k n) ↔
      Unplaced g r' r := by
  simp [Unplaced]

theorem outcome_andThen_done {a : α} {rest : List Token} {used : rest.length + k ≤ n}
    {next : (a : α) → (rest : List Token) → rest.length + k ≤ n → Parse β j rest.length} :
    ((.done a rest used : Parse α k n).andThen next).outcome = (next a rest used).outcome := by
  simp only [Reading.andThen]
  cases next a rest used <;> rfl

theorem Unplaced.andThen
    {next' : (a : α) → (rest : List Token) → rest.length + k ≤ m → Parse β j rest.length}
    {next : (a : α) → (rest : List Token) → rest.length + k ≤ n → Parse β j rest.length}
    (hr : Unplaced g r' r)
    (hnext : ∀ a rest used' used,
      Unplaced h (next' (g a) (rest.map Token.unplaced) used') (next a rest used)) :
    Unplaced h (r'.andThen next') (r.andThen next) := by
  cases r with
  | failed cause rest within =>
    cases r' with
    | done a' rest' used' => cases hr
    | failed cause' rest' within' =>
      cases hr
      rfl
  | done a rest used =>
    cases r' with
    | failed cause' rest' within' => cases hr
    | done a' rest' used' =>
      cases hr
      have hn := hnext a rest used' used
      unfold Unplaced at hn ⊢
      rwa [outcome_andThen_done, outcome_andThen_done]

end Combinators

@[simp] theorem unplaced_kind (t : Token) : t.unplaced.kind = t.kind := rfl

@[simp] theorem unplaced_literal (t : Token) : t.unplaced.literal = t.literal := rfl

section Tokens

theorem unplaced_expect (p : Pattern) (what : String) (ts : List Token) :
    Unplaced Token.unplaced (expect p what (ts.map Token.unplaced)) (expect p what ts) := by
  cases ts with
  | nil => exact unplaced_failed.mpr ⟨rfl, rfl⟩
  | cons t ts =>
    have hfits : p.fits t.unplaced = p.fits t := by cases p <;> rfl
    rw [List.map_cons]
    simp only [expect, hfits]
    split
    · exact unplaced_done.mpr ⟨rfl, rfl⟩
    · exact unplaced_failed.mpr ⟨rfl, rfl⟩

theorem unplaced_keyword (text : String) (ts : List Token) :
    Unplaced Token.unplaced (keyword text (ts.map Token.unplaced)) (keyword text ts) :=
  unplaced_expect _ _ ts

theorem unplaced_sign (text : String) (ts : List Token) :
    Unplaced Token.unplaced (sign text (ts.map Token.unplaced)) (sign text ts) :=
  unplaced_expect _ _ ts

theorem unplaced_identifier (ts : List Token) :
    Unplaced id (identifier (ts.map Token.unplaced)) (identifier ts) :=
  (unplaced_expect _ _ ts).map fun _ => rfl

theorem unplaced_accept (text : String) (ts : List Token) :
    Unplaced id (accept text (ts.map Token.unplaced)) (accept text ts) := by
  cases ts with
  | nil => exact unplaced_done.mpr ⟨rfl, rfl⟩
  | cons t ts =>
    rw [List.map_cons, accept, accept, unplaced_literal]
    split
    · exact unplaced_done.mpr ⟨rfl, rfl⟩
    · exact unplaced_done.mpr ⟨rfl, rfl⟩

theorem unplaced_typeClause (ts : List Token) :
    Unplaced id (typeClause (ts.map Token.unplaced)) (typeClause ts) := by
  cases ts with
  | nil => exact unplaced_done.mpr ⟨rfl, rfl⟩
  | cons t ts =>
    rw [List.map_cons, typeClause, typeClause, unplaced_literal]
    split
    · rw [unplaced_widen]
      exact (unplaced_identifier ts).map fun _ => rfl
    · exact unplaced_done.mpr ⟨rfl, rfl⟩

end Tokens

theorem Avoids.unplaced {texts : List String} {ts : List Token} (h : Avoids texts ts) :
    Avoids texts (ts.map Token.unplaced) := by
  cases ts with
  | nil => trivial
  | cons t ts => exact h

theorem unplaced_number {t : Token} {result : Except ParseFault Literal} (hword : NoWord t)
    (hword' : NoWord t.unplaced) (h : NumberReads t result) (h' : NumberReads t.unplaced result)
    (ts : List Token) :
    Unplaced id (primaryExpression (t.unplaced :: ts.map Token.unplaced))
      (primaryExpression (t :: ts)) := by
  cases result with
  | ok value =>
    exact unplaced_of_returns (outcome_primary_number hword' h' _)
      (outcome_primary_number hword h ts)
  | error fault =>
    exact unplaced_of_error (outcome_primary_number hword h ts)
      (outcome_primary_number hword' h' _)

section Expressions

mutual

theorem unplaced_binaryExpression (level : Level) (ts : List Token) :
    Unplaced id (binaryExpression level (ts.map Token.unplaced)) (binaryExpression level ts) := by
  rw [binaryExpression, binaryExpression, unplaced_weaken]
  refine (unplaced_operand level ts).andThen fun left rest used' used => ?_
  exact unplaced_binaryRest level left rest
termination_by 16 * ts.length + level.rank
decreasing_by
  · have := Level.two_lt_rank level; omega
  · omega

theorem unplaced_operand (level : Level) (ts : List Token) :
    Unplaced id (operand level (ts.map Token.unplaced)) (operand level ts) := by
  rw [operand, operand]
  split
  · next tighter ht =>
    have hrank : tighter.rank + 2 = level.rank := Level.rank_of_tighter? ht
    exact unplaced_binaryExpression tighter ts
  · exact unplaced_secondaryExpression ts
termination_by 16 * ts.length + (level.rank - 1)
decreasing_by
  · omega
  · have := Level.two_lt_rank level; omega

theorem unplaced_binaryRest (level : Level) (left : Node) (ts : List Token) :
    Unplaced id (binaryRest level left (ts.map Token.unplaced)) (binaryRest level left ts) := by
  cases ts with
  | nil =>
    rw [List.map_nil, binaryRest]
    exact unplaced_done.mpr ⟨rfl, rfl⟩
  | cons t ts =>
    rw [List.map_cons, binaryRest, binaryRest, unplaced_literal]
    split
    · rw [unplaced_widen]
      refine (unplaced_operand level ts).andThen fun right rest used' used => ?_
      exact unplaced_binaryRest level _ rest
    · exact unplaced_done.mpr ⟨rfl, rfl⟩
termination_by 16 * ts.length
decreasing_by
  · have := Level.rank_lt_ten level; simp only [List.length_cons]; omega
  · simp only [List.length_cons]; omega

theorem unplaced_secondaryExpression (ts : List Token) :
    Unplaced id (secondaryExpression (ts.map Token.unplaced)) (secondaryExpression ts) := by
  rw [secondaryExpression, secondaryExpression, unplaced_weaken]
  refine (unplaced_primaryExpression ts).andThen fun node rest used' used => ?_
  exact unplaced_secondaryRest node rest
termination_by 16 * ts.length + 1

theorem unplaced_secondaryRest (node : Node) (ts : List Token) :
    Unplaced id (secondaryRest node (ts.map Token.unplaced)) (secondaryRest node ts) := by
  cases ts with
  | nil =>
    rw [List.map_nil, secondaryRest]
    exact unplaced_done.mpr ⟨rfl, rfl⟩
  | cons t ts =>
    by_cases ht : t.literal = "."
    · have hmore : Unplaced id
          ((identifier (ts.map Token.unplaced)).andThen fun name rest _ => memberRest node name rest)
          ((identifier ts).andThen fun name rest _ => memberRest node name rest) :=
        (unplaced_identifier ts).andThen fun name rest used' used =>
          unplaced_memberRest node name rest
      refine hmore.congr ?_ ?_
      · exact outcome_secondaryRest_dot (show t.unplaced.literal = "." from ht) _
      · exact outcome_secondaryRest_dot ht ts
    · rw [List.map_cons, secondaryRest, secondaryRest, unplaced_literal, if_neg (by simpa using ht),
        if_neg (by simpa using ht)]
      exact unplaced_done.mpr ⟨rfl, rfl⟩
termination_by 16 * ts.length

theorem unplaced_memberRest (node : Node) (name : String) (ts : List Token) :
    Unplaced id (memberRest node name (ts.map Token.unplaced)) (memberRest node name ts) := by
  cases ts with
  | nil => exact unplaced_secondaryRest _ []
  | cons p ts =>
    rw [List.map_cons, memberRest, memberRest, unplaced_literal]
    split
    · rw [unplaced_widen]
      refine (unplaced_arguments ts).andThen fun args rest used' used => ?_
      exact unplaced_secondaryRest _ rest
    · exact unplaced_secondaryRest _ (p :: ts)
termination_by 16 * ts.length + 11

theorem unplaced_arguments (ts : List Token) :
    Unplaced id (Rule.arguments (ts.map Token.unplaced)) (Rule.arguments ts) := by
  cases ts with
  | nil =>
    rw [List.map_nil, Rule.arguments]
    exact unplaced_failed.mpr ⟨rfl, rfl⟩
  | cons t ts =>
    rw [List.map_cons, Rule.arguments, Rule.arguments, unplaced_literal]
    split
    · exact unplaced_done.mpr ⟨rfl, rfl⟩
    · rw [unplaced_weaken]
      refine (unplaced_binaryExpression .logical (t :: ts)).andThen fun first rest used' used => ?_
      exact (unplaced_moreArguments rest).map fun _ => rfl
termination_by 16 * ts.length + 10
decreasing_by
  · simp only [Level.rank]; omega
  · omega

theorem unplaced_moreArguments (ts : List Token) :
    Unplaced id (moreArguments (ts.map Token.unplaced)) (moreArguments ts) := by
  cases ts with
  | nil =>
    rw [List.map_nil, moreArguments]
    exact (unplaced_sign ")" []).map fun _ => rfl
  | cons t ts =>
    rw [List.map_cons, moreArguments, moreArguments, unplaced_literal]
    split
    · rw [unplaced_widen]
      refine (unplaced_binaryExpression .logical ts).andThen fun next rest used' used => ?_
      exact (unplaced_moreArguments rest).map fun _ => rfl
    · exact (unplaced_sign ")" (t :: ts)).map fun _ => rfl
termination_by 16 * ts.length
decreasing_by
  · simp only [Level.rank, List.length_cons]; omega
  · simp only [List.length_cons]; omega

theorem unplaced_primaryExpression (ts : List Token) :
    Unplaced id (primaryExpression (ts.map Token.unplaced)) (primaryExpression ts) := by
  cases ts with
  | nil =>
    rw [List.map_nil, primaryExpression]
    exact unplaced_failed.mpr ⟨rfl, rfl⟩
  | cons t ts =>
    by_cases hnil : t.literal = "NIL"
    · exact unplaced_of_returns (primary_nil hnil) (primary_nil hnil)
    by_cases htrue : t.literal = "TRUE"
    · exact unplaced_of_returns (primary_true htrue) (primary_true htrue)
    by_cases hfalse : t.literal = "FALSE"
    · exact unplaced_of_returns (primary_false hfalse) (primary_false hfalse)
    have hword : NoWord t := ⟨hnil, htrue, hfalse⟩
    have hword' : NoWord t.unplaced := hword
    have hgroup : t.literal = "(" → (t.kind = .identifier ∨ t.kind = .operator) →
        Unplaced id (primaryExpression ((t :: ts).map Token.unplaced))
          (primaryExpression (t :: ts)) := by
      intro hl hk
      have hinner : Unplaced id
          ((binaryExpression .logical (ts.map Token.unplaced)).andThen fun inner rest _ =>
            (sign ")" rest).map fun _ => Node.group inner none)
          ((binaryExpression .logical ts).andThen fun inner rest _ =>
            (sign ")" rest).map fun _ => Node.group inner none) :=
        (unplaced_binaryExpression .logical ts).andThen fun inner rest used' used =>
          (unplaced_sign ")" rest).map fun _ => rfl
      refine hinner.congr ?_ ?_
      · exact outcome_primary_group (l := t.unplaced) hl hk _
      · exact outcome_primary_group hl hk ts
    cases hk : t.kind with
    | integer => exact unplaced_number hword hword' (.inl ⟨hk, rfl⟩) (.inl ⟨hk, rfl⟩) ts
    | decimal => exact unplaced_number hword hword' (.inr ⟨hk, rfl⟩) (.inr ⟨hk, rfl⟩) ts
    | character =>
      exact unplaced_of_returns (primary_character hword' hk) (primary_character hword hk)
    | string => exact unplaced_of_returns (primary_string hword' hk) (primary_string hword hk)
    | identifier =>
      by_cases hl : t.literal = "("
      · exact hgroup hl (.inl hk)
      by_cases h : Avoids ["("] ts
      · exact unplaced_of_returns (primary_name hword' hk hl h.unplaced)
          (primary_name hword hk hl h)
      cases ts with
      | nil => exact absurd trivial h
      | cons p ts =>
        have hp : p.literal = "(" := by simpa using h
        have harguments : Unplaced id
            ((Rule.arguments (ts.map Token.unplaced)).map fun args =>
              Node.call .absent t.literal args none none)
            ((Rule.arguments ts).map fun args => Node.call .absent t.literal args none none) :=
          (unplaced_arguments ts).map fun _ => rfl
        refine harguments.congr ?_ ?_
        · exact outcome_primary_call (p := p.unplaced) hword' hk hl hp _
        · exact outcome_primary_call hword hk hl hp ts
    | operator =>
      by_cases hl : t.literal = "("
      · exact hgroup hl (.inr hk)
      · exact unplaced_of_error (outcome_primary_operator hword hk hl ts)
          (outcome_primary_operator hword' hk hl _)
termination_by 16 * ts.length
decreasing_by
  · simp only [Level.rank, List.length_cons]; omega
  · simp only [List.length_cons]; omega

end

theorem unplaced_expression (ts : List Token) :
    Unplaced id (expression (ts.map Token.unplaced)) (expression ts) :=
  unplaced_binaryExpression .logical ts

end Expressions

section Statements

theorem unplaced_initialValue (ts : List Token) :
    Unplaced id (initialValue (ts.map Token.unplaced)) (initialValue ts) := by
  cases ts with
  | nil => exact unplaced_done.mpr ⟨rfl, rfl⟩
  | cons t ts =>
    rw [List.map_cons, initialValue, initialValue, unplaced_literal]
    split
    · exact unplaced_widen.mpr (unplaced_expression ts)
    · exact unplaced_done.mpr ⟨rfl, rfl⟩

theorem unplaced_declarationStatement (ts : List Token) :
    Unplaced id (declarationStatement (ts.map Token.unplaced)) (declarationStatement ts) := by
  rw [declarationStatement, declarationStatement, unplaced_weaken]
  refine (unplaced_keyword "LET" ts).andThen fun _ rest₁ _ _ => ?_
  refine (unplaced_identifier rest₁).andThen fun name rest₂ _ _ => ?_
  refine (unplaced_typeClause rest₂).andThen fun typeName rest₃ _ _ => ?_
  refine (unplaced_initialValue rest₃).andThen fun value rest₄ _ _ => ?_
  exact (unplaced_sign ";" rest₄).map fun _ => rfl

theorem unplaced_returnStatement (ts : List Token) :
    Unplaced id (returnStatement (ts.map Token.unplaced)) (returnStatement ts) := by
  rw [returnStatement, returnStatement, unplaced_weaken]
  refine (unplaced_keyword "RETURN" ts).andThen fun _ rest₁ _ _ => ?_
  refine (unplaced_expression rest₁).andThen fun value rest₂ _ _ => ?_
  exact (unplaced_sign ";" rest₂).map fun _ => rfl

theorem unplaced_expressionStatement (ts : List Token) :
    Unplaced id (expressionStatement (ts.map Token.unplaced)) (expressionStatement ts) := by
  rw [expressionStatement, expressionStatement, unplaced_weaken]
  refine (unplaced_expression ts).andThen fun left rest₁ _ _ => ?_
  refine (unplaced_accept "=" rest₁).andThen fun assigned rest₂ _ _ => ?_
  cases assigned with
  | false => exact (unplaced_sign ";" rest₂).map fun _ => rfl
  | true =>
    rw [id, if_pos rfl, if_pos rfl, unplaced_weaken]
    refine (unplaced_expression rest₂).andThen fun value rest₃ _ _ => ?_
    exact (unplaced_sign ";" rest₃).map fun _ => rfl

theorem unplaced_loopAssignment (ts : List Token) :
    Unplaced id (loopAssignment (ts.map Token.unplaced)) (loopAssignment ts) := by
  cases ts with
  | nil => exact unplaced_done.mpr ⟨rfl, rfl⟩
  | cons t ts =>
    rw [List.map_cons, loopAssignment, loopAssignment, unplaced_kind]
    split
    · rw [unplaced_weaken]
      refine (unplaced_identifier (t :: ts)).andThen fun name rest₁ _ _ => ?_
      refine (unplaced_sign "=" rest₁).andThen fun _ rest₂ _ _ => ?_
      exact (unplaced_expression rest₂).map fun _ => rfl
    · exact unplaced_done.mpr ⟨rfl, rfl⟩

mutual

theorem unplaced_block (terminators : List String) (ts : List Token) :
    Unplaced id (block terminators (ts.map Token.unplaced)) (block terminators ts) := by
  cases ts with
  | nil =>
    rw [List.map_nil, block]
    exact unplaced_failed.mpr ⟨rfl, rfl⟩
  | cons t ts =>
    rw [List.map_cons, block, block, unplaced_literal]
    split
    · exact unplaced_done.mpr ⟨rfl, rfl⟩
    · rw [unplaced_weaken]
      refine (unplaced_statement (t :: ts)).andThen fun first rest used' used => ?_
      have hle : rest.length ≤ ts.length := Nat.le_of_succ_le_succ used
      exact (unplaced_block terminators rest).map fun _ => rfl
termination_by 4 * ts.length + 2

theorem unplaced_statement (ts : List Token) :
    Unplaced id (statement (ts.map Token.unplaced)) (statement ts) := by
  cases ts with
  | nil =>
    rw [List.map_nil, statement]
    exact unplaced_expressionStatement []
  | cons t ts =>
    rw [List.map_cons, statement, statement, unplaced_literal]
    split
    · exact unplaced_declarationStatement (t :: ts)
    split
    · exact unplaced_ifStatement (t :: ts)
    split
    · exact unplaced_forStatement (t :: ts)
    split
    · exact unplaced_whileStatement (t :: ts)
    split
    · exact unplaced_returnStatement (t :: ts)
    · exact unplaced_expressionStatement (t :: ts)
termination_by 4 * ts.length + 1

theorem unplaced_ifStatement (ts : List Token) :
    Unplaced id (ifStatement (ts.map Token.unplaced)) (ifStatement ts) := by
  rw [ifStatement, ifStatement, unplaced_weaken]
  refine (unplaced_keyword "IF" ts).andThen fun _ rest₁ _ used₁ => ?_
  refine (unplaced_expression rest₁).andThen fun condition rest₂ _ used₂ => ?_
  refine (unplaced_keyword "DO" rest₂).andThen fun _ rest₃ _ used₃ => ?_
  refine (unplaced_block ["ELSE", "END"] rest₃).andThen fun thens rest₄ _ used₄ => ?_
  refine (unplaced_elseBranch rest₄).andThen fun elses rest₅ _ used₅ => ?_
  exact (unplaced_keyword "END" rest₅).map fun _ => rfl
termination_by 4 * ts.length

theorem unplaced_elseBranch (ts : List Token) :
    Unplaced id (elseBranch (ts.map Token.unplaced)) (elseBranch ts) := by
  cases ts with
  | nil =>
    rw [List.map_nil, elseBranch]
    exact unplaced_done.mpr ⟨rfl, rfl⟩
  | cons t ts =>
    rw [List.map_cons, elseBranch, elseBranch, unplaced_literal]
    split
    · exact unplaced_widen.mpr (unplaced_block ["END"] ts)
    · exact unplaced_done.mpr ⟨rfl, rfl⟩
termination_by 4 * ts.length

theorem unplaced_forStatement (ts : List Token) :
    Unplaced id (forStatement (ts.map Token.unplaced)) (forStatement ts) := by
  rw [forStatement, forStatement, unplaced_weaken]
  refine (unplaced_keyword "FOR" ts).andThen fun _ rest₁ _ used₁ => ?_
  refine (unplaced_sign "(" rest₁).andThen fun _ rest₂ _ used₂ => ?_
  refine (unplaced_loopAssignment rest₂).andThen fun initialization rest₃ _ used₃ => ?_
  refine (unplaced_sign ";" rest₃).andThen fun _ rest₄ _ used₄ => ?_
  refine (unplaced_expression rest₄).andThen fun condition rest₅ _ used₅ => ?_
  refine (unplaced_sign ";" rest₅).andThen fun _ rest₆ _ used₆ => ?_
  refine (unplaced_loopAssignment rest₆).andThen fun increment rest₇ _ used₇ => ?_
  refine (unplaced_sign ")" rest₇).andThen fun _ rest₈ _ used₈ => ?_
  refine (unplaced_block ["END"] rest₈).andThen fun statements rest₉ _ used₉ => ?_
  exact (unplaced_keyword "END" rest₉).map fun _ => rfl
termination_by 4 * ts.length

theorem unplaced_whileStatement (ts : List Token) :
    Unplaced id (whileStatement (ts.map Token.unplaced)) (whileStatement ts) := by
  rw [whileStatement, whileStatement, unplaced_weaken]
  refine (unplaced_keyword "WHILE" ts).andThen fun _ rest₁ _ used₁ => ?_
  refine (unplaced_expression rest₁).andThen fun condition rest₂ _ used₂ => ?_
  refine (unplaced_keyword "DO" rest₂).andThen fun _ rest₃ _ used₃ => ?_
  refine (unplaced_block ["END"] rest₃).andThen fun statements rest₄ _ used₄ => ?_
  exact (unplaced_keyword "END" rest₄).map fun _ => rfl
termination_by 4 * ts.length

end

end Statements

section Declarations

theorem unplaced_field (ts : List Token) :
    Unplaced id (field (ts.map Token.unplaced)) (field ts) := by
  rw [field, field, unplaced_weaken]
  refine (unplaced_keyword "LET" ts).andThen fun _ rest₁ _ _ => ?_
  refine (unplaced_accept "CONST" rest₁).andThen fun constant rest₂ _ _ => ?_
  refine (unplaced_identifier rest₂).andThen fun name rest₃ _ _ => ?_
  refine (unplaced_typeClause rest₃).andThen fun typeName rest₄ _ _ => ?_
  refine (unplaced_initialValue rest₄).andThen fun value rest₅ _ _ => ?_
  exact (unplaced_sign ";" rest₅).map fun _ => rfl

theorem unplaced_parameter (ts : List Token) :
    Unplaced id (parameter (ts.map Token.unplaced)) (parameter ts) := by
  rw [parameter, parameter, unplaced_weaken]
  refine (unplaced_identifier ts).andThen fun name rest _ _ => ?_
  exact (unplaced_typeClause rest).map fun _ => rfl

theorem unplaced_moreParameters (ts : List Token) :
    Unplaced id (moreParameters (ts.map Token.unplaced)) (moreParameters ts) := by
  cases ts with
  | nil =>
    rw [List.map_nil, moreParameters]
    exact unplaced_done.mpr ⟨rfl, rfl⟩
  | cons t ts =>
    rw [List.map_cons, moreParameters, moreParameters, unplaced_literal]
    split
    · rw [unplaced_widen]
      refine (unplaced_parameter ts).andThen fun next rest used' used => ?_
      exact (unplaced_moreParameters rest).map fun _ => rfl
    · exact unplaced_done.mpr ⟨rfl, rfl⟩
termination_by ts.length

theorem unplaced_parameters (ts : List Token) :
    Unplaced id (parameters (ts.map Token.unplaced)) (parameters ts) := by
  have hfits : Pattern.allFit [.literal ")"] (ts.map Token.unplaced) =
      Pattern.allFit [.literal ")"] ts := by
    cases ts <;> rfl
  rw [parameters, parameters, hfits]
  split
  · exact unplaced_done.mpr ⟨rfl, rfl⟩
  · rw [unplaced_weaken]
    refine (unplaced_parameter ts).andThen fun first rest _ _ => ?_
    exact (unplaced_moreParameters rest).map fun _ => rfl

theorem unplaced_method (ts : List Token) :
    Unplaced id (method (ts.map Token.unplaced)) (method ts) := by
  rw [method, method, unplaced_weaken]
  refine (unplaced_keyword "DEF" ts).andThen fun _ rest₁ _ _ => ?_
  refine (unplaced_identifier rest₁).andThen fun name rest₂ _ _ => ?_
  refine (unplaced_sign "(" rest₂).andThen fun _ rest₃ _ _ => ?_
  refine (unplaced_parameters rest₃).andThen fun ps rest₄ _ _ => ?_
  refine (unplaced_sign ")" rest₄).andThen fun _ rest₅ _ _ => ?_
  refine (unplaced_typeClause rest₅).andThen fun returnType rest₆ _ _ => ?_
  refine (unplaced_keyword "DO" rest₆).andThen fun _ rest₇ _ _ => ?_
  refine (unplaced_block ["END"] rest₇).andThen fun statements rest₈ _ _ => ?_
  exact (unplaced_keyword "END" rest₈).map fun _ => rfl

theorem unplaced_fields (ts : List Token) :
    Unplaced id (fields (ts.map Token.unplaced)) (fields ts) := by
  cases ts with
  | nil =>
    rw [List.map_nil, fields]
    exact unplaced_done.mpr ⟨rfl, rfl⟩
  | cons t ts =>
    rw [List.map_cons, fields, fields, unplaced_literal]
    split
    · rw [unplaced_weaken]
      refine (unplaced_field (t :: ts)).andThen fun first rest used' used => ?_
      have hle : rest.length ≤ ts.length := Nat.le_of_succ_le_succ used
      exact (unplaced_fields rest).map fun _ => rfl
    · exact unplaced_done.mpr ⟨rfl, rfl⟩
termination_by ts.length

theorem unplaced_methods (ts : List Token) :
    Unplaced id (methods (ts.map Token.unplaced)) (methods ts) := by
  cases ts with
  | nil =>
    rw [List.map_nil, methods]
    exact unplaced_done.mpr ⟨rfl, rfl⟩
  | cons t ts =>
    rw [List.map_cons, methods, methods, unplaced_literal]
    split
    · rw [unplaced_weaken]
      refine (unplaced_method (t :: ts)).andThen fun first rest used' used => ?_
      have hle : rest.length ≤ ts.length := Nat.le_of_succ_le_succ used
      exact (unplaced_methods rest).map fun _ => rfl
    · exact unplaced_done.mpr ⟨rfl, rfl⟩
termination_by ts.length

theorem unplaced_endOfTokens (ts : List Token) :
    Unplaced id (endOfTokens (ts.map Token.unplaced)) (endOfTokens ts) := by
  cases ts with
  | nil => exact unplaced_done.mpr ⟨rfl, rfl⟩
  | cons t ts => exact unplaced_failed.mpr ⟨rfl, rfl⟩

theorem unplaced_source (ts : List Token) :
    Unplaced id (source (ts.map Token.unplaced)) (source ts) := by
  rw [source, source, unplaced_weaken]
  refine (unplaced_fields ts).andThen fun fs rest₁ _ _ => ?_
  refine (unplaced_methods rest₁).andThen fun ms rest₂ _ _ => ?_
  exact (unplaced_endOfTokens rest₂).map fun _ => rfl

end Declarations

section Outcomes

variable {stops : List Token → Prop} {r : (ts : List Token) → Parse α k ts.length}
  {ts us : List Token}

/-- What a rule leaves is the end of what it had. -/
theorem Viable.suffix (h : Viable stops r ts) : (r ts).outcome.2 <:+ ts := by
  cases h with
  | reads a used rest split steady =>
    have hr : (r ts).outcome = (.ok a, rest) := split ▸ steady rest (.inl rfl)
    exact ⟨used, by rw [hr, ← split]⟩
  | fails e used rest split steady completed =>
    have hr : (r ts).outcome = (.error e, rest) := split ▸ steady rest rfl
    exact ⟨used, by rw [hr, ← split]⟩

/-- On tokens of the same kinds and texts a rule ends alike, with as many tokens behind it. -/
theorem outcome_alike (hr : ∀ ts, Unplaced id (r (ts.map Token.unplaced)) (r ts))
    (hviable : ∀ ts, Viable stops r ts) (h : us.map Token.unplaced = ts.map Token.unplaced) :
    ∃ result count, (r ts).outcome = (result, ts.drop count) ∧
      (r us).outcome = (result, us.drop count) := by
  have hid : ∀ result : Except ParseFault α, result.map id = result := fun result => by
    cases result <;> rfl
  have hts := hr ts
  have hus := hr us
  rw [h] at hus
  have hboth := hts.symm.trans hus
  rw [hid, hid, Prod.mk.injEq] at hboth
  have hrest : (r us).outcome.2.length = (r ts).outcome.2.length := by
    simpa using (congrArg List.length hboth.2).symm
  have hlength : us.length = ts.length := by simpa using congrArg List.length h
  have hcount : us.length - (r us).outcome.2.length = ts.length - (r ts).outcome.2.length := by
    omega
  have htsdrop := List.suffix_iff_eq_drop.mp (hviable ts).suffix
  have husdrop := List.suffix_iff_eq_drop.mp (hviable us).suffix
  refine ⟨(r ts).outcome.1, ts.length - (r ts).outcome.2.length, Prod.ext rfl htsdrop,
    Prod.ext hboth.1.symm ?_⟩
  rw [← hcount]
  exact husdrop

/-- Texts with tokens of the same kinds and texts are the same program, or none for the same reason
at the same of the tokens. -/
theorem readProgram_alike {text text' : String} (hts : tokensOf text = .ok ts)
    (hus : tokensOf text' = .ok us) (h : us.map Token.unplaced = ts.map Token.unplaced) :
    (∃ tree, readProgram text = .ok tree ∧ readProgram text' = .ok tree) ∨
      ∃ fault count, readProgram text = .error (.ofParse ts (ts.drop count) fault) ∧
        readProgram text' = .error (.ofParse us (us.drop count) fault) := by
  obtain ⟨result, count, hresult, hresult'⟩ := outcome_alike unplaced_source
    (fun ts => (guided_source ts.length).viable ts (Nat.le_refl _)) h
  rw [readProgram_eq_applyRule hts, readProgram_eq_applyRule hus]
  cases result with
  | ok tree =>
    refine .inl ⟨tree, ?_, ?_⟩
    · rw [applyRule_of_returns hresult]
    · rw [applyRule_of_returns hresult']
  | error fault =>
    refine .inr ⟨fault, count, ?_, ?_⟩
    · rw [applyRule_of_fault hresult]
    · rw [applyRule_of_fault hresult']

end Outcomes

end BlockScript.Grammar
