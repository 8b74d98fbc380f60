import BlockScript.Proofs.Grammar.Completeness
import BlockScript.Proofs.Grammar.Viable
/-!
# Every rule keeps a viable prefix

For each rule a phrase that it reads and the tokens at which it stops; where it fails, the tokens
that it used begin some text that it reads. A rule passes this on from the rules that it calls, so
the whole program has it.
-/
namespace BlockScript.Grammar

open Rule Reading

def wordToken (text : String) : Token := ⟨.identifier, text, 0⟩

def signToken (text : String) : Token := ⟨.operator, text, 0⟩

def shortName : List Token := [wordToken "x"]

def shortStatement : List Token := [wordToken "x", signToken ";"]

def EndsHeader : List Token → Prop
  | [] => False
  | t :: _ => t.kind ≠ .identifier ∧ t.literal ∈ [";", ")"]

variable {n : Nat}

section Tokens

variable {stops : List Token → Prop}

theorem guided_expect {p : Pattern} {t : Token} (ht : p.fits t = true) (what : String) (n : Nat) :
    Guided stops (expect p what) [t] n where
  completes rest _ := ⟨t, by simp [expect, ht]⟩
  viable ts _ := by
    have hphrase : Completes stops (expect p what) [t] := fun rest _ => ⟨t, by simp [expect, ht]⟩
    cases ts with
    | nil =>
      refine Viable.refuses hphrase (e := .expected what) fun rest hrest => ?_
      rw [List.head?_eq_none_iff.mp hrest]
      rfl
    | cons u us =>
      by_cases hu : p.fits u = true
      · exact .reads u [u] us rfl fun rest _ => by simp [expect, hu]
      · refine Viable.refuses hphrase (e := .expected what) fun rest hrest => ?_
        obtain ⟨rest, rfl⟩ := List.head?_eq_some_iff.mp hrest
        simp [expect, hu, outcome]

theorem guided_keyword (text : String) (n : Nat) :
    Guided stops (keyword text) [wordToken text] n :=
  guided_expect (by simp [Pattern.fits, wordToken]) text n

theorem guided_sign (text : String) (n : Nat) : Guided stops (sign text) [signToken text] n :=
  guided_expect (by simp [Pattern.fits, signToken]) _ n

theorem guided_identifier (n : Nat) : Guided stops identifier shortName n :=
  (guided_expect (t := wordToken "x") rfl "identifier" n).map Token.literal

theorem guided_accept (text : String) (n : Nat) : Guided (Avoids [text]) (accept text) [] n where
  completes rest h := ⟨false, returns_accept_of_avoids h⟩
  viable ts _ := by
    by_cases h : Avoids [text] ts
    · exact .keeps fun rest hrest => returns_accept_of_avoids
        (hrest.elim (avoids_of_head? h) id)
    · cases ts with
      | nil => exact absurd trivial h
      | cons t ts =>
        have ht : t.literal = text := by simpa using h
        exact .reads true [t] ts rfl fun rest _ => returns_accept ht

end Tokens

/-- A rule that goes on behind certain texts, and uses nothing without them. -/
theorem guided_option {α : Type} {k k' : Nat} {stops : List Token → Prop} {texts : List String}
    {r : (ts : List Token) → Parse α k ts.length}
    {q : Token → (ts : List Token) → Parse α k' ts.length} {a : α} (phrase : List Token)
    (hnone : ∀ ts, Avoids texts ts → (r ts).Returns a ts)
    (hsome : ∀ t, t.literal ∈ texts → ∀ ts, (r (t :: ts)).outcome = (q t ts).outcome)
    (h : 0 < n → ∀ t, t.literal ∈ texts → Guided stops (q t) phrase (n - 1))
    (hstops : ∀ ts, stops ts → Avoids texts ts) : Guided stops r [] n where
  completes rest hrest := ⟨a, hnone rest (hstops rest hrest)⟩
  viable ts hts := by
    by_cases hhead : Avoids texts ts
    · exact .keeps fun rest hrest => hnone rest (hrest.elim (avoids_of_head? hhead) (hstops rest))
    · cases ts with
      | nil => exact absurd trivial hhead
      | cons t ts =>
        have ht : t.literal ∈ texts := by simpa using hhead
        have hlength : ts.length + 1 ≤ n := hts
        have hviable := (h (by omega) t ht).viable ts (by omega)
        exact hviable.behind [t] fun rest => hsome t ht rest

theorem guided_typeClause (n : Nat) : Guided (Avoids [":"]) typeClause [] n := by
  have hname : Guided (Avoids [":"]) (fun ts => (identifier ts).map some) shortName (n - 1) :=
    (guided_identifier (n - 1)).map some
  refine guided_option (q := fun _ ts => (identifier ts).map some) shortName
    (fun ts => typeClause_none) (fun t ht ts => ?_) (fun _ _ _ => hname) (fun _ h => h)
  simp [typeClause, List.mem_singleton.mp ht]

section Expressions

theorem length_le_of_behind (p : Token) (rest : List Token) : rest.length ≤ (p :: rest).length :=
  Nat.le_succ _

theorem length_add_le_of_behind (p : Token) (rest : List Token) :
    rest.length + 0 ≤ (p :: rest).length + (1 + 0) :=
  Nat.le_add_right_of_le (length_le_of_behind p rest)

/-- What follows a member's name: the arguments of a call, or nothing, and then more members. -/
def memberRest (node : Node) (name : String) (ts : List Token) : Parse Node 0 ts.length :=
  match ts with
  | p :: rest =>
    if p.literal == "(" then
      ((Rule.arguments rest).andThen fun args rest' _ =>
        secondaryRest (.call node name args none none) rest').widen
        (length_add_le_of_behind p rest) (length_le_of_behind p rest)
    else secondaryRest (.access node name none none) (p :: rest)
  | [] => secondaryRest (.access node name none none) []

theorem memberRest_of_avoids {node : Node} {name : String} {ts : List Token}
    (h : Avoids ["("] ts) :
    (memberRest node name ts).outcome =
      (secondaryRest (.access node name none none) ts).outcome := by
  cases ts with
  | nil => rfl
  | cons p ts => rw [memberRest, if_neg (by simpa using h)]

theorem outcome_secondaryRest_dot {node : Node} {t : Token} (ht : t.literal = ".")
    (ts : List Token) :
    (secondaryRest node (t :: ts)).outcome =
      ((identifier ts).andThen fun name rest _ => memberRest node name rest).outcome := by
  rw [secondaryRest, if_pos (by simpa using ht), outcome_widen]
  congr 2
  funext name rest used
  cases rest with
  | nil => simp [memberRest, secondaryRest]
  | cons p rest => rfl

theorem returns_shortName {ts : List Token} (h : Avoids ["("] ts) :
    (primaryExpression (shortName ++ ts)).Returns (.access .absent "x" none none) ts :=
  primary_name ⟨by decide, by decide, by decide⟩ rfl (by decide) h

theorem outcome_primary_group {l : Token} (hl : l.literal = "(")
    (hk : l.kind = .identifier ∨ l.kind = .operator) (ts : List Token) :
    (primaryExpression (l :: ts)).outcome =
      ((binaryExpression .logical ts).andThen fun inner rest _ =>
        (sign ")" rest).map fun _ => Node.group inner none).outcome := by
  rw [primaryExpression.eq_def]
  obtain hk | hk := hk <;> simp [hl, hk]

theorem outcome_primary_call {t p : Token} (ht : NoWord t) (hk : t.kind = .identifier)
    (hl : t.literal ≠ "(") (hp : p.literal = "(") (ts : List Token) :
    (primaryExpression (t :: p :: ts)).outcome =
      ((Rule.arguments ts).map fun args =>
        Node.call .absent t.literal args none none).outcome := by
  obtain ⟨h₁, h₂, h₃⟩ := ht
  rw [primaryExpression.eq_def]
  simp [h₁, h₂, h₃, hk, hl, hp]

theorem outcome_primary_operator {t : Token} (ht : NoWord t) (hk : t.kind = .operator)
    (hl : t.literal ≠ "(") (ts : List Token) :
    (primaryExpression (t :: ts)).outcome = (.error .expectedExpression, t :: ts) := by
  obtain ⟨h₁, h₂, h₃⟩ := ht
  rw [primaryExpression.eq_def]
  simp [h₁, h₂, h₃, hk, hl, outcome]

/-- A number is used up whatever follows it, with or without a value. -/
theorem viable_number {t : Token} {result : Except ParseFault Literal} (hword : NoWord t)
    (h : NumberReads t result) (ts : List Token) :
    Viable (Avoids ["("]) primaryExpression (t :: ts) := by
  have houtcome := outcome_primary_number hword h
  cases result with
  | ok value => exact .reads _ [t] ts rfl fun rest _ => houtcome rest
  | error fault =>
    exact .fails fault [t] ts rfl (fun rest _ => houtcome rest)
      fun hplaced => by simp [unplaced_of_numberReads h] at hplaced

theorem operators_subset_continuers (level : Level) : level.operators ⊆ continuers level := by
  cases level <;> decide

theorem operandContinuers_subset_continuers (level : Level) :
    operandContinuers level ⊆ continuers level := by
  cases level <;> decide

mutual

theorem guided_binaryExpression (level : Level) (n : Nat) :
    Guided (Avoids (continuers level)) (binaryExpression level) shortName n := by
  have hoperand : Guided (Avoids (operandContinuers level)) (operand level) shortName n :=
    guided_operand level n
  have hrest : ∀ left, Guided (Avoids (continuers level)) (binaryRest level left) [] (n - 1) :=
    fun left => guided_binaryRest level left (n - 1)
  refine (hoperand.andThen hrest (fun ts h => ?_) (.inr fun ts h => ?_)).congr fun ts => ?_
  · exact h.mono (operandContinuers_subset_continuers level)
  · exact h.mono (operandContinuers_subset_continuers level)
  · rw [binaryExpression, outcome_weaken]
termination_by 16 * n + level.rank
decreasing_by
  · have := Level.two_lt_rank level; omega
  · have := Level.two_lt_rank level; omega

theorem guided_operand (level : Level) (n : Nat) :
    Guided (Avoids (operandContinuers level)) (operand level) shortName n := by
  cases ht : level.tighter? with
  | some tighter =>
    have hstops : operandContinuers level = continuers tighter := by simp [operandContinuers, ht]
    rw [hstops]
    refine (guided_binaryExpression tighter n).congr fun ts => ?_
    rw [operand]
    split
    · next m hm =>
      obtain rfl : tighter = m := Option.some.inj (ht.symm.trans hm)
      rfl
    · next hm => cases ht.symm.trans hm
  | none =>
    have hstops : operandContinuers level = [".", "("] := by simp [operandContinuers, ht]
    rw [hstops]
    refine (guided_secondaryExpression n).congr fun ts => ?_
    rw [operand]
    split
    · next m hm => cases ht.symm.trans hm
    · rfl
termination_by 16 * n + (level.rank - 1)
decreasing_by
  · have := Level.two_lt_rank level; omega
  · have := Level.rank_of_tighter? ht; omega

theorem guided_binaryRest (level : Level) (left : Node) (n : Nat) :
    Guided (Avoids (continuers level)) (binaryRest level left) [] n := by
  refine guided_option
    (q := fun t ts => (operand level ts).andThen fun right rest _ =>
      binaryRest level (.binary t.literal left right none) rest)
    shortName (fun ts => binaryRest_nil) (fun t ht ts => ?_) (fun hn t ht => ?_)
    fun ts h => h.mono (operators_subset_continuers level)
  · rw [binaryRest, if_pos (by simpa using ht), outcome_widen]
  · have hoperand : Guided (Avoids (operandContinuers level)) (operand level) shortName (n - 1) :=
      guided_operand level (n - 1)
    have hrest : ∀ right, Guided (Avoids (continuers level))
        (binaryRest level (.binary t.literal left right none)) [] (n - 1 - 1) :=
      fun right => guided_binaryRest level _ (n - 1 - 1)
    refine hoperand.andThen hrest (fun ts h => ?_) (.inr fun ts h => ?_)
    · exact h.mono (operandContinuers_subset_continuers level)
    · exact h.mono (operandContinuers_subset_continuers level)
termination_by 16 * n
decreasing_by
  · have := Level.rank_lt_ten level; omega
  · omega

theorem guided_secondaryExpression (n : Nat) :
    Guided (Avoids [".", "("]) secondaryExpression shortName n := by
  have hprimary : Guided (Avoids ["("]) primaryExpression shortName n := guided_primaryExpression n
  have hrest : ∀ node, Guided (Avoids [".", "("]) (secondaryRest node) [] (n - 1) :=
    fun node => guided_secondaryRest node (n - 1)
  refine (hprimary.andThen hrest (fun ts h => ?_) (.inr fun ts h => ?_)).congr fun ts => ?_
  · exact h.mono (by simp)
  · exact h.mono (by simp)
  · rw [secondaryExpression, outcome_weaken]
termination_by 16 * n + 1

theorem guided_secondaryRest (node : Node) (n : Nat) :
    Guided (Avoids [".", "("]) (secondaryRest node) [] n := by
  refine guided_option
    (q := fun _ ts => (identifier ts).andThen fun name rest _ => memberRest node name rest)
    shortName (fun ts => secondaryRest_nil) (fun t ht ts => ?_) (fun hn t ht => ?_)
    fun ts h => h.mono (by simp)
  · exact outcome_secondaryRest_dot (List.mem_singleton.mp ht) ts
  · have hname : Guided (fun _ => True) identifier shortName (n - 1) := guided_identifier (n - 1)
    exact hname.thenAny fun name => guided_memberRest node name (n - 1 - 1)
termination_by 16 * n

theorem guided_memberRest (node : Node) (name : String) (n : Nat) :
    Guided (Avoids [".", "("]) (memberRest node name) [] n := by
  have hcompletes : Completes (Avoids [".", "("]) (memberRest node name) [] := by
    intro ts h
    have hmembers : (secondaryRest (.access node name none none) ts).Returns _ ts :=
      secondaryRest_nil (h.mono (by simp))
    exact ⟨_, (memberRest_of_avoids (h.mono (by simp))).trans hmembers⟩
  refine ⟨hcompletes, fun ts hts => ?_⟩
  by_cases h : Avoids ["("] ts
  · have hmembers := (guided_secondaryRest (.access node name none none) n).viable ts hts
    refine hmembers.of_head? hcompletes fun us hus => memberRest_of_avoids ?_
    exact hus.elim (avoids_of_head? h) fun hu => hu.2.mono (by simp)
  · cases ts with
    | nil => exact absurd trivial h
    | cons p ts =>
      have hp : p.literal = "(" := by simpa using h
      have hlength : ts.length + 1 ≤ n := hts
      have harguments : Guided (fun _ => True) Rule.arguments [signToken ")"] (n - 1) :=
        guided_arguments (n - 1)
      have hmore : ∀ args, Guided (Avoids [".", "("])
          (secondaryRest (.call node name args none none)) [] (n - 1 - 1) :=
        fun args => guided_secondaryRest _ (n - 1 - 1)
      refine ((harguments.thenAny hmore).viable ts (by omega)).behind [p] fun rest => ?_
      rw [List.singleton_append, memberRest, if_pos (by simpa using hp), outcome_widen]
termination_by 16 * n + 11

theorem guided_arguments (n : Nat) :
    Guided (fun _ => True) Rule.arguments [signToken ")"] n := by
  have hcompletes : Completes (fun _ => True) Rule.arguments [signToken ")"] :=
    fun ts _ => ⟨[], arguments_none rfl⟩
  refine ⟨hcompletes, fun ts hts => ?_⟩
  cases ts with
  | nil =>
    refine Viable.refuses hcompletes (e := .expectedExpression) fun rest hrest => ?_
    rw [List.head?_eq_none_iff.mp hrest, Rule.arguments]
    rfl
  | cons t ts =>
    by_cases ht : t.literal = ")"
    · exact .reads [] [t] ts rfl fun rest _ => arguments_none ht
    · have hfirst : Guided (Avoids (continuers .logical)) (binaryExpression .logical) shortName n :=
        guided_binaryExpression .logical n
      have hmore : ∀ first, Guided (fun _ => True)
          (fun ts => (moreArguments ts).map (first :: ·)) [signToken ")"] (n - 1) :=
        fun first => (guided_moreArguments (n - 1)).map _
      have hall := hfirst.andThen hmore (fun rest _ => (by decide : ")" ∉ continuers .logical))
        (.inl (by omega))
      refine (hall.viable (t :: ts) hts).of_head?_pos hcompletes (by omega) fun us hus => ?_
      obtain ⟨us, rfl⟩ := List.head?_eq_some_iff.mp hus
      rw [Rule.arguments, if_neg (by simpa using ht), outcome_weaken]
termination_by 16 * n + 10
decreasing_by
  · simp only [Level.rank]; omega
  · omega

theorem guided_moreArguments (n : Nat) :
    Guided (fun _ => True) moreArguments [signToken ")"] n := by
  have hcompletes : Completes (fun _ => True) moreArguments [signToken ")"] :=
    fun ts _ => ⟨[], moreArguments_none rfl⟩
  refine ⟨hcompletes, fun ts hts => ?_⟩
  by_cases h : Avoids [","] ts
  · have hsign : Guided (fun _ => True) (fun ts => (sign ")" ts).map fun _ => ([] : List Node))
        [signToken ")"] n := (guided_sign ")" n).map _
    refine (hsign.viable ts hts).of_head?_pos hcompletes (by omega) fun us hus => ?_
    have hus : Avoids [","] us := avoids_of_head? h hus
    cases us with
    | nil => rw [moreArguments]
    | cons u us => rw [moreArguments, if_neg (by simpa using hus)]
  · cases ts with
    | nil => exact absurd trivial h
    | cons t ts =>
      have ht : t.literal = "," := by simpa using h
      have hlength : ts.length + 1 ≤ n := hts
      have hnext : Guided (Avoids (continuers .logical)) (binaryExpression .logical) shortName
          (n - 1) := guided_binaryExpression .logical (n - 1)
      have hmore : ∀ next, Guided (fun _ => True)
          (fun ts => (moreArguments ts).map (next :: ·)) [signToken ")"] (n - 1 - 1) :=
        fun next => (guided_moreArguments (n - 1 - 1)).map _
      have hall := hnext.andThen hmore (fun rest _ => (by decide : ")" ∉ continuers .logical))
        (.inl (by omega))
      refine (hall.viable ts (by omega)).behind [t] fun rest => ?_
      rw [List.singleton_append, moreArguments, if_pos (by simpa using ht), outcome_widen]
termination_by 16 * n
decreasing_by
  · simp only [Level.rank]; omega
  · omega

theorem guided_primaryExpression (n : Nat) :
    Guided (Avoids ["("]) primaryExpression shortName n := by
  have hcompletes : Completes (Avoids ["("]) primaryExpression shortName :=
    fun ts h => ⟨_, returns_shortName h⟩
  refine ⟨hcompletes, fun ts hts => ?_⟩
  cases ts with
  | nil =>
    refine Viable.refuses hcompletes (e := .expectedExpression) fun rest hrest => ?_
    rw [List.head?_eq_none_iff.mp hrest, primaryExpression]
    rfl
  | cons t ts =>
    have hlength : ts.length + 1 ≤ n := hts
    by_cases hnil : t.literal = "NIL"
    · exact .reads _ [t] ts rfl fun rest _ => primary_nil hnil
    by_cases htrue : t.literal = "TRUE"
    · exact .reads _ [t] ts rfl fun rest _ => primary_true htrue
    by_cases hfalse : t.literal = "FALSE"
    · exact .reads _ [t] ts rfl fun rest _ => primary_false hfalse
    have hword : NoWord t := ⟨hnil, htrue, hfalse⟩
    have hgroup : t.literal = "(" → (t.kind = .identifier ∨ t.kind = .operator) →
        Viable (Avoids ["("]) primaryExpression (t :: ts) := by
      intro hl hk
      have hinner : Guided (Avoids (continuers .logical)) (binaryExpression .logical) shortName
          (n - 1) := guided_binaryExpression .logical (n - 1)
      have hclose : ∀ inner, Guided (Avoids ["("])
          (fun ts => (sign ")" ts).map fun _ => Node.group inner none) [signToken ")"] (n - 1 - 1) :=
        fun inner => (guided_sign ")" (n - 1 - 1)).map _
      have hall := hinner.andThen hclose (fun rest _ => (by decide : ")" ∉ continuers .logical))
        (.inl (by omega))
      exact (hall.viable ts (by omega)).behind [t] (outcome_primary_group hl hk)
    cases hk : t.kind with
    | integer => exact viable_number hword (.inl ⟨hk, rfl⟩) ts
    | decimal => exact viable_number hword (.inr ⟨hk, rfl⟩) ts
    | character => exact .reads _ [t] ts rfl fun rest _ => primary_character hword hk
    | string => exact .reads _ [t] ts rfl fun rest _ => primary_string hword hk
    | identifier =>
      by_cases hl : t.literal = "("
      · exact hgroup hl (.inl hk)
      by_cases h : Avoids ["("] ts
      · exact .reads _ [t] ts rfl fun rest hrest =>
          primary_name hword hk hl (hrest.elim (avoids_of_head? h) id)
      cases ts with
      | nil => exact absurd trivial h
      | cons p ts =>
        have hp : p.literal = "(" := by simpa using h
        have hlength : ts.length + 1 + 1 ≤ n := hts
        have harguments : Guided (Avoids ["("]) Rule.arguments [signToken ")"] (n - 1 - 1) :=
          (guided_arguments (n - 1 - 1)).mono fun _ _ => trivial
        have hcall := harguments.map fun args => Node.call .absent t.literal args none none
        exact (hcall.viable ts (by omega)).behind [t, p] (outcome_primary_call hword hk hl hp)
    | operator =>
      by_cases hl : t.literal = "("
      · exact hgroup hl (.inr hk)
      refine Viable.refuses hcompletes (e := .expectedExpression) fun rest hrest => ?_
      obtain ⟨rest, rfl⟩ := List.head?_eq_some_iff.mp hrest
      exact outcome_primary_operator hword hk hl rest
termination_by 16 * n
decreasing_by
  · simp only [Level.rank]; omega
  · omega

end

theorem guided_expression (n : Nat) :
    Guided (Avoids (continuers .logical)) expression shortName n :=
  guided_binaryExpression .logical n

end Expressions

section Statements

theorem guided_initialValue (n : Nat) :
    Guided (Avoids ("=" :: continuers .logical)) initialValue [] n := by
  refine guided_option (q := fun _ ts => expression ts) shortName (fun ts => initialValue_none)
    (fun t ht ts => ?_) (fun _ _ _ => ?_) (fun ts h => h.mono (by simp))
  · simp [initialValue, List.mem_singleton.mp ht]
  · exact (guided_expression (n - 1)).mono fun ts h => h.mono (by simp)

variable {stops : List Token → Prop}

/-- A sign that ends a statement or a header is none that an expression goes on with. -/
theorem avoids_semicolon {texts : List String} (h : ";" ∉ texts) (ts : List Token) :
    Avoids texts ([signToken ";"] ++ ts) := h

/-- An expression and the semicolon behind it. -/
theorem guided_terminated (f : Node → Node) (n : Nat) :
    Guided stops (fun ts => (expression ts).andThen fun value rest _ =>
      (sign ";" rest).map fun _ => f value) shortStatement n := by
  have hstop : ∀ value, Guided stops (fun ts => (sign ";" ts).map fun _ => f value)
      [signToken ";"] (n - 1) := fun value => (guided_sign ";" (n - 1)).map _
  exact (guided_expression n).andThen hstop (fun ts _ => avoids_semicolon (by decide) ts)
    (.inl (by omega))

theorem guided_declarationStatement (n : Nat) :
    Guided stops declarationStatement [wordToken "LET", wordToken "x", signToken ";"] n := by
  unfold declarationStatement
  apply Guided.weaken
  refine (guided_keyword "LET" n).thenAny fun _ => ?_
  refine (guided_identifier _).thenAny fun name => ?_
  refine (guided_typeClause _).andThen (fun typeName => ?_)
    (fun ts _ => avoids_semicolon (by decide) ts) (.inl (by omega))
  exact (guided_initialValue _).andThen (fun value => (guided_sign ";" _).map _)
    (fun ts _ => avoids_semicolon (by decide) ts) (.inl (by omega))

theorem guided_returnStatement (n : Nat) :
    Guided stops returnStatement (wordToken "RETURN" :: shortStatement) n := by
  unfold returnStatement
  apply Guided.weaken
  exact (guided_keyword "RETURN" n).thenAny fun _ => guided_terminated _ _

/-- What follows the expression at the beginning of a statement: a value that it is assigned, or
nothing, and a semicolon. -/
def assignedValue (left : Node) (ts : List Token) : Parse Node 1 ts.length :=
  (accept "=" ts).andThen fun assigned rest _ =>
    (if assigned then
      ((expression rest).andThen fun value rest' _ =>
        (sign ";" rest').map fun _ => Node.assign left value).weaken
    else (sign ";" rest).map fun _ => Node.exprStmt left : Parse Node 1 rest.length)

theorem assignedValue_of_avoids {left : Node} {ts : List Token} (h : Avoids ["="] ts) :
    (assignedValue left ts).outcome = ((sign ";" ts).map fun _ => Node.exprStmt left).outcome :=
  outcome_andThen_of_returns (returns_accept_of_avoids h)

theorem assignedValue_equals {left : Node} {t : Token} (ht : t.literal = "=") (ts : List Token) :
    (assignedValue left (t :: ts)).outcome = ((expression ts).andThen fun value rest _ =>
      (sign ";" rest).map fun _ => Node.assign left value).outcome := by
  refine (outcome_andThen_of_returns (returns_accept ht)).trans ?_
  rw [if_pos rfl, outcome_weaken]

theorem guided_assignedValue (left : Node) (n : Nat) :
    Guided stops (assignedValue left) [signToken ";"] n := by
  have hplain : Guided stops (fun ts => (sign ";" ts).map fun _ => Node.exprStmt left)
      [signToken ";"] n := (guided_sign ";" n).map _
  have hcompletes : Completes stops (assignedValue left) [signToken ";"] := by
    intro rest hrest
    obtain ⟨a, ha⟩ := hplain.completes rest hrest
    exact ⟨a, (assignedValue_of_avoids (avoids_semicolon (by decide) rest)).trans ha⟩
  refine ⟨hcompletes, fun ts hts => ?_⟩
  by_cases h : Avoids ["="] ts
  · refine (hplain.viable ts hts).of_head?_pos hcompletes (by omega) fun us hus => ?_
    exact assignedValue_of_avoids (avoids_of_head? h hus)
  · cases ts with
    | nil => exact absurd trivial h
    | cons t ts =>
      have ht : t.literal = "=" := by simpa using h
      have hlength : ts.length + 1 ≤ n := hts
      have hvalue : Guided stops (fun ts => (expression ts).andThen fun value rest _ =>
          (sign ";" rest).map fun _ => Node.assign left value) shortStatement (n - 1) :=
        guided_terminated _ _
      exact (hvalue.viable ts (by omega)).behind [t] (assignedValue_equals ht)

theorem guided_expressionStatement (n : Nat) :
    Guided stops expressionStatement shortStatement n := by
  have hall : Guided stops (fun ts => (expression ts).andThen fun left rest _ =>
      assignedValue left rest) shortStatement n :=
    (guided_expression n).andThen (fun left => guided_assignedValue left _)
      (fun ts _ => avoids_semicolon (by decide) ts) (.inl (by omega))
  exact hall.weaken

theorem EndsHeader.avoids {ts : List Token} (h : EndsHeader ts) :
    Avoids (continuers .logical) ts := by
  cases ts with
  | nil => trivial
  | cons t ts =>
    have hapart : ∀ text ∈ [";", ")"], text ∉ continuers .logical := by decide
    exact hapart _ h.2

theorem loopAssignment_of_endsHeader {ts : List Token} (h : EndsHeader ts) :
    (loopAssignment ts).Returns .absent ts := by
  cases ts with
  | nil => exact absurd h id
  | cons t ts => exact loopAssignment_none h.1

theorem guided_loopAssignment (n : Nat) : Guided EndsHeader loopAssignment [] n := by
  have hcompletes : Completes EndsHeader loopAssignment [] :=
    fun ts h => ⟨_, loopAssignment_of_endsHeader h⟩
  refine ⟨hcompletes, fun ts hts => ?_⟩
  cases ts with
  | nil =>
    refine .keeps (a := .absent) fun rest hrest => ?_
    obtain hrest | hrest := hrest
    · rw [List.head?_eq_none_iff.mp hrest]
      simp [loopAssignment]
    · exact loopAssignment_of_endsHeader hrest
  | cons t ts =>
    by_cases hk : t.kind = .identifier
    · have hassignment : Guided EndsHeader (fun ts => (identifier ts).andThen fun name rest₁ _ =>
          (sign "=" rest₁).andThen fun _ rest₂ _ =>
          (expression rest₂).map fun value =>
            Node.assign (.access .absent name none none) value)
          [wordToken "x", signToken "=", wordToken "x"] n := by
        refine (guided_identifier n).thenAny fun name => ?_
        refine (guided_sign "=" _).thenAny fun _ => ?_
        exact ((guided_expression _).mono fun ts h => h.avoids).map _
      refine (hassignment.viable _ hts).of_head?_pos hcompletes (by omega) fun us hus => ?_
      obtain ⟨us, rfl⟩ := List.head?_eq_some_iff.mp hus
      simp only [loopAssignment, hk, beq_self_eq_true, if_true, outcome_weaken]
    · refine .keeps (a := .absent) fun rest hrest => ?_
      obtain hrest | hrest := hrest
      · obtain ⟨rest, rfl⟩ := List.head?_eq_some_iff.mp hrest
        exact loopAssignment_none hk
      · exact loopAssignment_of_endsHeader hrest

mutual

theorem guided_block (terminators : List String) (n : Nat) :
    Guided (Meets terminators) (block terminators) [] n := by
  have hcompletes : Completes (Meets terminators) (block terminators) [] :=
    fun ts h => ⟨_, block_nil h⟩
  refine ⟨hcompletes, fun ts hts => ?_⟩
  cases ts with
  | nil =>
    refine Viable.refuses hcompletes (e := .expected (terminators.getLast?.getD ""))
      fun rest hrest => ?_
    rw [List.head?_eq_none_iff.mp hrest, block]
    rfl
  | cons t ts =>
    by_cases h : Meets terminators (t :: ts)
    · exact .keeps fun rest hrest => block_nil (hrest.elim (meets_of_head? h) id)
    · have hlength : ts.length + 1 ≤ n := hts
      have hfirst : Guided (fun _ => True) statement shortStatement n :=
        guided_statement n (by omega)
      have hmore : ∀ first, Guided (Meets terminators)
          (fun ts => (block terminators ts).map (first :: ·)) [] (n - 1) :=
        fun first => (guided_block terminators (n - 1)).map _
      refine ((hfirst.thenAny hmore).viable _ hts).of_head?_pos hcompletes (by omega) fun us hus => ?_
      obtain ⟨us, rfl⟩ := List.head?_eq_some_iff.mp hus
      rw [block, if_neg (by simpa [Meets] using h), outcome_weaken]
termination_by 4 * n + 2

theorem guided_statement (n : Nat) (hn : 0 < n) :
    Guided (fun _ => True) statement shortStatement n := by
  have hplain : Guided (fun _ => True) expressionStatement shortStatement n :=
    guided_expressionStatement n
  have hcompletes : Completes (fun _ => True) statement shortStatement := by
    intro ts h
    obtain ⟨a, ha⟩ := hplain.completes ts h
    have heq : statement (shortStatement ++ ts) = expressionStatement (shortStatement ++ ts) :=
      statement_of_avoids (by decide : "x" ∉ ["LET", "IF", "FOR", "WHILE", "RETURN"])
    exact ⟨a, (congrArg outcome heq).trans ha⟩
  refine ⟨hcompletes, fun ts hts => ?_⟩
  cases ts with
  | nil =>
    refine (hplain.viable [] hts).of_head?_pos hcompletes (by omega) fun us hus => ?_
    rw [List.head?_eq_none_iff.mp hus, statement]
  | cons t ts =>
    -- The first word decides the kind of the statement, whatever follows it.
    have hkind : ∀ {phrase : List Token} {r : (ts : List Token) → Parse Node 1 ts.length},
        Guided (fun _ => True) r phrase n → (∀ us, statement (t :: us) = r (t :: us)) →
        Viable (fun _ => True) statement (t :: ts) := by
      intro phrase r hr heq
      refine (hr.viable _ hts).of_head?_pos hcompletes (by omega) fun us hus => ?_
      obtain ⟨us, rfl⟩ := List.head?_eq_some_iff.mp hus
      rw [heq us]
    by_cases hlet : t.literal = "LET"
    · exact hkind (guided_declarationStatement n) fun us => by simp [statement, hlet]
    by_cases hif : t.literal = "IF"
    · exact hkind (guided_ifStatement n hn) fun us => by simp [statement, hif]
    by_cases hfor : t.literal = "FOR"
    · exact hkind (guided_forStatement n hn) fun us => by simp [statement, hfor]
    by_cases hwhile : t.literal = "WHILE"
    · exact hkind (guided_whileStatement n hn) fun us => by simp [statement, hwhile]
    by_cases hreturn : t.literal = "RETURN"
    · exact hkind (guided_returnStatement n) fun us => by simp [statement, hreturn]
    · exact hkind hplain fun us => statement_of_avoids
        (by simp [hlet, hif, hfor, hwhile, hreturn])
termination_by 4 * n + 1

theorem guided_ifStatement (n : Nat) (_hn : 0 < n) : Guided (fun _ => True) ifStatement
    [wordToken "IF", wordToken "x", wordToken "DO", wordToken "END"] n := by
  rw [funext ifStatement.eq_1]
  apply Guided.weaken
  refine (guided_keyword "IF" n).thenAny fun _ => ?_
  refine (guided_expression _).andThen (fun condition => ?_) (fun ts _ => ?_) (.inl (by omega))
  · refine (guided_keyword "DO" _).thenAny fun _ => ?_
    refine (guided_block ["ELSE", "END"] _).andThen (fun thens => ?_) (fun ts _ => ?_)
      (.inl (by omega))
    · exact (guided_elseBranch _).andThen (fun elses => (guided_keyword "END" _).map _)
        (fun ts _ => (by decide : "END" ∈ ["END"])) (.inl (by omega))
    · exact (by decide : "END" ∈ ["ELSE", "END"])
  · exact (by decide : "DO" ∉ continuers .logical)
termination_by 4 * n

theorem guided_elseBranch (n : Nat) : Guided (Meets ["END"]) elseBranch [] n := by
  refine guided_option (q := fun _ ts => block ["END"] ts) [] (fun ts => elseBranch_none)
    (fun t ht ts => ?_) (fun _ _ _ => guided_block ["END"] (n - 1))
    fun ts h => avoids_of_meets h (by decide)
  rw [elseBranch, if_pos (by simpa using ht), outcome_widen]
termination_by 4 * n

theorem guided_forStatement (n : Nat) (_hn : 0 < n) : Guided (fun _ => True) forStatement
    [wordToken "FOR", signToken "(", signToken ";", wordToken "x", signToken ";", signToken ")",
      wordToken "END"] n := by
  rw [funext forStatement.eq_1]
  apply Guided.weaken
  refine (guided_keyword "FOR" n).thenAny fun _ => ?_
  refine (guided_sign "(" _).thenAny fun _ => ?_
  refine (guided_loopAssignment _).andThen (fun initialization => ?_)
    (fun ts _ => ⟨by decide, by decide⟩) (.inl (by omega))
  refine (guided_sign ";" _).thenAny fun _ => ?_
  refine (guided_expression _).andThen (fun condition => ?_)
    (fun ts _ => avoids_semicolon (by decide) ts) (.inl (by omega))
  refine (guided_sign ";" _).thenAny fun _ => ?_
  refine (guided_loopAssignment _).andThen (fun increment => ?_)
    (fun ts _ => ⟨by decide, by decide⟩) (.inl (by omega))
  refine (guided_sign ")" _).thenAny fun _ => ?_
  exact (guided_block ["END"] _).andThen (fun statements => (guided_keyword "END" _).map _)
    (fun ts _ => (by decide : "END" ∈ ["END"])) (.inl (by omega))
termination_by 4 * n

theorem guided_whileStatement (n : Nat) (_hn : 0 < n) : Guided (fun _ => True) whileStatement
    [wordToken "WHILE", wordToken "x", wordToken "DO", wordToken "END"] n := by
  rw [funext whileStatement.eq_1]
  apply Guided.weaken
  refine (guided_keyword "WHILE" n).thenAny fun _ => ?_
  refine (guided_expression _).andThen (fun condition => ?_)
    (fun ts _ => (by decide : "DO" ∉ continuers .logical)) (.inl (by omega))
  refine (guided_keyword "DO" _).thenAny fun _ => ?_
  exact (guided_block ["END"] _).andThen (fun statements => (guided_keyword "END" _).map _)
    (fun ts _ => (by decide : "END" ∈ ["END"])) (.inl (by omega))
termination_by 4 * n

end

end Statements

section Declarations

variable {stops : List Token → Prop}

theorem guided_field (n : Nat) :
    Guided stops field [wordToken "LET", wordToken "x", signToken ";"] n := by
  unfold field
  apply Guided.weaken
  refine (guided_keyword "LET" n).thenAny fun _ => ?_
  refine (guided_accept "CONST" _).andThen (fun constant => ?_)
    (fun ts _ => (by decide : "x" ∉ ["CONST"])) (.inl (by omega))
  refine (guided_identifier _).thenAny fun name => ?_
  refine (guided_typeClause _).andThen (fun typeName => ?_)
    (fun ts _ => avoids_semicolon (by decide) ts) (.inl (by omega))
  exact (guided_initialValue _).andThen (fun value => (guided_sign ";" _).map _)
    (fun ts _ => avoids_semicolon (by decide) ts) (.inl (by omega))

theorem guided_parameter (n : Nat) : Guided (Avoids [":"]) parameter shortName n := by
  unfold parameter
  apply Guided.weaken
  exact (guided_identifier n).thenAny fun name => (guided_typeClause _).map _

theorem guided_moreParameters (n : Nat) : Guided (Meets [")"]) moreParameters [] n := by
  refine guided_option
    (q := fun _ ts => (parameter ts).andThen fun next rest _ =>
      (moreParameters rest).map (next :: ·))
    shortName (fun ts => moreParameters_nil) (fun t ht ts => ?_) (fun hn t ht => ?_)
    fun ts h => avoids_of_meets h (by decide)
  · rw [moreParameters, if_pos (by simpa using ht), outcome_widen]
  · have hmore : ∀ next, Guided (Meets [")"])
        (fun ts => (moreParameters ts).map (next :: ·)) [] (n - 1 - 1) :=
      fun next => (guided_moreParameters (n - 1 - 1)).map _
    exact (guided_parameter (n - 1)).andThen hmore (fun ts h => avoids_of_meets h (by decide))
      (.inr fun ts h => avoids_of_meets h (by decide))
termination_by n

theorem guided_parameters (n : Nat) : Guided (Meets [")"]) parameters [] n := by
  have hcompletes : Completes (Meets [")"]) parameters [] := fun ts h => ⟨_, parameters_nil h⟩
  refine ⟨hcompletes, fun ts hts => ?_⟩
  by_cases h : Meets [")"] ts
  · exact .keeps fun rest hrest => parameters_nil (hrest.elim (meets_of_head? h) id)
  · have hmore : ∀ first, Guided (Meets [")"])
        (fun ts => (moreParameters ts).map (first :: ·)) [] (n - 1) :=
      fun first => (guided_moreParameters (n - 1)).map _
    have hall := (guided_parameter n).andThen hmore (fun ts h => avoids_of_meets h (by decide))
      (.inr fun ts h => avoids_of_meets h (by decide))
    refine (hall.viable ts hts).of_head?_pos hcompletes (by omega) fun us hus => ?_
    have hus : ¬Meets [")"] us := fun hm => h (meets_of_head? hm hus.symm)
    have hno : Pattern.allFit [.literal ")"] us = false := by
      cases us with
      | nil => rfl
      | cons u us => simpa [Meets, Pattern.allFit, Pattern.fits] using hus
    rw [parameters, if_neg (by simp [hno]), outcome_weaken]

theorem guided_method (n : Nat) : Guided stops method
    [wordToken "DEF", wordToken "x", signToken "(", signToken ")", wordToken "DO",
      wordToken "END"] n := by
  unfold method
  apply Guided.weaken
  refine (guided_keyword "DEF" n).thenAny fun _ => ?_
  refine (guided_identifier _).thenAny fun name => ?_
  refine (guided_sign "(" _).thenAny fun _ => ?_
  refine (guided_parameters _).andThen (fun ps => ?_)
    (fun ts _ => (by decide : ")" ∈ [")"])) (.inl (by omega))
  refine (guided_sign ")" _).thenAny fun _ => ?_
  refine (guided_typeClause _).andThen (fun returnType => ?_)
    (fun ts _ => (by decide : "DO" ∉ [":"])) (.inl (by omega))
  refine (guided_keyword "DO" _).thenAny fun _ => ?_
  exact (guided_block ["END"] _).andThen (fun statements => (guided_keyword "END" _).map _)
    (fun ts _ => (by decide : "END" ∈ ["END"])) (.inl (by omega))

/-- A rule that repeats another as long as a certain word follows. -/
theorem guided_repeated {word : String} {phrase : List Token}
    {one : (ts : List Token) → Parse Node 1 ts.length}
    {all : (ts : List Token) → Parse (List Node) 0 ts.length}
    (hone : ∀ n, Guided (fun _ => True) one phrase n)
    (hnil : ∀ ts, Avoids [word] ts → (all ts).Returns [] ts)
    (hcons : ∀ t ts, t.literal = word → (all (t :: ts)).outcome =
      ((one (t :: ts)).andThen fun first rest _ => (all rest).map (first :: ·)).outcome) (n : Nat) :
    Guided (Avoids [word]) all [] n := by
  induction n using Nat.strong_induction_on with
  | _ n ih =>
    have hcompletes : Completes (Avoids [word]) all [] := fun ts h => ⟨[], hnil ts h⟩
    refine ⟨hcompletes, fun ts hts => ?_⟩
    by_cases h : Avoids [word] ts
    · exact .keeps fun rest hrest => hnil rest (hrest.elim (avoids_of_head? h) id)
    · cases ts with
      | nil => exact absurd trivial h
      | cons t ts =>
        have ht : t.literal = word := by simpa using h
        have hlength : ts.length + 1 ≤ n := hts
        have hmore : ∀ first, Guided (Avoids [word]) (fun ts => (all ts).map (first :: ·)) []
            (n - 1) := fun first => (ih (n - 1) (by omega)).map _
        refine (((hone n).thenAny hmore).viable _ hts).of_head?_pos hcompletes (by omega)
          fun us hus => ?_
        obtain ⟨us, rfl⟩ := List.head?_eq_some_iff.mp hus
        exact hcons t us ht

theorem guided_fields (n : Nat) : Guided (Avoids ["LET"]) fields [] n := by
  refine guided_repeated guided_field (fun ts => fields_nil) (fun t ts ht => ?_) n
  rw [fields, if_pos (by simpa using ht), outcome_weaken]

theorem guided_methods (n : Nat) : Guided (Avoids ["DEF"]) methods [] n := by
  refine guided_repeated guided_method (fun ts => methods_nil) (fun t ts ht => ?_) n
  rw [methods, if_pos (by simpa using ht), outcome_weaken]

theorem guided_endOfTokens (n : Nat) : Guided (· = []) endOfTokens [] n := by
  have hcompletes : Completes (· = []) endOfTokens [] := by
    rintro ts rfl
    exact ⟨(), returns_done.mpr ⟨rfl, rfl⟩⟩
  refine ⟨hcompletes, fun ts hts => ?_⟩
  cases ts with
  | nil =>
    refine .keeps (a := ()) fun rest hrest => ?_
    obtain rfl : rest = [] := hrest.elim List.head?_eq_none_iff.mp id
    exact returns_done.mpr ⟨rfl, rfl⟩
  | cons t ts =>
    refine Viable.refuses hcompletes (e := .unexpectedToken) fun rest hrest => ?_
    obtain ⟨rest, rfl⟩ := List.head?_eq_some_iff.mp hrest
    rfl

/-- The rule for programs stops at the end of the tokens only. -/
theorem guided_source (n : Nat) : Guided (· = []) source [] n := by
  unfold source
  apply Guided.weaken
  refine (guided_fields n).andThen (fun fs => ?_) (fun ts h => ?_) (.inr fun ts h => ?_)
  · refine (guided_methods _).andThen (fun ms => (guided_endOfTokens _).map _) (fun ts h => ?_)
      (.inr fun ts h => ?_)
    · rw [h]
      trivial
    · rw [h]
      trivial
  · rw [h]
    trivial
  · rw [h]
    trivial

end Declarations

end BlockScript.Grammar
