import BlockScript.Proofs.Grammar.Places
/-!
# Bodies of methods, loops and branches

What a method, a loop or a branch makes of the statements up to the word that ends them. A program
of one method without parameters is read just when its body is, and a body that is read in one place
is read in every other, with the same statements.
-/
namespace BlockScript.Grammar

open Rule Reading

variable {d n l r w e t : Token} {ts rest : List Token} {body : List Node} {node : Node}
  {cause : ParseFault}

section Expressions

/-- A primary expression by itself is an expression. -/
theorem expression_of_primary (h : (primaryExpression ts).Returns node rest)
    (hrest : Avoids (continuers .logical) rest) : (expression ts).Returns node rest := by
  have hsecondary : (secondaryExpression ts).Returns node rest :=
    secondaryExpression_returns h (secondaryRest_nil (hrest.mono (by decide)))
  have hmultiplicative : (binaryExpression .multiplicative ts).Returns node rest :=
    binaryExpression_returns (operand_returns_tightest rfl hsecondary)
      (binaryRest_nil (hrest.mono (by decide)))
  have hadditive : (binaryExpression .additive ts).Returns node rest :=
    binaryExpression_returns (operand_returns_tighter rfl hmultiplicative)
      (binaryRest_nil (hrest.mono (by decide)))
  have hcomparison : (binaryExpression .comparison ts).Returns node rest :=
    binaryExpression_returns (operand_returns_tighter rfl hadditive)
      (binaryRest_nil (hrest.mono (by decide)))
  exact binaryExpression_returns (operand_returns_tighter rfl hcomparison)
    (binaryRest_nil (hrest.mono (by decide)))

theorem outcome_binaryExpression_error {level : Level}
    (h : (operand level ts).outcome = (.error cause, rest)) :
    (binaryExpression level ts).outcome = (.error cause, rest) := by
  rw [binaryExpression, outcome_weaken]
  exact outcome_andThen_error h

theorem outcome_operand_error {level tighter : Level} (ht : level.tighter? = some tighter)
    (h : (binaryExpression tighter ts).outcome = (.error cause, rest)) :
    (operand level ts).outcome = (.error cause, rest) := by
  rw [operand]
  split
  · next m hm =>
    obtain rfl : tighter = m := Option.some.inj (ht.symm.trans hm)
    exact h
  · next hm => cases ht.symm.trans hm

/-- An expression fails as the primary expression at its beginning does. -/
theorem outcome_expression_error (h : (primaryExpression ts).outcome = (.error cause, rest)) :
    (expression ts).outcome = (.error cause, rest) := by
  have hsecondary : (secondaryExpression ts).outcome = (.error cause, rest) := by
    rw [secondaryExpression, outcome_weaken]
    exact outcome_andThen_error h
  have htightest : (operand .multiplicative ts).outcome = (.error cause, rest) := by
    rw [operand]
    exact hsecondary
  have hadditive : (operand .additive ts).outcome = (.error cause, rest) :=
    outcome_operand_error rfl (outcome_binaryExpression_error htightest)
  have hcomparison : (operand .comparison ts).outcome = (.error cause, rest) :=
    outcome_operand_error rfl (outcome_binaryExpression_error hadditive)
  have hlogical : (operand .logical ts).outcome = (.error cause, rest) :=
    outcome_operand_error rfl (outcome_binaryExpression_error hcomparison)
  exact outcome_binaryExpression_error hlogical

/-- No statement begins with a sign. -/
theorem outcome_statement_sign (ht : t.isSign = true) :
    (statement (t :: ts)).outcome = (.error .expectedExpression, t :: ts) := by
  obtain ⟨hkind, hliteral⟩ := Token.isSign_iff.mp ht
  have hno : ∀ texts : List String, "+" ∉ texts → "-" ∉ texts → t.literal ∉ texts := by
    intro texts hplus hminus
    obtain hs | hs := hliteral <;> rwa [hs]
  have hword : NoWord t := by
    obtain hs | hs := hliteral <;> rw [NoWord, hs] <;> decide
  have hopens : t.literal ≠ "(" := by
    obtain hs | hs := hliteral <;> rw [hs] <;> decide
  have hexpression : (expression (t :: ts)).outcome = (.error .expectedExpression, t :: ts) :=
    outcome_expression_error (outcome_primary_operator hword hkind hopens ts)
  rw [statement_of_avoids (hno _ (by decide) (by decide)), expressionStatement, outcome_weaken]
  exact outcome_andThen_error hexpression

theorem outcome_block_error {terminators : List String} (ht : Avoids terminators (t :: ts))
    (h : (statement (t :: ts)).outcome = (.error cause, rest)) :
    (block terminators (t :: ts)).outcome = (.error cause, rest) := by
  rw [block, if_neg (by simpa using ht), outcome_weaken]
  exact outcome_andThen_error h

theorem outcome_block_sign (ht : t.isSign = true) (ts : List Token) :
    (block ["END"] (t :: ts)).outcome = (.error .expectedExpression, t :: ts) := by
  have hno : Avoids ["END"] (t :: ts) := by
    obtain ⟨-, hs | hs⟩ := Token.isSign_iff.mp ht <;> exact literal_not_mem hs (by decide)
  exact outcome_block_error hno (outcome_statement_sign ht)

end Expressions

section Methods

structure MethodHead (d n l r w : Token) : Prop where
  defWord : d.literal = "DEF"
  name : n.kind = .identifier
  opens : l.literal = "("
  closes : r.literal = ")"
  doWord : w.literal = "DO"

theorem outcome_method (h : MethodHead d n l r w) (ts : List Token) :
    (method (d :: n :: l :: r :: w :: ts)).outcome =
      ((block ["END"] ts).andThen fun body rest _ => (keyword "END" rest).map fun _ =>
        Node.method n.literal [] [] none body none).outcome := by
  have hparameters : (parameters (r :: w :: ts)).Returns [] (r :: w :: ts) :=
    parameters_nil (by simp [Meets, h.closes])
  have hclause : (typeClause (w :: ts)).Returns none (w :: ts) :=
    typeClause_none (literal_not_mem h.doWord (by decide))
  rw [method, outcome_weaken]
  refine (outcome_andThen_of_returns (returns_keyword h.defWord)).trans ?_
  refine (outcome_andThen_of_returns (returns_identifier h.name)).trans ?_
  refine (outcome_andThen_of_returns (returns_sign h.opens)).trans ?_
  refine (outcome_andThen_of_returns hparameters).trans ?_
  refine (outcome_andThen_of_returns (returns_sign h.closes)).trans ?_
  refine (outcome_andThen_of_returns hclause).trans ?_
  exact outcome_andThen_of_returns (returns_keyword h.doWord)

theorem source_of_body (h : MethodHead d n l r w) (hbody : (block ["END"] ts).Returns body [e])
    (he : e.literal = "END") :
    (source (d :: n :: l :: r :: w :: ts)).Returns
      (.source [] [.method n.literal [] [] none body none]) [] := by
  have hfields : Avoids ["LET"] (d :: n :: l :: r :: w :: ts) :=
    literal_not_mem h.defWord (by decide)
  have hclause : (typeClause (w :: ts)).Returns none (w :: ts) :=
    typeClause_none (literal_not_mem h.doWord (by decide))
  exact source_returns (fields_nil hfields) (methods_cons h.defWord h.name h.opens
    (parameters_nil (by simp [Meets, h.closes])) h.closes hclause h.doWord hbody he
    (methods_nil trivial))

theorem outcome_source_error (h : MethodHead d n l r w)
    (hbody : (block ["END"] ts).outcome = (.error cause, rest)) :
    (source (d :: n :: l :: r :: w :: ts)).outcome = (.error cause, rest) := by
  have hfields : Avoids ["LET"] (d :: n :: l :: r :: w :: ts) :=
    literal_not_mem h.defWord (by decide)
  have hmethod : (method (d :: n :: l :: r :: w :: ts)).outcome = (.error cause, rest) :=
    (outcome_method h ts).trans (outcome_andThen_error hbody)
  have hmethods : (methods (d :: n :: l :: r :: w :: ts)).outcome = (.error cause, rest) := by
    rw [methods, if_pos (by simpa using h.defWord), outcome_weaken]
    exact outcome_andThen_error hmethod
  rw [source, outcome_weaken]
  exact (outcome_andThen_of_returns (fields_nil hfields)).trans (outcome_andThen_error hmethods)

/-- If the methods are none, no tokens are used. -/
theorem eq_of_methods_nil (h : (methods ts).Returns [] rest) : rest = ts := by
  by_cases hts : Avoids ["DEF"] ts
  · exact ((methods_nil hts).unique h).2.symm
  · cases ts with
    | nil => exact absurd trivial hts
    | cons t ts =>
      rw [methods, if_pos (by simpa using hts), returns_weaken] at h
      obtain ⟨first, mid, -, -, hmore⟩ := h.of_andThen
      obtain ⟨more, -, hcons⟩ := hmore.of_map
      cases hcons

/-- In a program of one method, the statements are what is read up to the last token. -/
theorem body_of_source {fs : List Node} {name : String} {params : List String}
    {types : List (Option String)} {type : Option String} {slot : Option StaticFunction}
    (h : MethodHead d n l r w)
    (hsource : (source (d :: n :: l :: r :: w :: ts)).Returns
      (.source fs [.method name params types type body slot]) rest) :
    ∃ e, e.literal = "END" ∧ (block ["END"] ts).Returns body [e] := by
  have hfields : Avoids ["LET"] (d :: n :: l :: r :: w :: ts) :=
    literal_not_mem h.defWord (by decide)
  rw [source, returns_weaken] at hsource
  obtain ⟨fs', mid, -, hfs, hsource⟩ := hsource.of_andThen
  obtain ⟨rfl, rfl⟩ := (fields_nil hfields).unique hfs
  obtain ⟨ms, mid, -, hms, hend⟩ := hsource.of_andThen
  obtain ⟨_, hlast, htree⟩ := hend.of_map
  obtain ⟨-, rfl⟩ := Node.source.inj htree
  have hmid : mid = [] := by
    cases mid with
    | nil => rfl
    | cons t ts => simp [endOfTokens, Returns, outcome] at hlast
  subst hmid
  rw [methods, if_pos (by simpa using h.defWord), returns_weaken] at hms
  obtain ⟨first, mid, -, hmethod, hmore⟩ := hms.of_andThen
  obtain ⟨more, hmore, hcons⟩ := hmore.of_map
  obtain ⟨rfl, rfl⟩ := List.cons.inj hcons
  obtain rfl := eq_of_methods_nil hmore
  have hbody : ((block ["END"] ts).andThen fun body rest _ => (keyword "END" rest).map fun _ =>
      Node.method n.literal [] [] none body none).Returns
      (.method name params types type body slot) [] := (outcome_method h ts).symm.trans hmethod
  obtain ⟨body', mid, -, hstatements, hkeyword⟩ := hbody.of_andThen
  obtain ⟨e, hword, hsame⟩ := hkeyword.of_map
  obtain ⟨-, -, -, -, rfl, -⟩ := Node.method.inj hsame
  obtain ⟨he, rfl⟩ := (yields_keyword "END" mid).of_returns hword
  exact ⟨e, he, hstatements⟩

end Methods

section Surroundings

variable {c v x s s₁ s₂ o : Token} {first : Node}

/-- A body that is read up to the last token is read up to every end, also at other places. -/
theorem block_steady {us more : List Token} {e' last : Token}
    (h : (block ["END"] (ts ++ [e])).Returns body [last])
    (hsame : us.map Token.unplaced = ts.map Token.unplaced) (he : e'.literal = "END") :
    (block ["END"] (us ++ e' :: more)).Returns body (e' :: more) := by
  have hhere : (block ["END"] (ts ++ e' :: more)).Returns body (e' :: more) := by
    cases (guided_block ["END"] _).viable (ts ++ [e]) (Nat.le_refl _) with
    | fails cause used rest split steady completed =>
      have hfails := steady rest rfl
      rw [← split] at hfails
      cases h.symm.trans hfails
    | reads body' used rest split steady =>
      have hreads := steady rest (.inl rfl)
      rw [← split] at hreads
      obtain ⟨rfl, rfl⟩ := h.unique hreads
      obtain ⟨rfl, -⟩ := List.append_inj' split rfl
      exact steady (e' :: more) (.inr (by simp [Meets, he]))
  have hlength : us.length = ts.length := by simpa using congrArg List.length hsame
  obtain ⟨result, count, hts, hus⟩ := outcome_alike (unplaced_block ["END"])
    (fun ts => (guided_block ["END"] ts.length).viable ts (Nat.le_refl _))
    (show (us ++ e' :: more).map Token.unplaced = (ts ++ e' :: more).map Token.unplaced by
      rw [List.map_append, List.map_append, hsame])
  obtain ⟨rfl, hdrop⟩ := Prod.mk.inj (hhere.symm.trans hts)
  have hcount : count = ts.length := by
    have hdropped := congrArg List.length hdrop
    simp only [List.length_cons, List.length_drop, List.length_append] at hdropped
    omega
  rw [Returns, hus, hcount, ← hlength, List.drop_left]

theorem expression_true (ht : t.literal = "TRUE") (hrest : Avoids (continuers .logical) rest) :
    (expression (t :: rest)).Returns (.literal (.boolean true) none) rest :=
  expression_of_primary (primary_true ht) hrest

/-- One statement up to the end. -/
theorem block_single (ht : t.literal ≠ "END") (hfirst : (statement (t :: ts)).Returns first [e])
    (he : e.literal = "END") : (block ["END"] (t :: ts)).Returns [first] [e] :=
  block_cons (by simpa using ht) hfirst (block_nil (by simp [Meets, he]))

theorem statement_while_true (ht : t.literal = "WHILE") (hc : c.literal = "TRUE")
    (hv : v.literal = "DO") (hbody : (block ["END"] ts).Returns body (e :: rest))
    (he : e.literal = "END") :
    (statement (t :: c :: v :: ts)).Returns
      (.whileStmt (.literal (.boolean true) none) body) rest :=
  statement_while ht (expression_true hc (literal_not_mem hv (by decide))) hv hbody he

theorem statement_else (ht : t.literal = "IF") (hc : c.literal = "TRUE") (hv : v.literal = "DO")
    (hx : x.kind = .identifier ∧ x.literal = "x") (hs : s.literal = ";") (ho : o.literal = "ELSE")
    (hbody : (block ["END"] ts).Returns body (e :: rest)) (he : e.literal = "END") :
    (statement (t :: c :: v :: x :: s :: o :: ts)).Returns
      (.ifStmt (.literal (.boolean true) none) [.exprStmt (.access .absent "x" none none)] body)
      rest := by
  have hname : (expression (x :: s :: o :: ts)).Returns (.access .absent x.literal none none)
      (s :: o :: ts) := by
    refine expression_of_primary ?_ (literal_not_mem hs (by decide))
    refine primary_name ?_ hx.1 ?_ (literal_not_mem hs (by decide))
    · rw [NoWord, hx.2]
      decide
    · rw [hx.2]
      decide
  rw [hx.2] at hname
  have hstatement : (statement (x :: s :: o :: ts)).Returns
      (.exprStmt (.access .absent "x" none none)) (o :: ts) := by
    rw [statement_of_avoids (literal_not_mem hx.2 (by decide))]
    exact expressionStatement_plain hname hs
  have hthens : (block ["ELSE", "END"] (x :: s :: o :: ts)).Returns
      [.exprStmt (.access .absent "x" none none)] (o :: ts) :=
    block_cons (literal_not_mem hx.2 (by decide)) hstatement
      (block_nil (by simp [Meets, ho]))
  exact statement_if ht (expression_true hc (literal_not_mem hv (by decide))) hv hthens
    (elseBranch_some ho hbody) he

/-- A header with nothing before and after each turn. -/
structure ForHead (t l s₁ c s₂ r : Token) : Prop where
  forWord : t.literal = "FOR"
  opens : l.literal = "("
  before : s₁.kind = .operator ∧ s₁.literal = ";"
  condition : c.literal = "TRUE"
  after : s₂.literal = ";"
  closes : r.kind = .operator ∧ r.literal = ")"

theorem statement_for_true (h : ForHead t l s₁ c s₂ r)
    (hbody : (block ["END"] ts).Returns body (e :: rest)) (he : e.literal = "END") :
    (statement (t :: l :: s₁ :: c :: s₂ :: r :: ts)).Returns
      (.forStmt .absent (.literal (.boolean true) none) .absent body) rest :=
  statement_for h.forWord h.opens (loopAssignment_none (by simp [h.before.1])) h.before.2
    (expression_true h.condition (literal_not_mem h.after (by decide))) h.after
    (loopAssignment_none (by simp [h.closes.1])) h.closes.2 hbody he

theorem outcome_for_error (h : ForHead t l s₁ c s₂ r)
    (hbody : (block ["END"] ts).outcome = (.error cause, rest)) :
    (statement (t :: l :: s₁ :: c :: s₂ :: r :: ts)).outcome = (.error cause, rest) := by
  have hbefore : (loopAssignment (s₁ :: c :: s₂ :: r :: ts)).Returns .absent _ :=
    loopAssignment_none (by simp [h.before.1])
  have hcondition : (expression (c :: s₂ :: r :: ts)).Returns _ (s₂ :: r :: ts) :=
    expression_true h.condition (literal_not_mem h.after (by decide))
  have hafter : (loopAssignment (r :: ts)).Returns .absent _ :=
    loopAssignment_none (by simp [h.closes.1])
  rw [statement, if_neg (by simp [h.forWord]), if_neg (by simp [h.forWord]),
    if_pos (by simpa using h.forWord), forStatement, outcome_weaken]
  refine (outcome_andThen_of_returns (returns_keyword h.forWord)).trans ?_
  refine (outcome_andThen_of_returns (returns_sign h.opens)).trans ?_
  refine (outcome_andThen_of_returns hbefore).trans ?_
  refine (outcome_andThen_of_returns (returns_sign h.before.2)).trans ?_
  refine (outcome_andThen_of_returns hcondition).trans ?_
  refine (outcome_andThen_of_returns (returns_sign h.after)).trans ?_
  refine (outcome_andThen_of_returns hafter).trans ?_
  refine (outcome_andThen_of_returns (returns_sign h.closes.2)).trans ?_
  exact outcome_andThen_error hbody

end Surroundings

end BlockScript.Grammar
