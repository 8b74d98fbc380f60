import BlockScript.Proofs.Grammar.Basic
import BlockScript.Proofs.Reading
import BlockScript.Proofs.Tree.Digits
/-!
# What the rules return at each production

One lemma for each production: when the parts of it are read, the rule reads the whole. Where a
rule could go on, the lemma asks that the next token is none of those it would go on with.
-/
namespace BlockScript.Grammar

open Rule Reading

/-- The next token, if there is one, has none of the texts. -/
def Avoids (texts : List String) : List Token → Prop
  | [] => True
  | t :: _ => t.literal ∉ texts

@[simp] theorem avoids_cons_iff {texts : List String} {t : Token} {ts : List Token} :
    Avoids texts (t :: ts) ↔ t.literal ∉ texts := Iff.rfl

def Meets (texts : List String) : List Token → Prop
  | [] => False
  | t :: _ => t.literal ∈ texts

theorem Avoids.mono {texts fewer : List String} {ts : List Token} (h : Avoids texts ts)
    (hsub : fewer ⊆ texts) : Avoids fewer ts := by
  cases ts with
  | nil => trivial
  | cons t ts => exact fun hmem => h (hsub hmem)

theorem Meets.mono {texts fewer : List String} {ts : List Token} (h : Meets fewer ts)
    (hsub : fewer ⊆ texts) : Meets texts ts := by
  cases ts with
  | nil => exact h
  | cons t ts => exact hsub h

theorem avoids_of_meets {texts others : List String} {ts : List Token} (h : Meets texts ts)
    (hdisjoint : ∀ s ∈ texts, s ∉ others) : Avoids others ts := by
  cases ts with
  | nil => trivial
  | cons t ts => exact hdisjoint _ h

variable {t n l r s o : Token} {ts mid rest : List Token}

theorem literal_not_mem {text : String} {texts : List String} (ht : t.literal = text)
    (h : text ∉ texts) : t.literal ∉ texts :=
  fun hmem => h (ht ▸ hmem)

theorem literal_mem {text : String} {texts : List String} (ht : t.literal = text)
    (h : text ∈ texts) : t.literal ∈ texts := by
  rw [ht]
  exact h

theorem returns_keyword {text : String} (ht : t.literal = text) :
    (keyword text (t :: ts)).Returns t ts := by
  simp [keyword, expect, Pattern.fits, ht]

theorem returns_sign {text : String} (ht : t.literal = text) :
    (sign text (t :: ts)).Returns t ts := by
  simp [sign, expect, Pattern.fits, ht]

theorem returns_identifier (hn : n.kind = .identifier) :
    (identifier (n :: ts)).Returns n.literal ts := by
  unfold identifier
  exact Returns.map (by simp [expect, Pattern.fits, hn]) Token.literal

theorem returns_accept {text : String} (ht : t.literal = text) :
    (accept text (t :: ts)).Returns true ts := by
  simp [accept, ht]

theorem returns_accept_of_avoids {text : String} (h : Avoids [text] ts) :
    (accept text ts).Returns false ts := by
  cases ts with
  | nil => simp [accept]
  | cons t ts => simp [accept, List.mem_singleton.not.mp h]

theorem typeClause_none (h : Avoids [":"] ts) : (typeClause ts).Returns none ts := by
  cases ts with
  | nil => simp [typeClause]
  | cons t ts => simp [typeClause, List.mem_singleton.not.mp h]

theorem typeClause_some (ht : t.literal = ":") (hn : n.kind = .identifier) :
    (typeClause (t :: n :: ts)).Returns (some n.literal) ts := by
  simp only [typeClause, ht, beq_self_eq_true, if_true, returns_widen]
  exact (returns_identifier hn).map some

section Expressions

theorem binaryExpression_returns {level : Level} {left tree : Node}
    (hfirst : (operand level ts).Returns left mid)
    (hmore : (binaryRest level left mid).Returns tree rest) :
    (binaryExpression level ts).Returns tree rest := by
  rw [binaryExpression, returns_weaken]
  exact hfirst.andThen fun _ => hmore

theorem operand_returns_tighter {level tighter : Level} {tree : Node}
    (ht : level.tighter? = some tighter) (h : (binaryExpression tighter ts).Returns tree rest) :
    (operand level ts).Returns tree rest := by
  rw [operand]
  split
  · next m hm =>
    obtain rfl : tighter = m := Option.some.inj (ht.symm.trans hm)
    exact h
  · next hm => cases ht.symm.trans hm

theorem operand_returns_tightest {level : Level} {tree : Node} (ht : level.tighter? = none)
    (h : (secondaryExpression ts).Returns tree rest) : (operand level ts).Returns tree rest := by
  rw [operand]
  split
  · next m hm => cases ht.symm.trans hm
  · exact h

theorem binaryRest_nil {level : Level} {left : Node} (h : Avoids level.operators ts) :
    (binaryRest level left ts).Returns left ts := by
  cases ts with
  | nil => simp [binaryRest]
  | cons t ts =>
    rw [binaryRest, if_neg (by simpa using h)]
    exact returns_done.mpr ⟨rfl, rfl⟩

theorem binaryRest_cons {level : Level} {left right tree : Node}
    (ho : o.literal ∈ level.operators) (hright : (operand level ts).Returns right mid)
    (hmore : (binaryRest level (.binary o.literal left right none) mid).Returns tree rest) :
    (binaryRest level left (o :: ts)).Returns tree rest := by
  rw [binaryRest, if_pos (by simpa using ho), returns_widen]
  exact hright.andThen fun _ => hmore

theorem secondaryExpression_returns {node tree : Node}
    (hfirst : (primaryExpression ts).Returns node mid)
    (hmore : (secondaryRest node mid).Returns tree rest) :
    (secondaryExpression ts).Returns tree rest := by
  rw [secondaryExpression, returns_weaken]
  exact hfirst.andThen fun _ => hmore

theorem secondaryRest_nil {node : Node} (h : Avoids ["."] ts) :
    (secondaryRest node ts).Returns node ts := by
  cases ts with
  | nil => simp [secondaryRest]
  | cons t ts =>
    rw [secondaryRest, if_neg (by simpa using h)]
    exact returns_done.mpr ⟨rfl, rfl⟩

theorem secondaryRest_access {node tree : Node} (ht : t.literal = ".") (hn : n.kind = .identifier)
    (h : Avoids ["("] ts)
    (hmore : (secondaryRest (.access node n.literal none none) ts).Returns tree rest) :
    (secondaryRest node (t :: n :: ts)).Returns tree rest := by
  rw [secondaryRest, if_pos (by simpa using ht), returns_widen]
  refine (returns_identifier hn).andThen fun _ => ?_
  cases ts with
  | nil => simpa [secondaryRest] using hmore
  | cons p ts =>
    dsimp only
    rw [if_neg (by simpa using h)]
    exact hmore

theorem secondaryRest_call {node tree : Node} {args : List Node} (ht : t.literal = ".")
    (hn : n.kind = .identifier) (hl : l.literal = "(") (hargs : (arguments ts).Returns args mid)
    (hmore : (secondaryRest (.call node n.literal args none none) mid).Returns tree rest) :
    (secondaryRest node (t :: n :: l :: ts)).Returns tree rest := by
  rw [secondaryRest, if_pos (by simpa using ht), returns_widen]
  refine (returns_identifier hn).andThen fun _ => ?_
  dsimp only
  rw [if_pos (by simpa using hl), returns_widen]
  exact hargs.andThen fun _ => hmore

theorem arguments_none (hr : r.literal = ")") : (arguments (r :: rest)).Returns [] rest := by
  rw [arguments, if_pos (by simpa using hr)]
  exact returns_done.mpr ⟨rfl, rfl⟩

theorem arguments_some {first : Node} {others : List Node} (h : Avoids [")"] (t :: ts))
    (hfirst : (binaryExpression .logical (t :: ts)).Returns first mid)
    (hmore : (moreArguments mid).Returns others rest) :
    (arguments (t :: ts)).Returns (first :: others) rest := by
  rw [arguments, if_neg (by simpa using h), returns_weaken]
  exact hfirst.andThen fun _ => hmore.map _

theorem moreArguments_none (hr : r.literal = ")") :
    (moreArguments (r :: rest)).Returns [] rest := by
  rw [moreArguments, if_neg (by simp [hr])]
  exact (returns_sign hr).map _

theorem moreArguments_some {next : Node} {others : List Node} (ht : t.literal = ",")
    (hnext : (binaryExpression .logical ts).Returns next mid)
    (hmore : (moreArguments mid).Returns others rest) :
    (moreArguments (t :: ts)).Returns (next :: others) rest := by
  rw [moreArguments, if_pos (by simpa using ht), returns_widen]
  exact hnext.andThen fun _ => hmore.map _

theorem primary_nil (ht : t.literal = "NIL") :
    (primaryExpression (t :: ts)).Returns (.literal .nil none) ts := by
  rw [primaryExpression.eq_def]
  simp [ht]

theorem primary_true (ht : t.literal = "TRUE") :
    (primaryExpression (t :: ts)).Returns (.literal (.boolean true) none) ts := by
  rw [primaryExpression.eq_def]
  simp [ht]

theorem primary_false (ht : t.literal = "FALSE") :
    (primaryExpression (t :: ts)).Returns (.literal (.boolean false) none) ts := by
  rw [primaryExpression.eq_def]
  simp [ht]

def NoWord (t : Token) : Prop := t.literal ≠ "NIL" ∧ t.literal ≠ "TRUE" ∧ t.literal ≠ "FALSE"

/-- A number is used up also where it has no value. -/
theorem outcome_primary_number {result : Except ParseFault Literal} (ht : NoWord t)
    (h : NumberReads t result) (ts : List Token) :
    (primaryExpression (t :: ts)).outcome = (result.map fun value => .literal value none, ts) := by
  obtain ⟨h₁, h₂, h₃⟩ := ht
  rw [primaryExpression.eq_def]
  rcases h with ⟨hk, hresult⟩ | ⟨hk, hresult⟩ <;>
    cases result <;> simp [h₁, h₂, h₃, hk, hresult, outcome, Except.map]

/-- A number without a value fails with a fault that has no place. -/
theorem unplaced_of_numberReads {fault : ParseFault} (h : NumberReads t (.error fault)) :
    fault.isPlaced = false := by
  rcases h with ⟨-, h⟩ | ⟨-, h⟩
  · unfold integerLiteral at h
    repeat' split at h
    all_goals cases h <;> rfl
  · unfold decimalLiteral at h
    split at h <;> cases h
    rfl

theorem integerLiteral_of_shaped (hs : t.Shaped) (hk : t.kind = .integer)
    (h : (Text.splitSign t.literal.toList).2.length ≤ Text.digitLimit) :
    integerLiteral t = .ok (.integer (integerValue t.literal.toList)) := by
  unfold Token.Shaped at hs
  rw [if_pos (by simp [Token.isNumber, hk]), hk] at hs
  rw [integerLiteral, if_neg (Nat.not_lt.mpr h), integer?_of_fits hs]

theorem decimalLiteral_of_shaped (hs : t.Shaped) (hk : t.kind = .decimal) :
    decimalLiteral t = .ok (.decimal (decimalValue t.literal.toList)) := by
  unfold Token.Shaped at hs
  rw [if_pos (by simp [Token.isNumber, hk]), hk] at hs
  rw [decimalLiteral, literal?_of_fits hs]

/-- A number of a text has a value unless it is an integer of too many digits. -/
theorem eq_tooManyDigits_of_shaped {fault : ParseFault} (hs : t.Shaped)
    (h : NumberReads t (.error fault)) : fault = .tooManyDigits := by
  rcases h with ⟨hk, h⟩ | ⟨hk, h⟩
  · by_cases hfits : (Text.splitSign t.literal.toList).2.length ≤ Text.digitLimit
    · cases (integerLiteral_of_shaped hs hk hfits).symm.trans h
    · rw [integerLiteral, if_pos (Nat.lt_of_not_le hfits)] at h
      exact (Except.error.inj h).symm
  · cases (decimalLiteral_of_shaped hs hk).symm.trans h

theorem primary_integer (ht : NoWord t) (hs : t.Shaped) (hk : t.kind = .integer)
    (h : (Text.splitSign t.literal.toList).2.length ≤ Text.digitLimit) :
    (primaryExpression (t :: ts)).Returns
      (.literal (.integer (integerValue t.literal.toList)) none) ts :=
  outcome_primary_number ht (.inl ⟨hk, integerLiteral_of_shaped hs hk h⟩) ts

theorem primary_decimal (ht : NoWord t) (hs : t.Shaped) (hk : t.kind = .decimal) :
    (primaryExpression (t :: ts)).Returns
      (.literal (.decimal (decimalValue t.literal.toList)) none) ts :=
  outcome_primary_number ht (.inr ⟨hk, decimalLiteral_of_shaped hs hk⟩) ts

theorem primary_character (ht : NoWord t) (hk : t.kind = .character) :
    (primaryExpression (t :: ts)).Returns (.literal (characterLiteral t) none) ts := by
  obtain ⟨h₁, h₂, h₃⟩ := ht
  rw [primaryExpression.eq_def]
  simp [h₁, h₂, h₃, hk]

theorem primary_string (ht : NoWord t) (hk : t.kind = .string) :
    (primaryExpression (t :: ts)).Returns (.literal (stringLiteral t) none) ts := by
  obtain ⟨h₁, h₂, h₃⟩ := ht
  rw [primaryExpression.eq_def]
  simp [h₁, h₂, h₃, hk]

theorem primary_group {inner : Node} (hl : l.literal = "(") (hk : l.kind = .operator)
    (hinner : (binaryExpression .logical ts).Returns inner (r :: rest)) (hr : r.literal = ")") :
    (primaryExpression (l :: ts)).Returns (.group inner none) rest := by
  rw [primaryExpression.eq_def]
  simp only [hl, hk, beq_iff_eq, String.reduceEq, reduceCtorEq, if_false, if_true, returns_widen]
  exact hinner.andThen fun _ => (returns_sign hr).map _

theorem primary_name (ht : NoWord n) (hk : n.kind = .identifier) (hl : n.literal ≠ "(")
    (h : Avoids ["("] ts) :
    (primaryExpression (n :: ts)).Returns (.access .absent n.literal none none) ts := by
  obtain ⟨h₁, h₂, h₃⟩ := ht
  rw [primaryExpression.eq_def]
  cases ts with
  | nil => simp [h₁, h₂, h₃, hk, hl]
  | cons p ts => simp [h₁, h₂, h₃, hk, hl, List.mem_singleton.not.mp h]

theorem primary_call {args : List Node} (ht : NoWord n) (hk : n.kind = .identifier)
    (hn : n.literal ≠ "(") (hl : l.literal = "(") (hargs : (arguments ts).Returns args rest) :
    (primaryExpression (n :: l :: ts)).Returns (.call .absent n.literal args none none) rest := by
  obtain ⟨h₁, h₂, h₃⟩ := ht
  rw [primaryExpression.eq_def]
  simp only [h₁, h₂, h₃, hk, hn, hl, beq_iff_eq, reduceCtorEq, if_false, if_true, returns_widen]
  exact hargs.map _

end Expressions

section Statements

theorem initialValue_none (h : Avoids ["="] ts) : (initialValue ts).Returns .absent ts := by
  cases ts with
  | nil => simp [initialValue]
  | cons t ts => simp [initialValue, List.mem_singleton.not.mp h]

theorem initialValue_some {value : Node} (ht : t.literal = "=")
    (h : (expression ts).Returns value rest) : (initialValue (t :: ts)).Returns value rest := by
  simpa [initialValue, ht] using h

theorem loopAssignment_none (h : t.kind ≠ .identifier) :
    (loopAssignment (t :: ts)).Returns .absent (t :: ts) := by
  simp [loopAssignment, h]

theorem loopAssignment_some {value : Node} (hn : n.kind = .identifier) (ht : t.literal = "=")
    (h : (expression ts).Returns value rest) :
    (loopAssignment (n :: t :: ts)).Returns
      (.assign (.access .absent n.literal none none) value) rest := by
  simp only [loopAssignment, hn, beq_self_eq_true, if_true, returns_weaken]
  exact (returns_identifier hn).andThen fun _ => (returns_sign ht).andThen fun _ => h.map _

theorem statement_declaration {type : Option String} {value : Node} (ht : t.literal = "LET")
    (hn : n.kind = .identifier) (hclause : (typeClause ts).Returns type mid)
    (hvalue : (initialValue mid).Returns value (s :: rest)) (hs : s.literal = ";") :
    (statement (t :: n :: ts)).Returns (.declaration n.literal type value none) rest := by
  rw [statement, if_pos (by simpa using ht), declarationStatement, returns_weaken]
  exact (returns_keyword ht).andThen fun _ => (returns_identifier hn).andThen fun _ =>
    hclause.andThen fun _ => hvalue.andThen fun _ => (returns_sign hs).map _

theorem statement_if {condition : Node} {thens elses : List Node} {d e : Token}
    {ts₁ ts₂ : List Token} (ht : t.literal = "IF")
    (hcondition : (expression ts).Returns condition (d :: ts₁)) (hd : d.literal = "DO")
    (hthens : (block ["ELSE", "END"] ts₁).Returns thens ts₂)
    (helses : (elseBranch ts₂).Returns elses (e :: rest)) (he : e.literal = "END") :
    (statement (t :: ts)).Returns (.ifStmt condition thens elses) rest := by
  rw [statement, if_neg (by simp [ht]), if_pos (by simpa using ht), ifStatement, returns_weaken]
  exact (returns_keyword ht).andThen fun _ => hcondition.andThen fun _ =>
    (returns_keyword hd).andThen fun _ => hthens.andThen fun _ => helses.andThen fun _ =>
    (returns_keyword he).map _

theorem statement_for {initialization condition increment : Node} {body : List Node}
    {s₁ s₂ e : Token} {ts₁ ts₂ ts₃ : List Token} (ht : t.literal = "FOR") (hl : l.literal = "(")
    (hbefore : (loopAssignment ts).Returns initialization (s₁ :: ts₁)) (hs₁ : s₁.literal = ";")
    (hcondition : (expression ts₁).Returns condition (s₂ :: ts₂)) (hs₂ : s₂.literal = ";")
    (hafter : (loopAssignment ts₂).Returns increment (r :: ts₃)) (hr : r.literal = ")")
    (hbody : (block ["END"] ts₃).Returns body (e :: rest)) (he : e.literal = "END") :
    (statement (t :: l :: ts)).Returns (.forStmt initialization condition increment body) rest := by
  rw [statement, if_neg (by simp [ht]), if_neg (by simp [ht]), if_pos (by simpa using ht),
    forStatement, returns_weaken]
  exact (returns_keyword ht).andThen fun _ => (returns_sign hl).andThen fun _ =>
    hbefore.andThen fun _ => (returns_sign hs₁).andThen fun _ => hcondition.andThen fun _ =>
    (returns_sign hs₂).andThen fun _ => hafter.andThen fun _ => (returns_sign hr).andThen fun _ =>
    hbody.andThen fun _ => (returns_keyword he).map _

theorem statement_while {condition : Node} {body : List Node} {d e : Token} {ts₁ : List Token}
    (ht : t.literal = "WHILE") (hcondition : (expression ts).Returns condition (d :: ts₁))
    (hd : d.literal = "DO") (hbody : (block ["END"] ts₁).Returns body (e :: rest))
    (he : e.literal = "END") : (statement (t :: ts)).Returns (.whileStmt condition body) rest := by
  rw [statement, if_neg (by simp [ht]), if_neg (by simp [ht]), if_neg (by simp [ht]),
    if_pos (by simpa using ht), whileStatement, returns_weaken]
  exact (returns_keyword ht).andThen fun _ => hcondition.andThen fun _ =>
    (returns_keyword hd).andThen fun _ => hbody.andThen fun _ => (returns_keyword he).map _

theorem statement_return {value : Node} (ht : t.literal = "RETURN")
    (hvalue : (expression ts).Returns value (s :: rest)) (hs : s.literal = ";") :
    (statement (t :: ts)).Returns (.returnStmt value) rest := by
  rw [statement, if_neg (by simp [ht]), if_neg (by simp [ht]), if_neg (by simp [ht]),
    if_neg (by simp [ht]), if_pos (by simpa using ht), returnStatement, returns_weaken]
  exact (returns_keyword ht).andThen fun _ => hvalue.andThen fun _ => (returns_sign hs).map _

/-- A statement that begins with none of the words of statements is an expression or an
assignment. -/
theorem statement_of_avoids (h : Avoids ["LET", "IF", "FOR", "WHILE", "RETURN"] (t :: ts)) :
    statement (t :: ts) = expressionStatement (t :: ts) := by
  simp only [avoids_cons_iff, List.mem_cons, List.not_mem_nil, or_false, not_or] at h
  obtain ⟨h₁, h₂, h₃, h₄, h₅⟩ := h
  rw [statement, if_neg (by simpa using h₁), if_neg (by simpa using h₂), if_neg (by simpa using h₃),
    if_neg (by simpa using h₄), if_neg (by simpa using h₅)]

theorem expressionStatement_plain {value : Node}
    (hvalue : (expression ts).Returns value (s :: rest)) (hs : s.literal = ";") :
    (expressionStatement ts).Returns (.exprStmt value) rest := by
  rw [expressionStatement, returns_weaken]
  have hno : Avoids ["="] (s :: rest) := literal_not_mem hs (by decide)
  refine hvalue.andThen fun _ => (returns_accept_of_avoids hno).andThen fun _ => ?_
  exact (returns_sign hs).map _

theorem expressionStatement_assign {receiver value : Node} {ts₁ : List Token}
    (hreceiver : (expression ts).Returns receiver (t :: ts₁)) (ht : t.literal = "=")
    (hvalue : (expression ts₁).Returns value (s :: rest)) (hs : s.literal = ";") :
    (expressionStatement ts).Returns (.assign receiver value) rest := by
  rw [expressionStatement, returns_weaken]
  refine hreceiver.andThen fun _ => (returns_accept ht).andThen fun _ => ?_
  rw [if_pos rfl, returns_weaken]
  exact hvalue.andThen fun _ => (returns_sign hs).map _

theorem elseBranch_none (h : Avoids ["ELSE"] ts) : (elseBranch ts).Returns [] ts := by
  cases ts with
  | nil => simp [elseBranch]
  | cons t ts => simp [elseBranch, List.mem_singleton.not.mp h]

theorem elseBranch_some {elses : List Node} (ht : t.literal = "ELSE")
    (h : (block ["END"] ts).Returns elses rest) : (elseBranch (t :: ts)).Returns elses rest := by
  rw [elseBranch, if_pos (by simpa using ht), returns_widen]
  exact h

theorem block_nil {terminators : List String} (h : Meets terminators ts) :
    (block terminators ts).Returns [] ts := by
  cases ts with
  | nil => exact absurd h id
  | cons t ts =>
    rw [block, if_pos (by simpa [Meets] using h)]
    exact returns_done.mpr ⟨rfl, rfl⟩

theorem block_cons {terminators : List String} {first : Node} {others : List Node}
    (h : Avoids terminators (t :: ts)) (hfirst : (statement (t :: ts)).Returns first mid)
    (hmore : (block terminators mid).Returns others rest) :
    (block terminators (t :: ts)).Returns (first :: others) rest := by
  rw [block, if_neg (by simpa using h), returns_weaken]
  exact hfirst.andThen fun _ => hmore.map _

end Statements

section Declarations

theorem parameter_returns {type : Option String} (hn : n.kind = .identifier)
    (h : (typeClause ts).Returns type rest) :
    (parameter (n :: ts)).Returns (n.literal, type) rest := by
  rw [parameter, returns_weaken]
  exact (returns_identifier hn).andThen fun _ => h.map _

theorem moreParameters_nil (h : Avoids [","] ts) : (moreParameters ts).Returns [] ts := by
  cases ts with
  | nil => simp [moreParameters]
  | cons t ts =>
    rw [moreParameters, if_neg (by simpa using h)]
    exact returns_done.mpr ⟨rfl, rfl⟩

theorem moreParameters_cons {p : String × Option String} {ps : List (String × Option String)}
    (ht : t.literal = ",") (hp : (parameter ts).Returns p mid)
    (hmore : (moreParameters mid).Returns ps rest) :
    (moreParameters (t :: ts)).Returns (p :: ps) rest := by
  rw [moreParameters, if_pos (by simpa using ht), returns_widen]
  exact hp.andThen fun _ => hmore.map _

theorem parameters_nil (h : Meets [")"] ts) : (parameters ts).Returns [] ts := by
  cases ts with
  | nil => exact absurd h id
  | cons t ts =>
    rw [parameters, if_pos (by simpa [Meets, Pattern.allFit, Pattern.fits] using h)]
    exact returns_done.mpr ⟨rfl, rfl⟩

theorem parameters_cons {p : String × Option String} {ps : List (String × Option String)}
    (h : Avoids [")"] (t :: ts)) (hp : (parameter (t :: ts)).Returns p mid)
    (hmore : (moreParameters mid).Returns ps rest) :
    (parameters (t :: ts)).Returns (p :: ps) rest := by
  rw [parameters, if_neg (by simpa [Pattern.allFit, Pattern.fits] using h), returns_weaken]
  exact hp.andThen fun _ => hmore.map _

theorem fields_nil (h : Avoids ["LET"] ts) : (fields ts).Returns [] ts := by
  cases ts with
  | nil => simp [fields]
  | cons t ts =>
    rw [fields, if_neg (by simpa using h)]
    exact returns_done.mpr ⟨rfl, rfl⟩

theorem fields_cons {constant : Bool} {type : Option String} {value : Node} {fs : List Node}
    {ts₁ ts₂ ts₃ : List Token} (ht : t.literal = "LET")
    (hmark : (accept "CONST" ts).Returns constant (n :: ts₁)) (hn : n.kind = .identifier)
    (hclause : (typeClause ts₁).Returns type ts₂)
    (hvalue : (initialValue ts₂).Returns value (s :: ts₃)) (hs : s.literal = ";")
    (hmore : (fields ts₃).Returns fs rest) :
    (fields (t :: ts)).Returns (.field n.literal type constant value none :: fs) rest := by
  have hfield : (field (t :: ts)).Returns (.field n.literal type constant value none) ts₃ := by
    rw [field, returns_weaken]
    exact (returns_keyword ht).andThen fun _ => hmark.andThen fun _ =>
      (returns_identifier hn).andThen fun _ => hclause.andThen fun _ =>
      hvalue.andThen fun _ => (returns_sign hs).map _
  rw [fields, if_pos (by simpa using ht), returns_weaken]
  exact hfield.andThen fun _ => hmore.map _

theorem methods_nil (h : Avoids ["DEF"] ts) : (methods ts).Returns [] ts := by
  cases ts with
  | nil => simp [methods]
  | cons t ts =>
    rw [methods, if_neg (by simpa using h)]
    exact returns_done.mpr ⟨rfl, rfl⟩

theorem methods_cons {ps : List (String × Option String)} {type : Option String}
    {body ms : List Node} {d e : Token} {ts₁ ts₂ ts₃ : List Token} (ht : t.literal = "DEF")
    (hn : n.kind = .identifier) (hl : l.literal = "(")
    (hps : (parameters ts).Returns ps (r :: ts₁)) (hr : r.literal = ")")
    (hclause : (typeClause ts₁).Returns type (d :: ts₂)) (hd : d.literal = "DO")
    (hbody : (block ["END"] ts₂).Returns body (e :: ts₃)) (he : e.literal = "END")
    (hmore : (methods ts₃).Returns ms rest) :
    (methods (t :: n :: l :: ts)).Returns
      (.method n.literal (ps.map Prod.fst) (ps.map Prod.snd) type body none :: ms) rest := by
  have hmethod : (method (t :: n :: l :: ts)).Returns
      (.method n.literal (ps.map Prod.fst) (ps.map Prod.snd) type body none) ts₃ := by
    rw [method, returns_weaken]
    exact (returns_keyword ht).andThen fun _ => (returns_identifier hn).andThen fun _ =>
      (returns_sign hl).andThen fun _ => hps.andThen fun _ => (returns_sign hr).andThen fun _ =>
      hclause.andThen fun _ => (returns_keyword hd).andThen fun _ => hbody.andThen fun _ =>
      (returns_keyword he).map _
  rw [methods, if_pos (by simpa using ht), returns_weaken]
  exact hmethod.andThen fun _ => hmore.map _

theorem source_returns {fs ms : List Node} (hfs : (fields ts).Returns fs mid)
    (hms : (methods mid).Returns ms []) : (source ts).Returns (.source fs ms) [] := by
  rw [source, returns_weaken]
  refine hfs.andThen fun _ => hms.andThen fun _ => ?_
  exact Returns.map (r := endOfTokens []) (returns_done.mpr ⟨rfl, rfl⟩) _

end Declarations

end BlockScript.Grammar
