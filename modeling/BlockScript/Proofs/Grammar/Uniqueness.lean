import BlockScript.Proofs.Grammar.Completeness
/-!
# Derivations are unique

Since the rules read what is derivable, two derivations of one phrase from the same tokens stand
for the same tree and leave the same tokens. Going down both at once shows, production by
production, that they are the same derivation.
-/
namespace BlockScript.Grammar

open Rule Reading

def Phrase.head : Phrase → Phrase
  | .source _ => .source .absent
  | .fields _ => .fields []
  | .methods _ => .methods []
  | .constMark _ => .constMark false
  | .typeClause _ => .typeClause none
  | .initialValue _ => .initialValue .absent
  | .parameters _ => .parameters []
  | .moreParameters _ => .moreParameters []
  | .statements _ => .statements []
  | .statement _ => .statement .absent
  | .elseBranch _ => .elseBranch []
  | .header _ => .header .absent
  | .operation level _ => .operation level .absent
  | .operand level _ => .operand level .absent
  | .operations level left _ => .operations level left .absent
  | .secondary _ => .secondary .absent
  | .members node _ => .members node .absent
  | .primary _ => .primary .absent
  | .arguments _ => .arguments []
  | .moreArguments _ => .moreArguments []

variable {p p' : Phrase} {ts rest rest' : List Token}

theorem eq_of_tail_eq (h : rest <:+ ts) (h' : rest' <:+ ts) (hm : Meets [")"] rest)
    (hm' : Meets [")"] rest') (ht : rest'.tail = rest.tail) : rest' = rest := by
  cases rest with
  | nil => exact absurd hm id
  | cons r after =>
    cases rest' with
    | nil => exact absurd hm' id
    | cons r' after' =>
      have hlen : (r' :: after').length = (r :: after).length := by
        simpa using congrArg List.length ht
      exact (List.suffix_of_suffix_length_le h' h hlen.le).eq_of_length hlen

/-- Two derivations from the same tokens stand for the same tree and leave the same tokens. -/
theorem Derivation.agree (d : Derivation plainLeaf p ts rest)
    (d' : Derivation plainLeaf p' ts rest') (h : AllShaped ts) (hf : Follows p rest)
    (hf' : Follows p' rest') (hhead : p'.head = p.head) : p' = p ∧ rest' = rest := by
  have ha := d.accepts h hf
  have ha' := d'.accepts h hf'
  cases p <;> cases p' <;> cases hhead
  case statements =>
    obtain ⟨rfl, rfl⟩ := (ha' _ (List.Subset.refl _) hf').unique (ha _ (List.Subset.refl _) hf)
    exact ⟨rfl, rfl⟩
  case arguments =>
    obtain ⟨rfl, htail⟩ := Returns.unique ha' ha
    exact ⟨rfl, eq_of_tail_eq d.suffix d'.suffix hf hf' htail⟩
  case moreArguments =>
    obtain ⟨rfl, htail⟩ := Returns.unique ha' ha
    exact ⟨rfl, eq_of_tail_eq d.suffix d'.suffix hf hf' htail⟩
  all_goals
    obtain ⟨rfl, rfl⟩ := Returns.unique ha' ha
    exact ⟨rfl, rfl⟩

def Derivation.Only (d : Derivation plainLeaf p ts rest) : Prop :=
  ∀ {p' : Phrase} {rest' : List Token} (d' : Derivation plainLeaf p' ts rest'),
    p' = p → rest' = rest → HEq d d'

theorem Derivation.same (d : Derivation plainLeaf p ts rest)
    (d' : Derivation plainLeaf p' ts rest') (h : AllShaped ts) (hf : Follows p rest)
    (hf' : Follows p' rest') (hhead : p'.head = p.head) (ho : d.Only) :
    p' = p ∧ rest' = rest ∧ HEq d d' := by
  obtain ⟨hp, hrest⟩ := d.agree d' h hf hf' hhead
  exact ⟨hp, hrest, ho d' hp hrest⟩

theorem not_cons_suffix {t : Token} (h : t :: ts <:+ ts) : False := by
  have hlen := h.length_le
  simp only [List.length_cons] at hlen
  omega

/-- From shaped tokens and in its place, the derivation is the only one of its phrase. -/
def Derivation.Unique (d : Derivation plainLeaf p ts rest) : Prop :=
  AllShaped ts → Follows p rest → d.Only

namespace Derivation.Unique

variable {fs ms body thens elses args others : List Node} {ps : List (String × Option String)}
  {value node tree left right condition initialization increment first next : Node}
  {type : Option String} {constant : Bool} {level tighter : Rule.Level}
  {t n l r c o q s s₁ s₂ point e : Token} {mid ts₁ ts₂ ts₃ : List Token}

/-- A part of a derivation is the same part in another one, if what stands behind it in either of
them cannot go on with it. -/
theorem same {d : Derivation plainLeaf p ts rest} (hu : d.Unique)
    (d' : Derivation plainLeaf p' ts rest') (h : AllShaped ts) (hf : Follows p rest)
    (hf' : Follows p' rest') (hhead : p'.head = p.head) : p' = p ∧ rest' = rest ∧ HEq d d' :=
  d.same d' h hf hf' hhead (hu h hf)

section Declarations

theorem source {fields : Derivation plainLeaf (.fields fs) ts mid}
    {methods : Derivation plainLeaf (.methods ms) mid rest}
    (h₁ : fields.Unique) (h₂ : methods.Unique) : (Derivation.source fields methods).Unique := by
  intro h hf p' rest' d' hp hrest
  cases d' with
  | source fields' methods' =>
    cases hp
    subst hf hrest
    obtain ⟨-, rfl, heq⟩ :=
      h₁.same fields' h (avoids_of_methods methods) (avoids_of_methods methods') rfl
    obtain rfl := eq_of_heq heq
    cases h₂ (fields.shaped h) trivial methods' rfl rfl
    rfl
  | _ => cases hp

theorem fieldsCons {letWord : t.literal = "LET"}
    {mark : Derivation plainLeaf (.constMark constant) ts (n :: ts₁)}
    {name : n.kind = .identifier ∧ plainLeaf n}
    {clause : Derivation plainLeaf (.typeClause type) ts₁ ts₂}
    {initial : Derivation plainLeaf (.initialValue value) ts₂ (s :: ts₃)} {stop : s.literal = ";"}
    {more : Derivation plainLeaf (.fields fs) ts₃ rest}
    (h₁ : mark.Unique) (h₂ : clause.Unique) (h₃ : initial.Unique) (h₄ : more.Unique) :
    (Derivation.fieldsCons letWord mark name clause initial stop more).Unique := by
  intro h hf p' rest' d' hp hrest
  cases d' with
  | fieldsCons letWord' mark' name' clause' initial' stop' more' =>
    obtain ⟨-, heq, hmark⟩ :=
      h₁.same mark' h.tail (name_ne_const name) (name_ne_const name') rfl
    cases heq
    cases hp
    cases hrest
    have hn := (mark.shaped h.tail).tail
    obtain ⟨-, rfl, hclause⟩ := h₂.same clause' hn
      (avoids_of_initialValue initial (literal_not_mem stop (by decide)))
      (avoids_of_initialValue initial' (literal_not_mem stop' (by decide))) rfl
    have hv := clause.shaped hn
    obtain ⟨-, heq, hinitial⟩ := h₃.same initial' hv (literal_not_mem stop (by decide))
      (literal_not_mem stop' (by decide)) rfl
    cases heq
    have hmore := h₄ (initial.shaped hv).tail hf more' rfl rfl
    obtain rfl := eq_of_heq hmark
    obtain rfl := eq_of_heq hclause
    obtain rfl := eq_of_heq hinitial
    obtain rfl := eq_of_heq hmore
    rfl
  | _ => cases hp

theorem methodsCons {d : Token} {defWord : t.literal = "DEF"}
    {name : n.kind = .identifier ∧ plainLeaf n} {opens : l.literal = "("}
    {params : Derivation plainLeaf (.parameters ps) ts (r :: ts₁)} {closes : r.literal = ")"}
    {clause : Derivation plainLeaf (.typeClause type) ts₁ (d :: ts₂)} {doWord : d.literal = "DO"}
    {statements : Derivation plainLeaf (.statements body) ts₂ (e :: ts₃)}
    {endWord : e.literal = "END"} {more : Derivation plainLeaf (.methods ms) ts₃ rest}
    (h₁ : params.Unique) (h₂ : clause.Unique) (h₃ : statements.Unique) (h₄ : more.Unique) :
    (Derivation.methodsCons defWord name opens params closes clause doWord statements endWord
      more).Unique := by
  intro h hf p' rest' d' hp hrest
  cases d' with
  | methodsCons defWord' name' opens' params' closes' clause' doWord' statements' endWord' more' =>
    have hps := h.tail.tail.tail
    obtain ⟨heqp, heq, hparams⟩ := h₁.same params' hps (literal_mem closes (by decide))
      (literal_mem closes' (by decide)) rfl
    cases heqp
    cases heq
    cases hp
    cases hrest
    have hc := (params.shaped hps).tail
    obtain ⟨-, heq, hclause⟩ := h₂.same clause' hc (literal_not_mem doWord (by decide))
      (literal_not_mem doWord' (by decide)) rfl
    cases heq
    have hb := (clause.shaped hc).tail
    obtain ⟨-, heq, hstatements⟩ := h₃.same statements' hb (literal_mem endWord (by decide))
      (literal_mem endWord' (by decide)) rfl
    cases heq
    have hmore := h₄ (statements.shaped hb).tail hf more' rfl rfl
    obtain rfl := eq_of_heq hparams
    obtain rfl := eq_of_heq hclause
    obtain rfl := eq_of_heq hstatements
    obtain rfl := eq_of_heq hmore
    rfl
  | _ => cases hp

theorem initialNone :
    (Derivation.initialNone : Derivation plainLeaf (.initialValue .absent) ts ts).Unique := by
  intro h hf p' rest' d' hp hrest
  cases d' with
  | initialNone => rfl
  | initialSome equals' expression' =>
    cases hrest
    exact (not_cons_suffix expression'.suffix).elim
  | _ => cases hp

theorem initialSome {equals : t.literal = "="}
    {expression : Derivation plainLeaf (.operation .logical value) ts rest}
    (h₁ : expression.Unique) : (Derivation.initialSome equals expression).Unique := by
  intro h hf p' rest' d' hp hrest
  cases d' with
  | initialNone =>
    cases hrest
    exact (not_cons_suffix expression.suffix).elim
  | initialSome equals' expression' =>
    cases hp
    cases hrest
    cases h₁ h.tail (hf.mono (List.subset_cons_self _ _)) expression' rfl rfl
    rfl
  | _ => cases hp

theorem parametersSome {name : n.kind = .identifier ∧ plainLeaf n}
    {clause : Derivation plainLeaf (.typeClause type) ts ts₁}
    {more : Derivation plainLeaf (.moreParameters ps) ts₁ rest}
    (h₁ : clause.Unique) (h₂ : more.Unique) :
    (Derivation.parametersSome name clause more).Unique := by
  intro h hf p' rest' d' hp hrest
  cases d' with
  | parametersSome name' clause' more' =>
    cases hp
    cases hrest
    obtain ⟨-, rfl, heq⟩ := h₁.same clause' h.tail (avoids_of_moreParameters more hf)
      (avoids_of_moreParameters more' hf) rfl
    obtain rfl := eq_of_heq heq
    cases h₂ (clause.shaped h.tail) hf more' rfl rfl
    rfl
  | _ => cases hp

theorem moreParametersCons {comma : c.literal = ","} {name : n.kind = .identifier ∧ plainLeaf n}
    {clause : Derivation plainLeaf (.typeClause type) ts ts₁}
    {more : Derivation plainLeaf (.moreParameters ps) ts₁ rest}
    (h₁ : clause.Unique) (h₂ : more.Unique) :
    (Derivation.moreParametersCons comma name clause more).Unique := by
  intro h hf p' rest' d' hp hrest
  cases d' with
  | moreParametersCons comma' name' clause' more' =>
    cases hp
    cases hrest
    obtain ⟨-, rfl, heq⟩ := h₁.same clause' h.tail.tail (avoids_of_moreParameters more hf)
      (avoids_of_moreParameters more' hf) rfl
    obtain rfl := eq_of_heq heq
    cases h₂ (clause.shaped h.tail.tail) hf more' rfl rfl
    rfl
  | _ => cases hp

end Declarations

section Statements

theorem statementsCons {head : Derivation plainLeaf (.statement first) ts mid}
    {more : Derivation plainLeaf (.statements others) mid rest}
    (h₁ : head.Unique) (h₂ : more.Unique) : (Derivation.statementsCons head more).Unique := by
  intro h hf p' rest' d' hp hrest
  cases d' with
  | statementsCons head' more' =>
    cases hp
    cases hrest
    obtain ⟨-, rfl, heq⟩ := h₁.same head' h trivial trivial rfl
    obtain rfl := eq_of_heq heq
    cases h₂ (head.shaped h) hf more' rfl rfl
    rfl
  | _ => cases hp

theorem declaration {letWord : t.literal = "LET"} {name : n.kind = .identifier ∧ plainLeaf n}
    {clause : Derivation plainLeaf (.typeClause type) ts ts₁}
    {initial : Derivation plainLeaf (.initialValue value) ts₁ (s :: rest)} {stop : s.literal = ";"}
    (h₁ : clause.Unique) (h₂ : initial.Unique) :
    (Derivation.declaration letWord name clause initial stop).Unique := by
  intro h hf p' rest' d' hp hrest
  cases d' with
  | declaration letWord' name' clause' initial' stop' =>
    cases hp
    cases hrest
    have hn := h.tail.tail
    obtain ⟨-, rfl, hclause⟩ := h₁.same clause' hn
      (avoids_of_initialValue initial (literal_not_mem stop (by decide)))
      (avoids_of_initialValue initial' (literal_not_mem stop' (by decide))) rfl
    obtain ⟨-, heq, hinitial⟩ := h₂.same initial' (clause.shaped hn)
      (literal_not_mem stop (by decide)) (literal_not_mem stop' (by decide)) rfl
    cases heq
    obtain rfl := eq_of_heq hclause
    obtain rfl := eq_of_heq hinitial
    rfl
  | _ => cases hp

theorem ifStmt {d : Token} {ifWord : t.literal = "IF"}
    {test : Derivation plainLeaf (.operation .logical condition) ts (d :: ts₁)}
    {doWord : d.literal = "DO"} {first : Derivation plainLeaf (.statements thens) ts₁ ts₂}
    {second : Derivation plainLeaf (.elseBranch elses) ts₂ (e :: rest)}
    {endWord : e.literal = "END"}
    (h₁ : test.Unique) (h₂ : first.Unique) (h₃ : second.Unique) :
    (Derivation.ifStmt ifWord test doWord first second endWord).Unique := by
  intro h hf p' rest' d' hp hrest
  cases d' with
  | @ifStmt _ _ e' _ _ _ _ _ _ rest' ifWord' test' doWord' first' second' endWord' =>
    cases hp
    cases hrest
    obtain ⟨-, heq, htest⟩ := h₁.same test' h.tail (literal_not_mem doWord (by decide))
      (literal_not_mem doWord' (by decide)) rfl
    cases heq
    have hd := (test.shaped h.tail).tail
    have hend : Meets ["END"] (e :: rest) := literal_mem endWord (by decide)
    have hend' : Meets ["END"] (e' :: rest) := literal_mem endWord' (by decide)
    obtain ⟨-, rfl, hfirst⟩ := h₂.same first' hd (meets_of_elseBranch second hend)
      (meets_of_elseBranch second' hend') rfl
    obtain ⟨-, heq, hsecond⟩ := h₃.same second' (first.shaped hd) hend hend' rfl
    cases heq
    obtain rfl := eq_of_heq htest
    obtain rfl := eq_of_heq hfirst
    obtain rfl := eq_of_heq hsecond
    rfl
  | _ => cases hp

theorem elseNone : (Derivation.elseNone : Derivation plainLeaf (.elseBranch []) ts ts).Unique := by
  intro h hf p' rest' d' hp hrest
  cases d' with
  | elseNone => rfl
  | elseSome elseWord' statements' =>
    cases hrest
    exact (not_cons_suffix statements'.suffix).elim
  | _ => cases hp

theorem elseSome {elseWord : t.literal = "ELSE"}
    {statements : Derivation plainLeaf (.statements elses) ts rest} (h₁ : statements.Unique) :
    (Derivation.elseSome elseWord statements).Unique := by
  intro h hf p' rest' d' hp hrest
  cases d' with
  | elseNone =>
    cases hrest
    exact (not_cons_suffix statements.suffix).elim
  | elseSome elseWord' statements' =>
    cases hp
    cases hrest
    cases h₁ h.tail (hf.mono (by decide)) statements' rfl rfl
    rfl
  | _ => cases hp

theorem forStmt {forWord : t.literal = "FOR"} {opens : l.literal = "("}
    {before : Derivation plainLeaf (.header initialization) ts (s₁ :: ts₁)}
    {stop₁ : s₁.literal = ";"}
    {test : Derivation plainLeaf (.operation .logical condition) ts₁ (s₂ :: ts₂)}
    {stop₂ : s₂.literal = ";"} {after : Derivation plainLeaf (.header increment) ts₂ (r :: ts₃)}
    {closes : r.literal = ")"}
    {statements : Derivation plainLeaf (.statements body) ts₃ (e :: rest)}
    {endWord : e.literal = "END"}
    (h₁ : before.Unique) (h₂ : test.Unique) (h₃ : after.Unique) (h₄ : statements.Unique) :
    (Derivation.forStmt forWord opens before stop₁ test stop₂ after closes statements
      endWord).Unique := by
  intro h hf p' rest' d' hp hrest
  cases d' with
  | forStmt forWord' opens' before' stop₁' test' stop₂' after' closes' statements' endWord' =>
    cases hp
    cases hrest
    have hb := h.tail.tail
    obtain ⟨-, heq, hbefore⟩ := h₁.same before' hb (literal_mem stop₁ (by decide))
      (literal_mem stop₁' (by decide)) rfl
    cases heq
    have hc := (before.shaped hb).tail
    obtain ⟨-, heq, htest⟩ := h₂.same test' hc (literal_not_mem stop₂ (by decide))
      (literal_not_mem stop₂' (by decide)) rfl
    cases heq
    have ha := (test.shaped hc).tail
    obtain ⟨-, heq, hafter⟩ := h₃.same after' ha (literal_mem closes (by decide))
      (literal_mem closes' (by decide)) rfl
    cases heq
    obtain ⟨-, heq, hstatements⟩ := h₄.same statements' (after.shaped ha).tail
      (literal_mem endWord (by decide)) (literal_mem endWord' (by decide)) rfl
    cases heq
    obtain rfl := eq_of_heq hbefore
    obtain rfl := eq_of_heq htest
    obtain rfl := eq_of_heq hafter
    obtain rfl := eq_of_heq hstatements
    rfl
  | _ => cases hp

theorem headerSome {name : n.kind = .identifier ∧ plainLeaf n} {equals : q.literal = "="}
    {expression : Derivation plainLeaf (.operation .logical value) ts rest}
    (h₁ : expression.Unique) : (Derivation.headerSome name equals expression).Unique := by
  intro h hf p' rest' d' hp hrest
  cases d' with
  | headerSome name' equals' expression' =>
    cases hp
    cases hrest
    cases h₁ h.tail.tail (avoids_of_meets hf (by decide)) expression' rfl rfl
    rfl
  | _ => cases hp

theorem whileStmt {d : Token} {whileWord : t.literal = "WHILE"}
    {test : Derivation plainLeaf (.operation .logical condition) ts (d :: ts₁)}
    {doWord : d.literal = "DO"}
    {statements : Derivation plainLeaf (.statements body) ts₁ (e :: rest)}
    {endWord : e.literal = "END"} (h₁ : test.Unique) (h₂ : statements.Unique) :
    (Derivation.whileStmt whileWord test doWord statements endWord).Unique := by
  intro h hf p' rest' d' hp hrest
  cases d' with
  | whileStmt whileWord' test' doWord' statements' endWord' =>
    cases hp
    cases hrest
    obtain ⟨-, heq, htest⟩ := h₁.same test' h.tail (literal_not_mem doWord (by decide))
      (literal_not_mem doWord' (by decide)) rfl
    cases heq
    obtain ⟨-, heq, hstatements⟩ := h₂.same statements' (test.shaped h.tail).tail
      (literal_mem endWord (by decide)) (literal_mem endWord' (by decide)) rfl
    cases heq
    obtain rfl := eq_of_heq htest
    obtain rfl := eq_of_heq hstatements
    rfl
  | _ => cases hp

theorem returnStmt {returnWord : t.literal = "RETURN"}
    {expression : Derivation plainLeaf (.operation .logical value) ts (s :: rest)}
    {stop : s.literal = ";"} (h₁ : expression.Unique) :
    (Derivation.returnStmt returnWord expression stop).Unique := by
  intro h hf p' rest' d' hp hrest
  cases d' with
  | returnStmt returnWord' expression' stop' =>
    cases hp
    cases hrest
    obtain ⟨-, heq, hexpression⟩ := h₁.same expression' h.tail (literal_not_mem stop (by decide))
      (literal_not_mem stop' (by decide)) rfl
    cases heq
    obtain rfl := eq_of_heq hexpression
    rfl
  | _ => cases hp

theorem exprStmt {whole : Derivation plainLeaf (.operation .logical value) ts (s :: rest)}
    {stop : s.literal = ";"} (h₁ : whole.Unique) : (Derivation.exprStmt whole stop).Unique := by
  intro h hf p' rest' d' hp hrest
  cases d' with
  | exprStmt whole' stop' =>
    cases hp
    cases hrest
    obtain ⟨-, heq, hwhole⟩ := h₁.same whole' h (literal_not_mem stop (by decide))
      (literal_not_mem stop' (by decide)) rfl
    cases heq
    obtain rfl := eq_of_heq hwhole
    rfl
  | _ => cases hp

theorem assign {receiver : Derivation plainLeaf (.operation .logical left) ts (q :: ts₁)}
    {equals : q.literal = "="}
    {source : Derivation plainLeaf (.operation .logical right) ts₁ (s :: rest)}
    {stop : s.literal = ";"} (h₁ : receiver.Unique) (h₂ : source.Unique) :
    (Derivation.assign receiver equals source stop).Unique := by
  intro h hf p' rest' d' hp hrest
  cases d' with
  | assign receiver' equals' source' stop' =>
    cases hp
    cases hrest
    obtain ⟨-, heq, hreceiver⟩ := h₁.same receiver' h (literal_not_mem equals (by decide))
      (literal_not_mem equals' (by decide)) rfl
    cases heq
    obtain ⟨-, heq, hsource⟩ := h₂.same source' (receiver.shaped h).tail
      (literal_not_mem stop (by decide)) (literal_not_mem stop' (by decide)) rfl
    cases heq
    obtain rfl := eq_of_heq hreceiver
    obtain rfl := eq_of_heq hsource
    rfl
  | _ => cases hp

end Statements

section Expressions

theorem operation {first : Derivation plainLeaf (.operand level left) ts mid}
    {more : Derivation plainLeaf (.operations level left tree) mid rest}
    (h₁ : first.Unique) (h₂ : more.Unique) : (Derivation.operation first more).Unique := by
  intro h hf p' rest' d' hp hrest
  cases d' with
  | operation first' more' =>
    cases hp
    cases hrest
    obtain ⟨heqp, rfl, heq⟩ := h₁.same first' h (avoids_of_operations more hf)
      (avoids_of_operations more' hf) rfl
    cases heqp
    obtain rfl := eq_of_heq heq
    cases h₂ (first.shaped h) hf more' rfl rfl
    rfl
  | _ => cases hp

theorem operandTighter {next : level.tighter? = some tighter}
    {inner : Derivation plainLeaf (.operation tighter tree) ts rest} (h₁ : inner.Unique) :
    (Derivation.operandTighter next inner).Unique := by
  intro h hf p' rest' d' hp hrest
  cases d' with
  | operandTighter next' inner' =>
    cases hp
    cases hrest
    obtain rfl := Option.some.inj (next'.symm.trans next)
    cases h₁ h (by simpa [Follows, operandContinuers, next] using hf) inner' rfl rfl
    rfl
  | operandTightest last' inner' =>
    cases hp
    exact absurd (last'.symm.trans next) (by simp)
  | _ => cases hp

theorem operandTightest {last : level.tighter? = none}
    {inner : Derivation plainLeaf (.secondary tree) ts rest} (h₁ : inner.Unique) :
    (Derivation.operandTightest last inner).Unique := by
  intro h hf p' rest' d' hp hrest
  cases d' with
  | operandTighter next' inner' =>
    cases hp
    exact absurd (next'.symm.trans last) (by simp)
  | operandTightest last' inner' =>
    cases hp
    cases hrest
    cases h₁ h (by simpa [Follows, operandContinuers, last] using hf) inner' rfl rfl
    rfl
  | _ => cases hp

theorem operationsNil :
    (Derivation.operationsNil : Derivation plainLeaf (.operations level left left) ts ts).Unique := by
  intro h hf p' rest' d' hp hrest
  cases d' with
  | operationsNil =>
    cases hp
    rfl
  | operationsCons operator' next' more' =>
    cases hrest
    exact (not_cons_suffix (more'.suffix.trans next'.suffix)).elim
  | _ => cases hp

theorem operationsCons {operator : o.literal ∈ level.operators}
    {next : Derivation plainLeaf (.operand level right) ts mid}
    {more : Derivation plainLeaf (.operations level (.binary o.literal left right none) tree) mid
      rest} (h₁ : next.Unique) (h₂ : more.Unique) :
    (Derivation.operationsCons operator next more).Unique := by
  intro h hf p' rest' d' hp hrest
  cases d' with
  | operationsNil =>
    cases hrest
    exact (not_cons_suffix (more.suffix.trans next.suffix)).elim
  | operationsCons operator' next' more' =>
    cases hp
    cases hrest
    obtain ⟨heqp, rfl, heq⟩ := h₁.same next' h.tail (avoids_of_operations more hf)
      (avoids_of_operations more' hf) rfl
    cases heqp
    obtain rfl := eq_of_heq heq
    cases h₂ (next.shaped h.tail) hf more' rfl rfl
    rfl
  | _ => cases hp

theorem secondary {first : Derivation plainLeaf (.primary node) ts mid}
    {more : Derivation plainLeaf (.members node tree) mid rest}
    (h₁ : first.Unique) (h₂ : more.Unique) : (Derivation.secondary first more).Unique := by
  intro h hf p' rest' d' hp hrest
  cases d' with
  | secondary first' more' =>
    cases hp
    cases hrest
    obtain ⟨heqp, rfl, heq⟩ := h₁.same first' h (avoids_of_members more hf)
      (avoids_of_members more' hf) rfl
    cases heqp
    obtain rfl := eq_of_heq heq
    cases h₂ (first.shaped h) hf more' rfl rfl
    rfl
  | _ => cases hp

theorem membersNil :
    (Derivation.membersNil : Derivation plainLeaf (.members node node) ts ts).Unique := by
  intro h hf p' rest' d' hp hrest
  cases d' with
  | membersNil =>
    cases hp
    rfl
  | membersAccess point' name' more' =>
    cases hrest
    exact (not_cons_suffix ((List.suffix_cons _ _).trans more'.suffix)).elim
  | membersCall point' name' opens' list' closes' more' =>
    cases hrest
    have hlist := more'.suffix.trans ((List.suffix_cons _ _).trans list'.suffix)
    have hname := (List.suffix_cons _ _).trans hlist
    exact (not_cons_suffix ((List.suffix_cons _ _).trans hname)).elim
  | _ => cases hp

theorem membersAccess {point : t.literal = "."} {name : n.kind = .identifier ∧ plainLeaf n}
    {more : Derivation plainLeaf (.members (.access node n.literal none none) tree) ts rest}
    (h₁ : more.Unique) : (Derivation.membersAccess point name more).Unique := by
  intro h hf p' rest' d' hp hrest
  cases d' with
  | membersNil =>
    cases hrest
    exact (not_cons_suffix ((List.suffix_cons _ _).trans more.suffix)).elim
  | membersAccess point' name' more' =>
    cases hp
    cases hrest
    cases h₁ h.tail.tail hf more' rfl rfl
    rfl
  | membersCall point' name' opens' list' closes' more' =>
    exact absurd opens' (fun heq => avoids_of_members more hf (by simp [heq]))
  | _ => cases hp

theorem membersCall {point : t.literal = "."} {name : n.kind = .identifier ∧ plainLeaf n}
    {opens : l.literal = "("} {list : Derivation plainLeaf (.arguments args) ts (r :: ts₁)}
    {closes : r.literal = ")"}
    {more : Derivation plainLeaf (.members (.call node n.literal args none none) tree) ts₁ rest}
    (h₁ : list.Unique) (h₂ : more.Unique) :
    (Derivation.membersCall point name opens list closes more).Unique := by
  intro h hf p' rest' d' hp hrest
  cases d' with
  | membersNil =>
    cases hrest
    have hlist := more.suffix.trans ((List.suffix_cons _ _).trans list.suffix)
    have hname := (List.suffix_cons _ _).trans hlist
    exact (not_cons_suffix ((List.suffix_cons _ _).trans hname)).elim
  | membersAccess point' name' more' =>
    cases hp
    cases hrest
    exact absurd opens (fun heq => avoids_of_members more' hf (by simp [heq]))
  | membersCall point' name' opens' list' closes' more' =>
    cases hp
    cases hrest
    have hl := h.tail.tail.tail
    obtain ⟨heqp, heq, hlist⟩ := h₁.same list' hl (literal_mem closes (by decide))
      (literal_mem closes' (by decide)) rfl
    cases heqp
    cases heq
    obtain rfl := eq_of_heq hlist
    cases h₂ (list.shaped hl).tail hf more' rfl rfl
    rfl
  | _ => cases hp

theorem group {opens : l.literal = "("}
    {expression : Derivation plainLeaf (.operation .logical value) ts (r :: rest)}
    {closes : r.literal = ")"} (h₁ : expression.Unique) :
    (Derivation.group opens expression closes).Unique := by
  intro h hf p' rest' d' hp hrest
  cases d' with
  | group opens' expression' closes' =>
    cases hp
    cases hrest
    obtain ⟨-, heq, hexpression⟩ := h₁.same expression' h.tail
      (literal_not_mem closes (by decide)) (literal_not_mem closes' (by decide)) rfl
    cases heq
    obtain rfl := eq_of_heq hexpression
    rfl
  | _ => cases hp

theorem call {name : n.kind = .identifier ∧ plainLeaf n} {opens : l.literal = "("}
    {list : Derivation plainLeaf (.arguments args) ts (r :: rest)} {closes : r.literal = ")"}
    (h₁ : list.Unique) : (Derivation.call name opens list closes).Unique := by
  intro h hf p' rest' d' hp hrest
  cases d' with
  | call name' opens' list' closes' =>
    cases hp
    cases hrest
    obtain ⟨-, heq, hlist⟩ := h₁.same list' h.tail.tail (literal_mem closes (by decide))
      (literal_mem closes' (by decide)) rfl
    cases heq
    obtain rfl := eq_of_heq hlist
    rfl
  | _ => cases hp

theorem argumentsSome {expression : Derivation plainLeaf (.operation .logical value) ts mid}
    {more : Derivation plainLeaf (.moreArguments others) mid rest}
    (h₁ : expression.Unique) (h₂ : more.Unique) :
    (Derivation.argumentsSome expression more).Unique := by
  intro h hf p' rest' d' hp hrest
  cases d' with
  | argumentsSome expression' more' =>
    cases hp
    cases hrest
    obtain ⟨-, rfl, heq⟩ := h₁.same expression' h (avoids_of_moreArguments more hf)
      (avoids_of_moreArguments more' hf) rfl
    obtain rfl := eq_of_heq heq
    cases h₂ (expression.shaped h) hf more' rfl rfl
    rfl
  | _ => cases hp

theorem moreArgumentsCons {comma : c.literal = ","}
    {expression : Derivation plainLeaf (.operation .logical value) ts mid}
    {more : Derivation plainLeaf (.moreArguments others) mid rest}
    (h₁ : expression.Unique) (h₂ : more.Unique) :
    (Derivation.moreArgumentsCons comma expression more).Unique := by
  intro h hf p' rest' d' hp hrest
  cases d' with
  | moreArgumentsCons comma' expression' more' =>
    cases hp
    cases hrest
    obtain ⟨-, rfl, heq⟩ := h₁.same expression' h.tail (avoids_of_moreArguments more hf)
      (avoids_of_moreArguments more' hf) rfl
    obtain rfl := eq_of_heq heq
    cases h₂ (expression.shaped h.tail) hf more' rfl rfl
    rfl
  | _ => cases hp

end Expressions

end Derivation.Unique

theorem Derivation.unique (d : Derivation plainLeaf p ts rest) : d.Unique := by
  induction d with
  | fieldsNil | methodsNil | constNone | constSome | typeNone | typeSome | parametersNone
  | moreParametersNil | statementsNil | headerNone | nilWord | trueWord | falseWord | integer
  | decimal | character | string | name | argumentsNone | moreArgumentsNil =>
    -- only one production has this tree
    intro h hf p' rest' d' hp hrest
    cases d' <;> first | rfl | cases hp
  | source _ _ ih₁ ih₂ => exact .source ih₁ ih₂
  | fieldsCons _ _ _ _ _ _ _ ih₁ ih₂ ih₃ ih₄ => exact .fieldsCons ih₁ ih₂ ih₃ ih₄
  | methodsCons _ _ _ _ _ _ _ _ _ _ ih₁ ih₂ ih₃ ih₄ => exact .methodsCons ih₁ ih₂ ih₃ ih₄
  | initialNone => exact .initialNone
  | initialSome _ _ ih => exact .initialSome ih
  | parametersSome _ _ _ ih₁ ih₂ => exact .parametersSome ih₁ ih₂
  | moreParametersCons _ _ _ _ ih₁ ih₂ => exact .moreParametersCons ih₁ ih₂
  | statementsCons _ _ ih₁ ih₂ => exact .statementsCons ih₁ ih₂
  | declaration _ _ _ _ _ ih₁ ih₂ => exact .declaration ih₁ ih₂
  | ifStmt _ _ _ _ _ _ ih₁ ih₂ ih₃ => exact .ifStmt ih₁ ih₂ ih₃
  | elseNone => exact .elseNone
  | elseSome _ _ ih => exact .elseSome ih
  | forStmt _ _ _ _ _ _ _ _ _ _ ih₁ ih₂ ih₃ ih₄ => exact .forStmt ih₁ ih₂ ih₃ ih₄
  | headerSome _ _ _ ih => exact .headerSome ih
  | whileStmt _ _ _ _ _ ih₁ ih₂ => exact .whileStmt ih₁ ih₂
  | returnStmt _ _ _ ih => exact .returnStmt ih
  | exprStmt _ _ ih => exact .exprStmt ih
  | assign _ _ _ _ ih₁ ih₂ => exact .assign ih₁ ih₂
  | operation _ _ ih₁ ih₂ => exact .operation ih₁ ih₂
  | operandTighter _ _ ih => exact .operandTighter ih
  | operandTightest _ _ ih => exact .operandTightest ih
  | operationsNil => exact .operationsNil
  | operationsCons _ _ _ ih₁ ih₂ => exact .operationsCons ih₁ ih₂
  | secondary _ _ ih₁ ih₂ => exact .secondary ih₁ ih₂
  | membersNil => exact .membersNil
  | membersAccess _ _ _ ih => exact .membersAccess ih
  | membersCall _ _ _ _ _ _ ih₁ ih₂ => exact .membersCall ih₁ ih₂
  | group _ _ _ ih => exact .group ih
  | call _ _ _ _ ih => exact .call ih
  | argumentsSome _ _ ih₁ ih₂ => exact .argumentsSome ih₁ ih₂
  | moreArgumentsCons _ _ _ ih₁ ih₂ => exact .moreArgumentsCons ih₁ ih₂

/-- Two derivations of one phrase from the same tokens are the same. -/
theorem Derivation.only (d : Derivation plainLeaf p ts rest) (h : AllShaped ts)
    (hf : Follows p rest) : d.Only :=
  d.unique h hf

end BlockScript.Grammar
