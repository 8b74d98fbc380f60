import BlockScript.Proofs.Grammar.Basic
import BlockScript.Proofs.Token.Splice
/-!
# Signs stand behind operands

The grammar has signs between operands only, and every operand ends with a name, a literal or a
closing parenthesis. So in what it derives, such a token stands directly before each sign that is
not part of a number.
-/
namespace BlockScript.Grammar

open Rule (Level)

/-- There is a token and an operand of the grammar can end with it, as a name also if it is spelled
like a keyword. -/
def EndsTerm (last : Option Token) : Prop :=
  ∃ t ∈ last, t.kind ≠ .operator ∨ t.literal ∈ [")", "NIL", "TRUE", "FALSE"]

/-- Behind the token `last`, an operand can end before each sign. -/
def SignsBehind : Option Token → List Token → Prop
  | _, [] => True
  | last, t :: ts => (t.isSign = true → EndsTerm last) ∧ SignsBehind (some t) ts

theorem SignsBehind.before {last : Option Token} {before after : List Token} {sign : Token}
    (h : SignsBehind last (before ++ sign :: after)) (hsign : sign.isSign = true) :
    EndsTerm (lastOf last before) := by
  induction before generalizing last with
  | nil => exact h.1 hsign
  | cons t before ih =>
    rw [lastOf_cons]
    exact ih h.2

def Phrase.continues : Phrase → Prop
  | .operations .. | .members .. => True
  | _ => False

def Phrase.isTerm : Phrase → Prop
  | .operation .. | .operand .. | .operations .. | .secondary .. | .members .. | .primary .. => True
  | _ => False

variable {leaf : Token → Prop} {p : Phrase} {t : Token} {ts rest : List Token} {last : Option Token}

theorem SignsBehind.cons_of_literal {text : String} (ht : t.literal = text)
    (hsign : text ∉ ["+", "-"]) (h : SignsBehind (some t) ts) : SignsBehind last (t :: ts) := by
  refine ⟨fun hs => ?_, h⟩
  obtain ⟨-, hs | hs⟩ := Token.isSign_iff.mp hs <;> simp [← ht, hs] at hsign

theorem SignsBehind.cons_of_kind {kind : TokenKind} (ht : t.kind = kind) (hkind : kind ≠ .operator)
    (h : SignsBehind (some t) ts) : SignsBehind last (t :: ts) := by
  refine ⟨fun hs => ?_, h⟩
  rw [(Token.isSign_iff.mp hs).1] at ht
  exact absurd ht.symm hkind

theorem endsTerm_of_literal {text : String} (ht : t.literal = text)
    (htext : text ∈ [")", "NIL", "TRUE", "FALSE"]) : EndsTerm (some t) :=
  ⟨t, rfl, .inr (ht ▸ htext)⟩

theorem endsTerm_of_kind {kind : TokenKind} (ht : t.kind = kind) (hkind : kind ≠ .operator) :
    EndsTerm (some t) :=
  ⟨t, rfl, .inl (ht ▸ hkind)⟩

/-- If the signs behind a derived phrase stand behind operands, so do those in it. -/
theorem Derivation.signsBehind (d : Derivation leaf p ts rest) (last : Option Token)
    (hlast : p.continues → EndsTerm last)
    (hrest : ∀ last', (p.isTerm → EndsTerm last') → SignsBehind last' rest) :
    SignsBehind last ts := by
  -- `last` is the token before the phrase. Only what continues a term has to know that one ends there.
  induction d generalizing last with
  | source fields methods ih₁ ih₂ => exact ih₁ _ nofun fun _ _ => ih₂ _ nofun hrest
  | fieldsCons letWord mark name clause initial stop more ih₁ ih₂ ih₃ ih₄ =>
    refine .cons_of_literal letWord (by decide) (ih₁ _ nofun fun _ _ => ?_)
    refine .cons_of_kind name.1 (by decide) (ih₂ _ nofun fun _ _ => ih₃ _ nofun fun _ _ => ?_)
    exact .cons_of_literal stop (by decide) (ih₄ _ nofun hrest)
  | methodsCons defWord name opens params closes clause doWord statements endWord more ih₁ ih₂ ih₃ ih₄ =>
    refine .cons_of_literal defWord (by decide) (.cons_of_kind name.1 (by decide) ?_)
    refine .cons_of_literal opens (by decide) (ih₁ _ nofun fun _ _ => ?_)
    refine .cons_of_literal closes (by decide) (ih₂ _ nofun fun _ _ => ?_)
    refine .cons_of_literal doWord (by decide) (ih₃ _ nofun fun _ _ => ?_)
    exact .cons_of_literal endWord (by decide) (ih₄ _ nofun hrest)
  | constSome word => exact .cons_of_literal word (by decide) (hrest _ nofun)
  | typeSome colon name =>
    exact .cons_of_literal colon (by decide) (.cons_of_kind name.1 (by decide) (hrest _ nofun))
  | initialSome equals expression ih =>
    exact .cons_of_literal equals (by decide) (ih _ nofun fun _ _ => hrest _ nofun)
  | parametersSome name clause more ih₁ ih₂ =>
    exact .cons_of_kind name.1 (by decide) (ih₁ _ nofun fun _ _ => ih₂ _ nofun hrest)
  | moreParametersCons comma name clause more ih₁ ih₂ =>
    refine .cons_of_literal comma (by decide) (.cons_of_kind name.1 (by decide) ?_)
    exact ih₁ _ nofun fun _ _ => ih₂ _ nofun hrest
  | statementsCons head more ih₁ ih₂ => exact ih₁ _ nofun fun _ _ => ih₂ _ nofun hrest
  | declaration letWord name clause initial stop ih₁ ih₂ =>
    refine .cons_of_literal letWord (by decide) (.cons_of_kind name.1 (by decide) ?_)
    refine ih₁ _ nofun fun _ _ => ih₂ _ nofun fun _ _ => ?_
    exact .cons_of_literal stop (by decide) (hrest _ nofun)
  | ifStmt ifWord test doWord first second endWord ih₁ ih₂ ih₃ =>
    refine .cons_of_literal ifWord (by decide) (ih₁ _ nofun fun _ _ => ?_)
    refine .cons_of_literal doWord (by decide) (ih₂ _ nofun fun _ _ => ih₃ _ nofun fun _ _ => ?_)
    exact .cons_of_literal endWord (by decide) (hrest _ nofun)
  | elseSome elseWord statements ih =>
    exact .cons_of_literal elseWord (by decide) (ih _ nofun hrest)
  | forStmt forWord opens before stop₁ test stop₂ after closes statements endWord ih₁ ih₂ ih₃ ih₄ =>
    refine .cons_of_literal forWord (by decide) (.cons_of_literal opens (by decide) ?_)
    refine ih₁ _ nofun fun _ _ => .cons_of_literal stop₁ (by decide) ?_
    refine ih₂ _ nofun fun _ _ => .cons_of_literal stop₂ (by decide) ?_
    refine ih₃ _ nofun fun _ _ => .cons_of_literal closes (by decide) ?_
    exact ih₄ _ nofun fun _ _ => .cons_of_literal endWord (by decide) (hrest _ nofun)
  | headerSome name equals expression ih =>
    refine .cons_of_kind name.1 (by decide) (.cons_of_literal equals (by decide) ?_)
    exact ih _ nofun fun _ _ => hrest _ nofun
  | whileStmt whileWord test doWord statements endWord ih₁ ih₂ =>
    refine .cons_of_literal whileWord (by decide) (ih₁ _ nofun fun _ _ => ?_)
    refine .cons_of_literal doWord (by decide) (ih₂ _ nofun fun _ _ => ?_)
    exact .cons_of_literal endWord (by decide) (hrest _ nofun)
  | returnStmt returnWord expression stop ih =>
    refine .cons_of_literal returnWord (by decide) (ih _ nofun fun _ _ => ?_)
    exact .cons_of_literal stop (by decide) (hrest _ nofun)
  | exprStmt whole stop ih =>
    exact ih _ nofun fun _ _ => .cons_of_literal stop (by decide) (hrest _ nofun)
  | assign left equals right stop ih₁ ih₂ =>
    refine ih₁ _ nofun fun _ _ => .cons_of_literal equals (by decide) ?_
    exact ih₂ _ nofun fun _ _ => .cons_of_literal stop (by decide) (hrest _ nofun)
  | operation first more ih₁ ih₂ => exact ih₁ _ nofun fun _ h => ih₂ _ h hrest
  | operandTighter next inner ih => exact ih _ nofun hrest
  | operandTightest tightest inner ih => exact ih _ nofun hrest
  | operationsNil => exact hrest _ hlast
  | operationsCons operator next more ih₁ ih₂ =>
    exact ⟨fun _ => hlast trivial, ih₁ _ nofun fun _ h => ih₂ _ h hrest⟩
  | secondary first more ih₁ ih₂ => exact ih₁ _ nofun fun _ h => ih₂ _ h hrest
  | membersNil => exact hrest _ hlast
  | membersAccess point name more ih =>
    refine .cons_of_literal point (by decide) (.cons_of_kind name.1 (by decide) ?_)
    exact ih _ (fun _ => endsTerm_of_kind name.1 (by decide)) hrest
  | membersCall point name opens list closes more ih₁ ih₂ =>
    refine .cons_of_literal point (by decide) (.cons_of_kind name.1 (by decide) ?_)
    refine .cons_of_literal opens (by decide) (ih₁ _ nofun fun _ _ => ?_)
    refine .cons_of_literal closes (by decide) ?_
    exact ih₂ _ (fun _ => endsTerm_of_literal closes (by decide)) hrest
  | nilWord word | trueWord word | falseWord word =>
    refine .cons_of_literal word (by decide) (hrest _ fun _ => ?_)
    exact endsTerm_of_literal word (by decide)
  | integer leaf | decimal leaf | character leaf | string leaf | name leaf =>
    exact .cons_of_kind leaf.1 (by decide) (hrest _ fun _ => endsTerm_of_kind leaf.1 (by decide))
  | group opens expression closes ih =>
    refine .cons_of_literal opens (by decide) (ih _ nofun fun _ _ => ?_)
    refine .cons_of_literal closes (by decide) (hrest _ fun _ => ?_)
    exact endsTerm_of_literal closes (by decide)
  | call name opens list closes ih =>
    refine .cons_of_kind name.1 (by decide) (.cons_of_literal opens (by decide) ?_)
    refine ih _ nofun fun _ _ => .cons_of_literal closes (by decide) (hrest _ fun _ => ?_)
    exact endsTerm_of_literal closes (by decide)
  | argumentsSome expression more ih₁ ih₂ => exact ih₁ _ nofun fun _ _ => ih₂ _ nofun hrest
  | moreArgumentsCons comma expression more ih₁ ih₂ =>
    refine .cons_of_literal comma (by decide) (ih₁ _ nofun fun _ _ => ?_)
    exact ih₂ _ nofun hrest
  | _ => exact hrest _ nofun

/-- In a program, an operand can end before each sign. -/
theorem signsBehind_of_source {tree : Node} (d : Derivation leaf (.source tree) ts []) :
    SignsBehind none ts :=
  d.signsBehind none nofun fun _ _ => trivial

end BlockScript.Grammar
