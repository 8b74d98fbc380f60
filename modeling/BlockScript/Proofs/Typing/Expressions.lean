import BlockScript.Proofs.Ends
import BlockScript.Proofs.Tree.Written
import BlockScript.Proofs.Typing.Judgement
/-!
# Checked expressions are well typed

Where checking accepts an expression it fills the slots so that the expression is well typed, and
leaves the scopes alone; where it refuses one it says why. The types that it gives have no members,
so nothing is ever looked up in an object. Here the premises of each rule matter, and what has been
bound so far, of which a relation between two runs keeps nothing.
-/
namespace BlockScript

open Check

/-- If checking succeeds from `c`, then `Q` holds of the result and the checker after it. Otherwise
the program is refused. -/
def Gives {α : Type} (x : Check α) (c : Checker) (Q : α → Checker → Prop) : Prop :=
  Ends x c Q fun fault _ => ∃ cause, fault = .typing cause

section Steps

variable {α β : Type} {c : Checker} {Q Q' : α → Checker → Prop} {R : β → Checker → Prop}

theorem Gives.bind {x : Check α} {f : α → Check β} (h : Gives x c Q)
    (hf : ∀ a c', Q a c' → Gives (f a) c' R) : Gives (x >>= f) c R :=
  ends_bind.mpr (Ends.imp h hf fun _ _ => id)

theorem Gives.imp {x : Check α} (h : Gives x c Q) (hQ : ∀ a c', Q a c' → Q' a c') : Gives x c Q' :=
  Ends.imp h hQ fun _ _ => id

theorem gives_pure {a : α} (h : Q a c) : Gives (pure a) c Q := h

theorem gives_fail {fault : TypeFault} : Gives (fail fault) c Q := ⟨fault, rfl⟩

theorem gives_lift (r : Except TypeFault α) : Gives (lift r) c fun a c' => r = .ok a ∧ c' = c := by
  cases r with
  | ok a => exact ⟨rfl, rfl⟩
  | error fault => exact gives_fail

theorem gives_note (least : Nat) (line : String) :
    Gives (note least line) c fun _ c' => c'.scopes = c.scopes := by
  show (if least ≤ c.level then { c with console := c.console.note .checking line } else c).scopes =
    c.scopes
  split <;> rfl

theorem gives_newFrame (parent : Option FrameId) :
    Gives (newFrame parent) c fun id c' =>
      id = c.scopes.next ∧ c'.scopes = c.scopes.addFrame parent :=
  ⟨rfl, rfl⟩

theorem gives_defineVariable (v : StaticVariable) :
    Gives (defineVariable v) c fun _ c' => c.scopes.bindsVariable v.home v.name = false ∧
      c'.scopes = c.scopes.addVariable v.home v.name v := by
  unfold defineVariable
  refine Gives.bind (Q := fun a c' => a = c ∧ c' = c) ⟨rfl, rfl⟩ ?_
  rintro a c' ⟨rfl, rfl⟩
  split
  · exact gives_fail
  · next h => exact ⟨by simpa using h, rfl⟩

theorem gives_defineFunction (scope : FrameId) (f : StaticFunction) :
    Gives (defineFunction scope f) c fun _ c' => c.scopes.bindsFunction scope f.signature = false ∧
      c'.scopes = c.scopes.addFunction scope f.signature f := by
  unfold defineFunction
  refine Gives.bind (Q := fun a c' => a = c ∧ c' = c) ⟨rfl, rfl⟩ ?_
  rintro a c' ⟨rfl, rfl⟩
  split
  · exact gives_fail
  · next h => exact ⟨by simpa using h, rfl⟩

theorem gives_findVariable (scope : Option FrameId) (name : String) :
    Gives (findVariable scope name) c fun v c' => c' = c ∧
      ∃ id, scope = some id ∧ (c.scopes.findVariable? id name).map Prod.snd = some v := by
  unfold findVariable
  refine Gives.bind (Q := fun a c' => a = c ∧ c' = c) ⟨rfl, rfl⟩ ?_
  rintro a c' ⟨rfl, rfl⟩
  split
  · next home v h =>
    obtain ⟨id, rfl, hfound⟩ := Option.bind_eq_some_iff.mp h
    exact ⟨rfl, id, rfl, by rw [hfound]; rfl⟩
  · exact gives_fail

theorem gives_findFunction (scope : Option FrameId) (signature : Signature) :
    Gives (findFunction scope signature) c fun f c' => c' = c ∧
      ∃ id, scope = some id ∧ (c.scopes.findFunction? id signature).map Prod.snd = some f := by
  unfold findFunction
  refine Gives.bind (Q := fun a c' => a = c ∧ c' = c) ⟨rfl, rfl⟩ ?_
  rintro a c' ⟨rfl, rfl⟩
  split
  · next home f h =>
    obtain ⟨id, rfl, hfound⟩ := Option.bind_eq_some_iff.mp h
    exact ⟨rfl, id, rfl, by rw [hfound]; rfl⟩
  · exact gives_fail

theorem accepts_of_requireAccepts {target source : StaticType}
    (h : requireAccepts target source = .ok ()) : target.accepts source = true := by
  unfold requireAccepts at h
  split at h
  · next ha => exact ha
  · cases h

theorem gives_requireArguments (ps as : List StaticType) :
    Gives (requireArguments ps as) c fun _ c' => c' = c ∧
      ∀ pair ∈ ps.zip as, pair.1.accepts pair.2 = true := by
  induction ps generalizing as with
  | nil => exact ⟨rfl, by simp⟩
  | cons p ps ih =>
    cases as with
    | nil => exact ⟨rfl, by simp⟩
    | cons a as =>
      refine (gives_lift (requireAccepts p a)).bind ?_
      rintro ⟨⟩ c' ⟨ha, rfl⟩
      refine (ih as).imp ?_
      rintro ⟨⟩ c'' ⟨rfl, hall⟩
      refine ⟨rfl, ?_⟩
      simp only [List.zip_cons_cons, List.mem_cons, forall_eq_or_imp]
      exact ⟨accepts_of_requireAccepts ha, hall⟩

end Steps

/-- The types of variables and functions have no members, and variables are bound at home under
their name, which they keep in Java. So do functions, but for printing. -/
def Proper (s : Scopes StaticVariable StaticFunction) : Prop :=
  s.All (fun i name v => v.home = i ∧ v.name = name ∧ v.type.Memberless ∧ v.javaName = name)
    fun signature f => f.returnType.Memberless ∧ (∀ t ∈ f.parameterTypes, t.Memberless) ∧
      (f = .print ∨ f.javaName = signature.name)

namespace Proper

variable {s : Scopes StaticVariable StaticFunction}

theorem addFrame (h : Proper s) (parent : Option FrameId) : Proper (s.addFrame parent) :=
  Scopes.All.addFrame h parent

theorem addVariable (h : Proper s) {v : StaticVariable} (ht : v.type.Memberless)
    (hspelled : v.javaName = v.name) : Proper (s.addVariable v.home v.name v) :=
  Scopes.All.addVariable h ⟨rfl, rfl, ht, hspelled⟩

theorem addFunction (h : Proper s) (scope : FrameId) {f : StaticFunction}
    (hr : f.returnType.Memberless) (hps : ∀ t ∈ f.parameterTypes, t.Memberless)
    (hspelled : f = .print ∨ f.javaName = f.name) :
    Proper (s.addFunction scope f.signature f) :=
  Scopes.All.addFunction h scope ⟨hr, hps, hspelled⟩

end Proper

/-- A literal that a program can write is refused for its size if at all. -/
theorem typing_of_staticType {value : Literal} (hp : value.Plain) {fault : Fault}
    (h : value.staticType = .error fault) : ∃ cause, fault = .typing cause := by
  cases value with
  | integer n =>
    simp only [Literal.staticType] at h
    split at h
    · cases h
    split at h
    · next hnone =>
      have hbound : ¬Text.digitBound ≤ n.natAbs := Nat.not_le_of_lt hp
      simp [Text.numeral?, hbound] at hnone
    · cases h
      exact ⟨_, rfl⟩
  | decimal d =>
    simp only [Literal.staticType] at h
    obtain ⟨s, c, e, rfl, -⟩ := hp
    split at h
    · contradiction
    split at h
    · cases h
    · cases h
      exact ⟨_, rfl⟩
  | raw j => exact hp.elim
  | _ => cases h

variable {Γ : StaticView} {scope : FrameId}

mutual

theorem checkExpression_sound {c : Checker} (hp : Proper c.scopes) (hs : c.scopes.Sees scope Γ)
    {node : Node} (hw : WrittenExpression node) :
    Gives (checkExpression scope node) c fun result c' =>
      c'.scopes = c.scopes ∧ HasType Γ result.1 result.2 ∧ result.2.Memberless := by
  match node, hw with
  | .literal value type, .literal plain =>
    rw [checkExpression]
    split
    · next t ht =>
      refine (gives_note _ _).bind fun _ c' hc' => ?_
      exact ⟨hc', .literal plain ht, memberless_of_staticType ht⟩
    · next fault hfault => exact typing_of_staticType plain hfault
  | .group inner type, .group inside =>
    rw [checkExpression]
    refine (checkExpression_sound hp hs inside).bind ?_
    rintro ⟨inner, t⟩ c' ⟨hc', ht, hm⟩
    refine (gives_note _ _).bind fun _ c'' hc'' => ?_
    exact ⟨hc''.trans hc', .group ht, hm⟩
  | .binary operator left right type, .binary known reach first second =>
    rw [checkExpression]
    refine (checkExpression_sound hp hs first.expression).bind ?_
    rintro ⟨left, l⟩ c₁ ⟨h₁, hl, hml⟩
    have hp₁ : Proper c₁.scopes := by rwa [h₁]
    have hs₁ : c₁.scopes.Sees scope Γ := by rwa [h₁]
    refine (checkExpression_sound hp₁ hs₁ second.expression).bind ?_
    rintro ⟨right, r⟩ c₂ ⟨h₂, hr, -⟩
    refine (gives_lift _).bind ?_
    rintro t c₃ ⟨ht, rfl⟩
    refine (gives_note _ _).bind fun _ c₄ h₄ => ?_
    exact ⟨h₄.trans (h₂.trans h₁), .binary hl hr ht, holds_of_binaryType id hml ht⟩
  | .access .absent name type bound, .access spelled =>
    rw [checkExpression, if_pos (show Node.absent.isAbsent = true from rfl)]
    refine (gives_findVariable _ _).bind ?_
    rintro v c' ⟨rfl, id, hid, hfound⟩
    cases hid
    refine (gives_note _ _).bind fun _ c'' hc'' => ?_
    obtain ⟨⟨home, v⟩, hv, rfl⟩ := Option.map_eq_some_iff.mp hfound
    obtain ⟨-, -, hm, hjava⟩ := hp.of_findVariable? hv
    exact ⟨hc'', .access (by rw [← hs.findVariable?, hfound]) hjava, hm⟩
  | .access receiver name type bound, .member object spelled =>
    rw [checkExpression, if_neg (by simp [object.isAbsent])]
    refine (checkExpression_sound hp hs object.expression).bind ?_
    rintro ⟨receiver, t⟩ c' ⟨hc', ht, hm⟩
    refine (gives_findVariable _ _).bind ?_
    rintro v c'' ⟨-, id, hid, -⟩
    cases hm.symm.trans hid
  | .call .absent name arguments type callee, .call spelled passed =>
    rw [checkExpression]
    refine (checkExpressions_sound hp hs passed).bind ?_
    rintro ⟨arguments, types⟩ c₁ ⟨h₁, hargs⟩
    have hs₁ : c₁.scopes.Sees scope Γ := by rwa [h₁]
    dsimp only
    rw [if_pos (show Node.absent.isAbsent = true from rfl)]
    refine (gives_findFunction _ _).bind ?_
    rintro f c₂ ⟨rfl, id, hid, hfound⟩
    cases hid
    refine (gives_requireArguments _ _).bind ?_
    rintro ⟨⟩ c₃ ⟨rfl, haccepted⟩
    refine (gives_note _ _).bind fun _ c₄ h₄ => ?_
    have hp₁ : Proper c₃.scopes := by rwa [h₁]
    obtain ⟨⟨home, f⟩, hf, rfl⟩ := Option.map_eq_some_iff.mp hfound
    obtain ⟨hm, -, hjava⟩ := hp₁.of_findFunction? hf
    exact ⟨h₄.trans h₁, .call hargs (by rw [← hs₁.findFunction?, hfound]) haccepted hjava, hm⟩
  | .call receiver name arguments type callee, .methodCall object spelled passed =>
    rw [checkExpression]
    refine (checkExpressions_sound hp hs passed).bind ?_
    rintro ⟨arguments, types⟩ c₁ ⟨h₁, hargs⟩
    have hp₁ : Proper c₁.scopes := by rwa [h₁]
    have hs₁ : c₁.scopes.Sees scope Γ := by rwa [h₁]
    dsimp only
    rw [if_neg (by simp [object.isAbsent])]
    refine (checkExpression_sound hp₁ hs₁ object.expression).bind ?_
    rintro ⟨receiver, t⟩ c₂ ⟨h₂, ht, hm⟩
    refine (gives_findFunction _ _).bind ?_
    rintro f c₃ ⟨-, id, hid, -⟩
    cases hm.symm.trans hid

theorem checkExpressions_sound {c : Checker} (hp : Proper c.scopes) (hs : c.scopes.Sees scope Γ)
    {nodes : List Node} (hw : ∀ node ∈ nodes, WrittenExpression node) :
    Gives (checkExpressions scope nodes) c fun result c' =>
      c'.scopes = c.scopes ∧ HaveTypes Γ result.1 result.2 := by
  match nodes with
  | [] =>
    rw [checkExpressions]
    exact ⟨rfl, .nil⟩
  | node :: rest =>
    obtain ⟨hnode, hrest⟩ := List.forall_mem_cons.mp hw
    rw [checkExpressions]
    refine (checkExpression_sound hp hs hnode).bind ?_
    rintro ⟨node, t⟩ c₁ ⟨h₁, ht, -⟩
    have hp₁ : Proper c₁.scopes := by rwa [h₁]
    have hs₁ : c₁.scopes.Sees scope Γ := by rwa [h₁]
    refine (checkExpressions_sound hp₁ hs₁ hrest).bind ?_
    rintro ⟨rest, ts⟩ c₂ ⟨h₂, hts⟩
    exact ⟨h₂.trans h₁, .cons ht hts⟩

end

end BlockScript
