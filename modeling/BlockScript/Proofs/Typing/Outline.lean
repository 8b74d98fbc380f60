import BlockScript.Proofs.Tree.Outline
import BlockScript.Proofs.Typing.Alike
/-!
# Checking looks at no text

What stands between quotes has no part in checking. Trees that differ in nothing but their texts are
checked alike, and so do the checked trees differ.
-/
namespace BlockScript

theorem Literal.staticType_outline (value : Literal) :
    value.outline.staticType = value.staticType := by
  cases value <;> rfl

theorem readAlike_outline : ReadAlike Eq id Literal.outline :=
  ⟨fun _ => rfl, readAlike_id.binaryType, Literal.staticType_outline⟩

theorem maps_outline : Node.Maps id Literal.outline Node.outline := by
  constructor <;> simp [Node.outline, Node.outlineAll_eq_map]

section Programs

/-- Checking a tree with nothing between its quotes gives the checked tree with nothing between its
quotes. -/
theorem check_outline (c : Checker) (tree : Node) :
    c.check tree.outline = ((c.check tree).1.map Node.outline, (c.check tree).2) := by
  have hends := sameChecks_map readAlike_outline maps_outline c tree
  generalize c.check tree = e at hends ⊢
  generalize c.check tree.outline = e' at hends ⊢
  cases hends with
  | ok holds =>
    rw [holds]
    rfl
  | error same =>
    rw [← same]
    rfl

/-- A tree that differs from a checked one in nothing but its texts is checked in the same way. -/
theorem exists_check_of_outline {c c' : Checker} {tree tree' checked : Node}
    (h : c.check tree = (.ok checked, c')) (houtline : tree'.outline = tree.outline) :
    ∃ checked', c.check tree' = (.ok checked', c') ∧ checked'.outline = checked.outline := by
  have hsame := check_outline c tree'
  rw [houtline, check_outline, h] at hsame
  cases hrun : c.check tree' with
  | mk result c₁ =>
    rw [hrun] at hsame
    obtain ⟨hresult, rfl⟩ := Prod.mk.inj hsame
    cases result with
    | error fault => cases hresult
    | ok checked' => exact ⟨checked', rfl, (Except.ok.inj hresult).symm⟩

end Programs

end BlockScript
