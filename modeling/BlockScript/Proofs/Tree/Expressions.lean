import BlockScript.Proofs.Tree.Written
/-!
# The expressions of a program

What holds of all expressions in a tree, and that those of a tree that has been read are written as
expressions are.
-/
namespace BlockScript

theorem forall_mem_preorderAll {P : Node → Prop} {nodes : List Node} :
    (∀ n ∈ Node.preorderAll nodes, P n) ↔ ∀ node ∈ nodes, ∀ n ∈ node.preorder, P n := by
  induction nodes with
  | nil => simp [Node.preorderAll]
  | cons node rest ih => simp [Node.preorderAll, or_imp, forall_and, ih]

def AllExpressions (P : Node → Prop) (nodes : List Node) : Prop :=
  ∀ node ∈ nodes, node.isExpression = true → P node

section AllExpressions

variable {P : Node → Prop} {node : Node} {nodes nodes' : List Node}

theorem allExpressions_nil : AllExpressions P [] := fun _ h => nomatch h

theorem allExpressions_cons (hnode : node.isExpression = true → P node)
    (h : AllExpressions P nodes) : AllExpressions P (node :: nodes) :=
  List.forall_mem_cons.mpr ⟨hnode, h⟩

theorem allExpressions_append (h : AllExpressions P nodes) (h' : AllExpressions P nodes') :
    AllExpressions P (nodes ++ nodes') :=
  List.forall_mem_append.mpr ⟨h, h'⟩

theorem allExpressions_preorderAll (h : ∀ node ∈ nodes, AllExpressions P node.preorder) :
    AllExpressions P (Node.preorderAll nodes) := by
  induction nodes with
  | nil => exact allExpressions_nil
  | cons node rest ih =>
    obtain ⟨hnode, hrest⟩ := List.forall_mem_cons.mp h
    exact allExpressions_append hnode (ih hrest)

end AllExpressions

section Written

variable {node : Node}

theorem WrittenOperand.expressions {limit : Nat} (h : WrittenOperand limit node) :
    AllExpressions WrittenExpression node.preorder := by
  induction h with
  | literal plain => exact allExpressions_cons (fun _ => .literal plain) allExpressions_nil
  | group inside ih => exact allExpressions_cons (fun _ => .group inside) ih
  | binary known reach first second ih₁ ih₂ =>
    exact allExpressions_cons (fun _ => (binary known reach first second).expression)
      (allExpressions_append ih₁ ih₂)
  | access spelled => exact allExpressions_cons (fun _ => .access spelled) allExpressions_nil
  | member object spelled ih => exact allExpressions_cons (fun _ => .member object spelled) ih
  | call spelled passed ih =>
    exact allExpressions_cons (fun _ => .call spelled passed) (allExpressions_preorderAll ih)
  | methodCall object spelled passed ih₁ ih₂ =>
    exact allExpressions_cons (fun _ => .methodCall object spelled passed)
      (allExpressions_append ih₁ (allExpressions_preorderAll ih₂))

theorem WrittenInitial.expressions (h : WrittenInitial node) :
    AllExpressions WrittenExpression node.preorder := by
  rcases h with rfl | h
  · exact allExpressions_nil
  · exact h.expressions

theorem WrittenHeader.expressions (h : WrittenHeader node) :
    AllExpressions WrittenExpression node.preorder := by
  cases h with
  | none => exact allExpressions_nil
  | some spelled assigned =>
    exact allExpressions_cons nofun
      (allExpressions_cons (fun _ => .access spelled) assigned.expressions)

theorem WrittenStatement.expressions (h : WrittenStatement node) :
    AllExpressions WrittenExpression node.preorder := by
  induction h with
  | exprStmt whole => exact allExpressions_cons nofun whole.expressions
  | declaration initial => exact allExpressions_cons nofun initial.expressions
  | assign left right =>
    exact allExpressions_cons nofun (allExpressions_append left.expressions right.expressions)
  | ifStmt test first second ih₁ ih₂ =>
    refine allExpressions_cons nofun (allExpressions_append ?_ (allExpressions_preorderAll ih₂))
    exact allExpressions_append test.expressions (allExpressions_preorderAll ih₁)
  | forStmt before test after body ih =>
    refine allExpressions_cons nofun (allExpressions_append ?_ (allExpressions_preorderAll ih))
    refine allExpressions_append ?_ after.expressions
    exact allExpressions_append before.expressions test.expressions
  | whileStmt test body ih =>
    exact allExpressions_cons nofun
      (allExpressions_append test.expressions (allExpressions_preorderAll ih))
  | returnStmt whole => exact allExpressions_cons nofun whole.expressions

theorem WrittenField.expressions (h : WrittenField node) :
    AllExpressions WrittenExpression node.preorder := by
  cases h with
  | field initial => exact allExpressions_cons nofun initial.expressions

theorem WrittenMethod.expressions (h : WrittenMethod node) :
    AllExpressions WrittenExpression node.preorder := by
  cases h with
  | method paired body =>
    exact allExpressions_cons nofun
      (allExpressions_preorderAll fun node hn => (body node hn).expressions)

theorem WrittenProgram.expressions (h : WrittenProgram node) :
    AllExpressions WrittenExpression node.preorder := by
  cases h with
  | source first second =>
    refine allExpressions_cons nofun (allExpressions_append ?_ ?_)
    · exact allExpressions_preorderAll fun node hn => (first node hn).expressions
    · exact allExpressions_preorderAll fun node hn => (second node hn).expressions

end Written

end BlockScript
