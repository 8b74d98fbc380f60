import BlockScript.Proofs.Tree.Bare
import BlockScript.Proofs.Tree.Expressions
/-!
# The names that a program gives

What a program that has been read calls its fields, methods, parameters and variables are names.
-/
namespace BlockScript

namespace Node

mutual

/-- Emptying the slots of a tree empties those of its nodes. -/
theorem preorder_bare (node : Node) : node.bare.preorder = node.preorder.map bare := by
  match node with
  | absent => rfl
  | source fields methods =>
    simp only [bare, preorder, preorderAll_bareAll, List.map_cons, List.map_append]
  | field _ _ _ value _ | declaration _ _ value _ =>
    simp only [bare, preorder, preorder_bare value, List.map_cons]
  | method _ _ _ _ statements _ => simp only [bare, preorder, preorderAll_bareAll, List.map_cons]
  | exprStmt inner | returnStmt inner | group inner _ | access inner _ _ _ =>
    simp only [bare, preorder, preorder_bare inner, List.map_cons]
  | assign left right | binary _ left right _ =>
    simp only [bare, preorder, preorder_bare left, preorder_bare right, List.map_cons,
      List.map_append]
  | ifStmt condition thens elses =>
    simp only [bare, preorder, preorder_bare condition, preorderAll_bareAll, List.map_cons,
      List.map_append]
  | forStmt initialization condition increment statements =>
    simp only [bare, preorder, preorder_bare initialization, preorder_bare condition,
      preorder_bare increment, preorderAll_bareAll, List.map_cons, List.map_append]
  | whileStmt condition statements =>
    simp only [bare, preorder, preorder_bare condition, preorderAll_bareAll, List.map_cons,
      List.map_append]
  | literal _ _ => rfl
  | call receiver _ arguments _ _ =>
    simp only [bare, preorder, preorder_bare receiver, preorderAll_bareAll, List.map_cons,
      List.map_append]

theorem preorderAll_bareAll (nodes : List Node) :
    preorderAll (bareAll nodes) = (preorderAll nodes).map bare := by
  match nodes with
  | [] => rfl
  | node :: rest =>
    simp only [bareAll, preorderAll, preorder_bare node, preorderAll_bareAll rest, List.map_append]

end

/-- What the node gives a name to has one. -/
def Spelled : Node → Prop
  | field name .. | declaration name .. => IsName name
  | method name parameters .. => IsName name ∧ ∀ parameter ∈ parameters, IsName parameter
  | _ => True

theorem spelled_bare (node : Node) : node.bare.Spelled ↔ node.Spelled := by
  cases node <;> rfl

/-- The names in trees that differ in nothing but their slots are the same. -/
theorem forall_spelled_of_bare {tree tree' : Node} (h : tree'.bare = tree.bare)
    (hspelled : ∀ node ∈ tree.preorder, node.Spelled) : ∀ node ∈ tree'.preorder, node.Spelled := by
  intro node hmem
  have hbare : node.bare ∈ tree.preorder.map bare := by
    rw [← preorder_bare, ← h, preorder_bare]
    exact List.mem_map_of_mem hmem
  obtain ⟨node', hmem', heq⟩ := List.mem_map.mp hbare
  rw [← spelled_bare, ← heq, spelled_bare]
  exact hspelled node' hmem'

end Node

section Written

variable {node : Node}

theorem WrittenOperand.spelled {limit : Nat} (h : WrittenOperand limit node) :
    ∀ n ∈ node.preorder, n.Spelled := by
  induction h with
  | literal plain => simp [Node.preorder, Node.Spelled]
  | group inside ih => exact List.forall_mem_cons.mpr ⟨trivial, ih⟩
  | binary known reach first second ih₁ ih₂ =>
    exact List.forall_mem_cons.mpr ⟨trivial, List.forall_mem_append.mpr ⟨ih₁, ih₂⟩⟩
  | access spelled => simp [Node.preorder, Node.Spelled]
  | member object spelled ih => exact List.forall_mem_cons.mpr ⟨trivial, ih⟩
  | call spelled passed ih =>
    exact List.forall_mem_cons.mpr ⟨trivial, forall_mem_preorderAll.mpr ih⟩
  | methodCall object spelled passed ih₁ ih₂ =>
    exact List.forall_mem_cons.mpr
      ⟨trivial, List.forall_mem_append.mpr ⟨ih₁, forall_mem_preorderAll.mpr ih₂⟩⟩

end Written

namespace Grammar

def Phrase.Spelled : Phrase → Prop
  | .source tree | .initialValue tree | .statement tree | .header tree =>
    ∀ node ∈ tree.preorder, node.Spelled
  | .fields trees | .methods trees | .statements trees | .elseBranch trees =>
    ∀ tree ∈ trees, ∀ node ∈ tree.preorder, node.Spelled
  | .parameters ps | .moreParameters ps => ∀ p ∈ ps, IsName p.1
  | _ => True

variable {leaf : Token → Prop} {p : Phrase} {ts rest : List Token}

theorem Derivation.spelled (d : Derivation leaf p ts rest) (h : AllReadable ts) : p.Spelled := by
  induction d with
  | source fields methods ih₁ ih₂ =>
    refine List.forall_mem_cons.mpr ⟨trivial, List.forall_mem_append.mpr ?_⟩
    exact ⟨forall_mem_preorderAll.mpr (ih₁ h), forall_mem_preorderAll.mpr (ih₂ (h.after fields))⟩
  | fieldsCons letWord mark name clause initial stop more ih₁ ih₂ ih₃ ih₄ =>
    have h₀ := h.tail.after mark
    have h₂ := h₀.tail.after clause
    refine List.forall_mem_cons.mpr ⟨?_, ih₄ (h₂.after initial).tail⟩
    exact List.forall_mem_cons.mpr ⟨isName_of_shaped h₀ name.1, ih₃ h₂⟩
  | methodsCons defWord name opens params closes clause doWord statements endWord more ih₁ ih₂ ih₃
      ih₄ =>
    have h₁ := (h.tail.tail.tail.after params).tail
    have h₂ := (h₁.after clause).tail
    refine List.forall_mem_cons.mpr ⟨?_, ih₄ (h₂.after statements).tail⟩
    refine List.forall_mem_cons.mpr ⟨⟨isName_of_shaped h.tail name.1, ?_⟩,
      forall_mem_preorderAll.mpr (ih₃ h₂)⟩
    exact List.forall_mem_map.mpr (ih₁ h.tail.tail.tail)
  | initialNone => exact nofun
  | initialSome equals expression ih => exact (expression.written h.tail).spelled
  | parametersSome name clause more ih₁ ih₂ =>
    exact List.forall_mem_cons.mpr
      ⟨isName_of_shaped h name.1, ih₂ (h.tail.after clause)⟩
  | moreParametersCons comma name clause more ih₁ ih₂ =>
    exact List.forall_mem_cons.mpr
      ⟨isName_of_shaped h.tail name.1, ih₂ (h.tail.tail.after clause)⟩
  | statementsCons head more ih₁ ih₂ =>
    exact List.forall_mem_cons.mpr ⟨ih₁ h, ih₂ (h.after head)⟩
  | declaration letWord name clause initial stop ih₁ ih₂ =>
    exact List.forall_mem_cons.mpr
      ⟨isName_of_shaped h.tail name.1, ih₂ (h.tail.tail.after clause)⟩
  | ifStmt ifWord test doWord first second endWord ih₁ ih₂ ih₃ =>
    have h₁ := (h.tail.after test).tail
    refine List.forall_mem_cons.mpr ⟨trivial, List.forall_mem_append.mpr
      ⟨List.forall_mem_append.mpr ⟨(test.written h.tail).spelled, ?_⟩, ?_⟩⟩
    · exact forall_mem_preorderAll.mpr (ih₂ h₁)
    · exact forall_mem_preorderAll.mpr (ih₃ (h₁.after first))
  | elseSome elseWord statements ih => exact ih h.tail
  | forStmt forWord opens before stop₁ test stop₂ after closes statements endWord ih₁ ih₂ ih₃ ih₄ =>
    have h₁ := (h.tail.tail.after before).tail
    have h₂ := (h₁.after test).tail
    refine List.forall_mem_cons.mpr ⟨trivial, List.forall_mem_append.mpr ⟨?_, ?_⟩⟩
    · refine List.forall_mem_append.mpr ⟨List.forall_mem_append.mpr ⟨ih₁ h.tail.tail, ?_⟩, ih₃ h₂⟩
      exact (test.written h₁).spelled
    · exact forall_mem_preorderAll.mpr (ih₄ (h₂.after after).tail)
  | headerNone => exact nofun
  | headerSome name equals expression ih =>
    exact List.forall_mem_cons.mpr ⟨trivial, List.forall_mem_cons.mpr
      ⟨trivial, (expression.written h.tail.tail).spelled⟩⟩
  | whileStmt whileWord test doWord statements endWord ih₁ ih₂ =>
    refine List.forall_mem_cons.mpr ⟨trivial, List.forall_mem_append.mpr
      ⟨(test.written h.tail).spelled, ?_⟩⟩
    exact forall_mem_preorderAll.mpr (ih₂ (h.tail.after test).tail)
  | returnStmt returnWord expression stop ih =>
    exact List.forall_mem_cons.mpr ⟨trivial, (expression.written h.tail).spelled⟩
  | exprStmt whole stop ih =>
    exact List.forall_mem_cons.mpr ⟨trivial, (whole.written h).spelled⟩
  | assign left equals right stop ih₁ ih₂ =>
    exact List.forall_mem_cons.mpr ⟨trivial, List.forall_mem_append.mpr
      ⟨(left.written h).spelled, (right.written (h.after left).tail).spelled⟩⟩
  | fieldsNil | methodsNil | statementsNil | elseNone | parametersNone | moreParametersNil =>
    exact fun _ hmem => absurd hmem List.not_mem_nil
  | _ => trivial

/-- In a tree that is read from a text names are given only to what can have them. -/
theorem spelled_of_readProgram {text : String} {tree : Node} (h : readProgram text = .ok tree) :
    ∀ node ∈ tree.preorder, node.Spelled := by
  obtain ⟨ts, hreadable, ⟨d⟩⟩ := derives_readable h
  exact d.spelled hreadable

end Grammar

end BlockScript
