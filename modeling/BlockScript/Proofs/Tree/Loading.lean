import BlockScript.Program
import BlockScript.Proofs.Tree.Expressions
import BlockScript.Proofs.Tree.Object
import Mathlib
/-!
# Programs loaded from JSON

A tree that has been read from a text has empty slots and literals of the language. So it comes back
unchanged from JSON, and checking and running the loaded tree is checking and running the text.
-/
namespace BlockScript

section Literals

variable {P : Literal → Prop}

theorem allLiterals_cons {node : Node} {nodes : List Node}
    (hnode : ∀ value type, node = .literal value type → P value) (h : AllLiterals P nodes) :
    AllLiterals P (node :: nodes) := by
  intro value type hmem
  rcases List.mem_cons.mp hmem with heq | hmem
  · exact hnode value type heq.symm
  · exact h value type hmem

theorem WrittenProgram.literals {node : Node} (h : WrittenProgram node) :
    AllLiterals Literal.Plain node.preorder := by
  intro value type hmem
  cases h.expressions _ hmem rfl with
  | literal plain => exact plain

theorem Literal.Plain.native {value : Literal} (h : value.Plain) : value.Native := by
  cases value <;> trivial

end Literals

namespace Grammar

def Phrase.Bare : Phrase → Prop
  | .source tree | .initialValue tree | .statement tree | .header tree => tree.Bare
  | .operation _ tree | .operand _ tree | .secondary tree | .primary tree => tree.Bare
  | .fields trees | .methods trees | .statements trees | .elseBranch trees => trees.map Node.bare = trees
  | .arguments trees | .moreArguments trees => trees.map Node.bare = trees
  | .operations _ left tree | .members left tree => left.Bare → tree.Bare
  | _ => True

/-- The slots of a tree are empty when it is derived. -/
theorem Derivation.bare {leaf : Token → Prop} {p : Phrase} {ts rest : List Token}
    (d : Derivation leaf p ts rest) : p.Bare := by
  induction d with
  | source fields methods ih₁ ih₂ =>
    show Node.bare _ = _
    rw [Node.bare, Node.bareAll_eq_map, Node.bareAll_eq_map, ih₁, ih₂]
  | fieldsCons letWord mark name clause initial stop more ih₁ ih₂ ih₃ ih₄ =>
    show List.map _ (_ :: _) = _
    rw [List.map_cons, Node.bare, ih₃, ih₄]
  | methodsCons defWord name opens params closes clause doWord statements endWord more ih₁ ih₂ ih₃
      ih₄ =>
    show List.map _ (_ :: _) = _
    rw [List.map_cons, Node.bare, Node.bareAll_eq_map, ih₃, ih₄]
  | initialSome equals expression ih => exact ih
  | statementsCons head more ih₁ ih₂ =>
    show List.map _ (_ :: _) = _
    rw [List.map_cons, ih₁, ih₂]
  | declaration letWord name clause initial stop ih₁ ih₂ =>
    show Node.bare _ = _
    rw [Node.bare, ih₂]
  | ifStmt ifWord test doWord first second endWord ih₁ ih₂ ih₃ =>
    show Node.bare _ = _
    rw [Node.bare, Node.bareAll_eq_map, Node.bareAll_eq_map, ih₁, ih₂, ih₃]
  | elseSome elseWord statements ih => exact ih
  | forStmt forWord opens before stop₁ test stop₂ after closes statements endWord ih₁ ih₂ ih₃ ih₄ =>
    show Node.bare _ = _
    rw [Node.bare, Node.bareAll_eq_map, ih₁, ih₂, ih₃, ih₄]
  | headerSome name equals expression ih =>
    show Node.bare _ = _
    rw [Node.bare, ih]
    rfl
  | whileStmt whileWord test doWord statements endWord ih₁ ih₂ =>
    show Node.bare _ = _
    rw [Node.bare, Node.bareAll_eq_map, ih₁, ih₂]
  | returnStmt returnWord expression stop ih =>
    show Node.bare _ = _
    rw [Node.bare, ih]
  | exprStmt whole stop ih =>
    show Node.bare _ = _
    rw [Node.bare, ih]
  | assign left equals right stop ih₁ ih₂ =>
    show Node.bare _ = _
    rw [Node.bare, ih₁, ih₂]
  | operation first more ih₁ ih₂ => exact ih₂ ih₁
  | operandTighter next inner ih => exact ih
  | operandTightest last inner ih => exact ih
  | operationsNil => exact id
  | operationsCons operator next more ih₁ ih₂ =>
    intro hleft
    refine ih₂ ?_
    show Node.bare _ = _
    rw [Node.bare, hleft, ih₁]
  | secondary first more ih₁ ih₂ => exact ih₂ ih₁
  | membersNil => exact id
  | membersAccess point name more ih =>
    intro hnode
    refine ih ?_
    show Node.bare _ = _
    rw [Node.bare, hnode]
  | membersCall point name opens list closes more ih₁ ih₂ =>
    intro hnode
    refine ih₂ ?_
    show Node.bare _ = _
    rw [Node.bare, Node.bareAll_eq_map, hnode, ih₁]
  | group opens expression closes ih =>
    show Node.bare _ = _
    rw [Node.bare, ih]
  | call name opens list closes ih =>
    show Node.bare _ = _
    rw [Node.bare, Node.bareAll_eq_map, ih, Node.bare]
  | argumentsSome expression more ih₁ ih₂ | moreArgumentsCons comma expression more ih₁ ih₂ =>
    show List.map _ (_ :: _) = _
    rw [List.map_cons, ih₁, ih₂]
  | constNone | constSome | typeNone | typeSome | parametersNone | parametersSome
  | moreParametersNil | moreParametersCons => trivial
  | _ => rfl

/-- The slots of a tree are empty when it is read from a text. -/
theorem bare_of_readProgram {text : String} {tree : Node} (h : readProgram text = .ok tree) :
    tree.Bare := by
  obtain ⟨ts, -, -, ⟨d⟩⟩ := derives_of_readProgram h
  exact d.bare

theorem native_of_readProgram {text : String} {tree : Node} (h : readProgram text = .ok tree) :
    AllLiterals Literal.Native tree.preorder :=
  (written_of_readProgram h).literals.mono fun _ => Literal.Plain.native

end Grammar

/-- A tree with values of the language as literals that a text or a JSON value gives comes back
unchanged from JSON, so that turning JSON into a tree and back again changes nothing the second
time. Checking and running what comes back gives all that checking and running the text gives. -/
theorem json_keeps_trees :
    (∀ tree : Node, ((∃ text, readProgram text = .ok tree) ∨ ∃ j, Node.ofJson j = .ok tree) →
      AllLiterals Literal.Native tree.preorder → Node.ofJson tree.toJson = .ok tree) ∧
    (∀ j tree, Node.ofJson j = .ok tree → AllLiterals Literal.Native tree.preorder →
      (Node.ofJson tree.toJson).map Node.toJson = .ok tree.toJson) ∧
    ∀ (text : String) (checker : Option Checker) (m : Machine),
      (do
        let tree ← readProgram text
        let loaded ← treeOfJson tree.toJson
        return checkAndRun checker m loaded) =
      (do
        let tree ← readProgram text
        return checkAndRun checker m tree) := by
  have hkept : ∀ tree : Node, tree.Bare → AllLiterals Literal.Native tree.preorder →
      Node.ofJson tree.toJson = .ok tree := by
    intro tree hbare hnative
    rw [Node.ofJson_toJson tree hnative, hbare]
  refine ⟨?_, ?_, ?_⟩
  · rintro tree (⟨text, hread⟩ | ⟨j, hj⟩) hnative
    · exact hkept tree (Grammar.bare_of_readProgram hread) hnative
    · exact hkept tree (Node.bare_of_ofJson j hj) hnative
  · intro j tree hj hnative
    rw [hkept tree (Node.bare_of_ofJson j hj) hnative]
    rfl
  · intro text checker m
    cases hread : readProgram text with
    | error fault => rfl
    | ok tree =>
      have hloaded : treeOfJson tree.toJson = .ok tree := by
        rw [treeOfJson, hkept tree (Grammar.bare_of_readProgram hread)
          (Grammar.native_of_readProgram hread)]
        rfl
      show (treeOfJson tree.toJson >>= fun loaded => pure (checkAndRun checker m loaded)) = _
      rw [hloaded]

theorem json_keeps_trees_zero :
    Node.ofJson (.object [("type", .string "Literal"), ("value", Literal.tagged "Decimal" "-0E+3")]) =
        .ok (.literal (.decimal (.finite true 0 3)) none) ∧
      Node.ofJson (Node.literal (.decimal (.finite true 0 3)) none).toJson =
        .ok (.literal (.decimal (.finite true 0 3)) none) := by
  have hread : Node.ofJson (.object [("type", .string "Literal"),
      ("value", Literal.tagged "Decimal" "-0E+3")]) =
        .ok (.literal (.decimal (.finite true 0 3)) none) := by
    cbv
  refine ⟨hread, json_keeps_trees.1 _ (.inr ⟨_, hread⟩) ?_⟩
  exact allLiterals_cons (by rintro _ _ ⟨⟩; trivial) allLiterals_nil

end BlockScript
