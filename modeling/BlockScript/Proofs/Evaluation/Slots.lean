import BlockScript.Evaluation.Program
import BlockScript.Proofs.Tree.Bare
/-!
# Running looks at no slot

The slots of a tree are for those who read a checked program. The steps that run a program are the
same for trees that differ in nothing but their slots.
-/
namespace BlockScript

open Run

section Steps

variable {t : Steps Run}

structure Steps.IgnoresSlots (t : Steps Run) : Prop where
  evaluate : ∀ a node, t.evaluate a node.bare = t.evaluate a node
  evaluateAll : ∀ a nodes, t.evaluateAll a (nodes.map Node.bare) = t.evaluateAll a nodes
  execute : ∀ a node, t.execute a node.bare = t.execute a node
  executeLoop : ∀ a construct condition increment statements,
    t.executeLoop a construct (Node.bare condition) (Node.bare increment)
      (statements.map Node.bare) = t.executeLoop a construct condition increment statements
  executeAll : ∀ a nodes, t.executeAll a (nodes.map Node.bare) = t.executeAll a nodes

namespace Steps.IgnoresSlots

theorem evaluateNode (h : t.IgnoresSlots) (a : Activation) (node : Node) :
    t.evaluateNode a node.bare = t.evaluateNode a node := by
  cases node <;> simp only [Node.bare, Steps.evaluateNode, Node.isAbsent_bare, Node.kindPath,
    Node.kindName, Node.bareAll_eq_map, h.evaluate, h.evaluateAll]

theorem evaluateNodes (h : t.IgnoresSlots) (a : Activation) (nodes : List Node) :
    t.evaluateNodes a (nodes.map Node.bare) = t.evaluateNodes a nodes := by
  cases nodes <;> simp only [List.map_nil, List.map_cons, Steps.evaluateNodes, h.evaluate,
    h.evaluateAll]

theorem executeNode (h : t.IgnoresSlots) (a : Activation) (node : Node) :
    t.executeNode a node.bare = t.executeNode a node := by
  cases node with
  | assign receiver value =>
    cases receiver <;> simp only [Node.bare, Steps.executeNode, Node.isAbsent_bare, h.evaluate]
  | whileStmt condition statements =>
    have hloop := h.executeLoop a "while" condition .absent statements
    simp only [Node.bare] at hloop
    simp only [Node.bare, Steps.executeNode, Node.bareAll_eq_map, hloop]
  | _ =>
    simp only [Node.bare, Steps.executeNode, Node.isAbsent_bare, Node.kindPath, Node.kindName,
      Node.bareAll_eq_map, h.evaluate, h.execute, h.executeAll, h.executeLoop]

theorem executeRound (h : t.IgnoresSlots) (a : Activation) (construct : String)
    (condition increment : Node) (statements : List Node) :
    t.executeRound a construct condition.bare increment.bare (statements.map Node.bare) =
      t.executeRound a construct condition increment statements := by
  simp only [Steps.executeRound, Node.isAbsent_bare, h.evaluate, h.execute, h.executeAll,
    h.executeLoop]

theorem executeNodes (h : t.IgnoresSlots) (a : Activation) (nodes : List Node) :
    t.executeNodes a (nodes.map Node.bare) = t.executeNodes a nodes := by
  cases nodes <;> simp only [List.map_nil, List.map_cons, Steps.executeNodes, h.execute,
    h.executeAll]

/-- Statements that are the same without slots are executed the same way. -/
theorem executeNodes_congr (h : t.IgnoresSlots) (a : Activation) {nodes nodes' : List Node}
    (hnodes : nodes.map Node.bare = nodes'.map Node.bare) :
    t.executeNodes a nodes = t.executeNodes a nodes' := by
  rw [← h.executeNodes, hnodes, h.executeNodes]

theorem executeField (h : t.IgnoresSlots) (a : Activation) (node : Node) :
    executeField t a node.bare = BlockScript.executeField t a node := by
  cases node <;> simp only [Node.bare, BlockScript.executeField, Node.isAbsent_bare, h.evaluate]

end Steps.IgnoresSlots

end Steps

theorem steps_ignoreSlots (fuel : Nat) : (steps fuel).IgnoresSlots := by
  induction fuel with
  | zero => constructor <;> intros <;> rfl
  | succ fuel ih =>
    exact
      { evaluate := ih.evaluateNode
        evaluateAll := ih.evaluateNodes
        execute := ih.executeNode
        executeLoop := ih.executeRound
        executeAll := ih.executeNodes }

end BlockScript
