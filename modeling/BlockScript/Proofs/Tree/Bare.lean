import BlockScript.Proofs.Tree.Written
/-!
# Trees without what checking finds out

Two trees that differ in nothing but their slots are the same program. What a program can write does
not depend on the slots.
-/
namespace BlockScript

namespace Node

mutual

/-- The tree with all slots empty. -/
def bare : Node → Node
  | absent => absent
  | source fields methods => source (bareAll fields) (bareAll methods)
  | field name typeName constant value _ => field name typeName constant value.bare none
  | method name parameters parameterTypes returnType statements _ =>
    method name parameters parameterTypes returnType (bareAll statements) none
  | exprStmt expression => exprStmt expression.bare
  | declaration name typeName value _ => declaration name typeName value.bare none
  | assign receiver value => assign receiver.bare value.bare
  | ifStmt condition thens elses => ifStmt condition.bare (bareAll thens) (bareAll elses)
  | forStmt initialization condition increment statements =>
    forStmt initialization.bare condition.bare increment.bare (bareAll statements)
  | whileStmt condition statements => whileStmt condition.bare (bareAll statements)
  | returnStmt value => returnStmt value.bare
  | literal value _ => literal value none
  | group expression _ => group expression.bare none
  | binary operator left right _ => binary operator left.bare right.bare none
  | access receiver name _ _ => access receiver.bare name none none
  | call receiver name arguments _ _ => call receiver.bare name (bareAll arguments) none none

def bareAll : List Node → List Node
  | [] => []
  | node :: rest => node.bare :: bareAll rest

end

@[simp] theorem bareAll_eq_map (nodes : List Node) : bareAll nodes = nodes.map bare := by
  induction nodes with
  | nil => rfl
  | cons node rest ih => rw [bareAll, ih, List.map_cons]

@[simp] theorem bare_eq_absent {node : Node} : node.bare = .absent ↔ node = .absent := by
  cases node <;> simp [bare]

@[simp] theorem isAbsent_bare (node : Node) : node.bare.isAbsent = node.isAbsent := by
  cases node <;> rfl

end Node

section Written

/-- What holds of all trees that differ from those of one list in slots only holds of another list
of such trees. -/
theorem forall_mem_of_map_bare {P : Node → Prop} {nodes nodes' : List Node}
    (h : nodes.map Node.bare = nodes'.map Node.bare)
    (hstep : ∀ node ∈ nodes, ∀ {node'}, node.bare = node'.bare → P node') :
    ∀ node' ∈ nodes', P node' := by
  intro node' hmem
  obtain ⟨node, hnode, heq⟩ : ∃ node ∈ nodes, node.bare = node'.bare := by
    have hbare : node'.bare ∈ nodes.map Node.bare := h ▸ List.mem_map_of_mem hmem
    simpa using hbare
  exact hstep node hnode heq

theorem WrittenOperand.of_bare {limit : Nat} {node node' : Node} (h : WrittenOperand limit node)
    (heq : node.bare = node'.bare) : WrittenOperand limit node' := by
  induction h generalizing node' with
  | literal plain =>
    cases node' <;> simp only [Node.bare, reduceCtorEq, Node.literal.injEq, and_true] at heq
    subst heq
    exact .literal plain
  | group inside ih =>
    cases node' <;> simp only [Node.bare, reduceCtorEq, Node.group.injEq, and_true] at heq
    exact .group (ih heq)
  | binary known reach first second ih₁ ih₂ =>
    cases node' <;> simp only [Node.bare, reduceCtorEq, Node.binary.injEq, and_true] at heq
    obtain ⟨rfl, hl, hr⟩ := heq
    exact .binary known reach (ih₁ hl) (ih₂ hr)
  | access spelled =>
    cases node' <;> simp only [Node.bare, reduceCtorEq, Node.access.injEq, and_true] at heq
    obtain ⟨hreceiver, rfl⟩ := heq
    rw [Node.bare_eq_absent.mp hreceiver.symm]
    exact .access spelled
  | member object spelled ih =>
    cases node' <;> simp only [Node.bare, reduceCtorEq, Node.access.injEq, and_true] at heq
    obtain ⟨hreceiver, rfl⟩ := heq
    exact .member (ih hreceiver) spelled
  | call spelled passed ih =>
    cases node' <;> simp only [Node.bare, reduceCtorEq, Node.call.injEq, and_true,
      Node.bareAll_eq_map] at heq
    obtain ⟨hreceiver, rfl, harguments⟩ := heq
    rw [Node.bare_eq_absent.mp hreceiver.symm]
    exact .call spelled (forall_mem_of_map_bare harguments ih)
  | methodCall object spelled passed ih ihs =>
    cases node' <;> simp only [Node.bare, reduceCtorEq, Node.call.injEq, and_true,
      Node.bareAll_eq_map] at heq
    obtain ⟨hreceiver, rfl, harguments⟩ := heq
    exact .methodCall (ih hreceiver) spelled
      (forall_mem_of_map_bare harguments ihs)

theorem WrittenInitial.of_bare {node node' : Node} (h : WrittenInitial node)
    (heq : node.bare = node'.bare) : WrittenInitial node' := by
  rcases h with rfl | h
  · exact .inl (Node.bare_eq_absent.mp heq.symm)
  · exact .inr (h.of_bare heq)

theorem WrittenHeader.of_bare {node node' : Node} (h : WrittenHeader node)
    (heq : node.bare = node'.bare) : WrittenHeader node' := by
  cases h with
  | none =>
    rw [Node.bare_eq_absent.mp heq.symm]
    exact .none
  | @some name t v value spelled assigned =>
    cases node' <;> simp only [Node.bare, reduceCtorEq, Node.assign.injEq] at heq
    next receiver value' =>
    obtain ⟨hreceiver, hvalue⟩ := heq
    cases receiver <;> simp only [Node.bare, reduceCtorEq, Node.access.injEq, and_true] at hreceiver
    obtain ⟨habsent, rfl⟩ := hreceiver
    rw [Node.bare_eq_absent.mp habsent.symm]
    exact .some spelled (assigned.of_bare hvalue)

theorem WrittenStatement.of_bare {node node' : Node} (h : WrittenStatement node)
    (heq : node.bare = node'.bare) : WrittenStatement node' := by
  induction h generalizing node' with
  | exprStmt whole =>
    cases node' <;> simp only [Node.bare, reduceCtorEq, Node.exprStmt.injEq] at heq
    exact .exprStmt (whole.of_bare heq)
  | declaration initial =>
    cases node' <;> simp only [Node.bare, reduceCtorEq, Node.declaration.injEq, and_true] at heq
    exact .declaration (initial.of_bare heq.2.2)
  | assign left right =>
    cases node' <;> simp only [Node.bare, reduceCtorEq, Node.assign.injEq] at heq
    exact .assign (left.of_bare heq.1) (right.of_bare heq.2)
  | ifStmt test first second ih₁ ih₂ =>
    cases node' <;> simp only [Node.bare, reduceCtorEq, Node.ifStmt.injEq,
      Node.bareAll_eq_map] at heq
    obtain ⟨htest, hthens, helses⟩ := heq
    exact .ifStmt (test.of_bare htest)
      (forall_mem_of_map_bare hthens ih₁)
      (forall_mem_of_map_bare helses ih₂)
  | forStmt before test after body ih =>
    cases node' <;> simp only [Node.bare, reduceCtorEq, Node.forStmt.injEq,
      Node.bareAll_eq_map] at heq
    obtain ⟨hbefore, htest, hafter, hbody⟩ := heq
    exact .forStmt (before.of_bare hbefore) (test.of_bare htest) (after.of_bare hafter)
      (forall_mem_of_map_bare hbody ih)
  | whileStmt test body ih =>
    cases node' <;> simp only [Node.bare, reduceCtorEq, Node.whileStmt.injEq,
      Node.bareAll_eq_map] at heq
    exact .whileStmt (test.of_bare heq.1)
      (forall_mem_of_map_bare heq.2 ih)
  | returnStmt whole =>
    cases node' <;> simp only [Node.bare, reduceCtorEq, Node.returnStmt.injEq] at heq
    exact .returnStmt (whole.of_bare heq)

theorem WrittenField.of_bare {node node' : Node} (h : WrittenField node)
    (heq : node.bare = node'.bare) : WrittenField node' := by
  cases h with
  | field initial =>
    cases node' <;> simp only [Node.bare, reduceCtorEq, Node.field.injEq, and_true] at heq
    exact .field (initial.of_bare heq.2.2.2)

theorem WrittenMethod.of_bare {node node' : Node} (h : WrittenMethod node)
    (heq : node.bare = node'.bare) : WrittenMethod node' := by
  cases h with
  | method paired body =>
    cases node' <;> simp only [Node.bare, reduceCtorEq, Node.method.injEq, and_true,
      Node.bareAll_eq_map] at heq
    obtain ⟨rfl, rfl, rfl, rfl, hbody⟩ := heq
    exact .method paired (forall_mem_of_map_bare hbody fun node hn => (body node hn).of_bare)

theorem WrittenProgram.of_bare {node node' : Node} (h : WrittenProgram node)
    (heq : node.bare = node'.bare) : WrittenProgram node' := by
  cases h with
  | source first second =>
    cases node' <;> simp only [Node.bare, reduceCtorEq, Node.source.injEq,
      Node.bareAll_eq_map] at heq
    exact .source (forall_mem_of_map_bare heq.1 fun node hn => (first node hn).of_bare)
      (forall_mem_of_map_bare heq.2 fun node hn => (second node hn).of_bare)

end Written

end BlockScript
