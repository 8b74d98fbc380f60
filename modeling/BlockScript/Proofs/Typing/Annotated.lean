import BlockScript.Proofs.Tree.Expressions
import BlockScript.Proofs.Typing.Alike
/-!
# Checked trees are annotated

Checking that succeeds fills the slots of every node, whatever the tree and the surroundings were.
Every part that has to be there is there in the tree that it gives back, and every literal in it
fits its type.
-/
namespace BlockScript

open Check

inductive AnnotatedExpression : Node → Prop where
  | literal {value : Literal} {t : StaticType} (type : value.staticType = .ok t) :
      AnnotatedExpression (.literal value (some t))
  | group {inner : Node} {t : StaticType} (inside : AnnotatedExpression inner) :
      AnnotatedExpression (.group inner (some t))
  | binary {op : String} {left right : Node} {t : StaticType} (first : AnnotatedExpression left)
      (second : AnnotatedExpression right) : AnnotatedExpression (.binary op left right (some t))
  | access {name : String} {v : StaticVariable} :
      AnnotatedExpression (.access .absent name (some v.type) (some v))
  | member {receiver : Node} {name : String} {v : StaticVariable}
      (object : AnnotatedExpression receiver) :
      AnnotatedExpression (.access receiver name (some v.type) (some v))
  | call {name : String} {arguments : List Node} {f : StaticFunction}
      (passed : ∀ argument ∈ arguments, AnnotatedExpression argument) :
      AnnotatedExpression (.call .absent name arguments (some f.returnType) (some f))
  | methodCall {receiver : Node} {name : String} {arguments : List Node} {f : StaticFunction}
      (object : AnnotatedExpression receiver)
      (passed : ∀ argument ∈ arguments, AnnotatedExpression argument) :
      AnnotatedExpression (.call receiver name arguments (some f.returnType) (some f))

def AnnotatedInitial (node : Node) : Prop := node = .absent ∨ AnnotatedExpression node

inductive AnnotatedHeader : Node → Prop where
  | none : AnnotatedHeader .absent
  | some {receiver value : Node} (left : AnnotatedExpression receiver)
      (right : AnnotatedExpression value) : AnnotatedHeader (.assign receiver value)

inductive AnnotatedStatement : Node → Prop where
  | exprStmt {expression : Node} (whole : AnnotatedExpression expression) :
      AnnotatedStatement (.exprStmt expression)
  | declaration {name : String} {typeName : Option String} {value : Node} {v : StaticVariable}
      (initial : AnnotatedInitial value) :
      AnnotatedStatement (.declaration name typeName value (some v))
  | assign {receiver value : Node} (left : AnnotatedExpression receiver)
      (right : AnnotatedExpression value) : AnnotatedStatement (.assign receiver value)
  | ifStmt {condition : Node} {thens elses : List Node} (test : AnnotatedExpression condition)
      (first : ∀ node ∈ thens, AnnotatedStatement node)
      (second : ∀ node ∈ elses, AnnotatedStatement node) :
      AnnotatedStatement (.ifStmt condition thens elses)
  | forStmt {initialization condition increment : Node} {statements : List Node}
      (before : AnnotatedHeader initialization) (test : AnnotatedExpression condition)
      (after : AnnotatedHeader increment) (body : ∀ node ∈ statements, AnnotatedStatement node) :
      AnnotatedStatement (.forStmt initialization condition increment statements)
  | whileStmt {condition : Node} {statements : List Node} (test : AnnotatedExpression condition)
      (body : ∀ node ∈ statements, AnnotatedStatement node) :
      AnnotatedStatement (.whileStmt condition statements)
  | returnStmt {value : Node} (whole : AnnotatedExpression value) :
      AnnotatedStatement (.returnStmt value)

inductive AnnotatedField : Node → Prop where
  | field {name : String} {typeName : Option String} {constant : Bool} {value : Node}
      {v : StaticVariable} (initial : AnnotatedInitial value) :
      AnnotatedField (.field name typeName constant value (some v))

inductive AnnotatedMethod : Node → Prop where
  | method {name : String} {parameters : List String} {parameterTypes : List (Option String)}
      {returnType : Option String} {statements : List Node} {f : StaticFunction}
      (body : ∀ node ∈ statements, AnnotatedStatement node) :
      AnnotatedMethod (.method name parameters parameterTypes returnType statements (some f))

inductive AnnotatedProgram : Node → Prop where
  | source {fields methods : List Node} (first : ∀ node ∈ fields, AnnotatedField node)
      (second : ∀ node ∈ methods, AnnotatedMethod node) : AnnotatedProgram (.source fields methods)

/-- The slots of a node are filled: the type of a name is that of the variable that it means, the
type of a call is what the function returns, and the type of a literal is its own. -/
def Node.Annotated : Node → Prop
  | field _ _ _ _ bound | declaration _ _ _ bound => bound.isSome = true
  | method _ _ _ _ _ callee => callee.isSome = true
  | literal value type => ∃ t, type = some t ∧ value.staticType = .ok t
  | group _ type | binary _ _ _ type => type.isSome = true
  | access _ _ type bound => ∃ v, bound = some v ∧ type = some v.type
  | call _ _ _ type callee => ∃ f, callee = some f ∧ type = some f.returnType
  | _ => True

section Nodes

variable {node : Node} {nodes : List Node}

theorem annotated_cons (hnode : node.Annotated) (h : ∀ n ∈ nodes, n.Annotated) :
    ∀ n ∈ node :: nodes, n.Annotated := List.forall_mem_cons.mpr ⟨hnode, h⟩

theorem annotated_append {nodes' : List Node} (h : ∀ n ∈ nodes, n.Annotated)
    (h' : ∀ n ∈ nodes', n.Annotated) : ∀ n ∈ nodes ++ nodes', n.Annotated :=
  List.forall_mem_append.mpr ⟨h, h'⟩

theorem AnnotatedExpression.annotated (h : AnnotatedExpression node) :
    ∀ n ∈ node.preorder, n.Annotated := by
  induction h with
  | literal type => exact annotated_cons ⟨_, rfl, type⟩ nofun
  | group inside ih => exact annotated_cons rfl ih
  | binary first second ih₁ ih₂ => exact annotated_cons rfl (annotated_append ih₁ ih₂)
  | access => exact annotated_cons ⟨_, rfl, rfl⟩ nofun
  | member object ih => exact annotated_cons ⟨_, rfl, rfl⟩ ih
  | call passed ih => exact annotated_cons ⟨_, rfl, rfl⟩ (forall_mem_preorderAll.mpr ih)
  | methodCall object passed ih₁ ih₂ =>
    exact annotated_cons ⟨_, rfl, rfl⟩ (annotated_append ih₁ (forall_mem_preorderAll.mpr ih₂))

theorem AnnotatedInitial.annotated (h : AnnotatedInitial node) :
    ∀ n ∈ node.preorder, n.Annotated := by
  obtain rfl | h := h
  · exact nofun
  · exact h.annotated

theorem AnnotatedHeader.annotated (h : AnnotatedHeader node) :
    ∀ n ∈ node.preorder, n.Annotated := by
  cases h with
  | none => exact nofun
  | some left right =>
    exact annotated_cons trivial (annotated_append left.annotated right.annotated)

theorem AnnotatedStatement.annotated (h : AnnotatedStatement node) :
    ∀ n ∈ node.preorder, n.Annotated := by
  induction h with
  | exprStmt whole => exact annotated_cons trivial whole.annotated
  | declaration initial => exact annotated_cons rfl initial.annotated
  | assign left right =>
    exact annotated_cons trivial (annotated_append left.annotated right.annotated)
  | ifStmt test first second ih₁ ih₂ =>
    exact annotated_cons trivial (annotated_append
      (annotated_append test.annotated (forall_mem_preorderAll.mpr ih₁))
      (forall_mem_preorderAll.mpr ih₂))
  | forStmt before test after body ih =>
    refine annotated_cons trivial (annotated_append ?_ (forall_mem_preorderAll.mpr ih))
    exact annotated_append (annotated_append before.annotated test.annotated) after.annotated
  | whileStmt test body ih =>
    exact annotated_cons trivial (annotated_append test.annotated (forall_mem_preorderAll.mpr ih))
  | returnStmt whole => exact annotated_cons trivial whole.annotated

theorem AnnotatedProgram.annotated (h : AnnotatedProgram node) :
    ∀ n ∈ node.preorder, n.Annotated := by
  obtain ⟨first, second⟩ := h
  refine annotated_cons trivial (annotated_append ?_ ?_) <;> refine forall_mem_preorderAll.mpr ?_
  · intro field hfield
    obtain ⟨initial⟩ := first field hfield
    exact annotated_cons rfl initial.annotated
  · intro method hmethod
    obtain ⟨body⟩ := second method hmethod
    exact annotated_cons rfl
      (forall_mem_preorderAll.mpr fun node hnode => (body node hnode).annotated)

/-- The integers in an annotated tree have 32 bits. -/
theorem integer_mem_bounds {n : Int} {type : Option StaticType}
    (h : (Node.literal (.integer n) type).Annotated) : leastInt ≤ n ∧ n ≤ greatestInt := by
  obtain ⟨t, -, ht⟩ := h
  rw [Literal.staticType] at ht
  split at ht
  · next hfits => simpa [fitsInt] using hfits
  · split at ht <;> cases ht

end Nodes

section Trees

/-- What it means for a part of a program that its slots are filled. -/
def Part.Annotated : Part → Node → Prop
  | expression => AnnotatedExpression
  | initial => AnnotatedInitial
  | header => AnnotatedHeader
  | statement => AnnotatedStatement
  | field => AnnotatedField
  | method => AnnotatedMethod
  | program => AnnotatedProgram

/-- Among the statements only assignments pass as parts of a header. -/
theorem AnnotatedStatement.header {node : Node} (h : AnnotatedStatement node)
    {t : Option StaticType} (ht : headerType node = pure t) : AnnotatedHeader node := by
  cases h with
  | assign left right => exact .some left right
  | _ => cases congrFun ht .empty

/-- What checking yields are trees with their slots filled. -/
def filledTrees : (CheckRelation.alike readAlike_id).Trees where
  Tree part _ _ a _ := part.Annotated a
  tree_mono h _ := h
  literal ht := .literal ht
  group h := .group h
  binary h h' := .binary h h'
  access _ := .access
  member h _ := .member h
  call hall := .call (hall.forall_mem id)
  methodCall h hall := .methodCall h (hall.forall_mem id)
  noInitial := .inl rfl
  initial h := .inr h
  noHeader := .none
  header h ht := h.header ht
  exprStmt h := .exprStmt h
  declaration h _ := .declaration h
  assign h h' := .assign h h'
  ifStmt h hthens helses := .ifStmt h (hthens.forall_mem id) (helses.forall_mem id)
  forStmt h h' h'' hall := .forStmt h h' h'' (hall.forall_mem id)
  whileStmt h hall := .whileStmt h (hall.forall_mem id)
  returnStmt h := .returnStmt h
  field h _ := .field h
  method hall := .method (hall.forall_mem id)
  source hfields hmethods := .source (hfields.forall_mem id) (hmethods.forall_mem id)

end Trees

theorem annotated_of_check {c c' : Checker} {tree checked : Node}
    (h : c.check tree = (.ok checked, c')) : AnnotatedProgram checked := by
  have hends := sameChecks_check filledTrees (Node.like_refl tree) c
  rw [h] at hends
  cases hends with
  | ok holds => exact holds

end BlockScript
