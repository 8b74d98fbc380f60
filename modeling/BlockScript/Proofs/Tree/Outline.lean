import BlockScript.Proofs.Tree.Names
/-!
# The texts in a tree

What stands between the quotes of a program, in the order in which it stands there, and the tree
without it.
-/
namespace BlockScript

namespace Literal

/-- The value with nothing between its quotes. -/
def outline : Literal → Literal
  | character _ => character ""
  | string _ => string ""
  | value => value

/-- What stands between quotes, and which quotes. -/
def text? : Literal → Option (Char × String)
  | character s => some ('\'', s)
  | string s => some ('"', s)
  | _ => none

end Literal

namespace Node

mutual

def outline : Node → Node
  | absent => absent
  | source fields methods => source (outlineAll fields) (outlineAll methods)
  | field name typeName constant value bound => field name typeName constant value.outline bound
  | method name parameters parameterTypes returnType statements callee =>
    method name parameters parameterTypes returnType (outlineAll statements) callee
  | exprStmt expression => exprStmt expression.outline
  | declaration name typeName value bound => declaration name typeName value.outline bound
  | assign receiver value => assign receiver.outline value.outline
  | ifStmt condition thens elses => ifStmt condition.outline (outlineAll thens) (outlineAll elses)
  | forStmt initialization condition increment statements =>
    forStmt initialization.outline condition.outline increment.outline (outlineAll statements)
  | whileStmt condition statements => whileStmt condition.outline (outlineAll statements)
  | returnStmt value => returnStmt value.outline
  | literal value type => literal value.outline type
  | group expression type => group expression.outline type
  | binary operator left right type => binary operator left.outline right.outline type
  | access receiver name type bound => access receiver.outline name type bound
  | call receiver name arguments type callee =>
    call receiver.outline name (outlineAll arguments) type callee

def outlineAll : List Node → List Node
  | [] => []
  | node :: rest => node.outline :: outlineAll rest

end

theorem outlineAll_eq_map (nodes : List Node) : outlineAll nodes = nodes.map outline := by
  induction nodes with
  | nil => rfl
  | cons node rest ih => rw [outlineAll, ih, List.map_cons]

@[simp] theorem isAbsent_outline (node : Node) : node.outline.isAbsent = node.isAbsent := by
  cases node <;> rfl

@[simp] theorem isEmpty_outlineAll (nodes : List Node) :
    (outlineAll nodes).isEmpty = nodes.isEmpty := by
  cases nodes <;> rfl

def text? : Node → Option (Char × String)
  | literal value _ => value.text?
  | _ => none

/-- What stands between quotes in a tree, and which quotes, from the beginning to the end. -/
def texts (node : Node) : List (Char × String) := node.preorder.filterMap text?

def textsAll (nodes : List Node) : List (Char × String) := (preorderAll nodes).filterMap text?

section Texts

variable (node left right : Node) (nodes rest : List Node) (name : String)

@[simp] theorem texts_source : texts (source nodes rest) = textsAll nodes ++ textsAll rest :=
  List.filterMap_append

@[simp] theorem texts_exprStmt : texts (exprStmt node) = node.texts := rfl

@[simp] theorem texts_assign : texts (assign left right) = left.texts ++ right.texts :=
  List.filterMap_append

@[simp] theorem texts_ifStmt :
    texts (ifStmt node nodes rest) = node.texts ++ textsAll nodes ++ textsAll rest := by
  rw [texts, preorder, List.filterMap_cons, List.filterMap_append, List.filterMap_append]
  rfl

@[simp] theorem texts_forStmt :
    texts (forStmt left node right nodes) =
      left.texts ++ node.texts ++ right.texts ++ textsAll nodes := by
  rw [texts, preorder, List.filterMap_cons, List.filterMap_append, List.filterMap_append,
    List.filterMap_append]
  rfl

@[simp] theorem texts_whileStmt : texts (whileStmt node nodes) = node.texts ++ textsAll nodes :=
  List.filterMap_append

@[simp] theorem texts_returnStmt : texts (returnStmt node) = node.texts := rfl

@[simp] theorem texts_group (t : Option StaticType) : texts (group node t) = node.texts := rfl

@[simp] theorem texts_binary (t : Option StaticType) :
    texts (binary name left right t) = left.texts ++ right.texts := List.filterMap_append

@[simp] theorem texts_access (t : Option StaticType) (v : Option StaticVariable) :
    texts (access node name t v) = node.texts := rfl

@[simp] theorem texts_call (t : Option StaticType) (f : Option StaticFunction) :
    texts (call node name nodes t f) = node.texts ++ textsAll nodes := List.filterMap_append

@[simp] theorem textsAll_cons : textsAll (node :: nodes) = node.texts ++ textsAll nodes :=
  List.filterMap_append

end Texts

theorem text?_bare (node : Node) : node.bare.text? = node.text? := by
  cases node <;> rfl

theorem texts_bare (node : Node) : node.bare.texts = node.texts := by
  rw [texts, preorder_bare, List.filterMap_map]
  exact congrArg (fun f => node.preorder.filterMap f) (funext text?_bare)

/-- Trees that differ in nothing but their slots have the same texts. -/
theorem texts_congr {tree tree' : Node} (h : tree'.bare = tree.bare) :
    tree'.texts = tree.texts := by
  rw [← texts_bare, h, texts_bare]

end Node

end BlockScript
