import BlockScript.Proofs.Tree.Bare
import BlockScript.Proofs.Typing.Alike
/-!
# Checking and slots

Checking reads a slot only after it has filled it in the same pass: the variable and the type of
what is assigned to, and the function of a method. So it takes the same course for trees that differ
in nothing but their slots, and the tree that comes back differs from them in nothing else. A
program that can be written can still be written when it has been checked.
-/
namespace BlockScript

namespace Node

mutual

theorem like_bare (node : Node) : Like id id node node.bare := by
  match node with
  | absent => exact .absent
  | source fields methods => exact .source (likeAll_bare fields) (likeAll_bare methods)
  | field _ _ _ value _ => exact .field (like_bare value)
  | method _ _ _ _ statements _ => exact .method (likeAll_bare statements)
  | exprStmt expression => exact .exprStmt (like_bare expression)
  | declaration _ _ value _ => exact .declaration (like_bare value)
  | assign receiver value => exact .assign (like_bare receiver) (like_bare value)
  | ifStmt condition thens elses =>
    exact .ifStmt (like_bare condition) (likeAll_bare thens) (likeAll_bare elses)
  | forStmt initialization condition increment statements =>
    exact .forStmt (like_bare initialization) (like_bare condition) (like_bare increment)
      (likeAll_bare statements)
  | whileStmt condition statements =>
    exact .whileStmt (like_bare condition) (likeAll_bare statements)
  | returnStmt value => exact .returnStmt (like_bare value)
  | literal _ _ => exact .literal
  | group expression _ => exact .group (like_bare expression)
  | binary _ left right _ => exact .binary (like_bare left) (like_bare right)
  | access receiver _ _ _ => exact .access (like_bare receiver)
  | call receiver _ arguments _ _ => exact .call (like_bare receiver) (likeAll_bare arguments)

theorem likeAll_bare (nodes : List Node) : LikeAll id id nodes (bareAll nodes) := by
  match nodes with
  | [] => exact .nil
  | node :: rest => exact .cons (like_bare node) (likeAll_bare rest)

end

end Node

theorem bareAll_eq_of_allTrees {ss as bs : List Node}
    (h : AllTrees (fun s a _ => a.bare = s.bare) ss as bs) : Node.bareAll as = Node.bareAll ss := by
  rw [Node.bareAll_eq_map, Node.bareAll_eq_map]
  exact h.map_eq id

/-- What checking yields differs from what it was given in nothing but slots. -/
def refilledTrees : (CheckRelation.alike readAlike_id).Trees where
  Tree _ _ s a _ := a.bare = s.bare
  tree_mono h _ := h
  literal _ := rfl
  group h := by simp only [Node.bare, h]
  binary h h' := by simp only [Node.bare, h, h']
  access _ := rfl
  member h _ := by simp only [Node.bare, h]
  call hall := by simp only [Node.bare, bareAll_eq_of_allTrees hall]
  methodCall h hall := by simp only [Node.bare, h, bareAll_eq_of_allTrees hall]
  noInitial := rfl
  initial h := h
  noHeader := rfl
  header h _ := h
  exprStmt h := by simp only [Node.bare, h]
  declaration h _ := by simp only [Node.bare, h]
  assign h h' := by simp only [Node.bare, h, h']
  ifStmt h hthens helses := by
    simp only [Node.bare, h, bareAll_eq_of_allTrees hthens, bareAll_eq_of_allTrees helses]
  forStmt h h' h'' hall := by simp only [Node.bare, h, h', h'', bareAll_eq_of_allTrees hall]
  whileStmt h hall := by simp only [Node.bare, h, bareAll_eq_of_allTrees hall]
  returnStmt h := by simp only [Node.bare, h]
  field h _ := by simp only [Node.bare, h]
  method hall := by simp only [Node.bare, bareAll_eq_of_allTrees hall]
  source hfields hmethods := by
    simp only [Node.bare, bareAll_eq_of_allTrees hfields, bareAll_eq_of_allTrees hmethods]

section Programs

/-- Checking gives back the tree that it was given, but for the slots. -/
theorem bare_of_check {c c' : Checker} {tree checked : Node}
    (h : c.check tree = (.ok checked, c')) : checked.bare = tree.bare := by
  have hends := sameChecks_check refilledTrees (Node.like_refl tree) c
  rw [h] at hends
  cases hends with
  | ok holds => exact holds

theorem written_of_check {c c' : Checker} {tree checked : Node} (hw : WrittenProgram tree)
    (h : c.check tree = (.ok checked, c')) : WrittenProgram checked :=
  hw.of_bare (bare_of_check h).symm

theorem check_of_bare (c : Checker) (tree : Node) : c.check tree.bare = c.check tree := by
  have hends := sameChecks_check (mappedTrees readAlike_id Node.maps_id) (Node.like_bare tree) c
  generalize c.check tree = e at hends ⊢
  generalize c.check tree.bare = e' at hends ⊢
  cases hends with
  | @ok a b _ holds =>
    obtain rfl : b = a := holds
    rfl
  | error same => rw [same]

/-- Trees that differ in nothing but their slots are checked with the same outcome. -/
theorem check_congr (c : Checker) {tree tree' : Node} (h : tree'.bare = tree.bare) :
    c.check tree' = c.check tree := by
  rw [← check_of_bare, h, check_of_bare]

end Programs

end BlockScript
