import BlockScript.Proofs.Decimal.Text
import BlockScript.Proofs.Tree.Bare
import BlockScript.Tree.Object
/-!
# Trees survive JSON

A tree that is turned into JSON and back is the same tree without its slots, as long as its literals
are values of the language.
-/
namespace BlockScript

/-- A value of the language, not one that only JSON has. -/
def Literal.Native : Literal → Prop
  | .raw _ => False
  | _ => True

def AllLiterals (P : Literal → Prop) (nodes : List Node) : Prop :=
  ∀ value type, .literal value type ∈ nodes → P value

section AllLiterals

variable {P Q : Literal → Prop} {node : Node} {nodes nodes' : List Node}

theorem AllLiterals.mono (h : AllLiterals P nodes) (hPQ : ∀ value, P value → Q value) :
    AllLiterals Q nodes := fun value type hmem => hPQ value (h value type hmem)

theorem allLiterals_nil : AllLiterals P [] := fun _ _ h => nomatch h

theorem allLiterals_append :
    AllLiterals P (nodes ++ nodes') ↔ AllLiterals P nodes ∧ AllLiterals P nodes' := by
  simp only [AllLiterals, List.mem_append]
  exact ⟨fun h => ⟨fun v t hmem => h v t (.inl hmem), fun v t hmem => h v t (.inr hmem)⟩,
    fun h v t hmem => hmem.elim (h.1 v t) (h.2 v t)⟩

theorem AllLiterals.tail (h : AllLiterals P (node :: nodes)) : AllLiterals P nodes :=
  fun value type hmem => h value type (List.mem_cons_of_mem node hmem)

theorem AllLiterals.left (h : AllLiterals P (nodes ++ nodes')) : AllLiterals P nodes :=
  (allLiterals_append.mp h).1

theorem AllLiterals.right (h : AllLiterals P (nodes ++ nodes')) : AllLiterals P nodes' :=
  (allLiterals_append.mp h).2

end AllLiterals

theorem Literal.ofJson_toJson {value : Literal} (h : value.Native) :
    ofJson value.toJson = .ok value := by
  cases value with
  | decimal d =>
    show decimalOfJson (.string d.toText) = _
    rw [decimalOfJson, Decimal.ofText?_toText]
  | raw j => exact h.elim
  | _ => rfl

namespace Node

theorem ok_bind {α β : Type} (a : α) (f : α → Except TreeFault β) : (Except.ok a >>= f) = f a := rfl

theorem mapM_requireName (names : List String) :
    names.mapM (requireName ∘ Json.string) = .ok names := by
  induction names with
  | nil => rfl
  | cons name rest ih =>
    rw [List.mapM_cons, ih]
    rfl

theorem requireNameOrNull_nameOrNull (name : Option String) :
    requireNameOrNull (nameOrNull name) = .ok name := by
  cases name <;> rfl

theorem mapM_requireNameOrNull (names : List (Option String)) :
    names.mapM (requireNameOrNull ∘ nameOrNull) = .ok names := by
  induction names with
  | nil => rfl
  | cons name rest ih =>
    rw [List.mapM_cons, ih, Function.comp_apply, requireNameOrNull_nameOrNull]
    rfl

mutual

theorem ofJson_toJson (tree : Node) (h : AllLiterals Literal.Native tree.preorder) :
    ofJson tree.toJson = .ok tree.bare := by
  cases tree with
  | absent => rfl
  | source fields methods =>
    rw [preorder] at h
    have hfields := ofJsonAll_toJsonAll fields h.tail.left
    have hmethods := ofJsonAll_toJsonAll methods h.tail.right
    rw [toJson, ofJson]
    simp [readMembers, assemble, Json.tag, Json.get?, Parts.many, ofJsonList, List.lookup_cons,
      hfields, hmethods, bare, ok_bind]
  | field name typeName constant value bound =>
    rw [preorder] at h
    have hvalue := ofJson_toJson value h.tail
    rw [toJson, ofJson]
    simp [readMembers, assemble, Json.tag, Json.get?, Parts.one?, List.lookup_cons, nameMember,
      member, nameMember?, requireName, requireNameOrNull_nameOrNull, Json.truthy, hvalue, bare,
      ok_bind]
  | method name parameters parameterTypes returnType statements callee =>
    rw [preorder] at h
    have hstatements := ofJsonAll_toJsonAll statements h.tail
    rw [toJson, ofJson]
    simp [readMembers, assemble, Json.tag, Json.get?, Parts.many, ofJsonList, List.lookup_cons,
      nameMember, member, nameMember?, requireName, requireNameOrNull_nameOrNull, listItems,
      mapM_requireName, mapM_requireNameOrNull, hstatements, bare, ok_bind]
  | exprStmt expression =>
    rw [preorder] at h
    have hexpression := ofJson_toJson expression h.tail
    rw [toJson, ofJson]
    simp [readMembers, assemble, Json.tag, Json.get?, Parts.one, List.lookup_cons, hexpression,
      bare]
  | declaration name typeName value bound =>
    rw [preorder] at h
    have hvalue := ofJson_toJson value h.tail
    rw [toJson, ofJson]
    simp [readMembers, assemble, Json.tag, Json.get?, Parts.one?, List.lookup_cons, nameMember,
      member, nameMember?, requireName, requireNameOrNull_nameOrNull, hvalue, bare, ok_bind]
  | assign receiver value =>
    rw [preorder] at h
    have hreceiver := ofJson_toJson receiver h.tail.left
    have hvalue := ofJson_toJson value h.tail.right
    rw [toJson, ofJson]
    simp [readMembers, assemble, Json.tag, Json.get?, Parts.one, List.lookup_cons, hreceiver,
      hvalue, bare, ok_bind]
  | ifStmt condition thens elses =>
    rw [preorder] at h
    have hcondition := ofJson_toJson condition h.tail.left.left
    have hthens := ofJsonAll_toJsonAll thens h.tail.left.right
    have helses := ofJsonAll_toJsonAll elses h.tail.right
    rw [toJson, ofJson]
    simp [readMembers, assemble, Json.tag, Json.get?, Parts.one, Parts.many, Parts.many?,
      ofJsonList, List.lookup_cons, hcondition, hthens, helses, bare, ok_bind]
  | forStmt initialization condition increment statements =>
    rw [preorder] at h
    have hinitialization := ofJson_toJson initialization h.tail.left.left.left
    have hcondition := ofJson_toJson condition h.tail.left.left.right
    have hincrement := ofJson_toJson increment h.tail.left.right
    have hstatements := ofJsonAll_toJsonAll statements h.tail.right
    rw [toJson, ofJson]
    simp [readMembers, assemble, Json.tag, Json.get?, Parts.one, Parts.one?, Parts.many, ofJsonList,
      List.lookup_cons, hinitialization, hcondition, hincrement, hstatements, bare, ok_bind]
  | whileStmt condition statements =>
    rw [preorder] at h
    have hcondition := ofJson_toJson condition h.tail.left
    have hstatements := ofJsonAll_toJsonAll statements h.tail.right
    rw [toJson, ofJson]
    simp [readMembers, assemble, Json.tag, Json.get?, Parts.one, Parts.many, ofJsonList,
      List.lookup_cons, hcondition, hstatements, bare, ok_bind]
  | returnStmt value =>
    rw [preorder] at h
    have hvalue := ofJson_toJson value h.tail
    rw [toJson, ofJson]
    simp [readMembers, assemble, Json.tag, Json.get?, Parts.one, List.lookup_cons, hvalue, bare]
  | literal value type =>
    rw [preorder] at h
    have hvalue := Literal.ofJson_toJson (h value type (List.mem_singleton_self _))
    rw [toJson, ofJson]
    simp [assemble, Json.tag, Json.get?, List.lookup_cons, member, hvalue, bare, ok_bind]
  | group expression type =>
    rw [preorder] at h
    have hexpression := ofJson_toJson expression h.tail
    rw [toJson, ofJson]
    simp [readMembers, assemble, Json.tag, Json.get?, Parts.one, List.lookup_cons, hexpression,
      bare]
  | binary operator left right type =>
    rw [preorder] at h
    have hleft := ofJson_toJson left h.tail.left
    have hright := ofJson_toJson right h.tail.right
    rw [toJson, ofJson]
    simp [readMembers, assemble, Json.tag, Json.get?, Parts.one, List.lookup_cons, nameMember,
      member, requireName, hleft, hright, bare, ok_bind]
  | access receiver name type bound =>
    rw [preorder] at h
    have hreceiver := ofJson_toJson receiver h.tail
    rw [toJson, ofJson]
    simp [readMembers, assemble, Json.tag, Json.get?, Parts.one?, List.lookup_cons, nameMember,
      member, requireName, hreceiver, bare, ok_bind]
  | call receiver name arguments type callee =>
    rw [preorder] at h
    have hreceiver := ofJson_toJson receiver h.tail.left
    have harguments := ofJsonAll_toJsonAll arguments h.tail.right
    rw [toJson, ofJson]
    simp [readMembers, assemble, Json.tag, Json.get?, Parts.one?, Parts.many, ofJsonList,
      List.lookup_cons, nameMember, member, requireName, hreceiver, harguments, bare, ok_bind]

theorem ofJsonAll_toJsonAll (trees : List Node) (h : AllLiterals Literal.Native (preorderAll trees)) :
    ofJsonAll (toJsonAll trees) = .ok (trees.map bare) := by
  cases trees with
  | nil => rfl
  | cons tree rest =>
    rw [preorderAll] at h
    rw [toJsonAll, ofJsonAll, ofJson_toJson tree h.left, ofJsonAll_toJsonAll rest h.right]
    rfl

end

def Bare (tree : Node) : Prop := tree.bare = tree

theorem ok_of_bind {α β : Type} {x : Except TreeFault α} {f : α → Except TreeFault β} {b : β}
    (h : (x >>= f) = .ok b) : ∃ a, x = .ok a ∧ f a = .ok b := by
  cases x with
  | ok a => exact ⟨a, rfl, h⟩
  | error fault => cases h

def Parts.Bare (parts : Parts) : Prop := ∀ key part, parts.lookup key = some part →
  (∀ tree, part.tree = .ok tree → tree.Bare) ∧
    ∀ trees, part.list = .ok trees → trees.map bare = trees

namespace Parts.Bare

variable {parts : Parts} {key : String} {tree : Node} {trees : List Node}

theorem one (h : parts.Bare) (ht : parts.one key = .ok tree) : tree.Bare := by
  unfold Parts.one at ht
  split at ht
  · next part hpart => exact (h key part hpart).1 tree ht
  · cases ht

theorem one? (h : parts.Bare) (ht : parts.one? key = .ok tree) : tree.Bare := by
  unfold Parts.one? at ht
  split at ht
  · next part hpart => exact (h key part hpart).1 tree ht
  · cases ht
    rfl

theorem many (h : parts.Bare) (ht : parts.many key = .ok trees) : trees.map bare = trees := by
  unfold Parts.many at ht
  split at ht
  · next part hpart => exact (h key part hpart).2 trees ht
  · cases ht

theorem many? (h : parts.Bare) (ht : parts.many? key = .ok trees) : trees.map bare = trees := by
  unfold Parts.many? at ht
  split at ht
  · next part hpart => exact (h key part hpart).2 trees ht
  · cases ht
    rfl

end Parts.Bare

theorem bare_of_assemble {o : Json} {parts : Parts} {tree : Node} (hp : parts.Bare)
    (h : assemble o parts = .ok tree) : tree.Bare := by
  unfold assemble at h
  unfold Bare
  split at h
  -- the whole program
  · obtain ⟨fields, hfields, h⟩ := ok_of_bind h
    obtain ⟨methods, hmethods, h⟩ := ok_of_bind h
    cases h
    simp only [bare, bareAll_eq_map, hp.many hfields, hp.many hmethods]
  -- a field
  · obtain ⟨name, -, h⟩ := ok_of_bind h
    obtain ⟨typeName, -, h⟩ := ok_of_bind h
    obtain ⟨value, hvalue, h⟩ := ok_of_bind h
    cases h
    rw [bare, hp.one? hvalue]
  -- a method; its types may be left out, and then are none
  · obtain ⟨list, -, h⟩ := ok_of_bind h
    obtain ⟨items, -, h⟩ := ok_of_bind h
    obtain ⟨parameters, -, h⟩ := ok_of_bind h
    obtain ⟨name, -, h⟩ := ok_of_bind h
    have hbody : ∀ parameterTypes, (do
        let returnType ← nameMember? o "return_type_name"
        let statements ← parts.many "statements"
        pure (method name parameters parameterTypes returnType statements none)) = .ok tree →
          tree.bare = tree := by
      intro parameterTypes h
      obtain ⟨returnType, -, h⟩ := ok_of_bind h
      obtain ⟨statements, hstatements, h⟩ := ok_of_bind h
      cases h
      simp only [bare, bareAll_eq_map, hp.many hstatements]
    dsimp only at h
    split at h
    · obtain ⟨items, -, h⟩ := ok_of_bind h
      obtain ⟨parameterTypes, -, h⟩ := ok_of_bind h
      exact hbody parameterTypes h
    · exact hbody _ h
  -- an expression as a statement
  · obtain ⟨expression, hexpression, h⟩ := ok_of_bind h
    cases h
    rw [bare, hp.one hexpression]
  -- a declaration
  · obtain ⟨name, -, h⟩ := ok_of_bind h
    obtain ⟨typeName, -, h⟩ := ok_of_bind h
    obtain ⟨value, hvalue, h⟩ := ok_of_bind h
    cases h
    rw [bare, hp.one? hvalue]
  -- an assignment
  · obtain ⟨receiver, hreceiver, h⟩ := ok_of_bind h
    obtain ⟨value, hvalue, h⟩ := ok_of_bind h
    cases h
    rw [bare, hp.one hreceiver, hp.one hvalue]
  -- an `if`
  · obtain ⟨condition, hcondition, h⟩ := ok_of_bind h
    obtain ⟨thens, hthens, h⟩ := ok_of_bind h
    obtain ⟨elses, helses, h⟩ := ok_of_bind h
    cases h
    simp only [bare, bareAll_eq_map, show condition.bare = condition from hp.one hcondition,
      hp.many hthens, hp.many? helses]
  -- a `for`
  · obtain ⟨initialization, hinitialization, h⟩ := ok_of_bind h
    obtain ⟨condition, hcondition, h⟩ := ok_of_bind h
    obtain ⟨increment, hincrement, h⟩ := ok_of_bind h
    obtain ⟨statements, hstatements, h⟩ := ok_of_bind h
    cases h
    rw [bare, bareAll_eq_map, hp.one? hinitialization, hp.one hcondition, hp.one? hincrement,
      hp.many hstatements]
  -- a `while`
  · obtain ⟨condition, hcondition, h⟩ := ok_of_bind h
    obtain ⟨statements, hstatements, h⟩ := ok_of_bind h
    cases h
    rw [bare, bareAll_eq_map, hp.one hcondition, hp.many hstatements]
  -- a `return`
  · obtain ⟨value, hvalue, h⟩ := ok_of_bind h
    cases h
    rw [bare, hp.one hvalue]
  -- a literal
  · obtain ⟨j, -, h⟩ := ok_of_bind h
    obtain ⟨value, -, h⟩ := ok_of_bind h
    cases h
    rfl
  -- parentheses
  · obtain ⟨expression, hexpression, h⟩ := ok_of_bind h
    cases h
    rw [bare, hp.one hexpression]
  -- an operator
  · obtain ⟨operator, -, h⟩ := ok_of_bind h
    obtain ⟨left, hleft, h⟩ := ok_of_bind h
    obtain ⟨right, hright, h⟩ := ok_of_bind h
    cases h
    rw [bare, hp.one hleft, hp.one hright]
  -- an access
  · obtain ⟨receiver, hreceiver, h⟩ := ok_of_bind h
    obtain ⟨name, -, h⟩ := ok_of_bind h
    cases h
    rw [bare, hp.one? hreceiver]
  -- a call
  · obtain ⟨receiver, hreceiver, h⟩ := ok_of_bind h
    obtain ⟨name, -, h⟩ := ok_of_bind h
    obtain ⟨arguments, harguments, h⟩ := ok_of_bind h
    cases h
    rw [bare, bareAll_eq_map, hp.one? hreceiver, hp.many harguments]
  -- no known kind
  · cases h

mutual

theorem bare_of_ofJson (j : Json) {tree : Node} (h : ofJson j = .ok tree) : tree.Bare := by
  match j with
  | .null =>
    cases h
    rfl
  | .object members =>
    rw [ofJson] at h
    exact bare_of_assemble (bare_of_readMembers members) h
  | .bool _ | .integer _ | .number _ | .string _ | .array _ => cases h

theorem bare_of_readMembers (members : List (String × Json)) : (readMembers members).Bare := by
  match members with
  | [] =>
    intro key part h
    cases h
  | (key, j) :: rest =>
    intro key' part h
    rw [readMembers, List.lookup_cons] at h
    split at h
    · cases h
      exact ⟨fun tree ht => bare_of_ofJson j ht, fun trees ht => bare_of_ofJsonList j ht⟩
    · exact bare_of_readMembers rest key' part h

theorem bare_of_ofJsonList (j : Json) {trees : List Node} (h : ofJsonList j = .ok trees) :
    trees.map bare = trees := by
  match j with
  | .array items =>
    rw [ofJsonList] at h
    exact bare_of_ofJsonAll items h
  | .null | .bool _ | .integer _ | .number _ | .string _ | .object _ =>
    unfold ofJsonList at h
    split at h <;> cases h
    rfl

theorem bare_of_ofJsonAll (items : List Json) {trees : List Node}
    (h : ofJsonAll items = .ok trees) : trees.map bare = trees := by
  match items with
  | [] =>
    cases h
    rfl
  | j :: rest =>
    rw [ofJsonAll] at h
    obtain ⟨tree, htree, h⟩ := ok_of_bind h
    obtain ⟨trees, htrees, h⟩ := ok_of_bind h
    cases h
    rw [List.map_cons, bare_of_ofJson j htree, bare_of_ofJsonAll rest htrees]

end

end Node

end BlockScript
