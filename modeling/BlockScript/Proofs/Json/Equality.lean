import BlockScript.Json.Basic
import BlockScript.Proofs.Decimal.Order
/-!
# Equal JSON values

Two JSON values without NaN are equal if they have one shape: the same parts in the same places, with
the members of an object in the order of their keys and numbers known by their size.
-/
namespace BlockScript.Json

/-- What a JSON value has in common with those that are equal to it. -/
inductive Shape where
  | null
  | number (size : WithBot (WithTop ℚ))
  | string (text : String)
  | array (items : List Shape)
  | object (members : List (String × Shape))

mutual

/-- A value with its numbers by their size. The truth values are numbers. -/
def shape : Json → Shape
  | null => .null
  | bool b => .number (Decimal.finite false b.toNat 0).size
  | integer n => .number (Decimal.finite (n < 0) n.natAbs 0).size
  | number d => .number d.size
  | string s => .string s
  | array items => .array (itemShapes items)
  | object members => .object (memberShapes members)

def itemShapes : List Json → List Shape
  | [] => []
  | j :: rest => shape j :: itemShapes rest

def memberShapes : List (String × Json) → List (String × Shape)
  | [] => []
  | (key, j) :: rest => (key, shape j) :: memberShapes rest

end

mutual

def NaNFree : Json → Prop
  | number d => d.isNaN = false
  | array items => ItemsNaNFree items
  | object members => MembersNaNFree members
  | _ => True

def ItemsNaNFree : List Json → Prop
  | [] => True
  | j :: rest => NaNFree j ∧ ItemsNaNFree rest

def MembersNaNFree : List (String × Json) → Prop
  | [] => True
  | (_, j) :: rest => NaNFree j ∧ MembersNaNFree rest

end

section Sorted

theorem membersNaNFree_insertMember {key : String} {j : Json} (hj : j.NaNFree) :
    ∀ {members : List (String × Json)}, MembersNaNFree members →
      MembersNaNFree (insertMember key j members)
  | [], _ => ⟨hj, trivial⟩
  | (key', j') :: rest, h => by
    unfold insertMember
    split
    · exact ⟨hj, h⟩
    · exact ⟨h.1, membersNaNFree_insertMember hj h.2⟩

mutual

theorem nanFree_sorted : ∀ {j : Json}, j.NaNFree → j.sorted.NaNFree
  | null, h | bool _, h | integer _, h | number _, h | string _, h => h
  | array _, h => itemsNaNFree_sortedItems h
  | object _, h => membersNaNFree_sortedMembers h

theorem itemsNaNFree_sortedItems :
    ∀ {items : List Json}, ItemsNaNFree items → ItemsNaNFree (sortedItems items)
  | [], _ => trivial
  | _ :: _, h => ⟨nanFree_sorted h.1, itemsNaNFree_sortedItems h.2⟩

theorem membersNaNFree_sortedMembers :
    ∀ {members : List (String × Json)}, MembersNaNFree members →
      MembersNaNFree (sortedMembers members)
  | [], _ => trivial
  | (_, _) :: _, h =>
    membersNaNFree_insertMember (nanFree_sorted h.1) (membersNaNFree_sortedMembers h.2)

end

end Sorted

section Same

variable {j j' : Json} {d : Decimal}

theorem shape_of_numeric (h : j.numeric? = some d) : j.shape = .number d.size := by
  cases j <;> cases h <;> rfl

theorem isNaN_of_numeric (hj : j.NaNFree) (h : j.numeric? = some d) : d.isNaN = false := by
  cases j with
  | number d' =>
    cases h
    exact hj
  | _ => cases h <;> rfl

theorem same_of_numeric (h : j.numeric? = some d) :
    j.same j' = match j'.numeric? with
      | some d' => d.compare? d' == some .eq
      | none => false := by
  cases j <;> cases h <;> cases j' <;> rfl

theorem same_iff_of_numeric (hj : j.NaNFree) (hj' : j'.NaNFree) (h : j.numeric? = some d) :
    j.same j' = true ↔ j.shape = j'.shape := by
  rw [same_of_numeric h, shape_of_numeric h]
  cases h' : j'.numeric? with
  | some d' =>
    rw [shape_of_numeric h']
    show (d.compare? d' == some .eq) = true ↔ _
    rw [Decimal.compare?_eq (isNaN_of_numeric hj h) (isNaN_of_numeric hj' h')]
    simp
  | none => cases j' <;> simp [numeric?, shape] at h' ⊢

mutual

/-- Values without NaN are the same part by part if their shapes are. -/
theorem same_iff : ∀ {j j' : Json}, j.NaNFree → j'.NaNFree → (j.same j' = true ↔ j.shape = j'.shape)
  | bool _, _, hj, hj' | integer _, _, hj, hj' | number _, _, hj, hj' =>
    same_iff_of_numeric hj hj' rfl
  | null, j', _, _ => by cases j' <;> simp [same, shape, numeric?]
  | string _, j', _, _ => by cases j' <;> simp [same, shape, numeric?]
  | array items, j', hj, hj' => by
    cases j' with
    | array items' => simpa [same, shape] using sameItems_iff hj hj'
    | _ => simp [same, shape, numeric?]
  | object members, j', hj, hj' => by
    cases j' with
    | object members' => simpa [same, shape] using sameMembers_iff hj hj'
    | _ => simp [same, shape, numeric?]

theorem sameItems_iff : ∀ {items items' : List Json}, ItemsNaNFree items → ItemsNaNFree items' →
    (sameItems items items' = true ↔ itemShapes items = itemShapes items')
  | [], [], _, _ | [], _ :: _, _, _ | _ :: _, [], _, _ => by simp [sameItems, itemShapes]
  | _ :: _, _ :: _, h, h' => by
    simp [sameItems, itemShapes, same_iff h.1 h'.1, sameItems_iff h.2 h'.2]

theorem sameMembers_iff :
    ∀ {members members' : List (String × Json)}, MembersNaNFree members → MembersNaNFree members' →
      (sameMembers members members' = true ↔ memberShapes members = memberShapes members')
  | [], [], _, _ | [], _ :: _, _, _ | _ :: _, [], _, _ => by simp [sameMembers, memberShapes]
  | (_, _) :: _, (_, _) :: _, h, h' => by
    simp [sameMembers, memberShapes, same_iff h.1 h'.1, sameMembers_iff h.2 h'.2, and_assoc]

end

/-- Values without NaN are equal if their shapes are, once their members are in order. -/
theorem equal_iff (hj : j.NaNFree) (hj' : j'.NaNFree) :
    j.equal j' = true ↔ j.sorted.shape = j'.sorted.shape :=
  same_iff (nanFree_sorted hj) (nanFree_sorted hj')

example : equal (.object [("a", .bool true), ("b", .null)])
    (.object [("b", .null), ("a", .integer 1)]) = true := by decide

end Same

end BlockScript.Json
