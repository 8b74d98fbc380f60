import BlockScript.Evaluation.Operators
import BlockScript.Proofs.Json.Equality
/-!
# Comparisons

Equality is an equivalence of the values without NaN. Two values of one of the four ordered kinds are
in exactly one of three orders, which goes with equality, and other values are in none.
-/
namespace BlockScript

namespace Value

def NaNFree : Value → Prop
  | decimal d => d.isNaN = false
  | raw j => j.NaNFree
  | _ => True

/-- What a value has in common with those that are equal to it. -/
inductive Shape where
  | nil
  | boolean (value : Bool)
  | character (text : String)
  | string (text : String)
  | integer (value : Int)
  | decimal (size : WithBot (WithTop ℚ))
  | object (typeName : String) (members : FrameId)
  | raw (kind : String) (shape : Json.Shape)

/-- A decimal is known by its size and a JSON value by its kind and its shape. -/
def shape : Value → Shape
  | nil => .nil
  | boolean b => .boolean b
  | character s => .character s
  | string s => .string s
  | integer n => .integer n
  | decimal d => .decimal d.size
  | object name members => .object name members
  | raw j => .raw j.kindName j.sorted.shape

def Shape.typeName : Shape → String
  | nil => "Nil"
  | boolean _ => "Boolean"
  | character _ => "Character"
  | string _ => "String"
  | integer _ => "Integer"
  | decimal _ => "Decimal"
  | object name _ => name
  | raw kind _ => kind

theorem typeName_shape (v : Value) : v.shape.typeName = v.typeName := by
  cases v <;> rfl

theorem typeName_congr {v w : Value} (h : v.shape = w.shape) : v.typeName = w.typeName := by
  rw [← typeName_shape, h, typeName_shape]

/-- Only decimals and JSON values share their shapes with others. -/
theorem eq_or_of_shape {v w : Value} (h : v.shape = w.shape) :
    v = w ∨ (∃ d d', v = decimal d ∧ w = decimal d' ∧ d.size = d'.size) ∨
      ∃ j j', v = raw j ∧ w = raw j' := by
  cases v <;> cases w
  case decimal.decimal d d' => exact .inr (.inl ⟨d, d', rfl, rfl, by simpa [shape] using h⟩)
  case raw.raw j j' => exact .inr (.inr ⟨j, j', rfl, rfl⟩)
  all_goals exact .inl (by cases h <;> rfl)

/-- The order of the four kinds of values that have one. -/
inductive Shape.Below : Shape → Shape → Prop
  | integers {x y : Int} : x < y → Below (.integer x) (.integer y)
  | decimals {x y : WithBot (WithTop ℚ)} : x < y → Below (.decimal x) (.decimal y)
  | characters {x y : String} : x < y → Below (.character x) (.character y)
  | strings {x y : String} : x < y → Below (.string x) (.string y)

theorem Shape.Below.trans {p q r : Shape} (h : p.Below q) (h' : q.Below r) : p.Below r := by
  cases h with
  | integers h =>
    cases h' with
    | integers h' => exact .integers (h.trans h')
  | decimals h =>
    cases h' with
    | decimals h' => exact .decimals (h.trans h')
  | characters h =>
    cases h' with
    | characters h' => exact .characters (h.trans h')
  | strings h =>
    cases h' with
    | strings h' => exact .strings (h.trans h')

inductive OrderedAlike : Value → Value → Prop
  | integers (x y : Int) : OrderedAlike (.integer x) (.integer y)
  | decimals (x y : Decimal) : OrderedAlike (.decimal x) (.decimal y)
  | characters (x y : String) : OrderedAlike (.character x) (.character y)
  | strings (x y : String) : OrderedAlike (.string x) (.string y)

theorem Shape.Below.orderedAlike {v w : Value} (h : v.shape.Below w.shape) : OrderedAlike v w := by
  cases v <;> cases w
  case integer.integer x y => exact .integers x y
  case decimal.decimal x y => exact .decimals x y
  case character.character x y => exact .characters x y
  case string.string x y => exact .strings x y
  all_goals cases h

inductive Ordered : Value → Prop
  | integer (x : Int) : Ordered (.integer x)
  | decimal (x : Decimal) : Ordered (.decimal x)
  | character (x : String) : Ordered (.character x)
  | string (x : String) : Ordered (.string x)

/-- A value is no object whose type has the name of a type that has an order. -/
def NameIsFree : Value → Prop
  | object name _ => name ∉ orderedTypeNames
  | _ => True

end Value

open Value

section Equality

variable {v w x : Value}

theorem equalValues_of_typeName (h : v.typeName ≠ w.typeName) : equalValues v w = .ok false :=
  if_pos (bne_iff_ne.mpr h)

/-- Equality of values without NaN is that of their shapes. -/
theorem exists_equality (hv : v.NaNFree) (hw : w.NaNFree) :
    ∃ e, equalValues v w = .ok e ∧ (e = true ↔ v.shape = w.shape) := by
  by_cases hname : v.typeName = w.typeName
  · unfold equalValues
    rw [if_neg (by simpa using hname)]
    cases v <;> cases w
    case decimal.decimal d d' =>
      simp only [Decimal.equal?_eq hv hw]
      exact ⟨_, rfl, by simp [shape]⟩
    case raw.raw j j' =>
      have hkind : j.kindName = j'.kindName := hname
      exact ⟨_, rfl, (Json.equal_iff hv hw).trans (by simp [shape, hkind])⟩
    case object.object name members name' members' =>
      have hname' : name = name' := hname
      exact ⟨_, rfl, by simp [shape, hname']⟩
    all_goals exact ⟨_, rfl, by simp [shape]⟩
  · refine ⟨false, equalValues_of_typeName hname, ?_⟩
    have hshape : v.shape ≠ w.shape := fun h => hname (typeName_congr h)
    simpa using hshape

/-- Values of one shape are equal to the same values. -/
theorem equalValues_congr (hv : v.NaNFree) (hw : w.NaNFree) (hx : x.NaNFree)
    (h : v.shape = w.shape) :
    equalValues v x = equalValues w x ∧ equalValues x v = equalValues x w := by
  obtain ⟨e₁, h₁, hiff₁⟩ := exists_equality hv hx
  obtain ⟨e₂, h₂, hiff₂⟩ := exists_equality hw hx
  obtain ⟨e₃, h₃, hiff₃⟩ := exists_equality hx hv
  obtain ⟨e₄, h₄, hiff₄⟩ := exists_equality hx hw
  have hleft : e₁ = e₂ := by rw [Bool.eq_iff_iff, hiff₁, hiff₂, h]
  have hright : e₃ = e₄ := by rw [Bool.eq_iff_iff, hiff₃, hiff₄, h]
  rw [h₁, h₂, h₃, h₄, hleft, hright]
  exact ⟨rfl, rfl⟩

end Equality

section Order

variable {v w x : Value}

/-- Comparing in a linear order is comparing the shapes that are made from it. -/
theorem compare_shapes {α : Type} [LinearOrder α] {mk : α → Shape} (hinj : mk.Injective)
    (hbelow : ∀ x y, (mk x).Below (mk y) ↔ x < y) (x y : α) :
    (compare x y = .lt ↔ (mk x).Below (mk y)) ∧ (compare x y = .eq ↔ mk x = mk y) ∧
      (compare x y = .gt ↔ (mk y).Below (mk x)) := by
  rw [compare_lt_iff_lt, compare_eq_iff_eq, compare_gt_iff_gt, hbelow, hbelow, hinj.eq_iff]
  exact ⟨.rfl, .rfl, .rfl⟩

theorem orderValues_decimal {a b : Decimal} (ha : a.isNaN = false) (hb : b.isNaN = false) :
    orderValues (.decimal a) (.decimal b) = .ok (compare a.size b.size) := by
  have hkind : ¬((Value.decimal a).typeName != (Value.decimal b).typeName ||
      !orderedTypeNames.contains (Value.decimal a).typeName) = true := Bool.false_ne_true
  unfold orderValues
  rw [if_neg hkind]
  dsimp only
  rw [Decimal.compare?_eq ha hb]

/-- Two values of one ordered kind have an order, which is that of their shapes. -/
theorem exists_order (h : OrderedAlike v w) (hv : v.NaNFree) (hw : w.NaNFree) :
    ∃ o, orderValues v w = .ok o ∧ (o = .lt ↔ v.shape.Below w.shape) ∧
      (o = .eq ↔ v.shape = w.shape) ∧ (o = .gt ↔ w.shape.Below v.shape) := by
  cases h with
  | integers x y =>
    refine ⟨compare x y, rfl, compare_shapes (fun _ _ h => by cases h; rfl) (fun _ _ => ?_) x y⟩
    exact ⟨fun | .integers h => h, .integers⟩
  | decimals a b =>
    refine ⟨_, orderValues_decimal hv hw,
      compare_shapes (fun _ _ h => by cases h; rfl) (fun _ _ => ?_) a.size b.size⟩
    exact ⟨fun | .decimals h => h, .decimals⟩
  | characters x y =>
    refine ⟨compare x y, rfl, compare_shapes (fun _ _ h => by cases h; rfl) (fun _ _ => ?_) x y⟩
    exact ⟨fun | .characters h => h, .characters⟩
  | strings x y =>
    refine ⟨compare x y, rfl, compare_shapes (fun _ _ h => by cases h; rfl) (fun _ _ => ?_) x y⟩
    exact ⟨fun | .strings h => h, .strings⟩

/-- The names of the ordered types belong to values of the ordered kinds. -/
theorem Value.Ordered.of_typeName (hv : v.NameIsFree) (h : v.typeName ∈ orderedTypeNames) :
    v.Ordered := by
  cases v with
  | integer n => exact .integer n
  | decimal d => exact .decimal d
  | character s => exact .character s
  | string s => exact .string s
  | object name members => exact absurd h hv
  | raw j => cases j <;> simp [typeName, Json.kindName, orderedTypeNames] at h
  | _ => simp [typeName, orderedTypeNames] at h

theorem Value.OrderedAlike.of_typeName (hv : v.Ordered) (hw : w.Ordered)
    (h : v.typeName = w.typeName) : OrderedAlike v w := by
  cases hv <;> cases hw
  all_goals first | constructor | simp [typeName] at h

/-- Values that are not of one ordered kind have no order. -/
theorem orderValues_incomparable (h : ¬OrderedAlike v w) (hv : v.NameIsFree) (hw : w.NameIsFree) :
    orderValues v w = .error (.run (.incomparable v.typeName w.typeName)) := by
  refine if_pos ?_
  by_contra hnot
  obtain ⟨hname, hordered⟩ : v.typeName = w.typeName ∧ v.typeName ∈ orderedTypeNames := by
    simpa using hnot
  exact h (.of_typeName (.of_typeName hv hordered) (.of_typeName hw (hname ▸ hordered)) hname)

/-- Only values of one ordered kind have an order. -/
theorem orderedAlike_of_order {o : Ordering} (h : orderValues v w = .ok o) : OrderedAlike v w := by
  unfold orderValues at h
  split at h
  · cases h
  split at h
  · exact .integers _ _
  · exact .decimals _ _
  · exact .characters _ _
  · exact .strings _ _
  · cases h

/-- Values of types without an order have none with any value. -/
theorem orderValues_of_typeName (h : v.typeName ∉ orderedTypeNames) (x : Value) :
    orderValues v x = .error (.run (.incomparable v.typeName x.typeName)) ∧
      orderValues x v = .error (.run (.incomparable x.typeName v.typeName)) := by
  constructor
  · exact if_pos (by simp [h])
  · refine if_pos ?_
    by_cases hname : x.typeName = v.typeName
    · simp [hname, h]
    · simp [hname]

/-- Values of one shape are in the same orders with others. -/
theorem orderValues_congr (hv : v.NaNFree) (hw : w.NaNFree) (hx : x.NaNFree)
    (h : v.shape = w.shape) :
    orderValues v x = orderValues w x ∧ orderValues x v = orderValues x w := by
  obtain rfl | ⟨d, d', rfl, rfl, hsize⟩ | ⟨j, j', rfl, rfl⟩ := eq_or_of_shape h
  · exact ⟨rfl, rfl⟩
  · cases x with
    | decimal e =>
      rw [orderValues_decimal hv hx, orderValues_decimal hw hx, orderValues_decimal hx hv,
        orderValues_decimal hx hw, hsize]
      exact ⟨rfl, rfl⟩
    | _ => exact ⟨rfl, rfl⟩
  · have hname : (raw j).typeName = (raw j').typeName := typeName_congr h
    have hraw : (raw j).typeName ∉ orderedTypeNames := by
      cases j <;> simp [typeName, Json.kindName, orderedTypeNames]
    obtain ⟨hleft, hright⟩ := orderValues_of_typeName hraw x
    obtain ⟨hleft', hright'⟩ := orderValues_of_typeName (hname ▸ hraw) x
    rw [hleft, hright, hleft', hright', hname]
    exact ⟨rfl, rfl⟩

end Order

section Operators

variable {v w x : Value} {operator : String}

theorem applyBinary_equality (h : operator ∈ equalities) (v w : Value) :
    applyBinary operator v w =
      (equalValues v w).map fun e => .boolean (if operator == "==" then e else !e) :=
  if_pos (List.contains_iff_mem.mpr h)

theorem applyBinary_ordering (h : operator ∈ orderings) (v w : Value) :
    applyBinary operator v w = (orderValues v w).map fun o => .boolean (holds operator o) := by
  have hnot : operator ∉ equalities := by
    simp only [orderings, List.mem_cons, List.not_mem_nil, or_false] at h
    obtain rfl | rfl | rfl | rfl := h <;> decide
  rw [applyBinary, if_neg (by simpa using hnot), if_pos (List.contains_iff_mem.mpr h)]

def Says (operator : String) (v w : Value) (answer : Bool) : Prop :=
  applyBinary operator v w = .ok (.boolean answer)

theorem exists_says_equal (hv : v.NaNFree) (hw : w.NaNFree) :
    ∃ e, Says "==" v w e ∧ Says "!=" v w (!e) ∧ (e = true ↔ v.shape = w.shape) := by
  obtain ⟨e, he, hiff⟩ := exists_equality hv hw
  refine ⟨e, ?_, ?_, hiff⟩
  · rw [Says, applyBinary_equality (by decide), he]
    rfl
  · rw [Says, applyBinary_equality (by decide), he]
    rfl

theorem says_equal_iff (hv : v.NaNFree) (hw : w.NaNFree) :
    Says "==" v w true ↔ v.shape = w.shape := by
  obtain ⟨e, he, -, hiff⟩ := exists_says_equal hv hw
  rw [← hiff, Says, he]
  simp

/-- What the ordering operators say of two values in an order. -/
theorem says_ordering {o : Ordering} (ho : orderValues v w = .ok o) (h : operator ∈ orderings) :
    Says operator v w (holds operator o) := by
  rw [Says, applyBinary_ordering h, ho]
  rfl

theorem says_less_iff (hv : v.NaNFree) (hw : w.NaNFree) :
    Says "<" v w true ↔ v.shape.Below w.shape := by
  constructor
  · intro h
    rw [Says, applyBinary_ordering (by decide)] at h
    cases ho : orderValues v w with
    | error fault =>
      rw [ho] at h
      cases h
    | ok o =>
      obtain ⟨o', ho', hless, -⟩ := exists_order (orderedAlike_of_order ho) hv hw
      rw [ho] at h ho'
      cases ho'
      refine hless.mp ?_
      have hholds : holds "<" o = true := by simpa [Except.map] using h
      simpa [holds] using hholds
  · intro h
    obtain ⟨o, ho, hless, -⟩ := exists_order h.orderedAlike hv hw
    have hsays : Says "<" v w (holds "<" o) := says_ordering ho (by decide)
    rw [hless.mpr h] at hsays
    exact hsays

/-- Two values of one ordered kind are in exactly one of three orders, and all operators say so. -/
theorem exists_says_order (h : OrderedAlike v w) (hv : v.NaNFree) (hw : w.NaNFree) :
    ∃ less equal greater : Bool, Says "<" v w less ∧ Says "==" v w equal ∧ Says ">" v w greater ∧
      Says "<=" v w (less || equal) ∧ Says ">=" v w (greater || equal) ∧
      [less, equal, greater].count true = 1 := by
  obtain ⟨o, ho, -, hequal, -⟩ := exists_order h hv hw
  obtain ⟨e, he, -, hiff⟩ := exists_says_equal hv hw
  have heq : e = (o == .eq) := by
    rw [Bool.eq_iff_iff, hiff, ← hequal]
    simp
  subst heq
  have hless : Says "<" v w (holds "<" o) := says_ordering ho (by decide)
  have hgreater : Says ">" v w (holds ">" o) := says_ordering ho (by decide)
  have hle : Says "<=" v w (holds "<=" o) := says_ordering ho (by decide)
  have hge : Says ">=" v w (holds ">=" o) := says_ordering ho (by decide)
  refine ⟨o == .lt, o == .eq, o == .gt, hless, he, hgreater, ?_, ?_, ?_⟩
  · cases o <;> exact hle
  · cases o <;> exact hge
  · cases o <;> rfl

/-- Equal values give the same with every comparison and every third value. -/
theorem applyBinary_congr (hv : v.NaNFree) (hw : w.NaNFree) (hx : x.NaNFree)
    (h : v.shape = w.shape) (hop : operator ∈ equalities ++ orderings) :
    applyBinary operator v x = applyBinary operator w x ∧
      applyBinary operator x v = applyBinary operator x w := by
  obtain hop | hop := List.mem_append.mp hop
  · obtain ⟨hleft, hright⟩ := equalValues_congr hv hw hx h
    simp only [applyBinary_equality hop, hleft, hright, and_self]
  · obtain ⟨hleft, hright⟩ := orderValues_congr hv hw hx h
    simp only [applyBinary_ordering hop, hleft, hright, and_self]

/-- How equality and the order go together. -/
structure Coherent : Prop where
  total : ∀ v w : Value, v.NaNFree → w.NaNFree → ∃ e, Says "==" v w e ∧ Says "!=" v w (!e)
  refl : ∀ v : Value, v.NaNFree → Says "==" v v true
  symm : ∀ v w : Value, v.NaNFree → w.NaNFree → Says "==" v w true → Says "==" w v true
  trans : ∀ v w x : Value, v.NaNFree → w.NaNFree → x.NaNFree →
    Says "==" v w true → Says "==" w x true → Says "==" v x true
  types : ∀ v w : Value, v.typeName ≠ w.typeName → Says "==" v w false
  objects : ∀ name members members',
    Says "==" (.object name members) (.object name members') (members == members')
  order : ∀ v w : Value, OrderedAlike v w → v.NaNFree → w.NaNFree →
    ∃ less equal greater : Bool, Says "<" v w less ∧ Says "==" v w equal ∧ Says ">" v w greater ∧
      Says "<=" v w (less || equal) ∧ Says ">=" v w (greater || equal) ∧
      [less, equal, greater].count true = 1
  less_trans : ∀ v w x : Value, v.NaNFree → w.NaNFree → x.NaNFree →
    Says "<" v w true → Says "<" w x true → Says "<" v x true
  congr : ∀ v w x : Value, v.NaNFree → w.NaNFree → x.NaNFree → Says "==" v w true →
    ∀ operator ∈ equalities ++ orderings, applyBinary operator v x = applyBinary operator w x ∧
      applyBinary operator x v = applyBinary operator x w
  incomparable : ∀ v w : Value, ¬OrderedAlike v w → v.NameIsFree → w.NameIsFree →
    ∀ operator ∈ orderings,
      applyBinary operator v w = .error (.run (.incomparable v.typeName w.typeName))

/-- Equality is an equivalence of all values without NaN, the order is total on two values of one
ordered kind and goes with it, and to order other values fails. -/
theorem comparisons_cohere : Coherent where
  total v w hv hw := by
    obtain ⟨e, he, hne, -⟩ := exists_says_equal hv hw
    exact ⟨e, he, hne⟩
  refl v hv := (says_equal_iff hv hv).mpr rfl
  symm v w hv hw h := (says_equal_iff hw hv).mpr ((says_equal_iff hv hw).mp h).symm
  trans v w x hv hw hx h h' :=
    (says_equal_iff hv hx).mpr
      (((says_equal_iff hv hw).mp h).trans ((says_equal_iff hw hx).mp h'))
  types v w h := by
    rw [Says, applyBinary_equality (by decide), equalValues_of_typeName h]
    rfl
  objects name members members' := by
    rw [Says, applyBinary_equality (by decide), equalValues, if_neg (by simp [typeName])]
    rfl
  order v w h hv hw := exists_says_order h hv hw
  less_trans v w x hv hw hx h h' :=
    (says_less_iff hv hx).mpr (((says_less_iff hv hw).mp h).trans ((says_less_iff hw hx).mp h'))
  congr v w x hv hw hx h operator hop :=
    applyBinary_congr hv hw hx ((says_equal_iff hv hw).mp h) hop
  incomparable v w h hv hw operator hop := by
    rw [applyBinary_ordering hop, orderValues_incomparable h hv hw]
    rfl

/-- `1.0` and `1.00` are equal and compare alike with `2`; minus zero is below both. A text and a
character have no order. -/
theorem comparisons_cohere_ones :
    let one : Value := .decimal (.finite false 10 (-1))
    let one' : Value := .decimal (.finite false 100 (-2))
    let zero : Value := .decimal (.finite true 0 0)
    one.NaNFree ∧ one'.NaNFree ∧ zero.NaNFree ∧ OrderedAlike one one' ∧ Says "==" one one' true ∧
      Says "==" one' one true ∧ Says "<" zero one true ∧
      applyBinary "<" zero one = applyBinary "<" zero one' ∧
      applyBinary "<" (.string "a") (.character "b") =
        .error (.run (.incomparable "String" "Character")) := by
  intro one one' zero
  have hequal : Says "==" one one' true := rfl
  have halike := comparisons_cohere.congr one one' zero rfl rfl rfl hequal "<" (by decide)
  have hfails := comparisons_cohere.incomparable (.string "a") (.character "b")
    (fun h => by cases h) trivial trivial "<" (by decide)
  exact ⟨rfl, rfl, rfl, .decimals _ _, hequal,
    comparisons_cohere.symm one one' rfl rfl hequal, rfl, halike.2, hfails⟩

end Operators

end BlockScript
