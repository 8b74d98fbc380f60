import BlockScript.Typing.Program
/-!
# Types that checking finds

The types that a program can name have no members. So what holds of all types without members holds
of the types that checking finds, as far as they come from these.
-/
namespace BlockScript

/-- A type whose values have no members. -/
def StaticType.Memberless (t : StaticType) : Prop := t.members? = none

section Memberless

theorem memberless_of_staticType {value : Literal} {t : StaticType}
    (h : value.staticType = .ok t) : t.Memberless := by
  cases value <;> simp only [Literal.staticType] at h
  case integer n =>
    split at h
    · cases h
      rfl
    · split at h <;> cases h
  case decimal d =>
    split at h
    · cases h
    · split at h <;> cases h
      rfl
  case raw j => cases h
  all_goals
    cases h
    rfl

theorem memberless_of_typeNamed {name : String} {t : StaticType} (h : typeNamed name = .ok t) :
    t.Memberless := by
  unfold typeNamed StaticType.named? at h
  split at h
  · next t' ht =>
    cases h
    have hmem := List.mem_of_find?_eq_some ht
    simp only [StaticType.builtin, List.mem_cons, List.not_mem_nil, or_false] at hmem
    rcases hmem with rfl | rfl | rfl | rfl | rfl | rfl | rfl | rfl <;> rfl
  · cases h

theorem memberless_of_mapM_typeNamed {typeName : Option String} {declared : Option StaticType}
    (h : typeName.mapM typeNamed = .ok declared) : ∀ d, declared = some d → d.Memberless := by
  rintro d rfl
  cases typeName with
  | none => cases h
  | some name =>
    simp only [Option.mapM_some] at h
    cases hn : typeNamed name with
    | error fault =>
      rw [hn] at h
      cases h
    | ok t =>
      rw [hn] at h
      cases h
      exact memberless_of_typeNamed hn

theorem memberless_any : StaticType.any.Memberless := rfl

theorem memberless_nil : StaticType.nil.Memberless := rfl

theorem memberless_of_typeOr {default t : StaticType} {name : Option String}
    (hd : default.Memberless) (h : typeOr default name = .ok t) : t.Memberless := by
  cases name with
  | none =>
    cases h
    exact hd
  | some name => exact memberless_of_typeNamed h

theorem memberless_of_mapM_typeOr {names : List (Option String)} {types : List StaticType}
    (h : names.mapM (typeOr .any) = .ok types) :
    types.length = names.length ∧ ∀ t ∈ types, t.Memberless := by
  induction names generalizing types with
  | nil =>
    cases h
    exact ⟨rfl, by simp⟩
  | cons name rest ih =>
    rw [List.mapM_cons] at h
    cases hn : typeOr .any name with
    | error fault =>
      rw [hn] at h
      cases h
    | ok t =>
      cases hr : rest.mapM (typeOr .any) with
      | error fault =>
        rw [hn, hr] at h
        cases h
      | ok ts =>
        rw [hn, hr] at h
        cases h
        obtain ⟨hlength, hm⟩ := ih hr
        refine ⟨by simp [hlength], ?_⟩
        simp only [List.mem_cons, forall_eq_or_imp]
        exact ⟨memberless_of_typeOr memberless_any hn, hm⟩

theorem memberless_of_headFunction {name : String} {parameters : List String}
    {parameterTypes : List (Option String)} {returnType : Option String} {f : StaticFunction}
    (h : headFunction name parameters parameterTypes returnType = .ok f) :
    f.name = name ∧ f.javaName = f.name ∧ f.arity = parameters.length ∧
      f.parameterTypes.length = parameterTypes.length ∧
      (∀ t ∈ f.parameterTypes, t.Memberless) ∧ f.returnType.Memberless := by
  unfold headFunction at h
  cases hps : parameterTypes.mapM (typeOr .any) with
  | error fault =>
    rw [hps] at h
    cases h
  | ok types =>
    cases hr : typeOr .nil returnType with
    | error fault =>
      rw [hps, hr] at h
      cases h
    | ok result =>
      rw [hps, hr] at h
      cases h
      obtain ⟨hlength, hm⟩ := memberless_of_mapM_typeOr hps
      exact ⟨rfl, rfl, rfl, hlength, hm, memberless_of_typeOr memberless_nil hr⟩

end Memberless

section Rules

variable {P : StaticType → Prop} {t : StaticType}

/-- The type of an operation is that of its first operand or one without members. -/
theorem holds_of_binaryType (hP : ∀ {t : StaticType}, t.Memberless → P t) {operator : String}
    {l r : StaticType} (hl : P l) (h : binaryType operator l r = .ok t) : P t := by
  unfold binaryType at h
  split at h
  · split at h <;> cases h
    exact hP rfl
  split at h
  · split at h <;> cases h
    exact hP rfl
  split at h
  · cases h
    exact hP rfl
  split at h
  · split at h <;> cases h
    exact hl
  · cases h

theorem holds_of_declaredType (hP : ∀ {t : StaticType}, t.Memberless → P t) {name : String}
    {typeName : Option String} {initial : Option StaticType}
    (hinitial : ∀ t, initial = some t → P t)
    (h : declaredType name typeName initial = .ok t) : P t := by
  cases typeName with
  | none =>
    cases initial with
    | none => cases h
    | some source =>
      cases h
      exact hinitial t rfl
  | some typeName =>
    cases initial with
    | none => exact hP (memberless_of_typeNamed h)
    | some source =>
      simp only [declaredType, bind, Except.bind] at h
      split at h
      · cases h
      · next declared hdeclared =>
        split at h
        · cases h
        · cases h
          exact hP (memberless_of_typeNamed hdeclared)

theorem holds_of_fieldType {name : String} {constant : Bool} {declared initial : Option StaticType}
    (hdeclared : ∀ t, declared = some t → P t) (hinitial : ∀ t, initial = some t → P t)
    (h : fieldType name constant declared initial = .ok t) : P t := by
  cases initial with
  | none =>
    simp only [fieldType] at h
    split at h
    · cases h
    · cases declared with
      | none => cases h
      | some d =>
        cases h
        exact hdeclared t rfl
  | some source =>
    cases declared with
    | none =>
      cases h
      exact hinitial t rfl
    | some d =>
      simp only [fieldType, bind, Except.bind] at h
      split at h
      · cases h
      · cases h
        exact hdeclared t rfl

end Rules

end BlockScript
