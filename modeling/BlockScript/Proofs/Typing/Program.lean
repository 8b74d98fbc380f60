import BlockScript.Proofs.Typing.Statements
/-!
# Checked programs are well typed

The root frame of a program grows by its fields, then by its methods, and stays as it is while the
bodies of the methods are checked. So every body sees all fields and all methods.
-/
namespace BlockScript

open Check

section Fields

variable {scope : FrameId} {funs : List (Signature × StaticFunction)}

theorem initializes_of_fieldType {Γ : StaticView} {name : String} {constant : Bool} {value : Node}
    {declared initial : Option StaticType} {t : StaticType}
    (h : fieldType name constant declared initial = .ok t)
    (hdeclared : ∀ d, declared = some d → d.Memberless)
    (hvalue : value = .absent ∧ initial = none ∨
      ∃ source, initial = some source ∧ HasType Γ value source ∧ source.Memberless) :
    Initializes Γ value t ∧ t.Memberless := by
  rcases hvalue with ⟨rfl, rfl⟩ | ⟨source, rfl, ht, hm⟩
  · cases declared with
    | none =>
      simp only [fieldType] at h
      split at h <;> cases h
    | some d =>
      simp only [fieldType] at h
      split at h <;> cases h
      exact ⟨.inl rfl, hdeclared t rfl⟩
  · cases declared with
    | none =>
      cases h
      exact ⟨.inr ⟨t, ht, by simp [StaticType.accepts]⟩, hm⟩
    | some d =>
      simp only [fieldType] at h
      cases hr : requireAccepts d source with
      | error fault =>
        simp only [bind, Except.bind, hr] at h
        cases h
      | ok u =>
        simp only [bind, Except.bind, hr] at h
        cases h
        exact ⟨.inr ⟨source, ht, accepts_of_requireAccepts hr⟩, hdeclared t rfl⟩

theorem checkField_sound {c : Checker} {vars : List (String × StaticVariable)} (hp : Proper c.scopes)
    (hs : c.scopes.Sees scope [(vars, funs)]) {node : Node} (hw : WrittenField node) :
    Gives (checkField scope node) c fun node c' => ∃ name typeName constant value v,
      node = .field name typeName constant value (some v) ∧ v.name = name ∧
        v.constant = constant ∧ v.home = scope ∧ Initializes [(vars, funs)] value v.type ∧
        Advances scope c c' [(vars ++ [(v.name, v)], funs)] ∧ c'.scopes.next = c.scopes.next ∧
        ∀ C, c'.scopes.Grows C → Fresh C vars v := by
  cases hw with
  | @field name typeName constant value bound given =>
    rw [checkField]
    refine (gives_lift _).bind ?_
    rintro declared c₁ ⟨hdeclared, rfl⟩
    refine (gives_checkInitial hp hs given).bind ?_
    rintro ⟨value, initial⟩ c₂ ⟨h₂, hvalue⟩
    refine (gives_lift _).bind ?_
    rintro t c₃ ⟨ht, rfl⟩
    obtain ⟨hinit, hm⟩ :=
      initializes_of_fieldType ht (memberless_of_mapM_typeNamed hdeclared) hvalue
    have hp₂ : Proper c₃.scopes := by rwa [h₂]
    have hs₂ : c₃.scopes.Sees scope [(vars, funs)] := by rwa [h₂]
    refine (gives_introduce hp₂ hs₂ "field" (v := ⟨scope, name, name, constant, t⟩) rfl hm
      rfl).bind ?_
    rintro ⟨⟩ c₄ ⟨h₄, hnext, hfresh⟩
    exact ⟨_, _, _, _, _, rfl, rfl, rfl, rfl, hinit, (Advances.of_eq hp hs h₂).trans h₄,
      by rw [hnext, h₂], hfresh⟩

theorem checkFields_sound {c : Checker} {vars : List (String × StaticVariable)}
    (hp : Proper c.scopes) (hs : c.scopes.Sees 0 [(vars, funs)]) {fields : List Node}
    (hw : ∀ field ∈ fields, WrittenField field) :
    Gives (fields.mapM (checkField 0)) c fun fields c' => ∃ vars',
      Advances 0 c c' [(vars', funs)] ∧ c'.scopes.next = c.scopes.next ∧
        ∀ C, c'.scopes.Grows C → FieldsTyped C funs vars fields vars' := by
  induction fields generalizing c vars with
  | nil => exact ⟨vars, .of_eq hp hs rfl, rfl, fun C _ => .nil⟩
  | cons field rest ih =>
    obtain ⟨hfield, hrest⟩ := List.forall_mem_cons.mp hw
    rw [List.mapM_cons]
    refine (checkField_sound hp hs hfield).bind ?_
    rintro _ c₁ ⟨name, typeName, constant, value, v, rfl, rfl, rfl, hhome, hinit, h₁, hnext₁, hfresh⟩
    refine (ih h₁.proper h₁.sees hrest).bind ?_
    rintro rest c₂ ⟨vars', h₂, hnext₂, htail⟩
    exact ⟨vars', h₁.trans h₂, hnext₂.trans hnext₁, fun C hC =>
      .cons hinit (hfresh C (h₂.grows.trans hC)) hhome (htail C hC)⟩

end Fields

/-- The methods bind functions one after the other: the functions of the program before and after
them. Their bodies have not been checked. -/
inductive MethodsDeclared : List (Signature × StaticFunction) → List Node →
    List (Signature × StaticFunction) → Prop where
  | nil {funs : List (Signature × StaticFunction)} : MethodsDeclared funs [] funs
  | cons {funs funs' : List (Signature × StaticFunction)} {f : StaticFunction}
      {parameters : List String} {parameterTypes : List (Option String)}
      {returnType : Option String} {statements rest : List Node}
      (paired : parameterTypes.length = parameters.length) (arity : f.arity = parameters.length)
      (fitting : f.parameterTypes.length = parameters.length)
      (memberless : ∀ t ∈ f.parameterTypes, t.Memberless)
      (body : ∀ node ∈ statements, WrittenStatement node)
      (unbound : funs.lookup f.signature = none)
      (tail : MethodsDeclared (funs ++ [(f.signature, f)]) rest funs') :
      MethodsDeclared funs
        (.method f.name parameters parameterTypes returnType statements (some f) :: rest) funs'

section Methods

variable {scope : FrameId}

theorem declareMethod_sound {c : Checker} {vars : List (String × StaticVariable)}
    {funs : List (Signature × StaticFunction)} (hp : Proper c.scopes)
    (hs : c.scopes.Sees scope [(vars, funs)]) {node : Node} (hw : WrittenMethod node) :
    Gives (declareMethod scope node) c fun node c' =>
      ∃ parameters parameterTypes returnType statements f,
        node = .method f.name parameters parameterTypes returnType statements (some f) ∧
          parameterTypes.length = parameters.length ∧ f.arity = parameters.length ∧
          f.parameterTypes.length = parameters.length ∧
          (∀ t ∈ f.parameterTypes, t.Memberless) ∧ (∀ node ∈ statements, WrittenStatement node) ∧
          funs.lookup f.signature = none ∧ c'.scopes.next = c.scopes.next ∧
          Advances scope c c' [(vars, funs ++ [(f.signature, f)])] := by
  cases hw with
  | @method name parameters parameterTypes returnType statements callee paired body =>
    rw [declareMethod]
    refine (gives_lift _).bind ?_
    rintro f c₁ ⟨hf, rfl⟩
    obtain ⟨rfl, hspelled, harity, hlength, hms, hm⟩ := memberless_of_headFunction hf
    refine (gives_defineFunction _ _).bind ?_
    rintro ⟨⟩ c₂ ⟨hbinds, h₂⟩
    refine (gives_note _ _).bind fun _ c₃ h₃ => ?_
    have hnext : c₃.scopes.next = c₁.scopes.next := by
      rw [h₃, h₂, Scopes.addFunction, Scopes.next_update]
    refine ⟨parameters, parameterTypes, returnType, statements, f, rfl, paired, harity,
      hlength.trans paired, hms, body, ?_, hnext, ⟨?_, ?_, ?_, fun i fr hfr hi => ?_, ?_⟩⟩
    · rw [hs.bindsFunction] at hbinds
      simpa using hbinds
    · rw [h₃, h₂]
      exact hp.addFunction scope hm hms (.inr hspelled)
    · rw [h₃, h₂]
      exact Scopes.grows_addFunction _ _ _ _
    · rw [h₃, h₂]
      exact Scopes.keepsBut_update _ _ _ _
    · have hlt := Scopes.lt_next_of_getElem? hfr
      rw [hnext] at hlt
      exact absurd hlt (Nat.not_lt.mpr hi)
    · rw [h₃, h₂]
      exact hs.addFunction _ _

theorem declareMethods_sound {c : Checker} {vars : List (String × StaticVariable)}
    {funs : List (Signature × StaticFunction)} (hp : Proper c.scopes)
    (hs : c.scopes.Sees scope [(vars, funs)]) {methods : List Node}
    (hw : ∀ method ∈ methods, WrittenMethod method) :
    Gives (methods.mapM (declareMethod scope)) c fun methods c' => ∃ funs',
      Advances scope c c' [(vars, funs')] ∧ c'.scopes.next = c.scopes.next ∧
        MethodsDeclared funs methods funs' := by
  induction methods generalizing c funs with
  | nil => exact ⟨funs, .of_eq hp hs rfl, rfl, .nil⟩
  | cons method rest ih =>
    obtain ⟨hmethod, hrest⟩ := List.forall_mem_cons.mp hw
    rw [List.mapM_cons]
    refine (declareMethod_sound hp hs hmethod).bind ?_
    rintro _ c₁ ⟨parameters, parameterTypes, returnType, statements, f, rfl, hpaired, harity,
      hlength, hms, hbody, hunbound, hnext₁, h₁⟩
    refine (ih h₁.proper h₁.sees hrest).bind ?_
    rintro rest c₂ ⟨funs', h₂, hnext₂, htail⟩
    exact ⟨funs', h₁.trans h₂, hnext₂.trans hnext₁,
      .cons hpaired harity hlength hms hbody hunbound htail⟩

theorem bindParameters_sound {c : Checker} {vars : List (String × StaticVariable)} {Γ : StaticView}
    (hp : Proper c.scopes) (hs : c.scopes.Sees scope ((vars, []) :: Γ))
    (hplaced : ∀ b ∈ vars, b.2.home = scope) {names : List String} {types : List StaticType}
    (hlength : types.length = names.length) (hms : ∀ t ∈ types, t.Memberless) :
    Gives (bindParameters scope names types) c fun _ c' => ∃ vars',
      Advances scope c c' ((vars', []) :: Γ) ∧ (∀ b ∈ vars', b.2.home = scope) ∧
        ∀ C, c'.scopes.Grows C → ParametersTyped C vars names types vars' := by
  induction names generalizing c vars types with
  | nil =>
    obtain rfl := List.length_eq_zero_iff.mp hlength
    exact ⟨vars, .of_eq hp hs rfl, hplaced, fun C _ => .nil⟩
  | cons name names ih =>
    cases types with
    | nil => cases hlength
    | cons t types =>
      simp only [List.mem_cons, forall_eq_or_imp] at hms
      rw [bindParameters]
      refine (gives_declared hp hs (v := ⟨scope, name, name, false, t⟩) rfl hms.1 rfl).bind ?_
      rintro ⟨⟩ c₁ ⟨h₁, -, hfresh⟩
      have hplaced₁ : ∀ b ∈ vars ++ [(name, (⟨scope, name, name, false, t⟩ : StaticVariable))],
          b.2.home = scope := by
        intro b hb
        rcases List.mem_append.mp hb with hb | hb
        · exact hplaced b hb
        · rw [List.mem_singleton.mp hb]
      refine (ih h₁.proper h₁.sees hplaced₁ (Nat.succ.inj hlength) hms.2).imp ?_
      rintro ⟨⟩ c₂ ⟨vars', h₂, hplaced₂, hrest⟩
      exact ⟨vars', h₁.trans h₂, hplaced₂, fun C hC =>
        .cons (v := ⟨scope, name, name, false, t⟩) (hfresh C (h₂.grows.trans hC)) rfl (hrest C hC)⟩

theorem checkBody_sound {c : Checker} {Γ : StaticView} (hp : Proper c.scopes)
    (hs : c.scopes.Sees 0 Γ) {name : String} {parameters : List String}
    {parameterTypes : List (Option String)} {returnType : Option String} {statements : List Node}
    {f : StaticFunction} (harity : f.arity = parameters.length)
    (hlength : f.parameterTypes.length = parameters.length)
    (hms : ∀ t ∈ f.parameterTypes, t.Memberless) (hw : ∀ node ∈ statements, WrittenStatement node) :
    Gives (checkBody 0 (.method name parameters parameterTypes returnType statements (some f))) c
      fun node c' => ∃ statements,
        node = .method name parameters parameterTypes returnType statements (some f) ∧
          Advances 0 c c' Γ ∧ (c'.scopes.children 0).length = (c.scopes.children 0).length + 1 ∧
          ∀ C, c'.scopes.Grows C →
            MethodTyped C Γ (c.scopes.children 0).length parameters statements f := by
  rw [checkBody]
  refine gives_enter hp hs fun c₁ h₁ hp₁ hs₁ => ?_
  refine (bindParameters_sound hp₁ hs₁ (by simp) hlength hms).bind ?_
  rintro ⟨⟩ c₂ ⟨vars, h₂, hplaced, hparameters⟩
  refine (checkStatements_sound h₂.proper h₂.sees hw).bind ?_
  rintro statements c₃ ⟨Γ₃, h₃, hbody⟩
  have hinner := h₂.trans h₃
  have hchildren : c₃.scopes.children 0 = c.scopes.children 0 ++ [c.scopes.next] := by
    rw [hinner.grows.children_of_above hinner.below hs.lt_next, h₁,
      Scopes.children_addFrame hs.lt_next]
  refine ⟨statements, rfl, .of_inner hs h₁ hinner, by simp [hchildren], fun C hC => ?_⟩
  refine .method (hparameters C (h₃.grows.trans hC)) harity ?_ hplaced (hbody C hC)
  obtain ⟨more, hmore⟩ := hC.children 0
  rw [← hmore, hchildren]
  simp

theorem checkBodies_sound {c : Checker} {Γ : StaticView} (hp : Proper c.scopes)
    (hs : c.scopes.Sees 0 Γ) {funs funs' : List (Signature × StaticFunction)}
    {methods : List Node} (hindex : (c.scopes.children 0).length + 1 = funs.length)
    (hd : MethodsDeclared funs methods funs') :
    Gives (methods.mapM (checkBody 0)) c fun methods c' => Advances 0 c c' Γ ∧
      ∀ C, c'.scopes.Grows C → MethodsTyped C Γ funs methods funs' := by
  induction hd generalizing c with
  | nil => exact ⟨.of_eq hp hs rfl, fun C _ => .nil⟩
  | @cons funs _ _ _ _ _ _ _ hpaired harity hlength hms body hunbound tail ih =>
    rw [List.mapM_cons]
    refine (checkBody_sound hp hs harity hlength hms body).bind ?_
    rintro _ c₁ ⟨statements, rfl, h₁, hchildren, hmethod⟩
    refine (ih h₁.proper h₁.sees (by simp [hchildren, hindex])).bind ?_
    rintro rest c₂ ⟨h₂, hrest⟩
    have hplace : funs.length - 1 = (c.scopes.children 0).length := by omega
    exact ⟨h₁.trans h₂, fun C hC =>
      .cons hpaired (hplace ▸ hmethod C (h₂.grows.trans hC)) hunbound (hrest C hC)⟩

end Methods

theorem proper_new (level : Nat) : Proper (Checker.new level).scopes := by
  have hempty : Proper .empty := Scopes.all_empty
  refine (hempty.addFrame none).addFunction 0 (f := .print) rfl ?_ (.inl rfl)
  simp [StaticFunction.print, StaticType.Memberless, StaticType.members?]

theorem sees_new (level : Nat) :
    (Checker.new level).scopes.Sees 0 [([], [(StaticFunction.print.signature, .print)])] := by
  have hframe : ((.empty : Scopes StaticVariable StaticFunction).addFrame none).frames[0]? =
      some ⟨none, [], []⟩ := rfl
  exact Scopes.Sees.addFunction (.root hframe rfl) _ _

theorem checkSource_sound {c : Checker} (hp : Proper c.scopes)
    (hs : c.scopes.Sees 0 [([], [(StaticFunction.print.signature, .print)])])
    (hone : c.scopes.next = 1) {tree : Node} (hw : WrittenProgram tree) :
    Gives (checkSource 0 tree) c fun tree c' =>
      Proper c'.scopes ∧ ProgramTyped c'.scopes tree := by
  cases hw with
  | source first second =>
    rw [checkSource]
    refine (checkFields_sound hp hs first).bind ?_
    rintro fields c₁ ⟨vars, h₁, hnext₁, hfields⟩
    refine (declareMethods_sound h₁.proper h₁.sees second).bind ?_
    rintro methods c₂ ⟨funs, h₂, hnext₂, hdeclared⟩
    have hnone : c₂.scopes.children 0 = [] :=
      Scopes.children_eq_nil (Nat.le_of_eq ((hnext₂.trans hnext₁).trans hone))
    refine (checkBodies_sound h₂.proper h₂.sees (by rw [hnone]; rfl) hdeclared).bind ?_
    rintro methods c₃ ⟨h₃, hmethods⟩
    refine Gives.bind (Q := fun a c' => a = c₃ ∧ c' = c₃) ⟨rfl, rfl⟩ ?_
    rintro _ _ ⟨rfl, rfl⟩
    have hmain := h₃.sees.findFunction? ⟨"main", 0⟩
    split
    · next main hfound =>
      rw [hfound] at hmain
      split
      · next hinteger =>
        refine ⟨h₃.proper, ?_⟩
        exact .source (hfields _ (h₂.grows.trans h₃.grows)) (hmethods _ (.refl _)) h₃.sees
          hmain.symm (by simpa using hinteger)
      · exact gives_fail
    · exact gives_fail

/-- A program that a checker without surroundings accepts is well typed in the scopes that checking
has filled properly. One that it refuses is refused for its types. -/
theorem check_sound {tree : Node} (hw : WrittenProgram tree) (level : Nat) :
    match (Checker.new level).check tree with
    | (.ok checked, c) => Proper c.scopes ∧ ProgramTyped c.scopes checked
    | (.error fault, _) => ∃ cause, fault = .typing cause := by
  have hgives : Gives (do
      note 1 "analyze source"
      checkSource (Checker.new level).root tree) (Checker.new level) fun tree c' =>
        Proper c'.scopes ∧ ProgramTyped c'.scopes tree := by
    refine (gives_note _ _).bind fun _ c₁ h₁ => ?_
    exact checkSource_sound (by rw [h₁]; exact proper_new level) (by rw [h₁]; exact sees_new level)
      (by rw [h₁]; rfl) hw
  unfold Checker.check Check.outcome
  unfold Gives Ends at hgives
  split at hgives
  · next hrun =>
    rw [hrun]
    exact hgives
  · next hrun =>
    rw [hrun]
    exact hgives

theorem MethodsTyped.grows {C : Scopes StaticVariable StaticFunction} {Γ : StaticView}
    {funs funs' : List (Signature × StaticFunction)} {methods : List Node}
    (h : MethodsTyped C Γ funs methods funs') : funs <+: funs' := by
  induction h with
  | nil => exact List.prefix_rfl
  | cons paired typed unbound tail ih => exact (List.prefix_append _ _).trans ih

section Checked

variable {level : Nat} {tree checked : Node} {c : Checker}

theorem programTyped_of_check (hw : WrittenProgram tree)
    (h : (Checker.new level).check tree = (.ok checked, c)) : ProgramTyped c.scopes checked := by
  have hsound := check_sound hw level
  rw [h] at hsound
  exact hsound.2

theorem proper_of_check (hw : WrittenProgram tree)
    (h : (Checker.new level).check tree = (.ok checked, c)) : Proper c.scopes := by
  have hsound := check_sound hw level
  rw [h] at hsound
  exact hsound.1

end Checked

end BlockScript
