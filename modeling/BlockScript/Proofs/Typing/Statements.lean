import BlockScript.Proofs.Typing.Expressions
/-!
# Checked statements are well typed

Checking a statement adds variables to the frame in which it stands and frames of its own, and
leaves all other frames alone. So what is seen afterwards is what was seen before with the variables
that the statement declares.
-/
namespace BlockScript

open Check

/-- From one state of checking to another, only the frame `scope` has changed and there may be new
frames, none of them above it; it is `Γ` that is seen from `scope` now. -/
structure Advances (scope : FrameId) (c c' : Checker) (Γ : StaticView) : Prop where
  proper : Proper c'.scopes
  grows : c.scopes.Grows c'.scopes
  keeps : Scopes.KeepsBut scope c.scopes c'.scopes
  below : ∀ (i : FrameId) (fr : Frame StaticVariable StaticFunction),
    c'.scopes.frames[i]? = some fr → c.scopes.next ≤ i → ∃ p, fr.parent = some p ∧ scope ≤ p
  sees : c'.scopes.Sees scope Γ

section Advances

variable {scope : FrameId} {c c' c'' : Checker} {Γ Γ' : StaticView}

theorem Advances.of_eq (hp : Proper c.scopes) (hs : c.scopes.Sees scope Γ)
    (h : c'.scopes = c.scopes) : Advances scope c c' Γ := by
  refine ⟨by rwa [h], ?_, ?_, fun i fr hfr hi => ?_, by rwa [h]⟩
  · rw [h]
    exact .refl _
  · rw [h]
    exact .refl _
  · rw [h] at hfr
    exact absurd (Scopes.lt_next_of_getElem? hfr) (Nat.not_lt.mpr hi)

theorem Advances.trans (h : Advances scope c c' Γ) (h' : Advances scope c' c'' Γ') :
    Advances scope c c'' Γ' := by
  refine ⟨h'.proper, h.grows.trans h'.grows, h.keeps.trans h'.keeps, fun i fr hfr hi => ?_, h'.sees⟩
  by_cases hlt : i < c'.scopes.next
  · have hfr' := Array.getElem?_eq_getElem hlt
    obtain ⟨p, hp, hle⟩ := h.below i _ hfr' hi
    obtain ⟨fr₁, hfr₁, hparent, -⟩ := h'.grows i _ hfr'
    cases hfr₁.symm.trans hfr
    exact ⟨p, hparent.trans hp, hle⟩
  · exact h'.below i fr hfr (Nat.le_of_not_lt hlt)

/-- What happens in a new frame under `scope` changes nothing that is seen from `scope`. -/
theorem Advances.of_inner {c₁ : Checker} (hs : c.scopes.Sees scope Γ)
    (h₁ : c₁.scopes = c.scopes.addFrame (some scope))
    (h : Advances c.scopes.next c₁ c' Γ') : Advances scope c c' Γ := by
  have hadd : c.scopes.Keeps c₁.scopes := by
    rw [h₁]
    exact Scopes.keeps_addFrame _ _
  have hkeeps : c.scopes.Keeps c'.scopes :=
    (hadd.keepsBut.trans h.keeps).keeps_of_next (Nat.le_refl _)
  refine ⟨h.proper, hadd.grows.trans h.grows, hkeeps.keepsBut, fun i fr hfr hi => ?_,
    hs.keeps hkeeps⟩
  rcases Nat.eq_or_lt_of_le hi with rfl | hlt
  · have hnew : c₁.scopes.frames[c.scopes.next]? = some ⟨some scope, [], []⟩ := by
      simp [h₁, Option.filter, hs.lt_next]
    obtain ⟨fr₁, hfr₁, hparent, -⟩ := h.grows _ _ hnew
    cases hfr₁.symm.trans hfr
    exact ⟨scope, hparent, Nat.le_refl _⟩
  · obtain ⟨p, hp, hle⟩ := h.below i fr hfr (by rwa [h₁, Scopes.next_addFrame])
    exact ⟨p, hp, Nat.le_trans (Nat.le_of_lt hs.lt_next) hle⟩

end Advances

section Variables

variable {scope : FrameId} {c : Checker} {vars : List (String × StaticVariable)}
  {funs : List (Signature × StaticFunction)} {Γ : StaticView}

theorem gives_declared (hp : Proper c.scopes) (hs : c.scopes.Sees scope ((vars, funs) :: Γ))
    {v : StaticVariable} (hhome : v.home = scope) (ht : v.type.Memberless)
    (hspelled : v.javaName = v.name) : Gives (defineVariable v) c fun _ c' =>
      Advances scope c c' ((vars ++ [(v.name, v)], funs) :: Γ) ∧
        c'.scopes.next = c.scopes.next ∧ ∀ C, c'.scopes.Grows C → Fresh C vars v := by
  subst hhome
  refine (gives_defineVariable v).imp ?_
  rintro ⟨⟩ c' ⟨hbinds, hc'⟩
  have hunbound : vars.lookup v.name = none := by
    rw [hs.bindsVariable] at hbinds
    simpa using hbinds
  have hsees := hs.addVariable v.name v
  have hnext : c'.scopes.next = c.scopes.next := by rw [hc', Scopes.addVariable, Scopes.next_update]
  refine ⟨⟨?_, ?_, ?_, fun i fr hfr hi => ?_, ?_⟩, hnext, fun C hC => ⟨hunbound, ?_, ?_⟩⟩
  · rw [hc']
    exact hp.addVariable ht hspelled
  · rw [hc']
    exact Scopes.grows_addVariable _ _ _ _
  · rw [hc']
    exact Scopes.keepsBut_update _ _ _ _
  · have hlt := Scopes.lt_next_of_getElem? hfr
    rw [hnext] at hlt
    exact absurd hlt (Nat.not_lt.mpr hi)
  · rw [hc']
    exact hsees
  · intro b hb
    cases hs with
    | root frame top => exact (hp.vars _ _ frame b hb).1
    | child frame under outer => exact (hp.vars _ _ frame b hb).1
  · refine hC.binds ?_
    rw [hc']
    exact hsees.binds (by simp [List.lookup_append, hunbound])

theorem gives_introduce (hp : Proper c.scopes) (hs : c.scopes.Sees scope ((vars, funs) :: Γ))
    (what : String) {v : StaticVariable} (hhome : v.home = scope) (ht : v.type.Memberless)
    (hspelled : v.javaName = v.name) : Gives (introduce what v) c fun _ c' =>
      Advances scope c c' ((vars ++ [(v.name, v)], funs) :: Γ) ∧
        c'.scopes.next = c.scopes.next ∧ ∀ C, c'.scopes.Grows C → Fresh C vars v := by
  unfold introduce
  refine (gives_declared hp hs hhome ht hspelled).bind ?_
  rintro ⟨⟩ c₁ ⟨h₁, hnext, hfresh⟩
  refine (gives_note _ _).imp fun _ c₂ h₂ => ?_
  refine ⟨h₁.trans (.of_eq h₁.proper h₁.sees h₂), by rw [h₂, hnext], fun C hC => hfresh C ?_⟩
  rwa [← h₂]

end Variables

section Statements

variable {Γ : StaticView} {scope : FrameId} {c : Checker}

theorem gives_checkCondition (hp : Proper c.scopes) (hs : c.scopes.Sees scope Γ)
    (construct : String) {node : Node} (hw : WrittenExpression node) :
    Gives (checkCondition scope construct node) c fun node c' =>
      c'.scopes = c.scopes ∧ HasType Γ node .boolean := by
  unfold checkCondition
  refine (checkExpression_sound hp hs hw).bind ?_
  rintro ⟨node, t⟩ c' ⟨hc', ht, -⟩
  dsimp only
  split
  · next hbool =>
    obtain rfl : t = .boolean := by simpa using hbool
    exact ⟨hc', ht⟩
  · exact gives_fail

theorem gives_checkInitial (hp : Proper c.scopes) (hs : c.scopes.Sees scope Γ) {value : Node}
    (hw : WrittenInitial value) :
    Gives (checkInitial scope value) c fun result c' => c'.scopes = c.scopes ∧
      (result.1 = .absent ∧ result.2 = none ∨
        ∃ t, result.2 = some t ∧ HasType Γ result.1 t ∧ t.Memberless) := by
  rcases hw with rfl | hw
  · exact ⟨rfl, .inl ⟨rfl, rfl⟩⟩
  · unfold checkInitial
    rw [if_neg (by simp [hw.isAbsent])]
    refine (checkExpression_sound hp hs hw).bind ?_
    rintro ⟨value, t⟩ c' ⟨hc', ht, hm⟩
    exact ⟨hc', .inr ⟨t, rfl, ht, hm⟩⟩

theorem initializes_of_declaredType {name : String} {typeName : Option String} {value : Node}
    {initial : Option StaticType} {t : StaticType}
    (h : declaredType name typeName initial = .ok t)
    (hvalue : value = .absent ∧ initial = none ∨
      ∃ source, initial = some source ∧ HasType Γ value source ∧ source.Memberless) :
    Initializes Γ value t ∧ t.Memberless := by
  rcases hvalue with ⟨rfl, rfl⟩ | ⟨source, rfl, ht, hm⟩
  · cases typeName with
    | none => cases h
    | some typeName => exact ⟨.inl rfl, memberless_of_typeNamed h⟩
  · cases typeName with
    | none =>
      cases h
      exact ⟨.inr ⟨t, ht, by simp [StaticType.accepts]⟩, hm⟩
    | some typeName =>
      simp only [declaredType] at h
      cases hn : typeNamed typeName with
      | error fault =>
        rw [hn] at h
        cases h
      | ok declared =>
        rw [hn] at h
        cases hr : requireAccepts declared source with
        | error fault =>
          simp only [bind, Except.bind, hr] at h
          cases h
        | ok u =>
          simp only [bind, Except.bind, hr] at h
          cases h
          exact ⟨.inr ⟨source, ht, accepts_of_requireAccepts hr⟩, memberless_of_typeNamed hn⟩

theorem gives_headerType {node : Node} (h : HeaderTyped Γ node) :
    Gives (headerType node) c fun _ c' => c' = c := by
  rcases h with rfl | h
  · exact gives_pure rfl
  · cases h
    exact gives_pure rfl

theorem gives_requireSameType (first next : Option StaticType) :
    Gives (requireSameType first next) c fun _ c' => c' = c := by
  unfold requireSameType
  split
  · split
    · exact gives_pure rfl
    · exact gives_fail
  · exact gives_pure rfl

variable {returns : Option StaticType}

theorem checkAssign_sound (hp : Proper c.scopes) (hs : c.scopes.Sees scope Γ) {receiver value : Node}
    (hl : WrittenExpression receiver) (hr : WrittenExpression value) :
    Gives (checkStatement returns scope (.assign receiver value)) c fun node c' =>
      c'.scopes = c.scopes ∧ ∃ receiver value, node = .assign receiver value ∧ AssignTyped Γ node := by
  cases receiver with
  | access object name type bound =>
    rw [checkStatement]
    refine (checkExpression_sound hp hs hl).bind ?_
    rintro ⟨receiver, target⟩ c₁ ⟨h₁, ht, -⟩
    have hp₁ : Proper c₁.scopes := by rwa [h₁]
    have hs₁ : c₁.scopes.Sees scope Γ := by rwa [h₁]
    refine (checkExpression_sound hp₁ hs₁ hr).bind ?_
    rintro ⟨value, t⟩ c₂ ⟨h₂, hv, -⟩
    dsimp only at ht hv ⊢
    cases ht with
    | access found spelled =>
      dsimp only
      split
      · exact gives_fail
      · next hconst =>
        refine (gives_lift _).bind ?_
        rintro ⟨⟩ c₃ ⟨haccepts, rfl⟩
        exact ⟨h₂.trans h₁, _, _, rfl,
          .assign found (by simpa using hconst) spelled hv (accepts_of_requireAccepts haccepts)⟩
    | _ => exact gives_fail
  | _ =>
    unfold checkStatement
    exact gives_fail

/-- A part of the header of a loop is checked as a statement unless it is left out. -/
theorem checkHeader_sound {β : Type} (hp : Proper c.scopes) (hs : c.scopes.Sees scope Γ) {node : Node}
    (hw : WrittenHeader node) {f : Node → Check β} {R : β → Checker → Prop}
    (hf : ∀ node c', c'.scopes = c.scopes → HeaderTyped Γ node → Gives (f node) c' R) :
    Gives (if node.isAbsent then pure .absent >>= f else checkStatement returns scope node >>= f) c
      R := by
  cases hw with
  | none => exact hf .absent c rfl (.inl rfl)
  | some spelled assigned =>
    refine (checkAssign_sound hp hs (.access spelled) assigned).bind ?_
    rintro _ c' ⟨hc', receiver, value, rfl, ht⟩
    exact hf _ c' hc' (.inr ht)

end Statements

variable {returns : StaticType}

/-- What follows in a new frame sees nothing of its own there yet, and around it what was seen
before. -/
theorem gives_enter {β : Type} {c : Checker} {scope : FrameId} {Γ : StaticView}
    (hp : Proper c.scopes) (hs : c.scopes.Sees scope Γ) {f : FrameId → Check β}
    {R : β → Checker → Prop}
    (hf : ∀ c₁ : Checker, c₁.scopes = c.scopes.addFrame (some scope) → Proper c₁.scopes →
      c₁.scopes.Sees c.scopes.next (([], []) :: Γ) → Gives (f c.scopes.next) c₁ R) :
    Gives (newFrame (some scope) >>= f) c R := by
  refine (gives_newFrame (some scope)).bind ?_
  rintro _ c₁ ⟨rfl, h₁⟩
  refine hf c₁ h₁ ?_ ?_
  · rw [h₁]
    exact hp.addFrame _
  · rw [h₁]
    exact hs.addFrame

/-- Statements are checked in a new frame. Nothing they do there is seen from the frame around
it. -/
theorem gives_inner {β : Type} {c : Checker} {scope : FrameId} {Γ : StaticView}
    (hp : Proper c.scopes) (hs : c.scopes.Sees scope Γ) {body : FrameId → Check (List Node)}
    (hbody : ∀ {c₁ : Checker}, Proper c₁.scopes → c₁.scopes.Sees c.scopes.next (([], []) :: Γ) →
      Gives (body c.scopes.next) c₁ fun nodes c' => ∃ Γ', Advances c.scopes.next c₁ c' Γ' ∧
        ∀ C, c'.scopes.Grows C → StatementsTyped C returns (([], []) :: Γ) nodes Γ')
    {f : List Node → Check β} {R : β → Checker → Prop}
    (hf : ∀ nodes c' Γ', Advances scope c c' Γ →
      (∀ C, c'.scopes.Grows C → StatementsTyped C returns (([], []) :: Γ) nodes Γ') →
        Gives (f nodes) c' R) :
    Gives (newFrame (some scope) >>= fun inner => body inner >>= f) c R := by
  refine gives_enter hp hs fun c₁ h₁ hp₁ hs₁ => ?_
  refine (hbody hp₁ hs₁).bind ?_
  rintro nodes c' ⟨Γ', h', hnodes⟩
  exact hf nodes c' Γ' (.of_inner hs h₁ h') hnodes

mutual

theorem checkStatement_sound {c : Checker} {scope : FrameId} {Γ : StaticView}
    (hp : Proper c.scopes) (hs : c.scopes.Sees scope Γ) {node : Node} (hw : WrittenStatement node) :
    Gives (checkStatement (some returns) scope node) c fun node c' =>
      ∃ Γ', Advances scope c c' Γ' ∧
        ∀ C, c'.scopes.Grows C → StatementTyped C returns Γ node Γ' := by
  -- Each part is typed in all that its own frames grow to, so also in what the next part leaves.
  match node, hw with
  | .exprStmt expression, .exprStmt whole =>
    rw [checkStatement]
    refine (checkExpression_sound hp hs whole).bind ?_
    rintro ⟨expression, t⟩ c' ⟨hc', ht, -⟩
    exact ⟨Γ, .of_eq hp hs hc', fun C _ => .exprStmt ht⟩
  | .declaration name typeName value bound, .declaration given =>
    rw [checkStatement]
    obtain ⟨⟨vars, funs⟩, outer, rfl⟩ : ∃ fr outer, Γ = fr :: outer := by
      cases hs <;> exact ⟨_, _, rfl⟩
    refine (gives_checkInitial hp hs given).bind ?_
    rintro ⟨value, initial⟩ c₁ ⟨h₁, hvalue⟩
    refine (gives_lift _).bind ?_
    rintro t c₂ ⟨ht, rfl⟩
    obtain ⟨hinit, hm⟩ := initializes_of_declaredType ht hvalue
    have hp₁ : Proper c₂.scopes := by rwa [h₁]
    have hs₁ : c₂.scopes.Sees scope ((vars, funs) :: outer) := by rwa [h₁]
    refine (gives_introduce hp₁ hs₁ "declare" (v := ⟨scope, name, name, false, t⟩) rfl hm
      rfl).bind ?_
    rintro ⟨⟩ c₃ ⟨h₃, -, hfresh⟩
    exact ⟨_, (Advances.of_eq hp hs h₁).trans h₃, fun C hC =>
      .declaration (v := ⟨scope, name, name, false, t⟩) hinit (hfresh C hC) rfl⟩
  | .assign receiver value, .assign left right =>
    refine (checkAssign_sound hp hs left right).imp ?_
    rintro _ c' ⟨hc', receiver, value, rfl, ht⟩
    exact ⟨Γ, .of_eq hp hs hc', fun C _ => .assign ht⟩
  | .ifStmt condition thens elses, .ifStmt test first second =>
    rw [checkStatement]
    refine (gives_checkCondition hp hs "if" test).bind ?_
    rintro condition c₁ ⟨h₁, ht⟩
    have hp₁ : Proper c₁.scopes := by rwa [h₁]
    have hs₁ : c₁.scopes.Sees scope Γ := by rwa [h₁]
    split
    · exact gives_fail
    refine gives_inner hp₁ hs₁ (fun hp hs => checkStatements_sound hp hs first)
      fun thens c₂ Γ₂ h₂ hthens => ?_
    have hadv := (Advances.of_eq hp hs h₁).trans h₂
    split
    · next helses =>
      obtain rfl : elses = [] := by simpa using helses
      exact ⟨Γ, hadv, fun C hC => .ifStmt ht (hthens C hC) .nil⟩
    · refine gives_inner h₂.proper h₂.sees (fun hp hs => checkStatements_sound hp hs second)
        fun elses c₃ Γ₃ h₃ helses => ?_
      exact ⟨Γ, hadv.trans h₃, fun C hC =>
        .ifStmt ht (hthens C (h₃.grows.trans hC)) (helses C hC)⟩
  | .forStmt initialization condition increment statements, .forStmt before test after body =>
    rw [checkStatement]
    refine gives_enter hp hs fun c₁ h₁ hp₁ hs₁ => ?_
    refine checkHeader_sound hp₁ hs₁ before fun initialization c₂ h₂ hbefore => ?_
    refine (gives_headerType hbefore).bind ?_
    rintro _ _ rfl
    have hadv₂ := Advances.of_eq hp₁ hs₁ h₂
    refine (gives_checkCondition hadv₂.proper hadv₂.sees "for" test).bind ?_
    rintro condition c₃ ⟨h₃, ht⟩
    have hadv₃ := hadv₂.trans (.of_eq hadv₂.proper hadv₂.sees h₃)
    refine checkHeader_sound hadv₃.proper hadv₃.sees after fun increment c₄ h₄ hafter => ?_
    have hadv₄ := hadv₃.trans (.of_eq hadv₃.proper hadv₃.sees h₄)
    refine (gives_headerType hafter).bind ?_
    rintro _ _ rfl
    refine (gives_requireSameType _ _).bind ?_
    rintro ⟨⟩ _ rfl
    split
    · exact gives_fail
    refine gives_inner hadv₄.proper hadv₄.sees (fun hp hs => checkStatements_sound hp hs body)
      fun statements c₅ Γ₅ h₅ hbody => ?_
    exact ⟨Γ, .of_inner hs h₁ (hadv₄.trans h₅), fun C hC =>
      .forStmt hbefore ht hafter (hbody C hC)⟩
  | .whileStmt condition statements, .whileStmt test body =>
    rw [checkStatement]
    refine (gives_checkCondition hp hs "while" test).bind ?_
    rintro condition c₁ ⟨h₁, ht⟩
    have hp₁ : Proper c₁.scopes := by rwa [h₁]
    have hs₁ : c₁.scopes.Sees scope Γ := by rwa [h₁]
    refine gives_inner hp₁ hs₁ (fun hp hs => checkStatements_sound hp hs body)
      fun statements c₂ Γ₂ h₂ hbody => ?_
    exact ⟨Γ, (Advances.of_eq hp hs h₁).trans h₂, fun C hC => .whileStmt ht (hbody C hC)⟩
  | .returnStmt value, .returnStmt whole =>
    rw [checkStatement]
    refine (checkExpression_sound hp hs whole).bind ?_
    rintro ⟨value, t⟩ c₁ ⟨h₁, ht, -⟩
    refine (gives_lift _).bind ?_
    rintro ⟨⟩ c₂ ⟨hr, rfl⟩
    exact ⟨Γ, .of_eq hp hs h₁, fun C _ => .returnStmt ht (accepts_of_requireAccepts hr)⟩

theorem checkStatements_sound {c : Checker} {scope : FrameId} {Γ : StaticView}
    (hp : Proper c.scopes) (hs : c.scopes.Sees scope Γ) {nodes : List Node}
    (hw : ∀ node ∈ nodes, WrittenStatement node) :
    Gives (checkStatements (some returns) scope nodes) c fun nodes c' =>
      ∃ Γ', Advances scope c c' Γ' ∧
        ∀ C, c'.scopes.Grows C → StatementsTyped C returns Γ nodes Γ' := by
  match nodes with
  | [] =>
    rw [checkStatements]
    exact ⟨Γ, .of_eq hp hs rfl, fun C _ => .nil⟩
  | node :: rest =>
    obtain ⟨hnode, hrest⟩ := List.forall_mem_cons.mp hw
    rw [checkStatements]
    refine (checkStatement_sound hp hs hnode).bind ?_
    rintro node c₁ ⟨Γ₁, h₁, hhead⟩
    refine (checkStatements_sound h₁.proper h₁.sees hrest).bind ?_
    rintro rest c₂ ⟨Γ₂, h₂, htail⟩
    exact ⟨Γ₂, h₁.trans h₂, fun C hC => .cons (hhead C (h₂.grows.trans hC)) (htail C hC)⟩

end

end BlockScript
