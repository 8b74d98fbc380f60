import BlockScript.Proofs.Evaluation.Trace
import BlockScript.Proofs.Typing.Simulation
/-!
# Operations of a well-typed run

Each operation on the machine that a step of a well-typed program uses succeeds or fails with a
permitted fault, and changes the frames as it changes their description. It binds a variable only
where the name is not bound.
-/
namespace BlockScript

open Run

variable {K : CheckedProgram} {Γ : StaticView} {ready nilled nilled' : Prop}
  {New : FrameId → StaticVariable → Prop} {W W' W'' : Scopes StaticVariable StaticFunction}
  {m : Machine}

section Additions

/-- A variable that `W'` binds and `W` does not is new, and `W` binds nothing in its place. -/
def Adds (New : FrameId → StaticVariable → Prop) (W W' : Scopes StaticVariable StaticFunction) :
    Prop :=
  ∀ home name x, W'.Binds home name x →
    W.Binds home name x ∨ (∀ y, ¬W.Binds home name y) ∧ x.name = name ∧ New home x

theorem Adds.refl (New : FrameId → StaticVariable → Prop)
    (W : Scopes StaticVariable StaticFunction) : Adds New W W := fun _ _ _ => .inl

theorem Adds.trans (h : Adds New W W') (h' : Adds New W' W'') (hW : W.Grows W') :
    Adds New W W'' := by
  intro home name x hx
  rcases h' home name x hx with hx | ⟨hno, hname, hnew⟩
  · exact h home name x hx
  · exact .inr ⟨fun y hy => hno y (hW.binds hy), hname, hnew⟩

theorem adds_addFrame (parent : Option FrameId) : Adds New W (W.addFrame parent) := by
  rintro home name x ⟨fr, hfr, hx⟩
  rw [Scopes.getElem?_addFrame] at hfr
  split at hfr
  · cases hfr
    cases hx
  · exact .inl ⟨fr, hfr, hx⟩

theorem adds_addFunction (scope : FrameId) (signature : Signature) (f : StaticFunction) :
    Adds New W (W.addFunction scope signature f) := by
  rintro home name x ⟨fr, hfr, hx⟩
  unfold Scopes.addFunction at hfr
  rw [Scopes.getElem?_update] at hfr
  split at hfr
  · obtain ⟨old, hold, rfl⟩ := Option.map_eq_some_iff.mp hfr
    exact .inl ⟨old, hold, hx⟩
  · exact .inl ⟨fr, hfr, hx⟩

theorem adds_addVariable {scope : FrameId} {vars : List (String × StaticVariable)}
    {funs : List (Signature × StaticFunction)} {Δ : StaticView} {x : StaticVariable}
    (hs : W.Sees scope ((vars, funs) :: Δ)) (hunbound : vars.lookup x.name = none)
    (hnew : New scope x) : Adds New W (W.addVariable scope x.name x) := by
  rintro home name y ⟨fr, hfr, hy⟩
  unfold Scopes.addVariable at hfr
  rw [Scopes.getElem?_update] at hfr
  split at hfr
  · next hscope =>
    subst hscope
    obtain ⟨old, hold, rfl⟩ := Option.map_eq_some_iff.mp hfr
    obtain rfl := hs.boundVariables_eq hold
    rw [List.lookup_append] at hy
    cases hl : old.boundVariables.lookup name with
    | some z =>
      rw [hl] at hy
      cases hy
      exact .inl ⟨old, hold, hl⟩
    | none =>
      rw [hl, Option.none_or, List.lookup_cons] at hy
      split at hy
      · next hname =>
        cases hy
        refine .inr ⟨?_, (eq_of_beq hname).symm, hnew⟩
        rintro z ⟨fr, hfr, hz⟩
        cases hold.symm.trans hfr
        cases hl.symm.trans hz
      · cases hy
  · exact .inl ⟨fr, hfr, hy⟩

end Additions

/-- An operation on the machine leads to frames of which `Q` holds and which describe it from then
on, or to a fault that has nothing to do with nil. The variables that it binds are `New`. -/
def Moves (K : CheckedProgram) (Γ : StaticView) (ready nilled : Prop)
    (New : FrameId → StaticVariable → Prop) {α : Type} (W : Scopes StaticVariable StaticFunction)
    (m : Machine) (x : Run α) (Q : α → Scopes StaticVariable StaticFunction → Prop) : Prop :=
  Ends x m
    (fun a m' => ∃ W', W.Grows W' ∧ Adds New W W' ∧ Describes K Γ ready nilled W' m'.scopes ∧ Q a W')
    fun fault m' =>
      (∃ W', W.Grows W' ∧ Describes K Γ ready nilled W' m'.scopes) ∧ fault.Inherent

/-- What an operation gives that leaves the frames alone. If it fails because of nil, then
`nilled`. -/
def Reads (nilled : Prop) {α : Type} (m : Machine) (x : Run α) (Q : α → Prop) : Prop :=
  Ends x m (fun a m' => m'.scopes = m.scopes ∧ Q a)
    fun fault m' => m'.scopes = m.scopes ∧ fault.Allowed nilled

section Composition

variable {α β : Type} {P : α → Prop} {O : β → Prop}
  {Q : α → Scopes StaticVariable StaticFunction → Prop}
  {R : β → Scopes StaticVariable StaticFunction → Prop}

theorem Reads.bind {x : Run α} {f : α → Run β} (h : Reads nilled m x P)
    (hf : ∀ a m', P a → Reads nilled m' (f a) O) : Reads nilled m (x >>= f) O := by
  refine ends_bind.mpr (Ends.imp h ?_ fun _ _ hfault => hfault)
  rintro a m' ⟨hm, hp⟩
  exact Ends.imp (hf a m' hp) (fun b m'' ⟨hm', ho⟩ => ⟨hm'.trans hm, ho⟩)
    fun fault m'' ⟨hm', hfault⟩ => ⟨hm'.trans hm, hfault⟩

theorem Moves.bind {x : Run α} {f : α → Run β} (h : Moves K Γ ready nilled New W m x Q)
    (hf : ∀ a W' m', Describes K Γ ready nilled W' m'.scopes → Q a W' →
      Moves K Γ ready nilled New W' m' (f a) R) :
    Moves K Γ ready nilled New W m (x >>= f) R := by
  refine ends_bind.mpr (Ends.imp h ?_ fun _ _ hfault => hfault)
  rintro a m' ⟨W', hgrows, hadds, hdesc, hq⟩
  refine Ends.imp (hf a W' m' hdesc hq) ?_ ?_
  · rintro b m'' ⟨W'', hgrows', hadds', hrest⟩
    exact ⟨W'', hgrows.trans hgrows', hadds.trans hadds' hgrows, hrest⟩
  · rintro fault m'' ⟨⟨W'', hgrows', hdesc'⟩, hfault⟩
    exact ⟨⟨W'', hgrows.trans hgrows', hdesc'⟩, hfault⟩

theorem Moves.imp {Q' : α → Scopes StaticVariable StaticFunction → Prop} {x : Run α}
    (h : Moves K Γ ready nilled New W m x Q) (hQ : ∀ a W', Q a W' → Q' a W') :
    Moves K Γ ready nilled New W m x Q' :=
  Ends.imp h (fun a _ ⟨W', hgrows, hadds, hdesc, hq⟩ => ⟨W', hgrows, hadds, hdesc, hQ a W' hq⟩)
    fun _ _ hfault => hfault

/-- An operation that leaves the frames alone leaves them described. -/
theorem Reads.moves {x : Run α} (hx : Reads False m x P)
    (h : Describes K Γ ready nilled W m.scopes) :
    Moves K Γ ready nilled New W m x fun a W' => W' = W ∧ P a := by
  refine Ends.imp hx ?_ ?_
  · rintro a m' ⟨hm, hp⟩
    exact ⟨W, .refl W, .refl New W, by rwa [hm], rfl, hp⟩
  · rintro fault m' ⟨hm, hfault⟩
    exact ⟨⟨W, .refl W, by rwa [hm]⟩, hfault.origin.resolve_right id⟩

end Composition

section Reads

variable {α : Type}

theorem reads_pure {a : α} {P : α → Prop} (h : P a) : Reads nilled m (pure a) P := ⟨rfl, h⟩

theorem Shows.reads {x : Run α} (h : Shows x) : Reads nilled m x fun _ => True :=
  Ends.imp (h.ends m) (fun _ _ hm => ⟨by rw [hm], trivial⟩) fun _ _ ⟨hm, hfault⟩ =>
    ⟨by rw [hm], by rw [hfault]; exact Fault.Inherent.allowed trivial⟩

theorem reads_printLine (line : String) : Reads nilled m (printLine line) fun _ => True :=
  ⟨rfl, trivial⟩

theorem reads_noteAt {a : Activation} {least : Nat} {line : Run String} (h : Shows line) :
    Reads nilled m (noteAt a least line) fun _ => True := by
  unfold noteAt
  split
  · exact h.reads.bind fun _ _ _ => ⟨rfl, trivial⟩
  · exact reads_pure trivial

theorem reads_requireBoolean {a : Activation} {construct : String} {v : Value}
    (h : StaticType.boolean.Holds nilled v) :
    Reads nilled m (requireBoolean a construct v) fun _ => True := by
  obtain rfl | ⟨b, rfl⟩ := StaticType.eq_of_admits_boolean h.admits
  · exact ⟨rfl, rfl, .inr (h.nilled rfl rfl)⟩
  · refine Reads.bind (P := fun _ => True) (reads_noteAt ?_) fun _ _ _ => reads_pure trivial
    exact (shows_text _).bind fun _ => shows_pure _

theorem reads_lift {t : StaticType} {r : Except Fault Value} (h : t.HoldsResult nilled r) :
    Reads nilled m (lift r) (t.Holds nilled) := by
  cases r with
  | ok v => exact ⟨rfl, h⟩
  | error fault => exact ⟨rfl, h⟩

end Reads

variable {scope : FrameId}

/-- An operation that stops the run. -/
theorem moves_throw {α : Type} {fault : Fault}
    {Q : α → Scopes StaticVariable StaticFunction → Prop} (h : Describes K Γ ready nilled W m.scopes)
    (hfault : fault.Inherent) : Moves K Γ ready nilled New W m (throw fault) Q :=
  ⟨⟨W, .refl W, h⟩, hfault⟩

theorem moves_newFrame (h : Describes K Γ ready nilled W m.scopes) (parent : Option FrameId) :
    Moves K Γ ready nilled New W m (newFrame parent) fun id W' =>
      id = W.next ∧ W' = W.addFrame parent :=
  ⟨W.addFrame parent, (Scopes.keeps_addFrame _ _).grows, adds_addFrame parent, h.addFrame parent,
    h.related.next_eq, rfl⟩

section Variables

variable {vars : List (String × StaticVariable)} {funs : List (Signature × StaticFunction)}
  {Δ : StaticView} {x : StaticVariable} {v : Variable}

theorem moves_defineVariable (h : Describes K Γ ready nilled W m.scopes)
    (hs : W.Sees scope ((vars, funs) :: Δ)) (hx : Fresh K.scopes vars x) (hv : v.Holds nilled x)
    (hplaced : Placed ready scope x) (hnew : New scope x) :
    Moves K Γ ready nilled New W m (defineVariable scope x.name v) fun _ W' =>
      W' = W.addVariable scope x.name x := by
  have hno : m.scopes.bindsVariable scope x.name = false := by
    rw [h.related.bindsVariable, hs.bindsVariable, hx.unbound]
    rfl
  unfold defineVariable
  refine ends_bind.mpr (ends_get.mpr ?_)
  rw [hno]
  exact ⟨_, Scopes.grows_addVariable _ _ _ _, adds_addVariable hs hx.unbound hnew,
    h.addVariable hs hx hv hplaced, rfl⟩

theorem moves_bindVariable {a : Activation} (h : Describes K Γ ready nilled W m.scopes)
    (hs : W.Sees a.scope ((vars, funs) :: Δ)) (hx : Fresh K.scopes vars x) (hv : v.Holds nilled x)
    (hplaced : Placed ready a.scope x) (hnew : New a.scope x) (what : String) :
    Moves K Γ ready nilled New W m (bindVariable a what x.name v) fun _ W' =>
      W' = W.addVariable a.scope x.name x := by
  refine (moves_defineVariable h hs hx hv hplaced hnew).bind ?_
  rintro _ _ m' hdesc rfl
  have hreads : Reads False m' (noteAt a 2 (do
      return what ++ " " ++ x.name ++ " = " ++ (← text v.value))) fun _ => True :=
    reads_noteAt ((shows_text _).bind fun _ => shows_pure _)
  exact (hreads.moves hdesc).imp fun _ _ hW' => hW'.1

theorem moves_findVariable (h : Describes K Γ ready nilled W m.scopes) (hs : W.Sees scope Δ)
    {name : String} (hx : Δ.findVariable name = some x) :
    Moves K Γ ready nilled New W m (findVariable scope name) fun found W' => W' = W ∧
      W.Binds found.1 name x ∧ found.2.Holds nilled x := by
  obtain ⟨home, v, hfound, hbinds, hholds⟩ := h.findVariable hs hx
  unfold findVariable
  refine ends_bind.mpr (ends_get.mpr ?_)
  rw [Scopes.getVariable, hfound]
  exact ⟨W, .refl W, .refl New W, h, rfl, hbinds, hholds⟩

theorem moves_assignVariable (h : Describes K Γ ready nilled W m.scopes) (hs : W.Sees scope Δ)
    {name : String} (hx : Δ.findVariable name = some x) (hassignable : x.constant = false)
    {value : Value} (hvalue : x.type.Holds nilled value) :
    Moves K Γ ready nilled New W m (assignVariable scope name value) fun _ W' => W' = W := by
  refine (moves_findVariable h hs hx).bind ?_
  rintro ⟨home, v⟩ _ m' hdesc ⟨rfl, hbinds, hholds⟩
  have hv : v.constant = false := hholds.1.trans hassignable
  dsimp only
  rw [hv]
  exact ⟨_, .refl _, .refl New _, hdesc.setVariable hbinds ⟨hassignable.symm, hvalue⟩, rfl⟩

theorem ParametersTyped.isPrefix {C : Scopes StaticVariable StaticFunction}
    {vars vars' : List (String × StaticVariable)} {names : List String} {types : List StaticType}
    (h : ParametersTyped C vars names types vars') : vars <+: vars' := by
  induction h with
  | nil => exact List.prefix_rfl
  | cons fresh assignable tail ih => exact (List.prefix_append _ _).trans ih

/-- Binding arguments of the types of the parameters makes the frame of a call. -/
theorem moves_bindArguments {vars vars' : List (String × StaticVariable)} {names : List String}
    {types : List StaticType} {values : List Value} (hpos : 0 < scope)
    (ht : ParametersTyped K.scopes vars names types vars')
    (hvalues : List.Forall₂ (StaticType.Holds nilled) types values)
    (hnew : ∀ x, x.name ∈ names → (x.name, x) ∈ vars' → New scope x)
    (h : Describes K Γ ready nilled W m.scopes) (hs : W.Sees scope ((vars, []) :: Δ)) :
    Moves K Γ ready nilled New W m (bindArguments scope names values) fun _ W' =>
      Scopes.KeepsBut scope W W' ∧ W'.Sees scope ((vars', []) :: Δ) := by
  induction ht generalizing W m values with
  | nil =>
    cases hvalues
    exact ⟨W, .refl W, .refl New W, h, .refl W, hs⟩
  | @cons vars vars' x names types fresh assignable tail ih =>
    cases hvalues with
    | @cons _ v _ values hv hvs =>
      have hmem : (x.name, x) ∈ vars' := tail.isPrefix.subset (by simp)
      refine (moves_defineVariable h hs fresh (v := ⟨false, v⟩) ⟨assignable.symm, hv⟩ (.inl hpos)
        (hnew x List.mem_cons_self hmem)).bind ?_
      rintro _ _ m' hdesc rfl
      have hrest : ∀ y, y.name ∈ names → (y.name, y) ∈ vars' → New scope y :=
        fun y hy => hnew y (List.mem_cons_of_mem _ hy)
      refine (ih hvs hrest hdesc (hs.addVariable x.name x)).imp ?_
      rintro _ W' ⟨hkeeps, hsees⟩
      exact ⟨(Scopes.keepsBut_update _ _ _ _).trans hkeeps, hsees⟩

end Variables

theorem moves_findFunction (h : Describes K Γ ready nilled W m.scopes) {Δ : StaticView}
    (hs : W.Sees scope Δ) {signature : Signature} {f : StaticFunction}
    (hf : Δ.findFunction signature = some f) :
    Moves K Γ ready nilled New W m (findFunction scope signature) fun g W' => W' = W ∧
      g.Fits K Γ ready f ∧ f.signature = signature ∧ K.scopes.BindsFunction 0 signature f := by
  obtain ⟨home, g, hfound, hfits, hsigned⟩ := h.findFunction hs hf
  unfold findFunction
  refine ends_bind.mpr (ends_get.mpr ?_)
  rw [Scopes.getFunction, hfound]
  exact ⟨W, .refl W, .refl New W, h, rfl, hfits, hsigned⟩

end BlockScript
