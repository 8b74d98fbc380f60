import BlockScript.Proofs.Typing.Course
/-!
# Well-typed programs keep to their types

Each kind of step does what its typing says if the steps nested in it do; so do all steps, by
induction on how deeply they are nested. Frames are only added to while an expression is evaluated;
a statement also adds variables to the frame in which it is executed.
-/
namespace BlockScript

open Recorded Run

variable {K : CheckedProgram} {Γ : StaticView} {ready : Prop} {H H' : History} {m : Machine}
  {a : Activation} {Δ Δ' : StaticView} {returns : StaticType}

/-- What a statement leaves behind in its frame: either it has returned a value of the type that the
method returns, or `Δ` is seen afterwards. All other frames are as they were. -/
def Leaves (K : CheckedProgram) (returns : StaticType) (H : History) (scope : FrameId)
    (Δ : StaticView) (result : Option Value) (H' : History) : Prop :=
  H.KeepsBut scope H' ∧
    match result with
    | none => H'.frames.Sees scope Δ
    | some v => returns.Holds (Nilled K H'.events) v

section Leaves

variable {scope : FrameId} {result : Option Value}

theorem Leaves.of_keeps (h : H.Keeps H') (hs : H.frames.Sees scope Δ) :
    Leaves K returns H scope Δ none H' := ⟨h.keepsBut, hs.keeps h.all⟩

theorem Leaves.after {H₁ : History} (h : Leaves K returns H₁ scope Δ result H')
    (hk : H.KeepsBut scope H₁) : Leaves K returns H scope Δ result H' := ⟨hk.trans h.1, h.2⟩

/-- What is left behind in a new frame is not seen from the frame around it. -/
theorem Leaves.of_inner (hs : H.frames.Sees scope Δ)
    (h : Leaves K returns (H.moved (H.frames.addFrame (some scope)) m) H.frames.next Δ' result H') :
    Leaves K returns H scope Δ result H' := by
  have hkeeps : H.Keeps H' :=
    ((H.keeps_addFrame _ m).keepsBut.trans h.1).keeps_of_next (Nat.le_refl _)
  refine ⟨hkeeps.keepsBut, ?_⟩
  cases result with
  | none => exact hs.keeps hkeeps.all
  | some v => exact h.2

theorem Leaves.around {node : Node} {m' : Machine}
    (h : Leaves K returns (H.record (.executing a node m)) scope Δ result H') :
    Leaves K returns H scope Δ result (H'.record (.executed a node result m')) := by
  refine ⟨h.1.around rfl rfl rfl, ?_⟩
  cases result with
  | none => exact h.2
  | some v => exact h.2.mono fun hn => hn.cons _

end Leaves

/-- If the expression is a call, it has just called the function that is in its slot. -/
def Answered (K : CheckedProgram) (a : Activation) (node : Node) (v : Value) (events : List Event) :
    Prop :=
  ∀ name arguments type callee, node = .call .absent name arguments type callee →
    ∃ f g values m earlier, callee = some f ∧ g.Implements K f ∧
      events = .invoked a ⟨name, arguments.length⟩ g values v m :: earlier

structure Steps.Preserve (K : CheckedProgram) (Γ : StaticView) (ready : Prop) (t : Steps Recorded) :
    Prop where
  evaluate : ∀ {H m} {a : Activation} {Δ node type}, Explains K Γ ready H m →
    Stands K H a.scope Δ node.preorder → HasType Δ node type →
      Runs K Γ ready H m (t.evaluate a node) fun v H' =>
        H.Keeps H' ∧ type.Holds (Nilled K H'.events) v
  evaluateAll : ∀ {H m} {a : Activation} {Δ nodes types}, Explains K Γ ready H m →
    Stands K H a.scope Δ (Node.preorderAll nodes) → HaveTypes Δ nodes types →
      Runs K Γ ready H m (t.evaluateAll a nodes) fun vs H' =>
        H.Keeps H' ∧ List.Forall₂ (StaticType.Holds (Nilled K H'.events)) types vs
  operate : ∀ {H m operator l r} {type : StaticType}, Explains K Γ ready H m →
    type.HoldsResult (Nilled K H.events) (applyBinary operator l r) →
      Runs K Γ ready H m (t.operate operator l r) fun v H' =>
        H.Keeps H' ∧ type.Holds (Nilled K H'.events) v
  write : ∀ {H m} (v : Value), Explains K Γ ready H m →
    Runs K Γ ready H m (t.write v) fun _ H' => H.Keeps H'
  invoke : ∀ {H m} {a : Activation} {signature g} {f : StaticFunction} {values},
    Explains K Γ ready H m → Function.Fits K Γ ready g f → K.scopes.BindsFunction 0 signature f →
      Asked H.events signature f →
        List.Forall₂ (StaticType.Holds (Nilled K H.events)) f.parameterTypes values →
          Runs K Γ ready H m (t.invoke a signature g values) fun v H' =>
            H.Keeps H' ∧ f.returnType.Holds (Nilled K H'.events) v ∧
              ∃ m' earlier, H'.events = .invoked a signature g values v m' :: earlier
  execute : ∀ {H m} {a : Activation} {returns Δ node Δ'}, ready → Explains K Γ ready H m →
    0 < a.scope → Stands K H a.scope Δ node.preorder →
      StatementTyped K.scopes returns Δ node Δ' →
        Runs K Γ ready H m (t.execute a node) fun result H' =>
          Leaves K returns H a.scope Δ' result H' ∧ (result = none → Unreturned H'.events)
  assign : ∀ {H m} {a : Activation} {Δ node}, Explains K Γ ready H m →
    Stands K H a.scope Δ node.preorder → AssignTyped Δ node →
      Runs K Γ ready H m (t.execute a node) fun _ H' => H.Keeps H'
  executeLoop : ∀ {H m} {a : Activation} {construct returns Δ condition increment statements Δ'},
    ready → Explains K Γ ready H m → 0 < a.scope →
      Stands K H a.scope Δ
        (condition.preorder ++ increment.preorder ++ Node.preorderAll statements) →
        HasType Δ condition .boolean → HeaderTyped Δ increment →
          StatementsTyped K.scopes returns (([], []) :: Δ) statements Δ' →
            Runs K Γ ready H m (t.executeLoop a construct condition increment statements)
              (Leaves K returns H a.scope Δ)
  executeAll : ∀ {H m} {a : Activation} {returns Δ nodes Δ'}, ready → Explains K Γ ready H m →
    0 < a.scope → Stands K H a.scope Δ (Node.preorderAll nodes) → Unreturned H.events →
      StatementsTyped K.scopes returns Δ nodes Δ' →
        Runs K Γ ready H m (t.executeAll a nodes) fun result H' =>
          Leaves K returns H a.scope Δ' result H' ∧ (result = none → Unreturned H'.events)

section Arguments

variable {types ps : List StaticType} {values : List Value} {nilled : Prop}

theorem HaveTypes.length_eq {nodes : List Node} (h : HaveTypes Δ nodes types) :
    types.length = nodes.length := by
  induction types generalizing nodes with
  | nil =>
    cases h
    rfl
  | cons t ts ih =>
    cases h with
    | cons head tail => simp [ih tail]

theorem ParametersTyped.length_eq {C : Scopes StaticVariable StaticFunction}
    {vars vars' : List (String × StaticVariable)} {names : List String}
    (h : ParametersTyped C vars names types vars') : types.length = names.length := by
  induction h with
  | nil => rfl
  | cons fresh assignable tail ih => simp [ih]

theorem Function.Fits.length_eq {g : Function} {f : StaticFunction} (h : g.Fits K Γ ready f) :
    f.parameterTypes.length = f.arity := by
  cases h with
  | print => rfl
  | method prepared written typed =>
    cases typed with
    | method bound arity own placed body => exact bound.length_eq.trans arity.symm

/-- Values of types that parameters accept are values of the types of the parameters. -/
theorem holds_of_accepted (h : List.Forall₂ (StaticType.Holds nilled) types values)
    (hl : ps.length = types.length)
    (ha : ∀ pair ∈ ps.zip types, pair.1.accepts pair.2 = true) :
    List.Forall₂ (StaticType.Holds nilled) ps values := by
  induction h generalizing ps with
  | nil =>
    obtain rfl := List.length_eq_zero_iff.mp hl
    exact .nil
  | cons hv hvs ih =>
    cases ps with
    | nil => cases hl
    | cons p ps =>
      simp only [List.zip_cons_cons, List.mem_cons, forall_eq_or_imp] at ha
      exact .cons (hv.of_accepts ha.1) (ih (Nat.succ.inj hl) ha.2)

end Arguments

namespace History.Keeps

theorem nilled (h : H.Keeps H') (hn : Nilled K H.events) : Nilled K H'.events :=
  hn.mono h.settled.suffix

/-- Values of their types stay so. -/
theorem holds {types : List StaticType} {values : List Value} (h : H.Keeps H')
    (hv : List.Forall₂ (StaticType.Holds (Nilled K H.events)) types values) :
    List.Forall₂ (StaticType.Holds (Nilled K H'.events)) types values :=
  List.Forall₂.imp (fun _ _ hv => hv.mono h.nilled) hv

end History.Keeps

namespace Steps.Preserve

variable {t : Steps Recorded}

/-- A step that goes on with the truth value of an expression of the type of conditions. -/
theorem evaluateCondition {β : Type} (h : t.Preserve K Γ ready) {node : Node}
    (he : Explains K Γ ready H m) (hs : Stands K H a.scope Δ node.preorder)
    (ht : HasType Δ node .boolean) (construct : String) {f : Bool → Recorded β}
    {R : β → History → Prop}
    (hf : ∀ b H' m', Explains K Γ ready H' m' → H.Keeps H' → Runs K Γ ready H' m' (f b) R) :
    Runs K Γ ready H m (do
      let v ← t.evaluate a node
      let b ← requireBoolean a construct v
      f b) R := by
  refine (h.evaluate he hs ht).bind ?_
  rintro v H₁ m₁ he₁ ⟨hk, hv⟩
  refine (runs_reads he₁ (reads_requireBoolean hv)).bind ?_
  rintro b _ m₂ he₂ ⟨⟨m', rfl⟩, -⟩
  exact hf b _ m₂ he₂ (hk.trans (H₁.keeps_moved m'))

theorem evaluateBinary (h : t.Preserve K Γ ready) {operator : String} {left right : Node}
    {l r type : StaticType} {slot : Option StaticType} (he : Explains K Γ ready H m)
    (hs : Stands K H a.scope Δ (Node.binary operator left right slot).preorder)
    (hl : HasType Δ left l) (hr : HasType Δ right r) (ht : binaryType operator l r = .ok type) :
    Runs K Γ ready H m (t.evaluateNode a (.binary operator left right slot)) fun v H' =>
      H.Keeps H' ∧ type.Holds (Nilled K H'.events) v := by
  have hlogical : conjunctions.contains operator = true ∨ disjunctions.contains operator = true →
      l = .boolean ∧ r = .boolean ∧ type = .boolean := by
    intro hop
    unfold binaryType at ht
    rw [if_pos (by simpa using hop)] at ht
    split at ht
    · next hlr =>
      cases ht
      obtain ⟨rfl, rfl⟩ : l = .boolean ∧ r = .boolean := by simpa using hlr
      exact ⟨rfl, rfl, rfl⟩
    · cases ht
  have hleft := hs.mono left.preorder fun _ hn => by simp [Node.preorder, hn]
  have hright := hs.mono right.preorder fun _ hn => by simp [Node.preorder, hn]
  refine (h.evaluate he hleft hl).bind ?_
  rintro lv H₁ m₁ he₁ ⟨hk₁, hlv⟩
  cases hc : conjunctions.contains operator with
  | true =>
    obtain ⟨rfl, rfl, rfl⟩ := hlogical (.inl hc)
    refine (runs_reads he₁ (reads_requireBoolean hlv)).bind ?_
    rintro b _ m₂ he₂ ⟨⟨m', rfl⟩, -⟩
    have hk₂ := hk₁.trans (H₁.keeps_moved m')
    cases b with
    | false => exact runs_pure he₂ ⟨hk₂, StaticType.holds_boolean _⟩
    | true =>
      refine h.evaluateCondition he₂ (hright.keeps hk₂) hr operator fun b' H₃ m₃ he₃ hk₃ => ?_
      exact runs_pure he₃ ⟨hk₂.trans hk₃, StaticType.holds_boolean _⟩
  | false =>
    cases hd : disjunctions.contains operator with
    | true =>
      obtain ⟨rfl, rfl, rfl⟩ := hlogical (.inr hd)
      refine (runs_reads he₁ (reads_requireBoolean hlv)).bind ?_
      rintro b _ m₂ he₂ ⟨⟨m', rfl⟩, -⟩
      have hk₂ := hk₁.trans (H₁.keeps_moved m')
      cases b with
      | true => exact runs_pure he₂ ⟨hk₂, StaticType.holds_boolean _⟩
      | false =>
        refine h.evaluateCondition he₂ (hright.keeps hk₂) hr operator fun b' H₃ m₃ he₃ hk₃ => ?_
        exact runs_pure he₃ ⟨hk₂.trans hk₃, StaticType.holds_boolean _⟩
    | false =>
      refine (h.evaluate he₁ (hright.keeps hk₁) hr).bind ?_
      rintro rv H₂ m₂ he₂ ⟨hk₂, hrv⟩
      refine (h.operate he₂
        (StaticType.holds_applyBinary (hlv.mono hk₂.nilled) hrv ht hc hd)).imp ?_
      rintro v H₃ ⟨hk₃, hv⟩
      exact ⟨(hk₁.trans hk₂).trans hk₃, hv⟩

theorem evaluateNode (h : t.Preserve K Γ ready) {node : Node} {type : StaticType}
    {m₀ : Machine} (he : Explains K Γ ready H m) (hs : Stands K H a.scope Δ node.preorder)
    (now : innermost? .expression H.events = some (.evaluating a node m₀))
    (ht : HasType Δ node type) :
    Runs K Γ ready H m (t.evaluateNode a node) fun v H' =>
      H.Keeps H' ∧ type.Holds (Nilled K H'.events) v ∧ Answered K a node v H'.events := by
  cases ht with
  | @literal value type plain hvalue =>
    exact runs_pure he ⟨.refl H, StaticType.holds_of_staticType plain hvalue, by rintro _ _ _ _ ⟨⟩⟩
  | @group inner type inside =>
    have hinner := hs.mono inner.preorder fun _ hn => by simp [Node.preorder, hn]
    refine (h.evaluate he hinner inside).imp ?_
    rintro v H' ⟨hk, hv⟩
    exact ⟨hk, hv, by rintro _ _ _ _ ⟨⟩⟩
  | binary first second rule =>
    refine (h.evaluateBinary he hs first second rule).imp ?_
    rintro v H' ⟨hk, hv⟩
    exact ⟨hk, hv, by rintro _ _ _ _ ⟨⟩⟩
  | access found spelled =>
    refine (runs_lift he (moves_findVariable he.describes hs.sees found)).bind ?_
    rintro ⟨home, v⟩ _ m₁ he₁ ⟨_, m', rfl, -, rfl, -, hholds⟩
    exact runs_pure he₁ ⟨H.keeps_moved m', hholds.2.mono fun hn => hn.cons _, by rintro _ _ _ _ ⟨⟩⟩
  | @call name arguments types f passed found accepted spelled =>
    have harguments := hs.mono (Node.preorderAll arguments) fun _ hn => by
      simp [Node.preorder, hn]
    refine (h.evaluateAll he harguments passed).bind ?_
    rintro values H₁ m₁ he₁ ⟨hk₁, hvalues⟩
    have hlength : values.length = arguments.length :=
      hvalues.length_eq.symm.trans passed.length_eq
    rw [← hlength] at found
    refine (runs_lift he₁ (moves_findFunction he₁.describes (hs.keeps hk₁).sees found)).bind ?_
    rintro g _ m₂ he₂ ⟨_, m', rfl, -, rfl, hfits, hsigned, hbound⟩
    have hk₂ := hk₁.trans (H₁.keeps_moved m')
    have harity : f.arity = values.length := Int.ofNat.inj (congrArg Signature.arity hsigned)
    have hparameters : f.parameterTypes.length = types.length :=
      (hfits.length_eq.trans harity).trans hvalues.length_eq.symm
    have hasked : Asked (H₁.moved H₁.frames m').events ⟨name, values.length⟩ f :=
      .call ((hk₂.settled.innermost? _).trans now) (congrArg Int.ofNat hlength)
    refine (h.invoke he₂ hfits hbound hasked ((H₁.keeps_moved m').holds
      (holds_of_accepted hvalues hparameters accepted))).imp ?_
    rintro v H₃ ⟨hk₃, hv, m₃, earlier, hlast⟩
    refine ⟨hk₂.trans hk₃, hv, ?_⟩
    rintro _ _ _ _ ⟨⟩
    rw [hlength] at hlast
    exact ⟨f, g, values, m₃, earlier, rfl, hfits.implements, hlast⟩

theorem evaluateNodes (h : t.Preserve K Γ ready) {nodes : List Node} {types : List StaticType}
    (he : Explains K Γ ready H m) (hs : Stands K H a.scope Δ (Node.preorderAll nodes))
    (ht : HaveTypes Δ nodes types) :
    Runs K Γ ready H m (t.evaluateNodes a nodes) fun vs H' =>
      H.Keeps H' ∧ List.Forall₂ (StaticType.Holds (Nilled K H'.events)) types vs := by
  cases ht with
  | nil => exact runs_pure he ⟨.refl H, .nil⟩
  | @cons node t rest ts head tail =>
    have hnode := hs.mono node.preorder fun _ hn => by simp [Node.preorderAll, hn]
    have hrest := hs.mono (Node.preorderAll rest) fun _ hn => by
      simp [Node.preorderAll, hn]
    refine (h.evaluate he hnode head).bind ?_
    rintro v H₁ m₁ he₁ ⟨hk₁, hv⟩
    refine (h.evaluateAll he₁ (hrest.keeps hk₁) tail).bind ?_
    rintro vs H₂ m₂ he₂ ⟨hk₂, hvs⟩
    exact runs_pure he₂ ⟨hk₁.trans hk₂, .cons (hv.mono hk₂.nilled) hvs⟩

/-- The statements of a method stand in the frame that has been made for the call. -/
theorem stands_call {signature : Signature} {g : Function} {values : List Value} {m' : Machine}
    {index : Nat} {parameters : List String} {statements : List Node} {f : StaticFunction}
    (hlive : innermost? .call H.events = some (.invoking a signature g values m))
    (follows : g.Follows K index parameters statements f) (hnext : H.frames.next = m.scopes.next)
    (hpos : 0 < H.frames.next) (hc : (H.moved (H.frames.addFrame (some 0)) m').Continues H')
    (hs : H'.frames.Sees H.frames.next Δ) :
    Stands K H' H.frames.next Δ (Node.preorderAll statements) := by
  have hframe : (H.frames.addFrame (some 0)).frames[m.scopes.next]? = some ⟨some 0, [], []⟩ := by
    rw [← hnext]
    simp [Option.filter, hpos]
  obtain ⟨fr, hfr, hparent, -⟩ := hc.grows _ _ hframe
  have hsettled := (H.settled_moved _ m').trans hc.settled
  exact ⟨hs, .method ((hsettled.innermost? _).trans hlive) follows hfr hparent
    (by rw [hnext]; exact .top) (List.Subset.refl _)⟩

/-- A method whose call has just begun gives a value of the type that it returns, or nil where it has
not returned. -/
theorem invokeMethod (h : t.Preserve K Γ ready) (prepared : ready) {signature : Signature}
    {javaName : String} {level index : Nat} {parameters : List String}
    {types : List (Option String)} {returnType : Option String} {statements : List Node}
    {f : StaticFunction} {values : List Value} {earlier : List Event}
    (written : K.methods[index]? =
      some (.method f.name parameters types returnType statements (some f)))
    (typed : MethodTyped K.scopes Γ index parameters statements f)
    (he : Explains K Γ ready H m)
    (hbegun : H.events = .invoking a signature
      ⟨javaName, some (.method 0 level f.name parameters statements)⟩ values m :: earlier)
    (hvalues : List.Forall₂ (StaticType.Holds (Nilled K H.events)) f.parameterTypes values) :
    Runs K Γ ready H m (t.invokeFunction a signature
        ⟨javaName, some (.method 0 level f.name parameters statements)⟩ values) fun v H' =>
      H.Keeps H' ∧ (f.returnType.Holds (Nilled K H'.events) v ∨ v = .nil ∧ Unreturned H'.events) := by
  cases typed with
  | @method vars Γ₁ home bound arity own placed body =>
    have follows : Function.Follows K index parameters statements f
        ⟨javaName, some (.method 0 level f.name parameters statements)⟩ :=
      ⟨⟨_, _, written⟩, _, rfl⟩
    unfold Steps.invokeFunction
    dsimp only
    cases a.calls with
    | zero =>
      have hinherent : (Fault.run .callsExhausted).Inherent := trivial
      exact (runs_lift (Q := fun _ _ => False) he (moves_throw he.describes hinherent)).imp
        fun _ _ ⟨_, _, _, _, hno⟩ => hno.elim
    | succ calls =>
      have hroot := he.describes.root prepared
      have hpos : 0 < H.frames.next := hroot.lt_next
      have hnext : H.frames.next = m.scopes.next := he.describes.related.next_eq.symm
      refine (runs_lift he (moves_newFrame he.describes (some 0))).bind ?_
      rintro frame _ m₁ he₁ ⟨_, n₁, rfl, -, rfl, rfl⟩
      have hmade : ∀ x, x.name ∈ parameters → (x.name, x) ∈ vars →
          Made K (H.moved (H.frames.addFrame (some 0)) n₁).events H.frames.next x := by
        intro x hx hvars
        exact .parameter (congrArg (Event.moved n₁ :: ·) hbegun) follows hx
          (by rw [own, placed _ hvars]) hnext hpos
      refine (runs_lift he₁ (moves_bindArguments hpos bound
        ((H.keeps_addFrame (some 0) n₁).holds hvalues) hmade he₁.describes hroot.addFrame)).bind ?_
      rintro _ _ m₂ he₂ ⟨W₂, n₂, rfl, hgrows₂, hk₂, hs₂⟩
      refine (runs_reads he₂ (reads_noteAt ?_)).bind ?_
      · exact (shows_texts values).bind fun _ => shows_pure _
      rintro _ _ m₃ he₃ ⟨⟨n₃, rfl⟩, -⟩
      have hc₃ : (H.moved (H.frames.addFrame (some 0)) n₁).KeepsBut H.frames.next
          (((H.moved (H.frames.addFrame (some 0)) n₁).moved W₂ n₂).moved W₂ n₃) :=
        ⟨⟨hgrows₂, (History.settled_moved _ W₂ n₂).trans (History.settled_moved _ W₂ n₃)⟩, hk₂⟩
      have hlive : innermost? .call H.events = some (.invoking a signature
          ⟨javaName, some (.method 0 level f.name parameters statements)⟩ values m) := by
        rw [hbegun]
        exact innermost?_of_begins (by simp [Event.ends]) rfl _
      refine (h.executeAll (a := ⟨H.frames.next, calls, level⟩) prepared he₃ hpos
        (stands_call hlive follows hnext hpos hc₃.toContinues hs₂) (unreturned_moved _ _)
        body).bind ?_
      rintro result H₄ m₄ he₄ ⟨hl₄, hopen⟩
      -- Only the frame of the call has changed, and it is not seen from outside.
      have hkeeps : H.Keeps H₄ :=
        (((H.keeps_addFrame (some 0) n₁).keepsBut.trans hc₃).trans hl₄.1).keeps_of_next
          (Nat.le_refl _)
      refine runs_pure he₄ ⟨hkeeps, ?_⟩
      cases result with
      | none => exact .inr ⟨rfl, hopen rfl⟩
      | some v => exact .inl hl₄.2

/-- A function gives a value of the type that it returns, or it is a method that has not returned
and gives nil. -/
theorem invokeFunction (h : t.Preserve K Γ ready) {signature : Signature} {g : Function}
    {f : StaticFunction} {values : List Value}
    (he : Explains K Γ ready (H.record (.invoking a signature g values m)) m)
    (hf : g.Fits K Γ ready f)
    (hvalues : List.Forall₂ (StaticType.Holds (Nilled K H.events)) f.parameterTypes values) :
    Runs K Γ ready (H.record (.invoking a signature g values m)) m
      (t.invokeFunction a signature g values) fun v H' =>
        (H.record (.invoking a signature g values m)).Keeps H' ∧
          (f.returnType.Holds (Nilled K H'.events) v ∨ v = .nil ∧ Unreturned H'.events ∧
            ∃ index parameters statements, g.Follows K index parameters statements f) := by
  have hbegun : (H.record (.invoking a signature g values m)).events =
      .invoking a signature g values m :: H.events := rfl
  have hvalues₀ : List.Forall₂
      (StaticType.Holds (Nilled K (H.record (.invoking a signature g values m)).events))
      f.parameterTypes values :=
    List.Forall₂.imp (fun _ _ hv => hv.mono fun hn => hn.cons _) hvalues
  generalize H.record (.invoking a signature g values m) = H₀ at he hbegun hvalues₀ ⊢
  cases hf with
  | print =>
    cases hvalues₀ with
    | @cons _ v _ rest hv hrest =>
      cases hrest
      refine (h.write v he).bind ?_
      rintro line H₁ m₁ he₁ hk₁
      refine (runs_reads he₁ (reads_printLine line)).bind ?_
      rintro _ _ m₂ he₂ ⟨⟨m', rfl⟩, -⟩
      exact runs_pure he₂ ⟨hk₁.trans (H₁.keeps_moved m'),
        .inl (.of_admits (StaticType.admits_nil _) rfl)⟩
  | method prepared written typed =>
    refine (h.invokeMethod prepared written typed he hbegun hvalues₀).imp ?_
    rintro v H' ⟨hk, hv | ⟨rfl, hopen⟩⟩
    · exact ⟨hk, .inl hv⟩
    · exact ⟨hk, .inr ⟨rfl, hopen, _, _, _, ⟨_, _, written⟩, _, rfl⟩⟩

/-- Statements in a new frame leave what is seen from the frame around it. -/
theorem executeWithin (h : t.Preserve K Γ ready) (hready : ready) {nodes : List Node} {m' : Machine}
    (he : Explains K Γ ready (H.moved (H.frames.addFrame (some a.scope)) m') m)
    (hpos : 0 < a.scope) (hs : Stands K H a.scope Δ (Node.preorderAll nodes))
    (ht : StatementsTyped K.scopes returns (([], []) :: Δ) nodes Δ') :
    Runs K Γ ready (H.moved (H.frames.addFrame (some a.scope)) m') m
      (t.executeAll (a.within H.frames.next) nodes) (Leaves K returns H a.scope Δ) := by
  have hnext : 0 < H.frames.next := Nat.zero_lt_of_lt hs.sees.lt_next
  refine (h.executeAll (a := a.within H.frames.next) hready he hnext (hs.addFrame hpos m')
    (unreturned_moved _ _) ht).imp ?_
  exact fun result H' hl => hl.1.of_inner hs.sees

theorem executeInner (h : t.Preserve K Γ ready) (hready : ready) {nodes : List Node}
    (he : Explains K Γ ready H m) (hpos : 0 < a.scope)
    (hs : Stands K H a.scope Δ (Node.preorderAll nodes))
    (ht : StatementsTyped K.scopes returns (([], []) :: Δ) nodes Δ') :
    Runs K Γ ready H m (do
      let frame ← (liftM (newFrame (some a.scope)) : Recorded FrameId)
      t.executeAll (a.within frame) nodes) (Leaves K returns H a.scope Δ) := by
  refine (runs_lift he (moves_newFrame he.describes (some a.scope))).bind ?_
  rintro frame _ m₁ he₁ ⟨_, m', rfl, -, rfl, rfl⟩
  exact h.executeWithin hready he₁ hpos hs ht

/-- A part of the header of a loop is executed unless it is left out. -/
theorem executeHeader {β : Type} (h : t.Preserve K Γ ready) {node : Node}
    (he : Explains K Γ ready H m) (hs : Stands K H a.scope Δ node.preorder)
    (ht : HeaderTyped Δ node) {next : Recorded β} {Q : β → History → Prop}
    (hnext : ∀ H' m', Explains K Γ ready H' m' → H.Keeps H' → Runs K Γ ready H' m' next Q) :
    Runs K Γ ready H m (if node.isAbsent then next else do
      let _ ← t.execute a node
      next) Q := by
  rcases ht with rfl | hassign
  · exact hnext H m he (.refl H)
  · cases hassign with
    | assign found assignable spelled typed accepted =>
      exact (h.assign he hs (.assign found assignable spelled typed accepted)).bind
        fun _ H₁ m₁ he₁ hk₁ => hnext H₁ m₁ he₁ hk₁

theorem executeRound (h : t.Preserve K Γ ready) (hready : ready) {construct : String}
    {condition increment : Node} {statements : List Node} (he : Explains K Γ ready H m)
    (hpos : 0 < a.scope)
    (hs : Stands K H a.scope Δ
      (condition.preorder ++ increment.preorder ++ Node.preorderAll statements))
    (ht : HasType Δ condition .boolean) (hi : HeaderTyped Δ increment)
    (hb : StatementsTyped K.scopes returns (([], []) :: Δ) statements Δ') :
    Runs K Γ ready H m (t.executeRound a construct condition increment statements)
      (Leaves K returns H a.scope Δ) := by
  have htest := hs.mono condition.preorder fun _ hn => by simp [hn]
  have hbody := hs.mono (Node.preorderAll statements) fun _ hn => by simp [hn]
  refine h.evaluateCondition he htest ht construct fun b H₁ m₁ he₁ hk₁ => ?_
  cases b with
  | false => exact runs_pure he₁ (.of_keeps hk₁ hs.sees)
  | true =>
    refine (runs_lift he₁ (moves_newFrame he₁.describes (some a.scope))).bind ?_
    rintro frame _ m₂ he₂ ⟨_, m', rfl, -, rfl, rfl⟩
    refine (h.executeWithin hready he₂ hpos (hbody.keeps hk₁) hb).bind ?_
    rintro result H₃ m₃ he₃ hl₃
    have hl := hl₃.after hk₁.keepsBut
    cases result with
    | some v => exact runs_pure he₃ hl
    | none =>
      have hs₃ := hs.after hl.1.toContinues hl.2
      have hincrement := hs₃.mono increment.preorder fun _ hn => by simp [hn]
      exact h.executeHeader he₃ hincrement hi fun H₄ m₄ he₄ hk₄ =>
        (h.executeLoop hready he₄ hpos (hs₃.keeps hk₄) ht hi hb).imp
          fun _ _ hl' => hl'.after (hl.1.trans hk₄.keepsBut)

theorem executeAssign (h : t.Preserve K Γ ready) {node : Node} (he : Explains K Γ ready H m)
    (hs : Stands K H a.scope Δ node.preorder) (ht : AssignTyped Δ node) :
    Runs K Γ ready H m (t.executeNode a node) fun result H' => result = none ∧ H.Keeps H' := by
  cases ht with
  | @assign name x value type found assignable spelled typed accepted =>
    have hvalue := hs.mono value.preorder fun _ hn => by simp [Node.preorder, hn]
    refine (h.evaluate he hvalue typed).bind ?_
    rintro v H₁ m₁ he₁ ⟨hk₁, hv⟩
    refine (runs_lift he₁ (moves_assignVariable he₁.describes (hs.keeps hk₁).sees found assignable
      (hv.of_accepts accepted))).bind ?_
    rintro _ _ m₂ he₂ ⟨_, m', rfl, -, rfl⟩
    exact runs_pure he₂ ⟨rfl, hk₁.trans (H₁.keeps_moved m')⟩

theorem executeNode (h : t.Preserve K Γ ready) (hready : ready) {node : Node} {m₀ : Machine}
    (he : Explains K Γ ready H m) (hpos : 0 < a.scope) (hs : Stands K H a.scope Δ node.preorder)
    (now : innermost? .statement H.events = some (.executing a node m₀))
    (ht : StatementTyped K.scopes returns Δ node Δ') :
    Runs K Γ ready H m (t.executeNode a node) (Leaves K returns H a.scope Δ') := by
  cases ht with
  | @exprStmt _ expression type typed =>
    have hwhole := hs.mono expression.preorder fun _ hn => by simp [Node.preorder, hn]
    refine (h.evaluate he hwhole typed).bind ?_
    rintro v H₁ m₁ he₁ ⟨hk₁, -⟩
    exact runs_pure he₁ (.of_keeps hk₁ hs.sees)
  | @declaration vars funs Δ x typeName value initial fresh assignable =>
    have hvalue := hs.mono value.preorder fun _ hn => by simp [Node.preorder, hn]
    refine Runs.join (Q := fun v H' => H.Keeps H' ∧ x.type.Holds (Nilled K H'.events) v) ?_ ?_ ?_
    · intro habsent
      obtain rfl := eq_absent habsent
      exact runs_pure he ⟨.refl H, StaticType.admits_nil _, fun _ _ => nilled_of_declaration now⟩
    · intro hpresent
      rcases initial with rfl | ⟨source, typed, accepted⟩
      · cases hpresent
      · exact (h.evaluate he hvalue typed).imp fun _ _ => And.imp_right (·.of_accepts accepted)
    rintro v H₁ m₁ he₁ ⟨hk₁, hv⟩
    have hs₁ := (hs.keeps hk₁).sees
    have hmade : Made K H₁.events a.scope x :=
      .declaration ((hk₁.settled.innermost? _).trans now) rfl hpos
    refine (runs_lift he₁ (moves_bindVariable he₁.describes hs₁ fresh (v := ⟨false, v⟩)
      ⟨assignable.symm, hv⟩ (.inl hpos) hmade "declare")).bind ?_
    rintro _ _ m₂ he₂ ⟨_, m', rfl, -, rfl⟩
    exact runs_pure he₂ ⟨hk₁.keepsBut.trans (H₁.keepsBut_addVariable _ _ _ _),
      hs₁.addVariable x.name x⟩
  | assign typed =>
    refine (h.executeAssign he hs typed).imp ?_
    rintro _ H' ⟨rfl, hk⟩
    exact .of_keeps hk hs.sees
  | @ifStmt _ _ _ condition thens elses test first second =>
    have htest := hs.mono condition.preorder fun _ hn => by simp [Node.preorder, hn]
    have hthens := hs.mono (Node.preorderAll thens) fun _ hn => by
      simp [Node.preorder, hn]
    have helses := hs.mono (Node.preorderAll elses) fun _ hn => by
      simp [Node.preorder, hn]
    refine h.evaluateCondition he htest test "if" fun b H₁ m₁ he₁ hk₁ => ?_
    cases b with
    | true =>
      exact (h.executeInner hready he₁ hpos (hthens.keeps hk₁) first).imp
        fun _ _ hl => hl.after hk₁.keepsBut
    | false =>
      exact (h.executeInner hready he₁ hpos (helses.keeps hk₁) second).imp
        fun _ _ hl => hl.after hk₁.keepsBut
  | @forStmt _ _ initialization condition increment statements before test after body =>
    refine (runs_lift he (moves_newFrame he.describes (some a.scope))).bind ?_
    rintro frame _ m₁ he₁ ⟨_, m', rfl, -, rfl, rfl⟩
    have hinner : 0 < H.frames.next := Nat.zero_lt_of_lt hs.sees.lt_next
    have hs₁ := hs.addFrame hpos m'
    have hfirst := hs₁.mono initialization.preorder fun _ hn => by
      simp [Node.preorder, hn]
    have hloop := hs₁.mono
        (condition.preorder ++ increment.preorder ++ Node.preorderAll statements)
        fun _ hn => by
      simp only [Node.preorder, List.mem_cons, List.mem_append] at hn ⊢
      tauto
    exact h.executeHeader (a := a.within H.frames.next) he₁ hfirst before fun H₂ m₂ he₂ hk₂ =>
      (h.executeLoop (a := a.within H.frames.next) hready he₂ hinner (hloop.keeps hk₂) test after
        body).imp fun _ _ hl => (hl.after hk₂.keepsBut).of_inner hs.sees
  | @whileStmt _ _ condition statements test body =>
    have hloop := hs.mono
        (condition.preorder ++ Node.absent.preorder ++ Node.preorderAll statements)
        fun _ hn => by
      simp only [Node.preorder, List.mem_cons, List.mem_append] at hn ⊢
      tauto
    exact h.executeLoop hready he hpos hloop test (.inl rfl) body
  | @returnStmt _ value type typed accepted =>
    have hwhole := hs.mono value.preorder fun _ hn => by simp [Node.preorder, hn]
    refine (h.evaluate he hwhole typed).bind ?_
    rintro v H₁ m₁ he₁ ⟨hk₁, hv⟩
    exact runs_pure he₁ ⟨hk₁.keepsBut, hv.of_accepts accepted⟩

theorem executeNodes (h : t.Preserve K Γ ready) (hready : ready) {nodes : List Node}
    (he : Explains K Γ ready H m) (hpos : 0 < a.scope)
    (hs : Stands K H a.scope Δ (Node.preorderAll nodes)) (hopen : Unreturned H.events)
    (ht : StatementsTyped K.scopes returns Δ nodes Δ') :
    Runs K Γ ready H m (t.executeNodes a nodes) fun result H' =>
      Leaves K returns H a.scope Δ' result H' ∧ (result = none → Unreturned H'.events) := by
  cases ht with
  | nil => exact runs_pure he ⟨.of_keeps (.refl H) hs.sees, fun _ => hopen⟩
  | @cons _ _ _ node rest head tail =>
    have hnode := hs.mono node.preorder fun _ hn => by simp [Node.preorderAll, hn]
    have hrest := hs.mono (Node.preorderAll rest) fun _ hn => by
      simp [Node.preorderAll, hn]
    refine (h.execute hready he hpos hnode head).bind ?_
    rintro result H₁ m₁ he₁ ⟨hl₁, hopen₁⟩
    cases result with
    | some v => exact runs_pure he₁ ⟨hl₁, by rintro ⟨⟩⟩
    | none =>
      exact (h.executeAll hready he₁ hpos (hrest.after hl₁.1.toContinues hl₁.2) (hopen₁ rfl)
        tail).imp fun _ _ => And.imp_left (·.after hl₁.1)

end Steps.Preserve

section Recorded

theorem HasType.type?_eq {node : Node} {type : StaticType} (ht : HasType Δ node type) :
    node.type? = some type := by
  cases ht <;> rfl

section Names

variable {name : String} {x : StaticVariable} {part : List Node}

theorem Explains.means (h : Explains K Γ ready H m) {scope : FrameId} (hs : Stands K H scope Δ part)
    (hx : Δ.findVariable name = some x) : m.Means H.frames scope name x := by
  obtain ⟨home, w, hfound, hbinds, -⟩ := h.describes.findVariable hs.sees hx
  exact ⟨home, w, hfound, hbinds⟩

theorem Instances.name_eq {C W : Scopes StaticVariable StaticFunction} (h : Instances C W)
    {home : FrameId} (hx : W.Binds home name x) : x.name = name := by
  obtain ⟨fr, hfr, hlookup⟩ := hx
  exact ((h.instanceOf home fr hfr).bound _ (mem_of_lookup hlookup)).1

/-- What is seen under a name is what checking has found there. -/
theorem Explains.resolves (h : Explains K Γ ready H m) {scope : FrameId}
    (hs : Stands K H scope Δ part) (hx : Δ.findVariable name = some x) :
    Resolves K H.events m scope name x := by
  obtain ⟨home, w, hfound, hbinds, -⟩ := h.describes.findVariable hs.sees hx
  refine ⟨h.describes.instances.name_eq hbinds, home, w, hfound, h.created home name x hbinds, ?_⟩
  cases hs.within with
  | field top mem here sub =>
    subst here
    exact .inl (Scopes.nearest?_root hfound)
  | method live follows frame parent under sub =>
    obtain ⟨fr, hfr, hrel⟩ := h.describes.related.getElem?' frame
    have hunder := h.describes.related.under under
    exact (hunder.nearest? hfr (hrel.parent.trans parent) hfound).imp_right
      fun hhome => ⟨_, live, hhome⟩

end Names

theorem told_evaluated (h : Explains K Γ ready H m) {node : Node} {type : StaticType} {v : Value}
    (hs : Stands K H a.scope Δ node.preorder) (ht : HasType Δ node type)
    (hv : type.Holds (Nilled K H.events) v) (hanswered : Answered K a node v H.events) :
    (Event.evaluated a node v m).Told K H where
  typed := {
    machine := h.describes.typedBy
    value := by
      rintro _ _ _ _ ⟨⟩
      exact ⟨type, ht.type?_eq, hv.admits⟩
    used := by
      rintro _ _ _ _ _ _ ⟨⟩
      cases ht with
      | access found spelled => exact h.means hs found
    passed _ _ _ _ _ he := by cases he
    returned _ _ _ _ _ _ he := by cases he
    assigned _ _ _ _ _ _ he := by cases he
    declared _ _ _ _ _ _ he := by cases he }
  resolved := {
    used := by
      rintro _ _ _ _ _ _ ⟨⟩
      cases ht with
      | access found spelled =>
        refine ⟨(hs.within.mono ?_).inside, _, rfl, h.resolves hs found⟩
        simp [Node.preorder]
    answered := by
      rintro _ _ _ _ _ _ _ ⟨⟩
      exact hanswered _ _ _ _ rfl
    assigned _ _ _ _ _ _ he := by cases he
    asked _ _ _ _ _ he := by cases he }
  definite := by
    rintro _ _ _ _ t ⟨⟩ htype hdefinite hnil
    cases ht.type?_eq.symm.trans htype
    exact hv.nilled hdefinite hnil

theorem told_invoking (h : Explains K Γ ready H m) {signature : Signature} {g : Function}
    {f : StaticFunction} {values : List Value} (hg : g.Implements K f)
    (hf : K.scopes.BindsFunction 0 signature f) (hasked : Asked H.events signature f)
    (hvalues : List.Forall₂ (StaticType.Holds (Nilled K H.events)) f.parameterTypes values) :
    (Event.invoking a signature g values m).Told K H where
  typed := {
    machine := h.describes.typedBy
    passed := by
      rintro _ _ _ _ _ ⟨⟩
      exact ⟨f, hf, List.Forall₂.imp (fun _ _ hv => hv.admits) hvalues⟩
    value _ _ _ _ he := by cases he
    used _ _ _ _ _ _ he := by cases he
    returned _ _ _ _ _ _ he := by cases he
    assigned _ _ _ _ _ _ he := by cases he
    declared _ _ _ _ _ _ he := by cases he }
  resolved := {
    asked := by
      rintro _ _ _ _ _ ⟨⟩
      exact ⟨f, hg, hasked⟩
    used _ _ _ _ _ _ he := by cases he
    assigned _ _ _ _ _ _ he := by cases he
    answered _ _ _ _ _ _ _ he := by cases he }
  definite _ _ _ _ _ he := by cases he

theorem told_invoked (h : Explains K Γ ready H m) {signature : Signature} {g : Function}
    {f : StaticFunction} {values : List Value} {v : Value}
    (hf : K.scopes.BindsFunction 0 signature f) (hv : f.returnType.Admits v) :
    (Event.invoked a signature g values v m).Told K H where
  typed := {
    machine := h.describes.typedBy
    returned := by
      rintro _ _ _ _ _ _ ⟨⟩
      exact ⟨f, hf, hv⟩
    value _ _ _ _ he := by cases he
    used _ _ _ _ _ _ he := by cases he
    passed _ _ _ _ _ he := by cases he
    assigned _ _ _ _ _ _ he := by cases he
    declared _ _ _ _ _ _ he := by cases he }
  resolved := {
    used _ _ _ _ _ _ he := by cases he
    assigned _ _ _ _ _ _ he := by cases he
    asked _ _ _ _ _ he := by cases he
    answered _ _ _ _ _ _ _ he := by cases he }
  definite _ _ _ _ _ he := by cases he

theorem told_executed (h : Explains K Γ ready H' m) {node : Node} {result : Option Value}
    (hs : Stands K H a.scope Δ node.preorder) (ht : StatementTyped K.scopes returns Δ node Δ')
    (hl : Leaves K returns H a.scope Δ' result H') : (Event.executed a node result m).Told K H' where
  typed := {
    machine := h.describes.typedBy
    assigned := by
      rintro _ _ _ _ _ _ ⟨⟩
      cases ht with
      | assign typed =>
        cases typed with
        | assign found assignable spelled typed accepted =>
          exact h.means (hs.after hl.1.toContinues hl.2) found
    declared := by
      rintro _ _ _ _ _ _ ⟨⟩
      cases ht with
      | declaration initial fresh assignable =>
        exact hl.2.binds (by simp [List.lookup_append, fresh.unbound])
    value _ _ _ _ he := by cases he
    used _ _ _ _ _ _ he := by cases he
    passed _ _ _ _ _ he := by cases he
    returned _ _ _ _ _ _ he := by cases he }
  resolved := {
    assigned := by
      rintro _ _ _ _ _ _ ⟨⟩
      cases ht with
      | assign typed =>
        cases typed with
        | assign found assignable spelled typed accepted =>
          have hs' := hs.after hl.1.toContinues hl.2
          refine ⟨(hs'.within.mono ?_).inside, _, rfl, h.resolves hs' found⟩
          simp [Node.preorder]
    used _ _ _ _ _ _ he := by cases he
    asked _ _ _ _ _ he := by cases he
    answered _ _ _ _ _ _ _ he := by cases he }
  definite _ _ _ _ _ he := by cases he

end Recorded

theorem Steps.preserve_giveUp : (Steps.giveUp : Steps Recorded).Preserve K Γ ready := by
  have hunfinished : ∀ {α : Type} {H : History} {m : Machine} {Q : α → History → Prop},
      Explains K Γ ready H m → Runs K Γ ready H m (liftM (throw .unfinished : Run α)) Q := by
    intro α H m Q he
    have hinherent : Fault.unfinished.Inherent := trivial
    exact (runs_lift (Q := fun _ _ => False) he (moves_throw he.describes hinherent)).imp
      fun _ _ ⟨_, _, _, _, hno⟩ => hno.elim
  exact
    { evaluate := fun he _ _ => hunfinished he
      evaluateAll := fun he _ _ => hunfinished he
      operate := fun he _ => hunfinished he
      write := fun _ he => hunfinished he
      invoke := fun he _ _ _ _ => hunfinished he
      execute := fun _ he _ _ _ => hunfinished he
      assign := fun he _ _ => hunfinished he
      executeLoop := fun _ he _ _ _ _ _ => hunfinished he
      executeAll := fun _ he _ _ _ _ => hunfinished he }

/-- A method that gives nil without having returned has brought nil if it should give another
value. -/
theorem holds_invoked {signature : Signature} {g : Function} {f : StaticFunction}
    {values : List Value} {v : Value} {events : List Event}
    (h : f.returnType.Holds (Nilled K events) v ∨ v = .nil ∧ Unreturned events ∧
      ∃ index parameters statements, g.Follows K index parameters statements f) :
    f.returnType.Holds (Nilled K (.invoked a signature g values v m :: events)) v := by
  rcases h with hv | ⟨rfl, hopen, index, parameters, statements, follows⟩
  · exact hv.mono fun hn => hn.cons _
  · refine ⟨StaticType.admits_nil _, fun hdefinite _ => ?_⟩
    have hnil : f.returnType ≠ .nil := by
      rintro heq
      rw [heq] at hdefinite
      cases hdefinite
    have hany : f.returnType ≠ .any := by
      rintro heq
      rw [heq] at hdefinite
      cases hdefinite
    exact (NilOrigin.method follows hnil hany hopen).nilled

theorem preserve_recordedSteps (fuel : Nat) : (recordedSteps fuel).Preserve K Γ ready := by
  induction fuel with
  | zero => exact Steps.preserve_giveUp
  | succ fuel ih =>
    refine
      { evaluate := @fun H m a Δ node type he hs ht => ?_
        evaluateAll := fun he hs ht => ih.evaluateNodes he hs ht
        operate := @fun H m operator l r type he ht => ?_
        write := @fun H m v he => ?_
        invoke := @fun H m a signature g f values he hf hbound hasked hvalues => ?_
        execute := @fun H m a returns Δ node Δ' hready he hpos hs ht => ?_
        assign := @fun H m a Δ node he hs ht => ?_
        executeLoop := fun hready he hpos hs ht hi hb => ih.executeRound hready he hpos hs ht hi hb
        executeAll := fun hready he hpos hs hopen ht => ih.executeNodes hready he hpos hs hopen ht }
    -- an expression, which gives a value of its type, or nil for a reason
    · have hs₁ := hs.record (e := .evaluating a node m) nofun nofun
      have now := innermost?_of_begins (e := .evaluating a node m) nofun rfl H.events
      refine runs_around he (told_silent he.describes.toMatches trivial)
        (fun he₁ => ih.evaluateNode he₁ hs₁ now ht) ?_
      rintro v H' m' he' ⟨hk, hv, hanswered⟩
      exact ⟨told_evaluated he' (hs₁.keeps hk) ht hv hanswered, hk.around rfl rfl rfl,
        hv.mono fun hn => hn.cons _⟩
    -- an operation on two values, and a value as text: both are over at once
    · refine runs_record he (told_silent he.describes.toMatches trivial) fun he₁ => ?_
      refine (runs_reads he₁ (reads_lift (ht.mono fun hn => hn.cons _))).imp ?_
      rintro v _ ⟨⟨m', rfl⟩, hv⟩
      exact ⟨(History.keeps_record rfl rfl).trans (History.keeps_moved _ m'),
        hv.mono fun hn => hn.cons _⟩
    · refine runs_record he (told_silent he.describes.toMatches trivial) fun he₁ => ?_
      refine (runs_reads he₁ (shows_text v).reads).imp ?_
      rintro line _ ⟨⟨m', rfl⟩, -⟩
      exact (History.keeps_record rfl rfl).trans (History.keeps_moved _ m')
    -- a call, of which the arguments are told before and the value after
    · refine runs_around he (told_invoking he hf.implements hbound hasked hvalues)
        (fun he₁ => ih.invokeFunction he₁ hf hvalues) ?_
      rintro v H' m' he' ⟨hk, hv⟩
      have hholds : f.returnType.Holds
          (Nilled K (H'.record (.invoked a signature g values v m')).events) v := holds_invoked hv
      exact ⟨told_invoked he' hbound hholds.admits, hk.around rfl rfl rfl, hholds, m', _, rfl⟩
    -- a statement
    · have hs₁ := hs.record (e := .executing a node m) nofun nofun
      have now := innermost?_of_begins (e := .executing a node m) nofun rfl H.events
      refine runs_around he (told_silent he.describes.toMatches trivial)
        (fun he₁ => ih.executeNode hready he₁ hpos hs₁ now ht) ?_
      rintro result H' m' he' hl
      exact ⟨told_executed he' hs₁ ht hl, hl.around, unreturned_executed⟩
    -- an assignment in the header of a loop, which leaves what is seen as it is
    · have hs₁ := hs.record (e := .executing a node m) nofun nofun
      refine runs_around he (told_silent he.describes.toMatches trivial)
        (fun he₁ => ih.executeAssign he₁ hs₁ ht) ?_
      rintro _ H' m' he' ⟨rfl, hk⟩
      cases ht with
      | assign found assignable spelled typed accepted =>
        have hl : Leaves K .nil _ a.scope Δ none H' := .of_keeps hk hs₁.sees
        exact ⟨told_executed he' hs₁ (.assign (.assign found assignable spelled typed accepted)) hl,
          hk.around rfl rfl rfl⟩

end BlockScript
