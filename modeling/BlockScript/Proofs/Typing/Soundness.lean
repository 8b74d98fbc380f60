import BlockScript.Proofs.Evaluation.Limit
import BlockScript.Proofs.Grammar.Correctness
import BlockScript.Proofs.Typing.Preservation
import BlockScript.Proofs.Typing.Program
import Mathlib
/-!
# Checked programs keep to their types

A run of a checked program evaluates the fields, which see the fields before them, binds the
methods, and then calls `main`. From the frames that describe the run follows what holds of all
its events.
-/
namespace BlockScript

open Recorded Run

variable {K : CheckedProgram} {Γ : StaticView} {H : History} {m : Machine} {a : Activation}

section Fields

variable {t : Steps Recorded} {vars vars' : List (String × StaticVariable)}
  {funs : List (Signature × StaticFunction)}

/-- A field that is bound before the program is ready is seen by the next one. If it has no value,
then it brings nil. -/
theorem runs_executeField (h : t.Preserve K Γ False) (ha : a.scope = 0) {x : StaticVariable}
    {typeName : Option String} {value : Node}
    (hmem : .field x.name typeName x.constant value (some x) ∈ K.fields)
    (initial : Initializes [(vars, funs)] value x.type) (fresh : Fresh K.scopes vars x)
    (home : x.home = 0) (he : Explains K Γ False H m) (hidle : Idle H.events)
    (hs : H.frames.Sees a.scope [(vars, funs)]) :
    Runs K Γ False H m (executeField t a (.field x.name typeName x.constant value (some x)))
      fun _ H' => H'.frames.Sees a.scope [(vars ++ [(x.name, x)], funs)] ∧
        Settled H.events H'.events := by
  have hstands : Stands K H a.scope [(vars, funs)] value.preorder :=
    ⟨hs, .field (hidle _) hmem ha fun _ hn => by simp [Node.preorder, hn]⟩
  refine Runs.join
    (Q := fun v H' => H.Keeps H' ∧ x.type.Holds (value = .absent ∨ Nilled K H'.events) v) ?_ ?_ ?_
  · intro habsent
    exact runs_pure he ⟨.refl H, StaticType.admits_nil _, fun _ _ => .inl (eq_absent habsent)⟩
  · intro hpresent
    rcases initial with rfl | ⟨source, typed, accepted⟩
    · cases hpresent
    · exact (h.evaluate he hstands typed).imp fun v H' ⟨hk, hv⟩ =>
        ⟨hk, (hv.of_accepts accepted).mono .inr⟩
  rintro v H₁ m₁ he₁ ⟨hk₁, hv⟩
  have hs₁ := hs.keeps hk₁.all
  have hmade : Made K H₁.events a.scope x :=
    .field ((hk₁.settled.innermost? _).trans (hidle _)) hmem ha
  refine (runs_bringing he₁ (moves_bindVariable (he₁.describes.mono .inr) hs₁ fresh
    (v := ⟨x.constant, v⟩) ⟨rfl, hv⟩ (.inr ⟨id, home⟩) hmade "field") ?_).imp ?_
  · rintro _ _ m' hdesc rfl (rfl | hn)
    · refine (NilOrigin.field hmem ?_).nilled
      show m'.scopes.bindsVariable 0 x.name = true
      rw [hdesc.related.bindsVariable, ha, Scopes.bindsVariable_iff]
      rw [ha] at hs₁
      exact ⟨x, (hs₁.addVariable x.name x).binds (by simp [List.lookup_append, fresh.unbound])⟩
    · exact hn.cons _
  · rintro _ _ ⟨_, m', rfl, -, rfl⟩
    exact ⟨hs₁.addVariable x.name x, hk₁.settled.trans (H₁.settled_moved _ m')⟩

/-- Before the program is ready its fields are bound one after the other in its first frame. -/
theorem runs_executeFields (h : t.Preserve K Γ False) (ha : a.scope = 0) {fields : List Node}
    (hmem : ∀ field ∈ fields, field ∈ K.fields) (ht : FieldsTyped K.scopes funs vars fields vars')
    (he : Explains K Γ False H m) (hidle : Idle H.events)
    (hs : H.frames.Sees a.scope [(vars, funs)]) :
    Runs K Γ False H m (fields.forM (executeField t a)) fun _ H' =>
      H'.frames.Sees a.scope [(vars', funs)] ∧ Settled H.events H'.events := by
  induction ht generalizing H m with
  | nil => exact runs_pure he ⟨hs, .refl _⟩
  | cons initial fresh home tail ih =>
    obtain ⟨hfield, hrest⟩ := List.forall_mem_cons.mp hmem
    refine (runs_executeField h ha hfield initial fresh home he hidle hs).bind ?_
    rintro _ H₁ m₁ he₁ ⟨hs₁, hsettled₁⟩
    refine (ih hrest he₁ (hidle.settled hsettled₁) hs₁).imp ?_
    rintro _ H₂ ⟨hs₂, hsettled₂⟩
    exact ⟨hs₂, hsettled₁.trans hsettled₂⟩

end Fields

section Methods

/-- The history matches the machine while its methods are being bound. -/
structure Prepares (K : CheckedProgram) (Γ : StaticView) (H : History) (m : Machine) : Prop where
  matching : Matches K Γ True (Nilled K H.events) H.frames m.scopes
  account : Account K H
  created : ∀ home name x, H.frames.Binds home name x → Created K H.events home x

theorem Function.Fits.of_unready {g : Function} {f : StaticFunction} (h : g.Fits K Γ False f) :
    g.Fits K Γ True f := by
  cases h with
  | print => exact .print
  | method prepared => exact prepared.elim

theorem Explains.prepares (h : Explains K Γ False H m) : Prepares K Γ H m :=
  ⟨⟨h.describes.related.mono (fun _ _ => id) fun _ _ => Function.Fits.of_unready,
    h.describes.instances⟩, h.account, h.created⟩

theorem Prepares.explains (h : Prepares K Γ H m) (hs : H.frames.Sees 0 Γ) :
    Explains K Γ True H m := ⟨⟨h.matching, fun _ => hs⟩, h.account, h.created⟩

variable {vars : List (String × StaticVariable)} {funs funs' : List (Signature × StaticFunction)}

theorem ends_defineMethod (ha : a.scope = 0) {name : String} {parameters : List String}
    {parameterTypes : List (Option String)} {returnType : Option String} {statements : List Node}
    {callee : Option StaticFunction}
    (hunbound : m.scopes.bindsFunction 0 ⟨name, parameters.length⟩ = false) :
    Ends (defineMethod a (.method name parameters parameterTypes returnType statements callee)) m
      (fun _ m' => m'.scopes = m.scopes.addFunction 0 ⟨name, parameters.length⟩
        ⟨name, some (.method 0 a.level name parameters statements)⟩)
      fun _ _ => False := by
  unfold defineMethod defineFunction
  rw [ha]
  refine ends_bind.mpr (ends_bind.mpr (ends_get.mpr ?_))
  rw [hunbound]
  unfold noteAt
  refine ends_modify.mpr ?_
  split
  · rfl
  · rfl

theorem ends_defineMethods (ha : a.scope = 0) {done methods : List Node}
    (hmethods : K.methods = done ++ methods) (hdone : funs.length = done.length + 1)
    (ht : MethodsTyped K.scopes Γ funs methods funs') (hC : K.scopes.Sees 0 [(vars, funs')])
    (h : Prepares K Γ H m) (hs : H.frames.Sees 0 [(vars, funs)]) :
    Ends (methods.forM fun method => (liftM (defineMethod a method) : Recorded Unit)) (m, H.events)
      (fun _ s => ∃ W, Prepares K Γ ⟨W, s.2⟩ s.1 ∧ W.Sees 0 [(vars, funs')] ∧
        Settled H.events s.2) fun _ _ => False := by
  induction ht generalizing H m done with
  | nil => exact ⟨H.frames, h, hs, .refl _⟩
  | @cons funs funs' f parameters parameterTypes returnType statements rest paired typed unbound tail
    ih =>
    have hsignature : (⟨f.name, parameters.length⟩ : Signature) = f.signature := by
      cases typed with
      | method bound arity own placed body => rw [StaticFunction.signature, arity]
    have hno : m.scopes.bindsFunction 0 ⟨f.name, parameters.length⟩ = false := by
      rw [hsignature, h.matching.related.bindsFunction, hs.bindsFunction, unbound]
      rfl
    have hf : K.scopes.BindsFunction 0 f.signature f :=
      hC.bindsFunction_of_lookup
        (lookup_of_isPrefix tail.grows (by simp [List.lookup_append, unbound]))
    have hwritten : K.methods[funs.length - 1]? =
        some (.method f.name parameters parameterTypes returnType statements (some f)) := by
      simp [hmethods, hdone]
    refine ends_bind.mpr (ends_lift.mpr (Ends.imp (ends_defineMethod ha hno) ?_ fun _ _ => id))
    rintro _ m' hm
    rw [hsignature] at hm
    have hmatch : Matches K Γ True (Nilled K H.events) (H.frames.addFunction 0 f.signature f)
        m'.scopes := by
      rw [hm]
      exact ⟨h.matching.related.addFunction 0 f.signature (.method trivial hwritten typed),
        h.matching.instances.addFunction 0 hf⟩
    have hprepares : Prepares K Γ (H.moved (H.frames.addFunction 0 f.signature f) m') m' :=
      ⟨hmatch.mono fun hn => hn.cons _, h.account.moved (Scopes.grows_addFunction _ _ _ _) hmatch,
        created_moved h.account h.created (adds_addFunction _ _ _) hmatch⟩
    have hmore : K.methods = (done ++ [.method f.name parameters parameterTypes returnType statements
        (some f)]) ++ rest := by simp [hmethods]
    refine Ends.imp (ih hmore (by simp [hdone]) hC hprepares (hs.addFunction f.signature f)) ?_
      fun _ _ => id
    rintro _ s ⟨W, hp, hsees, hsettled⟩
    exact ⟨W, hp, hsees, (H.settled_moved _ m').trans hsettled⟩

end Methods

section Programs

theorem moves_findMain {nilled : Prop} {New : FrameId → StaticVariable → Prop}
    {W : Scopes StaticVariable StaticFunction} (ha : a.scope = 0) {main : StaticFunction}
    (h : Describes K Γ True nilled W m.scopes) (hs : W.Sees 0 Γ)
    (hmain : Γ.findFunction ⟨"main", 0⟩ = some main) :
    Moves K Γ True nilled New W m (findMain a) fun g W' => W' = W ∧ g.Fits K Γ True main ∧
      main.signature = ⟨"main", 0⟩ ∧ K.scopes.BindsFunction 0 ⟨"main", 0⟩ main := by
  obtain ⟨home, g, hfound, hfits, hsigned⟩ := h.findFunction hs hmain
  unfold findMain
  rw [ha]
  refine ends_bind.mpr (ends_get.mpr ?_)
  rw [hfound]
  exact ⟨W, .refl W, .refl New W, h, rfl, hfits, hsigned⟩

variable {vars : List (String × StaticVariable)} {funs : List (Signature × StaticFunction)}

theorem runs_executeSource (fuel : Nat) (ha : a.scope = 0) {main : StaticFunction}
    (first : FieldsTyped K.scopes [(StaticFunction.print.signature, .print)] [] K.fields vars)
    (second : MethodsTyped K.scopes [(vars, funs)] [(StaticFunction.print.signature, .print)]
      K.methods funs)
    (seen : K.scopes.Sees 0 [(vars, funs)])
    (entry : View.findFunction [(vars, funs)] ⟨"main", 0⟩ = some main)
    (he : Explains K [(vars, funs)] False H m) (hidle : Idle H.events)
    (hs : H.frames.Sees 0 [([], [(StaticFunction.print.signature, .print)])]) :
    Runs K [(vars, funs)] True H m
      (executeSource (recordedSteps fuel) a (.source K.fields K.methods))
      fun v H' => main.returnType.Holds (Nilled K H'.events) v := by
  refine (runs_executeFields (preserve_recordedSteps fuel) ha (fun _ => id) first he hidle
    (by rwa [ha])).bind ?_
  rintro _ H₁ m₁ he₁ ⟨hs₁, hsettled₁⟩
  rw [ha] at hs₁
  refine ends_bind.mpr (Ends.imp (ends_defineMethods ha (List.nil_append _).symm rfl second seen
    he₁.prepares hs₁) ?_ fun _ _ => False.elim)
  rintro _ ⟨m₂, events₂⟩ ⟨W₂, hp₂, hs₂, hsettled₂⟩
  have he₂ := hp₂.explains hs₂
  show Runs K _ True ⟨W₂, events₂⟩ m₂ _ fun v H' => main.returnType.Holds (Nilled K H'.events) v
  refine (runs_lift he₂ (moves_findMain ha he₂.describes hs₂ entry)).bind ?_
  rintro g _ m₃ he₃ ⟨_, m', rfl, -, rfl, hfits, hsigned, hbound⟩
  have harity : main.arity = 0 := Int.ofNat.inj (congrArg Signature.arity hsigned)
  have hnone : main.parameterTypes = [] :=
    List.length_eq_zero_iff.mp (hfits.length_eq.trans harity)
  have hidle₃ := hidle.settled ((hsettled₁.trans hsettled₂).trans
    (settled_cons (e := .moved m') rfl rfl events₂))
  refine ((preserve_recordedSteps fuel).invoke he₃ hfits hbound (.main (hidle₃ _) rfl) ?_).imp
    fun v H' hv => hv.2.1
  rw [hnone]
  exact .nil

/-- The frames that describe a machine without surroundings. -/
theorem explains_new (hC : K.scopes.BindsFunction 0 StaticFunction.print.signature .print)
    (level calls : Nat) :
    Explains K Γ False ⟨(Scopes.empty.addFrame none).addFunction 0 StaticFunction.print.signature
      .print, []⟩ (Machine.new level calls) := by
  have hempty : Instances K.scopes .empty := by
    constructor
    · intro i fr hfr
      simp [Scopes.empty] at hfr
    · intro fr hfr
      simp [Scopes.empty] at hfr
  have hinstances := (hempty.addFrame none).addFunction 0 hC
  have hadds : Adds (fun _ _ => False) .empty ((Scopes.empty.addFrame none).addFunction 0
      StaticFunction.print.signature .print) :=
    (adds_addFrame none).trans (adds_addFunction _ _ _) (Scopes.keeps_addFrame _ _).grows
  refine ⟨⟨⟨?_, hinstances⟩, False.elim⟩, ⟨⟨hinstances, by simp⟩, by simp⟩, ?_⟩
  · exact (Scopes.related_empty.addFrame none).addFunction 0 _ .print
  · intro home name x hx
    rcases hadds home name x hx with ⟨fr, hfr, -⟩ | ⟨-, -, hno⟩
    · simp [Scopes.empty] at hfr
    · exact hno.elim

theorem runs_executeProgram (ht : ProgramTyped K.scopes K.tree) (fuel level calls : Nat) : ∃ Γ,
    Runs K Γ True ⟨(Scopes.empty.addFrame none).addFunction 0 StaticFunction.print.signature
      .print, []⟩ (Machine.new level calls)
      (executeProgram (recordedSteps fuel) (Machine.new level calls).activation K.tree)
      fun v H => StaticType.integer.Holds (Nilled K H.events) v := by
  obtain ⟨C, tree⟩ := K
  cases ht with
  | @source fields methods vars funs main first second seen entry integer =>
    refine ⟨[(vars, funs)], ?_⟩
    have hprint : C.BindsFunction 0 StaticFunction.print.signature .print :=
      seen.bindsFunction_of_lookup (lookup_of_isPrefix second.grows rfl)
    have hroot : ((Scopes.empty : Scopes StaticVariable StaticFunction).addFrame none).frames[0]? =
      some ⟨none, [], []⟩ := rfl
    refine (runs_reads (explains_new hprint level calls) (reads_noteAt (shows_pure _))).bind ?_
    rintro _ _ m₁ he₁ ⟨⟨m', rfl⟩, -⟩
    have hidle : Idle [.moved m'] := fun _ => rfl
    refine (runs_executeSource fuel rfl first second seen entry he₁ hidle
      (Scopes.Sees.addFunction (.root hroot rfl) _ _)).bind ?_
    rintro v H₂ m₂ he₂ hv
    refine ((preserve_recordedSteps fuel).write v he₂).bind ?_
    rintro shown H₃ m₃ he₃ hk₃
    refine (runs_reads he₃ (reads_noteAt (shows_pure _))).bind ?_
    rintro _ _ m₄ he₄ ⟨⟨m'', rfl⟩, -⟩
    rw [← integer]
    exact runs_pure he₄ (hv.mono fun hn => (hk₃.nilled hn).cons _)

end Programs

/-- All that holds of the runs of a checked program. -/
theorem account_of_checked {text : String} {tree checked : Node} {c : Checker} {level : Nat}
    (hread : readProgram text = .ok tree)
    (hcheck : (Checker.new level).check tree = (.ok checked, c)) (fuel traced calls : Nat) :
    StaticType.integer.HoldsResult
        (Nilled ⟨c.scopes, checked⟩ ((Machine.new traced calls).eventsWithin fuel checked))
        ((Machine.new traced calls).runWithin fuel checked).1 ∧
      ∃ W, Account ⟨c.scopes, checked⟩ ⟨W, (Machine.new traced calls).eventsWithin fuel checked⟩ := by
  have htyped := programTyped_of_check (Grammar.written_of_readProgram hread) hcheck
  obtain ⟨Γ, hruns⟩ := runs_executeProgram (K := ⟨c.scopes, checked⟩) htyped fuel traced calls
  refine runWithin_of_ends (Q := fun result events =>
    StaticType.integer.HoldsResult (Nilled ⟨c.scopes, checked⟩ events) result ∧
      ∃ W, Account ⟨c.scopes, checked⟩ ⟨W, events⟩) ?_
  refine Ends.imp hruns ?_ ?_
  · rintro v s ⟨W, he, hv⟩
    exact ⟨hv, W, he.account⟩
  · rintro fault s ⟨hW, hfault⟩
    exact ⟨hfault, hW⟩

/-- A program that is read from a text and checked without surroundings keeps to its types, however
far it runs: some frames, instances of those that checking has made, account for everything that
happens in the run. It gives an integer or nil, or it fails as it may. -/
theorem checked_program_keeps_types {text : String} {tree checked : Node} {c : Checker}
    {level : Nat} (hread : readProgram text = .ok tree)
    (hcheck : (Checker.new level).check tree = (.ok checked, c)) (fuel traced calls : Nat) :
    StaticType.integer.AdmitsResult ((Machine.new traced calls).runWithin fuel checked).1 ∧
      ∃ W, Accounts c.scopes W ((Machine.new traced calls).eventsWithin fuel checked) := by
  obtain ⟨hresult, W, haccount⟩ := account_of_checked hread hcheck fuel traced calls
  exact ⟨hresult.admitsResult, W, haccount.toAccounts⟩

/-- A program with a field, calls, operators, a branch and variables, of which one holds nil. -/
def scaling : String :=
  "LET n = 2; DEF twice(x: Integer): Integer DO RETURN x * n; END DEF main(): Integer DO " ++
    "LET s: String; LET y = twice(3) + 1; IF y > 6 DO print(s); END RETURN y; END"

def checkedOf (tree : Node) : Node := ((Checker.new 0).check tree).1.toOption.getD .absent

theorem check_of_isOk (tree : Node) (h : ((Checker.new 0).check tree).1.isOk = true) :
    (Checker.new 0).check tree = (.ok (checkedOf tree), ((Checker.new 0).check tree).2) := by
  unfold checkedOf
  generalize (Checker.new 0).check tree = outcome at *
  obtain ⟨result, c⟩ := outcome
  cases result with
  | ok checked => rfl
  | error fault => simp [Except.isOk, Except.toBool] at h

theorem checked_program_keeps_types_scaling : ∃ tree checked c,
    readProgram scaling = .ok tree ∧ (Checker.new 0).check tree = (.ok checked, c) ∧
      ((Machine.new 0).runWithin 20 checked).1 = .ok (.integer 7) ∧
      StaticType.integer.AdmitsResult ((Machine.new 0).runWithin 20 checked).1 ∧
      ∃ W, Accounts c.scopes W ((Machine.new 0).eventsWithin 20 checked) := by
  have hread : readProgram scaling = .ok (programOf scaling) :=
    readProgram_of_isOk (by decide +kernel)
  have hcheck := check_of_isOk (programOf scaling) (by decide +kernel)
  have hrun : endsWithInteger 7
      ((Machine.new 0).runWithin 20 (checkedOf (programOf scaling))).1 = true := by
    decide +kernel
  exact ⟨_, _, _, hread, hcheck, eq_of_endsWithInteger hrun,
    checked_program_keeps_types hread hcheck 20 0 callLimit⟩

/-- Whatever happens in a run of a checked program agrees with what checking has resolved: a name
means the variable in its slot, made by the field, the declaration or the call to which it belongs
and of the innermost call under way, and a call reaches the function in its slot. -/
theorem checked_program_resolves_names {text : String} {tree checked : Node} {c : Checker}
    {level : Nat} (hread : readProgram text = .ok tree)
    (hcheck : (Checker.new level).check tree = (.ok checked, c)) (fuel traced calls : Nat) :
    ∀ later e before, (Machine.new traced calls).eventsWithin fuel checked = later ++ e :: before →
      e.Resolved ⟨c.scopes, checked⟩ before := by
  obtain ⟨-, W, haccount⟩ := account_of_checked hread hcheck fuel traced calls
  exact fun later e before hsplit => (haccount.throughout later e before hsplit).1

def Event.usedName? : Event → Option (String × StaticVariable)
  | .evaluated _ (.access .absent name _ (some x)) _ _ => some (name, x)
  | _ => none

theorem eq_evaluated_of_usedName? {e : Event} {name : String} {x : StaticVariable}
    (h : e.usedName? = some (name, x)) :
    ∃ a type v m, e = .evaluated a (.access .absent name type (some x)) v m := by
  unfold Event.usedName? at h
  split at h
  · cases h
    exact ⟨_, _, _, _, rfl⟩
  · cases h

theorem checked_program_resolves_names_local :
    ∃ (tree checked : Node) (c : Checker) (a : Activation) (x : StaticVariable) (m : Machine)
      (before : List Event),
    readProgram "DEF main(): Integer DO LET x = 1; RETURN x; END" = .ok tree ∧
      (Checker.new 0).check tree = (.ok checked, c) ∧
      before <:+ (Machine.new 0).eventsWithin 9 checked ∧
      Resolves ⟨c.scopes, checked⟩ before m a.scope "x" x := by
  have hread : readProgram "DEF main(): Integer DO LET x = 1; RETURN x; END" =
      .ok (.source [] [.method "main" [] [] (some "Integer")
        [.declaration "x" none (.literal (.integer 1) none) none,
          .returnStmt (.access .absent "x" none none)] none]) := by
    cbv
  have hcheck : ((Checker.new 0).check (.source [] [.method "main" [] [] (some "Integer")
      [.declaration "x" none (.literal (.integer 1) none) none,
        .returnStmt (.access .absent "x" none none)] none])).1 =
      .ok (.source [] [.method "main" [] [] (some "Integer")
        [.declaration "x" none (.literal (.integer 1) (some .integer))
            (some ⟨1, "x", "x", false, .integer⟩),
          .returnStmt (.access .absent "x" (some .integer)
            (some ⟨1, "x", "x", false, .integer⟩))]
        (some ⟨"main", "main", 0, [], .integer⟩)]) := by
    cbv
  have hchecked : (Checker.new 0).check _ = (.ok _, _) := Prod.ext hcheck rfl
  have hused : ((Machine.new 0).eventsWithin 9 (.source [] [.method "main" [] [] (some "Integer")
      [.declaration "x" none (.literal (.integer 1) (some .integer))
          (some ⟨1, "x", "x", false, .integer⟩),
        .returnStmt (.access .absent "x" (some .integer)
          (some ⟨1, "x", "x", false, .integer⟩))]
      (some ⟨"main", "main", 0, [], .integer⟩)])).findSome? Event.usedName? =
      some ("x", ⟨1, "x", "x", false, .integer⟩) := by
    decide +kernel
  obtain ⟨e, hmem, he⟩ := List.exists_of_findSome?_eq_some hused
  obtain ⟨a, type, v, m, rfl⟩ := eq_evaluated_of_usedName? he
  obtain ⟨later, before, hsplit⟩ := List.append_of_mem hmem
  have hresolved := checked_program_resolves_names hread hchecked 9 0 callLimit later _ before hsplit
  obtain ⟨-, x, hx, hresolves⟩ := hresolved.used _ _ _ _ _ _ rfl
  refine ⟨_, _, _, a, x, m, before, hread, hchecked, ?_, hresolves⟩
  rw [hsplit]
  exact (List.suffix_cons _ before).trans (List.suffix_append later _)

/-- Where a run of a checked program has not brought nil to a place that expects another value, each
expression of a type to which nil does not belong has a value of that type, and the program stops
only for a division by zero or too many nested calls. -/
theorem checked_program_free_of_nil {text : String} {tree checked : Node} {c : Checker}
    {level : Nat} (hread : readProgram text = .ok tree)
    (hcheck : (Checker.new level).check tree = (.ok checked, c)) {fuel traced calls : Nat}
    (hnil : ¬Nilled ⟨c.scopes, checked⟩ ((Machine.new traced calls).eventsWithin fuel checked)) :
    (∀ a node v m t, .evaluated a node v m ∈ (Machine.new traced calls).eventsWithin fuel checked →
      node.type? = some t → t.isDefinite = true → t.contains v = true) ∧
    ∀ cause, ((Machine.new traced calls).runWithin fuel checked).1 = .error (.run cause) →
      cause = .divisionByZero ∨ cause = .callsExhausted := by
  obtain ⟨hresult, W, haccount⟩ := account_of_checked hread hcheck fuel traced calls
  constructor
  · intro a node v m t hmem htype hdefinite
    obtain ⟨t', htype', hadmits⟩ := (haccount.events _ hmem).value a node v m rfl
    cases htype.symm.trans htype'
    refine hadmits.resolve_left fun hv => ?_
    obtain ⟨later, before, hsplit⟩ := List.append_of_mem hmem
    have hbefore := (haccount.throughout later _ before hsplit).2 a node v m t rfl htype hdefinite hv
    refine hnil (hbefore.mono ?_)
    rw [hsplit]
    exact (List.suffix_cons _ before).trans (List.suffix_append later _)
  · intro cause hcause
    rw [hcause] at hresult
    have hinherent := hresult.origin.resolve_right hnil
    cases cause <;> first | exact .inl rfl | exact .inr rfl | exact hinherent.elim

theorem checked_program_free_of_nil_half : ∃ tree checked c,
    readProgram "DEF main(): Integer DO RETURN 4 / 2; END" = .ok tree ∧
      (Checker.new 0).check tree = (.ok checked, c) ∧
      ¬Nilled ⟨c.scopes, checked⟩ ((Machine.new 0).eventsWithin 9 checked) ∧
      (∀ a node v m t, .evaluated a node v m ∈ (Machine.new 0).eventsWithin 9 checked →
        node.type? = some t → t.isDefinite = true → t.contains v = true) ∧
      ∀ cause, ((Machine.new 0).runWithin 9 checked).1 = .error (.run cause) →
        cause = .divisionByZero ∨ cause = .callsExhausted := by
  have hread : readProgram "DEF main(): Integer DO RETURN 4 / 2; END" =
      .ok (.source [] [.method "main" [] [] (some "Integer") [.returnStmt (.binary "/"
        (.literal (.integer 4) none) (.literal (.integer 2) none) none)] none]) := by
    cbv
  have hcheck : ((Checker.new 0).check (.source [] [.method "main" [] [] (some "Integer")
      [.returnStmt (.binary "/" (.literal (.integer 4) none) (.literal (.integer 2) none)
        none)] none])).1 =
      .ok (.source [] [.method "main" [] [] (some "Integer") [.returnStmt (.binary "/"
        (.literal (.integer 4) (some .integer)) (.literal (.integer 2) (some .integer))
        (some .integer))] (some ⟨"main", "main", 0, [], .integer⟩)]) := by
    cbv
  have hchecked : (Checker.new 0).check _ = (.ok _, _) := Prod.ext hcheck rfl
  have htails : ∀ before ∈ ((Machine.new 0).eventsWithin 9 (.source [] [.method "main" [] []
      (some "Integer") [.returnStmt (.binary "/" (.literal (.integer 4) (some .integer))
        (.literal (.integer 2) (some .integer)) (some .integer))]
      (some ⟨"main", "main", 0, [], .integer⟩)])).tails, mayBringNil before = false := by
    decide +kernel
  refine ⟨_, _, _, hread, hchecked, ?nil, checked_program_free_of_nil hread hchecked ?nil⟩
  exact not_nilled_of_tails (fun _ _ _ _ => List.not_mem_nil) htails

end BlockScript
