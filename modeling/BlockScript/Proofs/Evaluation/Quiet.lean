import BlockScript.Proofs.Correspondence
import BlockScript.Proofs.Evaluation.Trace
import BlockScript.Evaluation.Program
/-!
# Steps that write nothing

What a step makes of scopes does not depend on how their frames keep what they bind. On scopes that
bind the same values, and functions of which one may stand for the other, it comes to the same end.
-/
namespace BlockScript

open Run

variable {α β : Type} {Q : Function → Function → Prop}

theorem outcome_bind (x : Run α) (f : α → Run β) (m : Machine) :
    (x >>= f).outcome m = match x.outcome m with
      | (.ok a, m) => (f a).outcome m
      | (.error fault, m) => (.error fault, m) := by
  simp only [outcome, bind, EStateM.bind]
  cases x m <;> rfl

/-- The same values are bound, and functions as `Q` says. -/
abbrev Machine.SameScopes (Q : Function → Function → Prop) (m m' : Machine) : Prop :=
  m.scopes.Corresponds id Eq Q m'.scopes

theorem Machine.SameScopes.refl (hQ : ∀ f, Q f f) (m : Machine) : m.SameScopes Q m :=
  Scopes.Corresponds.refl (fun _ => rfl) hQ m.scopes

theorem Machine.SameScopes.findVariable? {m m' : Machine} (h : m.SameScopes Q m') (scope : FrameId)
    (name : String) : m'.scopes.findVariable? scope name = m.scopes.findVariable? scope name := by
  obtain ⟨hm, hm'⟩ | ⟨found, found', hm, hm', hhome, hv⟩ := 
    rel_cases (Scopes.Corresponds.findVariable? h scope name)
  · exact hm'.trans hm.symm
  · exact hm'.trans ((congrArg some (Prod.ext hhome hv.symm)).trans hm.symm)

inductive QuietEnds (Q : Function → Function → Prop) (m m' : Machine) :
    Except Fault α × Machine → Except Fault α × Machine → Prop where
  | ok {a : α} {s s' : Scopes Variable Function} (scopes : s.Corresponds id Eq Q s') :
      QuietEnds Q m m' (.ok a, { m with scopes := s }) (.ok a, { m' with scopes := s' })
  | error {fault : Fault} {s s' : Scopes Variable Function} :
      QuietEnds Q m m' (.error fault, { m with scopes := s })
        (.error fault, { m' with scopes := s' })

/-- From the same scopes both steps come to the same end, and write nothing. -/
def Quiet (Q : Function → Function → Prop) (x y : Run α) : Prop :=
  ∀ ⦃m m' : Machine⦄, m.SameScopes Q m' → QuietEnds Q m m' (x.outcome m) (y.outcome m')

section Operations

theorem quiet_pure (a : α) : Quiet Q (pure a) (pure a) := fun _ _ h => .ok h

theorem quiet_throw (fault : Fault) : Quiet Q (throw fault : Run α) (throw fault) :=
  fun _ _ _ => .error

theorem Quiet.bind {x y : Run α} {f g : α → Run β} (h : Quiet Q x y)
    (hf : ∀ a, Quiet Q (f a) (g a)) : Quiet Q (x >>= f) (y >>= g) := by
  intro m m' hm
  have hends := h hm
  rw [outcome_bind, outcome_bind]
  generalize x.outcome m = e at hends ⊢
  generalize y.outcome m' = e' at hends ⊢
  cases hends with
  | error => exact .error
  | @ok a s s' scopes =>
    have hrest : QuietEnds Q { m with scopes := s } { m' with scopes := s' }
        ((f a).outcome { m with scopes := s }) ((g a).outcome { m' with scopes := s' }) :=
      hf a scopes
    dsimp only
    generalize (f a).outcome { m with scopes := s } = e at hrest ⊢
    generalize (g a).outcome { m' with scopes := s' } = e' at hrest ⊢
    cases hrest with
    | ok scopes => exact .ok scopes
    | error => exact .error

/-- A step that begins with a look at the machine. -/
theorem quiet_get {f g : Machine → Run α}
    (h : ∀ m m' : Machine, m.SameScopes Q m' →
      QuietEnds Q m m' ((f m).outcome m) ((g m').outcome m')) :
    Quiet Q (MonadState.get >>= f) (MonadState.get >>= g) := fun m m' hm => h m m' hm

theorem quiet_newFrame (parent : Option FrameId) :
    Quiet Q (newFrame parent) (newFrame parent) := by
  intro m m' hm
  have hnext : m.scopes.next = m'.scopes.next := hm.next_eq
  have hadded := hm.addFrame parent
  rw [Option.map_id] at hadded
  have hruns (n : Machine) : (newFrame parent).outcome n =
      (.ok n.scopes.next, { n with scopes := n.scopes.addFrame parent }) := rfl
  rw [hruns, hruns, hnext]
  exact .ok hadded

theorem quiet_defineVariable (scope : FrameId) (name : String) (v : Variable) :
    Quiet Q (defineVariable scope name v) (defineVariable scope name v) := by
  refine quiet_get fun m m' hm => ?_
  rw [← hm.bindsVariable, id]
  split
  · exact .error
  · exact .ok (hm.addVariable scope name rfl)

theorem quiet_bindArguments (scope : FrameId) (names : List String) (values : List Value) :
    Quiet Q (bindArguments scope names values) (bindArguments scope names values) := by
  induction names generalizing values with
  | nil => exact quiet_pure _
  | cons name names ih =>
    cases values with
    | nil => exact quiet_pure _
    | cons v vs => exact (quiet_defineVariable scope name ⟨false, v⟩).bind fun _ => ih vs

theorem quiet_findVariable (scope : FrameId) (name : String) :
    Quiet Q (findVariable scope name) (findVariable scope name) := by
  refine quiet_get fun m m' hm => ?_
  unfold Scopes.getVariable
  rw [hm.findVariable?]
  cases m.scopes.findVariable? scope name with
  | none => exact .error
  | some found => exact .ok hm

theorem quiet_assignVariable (scope : FrameId) (name : String) (value : Value) :
    Quiet Q (assignVariable scope name value) (assignVariable scope name value) := by
  refine (quiet_findVariable scope name).bind fun ⟨home, v⟩ => ?_
  dsimp only
  split
  · exact quiet_throw _
  · exact fun m m' hm => .ok (hm.setVariable home name rfl)

theorem quiet_getField (typeName : String) (members : FrameId) (name : String) :
    Quiet Q (getField typeName members name) (getField typeName members name) := by
  refine quiet_get fun m m' hm => ?_
  rw [hm.findVariable?]
  cases m.scopes.findVariable? members name with
  | none => exact .error
  | some found => exact .ok hm

theorem quiet_setField (typeName : String) (members : FrameId) (name : String) (value : Value) :
    Quiet Q (setField typeName members name value) (setField typeName members name value) := by
  refine quiet_get fun m m' hm => ?_
  rw [hm.findVariable?]
  cases m.scopes.findVariable? members name with
  | none => exact .error
  | some found =>
    dsimp only
    split
    · exact .error
    · exact .ok (hm.setVariable found.1 name rfl)

theorem quiet_defineFunction (scope : FrameId) (signature : Signature) {f g : Function}
    (hfg : Q f g) : Quiet Q (defineFunction scope signature f) (defineFunction scope signature g) := by
  refine quiet_get fun m m' hm => ?_
  rw [← hm.bindsFunction, id]
  split
  · exact .error
  · exact .ok (hm.addFunction scope signature hfg)

end Operations

section Functions

/-- In the same scopes the look-up finds functions of which one stands for the other, or it fails in
both. -/
def Finds (Q : Function → Function → Prop) (find : Run Function) : Prop :=
  ∀ ⦃m m' : Machine⦄, m.SameScopes Q m' →
    (∃ fault, find.outcome m = (.error fault, m) ∧ find.outcome m' = (.error fault, m')) ∨
      ∃ f g, Q f g ∧ find.outcome m = (.ok f, m) ∧ find.outcome m' = (.ok g, m')

theorem finds_of_outcome {find : Run Function} {scope : FrameId} {signature : Signature}
    {fault : Fault}
    (hfind : ∀ m, find.outcome m = match m.scopes.findFunction? scope signature with
      | some (_, f) => (.ok f, m)
      | none => (.error fault, m)) : Finds Q find := by
  intro m m' hm
  rw [hfind, hfind]
  obtain ⟨hs, hs'⟩ | ⟨⟨home, f⟩, ⟨home', g⟩, hs, hs', -, hfg⟩ :=
    rel_cases (hm.findFunction? scope signature)
  · rw [id] at hs'
    rw [hs, hs']
    exact .inl ⟨fault, rfl, rfl⟩
  · rw [id] at hs'
    rw [hs, hs']
    exact .inr ⟨f, g, hfg, rfl, rfl⟩

theorem outcome_findVariable_eq (scope : FrameId) (name : String) (m : Machine) :
    (findVariable scope name).outcome m =
      (match m.scopes.getVariable scope name with
      | .ok found => (pure found : Run (FrameId × Variable))
      | .error fault => fail (.scope fault)).outcome m := rfl

theorem outcome_findVariable (scope : FrameId) (name : String) (m : Machine) :
    (findVariable scope name).outcome m = match m.scopes.findVariable? scope name with
      | some found => (.ok found, m)
      | none => (.error (.run (.scope (.unboundVariable name))), m) := by
  rw [outcome_findVariable_eq, Scopes.getVariable]
  cases m.scopes.findVariable? scope name <;> rfl

theorem outcome_findFunction_eq (scope : FrameId) (signature : Signature) (m : Machine) :
    (findFunction scope signature).outcome m =
      (match m.scopes.getFunction scope signature with
      | .ok (_, f) => (pure f : Run Function)
      | .error fault => fail (.scope fault)).outcome m := rfl

theorem outcome_findFunction (scope : FrameId) (signature : Signature) (m : Machine) :
    (findFunction scope signature).outcome m = match m.scopes.findFunction? scope signature with
      | some (_, f) => (.ok f, m)
      | none => (.error (.run (.scope (.unboundFunction signature))), m) := by
  rw [outcome_findFunction_eq, Scopes.getFunction]
  cases m.scopes.findFunction? scope signature <;> rfl

theorem outcome_findMethod (typeName : String) (members : FrameId) (name : String) (arguments : Nat)
    (m : Machine) :
    (findMethod typeName members name arguments).outcome m =
      match m.scopes.findFunction? members ⟨name, arguments + 1⟩ with
      | some (_, f) => (.ok f, m)
      | none => (.error (.run (.noMethod typeName name arguments)), m) := by
  show (match m.scopes.findFunction? members ⟨name, arguments + 1⟩ with
    | some (_, f) => (pure f : Run Function)
    | none => fail (.noMethod typeName name arguments)).outcome m = _
  split <;> rfl

theorem outcome_findMain (a : Activation) (m : Machine) :
    (findMain a).outcome m = match m.scopes.findFunction? a.scope ⟨"main", 0⟩ with
      | some (_, f) => (.ok f, m)
      | none => (.error (.run .noMain), m) := by
  show (match m.scopes.findFunction? a.scope ⟨"main", 0⟩ with
    | some (_, main) => (pure main : Run Function)
    | none => fail .noMain).outcome m = _
  split <;> rfl

theorem finds_findFunction (scope : FrameId) (signature : Signature) :
    Finds Q (findFunction scope signature) :=
  finds_of_outcome (outcome_findFunction scope signature)

theorem finds_findMethod (typeName : String) (members : FrameId) (name : String) (arguments : Nat) :
    Finds Q (findMethod typeName members name arguments) :=
  finds_of_outcome (outcome_findMethod typeName members name arguments)

theorem finds_findMain (a : Activation) : Finds Q (findMain a) :=
  finds_of_outcome (outcome_findMain a)

end Functions

end BlockScript
