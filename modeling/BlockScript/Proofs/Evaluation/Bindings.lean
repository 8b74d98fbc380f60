import BlockScript.Proofs.Evaluation.Plain
import BlockScript.Proofs.Evaluation.Reachable
/-!
# What is bound in a running program

On every machine that comes up, an expression adds nothing to the frames that are there and assigns
no variable but in shared ones; a statement adds nothing unless it is a declaration, which adds its
own variable. A declaration that fails adds nothing either, but for one case: an integer with too
many digits for the trace is bound before the line about it fails. Between any two moments of a run
what is bound stays bound, and once the fields and methods of a program are bound, nothing is added
to the frames that are there.
-/
namespace BlockScript

open Recorded Run

namespace Machine

variable {m m' m₁ : Machine} {scope : FrameId} {name : String} {v : Value}

/-- The frame binds one more variable, which holds `v`, and nothing else is added to any frame. -/
structure Gains (m m' : Machine) (scope : FrameId) (name : String) (v : Value) : Prop where
  scopes : m.scopes.Evolves m.IsShared (· = scope) m'.scopes
  frame : ∃ fr fr' : Frame Variable Function, ∃ before, m.scopes.frames[scope]? = some fr ∧
    m'.scopes.frames[scope]? = some fr' ∧
    fr'.boundVariables = before ++ [(name, ⟨false, v⟩)] ∧
    before.map Prod.fst = fr.boundVariables.map Prod.fst ∧
    fr'.boundFunctions = fr.boundFunctions

/-- A variable is added after steps that add nothing. -/
theorem gains_addVariable (hscope : scope < m.scopes.next)
    (h : m.scopes.Evolves m.IsShared Nowhere m₁.scopes)
    (hm' : m'.scopes = m₁.scopes.addVariable scope name ⟨false, v⟩) : m.Gains m' scope name v where
  scopes := by
    have hbefore : m.scopes.Evolves m.IsShared (· = scope) m₁.scopes :=
      h.mono (fun _ _ => id) fun _ _ => False.elim
    have hadd : m₁.scopes.Evolves m.IsShared (· = scope) m'.scopes := by
      rw [hm']
      exact Scopes.evolves_addVariable name ⟨false, v⟩ rfl
    exact hbefore.trans hadd
  frame := by
    have hfr := Array.getElem?_eq_getElem (show scope < m.scopes.frames.size from hscope)
    obtain ⟨fr', hfr', hframe⟩ := h scope _ hfr
    obtain ⟨hnames, hfunctions⟩ := hframe.names_eq id
    refine ⟨_, { fr' with boundVariables := fr'.boundVariables ++ [(name, ⟨false, v⟩)] },
      fr'.boundVariables, hfr, ?_, rfl, hnames, hfunctions⟩
    rw [hm', Scopes.addVariable, Scopes.getElem?_update, if_pos rfl, hfr']
    rfl

/-- The text of a value is found unless it is an integer of too many digits. -/
theorem ends_text (v : Value) :
    Ends (text v) m (fun _ m' => m' = m ∧ ¬v.Overlong) fun fault m' =>
      m' = m ∧ fault = .tooManyDigits ∧ v.Overlong := by
  rw [← toText?_eq_none_iff]
  unfold text
  split
  · next hv => exact ⟨rfl, by simp [hv]⟩
  · next hv => exact ⟨rfl, rfl, hv⟩

/-- The variable is bound first. Only the line about it can fail then. -/
theorem ends_bindVariable (a : Activation) (what : String) (v : Variable) :
    Ends (bindVariable a what name v) m₁
      (fun _ m' => m'.scopes = m₁.scopes.addVariable a.scope name v ∧
        ¬(2 ≤ a.level ∧ v.value.Overlong)) fun fault m' =>
        m'.scopes = m₁.scopes ∧ m₁.scopes.bindsVariable a.scope name = true ∨
          fault = .tooManyDigits ∧ m'.scopes = m₁.scopes.addVariable a.scope name v ∧
            2 ≤ a.level ∧ v.value.Overlong := by
  unfold bindVariable defineVariable
  refine ends_bind.mpr (ends_bind.mpr (ends_get.mpr ?_))
  split
  · next hbound => exact .inl ⟨rfl, hbound⟩
  · refine ends_modify.mpr ?_
    unfold noteAt
    split
    · next hlevel =>
      refine ends_bind.mpr (ends_bind.mpr (Ends.imp (ends_text v.value) ?_ ?_))
      · intro shown m' hm'
        rw [hm'.1]
        exact ⟨rfl, fun hlong => hm'.2 hlong.2⟩
      · intro fault m' hm'
        rw [hm'.1]
        exact .inr ⟨hm'.2.1, rfl, hlevel, hm'.2.2⟩
    · next hlevel => exact ⟨rfl, fun hlong => hlevel hlong.1⟩

section Ready

variable {fuel : Nat} {a : Activation} {node : Node}

theorem Ready.ends_evaluate (h : m.Ready) (fuel : Nat) (a : Activation) (node : Node) :
    Ends ((steps fuel).evaluate a node) m
      (fun _ m' => m.Becomes m.IsShared Nowhere m' ∧ Governed m.IsShared m'.scopes)
      fun _ m' => m.Becomes m.IsShared Nowhere m' ∧ Governed m.IsShared m'.scopes :=
  ((disciplined_recordedSteps m.IsShared fuel).evaluate a node h.governed).ends
    ((mirror_recordedSteps fuel).evaluate node (.refl (fun _ => rfl) a))

/-- How a declaration ends: it adds its variable, or fails and adds nothing, or fails for the line
that writes an integer of too many digits to the trace, and has added the variable then. -/
def Declared (m : Machine) (a : Activation) (name : String) (run : Run (Option Value)) : Prop :=
  Ends run m (fun _ m' => ∃ v, m.Gains m' a.scope name v ∧ ¬(2 ≤ a.level ∧ v.Overlong))
    fun fault m' => m.scopes.Evolves m.IsShared Nowhere m'.scopes ∨
      fault = .tooManyDigits ∧ ∃ v, m.Gains m' a.scope name v ∧ 2 ≤ a.level ∧ v.Overlong

theorem Ready.declared (h : m.Ready) (fuel : Nat) (ha : a.scope < m.scopes.next)
    (name : String) (type : Option String) (value : Node) (bound : Option StaticVariable) :
    m.Declared a name ((steps fuel).execute a (.declaration name type value bound)) := by
  cases fuel with
  | zero => exact .inl (.refl _ _ _)
  | succ fuel =>
    have hbind : ∀ v m₁, m.scopes.Evolves m.IsShared Nowhere m₁.scopes →
        Ends (bindVariable a "declare" name ⟨false, v⟩ >>= fun _ => pure (none : Option Value)) m₁
          (fun _ m' => ∃ v, m.Gains m' a.scope name v ∧ ¬(2 ≤ a.level ∧ v.Overlong))
          fun fault m' => m.scopes.Evolves m.IsShared Nowhere m'.scopes ∨
            fault = .tooManyDigits ∧ ∃ v, m.Gains m' a.scope name v ∧ 2 ≤ a.level ∧ v.Overlong := by
      intro v m₁ hm₁
      refine ends_bind.mpr (Ends.imp (ends_bindVariable a "declare" ⟨false, v⟩) ?_ ?_)
      · exact fun _ m' hm' => ⟨v, gains_addVariable ha hm₁ hm'.1, hm'.2⟩
      · intro fault m' hm'
        cases hm' with
        | inl hsame =>
          rw [hsame.1]
          exact .inl hm₁
        | inr hadded =>
          obtain ⟨hfault, hscopes, hlong⟩ := hadded
          exact .inr ⟨hfault, v, gains_addVariable ha hm₁ hscopes, hlong⟩
    show Ends ((steps fuel).executeNode a (.declaration name type value bound)) m _ _
    unfold Steps.executeNode
    dsimp only
    split
    · exact hbind .nil m (.refl _ _ _)
    · refine ends_bind.mpr (Ends.imp (h.ends_evaluate fuel a value) ?_ ?_)
      · exact fun v m₁ hm₁ => hbind v m₁ hm₁.1.scopes
      · exact fun _ _ hm' => .inl hm'.1.scopes

end Ready

end Machine

end BlockScript
