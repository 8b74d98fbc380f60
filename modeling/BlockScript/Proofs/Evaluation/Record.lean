import BlockScript.Proofs.Ends
import BlockScript.Proofs.Evaluation.Relate
/-!
# Recorded runs

A run that writes down what happens in it: each expression that is evaluated, each function that is
called and each statement that is executed, before and after, each operator that is applied and each
value that is written out, and the machine after each operation on it. The steps are those of a run
without a record, and forgetting the record gives that run.
-/
namespace BlockScript

/-- What happens in a run, with the machine at that moment. -/
inductive Event where
  | evaluating (a : Activation) (node : Node) (m : Machine)
  | evaluated (a : Activation) (node : Node) (value : Value) (m : Machine)
  | invoking (a : Activation) (signature : Signature) (f : Function) (values : List Value)
      (m : Machine)
  | invoked (a : Activation) (signature : Signature) (f : Function) (values : List Value)
      (value : Value) (m : Machine)
  | executing (a : Activation) (node : Node) (m : Machine)
  | executed (a : Activation) (node : Node) (result : Option Value) (m : Machine)
  | operating (operator : String) (left right : Value) (m : Machine)
  | writing (value : Value) (m : Machine)
  | moved (m : Machine)

def Event.machine : Event → Machine
  | evaluating _ _ m => m
  | evaluated _ _ _ m => m
  | invoking _ _ _ _ m => m
  | invoked _ _ _ _ _ m => m
  | executing _ _ m => m
  | executed _ _ _ m => m
  | operating _ _ _ m => m
  | writing _ m => m
  | moved m => m

/-- A step of a run with the events so far, the latest first. -/
abbrev Recorded := EStateM Fault (Machine × List Event)

namespace Recorded

instance : MonadLift Run Recorded where
  monadLift x := fun (m, events) =>
    match x m with
    | .ok a m => .ok a (m, .moved m :: events)
    | .error fault m => .error fault (m, .moved m :: events)

def record (event : Machine → Event) : Recorded Unit :=
  modify fun (m, events) => (m, event m :: events)

def around {α : Type} (before : Machine → Event) (after : α → Machine → Event) (x : Recorded α) :
    Recorded α := do
  record before
  let a ← x
  record (after a)
  return a

end Recorded

open Recorded Run

def recordedSteps : Nat → Steps Recorded
  | 0 => .giveUp
  | fuel + 1 =>
    { evaluate := fun a node =>
        around (.evaluating a node) (.evaluated a node) ((recordedSteps fuel).evaluateNode a node)
      evaluateAll := fun a nodes => (recordedSteps fuel).evaluateNodes a nodes
      operate := fun operator l r => do
        record (.operating operator l r)
        lift (applyBinary operator l r)
      write := fun v => do
        record (.writing v)
        text v
      invoke := fun a signature f values =>
        around (.invoking a signature f values) (.invoked a signature f values)
          ((recordedSteps fuel).invokeFunction a signature f values)
      execute := fun a node =>
        around (.executing a node) (.executed a node) ((recordedSteps fuel).executeNode a node)
      executeLoop := fun a construct condition increment statements =>
        (recordedSteps fuel).executeRound a construct condition increment statements
      executeAll := fun a nodes => (recordedSteps fuel).executeNodes a nodes }

def Machine.recordWithin (fuel : Nat) (m : Machine) (program : Node) :
    EStateM.Result Fault (Machine × List Event) Value :=
  executeProgram (recordedSteps fuel) m.activation program (m, [])

section Ends

variable {α : Type} {s : Machine × List Event} {Q : α → Machine × List Event → Prop}
  {E : Fault → Machine × List Event → Prop}

theorem ends_lift {x : Run α} :
    Ends (liftM x : Recorded α) s Q E ↔
      Ends x s.1 (fun a m => Q a (m, .moved m :: s.2)) fun fault m => E fault (m, .moved m :: s.2) := by
  have hrun : (liftM x : Recorded α) s = match x s.1 with
      | .ok a m => .ok a (m, .moved m :: s.2)
      | .error fault m => .error fault (m, .moved m :: s.2) := rfl
  unfold Ends
  rw [hrun]
  cases x s.1 <;> rfl

theorem ends_around {x : Recorded α} {before : Machine → Event} {after : α → Machine → Event} :
    Ends (around before after x) s Q E ↔
      Ends x (s.1, before s.1 :: s.2) (fun a s' => Q a (s'.1, after a s'.1 :: s'.2)) E := by
  unfold around
  rw [ends_bind]
  show Ends (x >>= _) (s.1, before s.1 :: s.2) Q E ↔ _
  rw [ends_bind]
  rfl

theorem ends_record {x : Recorded α} {event : Machine → Event} :
    Ends (record event >>= fun _ => x) s Q E ↔ Ends x (s.1, event s.1 :: s.2) Q E := Iff.rfl

end Ends

def forgetRecord {α : Type} :
    EStateM.Result Fault (Machine × List Event) α → EStateM.Result Fault Machine α
  | .ok a (m, _) => .ok a m
  | .error fault (m, _) => .error fault m

/-- What happens in a run of a program, the latest first. -/
def Machine.eventsWithin (fuel : Nat) (m : Machine) (program : Node) : List Event :=
  match m.recordWithin fuel program with
  | .ok _ (_, events) => events
  | .error _ (_, events) => events

def Mirrors {α : Type} (x : Run α) (y : Recorded α) : Prop :=
  ∀ m events, forgetRecord (y (m, events)) = x m

section Mirrors

variable {α β : Type}

theorem Mirrors.pure (a : α) : Mirrors (Pure.pure a) (Pure.pure a) := fun _ _ => rfl

theorem Mirrors.lift (x : Run α) : Mirrors (liftM x : Run α) (liftM x : Recorded α) := by
  intro m events
  show forgetRecord (match x m with
    | .ok a m => .ok a (m, .moved m :: events)
    | .error fault m => .error fault (m, .moved m :: events)) = x m
  cases x m <;> rfl

theorem Mirrors.bind {x : Run α} {y : Recorded α} {f : α → Run β} {g : α → Recorded β}
    (h : Mirrors x y) (hf : ∀ a, Mirrors (f a) (g a)) : Mirrors (x >>= f) (y >>= g) := by
  intro m events
  have hx := h m events
  simp only [Bind.bind, EStateM.bind]
  cases hy : y (m, events) with
  | ok a s =>
    rw [hy] at hx
    rw [← hx]
    exact hf a s.1 s.2
  | error fault s =>
    rw [hy] at hx
    rw [← hx]
    rfl

theorem Mirrors.record {x : Run α} {y : Recorded α} (h : Mirrors x y) (event : Machine → Event) :
    Mirrors x (record event >>= fun _ => y) := fun m events => h m (event m :: events)

theorem Mirrors.around {x : Run α} {y : Recorded α} (h : Mirrors x y) (before : Machine → Event)
    (after : α → Machine → Event) : Mirrors x (around before after y) := by
  have hafter : Mirrors (x >>= Pure.pure)
      (y >>= fun a => Recorded.record (after a) >>= fun _ => Pure.pure a) :=
    h.bind fun a => (Mirrors.pure a).record (after a)
  rw [bind_pure] at hafter
  exact hafter.record before

/-- What holds at the end of a recorded step holds at the end of the step. -/
theorem Mirrors.ends {x : Run α} {y : Recorded α} (h : Mirrors x y) {m : Machine}
    {events : List Event} {Q : α → Machine → Prop} {E : Fault → Machine → Prop}
    (hy : Ends y (m, events) (fun a s => Q a s.1) fun fault s => E fault s.1) : Ends x m Q E := by
  have hforget := h m events
  unfold Ends at *
  rw [← hforget]
  cases hrun : y (m, events) with
  | ok a s =>
    rw [hrun] at hy
    exact hy
  | error fault s =>
    rw [hrun] at hy
    exact hy

def mirroring : ProgramRelation Run Recorded := .ofLift Mirrors .pure .lift .bind

theorem mirror_recordedSteps (fuel : Nat) :
    (steps fuel).Relate mirroring.toStepRelation (recordedSteps fuel) := by
  induction fuel with
  | zero => constructor <;> intros <;> exact Mirrors.lift _
  | succ fuel ih =>
    exact
      { evaluate := fun node hab => hab.eq ▸ Mirrors.around (ih.evaluateNode hab node) _ _
        evaluateAll := fun nodes hab => ih.evaluateNodes hab nodes
        operate := fun operator l r => Mirrors.record (.lift _) _
        write := fun v => Mirrors.record (.lift _) _
        invoke := fun signature values hab hfg => Mirrors.around
          (ih.invokeFunction hab hfg signature values) _ _
        execute := fun node hab => Mirrors.around (ih.executeNode hab node) _ _
        executeLoop := fun construct condition increment statements hab =>
          ih.executeRound hab construct condition increment statements
        executeAll := fun hab hbody => hbody ▸ ih.executeNodes hab _ }

end Mirrors

/-- Forgetting the record of a run gives the run. -/
theorem forget_recordWithin (fuel : Nat) (m : Machine) (program : Node) :
    forgetRecord (m.recordWithin fuel program) =
      executeProgram (steps fuel) m.activation program m := by
  have hrun : Mirrors (executeProgram (steps fuel) m.activation program)
      (executeProgram (recordedSteps fuel) m.activation program) :=
    (mirror_recordedSteps fuel).executeProgram (.refl (fun _ => rfl) m.activation) program
  exact hrun m []

/-- A recorded run ends as the run does, and in the same machine but for the trace, which the run
closes. -/
theorem exists_end_of_ends {fuel : Nat} {m : Machine} {program : Node}
    {Q : Except Fault Value → Machine × List Event → Prop}
    (h : Ends (executeProgram (recordedSteps fuel) m.activation program) (m, [])
      (fun v s => Q (.ok v) s) fun fault s => Q (.error fault) s) :
    ∃ final : Machine, Q (m.runWithin fuel program).1 (final, m.eventsWithin fuel program) ∧
      (m.runWithin fuel program).2 = { final with console := final.console.close } := by
  have hforget := forget_recordWithin fuel m program
  unfold Machine.recordWithin at hforget
  unfold Machine.runWithin Run.outcome Machine.eventsWithin Machine.recordWithin
  unfold Ends at h
  rw [← hforget]
  cases hrun : executeProgram (recordedSteps fuel) m.activation program (m, []) with
  | ok v s =>
    rw [hrun] at h
    exact ⟨s.1, h, rfl⟩
  | error fault s =>
    rw [hrun] at h
    exact ⟨s.1, h, rfl⟩

/-- What holds at the end of a recorded run holds of the run and its record. -/
theorem runWithin_of_ends {fuel : Nat} {m : Machine} {program : Node}
    {Q : Except Fault Value → List Event → Prop}
    (h : Ends (executeProgram (recordedSteps fuel) m.activation program) (m, [])
      (fun v s => Q (.ok v) s.2) fun fault s => Q (.error fault) s.2) :
    Q (m.runWithin fuel program).1 (m.eventsWithin fuel program) := by
  obtain ⟨_, hend, -⟩ := exists_end_of_ends (Q := fun result s => Q result s.2) h
  exact hend

/-- A run ends in the machine in which the recorded run ends, but for the trace, which is closed. -/
theorem exists_final_of_ends {fuel : Nat} {m : Machine} {program : Node}
    {P : Machine × List Event → Prop}
    (h : Ends (executeProgram (recordedSteps fuel) m.activation program) (m, [])
      (fun _ s => P s) fun _ s => P s) :
    ∃ final : Machine, P (final, m.eventsWithin fuel program) ∧
      (m.runWithin fuel program).2 = { final with console := final.console.close } :=
  exists_end_of_ends (Q := fun _ s => P s) h

end BlockScript
