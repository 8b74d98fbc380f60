import BlockScript.Proofs.Evaluation.Relate
/-!
# The limit of a run

A run that is not cut off ends the same way with every larger limit to its nested steps. So a
program gives one result at most, or it runs for ever.
-/
namespace BlockScript

/-- The second run ends as the first one, unless that is cut off. -/
def Extends {α : Type} (x y : Run α) : Prop :=
  ∀ m, (∃ m', x m = .error .unfinished m') ∨ y m = x m

theorem Extends.refl {α : Type} (x : Run α) : Extends x x := fun _ => .inr rfl

theorem Extends.bind {α β : Type} {x y : Run α} {f g : α → Run β} (h : Extends x y)
    (hf : ∀ a, Extends (f a) (g a)) : Extends (x >>= f) (y >>= g) := by
  intro m
  simp only [Bind.bind, EStateM.bind]
  obtain ⟨m', hcut⟩ | hsame := h m
  · exact .inl ⟨m', by rw [hcut]⟩
  · rw [hsame]
    cases x m with
    | ok a m' => exact hf a m'
    | error fault m' => exact .inr rfl

def extending : ProgramRelation Run Run :=
  .ofLift Extends (fun a => .refl (pure a)) .refl .bind

theorem extend_steps (fuel : Nat) :
    (steps fuel).Relate extending.toStepRelation (steps (fuel + 1)) := by
  induction fuel with
  | zero => constructor <;> intros <;> exact fun m => .inl ⟨m, rfl⟩
  | succ fuel ih => exact ih.next fun _ hbody => congrArg _ hbody

theorem runWithin_succ (m : Machine) (program : Node) {fuel : Nat}
    (h : (m.runWithin fuel program).1 ≠ .error .unfinished) :
    m.runWithin (fuel + 1) program = m.runWithin fuel program := by
  have hextends : Extends (executeProgram (steps fuel) m.activation program)
      (executeProgram (steps (fuel + 1)) m.activation program) :=
    (extend_steps fuel).executeProgram (.refl (fun _ => rfl) m.activation) program
  unfold Machine.runWithin Run.outcome at *
  obtain ⟨m', hcut⟩ | hsame := hextends m
  · rw [hcut] at h
    exact absurd rfl h
  · rw [hsame]

/-- A run that is not cut off ends the same way with every larger limit. -/
theorem runWithin_of_le {m : Machine} {program : Node} {fuel fuel' : Nat} (hle : fuel ≤ fuel')
    (h : (m.runWithin fuel program).1 ≠ .error .unfinished) :
    m.runWithin fuel' program = m.runWithin fuel program := by
  induction hle with
  | refl => rfl
  | @step k hk ih =>
    rw [← ih]
    exact runWithin_succ m program (by rwa [ih])

def failsOverlong : Except Fault Value → Bool
  | .error .tooManyDigits => true
  | _ => false

theorem eq_of_failsOverlong {result : Except Fault Value} (h : failsOverlong result = true) :
    result = .error .tooManyDigits := by
  unfold failsOverlong at h
  split at h
  · rfl
  · cases h

def endsWithInteger (n : Int) : Except Fault Value → Bool
  | .ok (.integer k) => k == n
  | _ => false

theorem eq_of_endsWithInteger {n : Int} {result : Except Fault Value}
    (h : endsWithInteger n result = true) : result = .ok (.integer n) := by
  unfold endsWithInteger at h
  split at h
  · rw [eq_of_beq h]
  · cases h

end BlockScript
