import BlockScript.Evaluation.Steps
import BlockScript.Proofs.Ends
/-!
# Lines of the trace

A line is made from texts of values. That leaves the machine alone, and it fails only when it comes
to an integer of too many digits.
-/
namespace BlockScript

open Run

variable {α β : Type}

/-- The line is the same on every machine, unless it has an integer of too many digits. -/
def Shows (line : Run α) : Prop :=
  (∃ a, line = pure a) ∨ line = throw .tooManyDigits

theorem shows_pure (a : α) : Shows (pure a) := .inl ⟨a, rfl⟩

theorem Shows.bind {line : Run α} {f : α → Run β} (h : Shows line) (hf : ∀ a, Shows (f a)) :
    Shows (line >>= f) := by
  obtain ⟨a, rfl⟩ | rfl := h
  · exact hf a
  · exact .inr rfl

theorem shows_text (v : Value) : Shows (text v) := by
  unfold text
  split
  · exact shows_pure _
  · exact .inr rfl

theorem shows_texts (values : List Value) : Shows (texts values) := by
  have hall : Shows (values.mapM text) := by
    induction values with
    | nil => exact shows_pure []
    | cons v vs ih =>
      rw [List.mapM_cons]
      exact (shows_text v).bind fun _ => ih.bind fun _ => shows_pure _
  exact hall.bind fun _ => shows_pure _

theorem Shows.ends {line : Run α} (h : Shows line) (m : Machine) :
    Ends line m (fun _ m' => m' = m) fun fault m' => m' = m ∧ fault = .tooManyDigits := by
  obtain ⟨a, rfl⟩ | rfl := h
  · exact rfl
  · exact ⟨rfl, rfl⟩

end BlockScript
