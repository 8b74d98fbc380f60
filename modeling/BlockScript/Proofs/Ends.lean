import BlockScript.Evaluation.Machine
/-!
# How a computation ends

What holds of the result and the state when a computation with state and faults succeeds, and of
the fault and the state when it fails. It goes through the steps of the computation one by one.
-/
namespace BlockScript

variable {ε σ α β : Type}

/-- From the state `s` the computation succeeds with a result and a state of which `Q` holds, or
fails with a fault and a state of which `E` holds. -/
def Ends (x : EStateM ε σ α) (s : σ) (Q : α → σ → Prop) (E : ε → σ → Prop) : Prop :=
  match x s with
  | .ok a s' => Q a s'
  | .error e s' => E e s'

variable {s : σ} {Q Q' : α → σ → Prop} {R : β → σ → Prop} {E E' : ε → σ → Prop}

theorem Ends.imp {x : EStateM ε σ α} (h : Ends x s Q E) (hQ : ∀ a s', Q a s' → Q' a s')
    (hE : ∀ e s', E e s' → E' e s') : Ends x s Q' E' := by
  unfold Ends at *
  split
  · next a s' hx =>
    rw [hx] at h
    exact hQ a s' h
  · next e s' hx =>
    rw [hx] at h
    exact hE e s' h

theorem Ends.and {x : EStateM ε σ α} (h : Ends x s Q E) (h' : Ends x s Q' E') :
    Ends x s (fun a s' => Q a s' ∧ Q' a s') (fun e s' => E e s' ∧ E' e s') := by
  unfold Ends at *
  split
  · next a s' hx =>
    rw [hx] at h h'
    exact ⟨h, h'⟩
  · next e s' hx =>
    rw [hx] at h h'
    exact ⟨h, h'⟩

/-- A computation ends in one way or the other. -/
theorem Ends.elim {x : EStateM ε σ α} (h : Ends x s (fun _ _ => False) fun _ _ => False) : False := by
  unfold Ends at h
  split at h <;> exact h

@[simp] theorem ends_pure {a : α} : Ends (pure a : EStateM ε σ α) s Q E ↔ Q a s := Iff.rfl

@[simp] theorem ends_throw {e : ε} : Ends (throw e : EStateM ε σ α) s Q E ↔ E e s := Iff.rfl

@[simp] theorem ends_bind {x : EStateM ε σ α} {f : α → EStateM ε σ β} :
    Ends (x >>= f) s R E ↔ Ends x s (fun a s' => Ends (f a) s' R E) E := by
  simp only [Ends, bind, EStateM.bind]
  cases x s <;> rfl

@[simp] theorem ends_map {x : EStateM ε σ α} {f : α → β} :
    Ends (f <$> x) s R E ↔ Ends x s (fun a s' => R (f a) s') E := by
  simp only [Ends, Functor.map, EStateM.map]
  cases x s <;> rfl

@[simp] theorem ends_get {Q : σ → σ → Prop} : Ends (get : EStateM ε σ σ) s Q E ↔ Q s s := Iff.rfl

@[simp] theorem ends_modify {f : σ → σ} {Q : PUnit → σ → Prop} :
    Ends (modify f : EStateM ε σ PUnit) s Q E ↔ Q ⟨⟩ (f s) := Iff.rfl

@[simp] theorem ends_modifyGet {f : σ → α × σ} :
    Ends (modifyGet f : EStateM ε σ α) s Q E ↔ Q (f s).1 (f s).2 := Iff.rfl

end BlockScript
