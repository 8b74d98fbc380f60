/-!
# Reading with progress

What a rule makes of a list of items: a result and the items it left, or a failure and the
items at which it stopped. Both are bounded by the number of items there were, so rules that
call each other can be seen to end. `k` is the least number of items that a success uses up.
-/
namespace BlockScript

/-- The outcome of reading from `n` items. -/
inductive Reading (σ ε α : Type) (k n : Nat) where
  | done (result : α) (rest : List σ) (used : rest.length + k ≤ n)
  | failed (cause : ε) (rest : List σ) (within : rest.length ≤ n)

namespace Reading

variable {σ ε α β : Type} {k j m n : Nat}

@[inline] def andThen (r : Reading σ ε α k n)
    (next : (result : α) → (rest : List σ) → rest.length + k ≤ n →
      Reading σ ε β j rest.length) : Reading σ ε β (k + j) n :=
  match r with
  | .done a rest used =>
    match next a rest used with
    | .done b rest' used' => .done b rest' (by omega)
    | .failed cause rest' within => .failed cause rest' (by omega)
  | .failed cause rest within => .failed cause rest within

@[inline] def map (f : α → β) (r : Reading σ ε α k n) : Reading σ ε β k n :=
  match r with
  | .done a rest used => .done (f a) rest used
  | .failed cause rest within => .failed cause rest within

/-- Forgets that more was used. -/
@[inline] def weaken (r : Reading σ ε α j n) (le : decide (k ≤ j) = true := by exact Eq.refl true) :
    Reading σ ε α k n :=
  match r with
  | .done a rest used => .done a rest (by have := of_decide_eq_true le; omega)
  | .failed cause rest within => .failed cause rest within

/-- Takes a reading of a shorter list for one of a longer list. -/
@[inline] def widen (r : Reading σ ε α j m) (bound : m + k ≤ n + j := by omega)
    (le : m ≤ n := by omega) : Reading σ ε α k n :=
  match r with
  | .done a rest used => .done a rest (by omega)
  | .failed cause rest within => .failed cause rest (by omega)

def outcome (r : Reading σ ε α k n) : Except ε α × List σ :=
  match r with
  | .done a rest _ => (.ok a, rest)
  | .failed cause rest _ => (.error cause, rest)

def rest (r : Reading σ ε α k n) : List σ := r.outcome.2

@[simp] theorem outcome_map (f : α → β) (r : Reading σ ε α k n) :
    (r.map f).outcome = (r.outcome.1.map f, r.outcome.2) := by
  cases r <;> rfl

@[simp] theorem outcome_weaken (r : Reading σ ε α j n) (le : decide (k ≤ j) = true) :
    (r.weaken le).outcome = r.outcome := by
  cases r <;> rfl

@[simp] theorem outcome_widen (r : Reading σ ε α j m) (bound : m + k ≤ n + j) (le : m ≤ n) :
    (r.widen bound le).outcome = r.outcome := by
  cases r <;> rfl

end Reading
end BlockScript
