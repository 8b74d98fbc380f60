import BlockScript.Proofs.Evaluation.Record
/-!
# What is under way in a run

Expressions, calls and statements begin and end in the record of a run like brackets. So the events
tell which of each kind is the innermost that has begun and not ended. A step that has ended leaves
that as it was before.
-/
namespace BlockScript

inductive Bracket where
  | expression | call | statement
deriving DecidableEq

namespace Event

def begins : Event → Option Bracket
  | evaluating .. => some .expression
  | invoking .. => some .call
  | executing .. => some .statement
  | _ => none

def ends : Event → Option Bracket
  | evaluated .. => some .expression
  | invoked .. => some .call
  | executed .. => some .statement
  | _ => none

end Event

/-- The event with which something of a kind began that has not ended, if that many of the kind
inside of it have ended since. -/
def pending? (b : Bracket) : Nat → List Event → Option Event
  | _, [] => none
  | n, e :: before =>
    if e.ends = some b then pending? b (n + 1) before
    else if e.begins = some b then
      match n with
      | 0 => some e
      | n + 1 => pending? b n before
    else pending? b n before

/-- The event with which the innermost thing of a kind began that has not ended. -/
def innermost? (b : Bracket) (events : List Event) : Option Event := pending? b 0 events

/-- Between the events and the events so far, whatever has begun has ended. -/
structure Settled (events events' : List Event) : Prop where
  suffix : events <:+ events'
  pending : ∀ b n, pending? b n events' = pending? b n events

def Idle (events : List Event) : Prop := ∀ b, innermost? b events = none

/-- The latest event is not the end of a statement that has returned. -/
def Unreturned (events : List Event) : Prop :=
  ∀ a node v m, events.head? ≠ some (.executed a node (some v) m)

section Pending

variable {b : Bracket} {e e' : Event} {events events' events'' : List Event}

theorem pending?_cons (n : Nat) (events : List Event) :
    pending? b n (e :: events) =
      if e.ends = some b then pending? b (n + 1) events
      else if e.begins = some b then
        match n with
        | 0 => some e
        | n + 1 => pending? b n events
      else pending? b n events := by
  cases n <;> rfl

theorem pending?_of_neither (hends : e.ends ≠ some b) (hbegins : e.begins ≠ some b) (n : Nat)
    (events : List Event) : pending? b n (e :: events) = pending? b n events := by
  rw [pending?_cons, if_neg hends, if_neg hbegins]

theorem innermost?_of_begins (hends : e.ends ≠ some b) (hbegins : e.begins = some b)
    (events : List Event) : innermost? b (e :: events) = some e := by
  rw [innermost?, pending?_cons, if_neg hends, if_pos hbegins]

theorem split_of_pending? {n : Nat} (h : pending? b n events = some e) :
    ∃ later before, events = later ++ e :: before := by
  induction events generalizing n with
  | nil => cases h
  | cons e' events ih =>
    have hmore : ∀ {k}, pending? b k events = some e →
        ∃ later before, e' :: events = later ++ e :: before := by
      intro k hk
      obtain ⟨later, before, rfl⟩ := ih hk
      exact ⟨e' :: later, before, rfl⟩
    rw [pending?_cons] at h
    split at h
    · exact hmore h
    split at h
    · cases n with
      | zero =>
        cases h
        exact ⟨[], events, rfl⟩
      | succ n => exact hmore h
    · exact hmore h

theorem Settled.refl (events : List Event) : Settled events events :=
  ⟨List.suffix_rfl, fun _ _ => rfl⟩

theorem Settled.trans (h : Settled events events') (h' : Settled events' events'') :
    Settled events events'' :=
  ⟨h.suffix.trans h'.suffix, fun b n => (h'.pending b n).trans (h.pending b n)⟩

theorem Settled.innermost? (h : Settled events events') (b : Bracket) :
    innermost? b events' = innermost? b events := h.pending b 0

theorem Idle.settled (h : Idle events) (hs : Settled events events') : Idle events' :=
  fun b => (hs.innermost? b).trans (h b)

theorem settled_cons (hends : e.ends = none) (hbegins : e.begins = none) (events : List Event) :
    Settled events (e :: events) :=
  ⟨List.suffix_cons e events,
    fun b n => pending?_of_neither (by simp [hends]) (by simp [hbegins]) n events⟩

/-- What begins with one event and ends with another leaves nothing under way. -/
theorem Settled.around (hbegins : e.begins = e'.ends) (hends : e.ends = none)
    (hnone : e'.begins = none) (h : Settled (e :: events) events') :
    Settled events (e' :: events') := by
  refine ⟨(List.suffix_cons e events).trans (h.suffix.trans (List.suffix_cons e' events')),
    fun b n => ?_⟩
  by_cases hb : e'.ends = some b
  · rw [pending?_cons, if_pos hb, h.pending, pending?_cons, if_neg (by simp [hends]),
      if_pos (hbegins.trans hb)]
  · rw [pending?_of_neither hb (by simp [hnone]), h.pending,
      pending?_of_neither (by simp [hends]) (by rwa [hbegins])]

theorem unreturned_executed {a : Activation} {node : Node} {result : Option Value} {m : Machine}
    {events : List Event} (h : result = none) :
    Unreturned (.executed a node result m :: events) := by
  subst h
  rintro _ _ _ _ ⟨⟩

theorem unreturned_moved (m : Machine) (events : List Event) : Unreturned (.moved m :: events) :=
  nofun

end Pending
end BlockScript
