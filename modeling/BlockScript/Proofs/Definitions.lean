import BlockScript.Proofs.Scope
/-!
# Definitions and look-ups

A tree of scopes comes up by frames that are opened and by definitions in them, of which some fail.
A frame binds under each key what the first definition that succeeded bound there, and a look-up
finds what the nearest frame on the way to the root binds. A look-up does not see definitions of
other keys, or in frames that are not on its way.
-/
namespace BlockScript

variable {V F : Type}

inductive Key where
  | name (name : String)
  | signature (signature : Signature)
deriving DecidableEq, Repr

/-- Why what is bound under the key cannot be bound once more. -/
def Key.defined : Key → ScopeFault
  | .name n => .variableDefined n
  | .signature sig => .functionDefined sig

def Key.unbound : Key → ScopeFault
  | .name n => .unboundVariable n
  | .signature sig => .unboundFunction sig

inductive Binding (V F : Type) where
  | ofVariable (name : String) (v : V)
  | ofFunction (signature : Signature) (f : F)

def Binding.key : Binding V F → Key
  | ofVariable name _ => .name name
  | ofFunction signature _ => .signature signature

def Frame.bound (fr : Frame V F) : Key → Option (Binding V F)
  | .name name => (fr.boundVariables.lookup name).map (.ofVariable name)
  | .signature signature => (fr.boundFunctions.lookup signature).map (.ofFunction signature)

def Frame.add (fr : Frame V F) : Binding V F → Frame V F
  | .ofVariable name v => { fr with boundVariables := fr.boundVariables ++ [(name, v)] }
  | .ofFunction signature f => { fr with boundFunctions := fr.boundFunctions ++ [(signature, f)] }

theorem Frame.parent_add (fr : Frame V F) (b : Binding V F) : (fr.add b).parent = fr.parent := by
  cases b <;> rfl

theorem Frame.bound_add (fr : Frame V F) (b : Binding V F) (key : Key) :
    (fr.add b).bound key = if b.key = key then (fr.bound key).or (some b) else fr.bound key := by
  cases b with
  | ofVariable name v =>
    cases key with
    | name other =>
      by_cases h : name = other
      · subst h
        simp [Frame.bound, Frame.add, Binding.key, List.lookup_append]
      · have hno : (other == name) = false := by simpa using Ne.symm h
        simp [Frame.bound, Frame.add, Binding.key, List.lookup_append, List.lookup_cons, hno, h]
    | signature other => simp [Frame.bound, Frame.add, Binding.key]
  | ofFunction signature f =>
    cases key with
    | name other => simp [Frame.bound, Frame.add, Binding.key]
    | signature other =>
      by_cases h : signature = other
      · subst h
        simp [Frame.bound, Frame.add, Binding.key, List.lookup_append]
      · have hno : (other == signature) = false := by simpa using Ne.symm h
        simp [Frame.bound, Frame.add, Binding.key, List.lookup_append, List.lookup_cons, hno, h]

namespace Scopes

def define (s : Scopes V F) (id : FrameId) : Binding V F → Except ScopeFault (Scopes V F)
  | .ofVariable name v => s.defineVariable id name v
  | .ofFunction signature f => s.defineFunction id signature f

/-- What is bound under the key in the nearest frame, and that frame. -/
def look (s : Scopes V F) (id : FrameId) : Key → Except ScopeFault (FrameId × Binding V F)
  | .name name => (s.getVariable id name).map fun found => (found.1, .ofVariable name found.2)
  | .signature signature =>
    (s.getFunction id signature).map fun found => (found.1, .ofFunction signature found.2)

/-- The frames on the way from a frame to the root, the nearest first. -/
def chain (s : Scopes V F) (id : FrameId) : List FrameId :=
  if h : id < s.frames.size then
    match hp : s.frames[id].parent with
    | some p => id :: s.chain p
    | none => [id]
  else []
termination_by id
decreasing_by exact s.parent_lt id h p hp

end Scopes

/-- What can be done with a tree of scopes: open a frame, or define something in one. -/
inductive ScopeCall (V F : Type) where
  | frame (parent : Option FrameId)
  | define (id : FrameId) (binding : Binding V F)

namespace ScopeCall

def perform (s : Scopes V F) : ScopeCall V F → Except ScopeFault (Scopes V F)
  | frame parent => .ok (s.addFrame parent)
  | define id binding => s.define id binding

/-- The tree that the call leaves, which is the same tree if it fails. -/
def after (s : Scopes V F) (call : ScopeCall V F) : Scopes V F :=
  match call.perform s with
  | .ok s' => s'
  | .error _ => s

/-- The call does not fail, and the frame that it is about is there. -/
def succeeds (s : Scopes V F) : ScopeCall V F → Bool
  | frame _ => true
  | define id binding => decide (id < s.next) && (s.define id binding).isOk

/-- What the call is to bind in the frame under the key. -/
def binding? (id : FrameId) (key : Key) : ScopeCall V F → Option (Binding V F)
  | frame _ => none
  | define id' binding => if id' = id ∧ binding.key = key then some binding else none

def DefinesIn (id : FrameId) : ScopeCall V F → Prop
  | frame _ => False
  | define id' _ => id' = id

def DefinesOther (key : Key) : ScopeCall V F → Prop
  | frame _ => False
  | define _ binding => binding.key ≠ key

instance (id : FrameId) : DecidablePred (DefinesIn id : ScopeCall V F → Prop)
  | frame _ => inferInstanceAs (Decidable False)
  | define id' _ => inferInstanceAs (Decidable (id' = id))

instance (key : Key) : DecidablePred (DefinesOther key : ScopeCall V F → Prop)
  | frame _ => inferInstanceAs (Decidable False)
  | define _ binding => inferInstanceAs (Decidable (binding.key ≠ key))

def succeeding (s : Scopes V F) : List (ScopeCall V F) → List (ScopeCall V F)
  | [] => []
  | call :: calls =>
    if call.succeeds s then call :: succeeding (call.after s) calls
    else succeeding (call.after s) calls

end ScopeCall

namespace Scopes

def run (s : Scopes V F) (calls : List (ScopeCall V F)) : Scopes V F := calls.foldl ScopeCall.after s

def made (calls : List (ScopeCall V F)) : Scopes V F := empty.run calls

end Scopes

/-- What the first of the definitions of the key in the frame that succeeds binds. -/
def firstDefinition (calls : List (ScopeCall V F)) (id : FrameId) (key : Key) :
    Option (Binding V F) :=
  (ScopeCall.succeeding .empty calls).findSome? (ScopeCall.binding? id key)

namespace Scopes

variable {s s' : Scopes V F} {id i p top : FrameId} {key : Key} {calls : List (ScopeCall V F)}

section Frames

def own (s : Scopes V F) (id : FrameId) (key : Key) : Option (Binding V F) :=
  s.frames[id]?.bind fun fr => fr.bound key

def parent? (s : Scopes V F) (id : FrameId) : Option FrameId := s.frames[id]?.bind Frame.parent

def add (s : Scopes V F) (id : FrameId) (b : Binding V F) : Scopes V F :=
  s.update id (·.add b) fun fr => fr.parent_add b

theorem chain_eq (s : Scopes V F) (id : FrameId) :
    s.chain id =
      if id < s.next then id :: ((s.parent? id).map s.chain).getD [] else [] := by
  rw [chain, parent?, next]
  by_cases h : id < s.frames.size
  · rw [dif_pos h, if_pos h, Array.getElem?_eq_getElem h, Option.bind_some]
    split <;> simp_all
  · rw [dif_neg h, if_neg h]

theorem bindsVariable_eq (s : Scopes V F) (id : FrameId) (name : String) :
    s.bindsVariable id name = (s.own id (.name name)).isSome := by
  unfold bindsVariable own
  cases s.frames[id]? <;> simp [Frame.bound]

theorem bindsFunction_eq (s : Scopes V F) (id : FrameId) (signature : Signature) :
    s.bindsFunction id signature = (s.own id (.signature signature)).isSome := by
  unfold bindsFunction own
  cases s.frames[id]? <;> simp [Frame.bound]

/-- A definition fails just where the frame binds the key. -/
theorem define_eq (s : Scopes V F) (id : FrameId) (b : Binding V F) :
    s.define id b =
      if (s.own id b.key).isSome then .error b.key.defined else .ok (s.add id b) := by
  cases b with
  | ofVariable name v =>
    show s.defineVariable id name v = _
    rw [defineVariable, bindsVariable_eq]
    rfl
  | ofFunction signature f =>
    show s.defineFunction id signature f = _
    rw [defineFunction, bindsFunction_eq]
    rfl

theorem own_add (s : Scopes V F) (id : FrameId) (b : Binding V F) (i : FrameId) (key : Key) :
    (s.add id b).own i key =
      if id < s.next ∧ id = i ∧ b.key = key then (s.own i key).or (some b) else s.own i key := by
  unfold own add
  rw [getElem?_update]
  by_cases hi : id = i
  · subst hi
    cases hfr : s.frames[id]? with
    | none =>
      have hnot : ¬id < s.next := fun hlt => by
        rw [Array.getElem?_eq_getElem hlt] at hfr
        cases hfr
      simp [hnot]
    | some fr => simp [Frame.bound_add, lt_next_of_getElem? hfr]
  · simp [hi]

@[simp] theorem own_addFrame (s : Scopes V F) (parent : Option FrameId) (i : FrameId) (key : Key) :
    (s.addFrame parent).own i key = s.own i key := by
  unfold own
  rw [getElem?_addFrame]
  by_cases hi : i = s.next
  · have hnone : s.frames[i]? = none := by simp [hi, next]
    rw [if_pos hi, hnone]
    cases key <;> rfl
  · rw [if_neg hi]

@[simp] theorem next_add (s : Scopes V F) (id : FrameId) (b : Binding V F) :
    (s.add id b).next = s.next :=
  next_update ..

@[simp] theorem parent?_add (s : Scopes V F) (id : FrameId) (b : Binding V F) (i : FrameId) :
    (s.add id b).parent? i = s.parent? i := by
  unfold parent? add
  rw [getElem?_update]
  split
  · cases s.frames[i]? <;> simp [Frame.parent_add]
  · rfl

theorem own_empty (id : FrameId) (key : Key) : (empty : Scopes V F).own id key = none := by
  simp [own, empty]

end Frames

section Nearest

/-- The nearest frame is the first on the way to the root. -/
theorem nearest?_eq_findSome? {α : Type} (s : Scopes V F) (pick : Frame V F → Option α)
    (id : FrameId) :
    s.nearest? pick id =
      (s.chain id).findSome? fun i => (s.frames[i]?.bind pick).map (i, ·) := by
  induction id using Nat.strongRecOn with
  | _ id ih =>
    rw [nearest?_eq, chain_eq]
    cases hfr : s.frames[id]? with
    | none =>
      have hnot : ¬id < s.next := fun hlt => by
        rw [Array.getElem?_eq_getElem hlt] at hfr
        cases hfr
      simp [hnot]
    | some fr =>
      rw [if_pos (lt_next_of_getElem? hfr), List.findSome?_cons, hfr]
      cases hpick : pick fr with
      | some a => simp [hpick]
      | none =>
        cases hp : fr.parent with
        | none => simp [hpick, parent?, hfr, hp]
        | some p => simp [hpick, parent?, hfr, hp, ih p (parent_lt_of_getElem? hfr hp)]

theorem findSome?_own {α : Type} (pick : Frame V F → Option α) (g : α → Binding V F)
    (hpick : ∀ fr : Frame V F, fr.bound key = (pick fr).map g) :
    ((s.chain id).findSome? fun i => (s.own i key).map (i, ·)) =
      (s.nearest? pick id).map fun found => (found.1, g found.2) := by
  have hown : (fun i => (s.own i key).map (i, ·)) =
      Option.map (fun found => (found.1, g found.2)) ∘
        fun i => (s.frames[i]?.bind pick).map (i, ·) := by
    funext i
    rw [Function.comp_apply, own]
    cases s.frames[i]? with
    | none => rfl
    | some fr => simp [hpick, Function.comp_def]
  rw [hown, ← List.map_findSome?, nearest?_eq_findSome?]

/-- A look-up finds what the first frame on the way to the root binds that binds the key. -/
theorem look_eq (s : Scopes V F) (id : FrameId) (key : Key) :
    s.look id key =
      match (s.chain id).findSome? fun i => (s.own i key).map (i, ·) with
      | some found => .ok found
      | none => .error key.unbound := by
  cases key with
  | name n =>
    rw [findSome?_own (fun fr => fr.boundVariables.lookup n) (.ofVariable n) fun _ => rfl]
    show (s.getVariable id n).map _ = _
    rw [getVariable, findVariable?]
    cases s.nearest? _ id <;> rfl
  | signature sig =>
    rw [findSome?_own (fun fr => fr.boundFunctions.lookup sig) (.ofFunction sig) fun _ => rfl]
    show (s.getFunction id sig).map _ = _
    rw [getFunction, findFunction?]
    cases s.nearest? _ id <;> rfl

end Nearest

section Calls

@[simp] theorem run_nil (s : Scopes V F) : s.run [] = s := rfl

@[simp] theorem run_cons (s : Scopes V F) (call : ScopeCall V F) (calls : List (ScopeCall V F)) :
    s.run (call :: calls) = (call.after s).run calls := rfl

theorem run_append (s : Scopes V F) (calls later : List (ScopeCall V F)) :
    s.run (calls ++ later) = (s.run calls).run later := List.foldl_append

theorem after_of_error {call : ScopeCall V F} {fault : ScopeFault}
    (h : call.perform s = .error fault) : call.after s = s := by
  rw [ScopeCall.after, h]

theorem after_frame (s : Scopes V F) (parent : Option FrameId) :
    (ScopeCall.frame parent : ScopeCall V F).after s = s.addFrame parent := rfl

/-- A definition of a key that the frame binds changes nothing, and any other one adds a binding. -/
theorem after_define (s : Scopes V F) (id : FrameId) (b : Binding V F) :
    (ScopeCall.define id b).after s = if (s.own id b.key).isSome then s else s.add id b := by
  rw [ScopeCall.after, ScopeCall.perform, define_eq]
  cases (s.own id b.key).isSome <;> rfl

theorem succeeds_define (s : Scopes V F) (id : FrameId) (b : Binding V F) :
    (ScopeCall.define id b).succeeds s = true ↔ id < s.next ∧ s.own id b.key = none := by
  rw [ScopeCall.succeeds, define_eq]
  cases s.own id b.key <;> simp [Except.isOk, Except.toBool]

/-- What a frame binds after a call: what it bound before, and otherwise what the call binds if it
succeeds. -/
theorem own_after (s : Scopes V F) (call : ScopeCall V F) (i : FrameId) (key : Key) :
    (call.after s).own i key =
      (s.own i key).or (if call.succeeds s then call.binding? i key else none) := by
  cases call with
  | frame parent => simp [after_frame, ScopeCall.binding?]
  | define id b =>
    rw [after_define]
    by_cases hsucceeds : (ScopeCall.define id b).succeeds s = true
    · obtain ⟨hid, hnone⟩ := (succeeds_define s id b).mp hsucceeds
      rw [if_pos hsucceeds, if_neg (by simp [hnone]), own_add, ScopeCall.binding?]
      by_cases hsame : id = i ∧ b.key = key
      · rw [if_pos ⟨hid, hsame⟩, if_pos hsame]
      · rw [if_neg fun h => hsame h.2, if_neg hsame, Option.or_none]
    · rw [if_neg hsucceeds, Option.or_none]
      split
      · rfl
      · next hfree =>
        have hnot : ¬id < s.next := fun hid =>
          hsucceeds ((succeeds_define s id b).mpr ⟨hid, by simpa using hfree⟩)
        rw [own_add, if_neg fun h => hnot h.1]

/-- What a frame binds after calls: what it bound before, and otherwise what the first of the
definitions that succeed binds. -/
theorem own_run (s : Scopes V F) (calls : List (ScopeCall V F)) (i : FrameId) (key : Key) :
    (s.run calls).own i key =
      (s.own i key).or
        ((ScopeCall.succeeding s calls).findSome? (ScopeCall.binding? i key)) := by
  induction calls generalizing s with
  | nil => simp [ScopeCall.succeeding]
  | cons call calls ih =>
    rw [run_cons, ih, own_after, Option.or_assoc, ScopeCall.succeeding]
    congr 1
    split
    · rw [List.findSome?_cons]
      cases call.binding? i key <;> rfl
    · rfl

theorem own_made (calls : List (ScopeCall V F)) (i : FrameId) (key : Key) :
    (made calls).own i key = firstDefinition calls i key := by
  rw [made, own_run, own_empty, Option.none_or]
  rfl

end Calls

section Agreement

variable {P : FrameId → Key → Prop}

/-- The trees have the same frames under the same parents, and frames bind the same under the keys
of which `P` holds. -/
structure Agrees (P : FrameId → Key → Prop) (s s' : Scopes V F) : Prop where
  next : s.next = s'.next
  parent : ∀ i, s.parent? i = s'.parent? i
  own : ∀ i key, P i key → s.own i key = s'.own i key

theorem Agrees.refl (P : FrameId → Key → Prop) (s : Scopes V F) : Agrees P s s :=
  ⟨rfl, fun _ => rfl, fun _ _ _ => rfl⟩

theorem parent?_addFrame (s : Scopes V F) (parent : Option FrameId) (i : FrameId) :
    (s.addFrame parent).parent? i =
      if i = s.next then parent.filter (· < s.next) else s.parent? i := by
  unfold parent?
  rw [getElem?_addFrame]
  split <;> rfl

/-- Defining something in the one tree keeps the agreement if nothing is asked of it. -/
theorem Agrees.skip (h : Agrees P s s') (b : Binding V F) (hP : ¬P id b.key) :
    Agrees P ((ScopeCall.define id b).after s) s' := by
  rw [after_define]
  split
  · exact h
  · refine ⟨by rw [next_add, h.next], fun i => by rw [parent?_add, h.parent], fun i key hi => ?_⟩
    have hother : ¬(id < s.next ∧ id = i ∧ b.key = key) := by
      rintro ⟨-, rfl, rfl⟩
      exact hP hi
    rw [own_add, if_neg hother, h.own i key hi]

/-- The same call keeps the agreement. -/
theorem Agrees.after (h : Agrees P s s') (call : ScopeCall V F) :
    Agrees P (call.after s) (call.after s') := by
  cases call with
  | frame parent =>
    rw [after_frame, after_frame]
    refine ⟨by rw [next_addFrame, next_addFrame, h.next], fun i => ?_, fun i key hi => ?_⟩
    · rw [parent?_addFrame, parent?_addFrame, h.next, h.parent]
    · rw [own_addFrame, own_addFrame, h.own i key hi]
  | define id b =>
    by_cases hP : P id b.key
    · rw [after_define, after_define, h.own id b.key hP]
      split
      · exact h
      · refine ⟨by rw [next_add, next_add, h.next], fun i => ?_, fun i key hi => ?_⟩
        · rw [parent?_add, parent?_add, h.parent]
        · rw [own_add, own_add, h.next, h.own i key hi]
    · -- Nothing is asked of this name, so one of the trees may bind it and the other refuse to.
      have hskip := h.skip b hP
      rw [after_define s']
      split
      · exact hskip
      · refine ⟨by rw [next_add, hskip.next], fun i => by rw [parent?_add, hskip.parent],
          fun i key hi => ?_⟩
        have hother : ¬(id < s'.next ∧ id = i ∧ b.key = key) := by
          rintro ⟨-, rfl, rfl⟩
          exact hP hi
        rw [own_add, if_neg hother, hskip.own i key hi]

/-- Leaving out definitions of which nothing is asked keeps the agreement. -/
theorem Agrees.run_filter (h : Agrees P s s') {keep : ScopeCall V F → Bool}
    (calls : List (ScopeCall V F))
    (hkeep : ∀ call ∈ calls, keep call = false → ∃ id b, call = .define id b ∧ ¬P id b.key) :
    Agrees P (s.run calls) (s'.run (calls.filter keep)) := by
  induction calls generalizing s s' with
  | nil => exact h
  | cons call calls ih =>
    have hrest : ∀ call ∈ calls, keep call = false → ∃ id b, call = .define id b ∧ ¬P id b.key :=
      fun c hc => hkeep c (List.mem_cons_of_mem _ hc)
    rw [run_cons]
    cases hk : keep call with
    | true =>
      rw [List.filter_cons_of_pos hk, run_cons]
      exact ih (h.after call) hrest
    | false =>
      obtain ⟨id, b, rfl, hP⟩ := hkeep call List.mem_cons_self hk
      rw [List.filter_cons_of_neg (by simp [hk])]
      exact ih (h.skip b hP) hrest

theorem Agrees.chain (h : Agrees P s s') (id : FrameId) : s.chain id = s'.chain id := by
  induction id using Nat.strongRecOn with
  | _ id ih =>
    rw [chain_eq, chain_eq, h.next, h.parent]
    cases hp : s'.parent? id with
    | none => rfl
    | some p =>
      obtain ⟨fr, hfr, hparent⟩ := Option.bind_eq_some_iff.mp hp
      rw [Option.map_some, Option.map_some, ih p (parent_lt_of_getElem? hfr hparent)]

/-- A look-up asks only the frames on the way to the root, and only for its own key. -/
theorem Agrees.look (h : Agrees P s s') (hP : ∀ i ∈ s.chain id, P i key) :
    s.look id key = s'.look id key := by
  rw [look_eq, look_eq, ← h.chain id]
  have hsame : ∀ l : List FrameId, (∀ i ∈ l, P i key) →
      (l.findSome? fun i => (s.own i key).map (i, ·)) =
        l.findSome? fun i => (s'.own i key).map (i, ·) := by
    intro l hl
    induction l with
    | nil => rfl
    | cons i l ih =>
      rw [List.findSome?_cons, List.findSome?_cons, h.own i key (hl i List.mem_cons_self),
        ih fun j hj => hl j (List.mem_cons_of_mem _ hj)]
  rw [hsame _ hP]

theorem under_of_mem_chain (h : i ∈ s.chain id) : s.Under i id := by
  induction id using Nat.strongRecOn with
  | _ id ih =>
    rw [chain_eq] at h
    split at h
    · rcases List.mem_cons.mp h with rfl | h
      · exact .top
      · cases hp : s.parent? id with
        | none => simp [hp] at h
        | some p =>
          obtain ⟨fr, hfr, hparent⟩ := Option.bind_eq_some_iff.mp hp
          rw [hp] at h
          exact .child hfr hparent (ih p (parent_lt_of_getElem? hfr hparent) h)
    · cases h

end Agreement

/-- What a look-up finds, by what the frames on its way bind. -/
theorem look_eq_ok_iff {home : FrameId} {b : Binding V F} :
    s.look id key = .ok (home, b) ↔
      ∃ nearer farther, s.chain id = nearer ++ home :: farther ∧ s.own home key = some b ∧
        ∀ i ∈ nearer, s.own i key = none := by
  have hfound : ∀ l : List FrameId,
      (l.findSome? fun i => (s.own i key).map (i, ·)) = some (home, b) ↔
        ∃ nearer farther, l = nearer ++ home :: farther ∧ s.own home key = some b ∧
          ∀ i ∈ nearer, s.own i key = none := by
    intro l
    rw [List.findSome?_eq_some_iff]
    constructor
    · rintro ⟨nearer, i, farther, rfl, hi, hnone⟩
      obtain ⟨c, hc, hpair⟩ := Option.map_eq_some_iff.mp hi
      cases hpair
      exact ⟨nearer, farther, rfl, hc, fun j hj => by simpa using hnone j hj⟩
    · rintro ⟨nearer, farther, rfl, hb, hnone⟩
      exact ⟨nearer, home, farther, rfl, by simp [hb], fun j hj => by simp [hnone j hj]⟩
  rw [look_eq, ← hfound]
  cases List.findSome? _ (s.chain id) <;> simp

theorem look_eq_error_iff {fault : ScopeFault} :
    s.look id key = .error fault ↔
      fault = key.unbound ∧ ∀ i ∈ s.chain id, s.own i key = none := by
  rw [look_eq]
  cases h : List.findSome? _ (s.chain id) with
  | none =>
    rw [List.findSome?_eq_none_iff] at h
    have hnone : ∀ i ∈ s.chain id, s.own i key = none := fun i hi => by simpa using h i hi
    simp only [Except.error.injEq]
    exact ⟨fun heq => ⟨heq.symm, hnone⟩, fun heq => heq.1.symm⟩
  | some found =>
    have hsome : ¬∀ i ∈ s.chain id, s.own i key = none := fun hnone => by
      have hnothing : (s.chain id).findSome? (fun i => (s.own i key).map (i, ·)) = none :=
        List.findSome?_eq_none_iff.mpr fun i hi => by simp [hnone i hi]
      cases hnothing.symm.trans h
    simp [hsome]

/-- On every tree that comes up by calls, of which some may fail: a look-up finds what the first
successful definition of the key bound in the nearest frame on the way to the root that has one,
and it fails just where there is none; a definition fails just where an earlier one of the key in
the frame succeeded; a call that fails leaves all that follows as it would be without it; and a
look-up is the same without the definitions in a frame that it does not lie under, and without
those of other keys. -/
theorem first_definition_in_nearest_frame (calls : List (ScopeCall V F)) :
    (∀ id key home b, (made calls).look id key = .ok (home, b) ↔
      ∃ nearer farther, (made calls).chain id = nearer ++ home :: farther ∧
        firstDefinition calls home key = some b ∧
        ∀ i ∈ nearer, firstDefinition calls i key = none) ∧
    (∀ id key fault, (made calls).look id key = .error fault ↔
      fault = key.unbound ∧ ∀ i ∈ (made calls).chain id, firstDefinition calls i key = none) ∧
    (∀ id b fault, (made calls).define id b = .error fault ↔
      fault = b.key.defined ∧ (firstDefinition calls id b.key).isSome) ∧
    (∀ call fault, call.perform (made calls) = .error fault →
      ∀ later, made (calls ++ call :: later) = made (calls ++ later)) ∧
    (∀ top id key, ¬(made calls).Under top id →
      (made calls).look id key =
        (made (calls.filter fun call => ¬call.DefinesIn top)).look id key) ∧
    ∀ id key, (made calls).look id key =
      (made (calls.filter fun call => ¬call.DefinesOther key)).look id key := by
  refine ⟨fun id key home b => ?_, fun id key fault => ?_, fun id b fault => ?_,
    fun call fault hfails later => ?_, fun top id key hunder => ?_, fun id key => ?_⟩
  · simpa only [own_made] using look_eq_ok_iff (s := made calls)
  · simpa only [own_made] using look_eq_error_iff (s := made calls)
  · rw [define_eq, own_made]
    split
    · next h => simp [h, eq_comm]
    · next h => simp [h]
  · rw [made, made, run_append, run_append, run_cons]
    exact congrArg (·.run later) (after_of_error hfails)
  · refine Agrees.look (P := fun i _ => i ≠ top) (Agrees.run_filter (.refl _ _) calls ?_) ?_
    · intro call _ hdropped
      cases call with
      | frame parent => simp [ScopeCall.DefinesIn] at hdropped
      | define i b => exact ⟨i, b, rfl, fun hne => by simp [ScopeCall.DefinesIn, hne] at hdropped⟩
    · rintro i hi rfl
      exact hunder (under_of_mem_chain hi)
  · refine Agrees.look (P := fun _ other => other = key)
      (Agrees.run_filter (.refl _ _) calls ?_) fun _ _ => rfl
    intro call _ hdropped
    cases call with
    | frame parent => simp [ScopeCall.DefinesOther] at hdropped
    | define i b => exact ⟨i, b, rfl, by simpa [ScopeCall.DefinesOther] using hdropped⟩

end Scopes
end BlockScript
