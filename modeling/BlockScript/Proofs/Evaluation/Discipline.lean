import BlockScript.Proofs.Evaluation.Evolution
import BlockScript.Proofs.Evaluation.Record
/-!
# Which frames a step can change

Some frames are shared: with a frame also its parent, and all frames under which methods run and
those of the members of objects. A step comes to no other frame that was there before, except on the
way up from the frame in which it takes place; and only declarations add anything to a frame that
was there.
-/
namespace BlockScript

open Recorded Run

abbrev Nowhere : FrameId → Prop := fun _ => False

def Value.Shares (shared : FrameId → Prop) : Value → Prop
  | .object _ members => shared members
  | _ => True

def Function.Shares (shared : FrameId → Prop) (f : Function) : Prop :=
  ∀ home level name parameters statements,
    f.body = some (.method home level name parameters statements) → shared home

theorem Value.Shares.mono {shared shared' : FrameId → Prop} {v : Value} (h : v.Shares shared)
    (hle : ∀ i, shared i → shared' i) : v.Shares shared' := by
  cases v with
  | object typeName members => exact hle members h
  | _ => trivial

theorem Function.Shares.mono {shared shared' : FrameId → Prop} {f : Function} (h : f.Shares shared)
    (hle : ∀ i, shared i → shared' i) : f.Shares shared' :=
  fun home level name parameters statements hbody =>
    hle home (h home level name parameters statements hbody)

/-- The set has frames that are there only, and with a frame its parent. -/
structure Scopes.Closes {V F : Type} (set : FrameId → Prop) (s : Scopes V F) : Prop where
  lt_next : ∀ i, set i → i < s.next
  parent : ∀ i fr p, set i → s.frames[i]? = some fr → fr.parent = some p → set p

def Scopes.Orphan {V F : Type} (s : Scopes V F) (i : FrameId) : Prop :=
  ∃ fr, s.frames[i]? = some fr ∧ fr.parent = none

/-- All objects and methods that are bound keep to the shared frames, and a frame that is not shared
has a parent. -/
structure Shared (shared : FrameId → Prop) (s : Scopes Variable Function) : Prop where
  bound : s.All (fun _ _ v => v.value.Shares shared) fun _ f => f.Shares shared
  orphan : ∀ i, s.Orphan i → shared i

structure Governed (shared : FrameId → Prop) (s : Scopes Variable Function) : Prop where
  closed : s.Closes shared
  all : Shared shared s

section Scopes

variable {shared set assigned extended : FrameId → Prop} {s s' : Scopes Variable Function}

theorem Scopes.Closes.evolves (h : s.Closes set) (hev : s.Evolves assigned extended s') :
    s'.Closes set where
  lt_next i hi := Nat.lt_of_lt_of_le (h.lt_next i hi) hev.next_le
  parent i fr p hi hfr hp := by
    have hlt : i < s.frames.size := h.lt_next i hi
    obtain ⟨fr', hfr', hframe⟩ := hev i s.frames[i] (Array.getElem?_eq_getElem hlt)
    cases hfr.symm.trans hfr'
    exact h.parent i _ p hi (Array.getElem?_eq_getElem hlt) (hframe.parent.symm.trans hp)

/-- A look-up that starts in a closed set stays in it. -/
theorem Scopes.Closes.nearest? {V F α : Type} {s : Scopes V F} (h : s.Closes set)
    {pick : Frame V F → Option α} {id home : FrameId} {a : α} (hid : set id)
    (hfound : s.nearest? pick id = some (home, a)) : set home := by
  induction id using Nat.strongRecOn with
  | _ id ih =>
    rw [nearest?_eq] at hfound
    split at hfound
    · cases hfound
    · next fr hfr =>
      split at hfound
      · cases hfound
        exact hid
      · split at hfound
        · next p hp =>
          exact ih p (parent_lt_of_getElem? hfr hp) (h.parent id fr p hid hfr hp) hfound
        · cases hfound

/-- With a new frame under one of them, a closed set is closed. -/
theorem Scopes.Closes.addFrame (h : s.Closes set) {parent : FrameId} (hp : set parent) :
    (s.addFrame (some parent)).Closes fun i => set i ∨ i = s.next where
  lt_next i hi := by
    rw [next_addFrame]
    obtain hi | rfl := hi
    · exact Nat.lt_succ_of_lt (h.lt_next i hi)
    · exact Nat.lt_succ_self _
  parent i fr p hi hfr hpar := by
    rw [getElem?_addFrame] at hfr
    split at hfr
    · cases hfr
      have hfilter : (some parent).filter (· < s.next) = some p := hpar
      cases (Option.filter_eq_some_iff.mp hfilter).1
      exact .inl hp
    · next hne => exact .inl (h.parent i fr p (hi.resolve_right hne) hfr hpar)

/-- First come changes of some frames, and then changes of others that were not there at first. -/
theorem Scopes.Evolves.trans_new {s'' : Scopes Variable Function}
    {assigned' extended' : FrameId → Prop} (h : s.Evolves assigned extended s')
    (h' : s'.Evolves assigned' extended' s'') (ha : ∀ i < s.next, assigned' i → assigned i)
    (he : ∀ i < s.next, extended' i → extended i) : s.Evolves assigned extended s'' := by
  intro i fr hfr
  have hlt := lt_next_of_getElem? hfr
  obtain ⟨fr', hfr', hev⟩ := h i fr hfr
  obtain ⟨fr'', hfr'', hev'⟩ := h' i fr' hfr'
  exact ⟨fr'', hfr'', hev.trans (hev'.mono (ha i hlt) (he i hlt))⟩

theorem Scopes.orphan_update {V F : Type} {s : Scopes V F} {id i : FrameId}
    {f : Frame V F → Frame V F} {keeps : ∀ frame, (f frame).parent = frame.parent} :
    (s.update id f keeps).Orphan i ↔ s.Orphan i := by
  unfold Scopes.Orphan
  rw [getElem?_update]
  split
  · cases s.frames[i]? <;> simp [keeps]
  · exact Iff.rfl

namespace Shared

variable {id : FrameId} {name : String}

theorem addFrame (h : Shared shared s) {parent : FrameId} (hp : parent < s.next) :
    Shared shared (s.addFrame (some parent)) where
  bound := h.bound.addFrame _
  orphan i hi := by
    obtain ⟨fr, hfr, hnone⟩ := hi
    rw [Scopes.getElem?_addFrame] at hfr
    split at hfr
    · cases hfr
      simp [Option.filter, hp] at hnone
    · exact h.orphan i ⟨fr, hfr, hnone⟩

theorem addVariable (h : Shared shared s) {v : Variable} (hv : v.value.Shares shared) :
    Shared shared (s.addVariable id name v) :=
  ⟨h.bound.addVariable hv, fun i hi => h.orphan i (Scopes.orphan_update.mp hi)⟩

theorem addFunction (h : Shared shared s) {signature : Signature} {f : Function}
    (hf : f.Shares shared) : Shared shared (s.addFunction id signature f) :=
  ⟨h.bound.addFunction id hf, fun i hi => h.orphan i (Scopes.orphan_update.mp hi)⟩

theorem setVariable (h : Shared shared s) {v : Variable} (hv : v.value.Shares shared) :
    Shared shared (s.setVariable id name v) :=
  ⟨h.bound.setVariable hv, fun i hi => h.orphan i (Scopes.orphan_update.mp hi)⟩

theorem of_findVariable? (h : Shared shared s) {home : FrameId} {v : Variable}
    (hfound : s.findVariable? id name = some (home, v)) : v.value.Shares shared :=
  h.bound.of_findVariable? hfound

theorem of_findFunction? (h : Shared shared s) {home : FrameId} {signature : Signature}
    {f : Function} (hfound : s.findFunction? id signature = some (home, f)) : f.Shares shared :=
  h.bound.of_findFunction? hfound

end Shared

theorem Function.shares_of_body {f : Function} (h : f.body = none ∨ f.body = some .print) :
    f.Shares shared := by
  intro home level name parameters statements hbody
  obtain h | h := h <;> cases h.symm.trans hbody

theorem Literal.shares_toValue (l : Literal) : l.toValue.Shares shared := by
  cases l <;> trivial

/-- A function of the surroundings makes no objects. -/
theorem shares_callHost {act : List Value → Except RunFault HostAnswer} {values : List Value} {v : Value}
    (h : callHost act values = .ok v) (hvalues : ∀ v ∈ values, v.Shares shared) : v.Shares shared := by
  unfold callHost at h
  split at h
  · next answer _ =>
    cases h
    cases answer with
    | literal value => exact value.shares_toValue
    | argument i =>
      rw [HostAnswer.value, List.getD_eq_getElem?_getD]
      cases hi : values[i]? with
      | none => trivial
      | some v => exact hvalues v (List.mem_of_getElem? hi)
  · cases h

theorem shares_of_map {α : Type} {x : Except Fault α} {f : α → Value} {v : Value}
    (h : x.map f = .ok v) (hf : ∀ a, (f a).Shares shared) : v.Shares shared := by
  cases x with
  | error fault => cases h
  | ok a =>
    cases h
    exact hf a

theorem shares_applyArithmetic {operator : String} {l r v : Value}
    (h : applyArithmetic operator l r = .ok v) : v.Shares shared := by
  have hdecimal : ∀ d, validDecimal d = .ok v → v.Shares shared := by
    intro d hd
    cases d with
    | none => cases hd
    | some d =>
      cases hd
      trivial
  unfold applyArithmetic at h
  split at h
  · unfold integerArithmetic at h
    repeat' split at h
    all_goals cases h
    all_goals trivial
  · unfold decimalArithmetic at h
    split at h
    · exact hdecimal _ h
    split at h
    · exact hdecimal _ h
    split at h
    · exact hdecimal _ h
    · exact shares_of_map h fun _ => trivial
  · cases h

/-- No operator gives an object. -/
theorem shares_applyBinary {operator : String} {l r v : Value} (h : applyBinary operator l r = .ok v) :
    v.Shares shared := by
  unfold applyBinary at h
  split at h
  · exact shares_of_map h fun _ => trivial
  split at h
  · exact shares_of_map h fun _ => trivial
  split at h
  · unfold joinTexts at h
    split at h
    · cases h
      trivial
    · cases h
  split at h
  · exact shares_applyArithmetic h
  · cases h

end Scopes

/-- The operation keeps objects and methods to the shared frames, and what it gives is as `Q`
says. -/
def Upholds {α : Type} (shared : FrameId → Prop) (m : Machine) (x : Run α) (Q : α → Prop) : Prop :=
  Ends x m (fun a m' => Shared shared m'.scopes ∧ Q a) fun _ m' => Shared shared m'.scopes

section Operations

variable {α β : Type} {shared : FrameId → Prop} {m : Machine} {Q : α → Prop} {R : β → Prop}

theorem Upholds.bind {x : Run α} {f : α → Run β} (h : Upholds shared m x Q)
    (hf : ∀ a m', Shared shared m'.scopes → Q a → Upholds shared m' (f a) R) :
    Upholds shared m (x >>= f) R :=
  ends_bind.mpr (Ends.imp h (fun a m' ⟨hm', hq⟩ => hf a m' hm' hq) fun _ _ => id)

theorem upholds_pure {a : α} (hm : Shared shared m.scopes) (hq : Q a) :
    Upholds shared m (pure a) Q := ⟨hm, hq⟩

theorem upholds_lift {result : Except Fault α} (hm : Shared shared m.scopes)
    (hq : ∀ a, result = .ok a → Q a) : Upholds shared m (lift result) Q := by
  cases result with
  | ok a => exact ⟨hm, hq a rfl⟩
  | error fault => exact hm

theorem upholds_throw {fault : Fault} (hm : Shared shared m.scopes) :
    Upholds shared m (throw fault : Run α) Q := hm

theorem Shows.upholds {line : Run α} (h : Shows line) (hm : Shared shared m.scopes) :
    Upholds shared m line fun _ => True :=
  Ends.imp (h.ends m) (fun _ _ hsame => ⟨by rw [hsame]; exact hm, trivial⟩) fun _ _ hsame => by
    rw [hsame.1]
    exact hm

theorem upholds_noteAt (hm : Shared shared m.scopes) (a : Activation) (least : Nat)
    {line : Run String} (h : Shows line) : Upholds shared m (noteAt a least line) fun _ => True := by
  unfold noteAt
  split
  · exact (h.upholds hm).bind fun _ _ hm' _ => ⟨hm', trivial⟩
  · exact upholds_pure hm trivial

theorem upholds_requireBoolean (hm : Shared shared m.scopes) (a : Activation) (construct : String)
    (v : Value) : Upholds shared m (requireBoolean a construct v) fun _ => True := by
  unfold requireBoolean
  split
  · refine (upholds_noteAt hm a 3 ?_).bind fun _ _ hm' _ => upholds_pure hm' trivial
    exact (shows_text _).bind fun _ => shows_pure _
  · exact upholds_throw hm

theorem upholds_defineVariable (hm : Shared shared m.scopes) (scope : FrameId) (name : String)
    {v : Variable} (hv : v.value.Shares shared) :
    Upholds shared m (defineVariable scope name v) fun _ => True := by
  unfold defineVariable
  refine ends_bind.mpr (ends_get.mpr ?_)
  split
  · exact upholds_throw hm
  · exact ⟨hm.addVariable hv, trivial⟩

theorem upholds_bindVariable (hm : Shared shared m.scopes) (a : Activation) (what name : String)
    {v : Variable} (hv : v.value.Shares shared) :
    Upholds shared m (bindVariable a what name v) fun _ => True := by
  refine (upholds_defineVariable hm a.scope name hv).bind fun _ _ hm' _ => ?_
  exact upholds_noteAt hm' a 2 ((shows_text _).bind fun _ => shows_pure _)

theorem upholds_bindArguments (hm : Shared shared m.scopes) (scope : FrameId)
    (names : List String) {values : List Value} (hvalues : ∀ v ∈ values, v.Shares shared) :
    Upholds shared m (bindArguments scope names values) fun _ => True := by
  induction names generalizing m values with
  | nil => exact upholds_pure hm trivial
  | cons name names ih =>
    cases values with
    | nil => exact upholds_pure hm trivial
    | cons v values =>
      obtain ⟨hv, hvs⟩ := List.forall_mem_cons.mp hvalues
      exact (upholds_defineVariable hm scope name (v := ⟨false, v⟩) hv).bind fun _ _ hm' _ => ih hm' hvs

theorem upholds_defineFunction (hm : Shared shared m.scopes) (scope : FrameId)
    (signature : Signature) {f : Function} (hf : f.Shares shared) :
    Upholds shared m (defineFunction scope signature f) fun _ => True := by
  unfold defineFunction
  refine ends_bind.mpr (ends_get.mpr ?_)
  split
  · exact upholds_throw hm
  · exact ⟨hm.addFunction hf, trivial⟩

theorem upholds_defineMethod (hm : Shared shared m.scopes) {a : Activation} (ha : shared a.scope)
    (node : Node) : Upholds shared m (defineMethod a node) fun _ => True := by
  unfold defineMethod
  split
  · next name parameters _ _ statements _ =>
    have hdefine : Upholds shared m (defineFunction a.scope ⟨name, parameters.length⟩
        ⟨name, some (.method a.scope a.level name parameters statements)⟩) fun _ => True := by
      refine upholds_defineFunction hm _ _ ?_
      intro home level name parameters statements hbody
      cases hbody
      exact ha
    exact hdefine.bind fun _ _ hm' _ => upholds_noteAt hm' a 2 (shows_pure _)
  · exact upholds_throw hm

theorem upholds_findVariable (hm : Shared shared m.scopes) (scope : FrameId) (name : String) :
    Upholds shared m (findVariable scope name) fun found => found.2.value.Shares shared := by
  unfold findVariable
  refine ends_bind.mpr (ends_get.mpr ?_)
  unfold Scopes.getVariable
  cases hfound : m.scopes.findVariable? scope name with
  | none => exact upholds_throw hm
  | some found => exact upholds_pure hm (hm.of_findVariable? hfound)

theorem upholds_getField (hm : Shared shared m.scopes) (typeName : String) (members : FrameId)
    (name : String) : Upholds shared m (getField typeName members name) (Value.Shares shared) := by
  unfold getField
  refine ends_bind.mpr (ends_get.mpr ?_)
  split
  · next hfound => exact upholds_pure hm (hm.of_findVariable? hfound)
  · exact upholds_throw hm

theorem upholds_assignVariable (hm : Shared shared m.scopes) (scope : FrameId) (name : String)
    {v : Value} (hv : v.Shares shared) :
    Upholds shared m (assignVariable scope name v) fun _ => True := by
  refine (upholds_findVariable hm scope name).bind fun found m' hm' _ => ?_
  obtain ⟨home, old⟩ := found
  dsimp only
  split
  · exact upholds_throw hm'
  · exact ⟨hm'.setVariable hv, trivial⟩

theorem upholds_setField (hm : Shared shared m.scopes) (typeName : String) (members : FrameId)
    (name : String) {v : Value} (hv : v.Shares shared) :
    Upholds shared m (setField typeName members name v) fun _ => True := by
  unfold setField
  refine ends_bind.mpr (ends_get.mpr ?_)
  split
  · split
    · exact upholds_throw hm
    · exact ⟨hm.setVariable hv, trivial⟩
  · exact upholds_throw hm

theorem upholds_findFunction (hm : Shared shared m.scopes) (scope : FrameId)
    (signature : Signature) :
    Upholds shared m (findFunction scope signature) (Function.Shares shared) := by
  unfold findFunction
  refine ends_bind.mpr (ends_get.mpr ?_)
  unfold Scopes.getFunction
  cases hfound : m.scopes.findFunction? scope signature with
  | none => exact upholds_throw hm
  | some found => exact upholds_pure hm (hm.of_findFunction? hfound)

theorem upholds_findMethod (hm : Shared shared m.scopes) (typeName : String) (members : FrameId)
    (name : String) (arguments : Nat) :
    Upholds shared m (findMethod typeName members name arguments) (Function.Shares shared) := by
  unfold findMethod
  refine ends_bind.mpr (ends_get.mpr ?_)
  split
  · next hfound => exact upholds_pure hm (hm.of_findFunction? hfound)
  · exact upholds_throw hm

theorem upholds_findMain (hm : Shared shared m.scopes) (a : Activation) :
    Upholds shared m (findMain a) (Function.Shares shared) := by
  unfold findMain
  refine ends_bind.mpr (ends_get.mpr ?_)
  split
  · next hfound => exact upholds_pure hm (hm.of_findFunction? hfound)
  · exact upholds_throw hm

end Operations

/-- The steps from one state to another have changed frames as the two sets say, and all that is
bound has kept to the shared frames, also at each event that was added. -/
structure Progress (shared assigned extended : FrameId → Prop) (s s' : Machine × List Event) :
    Prop where
  machine : s.1.Becomes assigned extended s'.1
  governed : Governed shared s'.1.scopes
  events : ∃ new, s'.2 = new ++ s.2 ∧ ∀ e ∈ new,
    s.1.Becomes assigned extended e.machine ∧ Governed shared e.machine.scopes

/-- The step makes progress, whether it succeeds or fails, and what it gives is as `Q` says. -/
def Progresses {α : Type} (shared assigned extended : FrameId → Prop) (s : Machine × List Event)
    (x : Recorded α) (Q : α → Prop) : Prop :=
  Ends x s (fun a s' => Progress shared assigned extended s s' ∧ Q a)
    fun _ s' => Progress shared assigned extended s s'

section Progress

variable {α β : Type} {shared assigned extended assigned' extended' : FrameId → Prop}
  {s s' s'' : Machine × List Event} {Q Q' : α → Prop} {R : β → Prop}

theorem Progress.refl (h : Governed shared s.1.scopes) : Progress shared assigned extended s s :=
  ⟨.refl _, h, [], rfl, fun _ he => absurd he List.not_mem_nil⟩

/-- First come changes of some frames, and then changes of others that were not there at first. -/
theorem Machine.Becomes.trans_new {m m' m'' : Machine} (h : m.Becomes assigned extended m')
    (h' : m'.Becomes assigned' extended' m'') (ha : ∀ i < m.scopes.next, assigned' i → assigned i)
    (he : ∀ i < m.scopes.next, extended' i → extended i) : m.Becomes assigned extended m'' :=
  ⟨h.scopes.trans_new h'.scopes ha he, h'.root.trans h.root⟩

theorem Progress.trans_new (h : Progress shared assigned extended s s')
    (h' : Progress shared assigned' extended' s' s'')
    (ha : ∀ i < s.1.scopes.next, assigned' i → assigned i)
    (he : ∀ i < s.1.scopes.next, extended' i → extended i) :
    Progress shared assigned extended s s'' := by
  obtain ⟨hmachine, -, new, heq, hnew⟩ := h
  obtain ⟨hmachine', hgoverned', new', heq', hnew'⟩ := h'
  refine ⟨hmachine.trans_new hmachine' ha he, hgoverned', new' ++ new, ?_, fun e hmem => ?_⟩
  · rw [heq', heq, List.append_assoc]
  · obtain hmem | hmem := List.mem_append.mp hmem
    · obtain ⟨hev, hgov⟩ := hnew' e hmem
      exact ⟨hmachine.trans_new hev ha he, hgov⟩
    · exact hnew e hmem

theorem Progress.trans (h : Progress shared assigned extended s s')
    (h' : Progress shared assigned extended s' s'') : Progress shared assigned extended s s'' :=
  h.trans_new h' (fun _ _ => id) fun _ _ => id

theorem Progress.mono (h : Progress shared assigned extended s s')
    (ha : ∀ i < s.1.scopes.next, assigned i → assigned' i)
    (he : ∀ i < s.1.scopes.next, extended i → extended' i) :
    Progress shared assigned' extended' s s' := by
  obtain ⟨hmachine, hgoverned, new, heq, hnew⟩ := h
  exact ⟨hmachine.mono ha he, hgoverned, new, heq, fun e hmem =>
    ⟨(hnew e hmem).1.mono ha he, (hnew e hmem).2⟩⟩

theorem Progresses.mono {x : Recorded α} (h : Progresses shared assigned extended s x Q)
    (ha : ∀ i < s.1.scopes.next, assigned i → assigned' i)
    (he : ∀ i < s.1.scopes.next, extended i → extended' i) (hQ : ∀ a, Q a → Q' a) :
    Progresses shared assigned' extended' s x Q' :=
  Ends.imp h (fun a _ ⟨hs', hq⟩ => ⟨hs'.mono ha he, hQ a hq⟩) fun _ _ hs' => hs'.mono ha he

theorem Progresses.bind {x : Recorded α} {f : α → Recorded β}
    (h : Progresses shared assigned extended s x Q)
    (hf : ∀ a s', Progress shared assigned extended s s' → Q a →
      Progresses shared assigned extended s' (f a) R) :
    Progresses shared assigned extended s (x >>= f) R := by
  refine ends_bind.mpr (Ends.imp h ?_ fun _ _ => id)
  rintro a s' ⟨hs', hq⟩
  exact Ends.imp (hf a s' hs' hq) (fun _ _ ⟨hs'', hr⟩ => ⟨hs'.trans hs'', hr⟩)
    fun _ _ hs'' => hs'.trans hs''

/-- A value from one of two steps is handed on to what comes next. -/
theorem Progresses.join {c : Prop} [Decidable c] {x y : Recorded α} {f : α → Recorded β}
    (hthen : c → Progresses shared assigned extended s x Q)
    (helse : ¬c → Progresses shared assigned extended s y Q)
    (hf : ∀ a s', Progress shared assigned extended s s' → Q a →
      Progresses shared assigned extended s' (f a) R) :
    Progresses shared assigned extended s (if c then x >>= f else y >>= f) R := by
  split
  · next hc => exact (hthen hc).bind hf
  · next hc => exact (helse hc).bind hf

theorem progresses_pure {a : α} (hs : Governed shared s.1.scopes) (hq : Q a) :
    Progresses shared assigned extended s (pure a) Q := ⟨.refl hs, hq⟩

theorem progress_moved (hs : Governed shared s.1.scopes) {m : Machine}
    (hmachine : s.1.Becomes assigned extended m) (hm : Shared shared m.scopes) :
    Progress shared assigned extended s (m, .moved m :: s.2) := by
  have hgoverned : Governed shared m.scopes := ⟨hs.closed.evolves hmachine.scopes, hm⟩
  refine ⟨hmachine, hgoverned, [.moved m], rfl, fun e he => ?_⟩
  cases List.mem_singleton.mp he
  exact ⟨hmachine, hgoverned⟩

theorem progresses_lift {x : Run α} (hs : Governed shared s.1.scopes)
    (hevolves : Evolving assigned extended s.1 x) (hupholds : Upholds shared s.1 x Q) :
    Progresses shared assigned extended s (liftM x) Q := by
  refine ends_lift.mpr (Ends.imp (Ends.and hevolves hupholds) ?_ ?_)
  · rintro a m ⟨hmachine, hm, hq⟩
    exact ⟨progress_moved hs hmachine hm, hq⟩
  · rintro fault m ⟨hmachine, hm⟩
    exact progress_moved hs hmachine hm

/-- What stops the run changes nothing. -/
theorem progresses_throw (hs : Governed shared s.1.scopes) (fault : Fault) :
    Progresses shared assigned extended s (liftM (throw fault : Run α) : Recorded α) Q :=
  progresses_lift hs (evolving_throw fault) hs.all

theorem progresses_record {x : Recorded α} {event : Machine → Event}
    (hs : Governed shared s.1.scopes) (hevent : ∀ m, (event m).machine = m)
    (hx : ∀ events, Progresses shared assigned extended (s.1, events) x Q) :
    Progresses shared assigned extended s (record event >>= fun _ => x) Q := by
  have hrecord : Progress shared assigned extended s (s.1, event s.1 :: s.2) := by
    refine ⟨.refl _, hs, [event s.1], rfl, fun e he => ?_⟩
    cases List.mem_singleton.mp he
    rw [hevent]
    exact ⟨.refl _, hs⟩
  refine ends_record.mpr (Ends.imp (hx (event s.1 :: s.2)) ?_ ?_)
  · rintro a s' ⟨hs', hq⟩
    exact ⟨hrecord.trans hs', hq⟩
  · exact fun _ s' hs' => hrecord.trans hs'

theorem progresses_around {x : Recorded α} {before : Machine → Event} {after : α → Machine → Event}
    (hs : Governed shared s.1.scopes) (hbefore : ∀ m, (before m).machine = m)
    (hafter : ∀ a m, (after a m).machine = m)
    (hx : ∀ events, Progresses shared assigned extended (s.1, events) x Q) :
    Progresses shared assigned extended s (around before after x) Q := by
  refine progresses_record hs hbefore fun events => (hx events).bind fun a s' hs' hq => ?_
  exact progresses_record hs'.governed (hafter a) fun _ => progresses_pure hs'.governed hq

/-- A step in a new frame: what it changes there does not count. -/
theorem progresses_newFrame {f : FrameId → Recorded α} {parent : FrameId}
    (hs : Governed shared s.1.scopes) (hparent : parent < s.1.scopes.next)
    (hf : ∀ s' : Machine × List Event, s'.1.scopes = s.1.scopes.addFrame (some parent) →
      Governed shared s'.1.scopes →
        Progresses shared (fun i => assigned i ∨ i = s.1.scopes.next)
          (fun i => extended i ∨ i = s.1.scopes.next) s' (f s.1.scopes.next) Q) :
    Progresses shared assigned extended s
      ((liftM (newFrame (some parent)) : Recorded FrameId) >>= f) Q := by
  let added : Machine := { s.1 with scopes := s.1.scopes.addFrame (some parent) }
  have hm : Shared shared added.scopes := hs.all.addFrame hparent
  have hframe : Progress shared assigned extended s (added, .moved added :: s.2) :=
    progress_moved hs ⟨(Scopes.keeps_addFrame _ _).evolves, rfl⟩ hm
  have hinner : Progresses shared (fun i => assigned i ∨ i = s.1.scopes.next)
      (fun i => extended i ∨ i = s.1.scopes.next) (added, .moved added :: s.2)
      (f s.1.scopes.next) Q := hf _ rfl hframe.governed
  have hold : ∀ (set : FrameId → Prop) i, i < s.1.scopes.next → (set i ∨ i = s.1.scopes.next) →
      set i := fun set i hlt hi => hi.resolve_right (Nat.ne_of_lt hlt)
  refine ends_bind.mpr (ends_lift.mpr ?_)
  show Ends (f s.1.scopes.next) (added, .moved added :: s.2) _ _
  refine Ends.imp hinner ?_ fun _ s' hs' => ?_
  · intro a s' ⟨hs', hq⟩
    exact ⟨hframe.trans_new hs' (hold assigned) (hold extended), hq⟩
  · exact hframe.trans_new hs' (hold assigned) (hold extended)

end Progress

/-- Where a statement is executed: what it may assign is closed, and has the shared frames and the
frame of the statement. -/
structure Standing (shared assigned : FrameId → Prop) (s : Machine × List Event) (a : Activation) :
    Prop where
  governed : Governed shared s.1.scopes
  closed : s.1.scopes.Closes assigned
  covers : ∀ i, shared i → assigned i
  here : assigned a.scope

section Standing

variable {shared assigned extended : FrameId → Prop} {s s' : Machine × List Event} {a : Activation}

theorem Standing.after (h : Standing shared assigned s a)
    (hs' : Progress shared assigned extended s s') : Standing shared assigned s' a where
  governed := hs'.governed
  closed := h.closed.evolves hs'.machine.scopes
  covers := h.covers
  here := h.here

theorem Standing.there (h : Standing shared assigned s a) : a.scope < s.1.scopes.next :=
  h.closed.lt_next a.scope h.here

/-- In a new frame under one that may be assigned. -/
theorem Standing.newFrame {parent : FrameId} (hclosed : s.1.scopes.Closes assigned)
    (hcovers : ∀ i, shared i → assigned i) (hparent : assigned parent)
    (hscopes : s'.1.scopes = s.1.scopes.addFrame (some parent)) (hs' : Governed shared s'.1.scopes)
    (ha : a.scope = s.1.scopes.next) :
    Standing shared (fun i => assigned i ∨ i = s.1.scopes.next) s' a where
  governed := hs'
  closed := by
    rw [hscopes]
    exact hclosed.addFrame hparent
  covers i hi := .inl (hcovers i hi)
  here := .inr ha

end Standing

def Node.Declares (node : Node) : Prop :=
  ∃ name type value bound, node = .declaration name type value bound

/-- Each kind of step changes what it may change. -/
structure Steps.Disciplined (shared : FrameId → Prop) (t : Steps Recorded) : Prop where
  evaluate : ∀ {s} (a node), Governed shared s.1.scopes →
    Progresses shared shared Nowhere s (t.evaluate a node) (Value.Shares shared)
  evaluateAll : ∀ {s} (a nodes), Governed shared s.1.scopes →
    Progresses shared shared Nowhere s (t.evaluateAll a nodes) fun vs => ∀ v ∈ vs, v.Shares shared
  operate : ∀ {s} (operator l r), Governed shared s.1.scopes →
    Progresses shared shared Nowhere s (t.operate operator l r) (Value.Shares shared)
  write : ∀ {s} (v), Governed shared s.1.scopes →
    Progresses shared shared Nowhere s (t.write v) fun _ => True
  invoke : ∀ {s} (a signature) {f : Function} {values : List Value}, Governed shared s.1.scopes →
    f.Shares shared → (∀ v ∈ values, v.Shares shared) →
      Progresses shared shared Nowhere s (t.invoke a signature f values) (Value.Shares shared)
  execute : ∀ {s assigned extended} {a : Activation} (node), Standing shared assigned s a →
    (node.Declares → extended a.scope) →
      Progresses shared assigned extended s (t.execute a node)
        fun result => ∀ v ∈ result, v.Shares shared
  executeLoop : ∀ {s assigned extended} {a : Activation} (construct condition increment statements),
    Standing shared assigned s a → (increment.Declares → extended a.scope) →
      Progresses shared assigned extended s
        (t.executeLoop a construct condition increment statements)
        fun result => ∀ v ∈ result, v.Shares shared
  executeAll : ∀ {s assigned extended} {a : Activation} (nodes), Standing shared assigned s a →
    extended a.scope →
      Progresses shared assigned extended s (t.executeAll a nodes)
        fun result => ∀ v ∈ result, v.Shares shared

namespace Steps.Disciplined

variable {β : Type} {shared assigned extended : FrameId → Prop} {t : Steps Recorded}
  {s : Machine × List Event} {a : Activation} {R : β → Prop}

/-- An expression assigns in shared frames only, so also where more may be assigned. -/
theorem evaluateWithin (h : t.Disciplined shared) (hs : Governed shared s.1.scopes)
    (hcovers : ∀ i, shared i → assigned i) (node : Node) :
    Progresses shared assigned extended s (t.evaluate a node) (Value.Shares shared) :=
  (h.evaluate a node hs).mono (fun i _ => hcovers i) (fun _ _ => False.elim) fun _ => id

/-- A condition, and what is done for its truth value. -/
theorem evaluateCondition (h : t.Disciplined shared) (hs : Governed shared s.1.scopes)
    (hcovers : ∀ i, shared i → assigned i) (construct : String) (node : Node)
    {next : Bool → Recorded β}
    (hnext : ∀ b s', Progress shared assigned extended s s' →
      Progresses shared assigned extended s' (next b) R) :
    Progresses shared assigned extended s (do
      let v ← t.evaluate a node
      let b ← (liftM (requireBoolean a construct v) : Recorded Bool)
      next b) R := by
  refine (h.evaluateWithin hs hcovers node).bind fun v s₁ hs₁ _ => ?_
  have hboolean : Progresses shared assigned extended s₁
      (liftM (requireBoolean a construct v) : Recorded Bool) fun _ => True :=
    progresses_lift hs₁.governed (evolving_requireBoolean a construct v)
      (upholds_requireBoolean hs₁.governed.all a construct v)
  exact hboolean.bind fun b s₂ hs₂ _ => hnext b s₂ (hs₁.trans hs₂)

theorem evaluateBinary (h : t.Disciplined shared) (hs : Governed shared s.1.scopes)
    (operator : String) (left right : Node) (type : Option StaticType) :
    Progresses shared shared Nowhere s (t.evaluateNode a (.binary operator left right type))
      (Value.Shares shared) := by
  have hcondition {s'} (hs' : Governed shared s'.1.scopes) (node : Node) :
      Progresses shared shared Nowhere s' (do
        let v ← t.evaluate a node
        let b ← (liftM (requireBoolean a operator v) : Recorded Bool)
        pure (.boolean b)) (Value.Shares shared) :=
    h.evaluateCondition hs' (fun _ => id) operator node fun _ _ hs'' =>
      progresses_pure hs''.governed trivial
  unfold Steps.evaluateNode
  by_cases hand : conjunctions.contains operator
  · simp only [if_pos hand]
    refine h.evaluateCondition hs (fun _ => id) operator left fun b s₁ hs₁ => ?_
    cases b with
    | true => exact hcondition hs₁.governed right
    | false => exact progresses_pure hs₁.governed trivial
  by_cases hor : disjunctions.contains operator
  · simp only [if_neg hand, if_pos hor]
    refine h.evaluateCondition hs (fun _ => id) operator left fun b s₁ hs₁ => ?_
    cases b with
    | true => exact progresses_pure hs₁.governed trivial
    | false => exact hcondition hs₁.governed right
  simp only [if_neg hand, if_neg hor]
  refine (h.evaluate a left hs).bind fun l s₁ hs₁ _ => ?_
  refine (h.evaluate a right hs₁.governed).bind fun r s₂ hs₂ _ => ?_
  exact h.operate operator l r hs₂.governed

theorem evaluateNode (h : t.Disciplined shared) (hs : Governed shared s.1.scopes) (node : Node) :
    Progresses shared shared Nowhere s (t.evaluateNode a node) (Value.Shares shared) := by
  unfold Steps.evaluateNode
  split
  · next value _ => exact progresses_pure hs value.shares_toValue
  · next inner _ => exact h.evaluate a inner hs
  · next operator left right type => exact h.evaluateBinary hs operator left right type
  · next receiver name _ _ =>
    split
    · have hfind : Progresses shared shared Nowhere s
          (liftM (findVariable a.scope name) : Recorded (FrameId × Variable))
          fun found => found.2.value.Shares shared :=
        progresses_lift hs (evolving_findVariable a.scope name)
          (upholds_findVariable hs.all a.scope name)
      exact hfind.bind fun found s₁ hs₁ hv => progresses_pure hs₁.governed hv
    · refine (h.evaluate a receiver hs).bind fun v s₁ hs₁ hv => ?_
      split
      · next typeName members =>
        exact progresses_lift hs₁.governed (evolving_getField typeName members name)
          (upholds_getField hs₁.governed.all typeName members name)
      · exact progresses_throw hs₁.governed _
  · next receiver name arguments _ _ =>
    split
    · refine (h.evaluateAll a arguments hs).bind fun values s₁ hs₁ hvalues => ?_
      have hfind : Progresses shared shared Nowhere s₁
          (liftM (findFunction a.scope ⟨name, values.length⟩) : Recorded Function)
          (Function.Shares shared) :=
        progresses_lift hs₁.governed (evolving_findFunction a.scope _)
          (upholds_findFunction hs₁.governed.all a.scope _)
      exact hfind.bind fun f s₂ hs₂ hf => h.invoke a _ hs₂.governed hf hvalues
    · refine (h.evaluate a receiver hs).bind fun target s₁ hs₁ htarget => ?_
      refine (h.evaluateAll a arguments hs₁.governed).bind fun values s₂ hs₂ hvalues => ?_
      split
      · next typeName members =>
        have hfind : Progresses shared shared Nowhere s₂
            (liftM (findMethod typeName members name values.length) : Recorded Function)
            (Function.Shares shared) :=
          progresses_lift hs₂.governed (evolving_findMethod typeName members name values.length)
            (upholds_findMethod hs₂.governed.all typeName members name values.length)
        refine hfind.bind fun f s₃ hs₃ hf => h.invoke a _ hs₃.governed hf ?_
        exact List.forall_mem_cons.mpr ⟨htarget, hvalues⟩
      · exact progresses_throw hs₂.governed _
  · exact progresses_throw hs _

theorem evaluateNodes (h : t.Disciplined shared) (hs : Governed shared s.1.scopes)
    (nodes : List Node) :
    Progresses shared shared Nowhere s (t.evaluateNodes a nodes) fun vs =>
      ∀ v ∈ vs, v.Shares shared := by
  cases nodes with
  | nil => exact progresses_pure hs fun _ hv => absurd hv List.not_mem_nil
  | cons node rest =>
    refine (h.evaluate a node hs).bind fun v s₁ hs₁ hv => ?_
    refine (h.evaluateAll a rest hs₁.governed).bind fun vs s₂ hs₂ hvs => ?_
    exact progresses_pure hs₂.governed (List.forall_mem_cons.mpr ⟨hv, hvs⟩)

/-- A method runs in a frame of its own under a shared one, so it comes to no frame of its
caller. -/
theorem invokeFunction (h : t.Disciplined shared) (hs : Governed shared s.1.scopes)
    (signature : Signature) {f : Function} (hf : f.Shares shared) {values : List Value}
    (hvalues : ∀ v ∈ values, v.Shares shared) :
    Progresses shared shared Nowhere s (t.invokeFunction a signature f values)
      (Value.Shares shared) := by
  unfold Steps.invokeFunction
  split
  · exact progresses_throw hs _
  · split
    · next v =>
      refine (h.write v hs).bind fun line s₁ hs₁ _ => ?_
      have hprint : Progresses shared shared Nowhere s₁ (liftM (printLine line) : Recorded Unit)
          fun _ => True :=
        progresses_lift hs₁.governed (evolving_printLine line) ⟨hs₁.governed.all, trivial⟩
      exact hprint.bind fun _ s₂ hs₂ _ => progresses_pure hs₂.governed trivial
    · exact progresses_throw hs _
  · next home level name parameters statements hbody =>
    have hhome : shared home := hf home level name parameters statements hbody
    split
    · exact progresses_throw hs _
    · next calls _ =>
      refine progresses_newFrame hs (hs.closed.lt_next home hhome) fun s₁ hscopes hs₁ => ?_
      have hstands := Standing.newFrame (a := ⟨s.1.scopes.next, calls, level⟩) hs.closed
        (fun _ => id) hhome hscopes hs₁ rfl
      have hbind : Progresses shared (fun i => shared i ∨ i = s.1.scopes.next)
          (fun i => Nowhere i ∨ i = s.1.scopes.next) s₁
          (liftM (bindArguments s.1.scopes.next parameters values) : Recorded Unit) fun _ => True :=
        progresses_lift hs₁ (evolving_bindArguments parameters values (.inr rfl))
          (upholds_bindArguments hs₁.all _ parameters hvalues)
      refine hbind.bind fun _ s₂ hs₂ _ => ?_
      have hshows : Shows (do return "call " ++ name ++ "(" ++ (← texts values) ++ ")" : Run String) :=
        (shows_texts values).bind fun _ => shows_pure _
      refine (progresses_lift hs₂.governed (evolving_noteAt _ 3 hshows)
        (upholds_noteAt hs₂.governed.all _ 3 hshows)).bind fun _ s₃ hs₃ _ => ?_
      refine Progresses.bind (h.executeAll statements (hstands.after (hs₂.trans hs₃)) ?_)
        fun result s₄ hs₄ hresult => ?_
      · exact .inr rfl
      cases result with
      | none => exact progresses_pure hs₄.governed trivial
      | some v => exact progresses_pure hs₄.governed (hresult v rfl)
  · exact progresses_lift hs (evolving_lift _)
      (upholds_lift hs.all fun _ hv => shares_callHost hv hvalues)

/-- A block has a frame of its own, in which its declarations bind. -/
theorem executeInner (h : t.Disciplined shared) (hs : Standing shared assigned s a)
    (nodes : List Node) :
    Progresses shared assigned extended s (do
      let frame ← (liftM (newFrame (some a.scope)) : Recorded FrameId)
      t.executeAll (a.within frame) nodes) fun result => ∀ v ∈ result, v.Shares shared := by
  refine progresses_newFrame hs.governed hs.there fun s₁ hscopes hs₁ => ?_
  have hstands := Standing.newFrame (a := a.within s.1.scopes.next) hs.closed hs.covers hs.here
    hscopes hs₁ rfl
  exact h.executeAll nodes hstands (.inr rfl)

/-- A part of the header of a loop is executed unless it is left out. -/
theorem executeHeader (h : t.Disciplined shared) (hs : Standing shared assigned s a) {node : Node}
    (hnode : node.Declares → extended a.scope) {next : Recorded β}
    (hnext : ∀ s', Standing shared assigned s' a → Progresses shared assigned extended s' next R) :
    Progresses shared assigned extended s (if node.isAbsent then next else do
      let _ ← t.execute a node
      next) R := by
  split
  · exact hnext s hs
  · exact (h.execute node hs hnode).bind fun _ s₁ hs₁ _ => hnext s₁ (hs.after hs₁)

theorem executeRound (h : t.Disciplined shared) (hs : Standing shared assigned s a)
    (construct : String) (condition : Node) {increment : Node} (statements : List Node)
    (hincrement : increment.Declares → extended a.scope) :
    Progresses shared assigned extended s
      (t.executeRound a construct condition increment statements) fun result =>
        ∀ v ∈ result, v.Shares shared := by
  refine h.evaluateCondition hs.governed hs.covers construct condition fun b s₁ hs₁ => ?_
  have hnone : ∀ v ∈ (none : Option Value), v.Shares shared := by simp
  cases b with
  | false => exact progresses_pure hs₁.governed hnone
  | true =>
    simp only [if_pos]
    rw [← bind_assoc]
    refine (h.executeInner (hs.after hs₁) statements).bind fun result s₂ hs₂ hresult => ?_
    cases result with
    | some v => exact progresses_pure hs₂.governed hresult
    | none =>
      exact h.executeHeader (hs.after (hs₁.trans hs₂)) hincrement fun s₃ hs₃ =>
        h.executeLoop construct condition increment statements hs₃ hincrement

theorem executeAssign (h : t.Disciplined shared) (hs : Standing shared assigned s a)
    (receiver value : Node) :
    Progresses shared assigned extended s (t.executeNode a (.assign receiver value)) fun result =>
      ∀ v ∈ result, v.Shares shared := by
  have hnone : ∀ v ∈ (none : Option Value), v.Shares shared := by simp
  unfold Steps.executeNode
  dsimp only
  split
  · next object name _ _ =>
    refine (h.evaluateWithin hs.governed hs.covers value).bind fun v s₁ hs₁ hv => ?_
    have hs₁' := hs.after hs₁
    split
    · have hassign : Progresses shared assigned extended s₁
          (liftM (assignVariable a.scope name v) : Recorded Unit) fun _ => True :=
        progresses_lift hs₁.governed
          (evolving_assignVariable name v fun home _ hfound =>
            hs₁'.closed.nearest? hs₁'.here hfound)
          (upholds_assignVariable hs₁.governed.all a.scope name hv)
      exact hassign.bind fun _ s₂ hs₂ _ => progresses_pure hs₂.governed hnone
    · refine (h.evaluateWithin hs₁'.governed hs₁'.covers object).bind fun target s₂ hs₂ htarget => ?_
      split
      · next typeName members =>
        have hs₂' := hs₁'.after hs₂
        have hset : Progresses shared assigned extended s₂
            (liftM (setField typeName members name v) : Recorded Unit) fun _ => True :=
          progresses_lift hs₂.governed
            (evolving_setField typeName name v fun home _ hfound =>
              hs₂'.closed.nearest? (hs₂'.covers members htarget) hfound)
            (upholds_setField hs₂.governed.all typeName members name hv)
        exact hset.bind fun _ s₃ hs₃ _ => progresses_pure hs₃.governed hnone
      · refine (progresses_throw (Q := fun _ => True) hs₂.governed _).bind fun _ s₃ hs₃ _ => ?_
        exact progresses_pure hs₃.governed hnone
  · exact progresses_throw hs.governed _

theorem executeNode (h : t.Disciplined shared) (hs : Standing shared assigned s a) (node : Node)
    (hnode : node.Declares → extended a.scope) :
    Progresses shared assigned extended s (t.executeNode a node) fun result =>
      ∀ v ∈ result, v.Shares shared := by
  have hnone : ∀ v ∈ (none : Option Value), v.Shares shared := by simp
  unfold Steps.executeNode
  split
  · next expression =>
    exact (h.evaluateWithin hs.governed hs.covers expression).bind fun _ s₁ hs₁ _ =>
      progresses_pure hs₁.governed hnone
  · next name typeName value bound =>
    have hextended : extended a.scope := hnode ⟨_, _, _, _, rfl⟩
    refine Progresses.join (Q := Value.Shares shared) (fun _ => progresses_pure hs.governed trivial)
      (fun _ => h.evaluateWithin hs.governed hs.covers value) fun v s₁ hs₁ hv => ?_
    have hbind : Progresses shared assigned extended s₁
        (liftM (bindVariable a "declare" name ⟨false, v⟩) : Recorded Unit) fun _ => True :=
      progresses_lift hs₁.governed (evolving_bindVariable "declare" name _ hextended)
        (upholds_bindVariable hs₁.governed.all a "declare" name hv)
    exact hbind.bind fun _ s₂ hs₂ _ => progresses_pure hs₂.governed hnone
  · next receiver value => exact h.executeAssign hs receiver value
  · next condition thens elses =>
    refine h.evaluateCondition hs.governed hs.covers "if" condition fun b s₁ hs₁ => ?_
    cases b with
    | true => exact h.executeInner (hs.after hs₁) thens
    | false => exact h.executeInner (hs.after hs₁) elses
  · next initialization condition increment statements =>
    refine progresses_newFrame hs.governed hs.there fun s₁ hscopes hs₁ => ?_
    have hstands := Standing.newFrame (a := a.within s.1.scopes.next) hs.closed hs.covers hs.here
      hscopes hs₁ rfl
    exact h.executeHeader hstands (fun _ => .inr rfl) fun s₂ hs₂ =>
      h.executeLoop "for" condition increment statements hs₂ fun _ => .inr rfl
  · next condition statements =>
    refine h.executeLoop "while" condition .absent statements hs fun hdeclares => ?_
    obtain ⟨_, _, _, _, habsent⟩ := hdeclares
    cases habsent
  · next value =>
    refine (h.evaluateWithin hs.governed hs.covers value).bind fun v s₁ hs₁ hv => ?_
    refine progresses_pure hs₁.governed ?_
    rintro _ ⟨⟩
    exact hv
  · exact progresses_throw hs.governed _

theorem executeNodes (h : t.Disciplined shared) (hs : Standing shared assigned s a)
    (nodes : List Node) (hextended : extended a.scope) :
    Progresses shared assigned extended s (t.executeNodes a nodes) fun result =>
      ∀ v ∈ result, v.Shares shared := by
  cases nodes with
  | nil => exact progresses_pure hs.governed (by simp)
  | cons node rest =>
    refine (h.execute node hs fun _ => hextended).bind fun result s₁ hs₁ hresult => ?_
    cases result with
    | some v => exact progresses_pure hs₁.governed hresult
    | none => exact h.executeAll rest (hs.after hs₁) hextended

end Steps.Disciplined

section Steps

variable {shared assigned : FrameId → Prop}

theorem disciplined_giveUp : Steps.giveUp.Disciplined shared where
  evaluate _ _ hs := progresses_throw hs _
  evaluateAll _ _ hs := progresses_throw hs _
  operate _ _ _ hs := progresses_throw hs _
  write _ hs := progresses_throw hs _
  invoke _ _ _ _ hs _ _ := progresses_throw hs _
  execute _ hs _ := progresses_throw hs.governed _
  executeLoop _ _ _ _ hs _ := progresses_throw hs.governed _
  executeAll _ hs _ := progresses_throw hs.governed _

theorem disciplined_recordedSteps (shared : FrameId → Prop) (fuel : Nat) :
    (recordedSteps fuel).Disciplined shared := by
  induction fuel with
  | zero => exact disciplined_giveUp
  | succ fuel ih =>
    exact
      { evaluate := fun a node hs => progresses_around hs (fun _ => rfl) (fun _ _ => rfl)
          fun events => ih.evaluateNode (s := (_, events)) hs node
        evaluateAll := fun a nodes hs => ih.evaluateNodes hs nodes
        operate := fun operator l r hs => progresses_record hs (fun _ => rfl) fun _ =>
          progresses_lift hs (evolving_lift _) (upholds_lift hs.all fun _ => shares_applyBinary)
        write := fun v hs => progresses_record hs (fun _ => rfl) fun _ =>
          progresses_lift hs (shows_text v).evolving ((shows_text v).upholds hs.all)
        invoke := fun a signature f values hs hf hvalues =>
          progresses_around hs (fun _ => rfl) (fun _ _ => rfl) fun events =>
            ih.invokeFunction (s := (_, events)) hs signature hf hvalues
        execute := fun node hs hnode => progresses_around hs.governed (fun _ => rfl)
          (fun _ _ => rfl) fun events => ih.executeNode (s := (_, events))
            ⟨hs.governed, hs.closed, hs.covers, hs.here⟩ node hnode
        executeLoop := fun construct condition _ statements hs hincrement =>
          ih.executeRound hs construct condition statements hincrement
        executeAll := fun nodes hs hextended => ih.executeNodes hs nodes hextended }

end Steps

end BlockScript
