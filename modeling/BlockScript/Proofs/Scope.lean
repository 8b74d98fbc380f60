import BlockScript.Scope
import Mathlib.Data.List.Forall2
import Mathlib.Data.Option.Basic
/-!
# Frames, chains of frames and related scopes

What is bound along the way from a frame to the root, and two ways to compare trees of frames: one
tree keeps or extends the other, or both have the same shape with related things bound in them.
-/
namespace BlockScript

/-- What the frames on a way to the root bind, from the innermost frame outwards. -/
abbrev View (V F : Type) := List (List (String × V) × List (Signature × F))

namespace View

variable {V F : Type}

def findVariable (Γ : View V F) (name : String) : Option V := Γ.findSome? fun fr => fr.1.lookup name

def findFunction (Γ : View V F) (signature : Signature) : Option F :=
  Γ.findSome? fun fr => fr.2.lookup signature

end View

theorem lookup_of_isPrefix {K V : Type} [BEq K] {l l' : List (K × V)} {k : K} {v : V}
    (hp : l <+: l') (h : l.lookup k = some v) : l'.lookup k = some v := by
  obtain ⟨more, rfl⟩ := hp
  rw [List.lookup_append, h]
  rfl

theorem mem_of_lookup {K V : Type} [BEq K] [LawfulBEq K] {l : List (K × V)} {k : K} {v : V}
    (h : l.lookup k = some v) : (k, v) ∈ l := by
  induction l with
  | nil => cases h
  | cons b l ih =>
    obtain ⟨n, w⟩ := b
    rw [List.lookup_cons] at h
    split at h
    · next hk =>
      cases h
      rw [eq_of_beq hk]
      exact List.mem_cons_self
    · exact List.mem_cons_of_mem _ (ih h)

namespace Scopes

variable {V F V' F' α β : Type} {s s' s'' : Scopes V F} {w w' : Scopes V' F'} {i id p : FrameId}
  {fr : Frame V F}

theorem parent_lt_of_getElem? (h : s.frames[id]? = some fr) (hp : fr.parent = some p) : p < id := by
  obtain ⟨hlt, rfl⟩ := Array.getElem?_eq_some_iff.mp h
  exact s.parent_lt id hlt p hp

theorem lt_next_of_getElem? (h : s.frames[id]? = some fr) : id < s.next :=
  (Array.getElem?_eq_some_iff.mp h).1

theorem nearest?_eq (s : Scopes V F) (pick : Frame V F → Option α) (id : FrameId) :
    s.nearest? pick id = match s.frames[id]? with
      | none => none
      | some fr =>
        match pick fr with
        | some a => some (id, a)
        | none =>
          match fr.parent with
          | some p => s.nearest? pick p
          | none => none := by
  rw [nearest?]
  by_cases h : id < s.frames.size
  · rw [dif_pos h, Array.getElem?_eq_getElem h]
    dsimp only
    cases pick s.frames[id] with
    | some a => rfl
    | none =>
      dsimp only
      split <;> simp_all
  · rw [dif_neg h, Array.getElem?_eq_none (Nat.le_of_not_lt h)]

@[simp] theorem getElem?_addFrame (s : Scopes V F) (parent : Option FrameId) (i : FrameId) :
    (s.addFrame parent).frames[i]? =
      if i = s.next then some ⟨parent.filter (· < s.next), [], []⟩ else s.frames[i]? := by
  simp only [addFrame, Array.getElem?_push, next]
  rfl

@[simp] theorem next_addFrame (s : Scopes V F) (parent : Option FrameId) :
    (s.addFrame parent).next = s.next + 1 := by
  simp [next, addFrame]

@[simp] theorem getElem?_update (s : Scopes V F) (id : FrameId) (f : Frame V F → Frame V F)
    (keeps : ∀ frame, (f frame).parent = frame.parent) (i : FrameId) :
    (s.update id f keeps).frames[i]? =
      if id = i then s.frames[i]?.map f else s.frames[i]? := by
  simp only [update, Array.getElem?_modify]

@[simp] theorem next_update (s : Scopes V F) (id : FrameId) (f : Frame V F → Frame V F)
    (keeps : ∀ frame, (f frame).parent = frame.parent) : (s.update id f keeps).next = s.next := by
  simp [next, update]

def Binds (s : Scopes V F) (home : FrameId) (name : String) (v : V) : Prop :=
  ∃ fr, s.frames[home]? = some fr ∧ fr.boundVariables.lookup name = some v

def BindsFunction (s : Scopes V F) (home : FrameId) (signature : Signature) (f : F) : Prop :=
  ∃ fr, s.frames[home]? = some fr ∧ fr.boundFunctions.lookup signature = some f

theorem bindsVariable_iff {name : String} :
    s.bindsVariable id name = true ↔ ∃ v, s.Binds id name v := by
  unfold Scopes.bindsVariable Binds
  cases s.frames[id]? with
  | none => simp
  | some fr => simp [Option.isSome_iff_exists]

section Growth

def Keeps (s s' : Scopes V F) : Prop :=
  ∀ (i : FrameId) (fr : Frame V F), s.frames[i]? = some fr → s'.frames[i]? = some fr

def KeepsBut (id : FrameId) (s s' : Scopes V F) : Prop :=
  ∀ (i : FrameId) (fr : Frame V F), s.frames[i]? = some fr → i ≠ id → s'.frames[i]? = some fr

/-- Frames keep their parents and what they bind; they may bind more, and there may be more
frames. -/
def Grows (s s' : Scopes V F) : Prop :=
  ∀ (i : FrameId) (fr : Frame V F), s.frames[i]? = some fr →
    ∃ fr' : Frame V F, s'.frames[i]? = some fr' ∧ fr'.parent = fr.parent ∧
      fr.boundVariables <+: fr'.boundVariables ∧ fr.boundFunctions <+: fr'.boundFunctions

theorem Keeps.refl (s : Scopes V F) : s.Keeps s := fun _ _ h => h

theorem Keeps.trans (h : s.Keeps s') (h' : s'.Keeps s'') : s.Keeps s'' :=
  fun i fr hi => h' i fr (h i fr hi)

theorem Keeps.keepsBut (h : s.Keeps s') : KeepsBut id s s' := fun i fr hi _ => h i fr hi

theorem KeepsBut.refl (s : Scopes V F) : KeepsBut id s s := fun _ _ h _ => h

theorem KeepsBut.trans (h : KeepsBut id s s') (h' : KeepsBut id s' s'') : KeepsBut id s s'' :=
  fun i fr hi hne => h' i fr (h i fr hi hne) hne

/-- A change of a frame that was not there before changes no frame that was. -/
theorem KeepsBut.keeps_of_next (h : KeepsBut id s s') (hid : s.next ≤ id) : s.Keeps s' := by
  intro i fr hi
  have hlt := lt_next_of_getElem? hi
  exact h i fr hi (Nat.ne_of_lt (Nat.lt_of_lt_of_le hlt hid))

theorem Keeps.grows (h : s.Keeps s') : s.Grows s' :=
  fun i fr hi => ⟨fr, h i fr hi, rfl, List.prefix_rfl, List.prefix_rfl⟩

theorem Grows.refl (s : Scopes V F) : s.Grows s := (Keeps.refl s).grows

theorem Grows.trans (h : s.Grows s') (h' : s'.Grows s'') : s.Grows s'' := by
  intro i fr hi
  obtain ⟨fr', hi', hp, hv, hf⟩ := h i fr hi
  obtain ⟨fr'', hi'', hp', hv', hf'⟩ := h' i fr' hi'
  exact ⟨fr'', hi'', hp'.trans hp, hv.trans hv', hf.trans hf'⟩

theorem Grows.binds (h : s.Grows s') {home : FrameId} {name : String} {v : V}
    (hb : s.Binds home name v) : s'.Binds home name v := by
  obtain ⟨fr, hfr, hv⟩ := hb
  obtain ⟨fr', hfr', -, hvars, -⟩ := h home fr hfr
  exact ⟨fr', hfr', lookup_of_isPrefix hvars hv⟩

theorem keeps_addFrame (s : Scopes V F) (parent : Option FrameId) : s.Keeps (s.addFrame parent) := by
  intro i fr hi
  have hlt := lt_next_of_getElem? hi
  rw [getElem?_addFrame, if_neg (Nat.ne_of_lt hlt)]
  exact hi

theorem keepsBut_update (s : Scopes V F) (id : FrameId) (f : Frame V F → Frame V F)
    (keeps : ∀ frame, (f frame).parent = frame.parent) : KeepsBut id s (s.update id f keeps) := by
  intro i fr hi hne
  rw [getElem?_update, if_neg (Ne.symm hne)]
  exact hi

theorem keepsBut_addVariable (s : Scopes V F) (id : FrameId) (name : String) (v : V) :
    KeepsBut id s (s.addVariable id name v) := by
  unfold addVariable
  exact keepsBut_update s id _ _

theorem grows_addVariable (s : Scopes V F) (id : FrameId) (name : String) (v : V) :
    s.Grows (s.addVariable id name v) := by
  intro i fr hi
  unfold addVariable
  by_cases h : id = i
  · refine ⟨{ fr with boundVariables := fr.boundVariables ++ [(name, v)] }, ?_, rfl,
      List.prefix_append _ _, List.prefix_rfl⟩
    rw [getElem?_update, if_pos h, hi]
    rfl
  · exact ⟨fr, by rw [getElem?_update, if_neg h, hi], rfl, List.prefix_rfl, List.prefix_rfl⟩

theorem grows_addFunction (s : Scopes V F) (id : FrameId) (signature : Signature) (f : F) :
    s.Grows (s.addFunction id signature f) := by
  intro i fr hi
  unfold addFunction
  by_cases h : id = i
  · refine ⟨{ fr with boundFunctions := fr.boundFunctions ++ [(signature, f)] }, ?_, rfl,
      List.prefix_rfl, List.prefix_append _ _⟩
    rw [getElem?_update, if_pos h, hi]
    rfl
  · exact ⟨fr, by rw [getElem?_update, if_neg h, hi], rfl, List.prefix_rfl, List.prefix_rfl⟩

end Growth

section All

/-- All variables that frames bind are as `P` says, and all functions as `Q` says. -/
structure All (P : FrameId → String → V → Prop) (Q : Signature → F → Prop) (s : Scopes V F) :
    Prop where
  vars : ∀ (i : FrameId) (fr : Frame V F), s.frames[i]? = some fr →
    ∀ b ∈ fr.boundVariables, P i b.1 b.2
  funs : ∀ (i : FrameId) (fr : Frame V F), s.frames[i]? = some fr →
    ∀ b ∈ fr.boundFunctions, Q b.1 b.2

variable {P : FrameId → String → V → Prop} {Q : Signature → F → Prop}

theorem all_empty : All P Q empty := by
  constructor <;> intro i fr hfr <;> simp [empty] at hfr

theorem All.mono {P' : FrameId → String → V → Prop} {Q' : Signature → F → Prop} (h : All P Q s)
    (hP : ∀ i name v, P i name v → P' i name v) (hQ : ∀ signature f, Q signature f → Q' signature f) :
    All P' Q' s where
  vars i fr hfr b hb := hP i b.1 b.2 (h.vars i fr hfr b hb)
  funs i fr hfr b hb := hQ b.1 b.2 (h.funs i fr hfr b hb)

theorem All.addFrame (h : All P Q s) (parent : Option FrameId) : All P Q (s.addFrame parent) := by
  constructor <;> intro i fr hfr b hb <;> rw [getElem?_addFrame] at hfr <;> split at hfr
  · cases hfr
    cases hb
  · exact h.vars i fr hfr b hb
  · cases hfr
    cases hb
  · exact h.funs i fr hfr b hb

theorem All.addVariable (h : All P Q s) {name : String} {v : V} (hv : P id name v) :
    All P Q (s.addVariable id name v) := by
  constructor <;> intro i fr hfr b hb <;> unfold Scopes.addVariable at hfr <;>
    rw [getElem?_update] at hfr <;> split at hfr
  · next hi =>
    obtain ⟨old, hold, rfl⟩ := Option.map_eq_some_iff.mp hfr
    rcases List.mem_append.mp hb with hb | hb
    · exact h.vars i old hold b hb
    · cases List.mem_singleton.mp hb
      exact hi ▸ hv
  · exact h.vars i fr hfr b hb
  · obtain ⟨old, hold, rfl⟩ := Option.map_eq_some_iff.mp hfr
    exact h.funs i old hold b hb
  · exact h.funs i fr hfr b hb

theorem All.addFunction (h : All P Q s) (id : FrameId) {signature : Signature} {f : F}
    (hf : Q signature f) : All P Q (s.addFunction id signature f) := by
  constructor <;> intro i fr hfr b hb <;> unfold Scopes.addFunction at hfr <;>
    rw [getElem?_update] at hfr <;> split at hfr
  · obtain ⟨old, hold, rfl⟩ := Option.map_eq_some_iff.mp hfr
    exact h.vars i old hold b hb
  · exact h.vars i fr hfr b hb
  · obtain ⟨old, hold, rfl⟩ := Option.map_eq_some_iff.mp hfr
    rcases List.mem_append.mp hb with hb | hb
    · exact h.funs i old hold b hb
    · cases List.mem_singleton.mp hb
      exact hf
  · exact h.funs i fr hfr b hb

theorem mem_rebind {name : String} {v : V} {l : List (String × V)} {b : String × V}
    (hb : b ∈ rebind name v l) : b ∈ l ∨ b = (name, v) := by
  induction l with
  | nil => cases hb
  | cons c l ih =>
    obtain ⟨n, w⟩ := c
    simp only [rebind] at hb
    split at hb
    · next hn =>
      rcases List.mem_cons.mp hb with rfl | hb
      · exact .inr (by rw [eq_of_beq hn])
      · exact .inl (List.mem_cons_of_mem _ hb)
    · rcases List.mem_cons.mp hb with rfl | hb
      · exact .inl List.mem_cons_self
      · exact (ih hb).imp_left (List.mem_cons_of_mem _)

theorem All.setVariable (h : All P Q s) {name : String} {v : V} (hv : P id name v) :
    All P Q (s.setVariable id name v) := by
  constructor <;> intro i fr hfr b hb <;> unfold Scopes.setVariable at hfr <;>
    rw [getElem?_update] at hfr <;> split at hfr
  · next hi =>
    obtain ⟨old, hold, rfl⟩ := Option.map_eq_some_iff.mp hfr
    rcases mem_rebind hb with hb | rfl
    · exact h.vars i old hold b hb
    · exact hi ▸ hv
  · exact h.vars i fr hfr b hb
  · obtain ⟨old, hold, rfl⟩ := Option.map_eq_some_iff.mp hfr
    exact h.funs i old hold b hb
  · exact h.funs i fr hfr b hb

/-- The frame in which something is found picks it. -/
theorem nearest?_eq_some {pick : Frame V F → Option α} {a : α} {home : FrameId}
    (h : s.nearest? pick id = some (home, a)) :
    ∃ fr, s.frames[home]? = some fr ∧ pick fr = some a := by
  induction id using Nat.strongRecOn with
  | _ id ih =>
    rw [nearest?_eq] at h
    split at h
    · cases h
    · next fr hfr =>
      split at h
      · next b hb =>
        cases h
        exact ⟨fr, hfr, hb⟩
      · split at h
        · next p hp => exact ih p (parent_lt_of_getElem? hfr hp) h
        · cases h

theorem All.of_findVariable? (h : All P Q s) {home : FrameId} {name : String} {v : V}
    (hf : s.findVariable? id name = some (home, v)) : P home name v := by
  obtain ⟨fr, hfr, hv⟩ := nearest?_eq_some hf
  exact h.vars home fr hfr _ (mem_of_lookup hv)

theorem All.of_findFunction? (h : All P Q s) {home : FrameId} {signature : Signature} {f : F}
    (hf : s.findFunction? id signature = some (home, f)) : Q signature f := by
  obtain ⟨fr, hfr, hv⟩ := nearest?_eq_some hf
  exact h.funs home fr hfr _ (mem_of_lookup hv)

end All

section Views

/-- From the frame `id` one sees what the frames on the way to the root bind. -/
inductive Sees (s : Scopes V F) : FrameId → View V F → Prop where
  | root {id : FrameId} {fr : Frame V F} (frame : s.frames[id]? = some fr)
      (top : fr.parent = none) : Sees s id [(fr.boundVariables, fr.boundFunctions)]
  | child {id p : FrameId} {fr : Frame V F} {Γ : View V F} (frame : s.frames[id]? = some fr)
      (under : fr.parent = some p) (outer : Sees s p Γ) :
      Sees s id ((fr.boundVariables, fr.boundFunctions) :: Γ)

variable {Γ : View V F}

theorem Sees.lt_next (h : s.Sees id Γ) : id < s.next := by
  cases h with
  | root frame => exact lt_next_of_getElem? frame
  | child frame => exact lt_next_of_getElem? frame

theorem Sees.findVariable? (h : s.Sees id Γ) (name : String) :
    (s.findVariable? id name).map Prod.snd = Γ.findVariable name := by
  induction h with
  | root frame top =>
    unfold Scopes.findVariable? View.findVariable
    rw [nearest?_eq, frame]
    dsimp only
    cases h : List.lookup name _ <;> simp [List.findSome?, h, top]
  | child frame under outer ih =>
    unfold Scopes.findVariable? View.findVariable at *
    rw [nearest?_eq, frame]
    dsimp only
    cases h : List.lookup name _ <;> simp [List.findSome?, h, under, ih]

theorem Sees.findFunction? (h : s.Sees id Γ) (signature : Signature) :
    (s.findFunction? id signature).map Prod.snd = Γ.findFunction signature := by
  induction h with
  | root frame top =>
    unfold Scopes.findFunction? View.findFunction
    rw [nearest?_eq, frame]
    dsimp only
    cases h : List.lookup signature _ <;> simp [List.findSome?, h, top]
  | child frame under outer ih =>
    unfold Scopes.findFunction? View.findFunction at *
    rw [nearest?_eq, frame]
    dsimp only
    cases h : List.lookup signature _ <;> simp [List.findSome?, h, under, ih]

theorem Sees.keeps (h : s.Sees id Γ) (hk : s.Keeps s') : s'.Sees id Γ := by
  induction h with
  | root frame top => exact .root (hk _ _ frame) top
  | child frame under outer ih => exact .child (hk _ _ frame) under ih

/-- A change of a frame is not seen from the frames above it. -/
theorem Sees.keepsBut_of_lt (h : s.Sees p Γ) (hk : KeepsBut id s s') (hlt : p < id) :
    s'.Sees p Γ := by
  induction h with
  | root frame top => exact .root (hk _ _ frame (Nat.ne_of_lt hlt)) top
  | child frame under outer ih =>
    have hp := parent_lt_of_getElem? frame under
    exact .child (hk _ _ frame (Nat.ne_of_lt hlt)) under (ih (Nat.lt_trans hp hlt))

theorem Sees.addFrame (h : s.Sees p Γ) : (s.addFrame (some p)).Sees s.next (([], []) :: Γ) := by
  have hframe : (s.addFrame (some p)).frames[s.next]? = some ⟨some p, [], []⟩ := by
    simp [Option.filter, h.lt_next]
  exact .child hframe rfl (h.keeps (keeps_addFrame s _))

/-- A change of the innermost frame is seen there, and all the others are seen as before. -/
theorem Sees.update {top : List (String × V) × List (Signature × F)} {f : Frame V F → Frame V F}
    {keeps : ∀ fr, (f fr).parent = fr.parent} (h : s.Sees id (top :: Γ)) :
    ∃ fr, (fr.boundVariables, fr.boundFunctions) = top ∧
      (s.update id f keeps).Sees id (((f fr).boundVariables, (f fr).boundFunctions) :: Γ) := by
  have hk : KeepsBut id s (s.update id f keeps) := keepsBut_update s id f keeps
  have hupdate : ∀ fr, s.frames[id]? = some fr →
      (s.update id f keeps).frames[id]? = some (f fr) := by
    intro fr hfr
    rw [getElem?_update, if_pos rfl, hfr]
    rfl
  cases h with
  | @root _ fr frame above => exact ⟨fr, rfl, .root (hupdate fr frame) ((keeps fr).trans above)⟩
  | @child _ p fr _ frame under outer =>
    exact ⟨fr, rfl, .child (hupdate fr frame) ((keeps fr).trans under)
      (outer.keepsBut_of_lt hk (parent_lt_of_getElem? frame under))⟩

theorem Sees.addVariable {vars : List (String × V)} {funs : List (Signature × F)}
    (h : s.Sees id ((vars, funs) :: Γ)) (name : String) (v : V) :
    (s.addVariable id name v).Sees id ((vars ++ [(name, v)], funs) :: Γ) := by
  obtain ⟨fr, hfr, hsees⟩ := h.update
  cases hfr
  exact hsees

theorem Sees.addFunction {vars : List (String × V)} {funs : List (Signature × F)}
    (h : s.Sees id ((vars, funs) :: Γ)) (signature : Signature) (f : F) :
    (s.addFunction id signature f).Sees id ((vars, funs ++ [(signature, f)]) :: Γ) := by
  obtain ⟨fr, hfr, hsees⟩ := h.update
  cases hfr
  exact hsees

theorem Sees.boundVariables_eq {vars : List (String × V)} {funs : List (Signature × F)}
    (h : s.Sees id ((vars, funs) :: Γ)) (hfr : s.frames[id]? = some fr) :
    fr.boundVariables = vars := by
  cases h with
  | root frame top => rw [Option.some.inj (hfr.symm.trans frame)]
  | child frame under outer => rw [Option.some.inj (hfr.symm.trans frame)]

theorem Sees.binds {vars : List (String × V)} {funs : List (Signature × F)}
    (h : s.Sees id ((vars, funs) :: Γ)) {name : String} {v : V} (hv : vars.lookup name = some v) :
    s.Binds id name v := by
  cases h with
  | root frame top => exact ⟨_, frame, hv⟩
  | child frame under outer => exact ⟨_, frame, hv⟩

theorem Sees.bindsFunction_of_lookup {vars : List (String × V)} {funs : List (Signature × F)}
    (h : s.Sees id ((vars, funs) :: Γ)) {signature : Signature} {f : F}
    (hf : funs.lookup signature = some f) : s.BindsFunction id signature f := by
  cases h with
  | root frame top => exact ⟨_, frame, hf⟩
  | child frame under outer => exact ⟨_, frame, hf⟩

/-- What the innermost frame itself binds decides whether a variable may be added. -/
theorem Sees.bindsVariable {vars : List (String × V)} {funs : List (Signature × F)}
    (h : s.Sees id ((vars, funs) :: Γ)) (name : String) :
    s.bindsVariable id name = (vars.lookup name).isSome := by
  cases h with
  | root frame top => simp [Scopes.bindsVariable, frame]
  | child frame under outer => simp [Scopes.bindsVariable, frame]

theorem Sees.bindsFunction {vars : List (String × V)} {funs : List (Signature × F)}
    (h : s.Sees id ((vars, funs) :: Γ)) (signature : Signature) :
    s.bindsFunction id signature = (funs.lookup signature).isSome := by
  cases h with
  | root frame top => simp [Scopes.bindsFunction, frame]
  | child frame under outer => simp [Scopes.bindsFunction, frame]

end Views

end Scopes

namespace Scopes

section Children

variable {V F : Type} {s s' : Scopes V F} {id p : FrameId}

def children (s : Scopes V F) (id : FrameId) : List FrameId :=
  (List.range s.next).filter fun i => (s.frames[i]?.bind Frame.parent) == some id

/-- A single frame has no children. -/
theorem children_eq_nil (h : s.next ≤ 1) : s.children 0 = [] := by
  rw [children, List.filter_eq_nil_iff]
  intro i hi
  cases hfr : s.frames[i]? with
  | none => simp
  | some fr =>
    have hzero : i = 0 := Nat.lt_one_iff.mp (Nat.lt_of_lt_of_le (List.mem_range.mp hi) h)
    cases hparent : fr.parent with
    | none => simp [hparent]
    | some p => exact absurd (hzero ▸ parent_lt_of_getElem? hfr hparent) (Nat.not_lt_zero p)

theorem Grows.next_le (h : s.Grows s') : s.next ≤ s'.next := by
  by_contra hlt
  obtain ⟨fr, hfr, -⟩ := h s'.next _ (Array.getElem?_eq_getElem (Nat.lt_of_not_le hlt))
  exact Nat.lt_irrefl _ (lt_next_of_getElem? hfr)

theorem Grows.parent_eq (h : s.Grows s') {i : FrameId} (hi : i < s.next) :
    s'.frames[i]?.bind Frame.parent = s.frames[i]?.bind Frame.parent := by
  have hfr : s.frames[i]? = some s.frames[i] := Array.getElem?_eq_getElem hi
  obtain ⟨fr', hfr', hparent, -⟩ := h i _ hfr
  rw [hfr, hfr']
  exact hparent

/-- Frames that are added come after the children that a frame has. -/
theorem Grows.children_eq (h : s.Grows s') (id : FrameId) :
    s'.children id = s.children id ++
      ((List.range (s'.next - s.next)).map (s.next + ·)).filter
        fun i => (s'.frames[i]?.bind Frame.parent) == some id := by
  have hnext : s'.next = s.next + (s'.next - s.next) := (Nat.add_sub_of_le h.next_le).symm
  unfold children
  rw [congrArg List.range hnext, List.range_add, List.filter_append]
  congr 1
  refine List.filter_congr fun i hi => ?_
  rw [h.parent_eq (List.mem_range.mp hi)]

theorem Grows.children (h : s.Grows s') (id : FrameId) : s.children id <+: s'.children id := by
  rw [h.children_eq id]
  exact List.prefix_append _ _

theorem children_addFrame (hp : p < s.next) :
    (s.addFrame (some p)).children p = s.children p ++ [s.next] := by
  rw [(keeps_addFrame s (some p)).grows.children_eq p]
  simp [Option.filter, hp]

/-- Frames that are added further down are no children. -/
theorem Grows.children_of_above (h : s.Grows s')
    (above : ∀ (i : FrameId) (fr : Frame V F), s'.frames[i]? = some fr → s.next ≤ i →
      ∃ q, fr.parent = some q ∧ p ≤ q) (hlt : id < p) : s'.children id = s.children id := by
  rw [h.children_eq id, List.append_right_eq_self, List.filter_eq_nil_iff]
  intro i hi
  obtain ⟨k, -, rfl⟩ := List.mem_map.mp hi
  cases hfr : s'.frames[s.next + k]? with
  | none => simp
  | some fr =>
    obtain ⟨q, hq, hle⟩ := above _ fr hfr (Nat.le_add_right _ _)
    have hne : q ≠ id := Nat.ne_of_gt (Nat.lt_of_lt_of_le hlt hle)
    simp [hq, hne]

end Children

section Under

variable {V F V' F' : Type} {s s' : Scopes V F} {top id p : FrameId}

/-- The way from the frame to the root passes `top`. -/
inductive Under (s : Scopes V F) (top : FrameId) : FrameId → Prop where
  | top : Under s top top
  | child {id p : FrameId} {fr : Frame V F} (frame : s.frames[id]? = some fr)
      (parent : fr.parent = some p) (above : Under s top p) : Under s top id

theorem Under.grows (h : s.Under top id) (hg : s.Grows s') : s'.Under top id := by
  induction h with
  | top => exact .top
  | child frame parent _ ih =>
    obtain ⟨fr', hfr', hparent, -⟩ := hg _ _ frame
    exact .child hfr' (hparent.trans parent) ih

theorem nearest?_root {α : Type} {pick : Frame V F → Option α} {home : FrameId} {a : α}
    (h : s.nearest? pick 0 = some (home, a)) : home = 0 := by
  rw [nearest?_eq] at h
  split at h
  · cases h
  · next fr hfr =>
    split at h
    · cases h
      rfl
    · split at h
      · next p hp => exact absurd (parent_lt_of_getElem? hfr hp) (Nat.not_lt_zero p)
      · cases h

/-- What is found from a frame under `top`, which is right under the root, is found in the root or
under `top` as well. -/
theorem Under.nearest? {α : Type} {pick : Frame V F → Option α} {home : FrameId} {a : α}
    {fr : Frame V F} (h : s.Under top id) (htop : s.frames[top]? = some fr)
    (hroot : fr.parent = some 0) (hfound : s.nearest? pick id = some (home, a)) :
    home = 0 ∨ s.Under top home := by
  induction h with
  | top =>
    rw [nearest?_eq, htop] at hfound
    dsimp only at hfound
    split at hfound
    · cases hfound
      exact .inr .top
    · rw [hroot] at hfound
      exact .inl (nearest?_root hfound)
  | child frame parent above ih =>
    rw [nearest?_eq, frame] at hfound
    dsimp only at hfound
    split at hfound
    · cases hfound
      exact .inr (.child frame parent above)
    · rw [parent] at hfound
      exact ih hfound

end Under

end Scopes

section Related

variable {K V F V' F' : Type} {R R' : V → V' → Prop} {Q Q' : F → F' → Prop}

theorem rel_cases {α β : Type} {P : α → β → Prop} {x : Option α} {y : Option β}
    (h : Option.Rel P x y) :
    x = none ∧ y = none ∨ ∃ a b, x = some a ∧ y = some b ∧ P a b := by
  cases h with
  | some hab => exact .inr ⟨_, _, rfl, rfl, hab⟩
  | none => exact .inl ⟨rfl, rfl⟩

theorem isSome_eq_of_rel {α β : Type} {P : α → β → Prop} {x : Option α} {y : Option β}
    (h : Option.Rel P x y) : x.isSome = y.isSome := by
  cases h <;> rfl

theorem any_eq_of_rel {α β : Type} {P : α → β → Prop} {x : Option α} {y : Option β}
    (h : Option.Rel P x y) {p : α → Bool} {q : β → Bool} (hpq : ∀ a b, P a b → p a = q b) :
    x.any p = y.any q := by
  cases h with
  | some hab => exact hpq _ _ hab
  | none => rfl

def BoundRelated (R : V → V' → Prop) (l : List (K × V)) (l' : List (K × V')) : Prop :=
  List.Forall₂ (fun b c => b.1 = c.1 ∧ R b.2 c.2) l l'

theorem BoundRelated.refl {R : V → V → Prop} (hR : ∀ v, R v v) (l : List (K × V)) :
    BoundRelated R l l := List.forall₂_same.mpr fun b _ => ⟨rfl, hR b.2⟩

theorem BoundRelated.mono {l : List (K × V)} {l' : List (K × V')} (h : BoundRelated R l l')
    (hR : ∀ v v', R v v' → R' v v') : BoundRelated R' l l' :=
  List.Forall₂.imp (fun _ _ hb => ⟨hb.1, hR _ _ hb.2⟩) h

theorem BoundRelated.append {l : List (K × V)} {l' : List (K × V')} (h : BoundRelated R l l')
    (k : K) {v : V} {v' : V'} (hv : R v v') : BoundRelated R (l ++ [(k, v)]) (l' ++ [(k, v')]) := by
  refine List.rel_append h ?_
  exact .cons ⟨rfl, hv⟩ .nil

theorem BoundRelated.lookup [BEq K] {l : List (K × V)} {l' : List (K × V')}
    (h : BoundRelated R l l') (k : K) : Option.Rel R (l.lookup k) (l'.lookup k) := by
  induction h with
  | nil => exact .none
  | @cons b c l l' hb _ ih =>
    obtain ⟨n, v⟩ := b
    obtain ⟨n', v'⟩ := c
    obtain ⟨rfl, hv⟩ := hb
    simp only [List.lookup_cons]
    cases k == n with
    | true => exact .some hv
    | false => exact ih

theorem BoundRelated.rebind {l : List (String × V)} {l' : List (String × V')}
    (h : BoundRelated R l l') {name : String} {v : V} {v' : V'} (hl : l'.lookup name = some v')
    (hv : R v v') : BoundRelated R (Scopes.rebind name v l) l' := by
  induction h with
  | nil => cases hl
  | @cons b c l l' hb hrest ih =>
    obtain ⟨n, w⟩ := b
    obtain ⟨n', w'⟩ := c
    obtain ⟨rfl, hw⟩ := hb
    simp only [Scopes.rebind]
    by_cases hn : n = name
    · subst hn
      simp only [List.lookup_cons, beq_self_eq_true, Option.some.injEq] at hl
      subst hl
      simp only [beq_self_eq_true, if_true]
      exact .cons ⟨rfl, hv⟩ hrest
    · have hno : (name == n) = false := by simpa using Ne.symm hn
      have hno' : (n == name) = false := by simpa using hn
      simp only [List.lookup_cons, hno] at hl
      simp only [hno', Bool.false_eq_true, if_false]
      exact .cons ⟨rfl, hw⟩ (ih hl)

structure Frame.Related (R : V → V' → Prop) (Q : F → F' → Prop) (fr : Frame V F)
    (fr' : Frame V' F') : Prop where
  parent : fr.parent = fr'.parent
  vars : BoundRelated R fr.boundVariables fr'.boundVariables
  funs : BoundRelated Q fr.boundFunctions fr'.boundFunctions

namespace Scopes

variable {s : Scopes V F} {w : Scopes V' F'} {id : FrameId}

/-- The trees have the same frames, which bind related things. -/
def Related (R : V → V' → Prop) (Q : F → F' → Prop) (s : Scopes V F) (w : Scopes V' F') : Prop :=
  ∀ i : FrameId, Option.Rel (Frame.Related R Q) s.frames[i]? w.frames[i]?

theorem Related.mono (h : s.Related R Q w) (hR : ∀ v v', R v v' → R' v v')
    (hQ : ∀ f f', Q f f' → Q' f f') : s.Related R' Q' w := by
  intro i
  obtain ⟨hs, hw⟩ | ⟨fr, fr', hs, hw, hrel⟩ := rel_cases (h i)
  · rw [hs, hw]
    exact .none
  · rw [hs, hw]
    exact .some ⟨hrel.parent, hrel.vars.mono hR, hrel.funs.mono hQ⟩

theorem Related.getElem? (h : s.Related R Q w) {fr : Frame V F} (hfr : s.frames[id]? = some fr) :
    ∃ fr', w.frames[id]? = some fr' ∧ fr.Related R Q fr' := by
  obtain ⟨hs, -⟩ | ⟨fr₁, fr', hs, hw, hrel⟩ := rel_cases (h id)
  · cases hs.symm.trans hfr
  · obtain rfl := Option.some.inj (hs.symm.trans hfr)
    exact ⟨fr', hw, hrel⟩

theorem Related.getElem?' (h : s.Related R Q w) {fr' : Frame V' F'}
    (hfr : w.frames[id]? = some fr') : ∃ fr, s.frames[id]? = some fr ∧ fr.Related R Q fr' := by
  obtain ⟨-, hw⟩ | ⟨fr, fr₁, hs, hw, hrel⟩ := rel_cases (h id)
  · cases hw.symm.trans hfr
  · obtain rfl := Option.some.inj (hw.symm.trans hfr)
    exact ⟨fr, hs, hrel⟩

theorem Related.next_eq (h : s.Related R Q w) : s.next = w.next := by
  have hle : ∀ i, i < s.next ↔ i < w.next := by
    intro i
    constructor
    · intro hi
      obtain ⟨fr', hfr', -⟩ := h.getElem? (Array.getElem?_eq_getElem hi)
      exact lt_next_of_getElem? hfr'
    · intro hi
      obtain ⟨fr, hfr, -⟩ := h.getElem?' (Array.getElem?_eq_getElem hi)
      exact lt_next_of_getElem? hfr
  exact Nat.le_antisymm (Nat.le_of_not_lt fun hlt => Nat.lt_irrefl _ ((hle _).mp hlt))
    (Nat.le_of_not_lt fun hlt => Nat.lt_irrefl _ ((hle _).mpr hlt))

theorem Related.under (h : s.Related R Q w) {top : FrameId} (hw : w.Under top id) :
    s.Under top id := by
  induction hw with
  | top => exact .top
  | child frame parent _ ih =>
    obtain ⟨fr, hfr, hrel⟩ := h.getElem?' frame
    exact .child hfr (hrel.parent.trans parent) ih

theorem related_empty : (Scopes.empty : Scopes V F).Related R Q (Scopes.empty : Scopes V' F') := by
  intro i
  simp only [Scopes.empty, List.getElem?_toArray, List.getElem?_nil]
  exact .none

theorem Related.addFrame (h : s.Related R Q w) (parent : Option FrameId) :
    (s.addFrame parent).Related R Q (w.addFrame parent) := by
  intro i
  rw [getElem?_addFrame, getElem?_addFrame, h.next_eq]
  split
  · exact .some ⟨rfl, .nil, .nil⟩
  · exact h i

theorem Related.update (h : s.Related R Q w) {f : Frame V F → Frame V F}
    {g : Frame V' F' → Frame V' F'} {hf : ∀ fr, (f fr).parent = fr.parent}
    {hg : ∀ fr, (g fr).parent = fr.parent}
    (hfg : ∀ fr fr', fr.Related R Q fr' → (f fr).Related R Q (g fr')) :
    (s.update id f hf).Related R Q (w.update id g hg) := by
  intro i
  rw [getElem?_update, getElem?_update]
  obtain ⟨hs, hw⟩ | ⟨fr, fr', hs, hw, hrel⟩ := rel_cases (h i)
  · rw [hs, hw]
    split <;> exact .none
  · rw [hs, hw]
    split
    · exact .some (hfg fr fr' hrel)
    · exact .some hrel

theorem Related.addVariable (h : s.Related R Q w) (id : FrameId) (name : String) {v : V} {v' : V'}
    (hv : R v v') : (s.addVariable id name v).Related R Q (w.addVariable id name v') :=
  h.update fun _ _ hrel => ⟨hrel.parent, hrel.vars.append name hv, hrel.funs⟩

theorem Related.addFunction (h : s.Related R Q w) (id : FrameId) (signature : Signature) {f : F}
    {f' : F'} (hf : Q f f') :
    (s.addFunction id signature f).Related R Q (w.addFunction id signature f') :=
  h.update fun _ _ hrel => ⟨hrel.parent, hrel.vars, hrel.funs.append signature hf⟩

/-- Giving a variable another value keeps the trees related if the value is as it should be. -/
theorem Related.setVariable (h : s.Related R Q w) {name : String} {v : V} {v' : V'}
    (hw : ∀ fr', w.frames[id]? = some fr' → fr'.boundVariables.lookup name = some v')
    (hv : R v v') : (s.setVariable id name v).Related R Q w := by
  intro i
  unfold Scopes.setVariable
  rw [getElem?_update]
  by_cases hi : id = i
  · subst hi
    rw [if_pos rfl]
    obtain ⟨hs, hwnone⟩ | ⟨fr, fr', hs, hw', hrel⟩ := rel_cases (h id)
    · rw [hs, hwnone]
      exact .none
    · rw [hs, hw']
      exact .some ⟨hrel.parent, hrel.vars.rebind (hw fr' hw') hv, hrel.funs⟩
  · rw [if_neg hi]
    exact h i

/-- What is found on the way up corresponds if the frames do, one by one, under other numbers. -/
theorem rel_nearest? {α β : Type} {P : α → β → Prop} {ρ : FrameId → FrameId}
    {E : Frame V F → Frame V' F' → Prop}
    (h : ∀ i : FrameId, Option.Rel E s.frames[i]? w.frames[ρ i]?)
    (hparent : ∀ fr fr', E fr fr' → fr'.parent = fr.parent.map ρ)
    {pick : Frame V F → Option α} {pick' : Frame V' F' → Option β}
    (hpick : ∀ fr fr', E fr fr' → Option.Rel P (pick fr) (pick' fr')) (id : FrameId) :
    Option.Rel (fun a b => b.1 = ρ a.1 ∧ P a.2 b.2) (s.nearest? pick id)
      (w.nearest? pick' (ρ id)) := by
  -- A parent has a smaller number than its children, so the way up is by strong induction.
  induction id using Nat.strongRecOn with
  | _ id ih =>
    rw [nearest?_eq, nearest?_eq]
    obtain ⟨hs, hw⟩ | ⟨fr, fr', hs, hw, hrel⟩ := rel_cases (h id)
    · rw [hs, hw]
      exact .none
    rw [hs, hw]
    dsimp only
    obtain ⟨ha, hb⟩ | ⟨a, b, ha, hb, hab⟩ := rel_cases (hpick fr fr' hrel)
    · rw [ha, hb, hparent fr fr' hrel]
      dsimp only
      cases hup : fr.parent with
      | none => exact .none
      | some p => exact ih p (parent_lt_of_getElem? hs hup)
    · rw [ha, hb]
      exact .some ⟨rfl, hab⟩

theorem Related.nearest? {α β : Type} {P : α → β → Prop} (h : s.Related R Q w)
    {pick : Frame V F → Option α} {pick' : Frame V' F' → Option β}
    (hpick : ∀ fr fr', fr.Related R Q fr' → Option.Rel P (pick fr) (pick' fr')) (id : FrameId) :
    Option.Rel (fun a b => a.1 = b.1 ∧ P a.2 b.2) (s.nearest? pick id) (w.nearest? pick' id) := by
  have hparent (fr : Frame V F) (fr' : Frame V' F') (hrel : fr.Related R Q fr') :
      fr'.parent = fr.parent.map (fun p => p) := by rw [hrel.parent, Option.map_id']
  obtain ⟨ha, hb⟩ | ⟨a, b, ha, hb, hsame, hab⟩ :=
    rel_cases (rel_nearest? (ρ := fun i => i) h hparent hpick id) <;> rw [ha, hb]
  · exact .none
  · exact .some ⟨hsame.symm, hab⟩

theorem Related.findVariable? (h : s.Related R Q w) (id : FrameId) (name : String) :
    Option.Rel (fun a b => a.1 = b.1 ∧ R a.2 b.2) (s.findVariable? id name)
      (w.findVariable? id name) :=
  h.nearest? (fun _ _ hrel => hrel.vars.lookup name) id

theorem Related.findFunction? (h : s.Related R Q w) (id : FrameId) (signature : Signature) :
    Option.Rel (fun a b => a.1 = b.1 ∧ Q a.2 b.2) (s.findFunction? id signature)
      (w.findFunction? id signature) :=
  h.nearest? (fun _ _ hrel => hrel.funs.lookup signature) id

theorem Related.bindsVariable (h : s.Related R Q w) (id : FrameId) (name : String) :
    s.bindsVariable id name = w.bindsVariable id name :=
  any_eq_of_rel (h id) fun _ _ hrel => isSome_eq_of_rel (hrel.vars.lookup name)

theorem Related.bindsFunction (h : s.Related R Q w) (id : FrameId) (signature : Signature) :
    s.bindsFunction id signature = w.bindsFunction id signature :=
  any_eq_of_rel (h id) fun _ _ hrel => isSome_eq_of_rel (hrel.funs.lookup signature)

end Scopes

end Related

end BlockScript
