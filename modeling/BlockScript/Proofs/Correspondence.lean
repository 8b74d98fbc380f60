import BlockScript.Proofs.Scope
import Mathlib.Data.List.Nodup
import Mathlib.Data.List.Perm.Basic
/-!
# Trees of frames that correspond

Two trees bind corresponding things in frames that may be numbered differently, and may keep what
they bind in another order. A name means corresponding things in corresponding frames, whatever
else the second tree has.
-/
namespace BlockScript

section Lookups

variable {K V W : Type} [BEq K] [LawfulBEq K] {l l' : List (K × V)}

theorem lookup_eq_some_iff (hl : (l.map Prod.fst).Nodup) {k : K} {v : V} :
    l.lookup k = some v ↔ (k, v) ∈ l := by
  refine ⟨mem_of_lookup, fun hmem => ?_⟩
  induction l with
  | nil => cases hmem
  | cons b l ih =>
    rw [List.map_cons, List.nodup_cons] at hl
    rw [List.lookup_cons]
    cases hmem with
    | head => rw [beq_self_eq_true]
    | tail _ hmem =>
      have hne : k ≠ b.1 := by
        intro heq
        exact hl.1 (heq ▸ List.mem_map_of_mem (f := Prod.fst) hmem)
      rw [beq_eq_false_iff_ne.mpr hne]
      exact ih hl.2 hmem

/-- The order does not matter where each key is bound once. -/
theorem lookup_perm (h : l.Perm l') (hl : (l.map Prod.fst).Nodup) (k : K) :
    l.lookup k = l'.lookup k := by
  have hl' : (l'.map Prod.fst).Nodup := (h.map Prod.fst).nodup_iff.mp hl
  ext v
  rw [lookup_eq_some_iff hl, lookup_eq_some_iff hl', h.mem_iff]

omit [LawfulBEq K] in
theorem lookup_map (f : V → W) (l : List (K × V)) (k : K) :
    (l.map fun b => (b.1, f b.2)).lookup k = (l.lookup k).map f := by
  induction l with
  | nil => rfl
  | cons b l ih =>
    rw [List.map_cons, List.lookup_cons, List.lookup_cons, ih]
    split <;> rfl

/-- Replacing what a name is bound to changes what it is bound to and nothing else. -/
theorem lookup_rebind (name : String) (v : V) (l : List (String × V)) (n : String) :
    (Scopes.rebind name v l).lookup n =
      if n = name then (l.lookup n).map fun _ => v else l.lookup n := by
  induction l with
  | nil => simp [Scopes.rebind]
  | cons b l ih =>
    obtain ⟨k, w⟩ := b
    rw [Scopes.rebind]
    by_cases hk : k = name
    · subst hk
      rw [if_pos (beq_self_eq_true k), List.lookup_cons, List.lookup_cons]
      by_cases hn : n = k
      · simp [hn]
      · simp [beq_eq_false_iff_ne.mpr hn, hn]
    · rw [if_neg (by simpa using hk), List.lookup_cons, List.lookup_cons, ih]
      by_cases hn : n = k
      · subst hn
        simp [hk]
      · simp [beq_eq_false_iff_ne.mpr hn]

end Lookups

section Correspondence

variable {V F V' F' V'' F'' α β : Type} {ρ τ : FrameId → FrameId} {R : V → V' → Prop}
  {Q : F → F' → Prop}

/-- The second frame binds what corresponds to what the first one binds, and its parent corresponds
to the parent of the first one. -/
structure Frame.Corresponds (ρ : FrameId → FrameId) (R : V → V' → Prop) (Q : F → F' → Prop)
    (fr : Frame V F) (fr' : Frame V' F') : Prop where
  parent : fr'.parent = fr.parent.map ρ
  vars : ∀ name, Option.Rel R (fr.boundVariables.lookup name) (fr'.boundVariables.lookup name)
  funs : ∀ signature,
    Option.Rel Q (fr.boundFunctions.lookup signature) (fr'.boundFunctions.lookup signature)

namespace Scopes

/-- The frame `i` of the first tree corresponds to the frame `ρ i` of the second one, and so it will
be for all frames that are made one after the other in both. -/
structure Corresponds (ρ : FrameId → FrameId) (R : V → V' → Prop) (Q : F → F' → Prop)
    (s : Scopes V F) (w : Scopes V' F') : Prop where
  injective : Function.Injective ρ
  fresh : ∀ k, ρ (s.next + k) = w.next + k
  frames : ∀ i, Option.Rel (Frame.Corresponds ρ R Q) s.frames[i]? w.frames[ρ i]?

variable {s : Scopes V F} {w : Scopes V' F'} {u : Scopes V'' F''}

theorem Corresponds.refl {R : V → V → Prop} {Q : F → F → Prop} (hR : ∀ v, R v v) (hQ : ∀ f, Q f f)
    (s : Scopes V F) : s.Corresponds id R Q s := by
  have hsame {γ : Type} {P : γ → γ → Prop} (hP : ∀ c, P c c) (x : Option γ) : Option.Rel P x x := by
    cases x with
    | none => exact .none
    | some c => exact .some (hP c)
  refine ⟨fun _ _ => id, fun _ => rfl, fun i => hsame (fun fr => ?_) _⟩
  exact ⟨by simp, fun _ => hsame hR _, fun _ => hsame hQ _⟩

theorem rel_trans {γ : Type} {P : α → β → Prop} {P' : β → γ → Prop} {P'' : α → γ → Prop}
    (hP : ∀ a b c, P a b → P' b c → P'' a c) {x : Option α} {y : Option β} {z : Option γ}
    (h : Option.Rel P x y) (h' : Option.Rel P' y z) : Option.Rel P'' x z := by
  cases h with
  | none =>
    cases h'
    exact .none
  | some hab =>
    cases h' with
    | some hbc => exact .some (hP _ _ _ hab hbc)

theorem Corresponds.trans {R' : V' → V'' → Prop} {Q' : F' → F'' → Prop} {R'' : V → V'' → Prop}
    {Q'' : F → F'' → Prop} (hR : ∀ v v' v'', R v v' → R' v' v'' → R'' v v'')
    (hQ : ∀ f f' f'', Q f f' → Q' f' f'' → Q'' f f'') (h : s.Corresponds ρ R Q w)
    (h' : w.Corresponds τ R' Q' u) : s.Corresponds (τ ∘ ρ) R'' Q'' u := by
  refine ⟨h'.injective.comp h.injective, fun k => ?_, fun i => ?_⟩
  · rw [Function.comp_apply, h.fresh, h'.fresh]
  · refine rel_trans (fun fr fr' fr'' hfr hfr' => ?_) (h.frames i) (h'.frames (ρ i))
    exact ⟨by rw [hfr'.parent, hfr.parent, Option.map_map],
      fun name => rel_trans hR (hfr.vars name) (hfr'.vars name),
      fun signature => rel_trans hQ (hfr.funs signature) (hfr'.funs signature)⟩

variable {i id : FrameId}

theorem Corresponds.lt_next_iff (h : s.Corresponds ρ R Q w) : ρ i < w.next ↔ i < s.next := by
  obtain ⟨hs, hw⟩ | ⟨fr, fr', hs, hw, -⟩ := rel_cases (h.frames i)
  · have hi : ¬i < s.next := Nat.not_lt.mpr (Array.getElem?_eq_none_iff.mp hs)
    have hρ : ¬ρ i < w.next := Nat.not_lt.mpr (Array.getElem?_eq_none_iff.mp hw)
    exact iff_of_false hρ hi
  · exact iff_of_true (lt_next_of_getElem? hw) (lt_next_of_getElem? hs)

theorem Corresponds.next_eq (h : s.Corresponds ρ R Q w) : ρ s.next = w.next := h.fresh 0

theorem Corresponds.nearest? {P : α → β → Prop} (h : s.Corresponds ρ R Q w)
    {pick : Frame V F → Option α} {pick' : Frame V' F' → Option β}
    (hpick : ∀ fr fr', fr.Corresponds ρ R Q fr' → Option.Rel P (pick fr) (pick' fr'))
    (i : FrameId) :
    Option.Rel (fun a b => b.1 = ρ a.1 ∧ P a.2 b.2) (s.nearest? pick i)
      (w.nearest? pick' (ρ i)) :=
  rel_nearest? h.frames (fun _ _ hrel => hrel.parent) hpick i

theorem Corresponds.findVariable? (h : s.Corresponds ρ R Q w) (i : FrameId) (name : String) :
    Option.Rel (fun a b => b.1 = ρ a.1 ∧ R a.2 b.2) (s.findVariable? i name)
      (w.findVariable? (ρ i) name) :=
  h.nearest? (fun _ _ hrel => hrel.vars name) i

theorem Corresponds.findFunction? (h : s.Corresponds ρ R Q w) (i : FrameId)
    (signature : Signature) :
    Option.Rel (fun a b => b.1 = ρ a.1 ∧ Q a.2 b.2) (s.findFunction? i signature)
      (w.findFunction? (ρ i) signature) :=
  h.nearest? (fun _ _ hrel => hrel.funs signature) i

theorem Corresponds.bindsVariable (h : s.Corresponds ρ R Q w) (i : FrameId) (name : String) :
    w.bindsVariable (ρ i) name = s.bindsVariable i name :=
  (any_eq_of_rel (h.frames i) fun _ _ hrel => isSome_eq_of_rel (hrel.vars name)).symm

theorem Corresponds.bindsFunction (h : s.Corresponds ρ R Q w) (i : FrameId)
    (signature : Signature) : w.bindsFunction (ρ i) signature = s.bindsFunction i signature :=
  (any_eq_of_rel (h.frames i) fun _ _ hrel => isSome_eq_of_rel (hrel.funs signature)).symm

theorem Corresponds.addFrame (h : s.Corresponds ρ R Q w) (parent : Option FrameId) :
    (s.addFrame parent).Corresponds ρ R Q (w.addFrame (parent.map ρ)) := by
  refine ⟨h.injective, fun k => ?_, fun i => ?_⟩
  · have hk := h.fresh (1 + k)
    rwa [next_addFrame, next_addFrame, Nat.add_assoc, Nat.add_assoc]
  rw [getElem?_addFrame, getElem?_addFrame]
  by_cases hi : i = s.next
  · rw [if_pos hi, if_pos (by rw [hi, h.next_eq])]
    refine .some ⟨?_, fun _ => .none, fun _ => .none⟩
    cases parent with
    | none => rfl
    | some p => by_cases hp : p < s.next <;> simp [Option.filter, h.lt_next_iff, hp]
  · have hρ : ρ i ≠ w.next := by
      rw [← h.next_eq]
      exact fun heq => hi (h.injective heq)
    rw [if_neg hi, if_neg hρ]
    exact h.frames i

theorem Corresponds.update (h : s.Corresponds ρ R Q w) {f : Frame V F → Frame V F}
    {g : Frame V' F' → Frame V' F'} {hf : ∀ fr, (f fr).parent = fr.parent}
    {hg : ∀ fr, (g fr).parent = fr.parent}
    (hfg : ∀ fr fr', fr.Corresponds ρ R Q fr' → (f fr).Corresponds ρ R Q (g fr')) :
    (s.update id f hf).Corresponds ρ R Q (w.update (ρ id) g hg) := by
  refine ⟨h.injective, fun k => ?_, fun i => ?_⟩
  · rw [next_update, next_update, h.fresh]
  rw [getElem?_update, getElem?_update]
  by_cases hi : id = i
  · rw [if_pos hi, if_pos (by rw [hi])]
    obtain ⟨hs, hw⟩ | ⟨fr, fr', hs, hw, hrel⟩ := rel_cases (h.frames i) <;> rw [hs, hw]
    · exact .none
    · exact .some (hfg fr fr' hrel)
  · rw [if_neg hi, if_neg fun heq => hi (h.injective heq)]
    exact h.frames i

theorem rel_append {K A B : Type} [BEq K] {P : A → B → Prop} {l more : List (K × A)}
    {l' more' : List (K × B)} {k : K} (h : Option.Rel P (l.lookup k) (l'.lookup k))
    (h' : Option.Rel P (more.lookup k) (more'.lookup k)) :
    Option.Rel P ((l ++ more).lookup k) ((l' ++ more').lookup k) := by
  rw [List.lookup_append, List.lookup_append]
  obtain ⟨hl, hl'⟩ | ⟨a, b, hl, hl', hab⟩ := rel_cases h <;> rw [hl, hl']
  · exact h'
  · exact .some hab

theorem rel_singleton {K A B : Type} [BEq K] {P : A → B → Prop} {a : A} {b : B} (hab : P a b)
    (k k' : K) : Option.Rel P ([(k', a)].lookup k) ([(k', b)].lookup k) := by
  rw [List.lookup_cons, List.lookup_cons]
  split
  · exact .some hab
  · exact .none

theorem Corresponds.addVariable (h : s.Corresponds ρ R Q w) (id : FrameId) (name : String) {v : V}
    {v' : V'} (hv : R v v') :
    (s.addVariable id name v).Corresponds ρ R Q (w.addVariable (ρ id) name v') :=
  h.update fun _ _ hrel =>
    ⟨hrel.parent, fun n => rel_append (hrel.vars n) (rel_singleton hv n name), hrel.funs⟩

theorem Corresponds.addFunction (h : s.Corresponds ρ R Q w) (id : FrameId) (signature : Signature)
    {f : F} {f' : F'} (hf : Q f f') :
    (s.addFunction id signature f).Corresponds ρ R Q (w.addFunction (ρ id) signature f') :=
  h.update fun _ _ hrel =>
    ⟨hrel.parent, hrel.vars, fun n => rel_append (hrel.funs n) (rel_singleton hf n signature)⟩

theorem Corresponds.setVariable (h : s.Corresponds ρ R Q w) (id : FrameId) (name : String) {v : V}
    {v' : V'} (hv : R v v') :
    (s.setVariable id name v).Corresponds ρ R Q (w.setVariable (ρ id) name v') := by
  refine h.update fun fr fr' hrel => ⟨hrel.parent, fun n => ?_, hrel.funs⟩
  dsimp only
  rw [lookup_rebind, lookup_rebind]
  split
  · obtain ⟨hl, hl'⟩ | ⟨_, _, hl, hl', -⟩ := rel_cases (hrel.vars n) <;> rw [hl, hl']
    · exact .none
    · exact .some hv
  · exact hrel.vars n

end Scopes

end Correspondence

namespace Scopes

section Functions

variable {V F : Type} {s : Scopes V F} {id : FrameId}

def addFunctions (s : Scopes V F) (id : FrameId) (bound : List (Signature × F)) : Scopes V F :=
  s.update id (fun frame => { frame with boundFunctions := frame.boundFunctions ++ bound })
    fun _ => rfl

def Admits (s : Scopes V F) (id : FrameId) (signatures : List Signature) : Prop :=
  signatures.Nodup ∧ ∀ signature ∈ signatures, s.bindsFunction id signature = false

theorem ext_frames {s s' : Scopes V F} (h : ∀ i : FrameId, s.frames[i]? = s'.frames[i]?) :
    s = s' := by
  obtain ⟨frames, hs⟩ := s
  obtain ⟨frames', hs'⟩ := s'
  obtain rfl : frames = frames' := Array.ext_getElem? h
  rfl

theorem addFunctions_nil (s : Scopes V F) (id : FrameId) : s.addFunctions id [] = s := by
  refine ext_frames fun i => ?_
  rw [addFunctions, getElem?_update]
  split <;> simp

theorem addFunctions_cons (s : Scopes V F) (id : FrameId) (b : Signature × F)
    (bound : List (Signature × F)) :
    s.addFunctions id (b :: bound) = (s.addFunction id b.1 b.2).addFunctions id bound := by
  refine ext_frames fun i => ?_
  rw [addFunctions, addFunctions, addFunction]
  simp only [getElem?_update]
  split
  · cases s.frames[i]? <;> simp
  · rfl

theorem All.addFunctions {P : FrameId → String → V → Prop} {Q : Signature → F → Prop}
    (h : All P Q s) {bound : List (Signature × F)} (hbound : ∀ b ∈ bound, Q b.1 b.2) :
    All P Q (s.addFunctions id bound) := by
  induction bound generalizing s with
  | nil => rwa [addFunctions_nil]
  | cons b bound ih =>
    obtain ⟨hb, hrest⟩ := List.forall_mem_cons.mp hbound
    rw [addFunctions_cons]
    exact ih (h.addFunction id hb) hrest

theorem bindsFunction_addFunction (hid : id < s.next) (signature signature' : Signature) (f : F) :
    (s.addFunction id signature f).bindsFunction id signature' =
      (s.bindsFunction id signature' || signature' == signature) := by
  have hfr : s.frames[id]? = some s.frames[id] := Array.getElem?_eq_getElem hid
  unfold bindsFunction addFunction
  rw [getElem?_update, if_pos rfl, hfr, Option.map_some, Option.any_some, Option.any_some,
    List.lookup_append, Option.isSome_or, List.lookup_cons]
  split <;> simp_all

theorem admits_cons (hid : id < s.next) (signature : Signature) (f : F)
    (signatures : List Signature) :
    s.Admits id (signature :: signatures) ↔ s.bindsFunction id signature = false ∧
      (s.addFunction id signature f).Admits id signatures := by
  unfold Admits
  simp only [List.nodup_cons, List.forall_mem_cons, bindsFunction_addFunction hid,
    Bool.or_eq_false_iff, beq_eq_false_iff_ne]
  constructor
  · rintro ⟨⟨hnot, hnodup⟩, hfree, hrest⟩
    exact ⟨hfree, hnodup, fun other hother =>
      ⟨hrest other hother, fun heq => hnot (heq ▸ hother)⟩⟩
  · rintro ⟨hfree, hnodup, hrest⟩
    exact ⟨⟨fun hmem => (hrest signature hmem).2 rfl, hnodup⟩, hfree, fun other hother =>
      (hrest other hother).1⟩

theorem Admits.perm {signatures signatures' : List Signature} (h : s.Admits id signatures)
    (hperm : signatures.Perm signatures') : s.Admits id signatures' :=
  ⟨hperm.nodup_iff.mp h.1, fun signature hmem => h.2 signature (hperm.mem_iff.mpr hmem)⟩

theorem Corresponds.addFunctions {V' F' : Type} {ρ : FrameId → FrameId} {R : V → V' → Prop}
    {Q : F → F' → Prop} {w : Scopes V' F'} (h : s.Corresponds ρ R Q w) (id : FrameId)
    {bound : List (Signature × F)} {bound' : List (Signature × F')}
    (hbound : ∀ signature, Option.Rel Q (bound.lookup signature) (bound'.lookup signature)) :
    (s.addFunctions id bound).Corresponds ρ R Q (w.addFunctions (ρ id) bound') :=
  h.update fun _ _ hrel =>
    ⟨hrel.parent, hrel.vars, fun signature => rel_append (hrel.funs signature) (hbound signature)⟩

end Functions

end Scopes

end BlockScript
