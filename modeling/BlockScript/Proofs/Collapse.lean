import BlockScript.Proofs.Scope
/-!
# Trees with frames put between others

A tree of frames may differ from another one by frames that bind nothing and only stand between a
frame and its parent. A map tells which frame of the first tree each frame of the second one stands
for; several may stand for the same one, but only the innermost of them, the main one, binds
anything. A look-up then finds the same from frames that stand for each other.
-/
namespace BlockScript

variable {V F α : Type} {τ : FrameId → FrameId} {main : FrameId → Prop}

/-- The frame binds what another one binds, and their parents stand for the same frame. -/
structure Frame.Covers (τ : FrameId → FrameId) (fr' fr : Frame V F) : Prop where
  parent : fr'.parent.map τ = fr.parent
  vars : fr'.boundVariables = fr.boundVariables
  funs : fr'.boundFunctions = fr.boundFunctions

/-- The frame binds nothing, and its parent stands for the frame `i` as it does itself. -/
structure Frame.Pads (τ : FrameId → FrameId) (i : FrameId) (fr' : Frame V F) : Prop where
  parent : ∃ p, fr'.parent = some p ∧ τ p = i
  vars : fr'.boundVariables = []
  funs : fr'.boundFunctions = []

namespace Scopes

/-- The frame `j` of the second tree stands for the frame `τ j` of the first one. For each there is
one main frame at most; frames that are made one after the other in both trees will be main. -/
structure Collapses (τ : FrameId → FrameId) (main : FrameId → Prop) (s w : Scopes V F) : Prop where
  fresh : ∀ k, main (w.next + k) ∧ τ (w.next + k) = s.next + k
  unique : ∀ {i j}, main i → main j → τ i = τ j → i = j
  frames : ∀ j fr', w.frames[j]? = some fr' →
    (main j ∧ ∃ fr, s.frames[τ j]? = some fr ∧ fr'.Covers τ fr) ∨ ¬main j ∧ fr'.Pads τ (τ j)

variable {s w : Scopes V F} {j p : FrameId}

/-- Each frame stands for itself. -/
theorem collapses_refl (s : Scopes V F) : s.Collapses id (fun _ => True) s where
  fresh _ := ⟨trivial, rfl⟩
  unique _ _ h := h
  frames j fr hfr := .inl ⟨trivial, fr, hfr, by simp, rfl, rfl⟩

namespace Collapses

theorem next_eq (h : s.Collapses τ main w) : τ w.next = s.next := (h.fresh 0).2

theorem le_of_next_le (h : s.Collapses τ main w) (hj : w.next ≤ j) : s.next ≤ τ j := by
  obtain ⟨k, rfl⟩ := Nat.exists_eq_add_of_le hj
  rw [(h.fresh k).2]
  exact Nat.le_add_right _ _

/-- A frame is there if and only if the one it stands for is there. -/
theorem lt_next_iff (h : s.Collapses τ main w) : τ j < s.next ↔ j < w.next := by
  refine ⟨fun hlt => ?_, fun hlt => ?_⟩
  · by_contra hle
    exact Nat.not_le.mpr hlt (h.le_of_next_le (Nat.le_of_not_lt hle))
  induction j using Nat.strongRecOn with
  | _ j ih =>
    obtain ⟨-, fr, hfr, -⟩ | ⟨-, hpads⟩ := h.frames j _ (Array.getElem?_eq_getElem hlt)
    · exact lt_next_of_getElem? hfr
    · obtain ⟨p, hp, heq⟩ := hpads.parent
      have hpj : p < j := parent_lt_of_getElem? (Array.getElem?_eq_getElem hlt) hp
      rw [← heq]
      exact ih p hpj (Nat.lt_trans hpj hlt)

/-- What is found from a frame is found from the one it stands for, and it is found in a main
frame. -/
theorem nearest? (h : s.Collapses τ main w)
    {pick : List (String × V) → List (Signature × F) → Option α} (hnone : pick [] [] = none)
    (j : FrameId) :
    Option.Rel (fun a b => main b.1 ∧ a.1 = τ b.1 ∧ a.2 = b.2)
      (s.nearest? (fun fr => pick fr.boundVariables fr.boundFunctions) (τ j))
      (w.nearest? (fun fr => pick fr.boundVariables fr.boundFunctions) j) := by
  induction j using Nat.strongRecOn with
  | _ j ih =>
    cases hw : w.frames[j]? with
    | none =>
      have hs : s.frames[τ j]? = none :=
        Array.getElem?_eq_none (h.le_of_next_le (Array.getElem?_eq_none_iff.mp hw))
      rw [nearest?_eq s, hs, nearest?_eq w, hw]
      exact .none
    | some fr' =>
      obtain ⟨hmain, fr, hfr, hcovers⟩ | ⟨-, hpads⟩ := h.frames j fr' hw
      · rw [nearest?_eq s, hfr, nearest?_eq w, hw]
        dsimp only
        rw [hcovers.vars, hcovers.funs]
        cases pick fr.boundVariables fr.boundFunctions with
        | some a => exact .some ⟨hmain, rfl, rfl⟩
        | none =>
          dsimp only
          rw [← hcovers.parent]
          cases hp : fr'.parent with
          | none => exact .none
          | some p => exact ih p (parent_lt_of_getElem? hw hp)
      · obtain ⟨p, hp, heq⟩ := hpads.parent
        rw [nearest?_eq w, hw]
        dsimp only
        rw [hpads.vars, hpads.funs, hnone, hp, ← heq]
        exact ih p (parent_lt_of_getElem? hw hp)

theorem findVariable? (h : s.Collapses τ main w) (j : FrameId) (name : String) :
    Option.Rel (fun a b => main b.1 ∧ a.1 = τ b.1 ∧ a.2 = b.2) (s.findVariable? (τ j) name)
      (w.findVariable? j name) :=
  @nearest? V F V τ main s w h (fun vars _ => vars.lookup name) rfl j

theorem findFunction? (h : s.Collapses τ main w) (j : FrameId) (signature : Signature) :
    Option.Rel (fun a b => main b.1 ∧ a.1 = τ b.1 ∧ a.2 = b.2) (s.findFunction? (τ j) signature)
      (w.findFunction? j signature) :=
  @nearest? V F F τ main s w h (fun _ funs => funs.lookup signature) rfl j

/-- A main frame binds the same variables as the one it stands for. -/
theorem bindsVariable (h : s.Collapses τ main w) (hj : main j) (name : String) :
    s.bindsVariable (τ j) name = w.bindsVariable j name := by
  unfold Scopes.bindsVariable
  cases hw : w.frames[j]? with
  | none =>
    have hs : s.frames[τ j]? = none :=
      Array.getElem?_eq_none (h.le_of_next_le (Array.getElem?_eq_none_iff.mp hw))
    rw [hs]
  | some fr' =>
    obtain ⟨-, fr, hfr, hcovers⟩ | ⟨hno, -⟩ := h.frames j fr' hw
    · rw [hfr, Option.any_some, Option.any_some, hcovers.vars]
    · exact absurd hj hno

/-- A frame is added to both trees, under frames that stand for each other. -/
theorem addFrame (h : s.Collapses τ main w) (parent : Option FrameId) :
    (s.addFrame (parent.map τ)).Collapses τ main (w.addFrame parent) where
  fresh k := by
    rw [next_addFrame, next_addFrame, Nat.add_assoc, Nat.add_assoc]
    exact h.fresh (1 + k)
  unique := h.unique
  frames j fr' hfr' := by
    rw [getElem?_addFrame] at hfr'
    split at hfr'
    · next hj =>
      cases hfr'
      have hmain : main j := hj ▸ (h.fresh 0).1
      refine .inl ⟨hmain, ⟨(parent.map τ).filter (· < s.next), [], []⟩, ?_, ?_, rfl, rfl⟩
      · rw [getElem?_addFrame, if_pos (by rw [hj, h.next_eq])]
      · cases parent with
        | none => rfl
        | some p => by_cases hp : p < w.next <;> simp [Option.filter, h.lt_next_iff, hp]
    · next hj =>
      refine (h.frames j fr' hfr').imp_left fun ⟨hmain, fr, hfr, hcovers⟩ => ⟨hmain, fr, ?_, hcovers⟩
      have hne : τ j ≠ s.next := by
        intro heq
        exact hj (h.unique hmain (h.fresh 0).1 (heq.trans h.next_eq.symm))
      rw [getElem?_addFrame, if_neg hne]
      exact hfr

/-- A main frame and the one it stands for are changed in the same way. -/
theorem update (h : s.Collapses τ main w) (hj : main j) {f : Frame V F → Frame V F}
    {hf : ∀ fr, (f fr).parent = fr.parent}
    (hcover : ∀ fr fr', fr'.Covers τ fr → (f fr').Covers τ (f fr)) :
    (s.update (τ j) f hf).Collapses τ main (w.update j f hf) where
  fresh k := by
    rw [next_update, next_update]
    exact h.fresh k
  unique := h.unique
  frames i fr' hfr' := by
    rw [getElem?_update] at hfr'
    split at hfr'
    · next hi =>
      subst hi
      obtain ⟨old, hold, rfl⟩ := Option.map_eq_some_iff.mp hfr'
      obtain ⟨-, fr, hfr, hcovers⟩ | ⟨hno, -⟩ := h.frames j old hold
      · exact .inl ⟨hj, f fr, by rw [getElem?_update, if_pos rfl, hfr]; rfl, hcover fr old hcovers⟩
      · exact absurd hj hno
    · next hi =>
      refine (h.frames i fr' hfr').imp_left fun ⟨hmain, fr, hfr, hcovers⟩ => ⟨hmain, fr, ?_, hcovers⟩
      rw [getElem?_update, if_neg fun heq => hi (h.unique hj hmain heq)]
      exact hfr

theorem addVariable (h : s.Collapses τ main w) (hj : main j) (name : String) (v : V) :
    (s.addVariable (τ j) name v).Collapses τ main (w.addVariable j name v) :=
  h.update hj fun _ _ hcovers =>
    ⟨hcovers.parent, congrArg (· ++ [(name, v)]) hcovers.vars, hcovers.funs⟩

theorem setVariable (h : s.Collapses τ main w) (hj : main j) (name : String) (v : V) :
    (s.setVariable (τ j) name v).Collapses τ main (w.setVariable j name v) :=
  h.update hj fun _ _ hcovers =>
    ⟨hcovers.parent, congrArg (rebind name v) hcovers.vars, hcovers.funs⟩

end Collapses

section Pads

/-- The map after a frame has been put under `p` that is the next one of the second tree. -/
def padded (τ : FrameId → FrameId) (next p j : Nat) : FrameId :=
  if j < next then τ j else if j = next then τ p else τ (j - 1)

def mainPadded (main : FrameId → Prop) (next j : Nat) : Prop :=
  j < next ∧ main j ∨ next < j

variable {next i k : Nat}

theorem padded_of_lt (hk : k < next) : padded τ next p k = τ k := if_pos hk

theorem padded_next : padded τ next p next = τ p := by
  rw [padded, if_neg (Nat.lt_irrefl _), if_pos rfl]

theorem padded_of_gt (hk : next < k) : padded τ next p k = τ (k - 1) := by
  rw [padded, if_neg (by omega), if_neg (by omega)]

/-- A frame that stands for the same as its parent is added to the second tree. -/
theorem Collapses.pad (h : s.Collapses τ main w) (hp : p < w.next) :
    s.Collapses (padded τ w.next p) (mainPadded main w.next) (w.addFrame (some p)) where
  fresh k := by
    rw [next_addFrame]
    have hgt : w.next < w.next + 1 + k := Nat.lt_add_right k (Nat.lt_succ_self _)
    refine ⟨.inr hgt, ?_⟩
    rw [padded_of_gt hgt, Nat.add_right_comm, Nat.add_sub_cancel]
    exact (h.fresh k).2
  unique {i j} hi hj heq := by
    -- Behind the new frame there is nothing yet, so those numbers stand for new ones of `s`.
    have hfar {k : Nat} (hk : w.next < k) : main (k - 1) ∧ s.next ≤ τ (k - 1) := by
      obtain ⟨n, hn⟩ := Nat.exists_eq_add_of_le (Nat.le_sub_one_of_lt hk)
      rw [hn]
      exact ⟨(h.fresh n).1, (h.fresh n).2 ▸ Nat.le_add_right _ _⟩
    obtain ⟨hlt, hi⟩ | hgt := hi <;> obtain ⟨hlt', hj⟩ | hgt' := hj
    · rw [padded_of_lt hlt, padded_of_lt hlt'] at heq
      exact h.unique hi hj heq
    · rw [padded_of_lt hlt, padded_of_gt hgt'] at heq
      exact absurd (heq ▸ h.lt_next_iff.mpr hlt) (Nat.not_lt.mpr (hfar hgt').2)
    · rw [padded_of_gt hgt, padded_of_lt hlt'] at heq
      exact absurd (heq ▸ h.lt_next_iff.mpr hlt') (Nat.not_lt.mpr (hfar hgt).2)
    · rw [padded_of_gt hgt, padded_of_gt hgt'] at heq
      have hsame := h.unique (hfar hgt).1 (hfar hgt').1 heq
      exact Nat.sub_one_cancel (Nat.zero_lt_of_lt hgt) (Nat.zero_lt_of_lt hgt') hsame
  frames j fr' hfr' := by
    rw [getElem?_addFrame] at hfr'
    split at hfr'
    · next hj =>
      cases hfr'
      have hno : ¬mainPadded main w.next j := by
        rintro (⟨hlt, -⟩ | hlt) <;> exact Nat.lt_irrefl _ (hj ▸ hlt)
      refine .inr ⟨hno, ⟨p, ?_, ?_⟩, rfl, rfl⟩
      · simp [Option.filter, hp]
      · rw [padded_of_lt hp, hj, padded_next]
    · have hlt : j < w.next := lt_next_of_getElem? hfr'
      have hparent : ∀ q ∈ fr'.parent, padded τ w.next p q = τ q := fun q hq =>
        padded_of_lt (Nat.lt_trans (parent_lt_of_getElem? hfr' hq) hlt)
      rw [padded_of_lt hlt]
      obtain ⟨hmain, fr, hfr, hcovers⟩ | ⟨hno, hpads⟩ := h.frames j fr' hfr'
      · refine .inl ⟨.inl ⟨hlt, hmain⟩, fr, hfr, ?_, hcovers.vars, hcovers.funs⟩
        rw [← hcovers.parent]
        exact Option.map_congr hparent
      · obtain ⟨q, hq, heq⟩ := hpads.parent
        refine .inr ⟨?_, ⟨q, hq, (hparent q hq).trans heq⟩, hpads.vars, hpads.funs⟩
        rintro (⟨-, hmain⟩ | hgt)
        · exact hno hmain
        · exact Nat.lt_asymm hlt hgt

end Pads

/-- The frames below `n` are main frames and stand for themselves. -/
structure Aligned (n : Nat) (τ : FrameId → FrameId) (main : FrameId → Prop) : Prop where
  fixes : ∀ i < n, τ i = i
  main : ∀ i < n, main i

theorem Aligned.pad {n next : Nat} (h : Aligned n τ main) (hn : n ≤ next) :
    Aligned n (padded τ next p) (mainPadded main next) where
  fixes i hi := (padded_of_lt (Nat.lt_of_lt_of_le hi hn)).trans (h.fixes i hi)
  main i hi := .inl ⟨Nat.lt_of_lt_of_le hi hn, h.main i hi⟩

/-- Such frames are the same in both trees. -/
theorem Collapses.getElem?_eq {n : Nat} (h : s.Collapses τ main w) (ha : Aligned n τ main)
    {i : Nat} (hi : i < n) : w.frames[i]? = s.frames[i]? := by
  cases hw : w.frames[i]? with
  | none =>
    have hle := h.le_of_next_le (Array.getElem?_eq_none_iff.mp hw)
    rw [ha.fixes i hi] at hle
    exact (Array.getElem?_eq_none hle).symm
  | some fr' =>
    obtain ⟨-, fr, hfr, hcovers⟩ | ⟨hno, -⟩ := h.frames i fr' hw
    · rw [ha.fixes i hi] at hfr
      have hparent : fr'.parent.map τ = fr'.parent := by
        refine (Option.map_congr fun p hp => ?_).trans Option.map_id'
        exact ha.fixes p (Nat.lt_trans (parent_lt_of_getElem? hw hp) hi)
      obtain ⟨parent, boundVariables, boundFunctions⟩ := fr'
      obtain ⟨rfl, rfl, rfl⟩ := (⟨hparent.symm.trans hcovers.parent, hcovers.vars, hcovers.funs⟩ :
        parent = fr.parent ∧ boundVariables = fr.boundVariables ∧ boundFunctions = fr.boundFunctions)
      exact hfr.symm
    · exact absurd (ha.main i hi) hno

end Scopes

end BlockScript
