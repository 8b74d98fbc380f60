import BlockScript.Evaluation.Program
import BlockScript.Proofs.Evaluation.Trace
import BlockScript.Proofs.Scope
/-!
# How scopes evolve

What the operations of a run do to the frames that are there before. A frame keeps its parent and
what it binds, in the same order; a variable may hold another value if it is no constant. Two sets
of frames say where variables may be assigned and where something may be added.
-/
namespace BlockScript

open Run

structure Variable.Becomes (v w : Variable) : Prop where
  constant : w.constant = v.constant
  value : v.constant = true → w.value = v.value

theorem Variable.Becomes.refl (v : Variable) : v.Becomes v := ⟨rfl, fun _ => rfl⟩

theorem Variable.Becomes.trans {u v w : Variable} (h : u.Becomes v) (h' : v.Becomes w) :
    u.Becomes w :=
  ⟨h'.constant.trans h.constant, fun hu => (h'.value (h.constant.trans hu)).trans (h.value hu)⟩

/-- A constant stays the same. -/
theorem Variable.Becomes.eq {v w : Variable} (h : v.Becomes w) (hv : v.constant = true) : w = v := by
  obtain ⟨constant, value⟩ := w
  obtain ⟨rfl, hvalue⟩ := h
  dsimp only at hvalue
  rw [hvalue hv]

/-- What may become of a frame, if its variables may be assigned, or if something may be added. -/
structure Frame.Evolves (assigned extended : Prop) (fr fr' : Frame Variable Function) : Prop where
  parent : fr'.parent = fr.parent
  vars : ∃ kept, kept <+: fr'.boundVariables ∧
    BoundRelated (fun v w => v.Becomes w ∧ (¬assigned → w = v)) fr.boundVariables kept
  funs : fr.boundFunctions <+: fr'.boundFunctions
  full : ¬extended → fr'.boundVariables.length = fr.boundVariables.length ∧
    fr'.boundFunctions.length = fr.boundFunctions.length

theorem BoundRelated.trans {K V : Type} {R : V → V → Prop} (hR : ∀ u v w, R u v → R v w → R u w)
    {l l' l'' : List (K × V)} (h : BoundRelated R l l') (h' : BoundRelated R l' l'') :
    BoundRelated R l l'' := by
  induction h generalizing l'' with
  | nil =>
    cases h'
    exact .nil
  | cons hb _ ih =>
    cases h' with
    | cons hc hrest => exact .cons ⟨hb.1.trans hc.1, hR _ _ _ hb.2 hc.2⟩ (ih hrest)

theorem BoundRelated.names_eq {K V V' : Type} {R : V → V' → Prop} {l : List (K × V)}
    {l' : List (K × V')} (h : BoundRelated R l l') : l'.map Prod.fst = l.map Prod.fst := by
  induction h with
  | nil => rfl
  | cons hb _ ih => rw [List.map_cons, List.map_cons, ih, hb.1]

theorem BoundRelated.eq {K V : Type} {l l' : List (K × V)}
    (h : BoundRelated (fun v w => w = v) l l') : l' = l := by
  induction h with
  | nil => rfl
  | cons hb _ ih => rw [ih, Prod.ext hb.1 hb.2.symm]

theorem boundRelated_same (assigned : Prop) (l : List (String × Variable)) :
    BoundRelated (fun v w => v.Becomes w ∧ (¬assigned → w = v)) l l :=
  .refl (fun v => ⟨.refl v, fun _ => rfl⟩) l

namespace Frame

variable {assigned extended assigned' extended' : Prop} {fr fr' fr'' : Frame Variable Function}

theorem Evolves.refl (assigned extended : Prop) (fr : Frame Variable Function) :
    fr.Evolves assigned extended fr where
  parent := rfl
  vars := ⟨fr.boundVariables, List.prefix_rfl, boundRelated_same _ _⟩
  funs := List.prefix_rfl
  full _ := ⟨rfl, rfl⟩

theorem Evolves.mono (h : fr.Evolves assigned extended fr') (ha : assigned → assigned')
    (he : extended → extended') : fr.Evolves assigned' extended' fr' where
  parent := h.parent
  vars := by
    obtain ⟨kept, hkept, hrel⟩ := h.vars
    exact ⟨kept, hkept, hrel.mono fun v w hvw => ⟨hvw.1, fun hno => hvw.2 (mt ha hno)⟩⟩
  funs := h.funs
  full hno := h.full (mt he hno)

theorem Evolves.trans (h : fr.Evolves assigned extended fr')
    (h' : fr'.Evolves assigned extended fr'') : fr.Evolves assigned extended fr'' where
  parent := h'.parent.trans h.parent
  vars := by
    obtain ⟨kept, ⟨more, hmore⟩, hrel⟩ := h.vars
    obtain ⟨kept', hkept', hrel'⟩ := h'.vars
    -- What became of the kept variables comes first in what became of all.
    have hfirst : BoundRelated (fun v w => v.Becomes w ∧ (¬assigned → w = v)) kept
        (kept'.take kept.length) := by
      have htake := List.forall₂_take kept.length hrel'
      rw [← hmore, List.take_left] at htake
      exact htake
    refine ⟨kept'.take kept.length, (List.take_prefix _ _).trans hkept', ?_⟩
    exact hrel.trans (fun u v w huv hvw => ⟨huv.1.trans hvw.1, fun hno =>
      (hvw.2 hno).trans (huv.2 hno)⟩) hfirst
  funs := h.funs.trans h'.funs
  full hno := ⟨(h'.full hno).1.trans (h.full hno).1, (h'.full hno).2.trans (h.full hno).2⟩

/-- Where nothing is added, the same things are bound. -/
theorem Evolves.names_eq (h : fr.Evolves assigned extended fr') (hno : ¬extended) :
    fr'.boundVariables.map Prod.fst = fr.boundVariables.map Prod.fst ∧
      fr'.boundFunctions = fr.boundFunctions := by
  obtain ⟨kept, hkept, hrel⟩ := h.vars
  obtain ⟨hvars, hfuns⟩ := h.full hno
  have hlength : kept.length = fr.boundVariables.length := hrel.length_eq.symm
  have hall : kept = fr'.boundVariables := hkept.eq_of_length (hlength.trans hvars.symm)
  refine ⟨?_, (h.funs.eq_of_length hfuns.symm).symm⟩
  rw [← hall]
  exact hrel.names_eq

/-- Where nothing is assigned or added, the frame is the same. -/
theorem Evolves.eq (h : fr.Evolves assigned extended fr') (ha : ¬assigned) (hno : ¬extended) :
    fr' = fr := by
  obtain ⟨kept, hkept, hrel⟩ := h.vars
  have hvars : kept = fr.boundVariables := (hrel.mono fun v w hvw => hvw.2 ha).eq
  have hsame : fr.boundVariables = fr'.boundVariables := by
    rw [← hvars]
    exact hkept.eq_of_length (by rw [hvars, (h.full hno).1])
  obtain ⟨parent, boundVariables, boundFunctions⟩ := fr'
  have hfuns := (h.names_eq hno).2
  have hparent := h.parent
  dsimp only at hsame hfuns hparent
  subst hsame hfuns hparent
  rfl

/-- A variable is still bound, and a constant to the same value. -/
theorem Evolves.lookup (h : fr.Evolves assigned extended fr') {name : String} {v : Variable}
    (hv : fr.boundVariables.lookup name = some v) :
    ∃ w, fr'.boundVariables.lookup name = some w ∧ v.Becomes w := by
  obtain ⟨kept, hkept, hrel⟩ := h.vars
  obtain ⟨hnone, -⟩ | ⟨v', w, hv', hw, hvw⟩ := rel_cases (hrel.lookup name)
  · cases hv.symm.trans hnone
  · cases hv.symm.trans hv'
    exact ⟨w, lookup_of_isPrefix hkept hw, hvw.1⟩

end Frame

namespace Scopes

variable {assigned extended assigned' extended' : FrameId → Prop}
  {s s' s'' : Scopes Variable Function} {id : FrameId}

/-- What may become of scopes, with the frames whose variables may be assigned and those to which
something may be added. There may be more frames. -/
def Evolves (assigned extended : FrameId → Prop) (s s' : Scopes Variable Function) : Prop :=
  ∀ (i : FrameId) (fr : Frame Variable Function), s.frames[i]? = some fr →
    ∃ fr' : Frame Variable Function, s'.frames[i]? = some fr' ∧ fr.Evolves (assigned i) (extended i) fr'

theorem Evolves.refl (assigned extended : FrameId → Prop) (s : Scopes Variable Function) :
    s.Evolves assigned extended s := fun _ fr hfr => ⟨fr, hfr, .refl _ _ fr⟩

theorem Evolves.trans (h : s.Evolves assigned extended s') (h' : s'.Evolves assigned extended s'') :
    s.Evolves assigned extended s'' := by
  intro i fr hfr
  obtain ⟨fr', hfr', hev⟩ := h i fr hfr
  obtain ⟨fr'', hfr'', hev'⟩ := h' i fr' hfr'
  exact ⟨fr'', hfr'', hev.trans hev'⟩

/-- Only what is said of frames that are there matters. -/
theorem Evolves.mono (h : s.Evolves assigned extended s')
    (ha : ∀ i < s.next, assigned i → assigned' i) (he : ∀ i < s.next, extended i → extended' i) :
    s.Evolves assigned' extended' s' := by
  intro i fr hfr
  have hlt := lt_next_of_getElem? hfr
  obtain ⟨fr', hfr', hev⟩ := h i fr hfr
  exact ⟨fr', hfr', hev.mono (ha i hlt) (he i hlt)⟩

theorem Evolves.next_le (h : s.Evolves assigned extended s') : s.next ≤ s'.next := by
  cases hn : s.next with
  | zero => exact Nat.zero_le _
  | succ n =>
    have hlast : n < s.frames.size := by
      have hsize : s.frames.size = n + 1 := hn
      omega
    obtain ⟨fr', hfr', -⟩ := h n s.frames[n] (Array.getElem?_eq_getElem hlast)
    exact lt_next_of_getElem? hfr'

theorem Evolves.binds (h : s.Evolves assigned extended s') {home : FrameId} {name : String}
    {v : Variable} (hb : s.Binds home name v) : ∃ w, s'.Binds home name w ∧ v.Becomes w := by
  obtain ⟨fr, hfr, hv⟩ := hb
  obtain ⟨fr', hfr', hev⟩ := h home fr hfr
  obtain ⟨w, hw, hvw⟩ := hev.lookup hv
  exact ⟨w, ⟨fr', hfr', hw⟩, hvw⟩

theorem Keeps.evolves (h : s.Keeps s') : s.Evolves assigned extended s' :=
  fun i fr hfr => ⟨fr, h i fr hfr, .refl _ _ fr⟩

/-- A change of one frame. -/
theorem evolves_update {f : Frame Variable Function → Frame Variable Function}
    (keeps : ∀ frame, (f frame).parent = frame.parent)
    (h : ∀ fr, s.frames[id]? = some fr → fr.Evolves (assigned id) (extended id) (f fr)) :
    s.Evolves assigned extended (s.update id f keeps) := by
  intro i fr hfr
  by_cases hi : id = i
  · subst hi
    exact ⟨f fr, by rw [getElem?_update, if_pos rfl, hfr]; rfl, h fr hfr⟩
  · exact ⟨fr, by rw [getElem?_update, if_neg hi, hfr], .refl _ _ fr⟩

theorem evolves_addVariable (name : String) (v : Variable) (hid : extended id) :
    s.Evolves assigned extended (s.addVariable id name v) := by
  unfold addVariable
  refine evolves_update _ fun fr _ => ?_
  exact ⟨rfl, ⟨fr.boundVariables, List.prefix_append _ _, boundRelated_same _ _⟩,
    List.prefix_rfl, fun hno => absurd hid hno⟩

theorem evolves_addFunction (signature : Signature) (f : Function) (hid : extended id) :
    s.Evolves assigned extended (s.addFunction id signature f) := by
  unfold addFunction
  refine evolves_update _ fun fr _ => ?_
  exact ⟨rfl, ⟨fr.boundVariables, List.prefix_rfl, boundRelated_same _ _⟩,
    List.prefix_append _ _, fun hno => absurd hid hno⟩

theorem boundRelated_rebind {l : List (String × Variable)} {name : String} {v : Variable}
    {value : Value} (hv : l.lookup name = some v) (hconstant : v.constant = false) {P : Prop}
    (hP : P) :
    BoundRelated (fun v w => v.Becomes w ∧ (¬P → w = v)) l (rebind name ⟨false, value⟩ l) := by
  induction l with
  | nil => cases hv
  | cons b l ih =>
    obtain ⟨n, u⟩ := b
    rw [rebind]
    by_cases hn : n = name
    · subst hn
      rw [List.lookup_cons, beq_self_eq_true] at hv
      cases hv
      rw [if_pos (beq_self_eq_true n)]
      refine .cons ⟨rfl, ⟨hconstant.symm, fun hc => ?_⟩, fun hno => absurd hP hno⟩
        (boundRelated_same P l)
      cases hconstant.symm.trans hc
    · have hne : (name == n) = false := by simpa using Ne.symm hn
      rw [List.lookup_cons, hne] at hv
      rw [if_neg (by simpa using hn)]
      exact .cons ⟨rfl, .refl u, fun _ => rfl⟩ (ih hv)

/-- Assigning a variable that is no constant. -/
theorem evolves_setVariable {name : String} {v : Variable} (value : Value)
    (hb : s.Binds id name v) (hconstant : v.constant = false) (hid : assigned id) :
    s.Evolves assigned extended (s.setVariable id name ⟨false, value⟩) := by
  obtain ⟨fr, hfr, hv⟩ := hb
  unfold setVariable
  refine evolves_update _ fun fr' hfr' => ?_
  cases hfr.symm.trans hfr'
  have hrel : BoundRelated (fun v w => v.Becomes w ∧ (¬assigned id → w = v)) fr.boundVariables
      (rebind name ⟨false, value⟩ fr.boundVariables) := boundRelated_rebind hv hconstant hid
  exact ⟨rfl, ⟨_, List.prefix_rfl, hrel⟩, List.prefix_rfl, fun _ => ⟨hrel.length_eq.symm, rfl⟩⟩

end Scopes

/-- What may become of a machine: its scopes evolve, and it stays at the same program. -/
structure Machine.Becomes (assigned extended : FrameId → Prop) (m m' : Machine) : Prop where
  scopes : m.scopes.Evolves assigned extended m'.scopes
  root : m'.root = m.root

section Machines

variable {assigned extended assigned' extended' : FrameId → Prop} {m m' m'' : Machine}

theorem Machine.Becomes.of_scopes_eq (hscopes : m'.scopes = m.scopes) (hroot : m'.root = m.root) :
    m.Becomes assigned extended m' := by
  refine ⟨?_, hroot⟩
  rw [hscopes]
  exact .refl _ _ _

theorem Machine.Becomes.refl (m : Machine) : m.Becomes assigned extended m := .of_scopes_eq rfl rfl

theorem Machine.Becomes.trans (h : m.Becomes assigned extended m')
    (h' : m'.Becomes assigned extended m'') : m.Becomes assigned extended m'' :=
  ⟨h.scopes.trans h'.scopes, h'.root.trans h.root⟩

theorem Machine.Becomes.mono (h : m.Becomes assigned extended m')
    (ha : ∀ i < m.scopes.next, assigned i → assigned' i)
    (he : ∀ i < m.scopes.next, extended i → extended' i) : m.Becomes assigned' extended' m' :=
  ⟨h.scopes.mono ha he, h.root⟩

end Machines

def Evolving {α : Type} (assigned extended : FrameId → Prop) (m : Machine) (x : Run α) : Prop :=
  Ends x m (fun _ m' => m.Becomes assigned extended m') fun _ m' => m.Becomes assigned extended m'

section Operations

variable {α β : Type} {assigned extended : FrameId → Prop} {m : Machine} {scope : FrameId}

theorem Evolving.bind {x : Run α} {f : α → Run β} (h : Evolving assigned extended m x)
    (hf : ∀ a m', Evolving assigned extended m' (f a)) : Evolving assigned extended m (x >>= f) := by
  refine ends_bind.mpr (Ends.imp h (fun a m' hm' => ?_) fun _ _ => id)
  exact Ends.imp (hf a m') (fun _ _ hm'' => hm'.trans hm'') fun _ _ hm'' => hm'.trans hm''

theorem evolving_same {x : Run α}
    (h : Ends x m (fun _ m' => m'.scopes = m.scopes ∧ m'.root = m.root)
      fun _ m' => m'.scopes = m.scopes ∧ m'.root = m.root) :
    Evolving assigned extended m x :=
  Ends.imp h (fun _ _ hm' => .of_scopes_eq hm'.1 hm'.2) fun _ _ hm' => .of_scopes_eq hm'.1 hm'.2

theorem evolving_pure (a : α) : Evolving assigned extended m (pure a) := evolving_same ⟨rfl, rfl⟩

theorem evolving_throw (fault : Fault) : Evolving assigned extended m (throw fault : Run α) :=
  evolving_same ⟨rfl, rfl⟩

theorem evolving_lift (result : Except Fault α) : Evolving assigned extended m (lift result) := by
  cases result <;> exact evolving_same ⟨rfl, rfl⟩

theorem Shows.evolving {line : Run α} (h : Shows line) : Evolving assigned extended m line :=
  evolving_same (Ends.imp (h.ends m) (fun _ _ hm => by simp [hm]) fun _ _ hm => by simp [hm.1])

theorem evolving_printLine (line : String) : Evolving assigned extended m (printLine line) :=
  evolving_same ⟨rfl, rfl⟩

theorem evolving_noteAt (a : Activation) (least : Nat) {line : Run String} (h : Shows line) :
    Evolving assigned extended m (noteAt a least line) := by
  unfold noteAt
  split
  · exact h.evolving.bind fun _ _ => evolving_same ⟨rfl, rfl⟩
  · exact evolving_pure _

theorem evolving_requireBoolean (a : Activation) (construct : String) (v : Value) :
    Evolving assigned extended m (requireBoolean a construct v) := by
  unfold requireBoolean
  split
  · refine (evolving_noteAt a 3 ?_).bind fun _ _ => evolving_pure _
    exact (shows_text _).bind fun _ => shows_pure _
  · exact evolving_throw _

theorem evolving_newFrame (parent : Option FrameId) :
    Evolving assigned extended m (newFrame parent) :=
  ⟨(Scopes.keeps_addFrame m.scopes parent).evolves, rfl⟩

theorem evolving_findVariable (scope : FrameId) (name : String) :
    Evolving assigned extended m (findVariable scope name) := by
  unfold findVariable
  refine ends_bind.mpr (ends_get.mpr ?_)
  split
  · exact evolving_pure _
  · exact evolving_throw _

theorem evolving_findFunction (scope : FrameId) (signature : Signature) :
    Evolving assigned extended m (findFunction scope signature) := by
  unfold findFunction
  refine ends_bind.mpr (ends_get.mpr ?_)
  split
  · exact evolving_pure _
  · exact evolving_throw _

theorem evolving_getField (typeName : String) (members : FrameId) (name : String) :
    Evolving assigned extended m (getField typeName members name) := by
  unfold getField
  refine ends_bind.mpr (ends_get.mpr ?_)
  split
  · exact evolving_pure _
  · exact evolving_throw _

theorem evolving_findMethod (typeName : String) (members : FrameId) (name : String)
    (arguments : Nat) : Evolving assigned extended m (findMethod typeName members name arguments) := by
  unfold findMethod
  refine ends_bind.mpr (ends_get.mpr ?_)
  split
  · exact evolving_pure _
  · exact evolving_throw _

theorem evolving_findMain (a : Activation) : Evolving assigned extended m (findMain a) := by
  unfold findMain
  refine ends_bind.mpr (ends_get.mpr ?_)
  split
  · exact evolving_pure _
  · exact evolving_throw _

theorem evolving_defineVariable (name : String) (v : Variable) (h : extended scope) :
    Evolving assigned extended m (defineVariable scope name v) := by
  unfold defineVariable
  refine ends_bind.mpr (ends_get.mpr ?_)
  split
  · exact evolving_throw _
  · exact ⟨Scopes.evolves_addVariable name v h, rfl⟩

theorem evolving_defineFunction (signature : Signature) (f : Function) (h : extended scope) :
    Evolving assigned extended m (defineFunction scope signature f) := by
  unfold defineFunction
  refine ends_bind.mpr (ends_get.mpr ?_)
  split
  · exact evolving_throw _
  · exact ⟨Scopes.evolves_addFunction signature f h, rfl⟩

theorem evolving_bindArguments (names : List String) (values : List Value) (h : extended scope) :
    Evolving assigned extended m (bindArguments scope names values) := by
  induction names generalizing m values with
  | nil => exact evolving_pure _
  | cons name names ih =>
    cases values with
    | nil => exact evolving_pure _
    | cons v values => exact (evolving_defineVariable name _ h).bind fun _ _ => ih values

theorem evolving_bindVariable {a : Activation} (what name : String) (v : Variable)
    (h : extended a.scope) : Evolving assigned extended m (bindVariable a what name v) := by
  refine (evolving_defineVariable name v h).bind fun _ _ => evolving_noteAt a 2 ?_
  exact (shows_text _).bind fun _ => shows_pure _

theorem evolving_defineMethod {a : Activation} (node : Node) (h : extended a.scope) :
    Evolving assigned extended m (defineMethod a node) := by
  unfold defineMethod
  split
  · refine (evolving_defineFunction _ _ h).bind fun _ _ => evolving_noteAt a 2 ?_
    exact shows_pure _
  · exact evolving_throw _

/-- The variable that a name stands for is given another value, or is constant. -/
theorem evolving_setVariable {home : FrameId} {name : String} {v : Variable} (fault : Fault)
    (value : Value) (hfound : m.scopes.findVariable? scope name = some (home, v))
    (hhome : assigned home) :
    Evolving assigned extended m (if v.constant then throw fault
      else modify fun m => { m with scopes := m.scopes.setVariable home name ⟨false, value⟩ }) := by
  split
  · exact evolving_throw _
  · next hconstant =>
    have hb : m.scopes.Binds home name v := Scopes.nearest?_eq_some hfound
    have hset : m.scopes.Evolves assigned extended
        (m.scopes.setVariable home name ⟨false, value⟩) :=
      Scopes.evolves_setVariable value hb (by simpa using hconstant) hhome
    exact ⟨hset, rfl⟩

theorem evolving_assignVariable (name : String) (value : Value)
    (h : ∀ home v, m.scopes.findVariable? scope name = some (home, v) → assigned home) :
    Evolving assigned extended m (assignVariable scope name value) := by
  unfold assignVariable findVariable
  simp only [bind_assoc]
  refine ends_bind.mpr (ends_get.mpr ?_)
  unfold Scopes.getVariable
  cases hfound : m.scopes.findVariable? scope name with
  | none => exact evolving_throw _
  | some found =>
    obtain ⟨home, v⟩ := found
    rw [pure_bind]
    exact evolving_setVariable _ value hfound (h home v hfound)

theorem evolving_setField (typeName : String) {members : FrameId} (name : String) (value : Value)
    (h : ∀ home v, m.scopes.findVariable? members name = some (home, v) → assigned home) :
    Evolving assigned extended m (setField typeName members name value) := by
  unfold setField
  refine ends_bind.mpr (ends_get.mpr ?_)
  split
  · next home v hfound => exact evolving_setVariable _ value hfound (h home v hfound)
  · exact evolving_throw _

end Operations

end BlockScript
