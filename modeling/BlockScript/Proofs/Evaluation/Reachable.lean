import BlockScript.Proofs.Evaluation.Constants
import BlockScript.Proofs.Evaluation.Discipline
/-!
# Machines that come up

A machine is made with or without surroundings, and comes to others by runs of programs and by
pieces that are entered. In all of them the shared frames are that of the program, those around it
and those without a parent, which only objects and the outermost surroundings have: what is bound
keeps to them.
-/
namespace BlockScript

open Recorded Run

namespace Scopes

variable {V F : Type} {s : Scopes V F} {i j k : FrameId}

theorem Under.le (h : s.Under i j) : i ≤ j := by
  induction h with
  | top => exact Nat.le_refl i
  | child frame parent _ ih =>
    have hlt := parent_lt_of_getElem? frame parent
    exact Nat.le_trans ih (Nat.le_of_lt hlt)

theorem Under.trans (h : s.Under i j) (h' : s.Under j k) : s.Under i k := by
  induction h' with
  | top => exact h
  | child frame parent _ ih => exact .child frame parent ih

theorem Orphan.lt_next (h : s.Orphan i) : i < s.next := by
  obtain ⟨fr, hfr, -⟩ := h
  exact lt_next_of_getElem? hfr

theorem orphan_addFunction {signature : Signature} {f : F} :
    (s.addFunction j signature f).Orphan i ↔ s.Orphan i := orphan_update

theorem closes_orphan (s : Scopes V F) : s.Closes s.Orphan where
  lt_next _ hi := hi.lt_next
  parent i fr p hi hfr hp := by
    obtain ⟨fr', hfr', hnone⟩ := hi
    cases hfr.symm.trans hfr'
    cases hp.symm.trans hnone

end Scopes

section Evolution

variable {assigned extended : FrameId → Prop} {s s' : Scopes Variable Function} {i j : FrameId}

/-- A frame keeps its parent, forwards and backwards. -/
theorem Scopes.Evolves.parent_iff (h : s.Evolves assigned extended s') (hi : i < s.next)
    {parent : Option FrameId} :
    (∃ fr, s'.frames[i]? = some fr ∧ fr.parent = parent) ↔
      ∃ fr, s.frames[i]? = some fr ∧ fr.parent = parent := by
  obtain ⟨fr', hfr', hframe⟩ := h i s.frames[i] (Array.getElem?_eq_getElem hi)
  rw [hfr', Array.getElem?_eq_getElem hi]
  simp [hframe.parent]

theorem Scopes.Evolves.orphan_iff (h : s.Evolves assigned extended s') (hi : i < s.next) :
    s'.Orphan i ↔ s.Orphan i := h.parent_iff hi

theorem Scopes.Evolves.under_iff (h : s.Evolves assigned extended s') (hj : j < s.next) :
    s'.Under i j ↔ s.Under i j := by
  constructor
  · intro hunder
    induction hunder with
    | top => exact .top
    | @child j p fr frame parent _ ih =>
      obtain ⟨fr', hfr', hparent⟩ := (h.parent_iff hj).mp ⟨fr, frame, parent⟩
      have hlt := parent_lt_of_getElem? hfr' hparent
      exact .child hfr' hparent (ih (Nat.lt_trans hlt hj))
  · intro hunder
    induction hunder with
    | top => exact .top
    | @child j p fr frame parent _ ih =>
      obtain ⟨fr', hfr', hparent⟩ := (h.parent_iff hj).mpr ⟨fr, frame, parent⟩
      have hlt := parent_lt_of_getElem? frame parent
      exact .child hfr' hparent (ih (Nat.lt_trans hlt hj))

theorem Governed.congr {shared shared' : FrameId → Prop} (h : Governed shared s)
    (hiff : ∀ i, shared i ↔ shared' i) : Governed shared' s := by
  obtain rfl : shared = shared' := funext fun i => propext (hiff i)
  exact h

end Evolution

namespace Machine

variable {assigned extended : FrameId → Prop} {m m' : Machine} {i : FrameId}

/-- The frame is that of the program, or around it, or one without a parent. -/
def IsShared (m : Machine) (i : FrameId) : Prop := m.scopes.Under i m.root ∨ m.scopes.Orphan i

theorem closes_isShared (hroot : m.root < m.scopes.next) : m.scopes.Closes m.IsShared where
  lt_next i hi := by
    cases hi with
    | inl hunder => exact Nat.lt_of_le_of_lt hunder.le hroot
    | inr horphan => exact horphan.lt_next
  parent i fr p hi hfr hp := by
    cases hi with
    | inl hunder =>
      have hparent : m.scopes.Under p i := .child hfr hp .top
      exact .inl (hparent.trans hunder)
    | inr horphan => exact .inr (m.scopes.closes_orphan.parent i fr p horphan hfr hp)

/-- The frame of the program is there, and all that is bound keeps to the shared frames. -/
structure Ready (m : Machine) : Prop where
  root : m.root < m.scopes.next
  governed : Governed m.IsShared m.scopes

theorem isShared_root (m : Machine) : m.IsShared m.root := .inl .top

/-- The frames that are shared stay the same ones. -/
theorem Ready.isShared_iff (h : m.Ready) (hm : m.Becomes assigned extended m')
    (hm' : Governed m.IsShared m'.scopes) : m'.IsShared i ↔ m.IsShared i := by
  unfold IsShared
  rw [hm.root, hm.scopes.under_iff h.root]
  constructor
  · intro hi
    cases hi with
    | inl hunder => exact .inl hunder
    | inr horphan => exact hm'.all.orphan i horphan
  · intro hi
    exact hi.imp_right fun horphan => (hm.scopes.orphan_iff horphan.lt_next).mpr horphan

theorem Ready.after (h : m.Ready) (hm : m.Becomes assigned extended m')
    (hm' : Governed m.IsShared m'.scopes) : m'.Ready where
  root := by
    rw [hm.root]
    exact Nat.lt_of_lt_of_le h.root hm.scopes.next_le
  governed := hm'.congr fun _ => (h.isShared_iff hm hm').symm

end Machine

section Programs

variable {M : Type → Type} [Monad M] [MonadLiftT Run M]

def setUp (t : Steps M) (a : Activation) (fields methods : List Node) : M Unit := do
  fields.forM (executeField t a)
  methods.forM fun method => (defineMethod a method : Run Unit)

def callMain (t : Steps M) (a : Activation) : M Value := do
  let main ← findMain a
  t.invoke a ⟨"main", 0⟩ main []

def reportMain (t : Steps M) (a : Activation) (v : Value) : M Value := do
  let shown ← t.write v
  noteAt a 1 (return "main returned " ++ shown)
  return v

theorem executeSource_source [LawfulMonad M] (t : Steps M) (a : Activation)
    (fields methods : List Node) :
    executeSource t a (.source fields methods) =
      setUp t a fields methods >>= fun _ => callMain t a := by
  simp only [executeSource, setUp, callMain, bind_assoc]

theorem executeProgram_source [LawfulMonad M] (t : Steps M) (a : Activation)
    (fields methods : List Node) :
    executeProgram t a (.source fields methods) = (do
      noteAt a 1 (return "run source")
      setUp t a fields methods) >>= fun _ => callMain t a >>= reportMain t a := by
  simp only [executeProgram, executeSource_source, bind_assoc]
  rfl

variable {shared assigned extended : FrameId → Prop} {t : Steps Recorded}
  {s : Machine × List Event} {a : Activation}

theorem progresses_executeField (h : t.Disciplined shared) (hs : Governed shared s.1.scopes)
    (hextended : extended a.scope) (node : Node) :
    Progresses shared shared extended s (executeField t a node) fun _ => True := by
  unfold executeField
  split
  · next name _ constant value _ =>
    refine Progresses.join (Q := Value.Shares shared) (fun _ => progresses_pure hs trivial)
      (fun _ => ?_) fun v s₁ hs₁ hv => ?_
    · exact (h.evaluate a value hs).mono (fun _ _ => id) (fun _ _ => False.elim) fun _ => id
    · exact progresses_lift hs₁.governed (evolving_bindVariable "field" name _ hextended)
        (upholds_bindVariable hs₁.governed.all a "field" name hv)
  · split <;> exact progresses_throw hs _
  · exact progresses_throw hs _

theorem progresses_defineMethod (hs : Governed shared s.1.scopes) (ha : shared a.scope)
    (hextended : extended a.scope) (node : Node) :
    Progresses shared assigned extended s (liftM (defineMethod a node) : Recorded Unit)
      fun _ => True :=
  progresses_lift hs (evolving_defineMethod node hextended) (upholds_defineMethod hs.all ha node)

theorem progresses_forM {f : Node → Recorded PUnit}
    (hf : ∀ node s', Governed shared s'.1.scopes →
      Progresses shared assigned extended s' (f node) fun _ => True)
    (nodes : List Node) (hs : Governed shared s.1.scopes) :
    Progresses shared assigned extended s (nodes.forM f) fun _ => True := by
  induction nodes generalizing s with
  | nil => exact progresses_pure hs trivial
  | cons node rest ih => exact (hf node s hs).bind fun _ s₁ hs₁ _ => ih hs₁.governed

theorem progresses_noteAt (hs : Governed shared s.1.scopes) (least : Nat) (line : String) :
    Progresses shared assigned extended s (liftM (noteAt a least (return line)) : Recorded Unit)
      fun _ => True :=
  progresses_lift hs (evolving_noteAt a least (shows_pure line))
    (upholds_noteAt hs.all a least (shows_pure line))

theorem progresses_setUp (h : t.Disciplined shared) (hs : Governed shared s.1.scopes)
    (ha : shared a.scope) (fields methods : List Node) :
    Progresses shared shared (· = a.scope) s (setUp t a fields methods) fun _ => True := by
  have hfields : Progresses shared shared (· = a.scope) s (fields.forM (executeField t a))
      fun _ => True := by
    refine progresses_forM (fun node s' hs' => ?_) fields hs
    exact progresses_executeField h hs' (by rfl) node
  refine hfields.bind fun _ s₁ hs₁ _ => ?_
  refine progresses_forM (fun node s' hs' => ?_) methods hs₁.governed
  exact progresses_defineMethod hs' ha (by rfl) node

/-- Behind the fields and methods nothing is added to any frame that is there. -/
theorem progresses_callMain (h : t.Disciplined shared) (hs : Governed shared s.1.scopes) :
    Progresses shared shared Nowhere s (callMain t a) (Value.Shares shared) := by
  have hmain : Progresses shared shared Nowhere s (liftM (findMain a) : Recorded Function)
      (Function.Shares shared) :=
    progresses_lift hs (evolving_findMain a) (upholds_findMain hs.all a)
  exact hmain.bind fun main s₁ hs₁ hf => h.invoke a _ hs₁.governed hf (by simp)

theorem progresses_reportMain (h : t.Disciplined shared) (hs : Governed shared s.1.scopes)
    {v : Value} (hv : v.Shares shared) :
    Progresses shared shared Nowhere s (reportMain t a v) (Value.Shares shared) := by
  refine (h.write v hs).bind fun shown s₁ hs₁ _ => ?_
  refine (progresses_noteAt hs₁.governed 1 _).bind fun _ s₂ hs₂ _ => ?_
  exact progresses_pure hs₂.governed hv

theorem progresses_executeSource (h : t.Disciplined shared) (hs : Governed shared s.1.scopes)
    (ha : shared a.scope) (program : Node) :
    Progresses shared shared (· = a.scope) s (executeSource t a program) (Value.Shares shared) := by
  cases program with
  | source fields methods =>
    rw [executeSource_source]
    refine (progresses_setUp h hs ha fields methods).bind fun _ s₁ hs₁ _ => ?_
    exact (progresses_callMain h hs₁.governed).mono (fun _ _ => id) (fun _ _ => False.elim)
      fun _ => id
  | _ => exact progresses_throw hs _

theorem progresses_executeProgram (h : t.Disciplined shared) (hs : Governed shared s.1.scopes)
    (ha : shared a.scope) (program : Node) :
    Progresses shared shared (· = a.scope) s (executeProgram t a program) (Value.Shares shared) := by
  refine (progresses_noteAt hs 1 _).bind fun _ s₁ hs₁ _ => ?_
  refine (progresses_executeSource h hs₁.governed ha program).bind fun v s₂ hs₂ hv => ?_
  exact (progresses_reportMain h hs₂.governed hv).mono (fun _ _ => id) (fun _ _ => False.elim)
    fun _ => id

end Programs

/-- The step without its record. -/
theorem Progresses.ends {α : Type} {shared assigned extended : FrameId → Prop} {m : Machine}
    {x : Run α} {y : Recorded α} {Q : α → Prop} (hxy : Mirrors x y)
    (h : Progresses shared assigned extended (m, []) y Q) :
    Ends x m (fun _ m' => m.Becomes assigned extended m' ∧ Governed shared m'.scopes)
      fun _ m' => m.Becomes assigned extended m' ∧ Governed shared m'.scopes :=
  hxy.ends (Ends.imp h (fun _ _ hs => ⟨hs.1.machine, hs.1.governed⟩)
    fun _ _ hs => ⟨hs.machine, hs.governed⟩)

theorem ends_iff_outcome {α : Type} {x : Run α} {m : Machine} {Q : α → Machine → Prop}
    {E : Fault → Machine → Prop} :
    Ends x m Q E ↔ match x.outcome m with
      | (.ok a, m') => Q a m'
      | (.error fault, m') => E fault m' := by
  unfold Ends Run.outcome
  cases x m <;> rfl

/-- What holds of the machine however the step ends holds of the machine after it. -/
theorem outcome_of_ends {α : Type} {x : Run α} {m : Machine} {P : Machine → Prop}
    (h : Ends x m (fun _ => P) fun _ => P) : P (x.outcome m).2 := by
  rw [ends_iff_outcome] at h
  split at h
  · next hx =>
    rw [hx]
    exact h
  · next hx =>
    rw [hx]
    exact h

namespace Machine

variable {m m' : Machine}

structure Continues (m m' : Machine) : Prop where
  becomes : m.Becomes m.IsShared (· = m.root) m'
  governed : Governed m.IsShared m'.scopes

theorem Ready.continues_refl (h : m.Ready) : m.Continues m := ⟨.refl m, h.governed⟩

theorem Ready.of_continues (h : m.Ready) (hm : m.Continues m') : m'.Ready :=
  h.after hm.becomes hm.governed

theorem Ready.standing (h : m.Ready) {a : Activation} (ha : a.scope = m.root) :
    Standing m.IsShared m.IsShared (m, []) a where
  governed := h.governed
  closed := closes_isShared h.root
  covers _ := id
  here := by
    rw [ha]
    exact m.isShared_root

theorem Ready.progresses_executeProgram (h : m.Ready) (fuel : Nat) (program : Node) :
    Progresses m.IsShared m.IsShared (· = m.root) (m, [])
      (executeProgram (recordedSteps fuel) m.activation program) (Value.Shares m.IsShared) :=
  BlockScript.progresses_executeProgram (disciplined_recordedSteps m.IsShared fuel) h.governed
    m.isShared_root program

/-- Each moment of a run comes of its beginning. -/
theorem Ready.continues_moment (h : m.Ready) {fuel : Nat} {program : Node}
    (hm' : m' ∈ m.momentsWithin fuel program) : m.Continues m' := by
  have hruns := h.progresses_executeProgram fuel program
  have hprogress : Ends (executeProgram (recordedSteps fuel) m.activation program) (m, [])
      (fun _ s => Progress m.IsShared m.IsShared (· = m.root) (m, []) s)
      fun _ s => Progress m.IsShared m.IsShared (· = m.root) (m, []) s :=
    Ends.imp hruns (fun _ _ hs => hs.1) fun _ _ => id
  obtain ⟨final, ⟨hfinal, hgoverned, new, heq, hnew⟩, hrun⟩ := exists_final_of_ends hprogress
  have hevents : m.eventsWithin fuel program = new := by simpa using heq
  unfold momentsWithin at hm'
  rw [hrun, hevents, List.cons_append, List.mem_cons, List.mem_append, List.mem_singleton] at hm'
  rcases hm' with rfl | hm' | rfl
  · exact ⟨⟨hfinal.scopes, hfinal.root⟩, hgoverned⟩
  · obtain ⟨e, he, rfl⟩ := List.mem_map.mp hm'
    exact ⟨(hnew e he).1, (hnew e he).2⟩
  · exact h.continues_refl

/-- A piece that is entered runs in the frame of the program. -/
theorem Ready.continues_run (h : m.Ready) (kind : PieceKind) (node : Node)
    (type : Option StaticType) :
    m.Continues ((kind.run m.activation node type).outcome m).2 := by
  have hdisciplined := disciplined_recordedSteps m.IsShared stepLimit
  have hmirror := mirror_recordedSteps stepLimit
  have ha : m.activation.Related Eq m.activation := .refl (fun _ => rfl) _
  -- What is made of the result of a step changes no machine.
  have hpiece : ∀ {α : Type} {x : Run α} {y : Recorded α} {Q : α → Prop} (f : α → PieceResult),
      Mirrors x y → Progresses m.IsShared m.IsShared (· = m.root) (m, []) y Q →
        Ends (x >>= fun v => pure (f v)) m (fun _ => m.Continues) fun _ => m.Continues := by
    intro α x y Q f hxy hy
    refine ends_bind.mpr (Ends.imp (hy.ends hxy) ?_ ?_)
    · exact fun _ _ hm' => ⟨hm'.1, hm'.2⟩
    · exact fun _ _ hm' => ⟨hm'.1, hm'.2⟩
  refine outcome_of_ends ?_
  cases kind with
  | field =>
    exact hpiece (fun _ => .done) (hmirror.executeField ha node)
      (progresses_executeField hdisciplined h.governed (by rfl) node)
  | method =>
    exact hpiece (fun _ => .done) (.lift _)
      (progresses_defineMethod h.governed m.isShared_root (by rfl) node)
  | statement =>
    have hexecute := hpiece (fun _ => .done) (hmirror.execute node ha)
      (hdisciplined.execute node (h.standing rfl) fun _ => by rfl)
    refine ends_bind.mpr (Ends.imp (ends_bind.mp hexecute) (fun result _ hm' => ?_) fun _ _ => id)
    cases result <;> exact hm'
  | expression =>
    exact hpiece (fun v => .value v type) (hmirror.evaluate node ha)
      ((hdisciplined.evaluate m.activation node h.governed).mono (fun _ _ => id)
        (fun _ _ => False.elim) fun _ => id)
  | program =>
    exact hpiece (fun v => .value v none) (hmirror.executeSource ha node)
      (progresses_executeSource hdisciplined h.governed m.isShared_root node)

theorem Ready.enter {checker : Checker} {checks : Bool} (h : m.Ready) (kind : PieceKind)
    (text : String) : ((Session.mk checker m checks).enter kind text).2.machine.Ready := by
  obtain hsame | ⟨node, type, hrun⟩ := enter_machine ⟨checker, m, checks⟩ kind text
  · rw [hsame]
    exact h
  · rw [hrun]
    exact h.of_continues (h.continues_run kind node type)

end Machine

section Surroundings

variable {α β : Type} {m m' m'' : Machine}

/-- All that is bound keeps to the members of objects and to the outermost frames. -/
abbrev Machine.Furnished (m : Machine) : Prop := Governed m.scopes.Orphan m.scopes

/-- Surroundings are made step by step: what stands without a parent goes on standing so. -/
structure Machine.Furnishes (m m' : Machine) : Prop where
  furnished : m'.Furnished
  orphan : ∀ i, m.scopes.Orphan i → m'.scopes.Orphan i

theorem Machine.Furnishes.trans (h : m.Furnishes m') (h' : m'.Furnishes m'') : m.Furnishes m'' :=
  ⟨h'.furnished, fun i hi => h'.orphan i (h.orphan i hi)⟩

def Furnishing (m : Machine) (x : Run α) (Q : α → Machine → Prop) : Prop :=
  Ends x m (fun a m' => m.Furnishes m' ∧ Q a m') fun _ _ => True

theorem Furnishing.bind {x : Run α} {f : α → Run β} {Q : α → Machine → Prop}
    {R : β → Machine → Prop} (h : Furnishing m x Q)
    (hf : ∀ a m', m.Furnishes m' → Q a m' → Furnishing m' (f a) R) : Furnishing m (x >>= f) R := by
  refine ends_bind.mpr (Ends.imp h (fun a m' hm' => ?_) fun _ _ => id)
  refine Ends.imp (hf a m' hm'.1 hm'.2) (fun b m'' hm'' => ?_) fun _ _ => id
  exact ⟨hm'.1.trans hm''.1, hm''.2⟩

theorem furnishing_pure (hm : m.Furnished) {a : α} {Q : α → Machine → Prop} (hq : Q a m) :
    Furnishing m (pure a) Q := ⟨⟨hm, fun _ => id⟩, hq⟩

/-- Steps that add no frame without a parent. -/
theorem furnishing_of_ends {x : Run α}
    (h : Ends x m (fun _ m' => m.Becomes Anywhere Anywhere m' ∧ Shared m.scopes.Orphan m'.scopes)
      fun _ _ => True) : Furnishing m x fun _ _ => True := by
  refine Ends.imp h (fun a m' hm' => ?_) fun _ _ => id
  obtain ⟨hbecomes, hshared⟩ := hm'
  have hiff : ∀ i, m.scopes.Orphan i ↔ m'.scopes.Orphan i := fun i =>
    ⟨fun hi => (hbecomes.scopes.orphan_iff hi.lt_next).mpr hi, hshared.orphan i⟩
  have hgoverned : Governed m.scopes.Orphan m'.scopes :=
    ⟨m.scopes.closes_orphan.evolves hbecomes.scopes, hshared⟩
  exact ⟨⟨hgoverned.congr hiff, fun i => (hiff i).mp⟩, trivial⟩

theorem furnishing_of_upholds {x : Run α} (hevolves : Evolving Anywhere Anywhere m x)
    (hupholds : Upholds m.scopes.Orphan m x fun _ => True) : Furnishing m x fun _ _ => True := by
  refine furnishing_of_ends (Ends.imp (Ends.and hevolves hupholds) ?_ fun _ _ _ => trivial)
  exact fun _ _ hm' => ⟨hm'.1, hm'.2.1⟩

theorem furnishing_forM {f : α → Run PUnit} {P : Machine → Prop}
    (hP : ∀ m m', P m → m.Furnishes m' → P m') (l : List α)
    (hf : ∀ a ∈ l, ∀ m, m.Furnished → P m → Furnishing m (f a) fun _ _ => True)
    (hm : m.Furnished) (hp : P m) : Furnishing m (l.forM f) fun _ _ => True := by
  induction l generalizing m with
  | nil => exact furnishing_pure hm trivial
  | cons a l ih =>
    obtain ⟨ha, hl⟩ := List.forall_mem_cons.mp hf
    exact (ha m hm hp).bind fun _ m' hm' _ => ih hl hm'.furnished (hP m m' hp hm')

theorem furnishing_newFrame (hm : m.Furnished) :
    Furnishing m (newFrame none) fun frame m' => m'.scopes.Orphan frame := by
  have hlast : (m.scopes.addFrame none).frames[m.scopes.next]? = some ⟨none, [], []⟩ := by simp
  have horphan : ∀ i, m.scopes.Orphan i → (m.scopes.addFrame none).Orphan i := by
    intro i ⟨fr, hfr, hnone⟩
    exact ⟨fr, Scopes.keeps_addFrame m.scopes none i fr hfr, hnone⟩
  have hbound : (m.scopes.addFrame none).All
      (fun _ _ v => v.value.Shares (m.scopes.addFrame none).Orphan)
      fun _ f => f.Shares (m.scopes.addFrame none).Orphan :=
    (hm.all.bound.mono (fun _ _ _ hv => hv.mono horphan) fun _ _ hf => hf.mono horphan).addFrame none
  exact ⟨⟨⟨Scopes.closes_orphan _, ⟨hbound, fun _ => id⟩⟩, horphan⟩, _, hlast, rfl⟩

theorem furnishing_methods (hm : m.Furnished) {a : Activation} (ha : m.scopes.Orphan a.scope)
    (methods : List Node) : Furnishing m (methods.forM (defineMethod a)) fun _ _ => True := by
  refine furnishing_forM (fun _ _ hp h => h.orphan a.scope hp) methods
    (fun method _ m hm hp => ?_) hm ha
  exact furnishing_of_upholds (evolving_defineMethod method trivial)
    (upholds_defineMethod hm.all hp method)

theorem furnishing_placed (hm : m.Furnished) {frame : FrameId} (hframe : m.scopes.Orphan frame) :
    Furnishing m (HostEntry.placed frame) fun a m' => a.scope = frame ∧ m'.scopes.Orphan frame :=
  ⟨⟨hm, fun _ => id⟩, rfl, hframe⟩

theorem furnishing_makeObject (hm : m.Furnished) (typeName : String) (members : Node) :
    Furnishing m (makeObject typeName members) fun v m' => v.Shares m'.scopes.Orphan := by
  refine (furnishing_newFrame hm).bind fun frame m₁ hm₁ hframe => ?_
  refine (furnishing_placed hm₁.furnished hframe).bind fun a m₁ hm₁ ha => ?_
  obtain ⟨rfl, hframe⟩ := ha
  have hfields : Furnishing m₁ (members.members.1.forM (executeField (steps stepLimit) a))
      fun _ _ => True := by
    refine furnishing_forM (fun _ _ hp h => h.orphan a.scope hp) _ (fun field _ m hm hp => ?_)
      hm₁.furnished hframe
    have hfield : Progresses m.scopes.Orphan m.scopes.Orphan Anywhere (m, [])
        (executeField (recordedSteps stepLimit) a field) fun _ => True :=
      progresses_executeField (disciplined_recordedSteps _ stepLimit) hm trivial field
    have hmirror := (mirror_recordedSteps stepLimit).executeField
      (.refl (fun _ => rfl) a) field
    refine furnishing_of_ends (Ends.imp (hfield.ends hmirror) ?_ fun _ _ _ => trivial)
    exact fun _ _ hm' => ⟨hm'.1.mono (fun _ _ _ => trivial) fun _ _ => id, hm'.2.all⟩
  refine hfields.bind fun _ m₂ hm₂ _ => ?_
  have hhere : m₂.scopes.Orphan a.scope := hm₂.orphan a.scope hframe
  refine (furnishing_methods hm₂.furnished hhere members.members.2).bind fun _ m₃ hm₃ _ => ?_
  exact furnishing_pure hm₃.furnished (hm₃.orphan a.scope hhere)

def HostEntry.Fits (m : Machine) : HostEntry → Prop
  | binding _ _ _ _ value => value.Shares m.scopes.Orphan
  | _ => True

theorem furnishing_define (hm : m.Furnished) {frame : FrameId} (hframe : m.scopes.Orphan frame)
    {entry : HostEntry} (hentry : entry.Fits m) :
    Furnishing m (entry.define frame) fun _ _ => True := by
  cases entry with
  | binding name javaName constant typeName value =>
    exact furnishing_of_upholds (evolving_defineVariable name _ trivial)
      (upholds_defineVariable hm.all frame name hentry)
  | object name javaName constant typeName typeJavaName members =>
    refine (furnishing_makeObject hm typeName members).bind fun v m₁ hm₁ hv => ?_
    exact furnishing_of_upholds (evolving_defineVariable name _ trivial)
      (upholds_defineVariable hm₁.furnished.all frame name hv)
  | methods program => exact furnishing_methods hm hframe program.members.2
  | function name javaName parameterTypes returnType act =>
    have hf : (⟨javaName, act.map Body.host⟩ : Function).Shares m.scopes.Orphan := by
      cases act <;> exact fun _ _ _ _ _ hbody => nomatch hbody
    exact furnishing_of_upholds (evolving_defineFunction _ _ trivial)
      (upholds_defineFunction hm.all frame _ hf)

theorem HostEntry.Fits.mono {entry : HostEntry} (h : entry.Fits m)
    (hle : ∀ i, m.scopes.Orphan i → m'.scopes.Orphan i) : entry.Fits m' := by
  cases entry with
  | binding name javaName constant typeName value => exact Value.Shares.mono h hle
  | _ => trivial

theorem furnishing_entries (hm : m.Furnished) {entries : List HostEntry}
    (hentries : ∀ entry ∈ entries, entry.Fits m) :
    Furnishing m (do
      let frame ← newFrame none
      entries.forM (HostEntry.define frame)
      return frame) fun frame m' => m'.scopes.Orphan frame := by
  refine (furnishing_newFrame hm).bind fun frame m₁ hm₁ hframe => ?_
  have hbound : Furnishing m₁ (entries.forM (HostEntry.define frame)) fun _ _ => True := by
    refine furnishing_forM (P := fun m' => m₁.Furnishes m') (fun _ _ h h' => h.trans h') entries
      (fun entry he m' hm' h => ?_) hm₁.furnished ⟨hm₁.furnished, fun _ => id⟩
    exact furnishing_define hm' (h.orphan frame hframe) ((hentries entry he).mono
      (hm₁.trans h).orphan)
  exact hbound.bind fun _ m₂ hm₂ _ => furnishing_pure hm₂.furnished (hm₂.orphan frame hframe)

theorem Machine.Furnished.ready_addRoot (h : m.Furnished) (parent : Option FrameId) (level : Nat) :
    (m.addRoot parent level).Ready := by
  have horphan : ∀ i, m.scopes.Orphan i → (m.addRoot parent level).scopes.Orphan i := by
    intro i ⟨fr, hfr, hnone⟩
    have hkept : (m.scopes.addFrame parent).Orphan i :=
      ⟨fr, Scopes.keeps_addFrame m.scopes parent i fr hfr, hnone⟩
    exact Scopes.orphan_addFunction.mpr hkept
  have hroot : (m.addRoot parent level).root < (m.addRoot parent level).scopes.next := by
    simp [addRoot, Scopes.addFunction]
  have hbound : (m.addRoot parent level).scopes.All
      (fun _ _ v => v.value.Shares (m.addRoot parent level).IsShared)
      fun _ f => f.Shares (m.addRoot parent level).IsShared := by
    have hle : ∀ i, m.scopes.Orphan i → (m.addRoot parent level).IsShared i :=
      fun i hi => .inr (horphan i hi)
    have hframe := (h.all.bound.mono (fun _ _ _ hv => hv.mono hle) fun _ _ hf => hf.mono hle).addFrame
      parent
    exact hframe.addFunction _ (Function.shares_of_body (.inr rfl))
  exact ⟨hroot, closes_isShared hroot, hbound, fun _ => .inr⟩

theorem Machine.furnished_empty (calls : Nat) : (Machine.empty calls).Furnished :=
  ⟨Scopes.closes_orphan _, Scopes.all_empty, fun _ => id⟩

/-- There are only objects without members. -/
inductive Machine.Stocked : Machine → Prop where
  | empty (calls : Nat) : Stocked (.empty calls)
  | newObject {m : Machine} (before : Stocked m) (typeName : String) :
      Stocked (m.newObject typeName).2

theorem Machine.Stocked.furnished (h : m.Stocked) : m.Furnished := by
  induction h with
  | empty calls => exact furnished_empty calls
  | newObject _ _ ih => exact (furnishing_newFrame ih).1.furnished

theorem Machine.Furnished.ready_inside (h : m.Furnished) {entries : List HostEntry} {level : Nat}
    (hentries : ∀ entry ∈ entries, entry.Fits m) (hm' : m.inside entries level = .ok m') :
    m'.Ready := by
  have hmade := ends_iff_outcome.mp (furnishing_entries h hentries)
  unfold Machine.inside at hm'
  revert hm' hmade
  generalize Run.outcome _ m = outcome
  obtain ⟨result, m₁⟩ := outcome
  cases result with
  | error fault =>
    intro hm' _
    cases hm'
  | ok frame =>
    intro hm' hmade
    cases hm'
    exact Machine.Furnished.ready_addRoot hmade.1.furnished (some frame) level

end Surroundings

/-- The machines of programs that stand alone or have surroundings, at any moment of a run, and
between pieces that are entered. -/
inductive Machine.Reachable : Machine → Prop where
  | new (level calls : Nat) : Reachable (.new level calls)
  | inside {base m : Machine} {entries : List HostEntry} {level : Nat} (stocked : base.Stocked)
      (fit : ∀ entry ∈ entries, entry.Fits base) (made : base.inside entries level = .ok m) :
      Reachable m
  | moment {m later : Machine} {fuel : Nat} {program : Node} (before : Reachable m)
      (here : later ∈ m.momentsWithin fuel program) : Reachable later
  | enter {m : Machine} {checker : Checker} {checks : Bool} (before : Reachable m)
      (kind : PieceKind) (text : String) :
      Reachable ((Session.mk checker m checks).enter kind text).2.machine

theorem Machine.Reachable.ready {m : Machine} (h : m.Reachable) : m.Ready := by
  induction h with
  | new level calls => exact (furnished_empty calls).ready_addRoot none level
  | inside stocked fit made => exact stocked.furnished.ready_inside fit made
  | moment _ here ih => exact ih.of_continues (ih.continues_moment here)
  | enter _ kind text ih => exact ih.enter kind text

end BlockScript
