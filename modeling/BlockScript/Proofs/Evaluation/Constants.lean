import BlockScript.Session
import BlockScript.Proofs.Evaluation.Evolution
import BlockScript.Proofs.Evaluation.Record
/-!
# Constants keep their values

Every operation of a run makes scopes evolve, on whatever machine, so from one moment of a run to
any later one a constant stays bound to the value that it was defined with. This needs nothing of
the program or of the scopes that are there; surroundings and sessions are made of the same
operations.
-/
namespace BlockScript

open Recorded Run

abbrev Anywhere : FrameId → Prop := fun _ => True

def Evolves {α : Type} (x : Run α) : Prop := ∀ m, Evolving Anywhere Anywhere m x

section Relation

variable {M : Type → Type} [Monad M] [MonadLiftT Run M]

def ProgramRelation.ofEvolves (Holds : ∀ {α : Type}, M α → Prop)
    (holds_pure : ∀ {α : Type} (a : α), Holds (pure a : M α))
    (holds_bind : ∀ {α β : Type} {x : M α} {f : α → M β}, Holds x → (∀ a, Holds (f a)) →
      Holds (x >>= f))
    (holds_lift : ∀ {α : Type} {x : Run α}, Evolves x → Holds (liftM x : M α)) :
    ProgramRelation M M where
  Rel x _ := Holds x
  Level := Eq
  Body := SameStatements
  body_refl := statements_same
  relates_pure := holds_pure
  relates_bind := holds_bind
  relates_settled result := holds_lift fun _ => evolving_lift result
  relates_printLine line := holds_lift fun _ => evolving_printLine line
  relates_newFrame parent := holds_lift fun _ => evolving_newFrame parent
  relates_bindArguments _ names values := holds_lift fun _ =>
    evolving_bindArguments names values trivial
  relates_findVariable scope name := holds_lift fun _ => evolving_findVariable scope name
  relates_assignVariable _ name value := holds_lift fun _ =>
    evolving_assignVariable name value fun _ _ _ => trivial
  relates_getField typeName members name := holds_lift fun _ =>
    evolving_getField typeName members name
  relates_setField typeName _ name value := holds_lift fun _ =>
    evolving_setField typeName name value fun _ _ _ => trivial
  relates_noteAt _ hline _ := holds_lift fun _ => evolving_noteAt _ _ hline
  relates_requireBoolean construct value _ := holds_lift fun _ =>
    evolving_requireBoolean _ construct value
  relates_bindVariable what name v _ := holds_lift fun _ => evolving_bindVariable what name v trivial
  relates_defineMethod node _ := holds_lift fun _ => evolving_defineMethod node trivial
  relates_findFunction scope signature _ _ hk :=
    holds_bind (holds_lift fun _ => evolving_findFunction scope signature) fun f =>
      hk f f (.same f)
  relates_findMethod typeName members name arguments _ _ hk :=
    holds_bind (holds_lift fun _ => evolving_findMethod typeName members name arguments) fun f =>
      hk f f (.same f)
  relates_findMain _ hk :=
    holds_bind (holds_lift fun _ => evolving_findMain _) fun f =>
      hk f f (.same f)

end Relation

section Steps

variable {α β : Type}

theorem Evolves.bind {x : Run α} {f : α → Run β} (h : Evolves x) (hf : ∀ a, Evolves (f a)) :
    Evolves (x >>= f) := fun m => (h m).bind hf

theorem Evolves.forM {f : α → Run PUnit} (hf : ∀ a, Evolves (f a)) (l : List α) :
    Evolves (l.forM f) := by
  induction l with
  | nil => exact fun _ => evolving_pure _
  | cons a l ih => exact (hf a).bind fun _ => ih

def evolution : ProgramRelation Run Run :=
  .ofEvolves Evolves (fun _ _ => evolving_pure _) Evolves.bind id

theorem evolve_steps (fuel : Nat) : (steps fuel).Relate evolution.toStepRelation (steps fuel) := by
  induction fuel with
  | zero => exact Steps.relate_giveUp _
  | succ fuel ih => exact ih.next fun _ hbody => congrArg _ hbody

end Steps

section Course

variable {α β : Type} {s s' s'' : Machine × List Event}

def Machine.After (later earlier : Machine) : Prop :=
  earlier.scopes.Evolves Anywhere Anywhere later.scopes

theorem Machine.After.trans {m m' m'' : Machine} (h : m''.After m') (h' : m'.After m) :
    m''.After m := Scopes.Evolves.trans h' h

/-- At each event that was added scopes have evolved from before, and they go on from there. -/
structure Course (s s' : Machine × List Event) : Prop where
  whole : s'.1.After s.1
  events : ∃ new, s'.2 = new ++ s.2 ∧ (∀ e ∈ new, e.machine.After s.1 ∧ s'.1.After e.machine) ∧
    new.Pairwise fun later earlier => later.machine.After earlier.machine

theorem Course.refl (s : Machine × List Event) : Course s s :=
  ⟨.refl _ _ _, [], rfl, fun _ he => absurd he List.not_mem_nil, .nil⟩

theorem Course.trans (h : Course s s') (h' : Course s' s'') : Course s s'' := by
  obtain ⟨hwhole, new, heq, hnew, hpairs⟩ := h
  obtain ⟨hwhole', new', heq', hnew', hpairs'⟩ := h'
  refine ⟨hwhole'.trans hwhole, new' ++ new, by rw [heq', heq, List.append_assoc], ?_, ?_⟩
  · intro e he
    obtain he | he := List.mem_append.mp he
    · exact ⟨(hnew' e he).1.trans hwhole, (hnew' e he).2⟩
    · exact ⟨(hnew e he).1, hwhole'.trans (hnew e he).2⟩
  · refine List.pairwise_append.mpr ⟨hpairs', hpairs, fun later hl earlier he => ?_⟩
    exact (hnew' later hl).1.trans (hnew earlier he).2

/-- An operation, or an event at which nothing happens. -/
theorem Course.cons {m : Machine} {events : List Event} {e : Event} (h : e.machine.After m) :
    Course (m, events) (e.machine, e :: events) := by
  refine ⟨h, [e], rfl, fun e' he' => ?_, List.pairwise_singleton _ _⟩
  cases List.mem_singleton.mp he'
  exact ⟨h, .refl _ _ _⟩

/-- The step adds events at which scopes evolve, whether it succeeds or fails. -/
def Coursing (x : Recorded α) : Prop :=
  ∀ s, Ends x s (fun _ s' => Course s s') fun _ s' => Course s s'

theorem Coursing.bind {x : Recorded α} {f : α → Recorded β} (h : Coursing x)
    (hf : ∀ a, Coursing (f a)) : Coursing (x >>= f) := by
  intro s
  refine ends_bind.mpr (Ends.imp (h s) (fun a s' hs' => ?_) fun _ _ => id)
  exact Ends.imp (hf a s') (fun _ _ hs'' => hs'.trans hs'') fun _ _ hs'' => hs'.trans hs''

theorem coursing_lift {x : Run α} (h : Evolves x) : Coursing (liftM x : Recorded α) := by
  intro s
  exact ends_lift.mpr (Ends.imp (h s.1) (fun _ m hm => Course.cons (e := .moved m) hm.scopes)
    fun _ m hm => Course.cons (e := .moved m) hm.scopes)

theorem coursing_record {event : Machine → Event} (h : ∀ m, (event m).machine = m) :
    Coursing (record event) := by
  intro s
  have hcourse : Course (s.1, s.2) ((event s.1).machine, event s.1 :: s.2) :=
    Course.cons (by rw [h]; exact .refl _ _ _)
  rw [h] at hcourse
  exact hcourse

theorem Coursing.around {x : Recorded α} {before : Machine → Event} {after : α → Machine → Event}
    (h : Coursing x) (hbefore : ∀ m, (before m).machine = m)
    (hafter : ∀ a m, (after a m).machine = m) : Coursing (around before after x) :=
  (coursing_record hbefore).bind fun _ => h.bind fun a =>
    (coursing_record (hafter a)).bind fun _ s => Course.refl s

def coursing : ProgramRelation Recorded Recorded :=
  .ofEvolves Coursing (fun _ s => Course.refl s) Coursing.bind coursing_lift

theorem course_recordedSteps (fuel : Nat) :
    (recordedSteps fuel).Relate coursing.toStepRelation (recordedSteps fuel) := by
  induction fuel with
  | zero => exact Steps.relate_giveUp _
  | succ fuel ih =>
    exact
      { evaluate := fun node hab => (ih.evaluateNode hab node).around (fun _ => rfl) fun _ _ => rfl
        evaluateAll := fun nodes hab => ih.evaluateNodes hab nodes
        operate := fun operator l r => (coursing_record fun _ => rfl).bind fun _ =>
          coursing_lift fun _ => evolving_lift _
        write := fun v => (coursing_record fun _ => rfl).bind fun _ =>
          coursing_lift fun _ => (shows_text v).evolving
        invoke := fun signature values hab hfg =>
          (ih.invokeFunction hab hfg signature values).around (fun _ => rfl) fun _ _ => rfl
        execute := fun node hab => (ih.executeNode hab node).around (fun _ => rfl) fun _ _ => rfl
        executeLoop := fun construct condition increment statements hab =>
          ih.executeRound hab construct condition increment statements
        executeAll := fun hab hbody => hbody ▸ ih.executeNodes hab _ }

end Course

namespace Machine

def momentsWithin (fuel : Nat) (m : Machine) (program : Node) : List Machine :=
  (m.runWithin fuel program).2 :: (m.eventsWithin fuel program).map Event.machine ++ [m]

theorem after_of_moments (fuel : Nat) (m : Machine) (program : Node) :
    (m.momentsWithin fuel program).Pairwise After := by
  have hrun : Coursing (executeProgram (recordedSteps fuel) m.activation program) :=
    (course_recordedSteps fuel).executeProgram (.refl (fun _ => rfl) m.activation) program
  obtain ⟨final, ⟨hwhole, new, heq, hnew, hpairs⟩, hrunWithin⟩ := exists_final_of_ends (hrun (m, []))
  have hscopes : (m.runWithin fuel program).2.scopes = final.scopes := by rw [hrunWithin]
  have hfinal : ∀ earlier : Machine, final.After earlier →
      (m.runWithin fuel program).2.After earlier := by
    intro earlier h
    unfold After
    rw [hscopes]
    exact h
  have hevents : m.eventsWithin fuel program = new := by simpa using heq
  unfold momentsWithin
  rw [hevents, List.cons_append, List.pairwise_cons, List.pairwise_append, List.pairwise_map]
  refine ⟨fun earlier he => hfinal earlier ?_, hpairs, List.pairwise_singleton _ _, ?_⟩
  · obtain he | he := List.mem_append.mp he
    · obtain ⟨e, hmem, rfl⟩ := List.mem_map.mp he
      exact (hnew e hmem).2
    · cases List.mem_singleton.mp he
      exact hwhole
  · intro later hl earlier he
    obtain ⟨e, hmem, rfl⟩ := List.mem_map.mp hl
    cases List.mem_singleton.mp he
    exact (hnew e hmem).1

theorem after_addRoot (m : Machine) (parent : Option FrameId) (level : Nat) :
    (m.addRoot parent level).After m := by
  have hframe : m.scopes.Evolves Anywhere Anywhere (m.scopes.addFrame parent) :=
    (Scopes.keeps_addFrame m.scopes parent).evolves
  exact hframe.trans (Scopes.evolves_addFunction _ _ trivial)

end Machine

theorem HostEntry.evolving_placed {assigned extended : FrameId → Prop} {m : Machine}
    (frame : FrameId) : Evolving assigned extended m (HostEntry.placed frame) :=
  evolving_same ⟨rfl, rfl⟩

theorem evolves_makeObject (typeName : String) (members : Node) :
    Evolves (makeObject typeName members) := by
  have hfields : ∀ a, Evolves (members.members.1.forM (executeField (steps stepLimit) a)) :=
    fun a => .forM (fun field => (evolve_steps stepLimit).executeField
      (.refl (fun _ => rfl) a) field) _
  have hmethods : ∀ a, Evolves (members.members.2.forM (defineMethod a)) :=
    fun a => .forM (fun method _ => evolving_defineMethod method trivial) _
  exact Evolves.bind (fun _ => evolving_newFrame none) fun frame =>
    Evolves.bind (fun _ => HostEntry.evolving_placed frame) fun a =>
      (hfields a).bind fun _ => (hmethods a).bind fun _ _ => evolving_pure _

theorem HostEntry.evolves_define (scope : FrameId) (entry : HostEntry) :
    Evolves (entry.define scope) := by
  cases entry with
  | binding name javaName constant typeName value =>
    exact fun _ => evolving_defineVariable name _ trivial
  | object name javaName constant typeName typeJavaName members =>
    exact (evolves_makeObject typeName members).bind fun value _ =>
      evolving_defineVariable name _ trivial
  | methods program => exact .forM (fun method _ => evolving_defineMethod method trivial) _
  | function name javaName parameterTypes returnType act =>
    exact fun _ => evolving_defineFunction _ _ trivial

theorem PieceKind.evolves_run (kind : PieceKind) (a : Activation) (node : Node)
    (type : Option StaticType) : Evolves (kind.run a node type) := by
  have hsteps := evolve_steps stepLimit
  have ha : a.Related Eq a := .refl (fun _ => rfl) a
  cases kind with
  | field => exact Evolves.bind (hsteps.executeField ha node) fun _ _ => evolving_pure _
  | method =>
    exact Evolves.bind (fun _ => evolving_defineMethod node trivial) fun _ _ => evolving_pure _
  | statement =>
    refine Evolves.bind (hsteps.execute node ha) fun result => ?_
    cases result <;> exact fun _ => evolving_pure _
  | expression => exact Evolves.bind (hsteps.evaluate node ha) fun _ _ => evolving_pure _
  | program => exact Evolves.bind (hsteps.executeSource ha node) fun _ _ => evolving_pure _

theorem Evolves.after_outcome {α : Type} {x : Run α} (h : Evolves x) (m : Machine) :
    (x.outcome m).2.After m := by
  have hm := h m
  unfold Evolving Ends at hm
  unfold Run.outcome
  cases hx : x m with
  | ok a m' =>
    rw [hx] at hm
    exact hm.scopes
  | error fault m' =>
    rw [hx] at hm
    exact hm.scopes

namespace Machine

/-- A constant that a frame of the earlier machine binds is bound there to the same value, and a
look-up that comes to this frame finds it. -/
def KeepsConstants (earlier later : Machine) : Prop :=
  ∀ home name value, earlier.scopes.Binds home name ⟨true, value⟩ →
    later.scopes.Binds home name ⟨true, value⟩ ∧
      ∀ scope found, later.scopes.findVariable? scope name = some (home, found) →
        found = ⟨true, value⟩

theorem After.keepsConstants {later earlier : Machine} (h : later.After earlier) :
    earlier.KeepsConstants later := by
  intro home name value hb
  obtain ⟨w, hw, hbecomes⟩ := Scopes.Evolves.binds h hb
  obtain rfl : w = ⟨true, value⟩ := hbecomes.eq rfl
  refine ⟨hw, fun scope found hfound => ?_⟩
  obtain ⟨fr, hfr, hv⟩ := hw
  obtain ⟨fr', hfr', hv'⟩ := Scopes.nearest?_eq_some hfound
  cases hfr.symm.trans hfr'
  exact Option.some.inj (hv'.symm.trans hv)

theorem after_inside {m m' : Machine} {entries : List HostEntry} {level : Nat}
    (h : m.inside entries level = .ok m') : m'.After m := by
  have hentries : Evolves (do
      let frame ← newFrame none
      entries.forM (HostEntry.define frame)
      return frame) :=
    Evolves.bind (fun _ => evolving_newFrame none) fun frame =>
      (Evolves.forM (HostEntry.evolves_define frame) entries).bind fun _ _ => evolving_pure _
  have hafter := hentries.after_outcome m
  unfold inside at h
  revert h
  generalize Run.outcome _ m = outcome at hafter
  obtain ⟨result, surroundings⟩ := outcome
  intro h
  cases result with
  | error fault => cases h
  | ok frame =>
    cases h
    exact (after_addRoot surroundings (some frame) level).trans hafter

/-- What is entered runs on the machine, or it does not come to that. -/
theorem enter_machine (s : Session) (kind : PieceKind) (text : String) :
    (s.enter kind text).2.machine = s.machine ∨ ∃ node type, (s.enter kind text).2.machine =
      ((kind.run s.machine.activation node type).outcome s.machine).2 := by
  have hchecked : ∀ node, (s.checked kind node).2.machine = s.machine := by
    intro node
    unfold Session.checked
    split <;> rfl
  unfold Session.enter
  cases kind.read text with
  | error fault => exact .inl rfl
  | ok node =>
    dsimp only
    have hsame := hchecked node
    split
    · next fault s' h =>
      rw [h] at hsame
      exact .inl hsame
    · next node' type s' h =>
      rw [h] at hsame
      refine .inr ⟨node', type, ?_⟩
      rw [← hsame]

theorem after_enter (s : Session) (kind : PieceKind) (text : String) :
    (s.enter kind text).2.machine.After s.machine := by
  obtain hsame | ⟨node, type, hrun⟩ := enter_machine s kind text
  · rw [hsame]
    exact .refl _ _ _
  · rw [hrun]
    exact (kind.evolves_run s.machine.activation node type).after_outcome s.machine

/-- From each moment of a run to each later one, constants are kept, whatever the program is and
whatever machine it runs on, and also if it fails. They are kept as well when surroundings are made,
and by every piece that is entered in a session, with or without success. -/
theorem constants_never_change (m : Machine) :
    (∀ fuel program, (m.momentsWithin fuel program).Pairwise fun later earlier =>
      earlier.KeepsConstants later) ∧
    (∀ entries level m', m.inside entries level = .ok m' → m.KeepsConstants m') ∧
    ∀ (checker : Checker) (checks : Bool) (kind : PieceKind) (text : String),
      m.KeepsConstants ((Session.mk checker m checks).enter kind text).2.machine := by
  refine ⟨fun fuel program => ?_, fun entries level m' h => ?_, fun checker checks kind text => ?_⟩
  · exact (after_of_moments fuel m program).imp After.keepsConstants
  · exact (after_inside h).keepsConstants
  · exact (after_enter ⟨checker, m, checks⟩ kind text).keepsConstants

end Machine

end BlockScript
