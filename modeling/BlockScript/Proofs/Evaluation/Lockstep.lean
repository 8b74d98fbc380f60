import BlockScript.Proofs.Collapse
import BlockScript.Proofs.Evaluation.Discipline
import BlockScript.Proofs.Evaluation.Observation
/-!
# Runs over frames put between others

Two machines that differ by frames put between others take the same steps. What a step gives is the
same, and so is what it prints: objects and methods are known by frames that were there before, and
those have the same number in both.
-/
namespace BlockScript

open Run

/-- The second machine is as the first one but for frames put between others. Objects and methods
keep to the frames below `n`, which the second machine has. -/
structure Machine.Collapses (n : Nat) (τ : FrameId → FrameId) (main : FrameId → Prop)
    (m w : Machine) : Prop where
  scopes : m.scopes.Collapses τ main w.scopes
  console : w.console = m.console
  bound : m.scopes.All (fun _ _ v => v.value.Shares (· < n)) fun _ f => f.Shares (· < n)
  there : n ≤ w.scopes.next

variable {α β : Type} {n : Nat} {τ : FrameId → FrameId} {main : FrameId → Prop}

/-- A main frame and the one it stands for bind a variable. -/
theorem Machine.Collapses.addVariable {m w : Machine} {j : FrameId} (h : m.Collapses n τ main w)
    (hj : main j) (name : String) {v : Variable} (hv : v.value.Shares (· < n)) :
    Machine.Collapses n τ main { m with scopes := m.scopes.addVariable (τ j) name v }
      { w with scopes := w.scopes.addVariable j name v } where
  scopes := h.scopes.addVariable hj name v
  console := h.console
  bound := h.bound.addVariable hv
  there := by
    rw [Scopes.addVariable, Scopes.next_update]
    exact h.there

/-- A main frame and the one it stands for give a variable another value. -/
theorem Machine.Collapses.setVariable {m w : Machine} {j : FrameId} (h : m.Collapses n τ main w)
    (hj : main j) (name : String) {v : Variable} (hv : v.value.Shares (· < n)) :
    Machine.Collapses n τ main { m with scopes := m.scopes.setVariable (τ j) name v }
      { w with scopes := w.scopes.setVariable j name v } where
  scopes := h.scopes.setVariable hj name v
  console := h.console
  bound := h.bound.setVariable hv
  there := by
    rw [Scopes.setVariable, Scopes.next_update]
    exact h.there

/-- The same ends on such machines, with a result as `Q` says. -/
inductive Alike (n : Nat) (τ : FrameId → FrameId) (main : FrameId → Prop) (Q : α → Prop) :
    Except Fault α × Machine → Except Fault α × Machine → Prop where
  | ok {a : α} {m w : Machine} (machines : m.Collapses n τ main w) (holds : Q a) :
      Alike n τ main Q (.ok a, m) (.ok a, w)
  | error {fault : Fault} {m w : Machine} (machines : m.Collapses n τ main w) :
      Alike n τ main Q (.error fault, m) (.error fault, w)

def Parallels (n : Nat) (τ : FrameId → FrameId) (main : FrameId → Prop) (Q : α → Prop)
    (x y : Run α) : Prop :=
  ∀ ⦃m w : Machine⦄, m.Collapses n τ main w → Alike n τ main Q (x.outcome m) (y.outcome w)

section Operations

variable {Q : α → Prop} {R : β → Prop} {j : FrameId}

theorem parallels_pure {a : α} (hq : Q a) : Parallels n τ main Q (pure a) (pure a) :=
  fun _ _ h => .ok h hq

theorem parallels_throw (fault : Fault) : Parallels n τ main Q (throw fault) (throw fault) :=
  fun _ _ h => .error h

theorem parallels_lift {result : Except Fault α} (hq : ∀ a, result = .ok a → Q a) :
    Parallels n τ main Q (lift result) (lift result) := by
  cases result with
  | ok a => exact parallels_pure (hq a rfl)
  | error fault => exact parallels_throw fault

theorem Parallels.bind {x y : Run α} {f g : α → Run β} (h : Parallels n τ main Q x y)
    (hf : ∀ a, Q a → Parallels n τ main R (f a) (g a)) : Parallels n τ main R (x >>= f) (y >>= g) := by
  intro m w hm
  have hends := h hm
  rw [outcome_bind, outcome_bind]
  generalize x.outcome m = e at hends ⊢
  generalize y.outcome w = e' at hends ⊢
  cases hends with
  | ok machines holds => exact hf _ holds machines
  | error machines => exact .error machines

/-- A step that begins with a look at the machine. -/
theorem parallels_get {f g : Machine → Run α}
    (h : ∀ m w : Machine, m.Collapses n τ main w →
      Alike n τ main Q ((f m).outcome m) ((g w).outcome w)) :
    Parallels n τ main Q (MonadState.get >>= f) (MonadState.get >>= g) :=
  fun m w hm => h m w hm

theorem Shows.parallels {line : Run α} (h : Shows line) :
    Parallels n τ main (fun _ => True) line line := by
  obtain ⟨text, rfl⟩ | rfl := h
  · exact parallels_pure trivial
  · exact parallels_throw _

theorem parallels_printLine (line : String) :
    Parallels n τ main (fun _ => True) (printLine line) (printLine line) := by
  intro m w h
  refine .ok ⟨h.scopes, ?_, h.bound, h.there⟩ trivial
  exact congrArg (·.printLine line) h.console

theorem parallels_note (line : String) : Parallels n τ main (fun _ => True) (note line) (note line) := by
  intro m w h
  refine .ok ⟨h.scopes, ?_, h.bound, h.there⟩ trivial
  exact congrArg (·.note .running line) h.console

/-- A line of the trace depends only on the level of the activation. -/
theorem parallels_noteAt {a b : Activation} (hlevel : a.level = b.level) (least : Nat)
    {line : Run String} (h : Shows line) :
    Parallels n τ main (fun _ => True) (noteAt a least line) (noteAt b least line) := by
  unfold noteAt
  rw [hlevel]
  split
  · exact h.parallels.bind fun text _ => parallels_note text
  · exact parallels_pure trivial

theorem parallels_requireBoolean {a b : Activation} (hlevel : a.level = b.level)
    (construct : String) (v : Value) :
    Parallels n τ main (fun _ => True) (requireBoolean a construct v)
      (requireBoolean b construct v) := by
  unfold requireBoolean
  split
  · refine (parallels_noteAt hlevel 3 ?_).bind fun _ _ => parallels_pure trivial
    exact (shows_text _).bind fun _ => shows_pure _
  · exact parallels_throw _

theorem parallels_newFrame (parent : Option FrameId) {f g : FrameId → Run α}
    (h : ∀ j, main j → Parallels n τ main Q (f (τ j)) (g j)) :
    Parallels n τ main Q (newFrame (parent.map τ) >>= f) (newFrame parent >>= g) := by
  intro m w hm
  have hruns (m : Machine) (p : Option FrameId) (k : FrameId → Run α) :
      (newFrame p >>= k).outcome m =
        (k m.scopes.next).outcome { m with scopes := m.scopes.addFrame p } := rfl
  rw [hruns, hruns, ← hm.scopes.next_eq]
  refine h _ (hm.scopes.fresh 0).1 ⟨hm.scopes.addFrame parent, hm.console, hm.bound.addFrame _, ?_⟩
  exact Nat.le_trans hm.there (by rw [Scopes.next_addFrame]; exact Nat.le_succ _)

theorem parallels_defineVariable (hj : main j) (name : String) {v : Variable}
    (hv : v.value.Shares (· < n)) :
    Parallels n τ main (fun _ => True) (defineVariable (τ j) name v) (defineVariable j name v) := by
  refine parallels_get fun m w hm => ?_
  rw [hm.scopes.bindsVariable hj]
  split
  · exact .error hm
  · exact .ok (hm.addVariable hj name hv) trivial

theorem parallels_bindVariable {b : Activation} (hb : main b.scope) (what name : String) {v : Variable}
    (hv : v.value.Shares (· < n)) :
    Parallels n τ main (fun _ => True) (bindVariable (b.within (τ b.scope)) what name v)
      (bindVariable b what name v) := by
  refine (parallels_defineVariable hb name hv).bind fun _ _ => parallels_noteAt rfl 2 ?_
  exact (shows_text _).bind fun _ => shows_pure _

theorem parallels_bindArguments (hj : main j) (names : List String) {values : List Value}
    (hvalues : ∀ v ∈ values, v.Shares (· < n)) :
    Parallels n τ main (fun _ => True) (bindArguments (τ j) names values)
      (bindArguments j names values) := by
  induction names generalizing values with
  | nil => exact parallels_pure trivial
  | cons name names ih =>
    cases values with
    | nil => exact parallels_pure trivial
    | cons v values =>
      obtain ⟨hv, hvalues⟩ := List.forall_mem_cons.mp hvalues
      have hdefine : Parallels n τ main (fun _ => True) (defineVariable (τ j) name ⟨false, v⟩)
          (defineVariable j name ⟨false, v⟩) := parallels_defineVariable hj name hv
      exact hdefine.bind fun _ _ => ih hvalues

/-- What a name means is found in a main frame. -/
theorem parallels_findVariable (j : FrameId) (name : String) {f g : FrameId × Variable → Run α}
    (h : ∀ home v, main home → v.value.Shares (· < n) →
      Parallels n τ main Q (f (τ home, v)) (g (home, v))) :
    Parallels n τ main Q (findVariable (τ j) name >>= f) (findVariable j name >>= g) := by
  intro m w hm
  rw [outcome_bind, outcome_bind, outcome_findVariable, outcome_findVariable]
  obtain ⟨hs, hw⟩ | ⟨⟨home, v⟩, ⟨home', v'⟩, hs, hw, hmain, hhome, hv⟩ :=
    rel_cases (hm.scopes.findVariable? j name) <;> rw [hs, hw]
  · exact .error hm
  · obtain rfl : home = τ home' := hhome
    obtain rfl : v = v' := hv
    exact h home' v hmain (hm.bound.of_findVariable? hs) hm

theorem parallels_findFunction (j : FrameId) (signature : Signature) :
    Parallels n τ main (Function.Shares (· < n)) (findFunction (τ j) signature)
      (findFunction j signature) := by
  intro m w hm
  rw [outcome_findFunction, outcome_findFunction]
  obtain ⟨hs, hw⟩ | ⟨⟨home, f⟩, ⟨home', f'⟩, hs, hw, -, -, hf⟩ :=
    rel_cases (hm.scopes.findFunction? j signature) <;> rw [hs, hw]
  · exact .error hm
  · obtain rfl : f = f' := hf
    exact .ok hm (hm.bound.of_findFunction? hs)

theorem parallels_assignVariable (j : FrameId) (name : String) {v : Value} (hv : v.Shares (· < n)) :
    Parallels n τ main (fun _ => True) (assignVariable (τ j) name v) (assignVariable j name v) := by
  refine parallels_findVariable j name fun home old hhome _ => ?_
  dsimp only
  split
  · exact parallels_throw _
  · exact fun m w hm => .ok (hm.setVariable hhome name hv) trivial

section Members

variable {members : FrameId}

theorem parallels_getField (hmembers : τ members = members) (typeName name : String) :
    Parallels n τ main (Value.Shares (· < n)) (getField typeName members name)
      (getField typeName members name) := by
  refine parallels_get fun m w hm => ?_
  have hfound := hm.scopes.findVariable? members name
  rw [hmembers] at hfound
  obtain ⟨hs, hw⟩ | ⟨⟨home, v⟩, ⟨home', v'⟩, hs, hw, -, -, hv⟩ := rel_cases hfound <;> rw [hs, hw]
  · exact .error hm
  · obtain rfl : v = v' := hv
    exact .ok hm (hm.bound.of_findVariable? hs)

theorem parallels_setField (hmembers : τ members = members) (typeName name : String) {v : Value}
    (hv : v.Shares (· < n)) :
    Parallels n τ main (fun _ => True) (setField typeName members name v)
      (setField typeName members name v) := by
  refine parallels_get fun m w hm => ?_
  have hfound := hm.scopes.findVariable? members name
  rw [hmembers] at hfound
  obtain ⟨hs, hw⟩ | ⟨⟨home, old⟩, ⟨home', old'⟩, hs, hw, hmain, hhome, hold⟩ :=
    rel_cases hfound <;> rw [hs, hw]
  · exact .error hm
  · obtain rfl : home = τ home' := hhome
    obtain rfl : old = old' := hold
    dsimp only
    split
    · exact .error hm
    · exact .ok (hm.setVariable hmain name hv) trivial

theorem parallels_findMethod (hmembers : τ members = members) (typeName name : String)
    (arguments : Nat) :
    Parallels n τ main (Function.Shares (· < n)) (findMethod typeName members name arguments)
      (findMethod typeName members name arguments) := by
  intro m w hm
  rw [outcome_findMethod, outcome_findMethod]
  have hfound := hm.scopes.findFunction? members ⟨name, arguments + 1⟩
  rw [hmembers] at hfound
  obtain ⟨hs, hw⟩ | ⟨⟨home, f⟩, ⟨home', f'⟩, hs, hw, -, -, hf⟩ := rel_cases hfound <;> rw [hs, hw]
  · exact .error hm
  · obtain rfl : f = f' := hf
    exact .ok hm (hm.bound.of_findFunction? hs)

end Members

end Operations

/-- Each kind of step comes to the same end in a frame and in the one that it stands for. A
declaration has to be in a main frame. -/
structure Steps.Parallel (n : Nat) (τ : FrameId → FrameId) (main : FrameId → Prop) (t : Steps Run) :
    Prop where
  evaluate : ∀ b node, Parallels n τ main (Value.Shares (· < n))
    (t.evaluate (b.within (τ b.scope)) node) (t.evaluate b node)
  evaluateAll : ∀ b nodes, Parallels n τ main (fun vs => ∀ v ∈ vs, v.Shares (· < n))
    (t.evaluateAll (b.within (τ b.scope)) nodes) (t.evaluateAll b nodes)
  operate : ∀ operator l r, Parallels n τ main (Value.Shares (· < n)) (t.operate operator l r)
    (t.operate operator l r)
  write : ∀ v, Parallels n τ main (fun _ => True) (t.write v) (t.write v)
  invoke : ∀ b signature {f : Function} {values : List Value}, f.Shares (· < n) →
    (∀ v ∈ values, v.Shares (· < n)) →
      Parallels n τ main (Value.Shares (· < n)) (t.invoke (b.within (τ b.scope)) signature f values)
        (t.invoke b signature f values)
  execute : ∀ (b : Activation) (node : Node), (node.Declares → main b.scope) →
    Parallels n τ main (fun r => ∀ v ∈ r, v.Shares (· < n)) (t.execute (b.within (τ b.scope)) node)
      (t.execute b node)
  executeLoop : ∀ (b : Activation) (construct : String) (condition increment : Node)
    (statements : List Node), (increment.Declares → main b.scope) →
      Parallels n τ main (fun r => ∀ v ∈ r, v.Shares (· < n))
        (t.executeLoop (b.within (τ b.scope)) construct condition increment statements)
        (t.executeLoop b construct condition increment statements)
  executeAll : ∀ (b : Activation) (nodes : List Node), main b.scope →
    Parallels n τ main (fun r => ∀ v ∈ r, v.Shares (· < n))
      (t.executeAll (b.within (τ b.scope)) nodes) (t.executeAll b nodes)

namespace Steps.Parallel

variable {R : β → Prop} {t : Steps Run} {b : Activation}

/-- A condition, and what is done for its truth value. -/
theorem evaluateCondition (h : t.Parallel n τ main) (construct : String) (node : Node)
    {f g : Bool → Run β} (hnext : ∀ c, Parallels n τ main R (f c) (g c)) :
    Parallels n τ main R (do
        let v ← t.evaluate (b.within (τ b.scope)) node
        let c ← requireBoolean (b.within (τ b.scope)) construct v
        f c) (do
        let v ← t.evaluate b node
        let c ← requireBoolean b construct v
        g c) :=
  (h.evaluate b node).bind fun v _ =>
    (parallels_requireBoolean rfl construct v).bind fun c _ => hnext c

theorem evaluateBinary (h : t.Parallel n τ main) (operator : String) (left right : Node)
    (type : Option StaticType) :
    Parallels n τ main (Value.Shares (· < n))
      (t.evaluateNode (b.within (τ b.scope)) (.binary operator left right type))
      (t.evaluateNode b (.binary operator left right type)) := by
  have hboolean (node : Node) :
      Parallels n τ main (Value.Shares (· < n)) (do
        let v ← t.evaluate (b.within (τ b.scope)) node
        let c ← requireBoolean (b.within (τ b.scope)) operator v
        pure (.boolean c)) (do
        let v ← t.evaluate b node
        let c ← requireBoolean b operator v
        pure (.boolean c)) :=
    h.evaluateCondition operator node fun _ => parallels_pure trivial
  unfold Steps.evaluateNode
  by_cases hand : conjunctions.contains operator
  · simp only [if_pos hand]
    refine h.evaluateCondition operator left fun c => ?_
    cases c with
    | true => exact hboolean right
    | false => exact parallels_pure trivial
  by_cases hor : disjunctions.contains operator
  · simp only [if_neg hand, if_pos hor]
    refine h.evaluateCondition operator left fun c => ?_
    cases c with
    | true => exact parallels_pure trivial
    | false => exact hboolean right
  simp only [if_neg hand, if_neg hor]
  exact (h.evaluate b left).bind fun l _ => (h.evaluate b right).bind fun r _ =>
    h.operate operator l r

theorem evaluateNode (h : t.Parallel n τ main) (ha : Scopes.Aligned n τ main) (node : Node) :
    Parallels n τ main (Value.Shares (· < n)) (t.evaluateNode (b.within (τ b.scope)) node)
      (t.evaluateNode b node) := by
  unfold Steps.evaluateNode
  split
  · next value _ => exact parallels_pure value.shares_toValue
  · next inner _ => exact h.evaluate b inner
  · next operator left right type => exact h.evaluateBinary operator left right type
  · next receiver name _ _ =>
    split
    · exact parallels_findVariable b.scope name fun home v _ hv => parallels_pure hv
    · refine (h.evaluate b receiver).bind fun v hv => ?_
      split
      · next typeName members => exact parallels_getField (ha.fixes members hv) typeName name
      · exact parallels_throw _
  · next receiver name arguments _ _ =>
    split
    · refine (h.evaluateAll b arguments).bind fun values hvalues => ?_
      exact (parallels_findFunction b.scope _).bind fun f hf => h.invoke b _ hf hvalues
    · refine (h.evaluate b receiver).bind fun target htarget => ?_
      refine (h.evaluateAll b arguments).bind fun values hvalues => ?_
      split
      · next typeName members =>
        refine (parallels_findMethod (ha.fixes members htarget) typeName name _).bind fun f hf => ?_
        exact h.invoke b _ hf (List.forall_mem_cons.mpr ⟨htarget, hvalues⟩)
      · exact parallels_throw _
  · exact parallels_throw _

theorem evaluateNodes (h : t.Parallel n τ main) (nodes : List Node) :
    Parallels n τ main (fun vs => ∀ v ∈ vs, v.Shares (· < n))
      (t.evaluateNodes (b.within (τ b.scope)) nodes) (t.evaluateNodes b nodes) := by
  cases nodes with
  | nil => exact parallels_pure fun _ hv => absurd hv List.not_mem_nil
  | cons node rest =>
    exact (h.evaluate b node).bind fun v hv => (h.evaluateAll b rest).bind fun vs hvs =>
      parallels_pure (List.forall_mem_cons.mpr ⟨hv, hvs⟩)

/-- A method runs under a frame that stands for itself. -/
theorem invokeFunction (h : t.Parallel n τ main) (ha : Scopes.Aligned n τ main)
    (signature : Signature) {f : Function} (hf : f.Shares (· < n)) {values : List Value}
    (hvalues : ∀ v ∈ values, v.Shares (· < n)) :
    Parallels n τ main (Value.Shares (· < n))
      (t.invokeFunction (b.within (τ b.scope)) signature f values)
      (t.invokeFunction b signature f values) := by
  unfold Steps.invokeFunction
  split
  · exact parallels_throw _
  · split
    · next v =>
      exact (h.write v).bind fun line _ => (parallels_printLine line).bind fun _ _ =>
        parallels_pure trivial
    · exact parallels_throw _
  · next home level name parameters statements hbody =>
    have hhome : (some home).map τ = some home :=
      congrArg some (ha.fixes home (hf home level name parameters statements hbody))
    rw [show (b.within (τ b.scope)).calls = b.calls from rfl]
    split
    · exact parallels_throw _
    · next calls _ =>
      have hframe : Parallels n τ main (Value.Shares (· < n))
          (newFrame ((some home).map τ) >>= fun i => do
            bindArguments i parameters values
            noteAt ⟨i, calls, level⟩ 3 (return "call " ++ name ++ "(" ++ (← texts values) ++ ")")
            return (← t.executeAll ⟨i, calls, level⟩ statements).getD .nil)
          (newFrame (some home) >>= fun i => do
            bindArguments i parameters values
            noteAt ⟨i, calls, level⟩ 3 (return "call " ++ name ++ "(" ++ (← texts values) ++ ")")
            return (← t.executeAll ⟨i, calls, level⟩ statements).getD .nil) := by
        refine parallels_newFrame (some home) fun j hj => ?_
        refine (parallels_bindArguments hj parameters hvalues).bind fun _ _ => ?_
        have hshows : Shows (do return "call " ++ name ++ "(" ++ (← texts values) ++ ")" : Run String) :=
          (shows_texts values).bind fun _ => shows_pure _
        refine (parallels_noteAt rfl 3 hshows).bind fun _ _ => ?_
        refine (h.executeAll ⟨j, calls, level⟩ statements hj).bind fun result hresult => ?_
        cases result with
        | none => exact parallels_pure trivial
        | some v => exact parallels_pure (hresult v rfl)
      rw [hhome] at hframe
      exact hframe
  · exact parallels_lift fun _ hv => shares_callHost hv hvalues

/-- A block has a frame of its own, in which its declarations bind. -/
theorem executeInner (h : t.Parallel n τ main) (nodes : List Node) :
    Parallels n τ main (fun r => ∀ v ∈ r, v.Shares (· < n)) (do
        let i ← newFrame (some (τ b.scope))
        t.executeAll ((b.within (τ b.scope)).within i) nodes) (do
        let i ← newFrame (some b.scope)
        t.executeAll (b.within i) nodes) :=
  parallels_newFrame (some b.scope) fun j hj => h.executeAll (b.within j) nodes hj

/-- A part of the header of a loop is executed unless it is left out. -/
theorem executeHeader (h : t.Parallel n τ main) {node : Node} (hnode : node.Declares → main b.scope)
    {x y : Run β} (hnext : Parallels n τ main R x y) :
    Parallels n τ main R (if node.isAbsent then x else do
        let _ ← t.execute (b.within (τ b.scope)) node
        x) (if node.isAbsent then y else do
        let _ ← t.execute b node
        y) := by
  split
  · exact hnext
  · exact (h.execute b node hnode).bind fun _ _ => hnext

theorem executeRound (h : t.Parallel n τ main) (construct : String) (condition : Node)
    {increment : Node} (statements : List Node) (hincrement : increment.Declares → main b.scope) :
    Parallels n τ main (fun r => ∀ v ∈ r, v.Shares (· < n))
      (t.executeRound (b.within (τ b.scope)) construct condition increment statements)
      (t.executeRound b construct condition increment statements) := by
  refine h.evaluateCondition construct condition fun c => ?_
  cases c with
  | false => exact parallels_pure fun _ hv => absurd hv (Option.not_mem_none _)
  | true =>
    simp only [if_pos]
    rw [← bind_assoc, ← bind_assoc]
    refine (h.executeInner statements).bind fun result hresult => ?_
    cases result with
    | some v => exact parallels_pure hresult
    | none =>
      exact h.executeHeader hincrement
        (h.executeLoop b construct condition increment statements hincrement)

theorem executeNode (h : t.Parallel n τ main) (ha : Scopes.Aligned n τ main) (node : Node)
    (hnode : node.Declares → main b.scope) :
    Parallels n τ main (fun r => ∀ v ∈ r, v.Shares (· < n))
      (t.executeNode (b.within (τ b.scope)) node) (t.executeNode b node) := by
  have hnone {α : Type} {x y : Run α} {Q : α → Prop} (hxy : Parallels n τ main Q x y) :
      Parallels n τ main (fun r : Option Value => ∀ v ∈ r, v.Shares (· < n))
        (x >>= fun _ => pure none) (y >>= fun _ => pure none) :=
    hxy.bind fun _ _ => parallels_pure fun _ hv => absurd hv (Option.not_mem_none _)
  unfold Steps.executeNode
  split
  · next expression => exact hnone (h.evaluate b expression)
  · next name typeName value bound =>
    have hvalue : Parallels n τ main (Value.Shares (· < n))
        (if value.isAbsent then pure Value.nil else t.evaluate (b.within (τ b.scope)) value)
        (if value.isAbsent then pure Value.nil else t.evaluate b value) := by
      split
      · exact parallels_pure trivial
      · exact h.evaluate b value
    have hdeclares : main b.scope := hnode ⟨_, _, _, _, rfl⟩
    have hbind (v : Value) (hv : v.Shares (· < n)) : Parallels n τ main (fun _ => True)
        (bindVariable (b.within (τ b.scope)) "declare" name ⟨false, v⟩)
        (bindVariable b "declare" name ⟨false, v⟩) :=
      parallels_bindVariable hdeclares "declare" name hv
    have hjoined := hvalue.bind fun v hv => hnone (hbind v hv)
    split <;> simp_all
  · next receiver value =>
    split
    · next object name _ _ =>
      refine (h.evaluate b value).bind fun v hv => ?_
      split
      · exact hnone (parallels_assignVariable b.scope name hv)
      · refine (h.evaluate b object).bind fun target htarget => ?_
        split
        · next typeName members =>
          exact hnone (parallels_setField (ha.fixes members htarget) typeName name hv)
        · exact parallels_throw _
    · exact parallels_throw _
  · next condition thens elses =>
    refine h.evaluateCondition "if" condition fun c => ?_
    cases c with
    | true => exact h.executeInner thens
    | false => exact h.executeInner elses
  · next initialization condition increment statements =>
    refine parallels_newFrame (some b.scope) fun j hj => ?_
    exact h.executeHeader (b := b.within j) (fun _ => hj)
      (h.executeLoop (b.within j) "for" condition increment statements fun _ => hj)
  · next condition statements =>
    refine h.executeLoop b "while" condition .absent statements fun hdeclares => ?_
    obtain ⟨_, _, _, _, habsent⟩ := hdeclares
    cases habsent
  · next value =>
    refine (h.evaluate b value).bind fun v hv => parallels_pure ?_
    rintro _ ⟨⟩
    exact hv
  · exact parallels_throw _

theorem executeNodes (h : t.Parallel n τ main) (nodes : List Node) (hb : main b.scope) :
    Parallels n τ main (fun r => ∀ v ∈ r, v.Shares (· < n))
      (t.executeNodes (b.within (τ b.scope)) nodes) (t.executeNodes b nodes) := by
  cases nodes with
  | nil => exact parallels_pure fun _ hv => absurd hv (Option.not_mem_none _)
  | cons node rest =>
    refine (h.execute b node fun _ => hb).bind fun result hresult => ?_
    cases result with
    | some v => exact parallels_pure hresult
    | none => exact h.executeAll b rest hb

end Steps.Parallel

theorem parallel_giveUp : Steps.giveUp.Parallel n τ main where
  evaluate _ _ := parallels_throw _
  evaluateAll _ _ := parallels_throw _
  operate _ _ _ := parallels_throw _
  write _ := parallels_throw _
  invoke _ _ _ _ _ _ := parallels_throw _
  execute _ _ _ := parallels_throw _
  executeLoop _ _ _ _ _ _ := parallels_throw _
  executeAll _ _ _ := parallels_throw _

/-- A run over frames put between others ends as the run without them. -/
theorem parallel_steps (ha : Scopes.Aligned n τ main) (fuel : Nat) :
    (steps fuel).Parallel n τ main := by
  induction fuel with
  | zero => exact parallel_giveUp
  | succ fuel ih =>
    exact
      { evaluate := fun b node => ih.evaluateNode ha node
        evaluateAll := fun b nodes => ih.evaluateNodes nodes
        operate := fun _ _ _ => parallels_lift fun _ => shares_applyBinary
        write := fun v => (shows_text v).parallels
        invoke := fun b signature f values hf hvalues => ih.invokeFunction ha signature hf hvalues
        execute := fun b node hnode => ih.executeNode ha node hnode
        executeLoop := fun b construct condition increment statements hincrement =>
          ih.executeRound construct condition statements hincrement
        executeAll := fun b nodes hb => ih.executeNodes nodes hb }

end BlockScript
