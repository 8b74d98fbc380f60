import BlockScript.Proofs.Evaluation.Lockstep
import BlockScript.Proofs.Evaluation.Reachable
import BlockScript.Proofs.Evaluation.Unlimited
/-!
# Loops with a header

A loop with a header does what a plain loop does in a block of its own, after the initialization,
with the increment behind its body. The two put their frames in different places, and so the runs
are compared over frames put between others.
-/
namespace BlockScript

open Run

/-- Objects and methods that are bound belong to frames that are there. -/
def Machine.Closed (m : Machine) : Prop :=
  m.scopes.All (fun _ _ v => v.value.Shares (· < m.scopes.next)) fun _ f =>
    f.Shares (· < m.scopes.next)

theorem Machine.Ready.closed {m : Machine} (h : m.Ready) : m.Closed :=
  h.governed.all.bound.mono (fun _ _ _ hv => hv.mono h.governed.closed.lt_next) fun _ _ hf =>
    hf.mono h.governed.closed.lt_next

/-- So it is at every moment of every run. -/
theorem Machine.Reachable.closed {m : Machine} (h : m.Reachable) : m.Closed := h.ready.closed

namespace Node

def block (statements : List Node) : Node := .ifStmt (.literal (.boolean true) none) statements []

def given (node : Node) : List Node := if node.isAbsent then [] else [node]

/-- The plain loop, in a block of its own, that a loop with a header stands for. -/
def unrolled (initialization condition increment : Node) (statements : List Node) : Node :=
  block (initialization.given ++ [.whileStmt condition (block statements :: increment.given)])

def Assigns (node : Node) : Prop := node = .absent ∨ ∃ receiver value, node = .assign receiver value

theorem Assigns.not_declares {node : Node} (h : node.Assigns) : ¬node.Declares := by
  rintro ⟨name, typeName, value, bound, rfl⟩
  obtain h | ⟨_, _, h⟩ := h <;> cases h

end Node

/-- The ends of a loop with a header and of the plain one: they give the same or fail alike, and
have printed the same. The fault of a condition names the loop. The frames below `n` are the
same. -/
structure LoopsAlike (n : Nat) (e e' : Except Fault (Option Value) × Machine) : Prop where
  result : e'.1 = e.1 ∨ ∃ typeName, e.1 = .error (.run (.condition "for" typeName)) ∧
    e'.1 = .error (.run (.condition "while" typeName))
  console : e'.2.console = e.2.console
  frames : ∀ i < n, e'.2.scopes.frames[i]? = e.2.scopes.frames[i]?

variable {α β : Type} {n : Nat}

section Approximation

/-- What two runs without a limit give is related if it is with every limit. -/
theorem rel_of_limits {R : α → β → Prop} {x : Option α} {y : Option β} {f : Nat → Option α}
    {g : Nat → Option β} (hx : ∀ a, x = some a ↔ ∃ k, f k = some a)
    (hy : ∀ b, y = some b ↔ ∃ k, g k = some b) (h : ∀ k, Option.Rel R (f k) (g k)) :
    Option.Rel R x y := by
  cases hx' : x with
  | some a =>
    obtain ⟨k, hk⟩ := (hx a).mp hx'
    have hrel := h k
    rw [hk] at hrel
    cases hg : g k with
    | none =>
      rw [hg] at hrel
      cases hrel
    | some b =>
      rw [hg] at hrel
      rw [(hy b).mpr ⟨k, hg⟩]
      exact hrel
  | none =>
    cases hy' : y with
    | none => exact .none
    | some b =>
      obtain ⟨k, hk⟩ := (hy b).mp hy'
      have hrel := h k
      rw [hk] at hrel
      cases hf : f k with
      | none =>
        rw [hf] at hrel
        cases hrel
      | some a => cases hx'.symm.trans ((hx a).mpr ⟨k, hf⟩)

variable {τ : FrameId → FrameId} {main : FrameId → Prop} {Q : α → Prop} {m w : Machine}

theorem Parallels.settle {x y : Run α} (h : Parallels n τ main Q x y)
    (hm : m.Collapses n τ main w) : Option.Rel (Alike n τ main Q) (settle x m) (settle y w) := by
  have hends := h hm
  unfold Run.settle
  generalize x.outcome m = e at hends ⊢
  generalize y.outcome w = e' at hends ⊢
  cases hends with
  | ok machines holds => exact .some (.ok machines holds)
  | @error fault m w machines =>
    cases fault <;> first | exact .none | exact .some (.error machines)

end Approximation

/-- The second machine is as the first one but for frames put between others, above those below
`n`. -/
def Machine.Pads (n : Nat) (m w : Machine) : Prop :=
  ∃ τ main, Scopes.Aligned n τ main ∧ m.Collapses n τ main w

/-- Ends of which the second one is as the first one but for frames put between others, and for the
name of the loop in the fault of a condition. -/
inductive PadsAlike (n : Nat) : Except Fault α × Machine → Except Fault α × Machine → Prop where
  | ok (a : α) {m w : Machine} (pads : m.Pads n w) : PadsAlike n (.ok a, m) (.ok a, w)
  | error (fault : Fault) {m w : Machine} (pads : m.Pads n w) :
      PadsAlike n (.error fault, m) (.error fault, w)
  | condition (typeName : String) {m w : Machine} (pads : m.Pads n w) :
      PadsAlike n (.error (.run (.condition "for" typeName)), m)
        (.error (.run (.condition "while" typeName)), w)

section Ends

variable {m w : Machine}

theorem Machine.Pads.console (h : m.Pads n w) : w.console = m.console := by
  obtain ⟨τ, main, -, hcollapses⟩ := h
  exact hcollapses.console

theorem Machine.Pads.frames (h : m.Pads n w) {i : Nat} (hi : i < n) :
    w.scopes.frames[i]? = m.scopes.frames[i]? := by
  obtain ⟨τ, main, haligned, hcollapses⟩ := h
  exact hcollapses.scopes.getElem?_eq haligned hi

theorem PadsAlike.loopsAlike {e e' : Except Fault (Option Value) × Machine}
    (h : PadsAlike (n + 1) e e') : LoopsAlike n e e' := by
  have hframes {m w : Machine} (hm : m.Pads (n + 1) w) (i : Nat) (hi : i < n) :=
    hm.frames (Nat.lt_succ_of_lt hi)
  cases h with
  | ok a pads => exact ⟨.inl rfl, pads.console, hframes pads⟩
  | error fault pads => exact ⟨.inl rfl, pads.console, hframes pads⟩
  | condition typeName pads => exact ⟨.inr ⟨typeName, rfl, rfl⟩, pads.console, hframes pads⟩

theorem Alike.pads {τ : FrameId → FrameId} {main : FrameId → Prop} {Q : α → Prop}
    (ha : Scopes.Aligned n τ main) {e e' : Except Fault α × Machine} (h : Alike n τ main Q e e') :
    PadsAlike n e e' := by
  cases h with
  | ok machines holds => exact .ok _ ⟨τ, main, ha, machines⟩
  | error machines => exact .error _ ⟨τ, main, ha, machines⟩

/-- Runs without a limit come to the same ends if those with a limit do. -/
theorem Limits.pads {τ : FrameId → FrameId} {main : FrameId → Prop} {Q : α → Prop}
    {x y : Nat → Run α} {x' y' : Endless α} (hx : Limits x x') (hy : Limits y y')
    (ha : Scopes.Aligned n τ main) (hm : m.Collapses n τ main w)
    (h : ∀ fuel, Parallels n τ main Q (x fuel) (y fuel)) :
    Option.Rel (PadsAlike n) (x' m) (y' w) := by
  refine rel_of_limits (hx.ends m) (hy.ends w) fun fuel => ?_
  obtain ⟨hs, hw⟩ | ⟨e, e', hs, hw, hends⟩ := rel_cases ((h fuel).settle hm) <;> rw [hs, hw]
  · exact .none
  · exact .some (hends.pads ha)

/-- Steps in turn. -/
theorem PadsAlike.bind {x y : Endless α} {f g : α → Endless β}
    (h : Option.Rel (PadsAlike n) (x m) (y w))
    (hf : ∀ a m' w', m'.Pads n w' → Option.Rel (PadsAlike n) (f a m') (g a w')) :
    Option.Rel (PadsAlike n) ((x >>= f) m) ((y >>= g) w) := by
  show Option.Rel (PadsAlike n) ((x m).bind _) ((y w).bind _)
  generalize x m = e at h ⊢
  generalize y w = e' at h ⊢
  cases h with
  | none => exact .none
  | some h =>
    cases h with
    | ok a pads => exact hf a _ _ pads
    | error fault pads => exact .some (.error fault pads)
    | condition typeName pads => exact .some (.condition typeName pads)

theorem rel_rounds {x y : Endless (Option α)}
    (h : ∀ m w : Machine, m.Pads n w → Option.Rel (PadsAlike n) (x m) (y w)) (k : Nat)
    (hm : m.Pads n w) : Option.Rel (PadsAlike n) (rounds x k m) (rounds y k w) := by
  induction k generalizing m w with
  | zero => exact .none
  | succ k ih =>
    refine PadsAlike.bind (h m w hm) fun result m' w' hm' => ?_
    cases result with
    | some a => exact .some (.ok a hm')
    | none => exact ih hm'

end Ends

section Block

variable {a : Activation}

/-- At the lowest level a condition leaves no line in the trace. -/
theorem requireBoolean_of_level (ha : a.level = 0) (construct : String) (v : Value) :
    requireBoolean a construct v = match v with
      | .boolean c => pure c
      | v => fail (.condition construct v.typeName) := by
  unfold requireBoolean noteAt
  rw [ha]
  cases v <;> rfl

theorem execute_block (ha : a.level = 0) (statements : List Node) :
    unlimited.execute a (.block statements) = unlimited.inner a statements := by
  have hliteral : unlimited.evaluate a (.literal (.boolean true) none) = pure (.boolean true) := by
    rw [unlimited_evaluate]
    rfl
  rw [unlimited_execute]
  unfold Node.block Steps.executeNode
  dsimp only
  rw [hliteral, pure_bind, requireBoolean_of_level ha]
  rfl

theorem executeAll_nil : unlimited.executeAll a [] = pure none := unlimited_executeAll a []

theorem executeAll_cons (node : Node) (rest : List Node) :
    unlimited.executeAll a (node :: rest) = (do
      match ← unlimited.execute a node with
      | some v => return some v
      | none => unlimited.executeAll a rest) :=
  unlimited_executeAll a (node :: rest)

end Block

section Increment

variable {a : Activation} {node : Node}

/-- An assignment gives nothing. -/
theorem execute_assignment (receiver value : Node) :
    ∃ x : Endless Unit, unlimited.execute a (.assign receiver value) = (do x; return none) := by
  have hlast (x : Endless Unit) : ∃ y : Endless Unit,
      (do x; return none : Endless (Option Value)) = (do y; return none) := ⟨x, rfl⟩
  have hbind (x : Endless Value) {f : Value → Endless (Option Value)}
      (h : ∀ v, ∃ y : Endless Unit, f v = (do y; return none)) :
      ∃ y : Endless Unit, x >>= f = (do y; return none) := by
    choose y hy using h
    exact ⟨x >>= y, by simp [funext hy]⟩
  rw [unlimited_execute]
  unfold Steps.executeNode
  dsimp only
  split
  · refine hbind _ fun v => ?_
    split
    · exact hlast _
    · refine hbind _ fun target => ?_
      split
      · exact hlast _
      · exact hlast _
  · exact ⟨liftM (fail .assignmentReceiver : Run Unit), rfl⟩

/-- A part of a header before what follows it. -/
theorem executeAll_given (h : node.Assigns) (rest : List Node) :
    unlimited.executeAll a (node.given ++ rest) =
      if node.isAbsent then unlimited.executeAll a rest
      else (do
        let _ ← unlimited.execute a node
        unlimited.executeAll a rest) := by
  obtain rfl | ⟨receiver, value, rfl⟩ := h
  · rfl
  · obtain ⟨x, hx⟩ := @execute_assignment a receiver value
    show unlimited.executeAll a (.assign receiver value :: rest) = _
    rw [executeAll_cons, hx]
    simp [Node.isAbsent]

end Increment

section Rounds

variable {b : Activation} {increment : Node}

/-- The body of the plain loop has one more frame around body and increment. -/
theorem bodyOnce_unrolled (hb : b.level = 0) (hincrement : increment.Assigns)
    (statements : List Node) :
    unlimited.bodyOnce b .absent (.block statements :: increment.given) = (do
      unlimited.bodyOnce (b.within (← (liftM (newFrame (some b.scope)) : Endless FrameId)))
        increment statements) := by
  have hblock (i : FrameId) : unlimited.execute (b.within i) (.block statements) =
      unlimited.inner (b.within i) statements := @execute_block (b.within i) hb statements
  have hrest (i : FrameId) : unlimited.executeAll (b.within i) increment.given =
      if increment.isAbsent then return none
      else (do
        let _ ← unlimited.execute (b.within i) increment
        return none) := by
    rw [← List.append_nil increment.given, executeAll_given hincrement, executeAll_nil]
  unfold Steps.bodyOnce Steps.inner
  simp only [executeAll_cons, hblock, hrest, bind_assoc, Steps.inner]
  congr 1
  funext i
  congr 1
  funext j
  congr 1
  funext result
  cases result with
  | some v => simp
  | none => cases increment.isAbsent <;> simp [Node.isAbsent]

/-- The body and the increment over frames put between others. -/
theorem Steps.Parallel.bodyOnce {τ : FrameId → FrameId} {main : FrameId → Prop} {t : Steps Run}
    (h : t.Parallel n τ main) (b : Activation) (hincrement : increment.Declares → main b.scope)
    (statements : List Node) :
    Parallels n τ main (fun _ => True) (t.bodyOnce (b.within (τ b.scope)) increment statements)
      (t.bodyOnce b increment statements) := by
  unfold Steps.bodyOnce
  refine (h.executeInner statements).bind fun result _ => ?_
  cases result with
  | some v => exact parallels_pure trivial
  | none => exact h.executeHeader hincrement (parallels_pure trivial)

variable {m w : Machine}

theorem pads_evaluate (hscope : b.scope < n) (node : Node) (hm : m.Pads n w) :
    Option.Rel (PadsAlike n) (unlimited.evaluate b node m) (unlimited.evaluate b node w) := by
  obtain ⟨τ, main, ha, hm⟩ := hm
  have hlimits : Limits (fun fuel => (steps fuel).evaluate b node) (unlimited.evaluate b node) :=
    relate_limiting.evaluate node (.same b)
  have hparallel (fuel : Nat) : Parallels n τ main (Value.Shares (· < n))
      ((steps fuel).evaluate b node) ((steps fuel).evaluate b node) := by
    have h := (parallel_steps ha fuel).evaluate b node
    rwa [ha.fixes b.scope hscope] at h
  exact hlimits.pads hlimits ha hm hparallel

/-- Body and increment do the same in a frame as in the one it stands for. -/
theorem pads_within {τ : FrameId → FrameId} {main : FrameId → Prop} {j : FrameId}
    (ha : Scopes.Aligned n τ main) (hj : τ j = b.scope) (hincrement : increment.Assigns)
    (statements : List Node) (hm : m.Collapses n τ main w) :
    Option.Rel (PadsAlike n) (unlimited.bodyOnce b increment statements m)
      (unlimited.bodyOnce (b.within j) increment statements w) := by
  have hparallel (fuel : Nat) : Parallels n τ main (fun _ => True)
      ((steps fuel).bodyOnce b increment statements)
      ((steps fuel).bodyOnce (b.within j) increment statements) := by
    have h := (parallel_steps ha fuel).bodyOnce (b.within j)
      (fun h => absurd h hincrement.not_declares) statements
    have hsame : (b.within j).within (τ j) = b := congrArg b.within hj
    rwa [show (b.within j).scope = j from rfl, hsame] at h
  exact (limits_bodyOnce b increment statements).pads
    (limits_bodyOnce (b.within j) increment statements) ha hm hparallel

/-- With another frame around them, body and increment do the same. -/
theorem pads_bodyOnce (hb : b.level = 0) (hscope : b.scope < n) (hincrement : increment.Assigns)
    (statements : List Node) (hm : m.Pads n w) :
    Option.Rel (PadsAlike n) (unlimited.bodyOnce b increment statements m)
      (unlimited.bodyOnce b .absent (.block statements :: increment.given) w) := by
  obtain ⟨τ, main, ha, hm⟩ := hm
  have hpads : m.Collapses n (Scopes.padded τ w.scopes.next b.scope)
      (Scopes.mainPadded main w.scopes.next)
      { w with scopes := w.scopes.addFrame (some b.scope) } := by
    refine ⟨hm.scopes.pad (Nat.lt_of_lt_of_le hscope hm.there), hm.console, hm.bound, ?_⟩
    rw [Scopes.next_addFrame]
    exact Nat.le_succ_of_le hm.there
  have hhome : Scopes.padded τ w.scopes.next b.scope w.scopes.next = b.scope :=
    Scopes.padded_next.trans (ha.fixes b.scope hscope)
  rw [bodyOnce_unrolled hb hincrement]
  exact pads_within (ha.pad hm.there) hhome hincrement statements hpads

/-- A round of the loop with a header and one of the plain loop. -/
theorem pads_round (hb : b.level = 0) (hscope : b.scope < n) (hincrement : increment.Assigns)
    (condition : Node) (statements : List Node) (hm : m.Pads n w) :
    Option.Rel (PadsAlike n) (unlimited.round b "for" condition increment statements m)
      (unlimited.round b "while" condition .absent (.block statements :: increment.given) w) := by
  unfold Steps.round Steps.test
  rw [bind_assoc, bind_assoc]
  refine PadsAlike.bind (pads_evaluate hscope condition hm) fun v m' w' hm' => ?_
  rw [requireBoolean_of_level hb, requireBoolean_of_level hb]
  cases v with
  | boolean c =>
    cases c with
    | false => exact .some (.ok (some none) hm')
    | true => exact pads_bodyOnce hb hscope hincrement statements hm'
  | _ => exact .some (.condition _ hm')

theorem pads_executeLoop (hb : b.level = 0) (hscope : b.scope < n) (hincrement : increment.Assigns)
    (condition : Node) (statements : List Node) (hm : m.Pads n w) :
    Option.Rel (PadsAlike n) (unlimited.executeLoop b "for" condition increment statements m)
      (unlimited.executeLoop b "while" condition .absent (.block statements :: increment.given) w) :=
  rel_of_limits (fun _ => executeLoop_eq_some_iff b "for" condition increment statements)
    (fun _ => executeLoop_eq_some_iff b "while" condition .absent
      (.block statements :: increment.given))
    fun k => rel_rounds
      (fun _ _ hm => pads_round hb hscope hincrement condition statements hm) k hm

/-- After a body that returns nothing comes the increment, and after another one nothing more. -/
theorem executeLoop_of_inner (hincrement : increment.Assigns) (construct : String) (condition : Node)
    (statements : List Node) (m₀ m₁ m₂ : Machine) (r : Option Value) :
    unlimited.test b construct condition m₀ = some (.ok true, m₁) →
    unlimited.inner b statements m₁ = some (.ok r, m₂) →
    unlimited.executeLoop b construct condition increment statements m₀ = match r with
      | some v => some (.ok (some v), m₂)
      | none => (do
        let _ ← unlimited.executeAll b increment.given
        unlimited.executeLoop b construct condition increment statements) m₂ := by
  intro htest hbody
  have hround := (unlimited_executeLoop b construct condition increment statements).trans
    (unlimited.executeRound_eq b construct condition increment statements)
  refine (congrFun hround m₀).trans ?_
  rw [Steps.round, bind_assoc, endless_bind_of_ok htest]
  simp only [if_pos]
  rw [Steps.bodyOnce, bind_assoc, endless_bind_of_ok hbody]
  cases r with
  | some v => rfl
  | none =>
    dsimp only
    rw [← List.append_nil increment.given, executeAll_given hincrement, executeAll_nil]
    cases increment.isAbsent <;> simp

end Rounds

section Loops

variable {a : Activation} {m : Machine}

/-- A header comes before its loop, whatever that is. -/
theorem pads_header {b : Activation} {node : Node} {x y : Endless (Option Value)}
    (hscope : b.scope < n) (hnode : node.Assigns)
    (h : ∀ m w : Machine, m.Pads n w → Option.Rel (PadsAlike n) (x m) (y w)) (hm : m.Pads n m) :
    Option.Rel (PadsAlike n)
      ((if node.isAbsent then x else unlimited.execute b node >>= fun _ => x) m)
      ((if node.isAbsent then y else unlimited.execute b node >>= fun _ => y) m) := by
  split
  · exact h m m hm
  · obtain ⟨τ, main, ha, hm⟩ := hm
    have hlimits : Limits (fun fuel => (steps fuel).execute b node) (unlimited.execute b node) :=
      relate_limiting.execute node (.same b)
    have hparallel (fuel : Nat) : Parallels n τ main (fun r => ∀ v ∈ r, v.Shares (· < n))
        ((steps fuel).execute b node) ((steps fuel).execute b node) := by
      have h := (parallel_steps ha fuel).execute b node fun h => absurd h hnode.not_declares
      rwa [ha.fixes b.scope hscope] at h
    exact PadsAlike.bind (hlimits.pads hlimits ha hm hparallel) fun _ m' w' hm' => h m' w' hm'

/-- In the frame of a block, before anything else, a machine is as it is. -/
theorem Machine.Closed.pads (h : m.Closed) (parent : Option FrameId) :
    Machine.Pads (m.scopes.next + 1) { m with scopes := m.scopes.addFrame parent }
      { m with scopes := m.scopes.addFrame parent } := by
  refine ⟨id, fun _ => True, ⟨fun _ _ => rfl, fun _ _ => trivial⟩, Scopes.collapses_refl _, rfl,
    ?_, ?_⟩
  · refine (h.mono (fun _ _ _ hv => hv.mono fun _ => ?_)
      fun _ _ hf => hf.mono fun _ => ?_).addFrame parent <;> exact Nat.lt_succ_of_lt
  · rw [Scopes.next_addFrame]

theorem execute_unrolled (ha : a.level = 0) {initialization increment : Node}
    (hinitialization : initialization.Assigns) (condition : Node) (statements : List Node) :
    unlimited.execute a (.unrolled initialization condition increment statements) = (do
      let b := a.within (← (liftM (newFrame (some a.scope)) : Endless FrameId))
      let loop := unlimited.executeLoop b "while" condition .absent
        (.block statements :: increment.given)
      if initialization.isAbsent then loop else unlimited.execute b initialization >>= fun _ => loop) := by
  have hloop (b : Activation) (body : List Node) :
      unlimited.executeAll b [.whileStmt condition body] =
        unlimited.executeLoop b "while" condition .absent body := by
    have hnode : unlimited.execute b (.whileStmt condition body) =
        unlimited.executeLoop b "while" condition .absent body := unlimited_execute b _
    rw [executeAll_cons, hnode, executeAll_nil]
    refine (bind_congr fun result => ?_).trans (bind_pure _)
    cases result <;> rfl
  rw [Node.unrolled, execute_block ha, Steps.inner]
  simp only [executeAll_given hinitialization, hloop]

end Loops

/-- A loop with a header and the plain loop in a block of its own that it stands for come to the
same end or both run for ever. The increment follows a body that returns nothing, and no body that
returns something. -/
theorem for_loop_is_plain_loop {m : Machine} (hm : m.Closed) {a : Activation} (ha : a.level = 0)
    {initialization increment : Node} (hinitialization : initialization.Assigns)
    (hincrement : increment.Assigns) (condition : Node) (statements : List Node) :
    Option.Rel (LoopsAlike m.scopes.next)
      (unlimited.execute a (.forStmt initialization condition increment statements) m)
      (unlimited.execute a (.unrolled initialization condition increment statements) m) ∧
    ∀ (b : Activation) (m₀ m₁ m₂ : Machine) (r : Option Value),
      unlimited.test b "for" condition m₀ = some (.ok true, m₁) →
      unlimited.inner b statements m₁ = some (.ok r, m₂) →
      unlimited.executeLoop b "for" condition increment statements m₀ = match r with
        | some v => some (.ok (some v), m₂)
        | none => (do
          let _ ← unlimited.executeAll b increment.given
          unlimited.executeLoop b "for" condition increment statements) m₂ := by
  constructor
  · have hfor : unlimited.execute a (.forStmt initialization condition increment statements) = (do
        let b := a.within (← (liftM (newFrame (some a.scope)) : Endless FrameId))
        let loop := unlimited.executeLoop b "for" condition increment statements
        if initialization.isAbsent then loop
        else unlimited.execute b initialization >>= fun _ => loop) := unlimited_execute a _
    have hloop (m' w' : Machine) (hm' : m'.Pads (m.scopes.next + 1) w') :=
      @pads_executeLoop _ (a.within m.scopes.next) _ _ _ ha (Nat.lt_succ_self _) hincrement condition
        statements hm'
    have hends : Option.Rel (PadsAlike (m.scopes.next + 1))
        (unlimited.execute a (.forStmt initialization condition increment statements) m)
        (unlimited.execute a (.unrolled initialization condition increment statements) m) := by
      rw [hfor, execute_unrolled ha hinitialization]
      exact pads_header (Nat.lt_succ_self _) hinitialization hloop (hm.pads (some a.scope))
    obtain ⟨hs, hw⟩ | ⟨e, e', hs, hw, hends⟩ := rel_cases hends <;> rw [hs, hw]
    · exact .none
    · exact .some hends.loopsAlike
  · exact fun b => executeLoop_of_inner hincrement "for" condition statements

def counter : Machine :=
  { Machine.new 0 with scopes := (Machine.new 0).scopes.addVariable 0 "i" ⟨false, .integer 0⟩ }

/-- Twice the body runs, and the increment behind it. -/
theorem for_loop_is_plain_loop_counting :
    let i : Node := .access .absent "i" none none
    let number (value : Int) : Node := .literal (.integer value) none
    let initialization : Node := .assign i (number 0)
    let condition : Node := .binary "<" i (number 2) none
    let increment : Node := .assign i (.binary "+" i (number 1) none)
    let body : List Node := [.exprStmt (.call .absent "print" [i] none none)]
    counter.Closed ∧ initialization.Assigns ∧ increment.Assigns ∧
      (∃ e, unlimited.execute counter.activation
        (.forStmt initialization condition increment body) counter = some e ∧
          e.2.console.output = "0\n1\n") ∧
      Option.Rel (LoopsAlike 1)
        (unlimited.execute counter.activation
          (.forStmt initialization condition increment body) counter)
        (unlimited.execute counter.activation
          (.unrolled initialization condition increment body) counter) := by
  have hclosed : counter.Closed := by
    have hnew : (Machine.new 0).Closed := (Machine.Reachable.new 0 _).closed
    exact hnew.addVariable trivial
  refine ⟨hclosed, .inr ⟨_, _, rfl⟩, .inr ⟨_, _, rfl⟩, ?_, ?_⟩
  · refine ⟨_, unlimited_execute_eq_some_iff.mpr ⟨?_, 20, rfl⟩, ?_⟩
    · refine fun hcut => absurd (congrArg Except.isOk hcut) ?_
      decide +kernel
    · decide +kernel
  · exact (for_loop_is_plain_loop hclosed rfl (.inr ⟨_, _, rfl⟩) (.inr ⟨_, _, rfl⟩) _ _).1

end BlockScript
