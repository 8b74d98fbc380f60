import BlockScript.Proofs.Evaluation.Plain
/-!
# Runs of programs that stand alone

All variables of such a run are plain, and its functions print or run statements that a program can
write. Each kind of step keeps to this if the steps nested in it do, and says why it stops. An
integer of too many digits is the reason exactly when it is written out by printing, by a plus or as
the result of the program, as long as there is no trace.
-/
namespace BlockScript

open Recorded Run

/-- The function prints, or it runs statements that a program can write, tracing at the level. -/
inductive Function.Plain (level : Nat) : Function → Prop where
  | print {javaName : String} : Plain level ⟨javaName, some .print⟩
  | method {javaName name : String} {home : FrameId} {parameters : List String}
      {statements : List Node} (body : ∀ node ∈ statements, WrittenStatement node) :
      Plain level ⟨javaName, some (.method home level name parameters statements)⟩

def PlainScopes (level : Nat) (s : Scopes Variable Function) : Prop :=
  s.All (fun _ _ v => v.value.Plain) fun _ => Function.Plain level

def Event.values : Event → List Value
  | evaluating .. => []
  | evaluated _ _ v _ => [v]
  | invoking _ _ _ vs _ => vs
  | invoked _ _ _ vs v _ => v :: vs
  | executing .. => []
  | executed _ _ result _ => result.toList
  | operating _ l r _ => [l, r]
  | writing v _ => [v]
  | moved _ => []

structure Event.Plain (level : Nat) (e : Event) : Prop where
  scopes : PlainScopes level e.machine.scopes
  values : ∀ v ∈ e.values, v.Plain

/-- An integer of too many digits is to be written out at the event. -/
def Event.Overlong : Event → Prop
  | operating operator l r _ => JoinsOverlong operator l r
  | writing v _ => v.Overlong
  | _ => False

/-- Why a run may stop, given what has happened in it. -/
structure Fault.Accounted (level : Nat) (fault : Fault) (events : List Event) : Prop where
  kind : (∃ cause, fault = .run cause) ∨ fault = .unfinished ∨ fault = .tooManyDigits
  of_overlong : (∃ e ∈ events, e.Overlong) → fault = .tooManyDigits
  overlong : level = 0 → fault = .tooManyDigits → ∃ e ∈ events, e.Overlong

/-- All that is bound is plain, all events have been, and no integer of too many digits has been
written out. -/
structure Steady (level : Nat) (s : Machine × List Event) : Prop where
  scopes : PlainScopes level s.1.scopes
  events : ∀ e ∈ s.2, e.Plain level ∧ ¬e.Overlong

/-- The step ends with a result in a steady state, or it stops the run for a good reason. -/
def Goes {α : Type} (level : Nat) (s : Machine × List Event) (x : Recorded α) (Q : α → Prop) :
    Prop :=
  Ends x s (fun a s' => Steady level s' ∧ Q a) fun fault s' =>
    PlainScopes level s'.1.scopes ∧ (∀ e ∈ s'.2, e.Plain level) ∧ fault.Accounted level s'.2

/-- The operation keeps all that is bound plain, or it stops the run. Only for a trace it writes
values out. -/
def Stays {α : Type} (level : Nat) (m : Machine) (x : Run α) (Q : α → Prop) : Prop :=
  Ends x m (fun a m' => PlainScopes level m'.scopes ∧ Q a)
    fun fault m' => PlainScopes level m'.scopes ∧
      ((∃ cause, fault = .run cause) ∨ level ≠ 0 ∧ fault = .tooManyDigits)

variable {α β : Type} {level : Nat} {s : Machine × List Event} {m : Machine}
  {Q Q' : α → Prop} {R : β → Prop}

section Goes

theorem Steady.record (h : Steady level s) {e : Event} (he : e.Plain level) (hno : ¬e.Overlong) :
    Steady level (s.1, e :: s.2) :=
  ⟨h.scopes, List.forall_mem_cons.mpr ⟨⟨he, hno⟩, h.events⟩⟩

theorem Steady.no_overlong (h : Steady level s) : ¬∃ e ∈ s.2, e.Overlong :=
  fun ⟨e, he, hlong⟩ => (h.events e he).2 hlong

theorem Goes.bind {x : Recorded α} {f : α → Recorded β} (h : Goes level s x Q)
    (hf : ∀ a s', Steady level s' → Q a → Goes level s' (f a) R) : Goes level s (x >>= f) R :=
  ends_bind.mpr (Ends.imp h (fun a s' ⟨hs', hq⟩ => hf a s' hs' hq) fun _ _ => id)

theorem goes_pure {a : α} (hs : Steady level s) (hq : Q a) : Goes level s (pure a) Q := ⟨hs, hq⟩

theorem goes_lift {x : Run α} (hs : Steady level s) (hx : Stays level s.1 x Q) :
    Goes level s (liftM x) Q := by
  refine ends_lift.mpr (Ends.imp hx ?_ ?_)
  · rintro a m ⟨hm, hq⟩
    refine ⟨⟨hm, List.forall_mem_cons.mpr ⟨⟨⟨hm, ?_⟩, id⟩, hs.events⟩⟩, hq⟩
    exact fun _ hv => absurd hv List.not_mem_nil
  · rintro fault m ⟨hm, hfault⟩
    have hno : ¬∃ e ∈ Event.moved m :: s.2, e.Overlong := by
      simpa [Event.Overlong] using hs.no_overlong
    refine ⟨hm, List.forall_mem_cons.mpr ⟨⟨hm, fun _ hv => absurd hv List.not_mem_nil⟩,
      fun e he => (hs.events e he).1⟩, ?_, fun hlong => absurd hlong hno, ?_⟩
    · rcases hfault with hrun | ⟨-, rfl⟩
      · exact .inl hrun
      · exact .inr (.inr rfl)
    · rintro hzero rfl
      rcases hfault with ⟨cause, hcause⟩ | ⟨hpos, -⟩
      · cases hcause
      · exact absurd hzero hpos

theorem goes_around {x : Recorded α} {before : Machine → Event} {after : α → Machine → Event}
    (hs : Steady level s) (hbefore : (before s.1).Plain level) (hno : ¬(before s.1).Overlong)
    (hx : Steady level (s.1, before s.1 :: s.2) → Goes level (s.1, before s.1 :: s.2) x Q)
    (hafter : ∀ a m, PlainScopes level m.scopes → Q a →
      (after a m).Plain level ∧ ¬(after a m).Overlong) :
    Goes level s (around before after x) Q := by
  refine ends_around.mpr (Ends.imp (hx (hs.record hbefore hno)) ?_ fun _ _ => id)
  rintro a s' ⟨hs', hq⟩
  obtain ⟨hplain, hno'⟩ := hafter a s'.1 hs'.scopes hq
  exact ⟨hs'.record hplain hno', hq⟩

end Goes

section Operations

theorem stays_pure {a : α} (hm : PlainScopes level m.scopes) (hq : Q a) :
    Stays level m (pure a) Q := ⟨hm, hq⟩

theorem stays_fail {cause : RunFault} (hm : PlainScopes level m.scopes) :
    Stays level m (fail cause : Run α) Q := ⟨hm, .inl ⟨cause, rfl⟩⟩

theorem Stays.bind {x : Run α} {f : α → Run β} (h : Stays level m x Q)
    (hf : ∀ a m', PlainScopes level m'.scopes → Q a → Stays level m' (f a) R) :
    Stays level m (x >>= f) R :=
  ends_bind.mpr (Ends.imp h (fun a m' ⟨hm', hq⟩ => hf a m' hm' hq) fun _ _ => id)

theorem stays_printLine (hm : PlainScopes level m.scopes) (line : String) :
    Stays level m (printLine line) fun _ => True := ⟨hm, trivial⟩

theorem stays_newFrame (hm : PlainScopes level m.scopes) (parent : Option FrameId) :
    Stays level m (newFrame parent) fun _ => True := ⟨hm.addFrame parent, trivial⟩

theorem stays_noteAt {a : Activation} {least : Nat} {line : Run String}
    (hm : PlainScopes level m.scopes) (ha : a.level = level) (hpos : 0 < least) (h : Shows line) :
    Stays level m (noteAt a least line) fun _ => True := by
  unfold noteAt
  split
  · next hle =>
    have hlevel : level ≠ 0 := by omega
    refine ends_bind.mpr (Ends.imp (h.ends m) ?_ ?_)
    · rintro text _ rfl
      exact ⟨hm, trivial⟩
    · rintro fault _ ⟨rfl, hfault⟩
      exact ⟨hm, .inr ⟨hlevel, hfault⟩⟩
  · exact stays_pure hm trivial

theorem stays_requireBoolean {a : Activation} (hm : PlainScopes level m.scopes)
    (ha : a.level = level) (construct : String) (v : Value) :
    Stays level m (requireBoolean a construct v) fun _ => True := by
  unfold requireBoolean
  split
  · refine Stays.bind (stays_noteAt hm ha (by decide) ?_) fun _ _ hm' _ => stays_pure hm' trivial
    exact (shows_text _).bind fun _ => shows_pure _
  · exact stays_fail hm

theorem stays_defineVariable (hm : PlainScopes level m.scopes) (scope : FrameId) (name : String)
    {v : Variable} (hv : v.value.Plain) :
    Stays level m (defineVariable scope name v) fun _ => True := by
  unfold defineVariable
  refine ends_bind.mpr (ends_get.mpr ?_)
  split
  · exact stays_fail hm
  · exact ⟨hm.addVariable hv, trivial⟩

theorem stays_bindVariable {a : Activation} (hm : PlainScopes level m.scopes) (ha : a.level = level)
    (what name : String) {v : Variable} (hv : v.value.Plain) :
    Stays level m (bindVariable a what name v) fun _ => True := by
  refine (stays_defineVariable hm a.scope name hv).bind fun _ m' hm' _ => ?_
  exact stays_noteAt hm' ha (by decide) ((shows_text _).bind fun _ => shows_pure _)

theorem stays_findVariable (hm : PlainScopes level m.scopes) (scope : FrameId) (name : String) :
    Stays level m (findVariable scope name) fun found => found.2.value.Plain := by
  unfold findVariable
  refine ends_bind.mpr (ends_get.mpr ?_)
  unfold Scopes.getVariable
  cases hfound : m.scopes.findVariable? scope name with
  | none => exact stays_fail hm
  | some found => exact stays_pure hm (hm.of_findVariable? hfound)

theorem stays_assignVariable (hm : PlainScopes level m.scopes) (scope : FrameId) (name : String)
    {v : Value} (hv : v.Plain) : Stays level m (assignVariable scope name v) fun _ => True := by
  refine (stays_findVariable hm scope name).bind fun found m' hm' _ => ?_
  obtain ⟨home, old⟩ := found
  dsimp only
  split
  · exact stays_fail hm'
  · exact ⟨hm'.setVariable hv, trivial⟩

theorem stays_findFunction (hm : PlainScopes level m.scopes) (scope : FrameId)
    (signature : Signature) :
    Stays level m (findFunction scope signature) (Function.Plain level) := by
  unfold findFunction
  refine ends_bind.mpr (ends_get.mpr ?_)
  unfold Scopes.getFunction
  cases hfound : m.scopes.findFunction? scope signature with
  | none => exact stays_fail hm
  | some found => exact stays_pure hm (hm.of_findFunction? hfound)

theorem stays_bindArguments (hm : PlainScopes level m.scopes) (scope : FrameId) (names : List String)
    {values : List Value} (hvalues : ∀ v ∈ values, v.Plain) :
    Stays level m (bindArguments scope names values) fun _ => True := by
  induction names generalizing m values with
  | nil => exact stays_pure hm trivial
  | cons name names ih =>
    cases values with
    | nil => exact stays_pure hm trivial
    | cons v vs =>
      obtain ⟨hv, hvs⟩ := List.forall_mem_cons.mp hvalues
      exact (stays_defineVariable hm scope name (v := ⟨false, v⟩) hv).bind fun _ _ hm' _ => ih hm' hvs

end Operations

structure Steps.Sound (level : Nat) (t : Steps Recorded) : Prop where
  evaluate : ∀ {s} {a : Activation} {node}, Steady level s → a.level = level →
    WrittenExpression node → Goes level s (t.evaluate a node) Value.Plain
  evaluateAll : ∀ {s} {a : Activation} {nodes}, Steady level s → a.level = level →
    (∀ node ∈ nodes, WrittenExpression node) →
      Goes level s (t.evaluateAll a nodes) fun vs => ∀ v ∈ vs, v.Plain
  operate : ∀ {s} (operator) {l r : Value}, Steady level s → l.Plain → r.Plain →
    Goes level s (t.operate operator l r) Value.Plain
  write : ∀ {s} {v : Value}, Steady level s → v.Plain → Goes level s (t.write v) fun _ => True
  invoke : ∀ {s} (a : Activation) (signature) {g : Function} {values : List Value}, Steady level s →
    g.Plain level → (∀ v ∈ values, v.Plain) →
      Goes level s (t.invoke a signature g values) Value.Plain
  execute : ∀ {s} {a : Activation} {node}, Steady level s → a.level = level →
    WrittenStatement node → Goes level s (t.execute a node) fun result => ∀ v ∈ result, v.Plain
  executeLoop : ∀ {s} {a : Activation} (construct) {condition increment statements},
    Steady level s → a.level = level → WrittenExpression condition → WrittenHeader increment →
      (∀ node ∈ statements, WrittenStatement node) →
        Goes level s (t.executeLoop a construct condition increment statements) fun result =>
          ∀ v ∈ result, v.Plain
  executeAll : ∀ {s} {a : Activation} {nodes}, Steady level s → a.level = level →
    (∀ node ∈ nodes, WrittenStatement node) →
      Goes level s (t.executeAll a nodes) fun result => ∀ v ∈ result, v.Plain

namespace Steps.Sound

variable {t : Steps Recorded} {a : Activation}

/-- A step that goes on with the truth value of an expression. -/
theorem evaluateCondition (h : t.Sound level) (hs : Steady level s) (ha : a.level = level)
    {node : Node} (hw : WrittenExpression node) (construct : String) {f : Bool → Recorded β}
    (hf : ∀ b s', Steady level s' → Goes level s' (f b) R) :
    Goes level s (do
      let v ← t.evaluate a node
      let b ← requireBoolean a construct v
      f b) R := by
  refine (h.evaluate hs ha hw).bind fun v s₁ hs₁ _ => ?_
  exact (goes_lift hs₁ (stays_requireBoolean hs₁.scopes ha construct v)).bind fun b s₂ hs₂ _ =>
    hf b s₂ hs₂

theorem evaluateBinary (h : t.Sound level) (hs : Steady level s) (ha : a.level = level)
    {operator : String} {left right : Node} {type : Option StaticType}
    (first : WrittenExpression left) (second : WrittenExpression right) :
    Goes level s (t.evaluateNode a (.binary operator left right type)) Value.Plain := by
  refine (h.evaluate hs ha first).bind fun l s₁ hs₁ hl => ?_
  have hboolean := stays_requireBoolean hs₁.scopes ha operator l
  split
  · refine (goes_lift hs₁ hboolean).bind fun b s₂ hs₂ _ => ?_
    cases b with
    | false => exact goes_pure hs₂ trivial
    | true =>
      exact h.evaluateCondition hs₂ ha second operator fun _ _ hs₃ => goes_pure hs₃ trivial
  split
  · refine (goes_lift hs₁ hboolean).bind fun b s₂ hs₂ _ => ?_
    cases b with
    | true => exact goes_pure hs₂ trivial
    | false =>
      exact h.evaluateCondition hs₂ ha second operator fun _ _ hs₃ => goes_pure hs₃ trivial
  · exact (h.evaluate hs₁ ha second).bind fun r s₂ hs₂ hr => h.operate operator hs₂ hl hr

theorem evaluateNode (h : t.Sound level) (hs : Steady level s) (ha : a.level = level) {node : Node}
    (hw : WrittenExpression node) : Goes level s (t.evaluateNode a node) Value.Plain := by
  cases hw with
  | literal plain => exact goes_pure hs plain.toValue
  | group inside => exact h.evaluate hs ha inside
  | binary known reach first second =>
    exact h.evaluateBinary hs ha first.expression second.expression
  | @access limit name type bound spelled =>
    refine (goes_lift hs (stays_findVariable hs.scopes a.scope name)).bind fun found s₁ hs₁ hv => ?_
    exact goes_pure hs₁ hv
  | member object spelled =>
    unfold Steps.evaluateNode
    dsimp only
    rw [if_neg (by simp [object.isAbsent])]
    refine (h.evaluate hs ha object.expression).bind fun v s₁ hs₁ hv => ?_
    cases v with
    | object typeName members => exact hv.elim
    | _ => exact goes_lift hs₁ (stays_fail hs₁.scopes)
  | call spelled passed =>
    refine (h.evaluateAll hs ha passed).bind fun values s₁ hs₁ hvalues => ?_
    refine (goes_lift hs₁ (stays_findFunction hs₁.scopes _ _)).bind fun g s₂ hs₂ hg => ?_
    exact h.invoke a _ hs₂ hg hvalues
  | methodCall object spelled passed =>
    unfold Steps.evaluateNode
    dsimp only
    rw [if_neg (by simp [object.isAbsent])]
    refine (h.evaluate hs ha object.expression).bind fun v s₁ hs₁ hv => ?_
    refine (h.evaluateAll hs₁ ha passed).bind fun values s₂ hs₂ hvalues => ?_
    cases v with
    | object typeName members => exact hv.elim
    | _ => exact goes_lift hs₂ (stays_fail hs₂.scopes)

theorem evaluateNodes (h : t.Sound level) (hs : Steady level s) (ha : a.level = level)
    {nodes : List Node} (hw : ∀ node ∈ nodes, WrittenExpression node) :
    Goes level s (t.evaluateNodes a nodes) fun vs => ∀ v ∈ vs, v.Plain := by
  cases nodes with
  | nil => exact goes_pure hs fun _ hv => absurd hv List.not_mem_nil
  | cons node rest =>
    obtain ⟨hnode, hrest⟩ := List.forall_mem_cons.mp hw
    refine (h.evaluate hs ha hnode).bind fun v s₁ hs₁ hv => ?_
    refine (h.evaluateAll hs₁ ha hrest).bind fun vs s₂ hs₂ hvs => ?_
    exact goes_pure hs₂ (List.forall_mem_cons.mpr ⟨hv, hvs⟩)

theorem invokeFunction (h : t.Sound level) (hs : Steady level s) (signature : Signature)
    {g : Function} (hg : g.Plain level) {values : List Value} (hvalues : ∀ v ∈ values, v.Plain) :
    Goes level s (t.invokeFunction a signature g values) Value.Plain := by
  cases hg with
  | print =>
    match values with
    | [] => exact goes_lift hs (stays_fail hs.scopes)
    | [v] =>
      refine (h.write hs (hvalues v List.mem_cons_self)).bind fun line s₁ hs₁ _ => ?_
      refine (goes_lift hs₁ (stays_printLine hs₁.scopes line)).bind fun _ s₂ hs₂ _ => ?_
      exact goes_pure hs₂ trivial
    | _ :: _ :: _ => exact goes_lift hs (stays_fail hs.scopes)
  | @method javaName name home parameters statements body =>
    unfold Steps.invokeFunction
    dsimp only
    cases a.calls with
    | zero => exact goes_lift hs (stays_fail hs.scopes)
    | succ calls =>
      refine (goes_lift hs (stays_newFrame hs.scopes (some home))).bind fun frame s₁ hs₁ _ => ?_
      refine (goes_lift hs₁ (stays_bindArguments hs₁.scopes frame parameters hvalues)).bind
        fun _ s₂ hs₂ _ => ?_
      refine (goes_lift hs₂ (stays_noteAt hs₂.scopes rfl (by decide) ?_)).bind fun _ s₃ hs₃ _ => ?_
      · exact (shows_texts values).bind fun _ => shows_pure _
      refine (h.executeAll hs₃ rfl body).bind fun result s₄ hs₄ hresult => ?_
      cases result with
      | none => exact goes_pure hs₄ trivial
      | some v => exact goes_pure hs₄ (hresult v rfl)

/-- A step that goes on with the value that is given at first, or with nil if none is given. -/
theorem evaluateInitial (h : t.Sound level) (hs : Steady level s) (ha : a.level = level)
    {value : Node} (hw : WrittenInitial value) {f : Value → Recorded β}
    (hf : ∀ v s', Steady level s' → v.Plain → Goes level s' (f v) R) :
    Goes level s
      (if value.isAbsent then pure Value.nil >>= f else t.evaluate a value >>= f) R := by
  rcases hw with rfl | hvalue
  · exact hf .nil s hs trivial
  · split
    · exact hf .nil s hs trivial
    · exact (h.evaluate hs ha hvalue).bind hf

theorem executeInner (h : t.Sound level) (hs : Steady level s) (ha : a.level = level)
    {nodes : List Node} (hw : ∀ node ∈ nodes, WrittenStatement node) :
    Goes level s (do
      let frame ← (liftM (newFrame (some a.scope)) : Recorded FrameId)
      t.executeAll (a.within frame) nodes) fun result => ∀ v ∈ result, v.Plain :=
  (goes_lift hs (stays_newFrame hs.scopes (some a.scope))).bind fun _ _ hs₁ _ =>
    h.executeAll hs₁ ha hw

/-- A part of the header of a loop is executed unless it is left out. -/
theorem executeHeader (h : t.Sound level) (hs : Steady level s) (ha : a.level = level) {node : Node}
    (hw : WrittenHeader node) {next : Recorded β}
    (hnext : ∀ s', Steady level s' → Goes level s' next R) :
    Goes level s (if node.isAbsent then next else do
      let _ ← t.execute a node
      next) R := by
  cases hw with
  | none => exact hnext s hs
  | some spelled assigned =>
    exact (h.execute hs ha (.assign (.access spelled) assigned)).bind fun _ s₁ hs₁ _ => hnext s₁ hs₁

theorem executeNode (h : t.Sound level) (hs : Steady level s) (ha : a.level = level) {node : Node}
    (hw : WrittenStatement node) :
    Goes level s (t.executeNode a node) fun result => ∀ v ∈ result, v.Plain := by
  have hnone : ∀ {s'}, Steady level s' →
      Goes level s' (pure none) fun result : Option Value => ∀ v ∈ result, v.Plain :=
    fun hs' => goes_pure hs' (by simp)
  cases hw with
  | exprStmt whole => exact (h.evaluate hs ha whole).bind fun _ s₁ hs₁ _ => hnone hs₁
  | @declaration name typeName value bound initial =>
    refine h.evaluateInitial hs ha initial fun v s₁ hs₁ hv => ?_
    refine (goes_lift hs₁ (stays_bindVariable hs₁.scopes ha "declare" name (v := ⟨false, v⟩) hv)).bind
      fun _ s₂ hs₂ _ => hnone hs₂
  | @assign receiver value left right =>
    cases left with
    | @access limit name type bound spelled =>
      refine (h.evaluate hs ha right).bind fun v s₁ hs₁ hv => ?_
      exact (goes_lift hs₁ (stays_assignVariable hs₁.scopes a.scope name hv)).bind
        fun _ s₂ hs₂ _ => hnone hs₂
    | member object spelled =>
      unfold Steps.executeNode
      dsimp only
      refine (h.evaluate hs ha right).bind fun v s₁ hs₁ hv => ?_
      rw [if_neg (by simp [object.isAbsent])]
      refine (h.evaluate hs₁ ha object.expression).bind fun target s₂ hs₂ htarget => ?_
      cases target with
      | object typeName members => exact htarget.elim
      | _ =>
        dsimp only
        exact (goes_lift hs₂ (stays_fail (Q := fun _ => True) hs₂.scopes)).bind
          fun _ s₃ hs₃ _ => hnone hs₃
    | _ => exact goes_lift hs (stays_fail hs.scopes)
  | ifStmt test first second =>
    refine h.evaluateCondition hs ha test "if" fun b s₁ hs₁ => ?_
    cases b with
    | true => exact h.executeInner hs₁ ha first
    | false => exact h.executeInner hs₁ ha second
  | forStmt before test after body =>
    refine (goes_lift hs (stays_newFrame hs.scopes (some a.scope))).bind fun frame s₁ hs₁ _ => ?_
    exact h.executeHeader (a := a.within frame) hs₁ ha before fun s₂ hs₂ =>
      h.executeLoop "for" hs₂ ha test after body
  | whileStmt test body => exact h.executeLoop "while" hs ha test .none body
  | returnStmt whole =>
    refine (h.evaluate hs ha whole).bind fun v s₁ hs₁ hv => goes_pure hs₁ ?_
    rintro _ ⟨⟩
    exact hv

theorem executeRound (h : t.Sound level) (hs : Steady level s) (ha : a.level = level)
    (construct : String) {condition increment : Node} {statements : List Node}
    (test : WrittenExpression condition) (after : WrittenHeader increment)
    (body : ∀ node ∈ statements, WrittenStatement node) :
    Goes level s (t.executeRound a construct condition increment statements) fun result =>
      ∀ v ∈ result, v.Plain := by
  refine h.evaluateCondition hs ha test construct fun b s₁ hs₁ => ?_
  cases b with
  | false => exact goes_pure hs₁ (by simp)
  | true =>
    refine (goes_lift hs₁ (stays_newFrame hs₁.scopes (some a.scope))).bind fun frame s₂ hs₂ _ => ?_
    refine (h.executeAll (a := a.within frame) hs₂ ha body).bind fun result s₃ hs₃ hresult => ?_
    cases result with
    | some v => exact goes_pure hs₃ hresult
    | none =>
      exact h.executeHeader hs₃ ha after fun s₄ hs₄ => h.executeLoop construct hs₄ ha test after body

theorem executeNodes (h : t.Sound level) (hs : Steady level s) (ha : a.level = level)
    {nodes : List Node} (hw : ∀ node ∈ nodes, WrittenStatement node) :
    Goes level s (t.executeNodes a nodes) fun result => ∀ v ∈ result, v.Plain := by
  cases nodes with
  | nil => exact goes_pure hs (by simp)
  | cons node rest =>
    obtain ⟨hnode, hrest⟩ := List.forall_mem_cons.mp hw
    refine (h.execute hs ha hnode).bind fun result s₁ hs₁ hresult => ?_
    cases result with
    | some v => exact goes_pure hs₁ hresult
    | none => exact h.executeAll hs₁ ha hrest

end Steps.Sound

section Steps

theorem goes_operate (operator : String) {l r : Value} (hs : Steady level s) (hl : l.Plain)
    (hr : r.Plain) :
    Goes level s (do
      record (.operating operator l r)
      (lift (applyBinary operator l r) : Run Value)) Value.Plain := by
  have hevent : (Event.operating operator l r s.1).Plain level :=
    ⟨hs.scopes, by simp [Event.values, hl, hr]⟩
  have hmoved : (Event.moved s.1).Plain level := ⟨hs.scopes, by simp [Event.values]⟩
  have hevents : ∀ e ∈ Event.moved s.1 :: .operating operator l r s.1 :: s.2, e.Plain level :=
    List.forall_mem_cons.mpr ⟨hmoved, List.forall_mem_cons.mpr ⟨hevent, fun e he => (hs.events e he).1⟩⟩
  have hlong : (∃ e ∈ Event.moved s.1 :: .operating operator l r s.1 :: s.2, e.Overlong) ↔
      JoinsOverlong operator l r := by
    simpa [Event.Overlong] using fun e he hlong => absurd ⟨e, he, hlong⟩ hs.no_overlong
  have hsettles := plain_applyBinary operator hl hr
  refine ends_record.mpr (ends_lift.mpr ?_)
  cases hresult : applyBinary operator l r with
  | ok v =>
    rw [hresult] at hsettles
    obtain ⟨hv, hno⟩ := hsettles
    exact ⟨⟨hs.scopes, fun e he => ⟨hevents e he, fun h => hno (hlong.mp ⟨e, he, h⟩)⟩⟩, hv⟩
  | error fault =>
    rw [hresult] at hsettles
    refine ⟨hs.scopes, hevents, ?_⟩
    rcases hsettles with ⟨⟨cause, rfl⟩, hno⟩ | ⟨rfl, hyes⟩
    · exact ⟨.inl ⟨cause, rfl⟩, fun h => absurd (hlong.mp h) hno, nofun⟩
    · exact ⟨.inr (.inr rfl), fun _ => rfl, fun _ _ => hlong.mpr hyes⟩

theorem goes_write {v : Value} (hs : Steady level s) (hv : v.Plain) :
    Goes level s (do
      record (.writing v)
      (text v : Run String)) fun _ => True := by
  have hevent : (Event.writing v s.1).Plain level := ⟨hs.scopes, by simp [Event.values, hv]⟩
  have hmoved : (Event.moved s.1).Plain level := ⟨hs.scopes, by simp [Event.values]⟩
  have hevents : ∀ e ∈ Event.moved s.1 :: .writing v s.1 :: s.2, e.Plain level :=
    List.forall_mem_cons.mpr ⟨hmoved, List.forall_mem_cons.mpr ⟨hevent, fun e he => (hs.events e he).1⟩⟩
  have hlong : (∃ e ∈ Event.moved s.1 :: .writing v s.1 :: s.2, e.Overlong) ↔ v.Overlong := by
    simpa [Event.Overlong] using fun e he hlong => absurd ⟨e, he, hlong⟩ hs.no_overlong
  refine ends_record.mpr (ends_lift.mpr ?_)
  rw [← toText?_eq_none_iff] at hlong
  unfold text
  cases htext : v.toText? with
  | some line =>
    rw [htext] at hlong
    exact ⟨⟨hs.scopes, fun e he => ⟨hevents e he, fun h => nomatch hlong.mp ⟨e, he, h⟩⟩⟩, trivial⟩
  | none =>
    exact ⟨hs.scopes, hevents, .inr (.inr rfl), fun _ => rfl, fun _ _ => hlong.mpr htext⟩

theorem sound_giveUp : Steps.giveUp.Sound level := by
  have hunfinished : ∀ {α} {Q : α → Prop} {s}, Steady level s →
      Goes level s (liftM (throw .unfinished : Run α)) Q := by
    intro α Q s hs
    have hmoved : (Event.moved s.1).Plain level := ⟨hs.scopes, by simp [Event.values]⟩
    have hno : ¬∃ e ∈ Event.moved s.1 :: s.2, e.Overlong := by
      simpa [Event.Overlong] using hs.no_overlong
    exact ⟨hs.scopes, List.forall_mem_cons.mpr ⟨hmoved, fun e he => (hs.events e he).1⟩,
      .inr (.inl rfl), fun h => absurd h hno, nofun⟩
  exact
    { evaluate := fun hs _ _ => hunfinished hs
      evaluateAll := fun hs _ _ => hunfinished hs
      operate := fun _ _ _ hs _ _ => hunfinished hs
      write := fun hs _ => hunfinished hs
      invoke := fun _ _ _ _ hs _ _ => hunfinished hs
      execute := fun hs _ _ => hunfinished hs
      executeLoop := fun _ _ _ _ hs _ _ _ _ => hunfinished hs
      executeAll := fun hs _ _ => hunfinished hs }

theorem sound_recordedSteps (level fuel : Nat) : (recordedSteps fuel).Sound level := by
  induction fuel with
  | zero => exact sound_giveUp
  | succ fuel ih =>
    refine
      { evaluate := fun hs ha hw => ?_
        evaluateAll := fun hs ha hw => ih.evaluateNodes hs ha hw
        operate := fun operator _ _ hs hl hr => goes_operate operator hs hl hr
        write := fun hs hv => goes_write hs hv
        invoke := fun a signature g values hs hg hvalues => ?_
        execute := fun hs ha hw => ?_
        executeLoop := fun construct _ _ _ hs ha test after body =>
          ih.executeRound hs ha construct test after body
        executeAll := fun hs ha hw => ih.executeNodes hs ha hw }
    · refine goes_around hs ⟨hs.scopes, by simp [Event.values]⟩ id
        (fun hs' => ih.evaluateNode hs' ha hw) ?_
      exact fun v m hm hv => ⟨⟨hm, by simpa [Event.values] using hv⟩, id⟩
    · refine goes_around hs ⟨hs.scopes, hvalues⟩ id
        (fun hs' => ih.invokeFunction hs' signature hg hvalues) ?_
      exact fun v m hm hv => ⟨⟨hm, List.forall_mem_cons.mpr ⟨hv, hvalues⟩⟩, id⟩
    · refine goes_around hs ⟨hs.scopes, by simp [Event.values]⟩ id
        (fun hs' => ih.executeNode hs' ha hw) ?_
      exact fun result m hm hresult => ⟨⟨hm, by simpa [Event.values] using hresult⟩, id⟩

end Steps

section Programs

variable {t : Steps Recorded} {a : Activation}

theorem goes_executeField (h : t.Sound level) (hs : Steady level s) (ha : a.level = level) {node : Node}
    (hw : WrittenField node) : Goes level s (executeField t a node) fun _ => True := by
  cases hw with
  | @field name typeName constant value bound initial =>
    refine h.evaluateInitial hs ha initial fun v s₁ hs₁ hv => ?_
    exact goes_lift hs₁ (stays_bindVariable hs₁.scopes ha "field" name (v := ⟨constant, v⟩) hv)

theorem stays_defineMethod (hm : PlainScopes level m.scopes) (ha : a.level = level) {node : Node}
    (hw : WrittenMethod node) : Stays level m (defineMethod a node) fun _ => True := by
  cases hw with
  | @method name parameters parameterTypes returnType statements callee paired body =>
    have hdefine : Stays level m (defineFunction a.scope ⟨name, parameters.length⟩
        ⟨name, some (.method a.scope a.level name parameters statements)⟩) fun _ => True := by
      unfold defineFunction
      refine ends_bind.mpr (ends_get.mpr ?_)
      split
      · exact stays_fail hm
      · exact ⟨hm.addFunction _ (ha ▸ .method body), trivial⟩
    exact hdefine.bind fun _ m' hm' _ => stays_noteAt hm' ha (by decide) (shows_pure _)

/-- Steps that do not hand anything on, one after the other. -/
theorem goes_forM {nodes : List Node} {f : Node → Recorded PUnit} {P : Node → Prop}
    (hf : ∀ node s', P node → Steady level s' → Goes level s' (f node) fun _ => True)
    (hnodes : ∀ node ∈ nodes, P node) (hs : Steady level s) :
    Goes level s (nodes.forM f) fun _ => True := by
  induction nodes generalizing s with
  | nil => exact goes_pure hs trivial
  | cons node rest ih =>
    obtain ⟨hnode, hrest⟩ := List.forall_mem_cons.mp hnodes
    exact (hf node s hnode hs).bind fun _ s₁ hs₁ _ => ih hrest hs₁

theorem stays_findMain (hm : PlainScopes level m.scopes) :
    Stays level m (findMain a) (Function.Plain level) := by
  unfold findMain
  refine ends_bind.mpr (ends_get.mpr ?_)
  cases hfound : m.scopes.findFunction? a.scope ⟨"main", 0⟩ with
  | none => exact stays_fail hm
  | some found => exact stays_pure hm (hm.of_findFunction? hfound)

theorem goes_executeProgram (h : t.Sound level) (hs : Steady level s) (ha : a.level = level)
    {tree : Node} (hw : WrittenProgram tree) :
    Goes level s (executeProgram t a tree) Value.Plain := by
  cases hw with
  | @source fields methods first second =>
    have hfields {s'} (hs' : Steady level s') : Goes level s' (fields.forM (executeField t a))
        fun _ => True :=
      goes_forM (fun _ _ hfield hs₁ => goes_executeField h hs₁ ha hfield) first hs'
    have hmethods {s'} (hs' : Steady level s') : Goes level s'
        (methods.forM fun method => (liftM (defineMethod a method) : Recorded Unit)) fun _ => True :=
      goes_forM (fun _ _ hmethod hs₁ => goes_lift hs₁ (stays_defineMethod hs₁.scopes ha hmethod))
        second hs'
    have hnote {s'} (hs' : Steady level s') (line : String) : Goes level s'
        (liftM (noteAt a 1 (return line)) : Recorded Unit) fun _ => True :=
      goes_lift hs' (stays_noteAt hs'.scopes ha (by decide) (shows_pure line))
    have hsource {s'} (hs' : Steady level s') :
        Goes level s' (executeSource t a (.source fields methods)) Value.Plain := by
      refine (hfields hs').bind fun _ s₁ hs₁ _ => (hmethods hs₁).bind fun _ s₂ hs₂ _ => ?_
      refine (goes_lift hs₂ (stays_findMain hs₂.scopes)).bind fun main s₃ hs₃ hmain => ?_
      exact h.invoke a _ hs₃ hmain (by simp)
    refine (hnote hs _).bind fun _ s₁ hs₁ _ => (hsource hs₁).bind fun v s₂ hs₂ hv => ?_
    refine (h.write hs₂ hv).bind fun shown s₃ hs₃ _ => (hnote hs₃ _).bind fun _ s₄ hs₄ _ => ?_
    exact goes_pure hs₄ hv

theorem steady_new (level calls : Nat) : Steady level (Machine.new level calls, []) := by
  have hempty : PlainScopes level .empty := Scopes.all_empty
  exact ⟨(hempty.addFrame none).addFunction 0 .print, by simp⟩

end Programs

theorem goes_run {tree : Node} (hw : WrittenProgram tree) (fuel level calls : Nat) :
    Goes level (Machine.new level calls, []) (executeProgram (recordedSteps fuel)
      (Machine.new level calls).activation tree) Value.Plain :=
  goes_executeProgram (sound_recordedSteps level fuel) (steady_new level calls) rfl hw

/-- In a run of a program that stands alone all values are plain. It gives a plain value, or it
stops for a good reason. -/
theorem run_accounted {tree : Node} (hw : WrittenProgram tree) (fuel level calls : Nat) :
    (∀ e ∈ (Machine.new level calls).eventsWithin fuel tree, e.Plain level) ∧
      match ((Machine.new level calls).runWithin fuel tree).1 with
      | .ok v => v.Plain ∧ ∀ e ∈ (Machine.new level calls).eventsWithin fuel tree, ¬e.Overlong
      | .error fault => fault.Accounted level ((Machine.new level calls).eventsWithin fuel tree) := by
  refine runWithin_of_ends (Q := fun result events => (∀ e ∈ events, e.Plain level) ∧
    match result with
    | .ok v => v.Plain ∧ ∀ e ∈ events, ¬e.Overlong
    | .error fault => fault.Accounted level events)
    (Ends.imp (goes_run hw fuel level calls) ?_ fun _ _ => And.right)
  rintro v s ⟨hs, hv⟩
  exact ⟨fun e he => (hs.events e he).1, hv, fun e he => (hs.events e he).2⟩

/-- However such a run ends, all variables are plain then. -/
theorem run_leaves_plain {tree : Node} (hw : WrittenProgram tree) (fuel level calls : Nat) :
    PlainScopes level ((Machine.new level calls).runWithin fuel tree).2.scopes := by
  obtain ⟨final, hplain, hrun⟩ := exists_final_of_ends
    (P := fun s => PlainScopes level s.1.scopes)
    (Ends.imp (goes_run hw fuel level calls) (fun _ _ h => h.1.scopes) fun _ _ => And.left)
  rw [hrun]
  exact hplain

end BlockScript
