import BlockScript.Evaluation.Program
import BlockScript.Proofs.Evaluation.Trace
/-!
# Runs in two monads

A relation between the computations of two monads in which programs can run, if it is kept by what
all programs are made of, holds of the runs of a program if it holds of the steps nested in them.
The levels of the trace may differ between the two, as far as the relation says.
-/
namespace BlockScript

open Run

section Levels

variable {Level : Nat → Nat → Prop} {Body : Nat → List Node → List Node → Prop}

structure Activation.Related (Level : Nat → Nat → Prop) (a b : Activation) : Prop where
  scope : a.scope = b.scope
  calls : a.calls = b.calls
  level : Level a.level b.level

/-- The same function but for the levels of the trace and the statements, which are related as they
may be at the first level. -/
inductive Function.Related (Level : Nat → Nat → Prop) (Body : Nat → List Node → List Node → Prop) :
    Function → Function → Prop where
  | bare {javaName : String} : Related Level Body ⟨javaName, none⟩ ⟨javaName, none⟩
  | print {javaName : String} : Related Level Body ⟨javaName, some .print⟩ ⟨javaName, some .print⟩
  | method {javaName name : String} {home : FrameId} {parameters : List String}
      {statements statements' : List Node} {l l' : Nat} (level : Level l l')
      (body : Body l statements statements') :
      Related Level Body ⟨javaName, some (.method home l name parameters statements)⟩
        ⟨javaName, some (.method home l' name parameters statements')⟩
  | host {javaName : String} {act : List Value → Except RunFault HostAnswer} :
      Related Level Body ⟨javaName, some (.host act)⟩ ⟨javaName, some (.host act)⟩

theorem Activation.Related.within {a b : Activation} (h : a.Related Level b) (scope : FrameId) :
    (a.within scope).Related Level (b.within scope) := ⟨rfl, h.calls, h.level⟩

theorem Activation.Related.refl (hl : ∀ l, Level l l) (a : Activation) : a.Related Level a :=
  ⟨rfl, rfl, hl a.level⟩

theorem Activation.Related.eq {a b : Activation} (h : a.Related Eq b) : a = b := by
  obtain ⟨scope, calls, level⟩ := a
  obtain ⟨rfl, rfl, rfl⟩ := h
  rfl

abbrev SameStatements (_ : Nat) (statements statements' : List Node) : Prop :=
  statements = statements'

theorem Function.Related.eq {f g : Function} (h : f.Related Eq SameStatements g) : f = g := by
  cases h with
  | bare => rfl
  | print => rfl
  | method level body => rw [level, body]
  | host => rfl

theorem Function.Related.refl (hl : ∀ l, Level l l)
    (hb : ∀ level statements, Body level statements statements) (f : Function) :
    f.Related Level Body f := by
  obtain ⟨javaName, body⟩ := f
  cases body with
  | none => exact .bare
  | some body =>
    cases body with
    | print => exact .print
    | method home level name parameters statements => exact .method (hl level) (hb level statements)
    | host act => exact .host

/-- What a relation that compares statements as they are says of the same statements. -/
theorem statements_same (level : Nat) (statements : List Node) :
    SameStatements level statements statements := rfl

/-- A place is the same as itself, with its level as it is. -/
theorem Activation.Related.same (a : Activation) : a.Related Eq a := .refl (fun _ => rfl) a

/-- A function is the same as itself, with its level and its statements as they are. -/
theorem Function.Related.same (f : Function) : f.Related Eq SameStatements f :=
  .refl (fun _ => rfl) statements_same f

end Levels

variable {M N : Type → Type} [Monad M] [Monad N] [MonadLiftT Run M] [MonadLiftT Run N]

/-- A relation that holds of results, of the operations on the machine that steps are made of, and
of steps in turn. -/
structure StepRelation (M N : Type → Type) [Monad M] [Monad N] [MonadLiftT Run M]
    [MonadLiftT Run N] where
  Rel : ∀ {α : Type}, M α → N α → Prop
  Level : Nat → Nat → Prop
  Body : Nat → List Node → List Node → Prop
  body_refl : ∀ level statements, Body level statements statements
  relates_pure : ∀ {α : Type} (a : α), Rel (pure a) (pure a)
  relates_bind : ∀ {α β : Type} {x : M α} {y : N α} {f : α → M β} {g : α → N β}, Rel x y →
    (∀ a, Rel (f a) (g a)) → Rel (x >>= f) (y >>= g)
  relates_settled : ∀ {α : Type} (result : Except Fault α),
    Rel (liftM (Run.lift result)) (liftM (Run.lift result))
  relates_printLine : ∀ line, Rel (liftM (printLine line)) (liftM (printLine line))
  relates_newFrame : ∀ parent, Rel (liftM (newFrame parent)) (liftM (newFrame parent))
  relates_bindArguments : ∀ scope names values,
    Rel (liftM (bindArguments scope names values)) (liftM (bindArguments scope names values))
  relates_findVariable : ∀ scope name,
    Rel (liftM (findVariable scope name)) (liftM (findVariable scope name))
  relates_assignVariable : ∀ scope name value,
    Rel (liftM (assignVariable scope name value)) (liftM (assignVariable scope name value))
  relates_getField : ∀ typeName members name,
    Rel (liftM (getField typeName members name)) (liftM (getField typeName members name))
  relates_setField : ∀ typeName members name value,
    Rel (liftM (setField typeName members name value))
      (liftM (setField typeName members name value))
  relates_noteAt : ∀ {a b} {least line}, a.Related Level b → Shows line →
    (2 ≤ least ∨ ∃ text, line = pure text) →
      Rel (liftM (noteAt a least line)) (liftM (noteAt b least line))
  relates_requireBoolean : ∀ {a b} construct value, a.Related Level b →
    Rel (liftM (requireBoolean a construct value)) (liftM (requireBoolean b construct value))
  relates_bindVariable : ∀ {a b} what name v, a.Related Level b →
    Rel (liftM (bindVariable a what name v)) (liftM (bindVariable b what name v))
  relates_findFunction : ∀ {α : Type} scope signature {k : Function → M α} {k' : Function → N α},
    (∀ f g, f.Related Level Body g → Rel (k f) (k' g)) →
      Rel (liftM (findFunction scope signature) >>= k) (liftM (findFunction scope signature) >>= k')
  relates_findMethod : ∀ {α : Type} typeName members name arguments {k : Function → M α}
    {k' : Function → N α}, (∀ f g, f.Related Level Body g → Rel (k f) (k' g)) →
      Rel (liftM (findMethod typeName members name arguments) >>= k)
        (liftM (findMethod typeName members name arguments) >>= k')

/-- A relation that holds also of what a whole program does besides. -/
structure ProgramRelation (M N : Type → Type) [Monad M] [Monad N] [MonadLiftT Run M]
    [MonadLiftT Run N] extends StepRelation M N where
  relates_defineMethod : ∀ {a b} node, a.Related Level b →
    Rel (liftM (defineMethod a node)) (liftM (defineMethod b node))
  relates_findMain : ∀ {α : Type} {a b} {k : Function → M α} {k' : Function → N α},
    a.Related Level b → (∀ f g, f.Related Level Body g → Rel (k f) (k' g)) →
      Rel (liftM (findMain a) >>= k) (liftM (findMain b) >>= k')

def ProgramRelation.ofLift (Rel : ∀ {α : Type}, M α → N α → Prop)
    (relates_pure : ∀ {α : Type} (a : α), Rel (pure a) (pure a))
    (relates_lift : ∀ {α : Type} (x : Run α), Rel (liftM x) (liftM x))
    (relates_bind : ∀ {α β : Type} {x : M α} {y : N α} {f : α → M β} {g : α → N β}, Rel x y →
      (∀ a, Rel (f a) (g a)) → Rel (x >>= f) (y >>= g)) : ProgramRelation M N where
  Rel := Rel
  Level := Eq
  Body := SameStatements
  body_refl := statements_same
  relates_pure := relates_pure
  relates_bind := relates_bind
  relates_settled _ := relates_lift _
  relates_printLine _ := relates_lift _
  relates_newFrame _ := relates_lift _
  relates_bindArguments _ _ _ := relates_lift _
  relates_findVariable _ _ := relates_lift _
  relates_assignVariable _ _ _ := relates_lift _
  relates_getField _ _ _ := relates_lift _
  relates_setField _ _ _ _ := relates_lift _
  relates_noteAt h _ _ := h.eq ▸ relates_lift _
  relates_requireBoolean _ _ h := h.eq ▸ relates_lift _
  relates_bindVariable _ _ _ h := h.eq ▸ relates_lift _
  relates_defineMethod _ h := h.eq ▸ relates_lift _
  relates_findFunction _ _ _ _ hk :=
    relates_bind (relates_lift _) fun f => hk f f (.same f)
  relates_findMethod _ _ _ _ _ _ hk :=
    relates_bind (relates_lift _) fun f => hk f f (.same f)
  relates_findMain h hk :=
    h.eq ▸ relates_bind (relates_lift _) fun f => hk f f (.same f)

namespace StepRelation

variable {R : StepRelation M N} {α β : Type}

theorem Rel.pure (a : α) : R.Rel (Pure.pure a) (Pure.pure a) := R.relates_pure a

theorem Rel.bind {x : M α} {y : N α} {f : α → M β} {g : α → N β} (h : R.Rel x y)
    (hf : ∀ a, R.Rel (f a) (g a)) : R.Rel (x >>= f) (y >>= g) := R.relates_bind h hf

theorem Rel.throw (fault : Fault) :
    R.Rel (liftM (MonadExcept.throw fault : Run α)) (liftM (MonadExcept.throw fault : Run α)) :=
  R.relates_settled (.error fault)

theorem Rel.ite {c : Bool} {x x' : M α} {y y' : N α} (h : R.Rel x y) (h' : R.Rel x' y') :
    R.Rel (if c then x else x') (if c then y else y') := by
  cases c
  · exact h'
  · exact h

theorem Rel.forM {f : α → M PUnit} {g : α → N PUnit} (h : ∀ a, R.Rel (f a) (g a)) (l : List α) :
    R.Rel (l.forM f) (l.forM g) := by
  induction l with
  | nil => exact .pure _
  | cons a l ih => exact (h a).bind fun _ => ih

end StepRelation

open StepRelation

structure Steps.Relate (R : StepRelation M N) (s : Steps M) (t : Steps N) : Prop where
  evaluate : ∀ {a b} node, a.Related R.Level b → R.Rel (s.evaluate a node) (t.evaluate b node)
  evaluateAll : ∀ {a b} nodes, a.Related R.Level b →
    R.Rel (s.evaluateAll a nodes) (t.evaluateAll b nodes)
  operate : ∀ operator l r, R.Rel (s.operate operator l r) (t.operate operator l r)
  write : ∀ v, R.Rel (s.write v) (t.write v)
  invoke : ∀ {a b f g} signature values, a.Related R.Level b → f.Related R.Level R.Body g →
    R.Rel (s.invoke a signature f values) (t.invoke b signature g values)
  execute : ∀ {a b} node, a.Related R.Level b → R.Rel (s.execute a node) (t.execute b node)
  executeLoop : ∀ {a b} construct condition increment statements, a.Related R.Level b →
    R.Rel (s.executeLoop a construct condition increment statements)
      (t.executeLoop b construct condition increment statements)
  executeAll : ∀ {a b nodes nodes'}, a.Related R.Level b → R.Body a.level nodes nodes' →
    R.Rel (s.executeAll a nodes) (t.executeAll b nodes')

theorem Steps.relate_giveUp (R : StepRelation M N) : Steps.giveUp.Relate R Steps.giveUp := by
  constructor <;> intros <;> exact Rel.throw _

variable {R : StepRelation M N} {s : Steps M} {t : Steps N} {a b : Activation}

theorem Steps.Relate.evaluateNode (h : s.Relate R t) (hab : a.Related R.Level b) (node : Node) :
    R.Rel (s.evaluateNode a node) (t.evaluateNode b node) := by
  cases node with
  | literal value type => exact .pure _
  | group inner type => exact h.evaluate inner hab
  | binary operator left right type =>
    have hright : R.Rel
        (do return Value.boolean (← requireBoolean a operator (← s.evaluate a right)))
        (do return Value.boolean (← requireBoolean b operator (← t.evaluate b right))) :=
      (h.evaluate right hab).bind fun v =>
        (R.relates_requireBoolean operator v hab).bind fun _ => .pure _
    refine (h.evaluate left hab).bind fun l => .ite ?_ (.ite ?_ ?_)
    · exact (R.relates_requireBoolean operator l hab).bind fun _ => .ite hright (.pure _)
    · exact (R.relates_requireBoolean operator l hab).bind fun _ => .ite (.pure _) hright
    · exact (h.evaluate right hab).bind fun v => h.operate operator l v
  | access receiver name type bound =>
    refine .ite ?_ ?_
    · rw [hab.scope]
      exact (R.relates_findVariable b.scope name).bind fun found => .pure _
    refine (h.evaluate receiver hab).bind fun v => ?_
    cases v with
    | object typeName members => exact R.relates_getField typeName members name
    | _ => exact Rel.throw _
  | call receiver name arguments type callee =>
    refine .ite ?_ ?_
    · rw [hab.scope]
      exact (h.evaluateAll arguments hab).bind fun values =>
        R.relates_findFunction _ _ fun f g hfg => h.invoke _ values hab hfg
    · refine (h.evaluate receiver hab).bind fun v => ?_
      refine (h.evaluateAll arguments hab).bind fun values => ?_
      cases v with
      | object typeName members =>
        exact R.relates_findMethod _ _ _ _ fun f g hfg => h.invoke _ _ hab hfg
      | _ => exact Rel.throw _
  | _ => exact Rel.throw _

theorem Steps.Relate.evaluateNodes (h : s.Relate R t) (hab : a.Related R.Level b)
    (nodes : List Node) : R.Rel (s.evaluateNodes a nodes) (t.evaluateNodes b nodes) := by
  cases nodes with
  | nil => exact .pure _
  | cons node rest =>
    exact (h.evaluate node hab).bind fun v => (h.evaluateAll rest hab).bind fun vs => .pure _

theorem Steps.Relate.invokeFunction (h : s.Relate R t) {f g : Function} (hab : a.Related R.Level b)
    (hfg : f.Related R.Level R.Body g) (signature : Signature) (values : List Value) :
    R.Rel (s.invokeFunction a signature f values) (t.invokeFunction b signature g values) := by
  cases hfg with
  | bare => exact Rel.throw _
  | print =>
    cases values with
    | nil => exact Rel.throw _
    | cons v rest =>
      cases rest with
      | nil => exact (h.write v).bind fun _ => (R.relates_printLine _).bind fun _ => .pure _
      | cons w rest => exact Rel.throw _
  | @method _ name home parameters statements statements' l l' level body =>
    unfold Steps.invokeFunction
    rw [hab.calls]
    cases b.calls with
    | zero => exact Rel.throw _
    | succ calls =>
      refine (R.relates_newFrame _).bind fun frame => ?_
      have hinner : (⟨frame, calls, l⟩ : Activation).Related R.Level ⟨frame, calls, l'⟩ :=
        ⟨rfl, rfl, level⟩
      refine (R.relates_bindArguments _ _ _).bind fun _ => ?_
      refine (R.relates_noteAt hinner ?_ (.inl (by decide))).bind fun _ => ?_
      · exact (shows_texts values).bind fun _ => shows_pure _
      · exact (h.executeAll hinner body).bind fun _ => .pure _
  | @host _ act => exact R.relates_settled (callHost act values)

theorem Steps.Relate.executeNode (h : s.Relate R t) (hab : a.Related R.Level b) (node : Node) :
    R.Rel (s.executeNode a node) (t.executeNode b node) := by
  cases node with
  | exprStmt expression => exact (h.evaluate expression hab).bind fun _ => .pure _
  | declaration name typeName value bound =>
    refine .ite ?_ ?_
    · exact (Rel.pure _).bind fun v => (R.relates_bindVariable _ _ _ hab).bind fun _ => .pure _
    · exact (h.evaluate value hab).bind fun v =>
        (R.relates_bindVariable _ _ _ hab).bind fun _ => .pure _
  | assign receiver value =>
    cases receiver with
    | access object name type bound =>
      refine (h.evaluate value hab).bind fun v => .ite ?_ ?_
      · rw [hab.scope]
        exact (R.relates_assignVariable b.scope name v).bind fun _ => .pure _
      refine (h.evaluate object hab).bind fun target => ?_
      cases target with
      | object typeName members =>
        exact (R.relates_setField typeName members name v).bind fun _ => .pure _
      | _ => exact (Rel.throw _).bind fun _ => .pure _
    | _ => exact Rel.throw _
  | ifStmt condition thens elses =>
    refine (h.evaluate condition hab).bind fun v =>
      (R.relates_requireBoolean "if" v hab).bind fun _ => ?_
    rw [hab.scope]
    refine .ite ?_ ?_
    · exact (R.relates_newFrame _).bind fun frame =>
        h.executeAll (hab.within frame) (R.body_refl _ thens)
    · exact (R.relates_newFrame _).bind fun frame =>
        h.executeAll (hab.within frame) (R.body_refl _ elses)
  | forStmt initialization condition increment statements =>
    unfold Steps.executeNode
    rw [hab.scope]
    refine (R.relates_newFrame _).bind fun frame => ?_
    have hinner := hab.within frame
    refine .ite (h.executeLoop _ _ _ _ hinner) ?_
    exact (h.execute initialization hinner).bind fun _ => h.executeLoop _ _ _ _ hinner
  | whileStmt condition statements => exact h.executeLoop _ _ _ _ hab
  | returnStmt value => exact (h.evaluate value hab).bind fun v => .pure _
  | _ => exact Rel.throw _

theorem Steps.Relate.executeRound (h : s.Relate R t) (hab : a.Related R.Level b)
    (construct : String) (condition increment : Node) (statements : List Node) :
    R.Rel (s.executeRound a construct condition increment statements)
      (t.executeRound b construct condition increment statements) := by
  refine (h.evaluate condition hab).bind fun v =>
    (R.relates_requireBoolean construct v hab).bind fun _ => .ite ?_ (.pure _)
  rw [hab.scope]
  refine (R.relates_newFrame _).bind fun frame => ?_
  refine (h.executeAll (hab.within frame) (R.body_refl _ statements)).bind fun result => ?_
  cases result with
  | some v => exact .pure _
  | none =>
    refine .ite (h.executeLoop _ _ _ _ hab) ?_
    exact (h.execute increment hab).bind fun _ => h.executeLoop _ _ _ _ hab

theorem Steps.Relate.executeNodes (h : s.Relate R t) (hab : a.Related R.Level b)
    (nodes : List Node) : R.Rel (s.executeNodes a nodes) (t.executeNodes b nodes) := by
  cases nodes with
  | nil => exact .pure _
  | cons node rest =>
    refine (h.execute node hab).bind fun result => ?_
    cases result with
    | some v => exact .pure _
    | none => exact h.executeAll hab (R.body_refl _ rest)

theorem Steps.Relate.executeField (h : s.Relate R t) (hab : a.Related R.Level b) (node : Node) :
    R.Rel (executeField s a node) (executeField t b node) := by
  cases node with
  | field name typeName constant value bound =>
    refine .ite ?_ ?_
    · exact (Rel.pure _).bind fun v => R.relates_bindVariable _ _ _ hab
    · exact (h.evaluate value hab).bind fun v => R.relates_bindVariable _ _ _ hab
  | literal value type => cases value <;> exact Rel.throw _
  | _ => exact Rel.throw _

def Steps.next (s : Steps Run) : Steps Run where
  evaluate := s.evaluateNode
  evaluateAll := s.evaluateNodes
  operate operator l r := lift (applyBinary operator l r)
  write := text
  invoke := s.invokeFunction
  execute := s.executeNode
  executeLoop := s.executeRound
  executeAll := s.executeNodes

/-- One more step of nesting on both sides. -/
theorem Steps.Relate.next {R : StepRelation Run Run} {s t : Steps Run} (h : s.Relate R t)
    (hbody : ∀ {a b : Activation} {nodes nodes'}, a.Related R.Level b → R.Body a.level nodes nodes' →
      t.executeNodes b nodes = t.executeNodes b nodes') :
    s.next.Relate R t.next where
  evaluate node hab := h.evaluateNode hab node
  evaluateAll nodes hab := h.evaluateNodes hab nodes
  operate operator l r := R.relates_settled (applyBinary operator l r)
  write v := by
    show R.Rel (text v) (text v)
    unfold text
    split
    · exact R.relates_pure _
    · exact R.relates_settled (.error _)
  invoke signature values hab hfg := h.invokeFunction hab hfg signature values
  execute node hab := h.executeNode hab node
  executeLoop construct condition increment statements hab :=
    h.executeRound hab construct condition increment statements
  executeAll {a b nodes nodes'} hab hnodes := by
    show R.Rel (s.executeNodes a nodes) (t.executeNodes b nodes')
    rw [← hbody hab hnodes]
    exact h.executeNodes hab nodes

section Programs

variable {R : ProgramRelation M N} {s : Steps M} {t : Steps N}

theorem Steps.Relate.executeSource (h : s.Relate R.toStepRelation t) (hab : a.Related R.Level b)
    (node : Node) : R.Rel (executeSource s a node) (executeSource t b node) := by
  cases node with
  | source fields methods =>
    refine (Rel.forM (fun field => h.executeField hab field) fields).bind fun _ => ?_
    refine (Rel.forM (fun method => R.relates_defineMethod method hab) methods).bind fun _ => ?_
    exact R.relates_findMain hab fun f g hfg => h.invoke _ [] hab hfg
  | _ => exact Rel.throw _

theorem Steps.Relate.executeProgram (h : s.Relate R.toStepRelation t) (hab : a.Related R.Level b)
    (node : Node) : R.Rel (executeProgram s a node) (executeProgram t b node) := by
  have hnote : ∀ line, R.Rel (liftM (noteAt a 1 (return line))) (liftM (noteAt b 1 (return line))) :=
    fun line => R.relates_noteAt hab (shows_pure line) (.inr ⟨line, rfl⟩)
  exact (hnote _).bind fun _ => (h.executeSource hab node).bind fun v =>
    (h.write v).bind fun _ => (hnote _).bind fun _ => .pure v

end Programs

end BlockScript
