import BlockScript.Proofs.Evaluation.Quiet
import BlockScript.Proofs.Evaluation.Relate
import BlockScript.Proofs.Tree.Spelling
/-!
# Running reads both spellings alike

At level 0 the spelling of a logical operator shows only in the fault for an operand that is no truth
value. Running a program comes to the same end as running it in words, where each operator is put in
words when it is reached.
-/
namespace BlockScript

open Run StepRelation

section Words

/-- The node that is evaluated in place of a node. At level 0 its own operator is in words. -/
def Node.reached (level : Nat) : Node → Node
  | binary operator left right type =>
    binary (if level = 0 then BlockScript.inWords operator else operator) left right type
  | node => node

/-- The steps that run a program and put each operator in words when they reach it. -/
def stepsInWords : Nat → Steps Run
  | 0 => .giveUp
  | fuel + 1 =>
    { (stepsInWords fuel).next with
      evaluate := fun a node => (stepsInWords fuel).evaluateNode a (node.reached a.level) }

structure Steps.IgnoresSpelling (t : Steps Run) : Prop where
  evaluate : ∀ {a : Activation}, a.level = 0 → ∀ node,
    t.evaluate a (Node.inWords node) = t.evaluate a node
  evaluateAll : ∀ {a : Activation}, a.level = 0 → ∀ nodes,
    t.evaluateAll a (nodes.map Node.inWords) = t.evaluateAll a nodes
  execute : ∀ {a : Activation}, a.level = 0 → ∀ node,
    t.execute a (Node.inWords node) = t.execute a node
  executeLoop : ∀ {a : Activation}, a.level = 0 → ∀ construct condition increment statements,
    t.executeLoop a construct (Node.inWords condition) (Node.inWords increment)
      (statements.map Node.inWords) = t.executeLoop a construct condition increment statements
  executeAll : ∀ {a : Activation}, a.level = 0 → ∀ nodes,
    t.executeAll a (nodes.map Node.inWords) = t.executeAll a nodes

namespace Steps.IgnoresSpelling

variable {t : Steps Run} {a : Activation}

theorem evaluateReached (h : t.IgnoresSpelling) (ha : a.level = 0) (node : Node) :
    t.evaluateNode a (node.inWords.reached a.level) = t.evaluateNode a (node.reached a.level) := by
  cases node <;> simp only [Node.inWords, Node.reached, ha, if_pos, inWords_inWords,
    Steps.evaluateNode, Node.isAbsent_inWords, Node.kindPath, Node.kindName, Node.inWordsAll_eq_map,
    h.evaluate ha, h.evaluateAll ha]

theorem evaluateNodes (h : t.IgnoresSpelling) (ha : a.level = 0) (nodes : List Node) :
    t.evaluateNodes a (nodes.map Node.inWords) = t.evaluateNodes a nodes := by
  cases nodes <;> simp only [List.map_nil, List.map_cons, Steps.evaluateNodes, h.evaluate ha,
    h.evaluateAll ha]

theorem executeRound (h : t.IgnoresSpelling) (ha : a.level = 0) (construct : String)
    (condition increment : Node) (statements : List Node) :
    t.executeRound a construct condition.inWords increment.inWords (statements.map Node.inWords) =
      t.executeRound a construct condition increment statements := by
  have hwithin (frame : FrameId) := h.executeAll (a := a.within frame) ha
  simp only [Steps.executeRound, Node.isAbsent_inWords, h.evaluate ha, h.execute ha, hwithin,
    h.executeLoop ha]

theorem executeNode (h : t.IgnoresSpelling) (ha : a.level = 0) (node : Node) :
    t.executeNode a node.inWords = t.executeNode a node := by
  cases node with
  | assign receiver value =>
    cases receiver <;> simp only [Node.inWords, Steps.executeNode, Node.isAbsent_inWords,
      h.evaluate ha]
  | whileStmt condition statements =>
    have hloop := h.executeLoop ha "while" condition .absent statements
    simp only [Node.inWords] at hloop
    simp only [Node.inWords, Steps.executeNode, Node.inWordsAll_eq_map, hloop]
  | _ =>
    have hexecute (frame : FrameId) := h.execute (a := a.within frame) ha
    have hloop (frame : FrameId) := h.executeLoop (a := a.within frame) ha
    have hall (frame : FrameId) := h.executeAll (a := a.within frame) ha
    simp only [Node.inWords, Steps.executeNode, Node.isAbsent_inWords, Node.kindPath,
      Node.kindName, Node.inWordsAll_eq_map, h.evaluate ha, hexecute, hall, hloop]

theorem executeNodes (h : t.IgnoresSpelling) (ha : a.level = 0) (nodes : List Node) :
    t.executeNodes a (nodes.map Node.inWords) = t.executeNodes a nodes := by
  cases nodes <;> simp only [List.map_nil, List.map_cons, Steps.executeNodes, h.execute ha,
    h.executeAll ha]

theorem executeField (h : t.IgnoresSpelling) (ha : a.level = 0) (node : Node) :
    executeField t a node.inWords = BlockScript.executeField t a node := by
  cases node <;> simp only [Node.inWords, BlockScript.executeField, Node.isAbsent_inWords,
    h.evaluate ha]

end Steps.IgnoresSpelling

theorem stepsInWords_ignoreSpelling (fuel : Nat) : (stepsInWords fuel).IgnoresSpelling := by
  induction fuel with
  | zero => constructor <;> intros <;> rfl
  | succ fuel ih =>
    exact
      { evaluate := ih.evaluateReached
        evaluateAll := ih.evaluateNodes
        execute := ih.executeNode
        executeLoop := ih.executeRound
        executeAll := ih.executeNodes }

end Words

def SameInWords (level : Nat) (statements statements' : List Node) : Prop :=
  statements = statements' ∨
    level = 0 ∧ statements.map Node.inWords = statements'.map Node.inWords

abbrev Function.Respelled : Function → Function → Prop := Function.Related Eq SameInWords

structure Machine.Respelled (m m' : Machine) : Prop where
  scopes : m.SameScopes Function.Respelled m'
  console : m'.console = m.console

variable {α β : Type}

inductive SameEnds : Except Fault α × Machine → Except Fault α × Machine → Prop where
  | ok {a : α} {m m' : Machine} (machines : m.Respelled m') : SameEnds (.ok a, m) (.ok a, m')
  | error {fault fault' : Fault} {m m' : Machine} (same : fault'.inWords = fault.inWords)
      (console : m'.console = m.console) : SameEnds (.error fault, m) (.error fault', m')

def Respells (x y : Run α) : Prop :=
  ∀ ⦃m m' : Machine⦄, m.Respelled m' → SameEnds (x.outcome m) (y.outcome m')

section Operations

theorem respells_pure (a : α) : Respells (pure a) (pure a) := fun _ _ h => .ok h

theorem respells_settled (result : Except Fault α) :
    Respells (Run.lift result) (Run.lift result) := by
  cases result with
  | ok a => exact respells_pure a
  | error fault => exact fun _ _ h => .error rfl h.console

theorem Respells.bind {x y : Run α} {f g : α → Run β} (h : Respells x y)
    (hf : ∀ a, Respells (f a) (g a)) : Respells (x >>= f) (y >>= g) := by
  intro m m' hm
  have hends := h hm
  rw [outcome_bind, outcome_bind]
  generalize x.outcome m = e at hends ⊢
  generalize y.outcome m' = e' at hends ⊢
  cases hends with
  | ok machines => exact hf _ machines
  | error same console => exact .error same console

theorem Respells.quiet {x y : Run α} (h : Quiet Function.Respelled x y) : Respells x y := by
  intro m m' hm
  have hends := h hm.scopes
  generalize x.outcome m = e at hends ⊢
  generalize y.outcome m' = e' at hends ⊢
  cases hends with
  | ok scopes => exact .ok ⟨scopes, hm.console⟩
  | error => exact .error rfl hm.console

/-- A step that goes on with a function that is looked up. -/
theorem respells_lookUp {find : Run Function} (hfind : Finds Function.Respelled find)
    {k k' : Function → Run α} (hk : ∀ f g, f.Respelled g → Respells (k f) (k' g)) :
    Respells (find >>= k) (find >>= k') := by
  intro m m' hm
  rw [outcome_bind, outcome_bind]
  obtain ⟨fault, hs, hs'⟩ | ⟨f, g, hfg, hs, hs'⟩ := hfind hm.scopes <;> rw [hs, hs']
  · exact .error rfl hm.console
  · exact hk f g hfg hm

theorem respells_printLine (line : String) : Respells (printLine line) (printLine line) :=
  fun _ _ h => .ok ⟨h.scopes, congrArg (·.printLine line) h.console⟩

theorem respells_noteAt (a : Activation) (least : Nat) {line : Run String} (hline : Shows line) :
    Respells (noteAt a least line) (noteAt a least line) := by
  unfold noteAt
  split
  · refine Respells.bind ?_ fun text => ?_
    · obtain ⟨text, rfl⟩ | rfl := hline
      · exact respells_pure text
      · exact respells_settled (.error _)
    · exact fun _ _ h => .ok ⟨h.scopes, congrArg (·.note .running text) h.console⟩
  · exact respells_pure ()

theorem respells_requireBoolean (a : Activation) (construct : String) (v : Value) :
    Respells (requireBoolean a construct v) (requireBoolean a construct v) := by
  unfold requireBoolean
  split
  · refine (respells_noteAt a 3 ?_).bind fun _ => respells_pure _
    exact (shows_text _).bind fun _ => shows_pure _
  · exact respells_settled (.error _)

/-- At level 0 an operator shows only in a fault. -/
theorem respells_requireOperand {a : Activation} (ha : a.level = 0) (operator : String)
    (v : Value) : Respells (requireBoolean a operator v) (requireBoolean a (inWords operator) v) := by
  unfold requireBoolean noteAt
  rw [ha]
  cases v with
  | boolean b => exact respells_pure b
  | _ =>
    refine fun _ _ h => .error ?_ h.console
    simp only [Fault.inWords, RunFault.inWords, inWords_inWords]

theorem respells_bindVariable (a : Activation) (what name : String) (v : Variable) :
    Respells (bindVariable a what name v) (bindVariable a what name v) := by
  refine (Respells.quiet (quiet_defineVariable a.scope name v)).bind fun _ => ?_
  exact respells_noteAt a 2 ((shows_text _).bind fun _ => shows_pure _)

/-- Functions are bound to methods of which one stands for the other. -/
theorem respells_bindMethod (a : Activation) (name : String) (parameters : List String)
    {statements statements' : List Node} (h : SameInWords a.level statements statements')
    (parameterTypes : List (Option String)) (returnType : Option String)
    (callee : Option StaticFunction) :
    Respells
      (defineMethod a (.method name parameters parameterTypes returnType statements callee))
      (defineMethod a (.method name parameters parameterTypes returnType statements' callee)) := by
  refine (Respells.quiet (quiet_defineFunction a.scope _ (.method rfl h))).bind fun _ => ?_
  exact respells_noteAt a 2 (shows_pure _)

end Operations

def respelling : ProgramRelation Run Run where
  Rel := Respells
  Level := Eq
  Body := SameInWords
  body_refl _ _ := .inl rfl
  relates_pure := respells_pure
  relates_bind := Respells.bind
  relates_settled := respells_settled
  relates_printLine := respells_printLine
  relates_newFrame parent := .quiet (quiet_newFrame parent)
  relates_bindArguments scope names values := .quiet (quiet_bindArguments scope names values)
  relates_findVariable scope name := .quiet (quiet_findVariable scope name)
  relates_assignVariable scope name value := .quiet (quiet_assignVariable scope name value)
  relates_getField typeName members name := .quiet (quiet_getField typeName members name)
  relates_setField typeName members name value :=
    .quiet (quiet_setField typeName members name value)
  relates_noteAt hab hline _ := hab.eq ▸ respells_noteAt _ _ hline
  relates_requireBoolean construct v hab := hab.eq ▸ respells_requireBoolean _ construct v
  relates_bindVariable what name v hab := hab.eq ▸ respells_bindVariable _ what name v
  relates_findFunction scope signature _ _ hk :=
    respells_lookUp (finds_findFunction scope signature) hk
  relates_findMethod typeName members name arguments _ _ hk :=
    respells_lookUp (finds_findMethod typeName members name arguments) hk
  relates_defineMethod {a b} node hab := by
    rw [hab.eq]
    cases node with
    | method name parameters parameterTypes returnType statements callee =>
      exact respells_bindMethod b name parameters (.inl rfl) parameterTypes returnType callee
    | _ => exact respells_settled (.error _)
  relates_findMain hab hk := hab.eq ▸ respells_lookUp (finds_findMain _) hk

section Nesting

variable {s t : Steps Run} {a b : Activation}

/-- An expression is evaluated as in words, where the level is 0. -/
theorem Steps.Relate.evaluateReached (h : s.Relate respelling.toStepRelation t)
    (hab : a.Related Eq b) (node : Node) :
    Respells (s.evaluateNode a node) (t.evaluateNode b (node.reached b.level)) := by
  cases node with
  | binary operator left right type =>
    -- At other levels the trace shows the operator, which therefore stays as it is.
    by_cases hlevel : b.level = 0
    · obtain rfl := hab.eq
      have hevaluate (node : Node) : Respells (s.evaluate a node) (t.evaluate a node) :=
        h.evaluate node hab
      have hoperand (v : Value) := respells_requireOperand hlevel operator v
      have hright : Respells
          (do return Value.boolean (← requireBoolean a operator (← s.evaluate a right)))
          (do return Value.boolean (← requireBoolean a (inWords operator) (← t.evaluate a right))) :=
        (hevaluate right).bind fun v => (hoperand v).bind fun c => respells_pure _
      simp only [Node.reached, if_pos hlevel, Steps.evaluateNode, conjunctions_inWords,
        disjunctions_inWords]
      refine (hevaluate left).bind fun l => ?_
      cases hand : conjunctions.contains operator with
      | true =>
        refine (hoperand l).bind fun c => ?_
        cases c
        · exact respells_pure _
        · exact hright
      | false =>
        cases hor : disjunctions.contains operator with
        | true =>
          refine (hoperand l).bind fun c => ?_
          cases c
          · exact hright
          · exact respells_pure _
        | false =>
          rw [inWords_of_other hand hor]
          exact (hevaluate right).bind fun v => h.operate operator l v
    · rw [Node.reached, if_neg hlevel]
      exact h.evaluateNode hab _
  | _ => exact h.evaluateNode hab _

/-- A run and the run in words come to the same end. -/
theorem relate_stepsInWords (fuel : Nat) :
    (steps fuel).Relate respelling.toStepRelation (stepsInWords fuel) := by
  induction fuel with
  | zero => exact Steps.relate_giveUp _
  | succ fuel ih =>
    have hbody {a b : Activation} {nodes nodes' : List Node} (hab : a.Related Eq b)
        (hnodes : SameInWords a.level nodes nodes') :
        (stepsInWords fuel).executeNodes b nodes = (stepsInWords fuel).executeNodes b nodes' := by
      obtain rfl | ⟨hlevel, hwords⟩ := hnodes
      · rfl
      have hexecute :=
        (stepsInWords_ignoreSpelling fuel).executeNodes (a := b) (hab.level.symm.trans hlevel)
      rw [← hexecute, hwords, hexecute]
    exact { ih.next hbody with evaluate := fun node hab => ih.evaluateReached hab node }

end Nesting

section Programs

variable {a : Activation}

theorem respells_defineMethod (ha : a.level = 0) (node : Node) :
    Respells (defineMethod a node) (defineMethod a node.inWords) := by
  cases node with
  | method name parameters parameterTypes returnType statements callee =>
    rw [Node.inWords]
    refine respells_bindMethod a name parameters (.inr ⟨ha, ?_⟩) parameterTypes returnType callee
    rw [← Node.inWordsAll_eq_map, ← Node.inWordsAll_eq_map, Node.inWordsAll_inWordsAll]
  | _ => exact respells_settled (.error _)

/-- A program and the program in words come to the same end. -/
theorem respells_executeProgram (ha : a.level = 0) (fuel : Nat) (program : Node) :
    Respells (executeProgram (steps fuel) a program)
      (executeProgram (stepsInWords fuel) a program.inWords) := by
  have hsteps := relate_stepsInWords fuel
  cases program with
  | source fields methods =>
    have hfields : Respells (fields.forM (executeField (steps fuel) a))
        ((fields.map Node.inWords).forM (executeField (stepsInWords fuel) a)) := by
      have hwords := (stepsInWords_ignoreSpelling fuel).executeField ha
      rw [List.forM_eq_forM, List.forM_map, funext hwords]
      exact Rel.forM (fun field => hsteps.executeField (.same a) field) fields
    have hmethods : Respells (methods.forM fun method => defineMethod a method)
        ((methods.map Node.inWords).forM fun method => defineMethod a method) := by
      rw [List.forM_eq_forM, List.forM_map]
      exact Rel.forM (R := respelling.toStepRelation) (respells_defineMethod ha) methods
    have hmain := respelling.relates_findMain (.same a) fun _ _ hfg =>
      hsteps.invoke ⟨"main", 0⟩ [] (.same a) hfg
    have hnote (line : String) := respells_noteAt a 1 (shows_pure line)
    have hsource : Respells (executeSource (steps fuel) a (.source fields methods))
        (executeSource (stepsInWords fuel) a (Node.source fields methods).inWords) := by
      rw [Node.inWords, Node.inWordsAll_eq_map, Node.inWordsAll_eq_map]
      exact hfields.bind fun _ => hmethods.bind fun _ => hmain
    exact (hnote _).bind fun _ => hsource.bind fun v =>
      Respells.bind (hsteps.write v) fun _ => (hnote _).bind fun _ => respells_pure v
  | _ => exact hsteps.executeProgram (.same a) _

theorem Machine.Respelled.refl (m : Machine) : m.Respelled m :=
  ⟨.refl (.refl (fun _ => rfl) fun _ _ => .inl rfl) m, rfl⟩

/-- Without a trace, programs that are the same in words come to the same end, write the same and
leave the same behind. -/
theorem runWithin_of_inWords {program program' : Node} (h : program'.inWords = program.inWords)
    (m : Machine) (parent : Option FrameId) (fuel : Nat) :
    ((m.addRoot parent 0).runWithin fuel program').1.mapError Fault.inWords =
        ((m.addRoot parent 0).runWithin fuel program).1.mapError Fault.inWords ∧
      ((m.addRoot parent 0).runWithin fuel program').2.console =
        ((m.addRoot parent 0).runWithin fuel program).2.console := by
  -- Both runs come to the same end as one run in words.
  have hends := respells_executeProgram (a := (m.addRoot parent 0).activation) rfl fuel program
    (.refl (m.addRoot parent 0))
  have hends' := respells_executeProgram (a := (m.addRoot parent 0).activation) rfl fuel program'
    (.refl (m.addRoot parent 0))
  rw [h] at hends'
  unfold Machine.runWithin
  generalize outcome _ (m.addRoot parent 0) = e at hends ⊢
  generalize outcome _ (m.addRoot parent 0) = w at hends hends'
  generalize outcome _ (m.addRoot parent 0) = e' at hends' ⊢
  cases hends with
  | ok machines =>
    cases hends' with
    | ok machines' =>
      have hconsole := machines'.console.symm.trans machines.console
      exact ⟨rfl, congrArg Console.close hconsole⟩
  | error same console =>
    cases hends' with
    | error same' console' =>
      have hconsole := console'.symm.trans console
      exact ⟨congrArg Except.error (same'.symm.trans same), congrArg Console.close hconsole⟩

end Programs

end BlockScript
