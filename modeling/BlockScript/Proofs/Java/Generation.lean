import BlockScript.Host
import BlockScript.Java.Writer
import BlockScript.Proofs.Ends
import BlockScript.Proofs.Typing.Annotated
import BlockScript.Proofs.Typing.Slots
import Mathlib
/-!
# Java for every checked program

Writing reads the slots and stops at an empty one. In a checked tree it finds all of them filled and
a literal for every value, so it comes to its end whatever the page.
-/
namespace BlockScript.Java

/-- From every page the step comes to its end. -/
def Finishes {α : Type} (w : Write α) : Prop :=
  ∀ p, Ends w p (fun _ _ => True) fun _ _ => False

section Steps

variable {α β : Type}

theorem Finishes.bind {w : Write α} {f : α → Write β} (h : Finishes w)
    (hf : ∀ a, Finishes (f a)) : Finishes (w >>= f) :=
  fun p => ends_bind.mpr (Ends.imp (h p) (fun a p' _ => hf a p') fun _ _ => id)

theorem finishes_pure (a : α) : Finishes (pure a : Write α) := fun _ => trivial

theorem finishes_put (s : String) : Finishes (put s) := fun _ => trivial

theorem finishes_newline (depth : Int) : Finishes (newline depth) := finishes_put _

theorem finishes_indentation : Finishes indentation := fun _ => trivial

/-- What follows a text. -/
theorem finishes_after {f : Unit → Write α} (s : String) (hf : ∀ u, Finishes (f u)) :
    Finishes (put s >>= f) := (finishes_put s).bind hf

/-- What follows the beginning of a line. -/
theorem finishes_line {f : Unit → Write α} (hf : ∀ u, Finishes (f u)) :
    Finishes (indentation >>= fun depth => newline depth >>= f) :=
  finishes_indentation.bind fun depth => (finishes_newline depth).bind hf

theorem finishes_openClass : Finishes openClass :=
  finishes_after _ fun _ => (finishes_newline 0).bind fun _ _ => trivial

theorem finishes_startMethod : Finishes startMethod := by
  refine finishes_indentation.bind fun depth => (finishes_newline _).bind fun _ => ?_
  refine finishes_after _ fun _ => (finishes_newline _).bind fun _ => ?_
  refine finishes_after _ fun _ => (finishes_newline _).bind fun _ => ?_
  exact finishes_after _ fun _ => finishes_newline 0

theorem finishes_closeClass : Finishes closeClass := fun _ => trivial

end Steps

/-- Integers that fit their type have few enough digits. -/
theorem exists_literal? {value : Literal} {t : StaticType} (h : value.staticType = .ok t) :
    ∃ s, literal? value = some s := by
  cases value with
  | integer n =>
    have hbounds : leastInt ≤ n ∧ n ≤ greatestInt := integer_mem_bounds ⟨t, rfl, h⟩
    have hsmall : n.natAbs < 10 ^ 10 := by
      unfold leastInt greatestInt at hbounds
      omega
    have hlimit : 10 ^ 10 ≤ Text.digitBound := Text.pow_le_digitBound (by decide)
    rw [literal?, Text.numeral?, if_neg (Nat.not_le.mpr (Nat.lt_of_lt_of_le hsmall hlimit))]
    exact ⟨_, rfl⟩
  | nil | boolean _ | character _ | string _ | decimal _ | raw _ => exact ⟨_, rfl⟩

section Expressions

variable {node : Node} {nodes : List Node}

/-- An expression, or the word in its place. -/
theorem finishes_part (h : Finishes (write node)) :
    Finishes (if node.isAbsent then put absentWord else write node) := by
  split
  · exact finishes_put _
  · exact h

theorem finishes_part_then {α : Type} {f : Unit → Write α} (h : Finishes (write node))
    (hf : ∀ u, Finishes (f u)) :
    Finishes (if node.isAbsent then put absentWord >>= f else write node >>= f) := by
  split
  · exact finishes_after _ hf
  · exact h.bind hf

theorem finishes_arguments (h : ∀ n ∈ nodes, Finishes (write n)) (first : Bool) :
    Finishes (writeArguments first nodes) := by
  induction nodes generalizing first with
  | nil =>
    rw [writeArguments]
    exact finishes_pure ()
  | cons node rest ih =>
    obtain ⟨hnode, hrest⟩ := List.forall_mem_cons.mp h
    have hnext : ∀ u : Unit, Finishes (do
        if node.isAbsent then put absentWord else write node
        writeArguments false rest) :=
      fun _ => finishes_part_then hnode fun _ => ih hrest false
    rw [writeArguments]
    split
    · exact finishes_after _ hnext
    · exact hnext ()

theorem finishes_expression (h : AnnotatedExpression node) : Finishes (write node) := by
  induction h with
  | literal type =>
    obtain ⟨s, hs⟩ := exists_literal? type
    rw [write, hs]
    exact finishes_put s
  | group inside ih =>
    rw [write]
    exact finishes_after _ fun _ => finishes_part_then ih fun _ => finishes_put _
  | binary first second ih₁ ih₂ =>
    rw [write]
    exact finishes_part_then ih₁ fun _ => finishes_after _ fun _ => finishes_part ih₂
  | access =>
    rw [write]
    exact finishes_put _
  | @member receiver name v object ih =>
    have hname : Finishes (put v.javaName) := finishes_put _
    rw [write]
    split
    · exact ih.bind fun _ => finishes_after _ fun _ => hname
    · exact hname
  | @call name arguments f passed ih =>
    rw [write]
    exact finishes_after _ fun _ => (finishes_arguments ih true).bind fun _ => finishes_put _
  | @methodCall receiver name arguments f object passed ih₁ ih₂ =>
    have hcall : Finishes (do
        put (f.javaName ++ "(")
        writeArguments true arguments
        put ")") :=
      finishes_after _ fun _ => (finishes_arguments ih₂ true).bind fun _ => finishes_put _
    rw [write]
    split
    · exact ih₁.bind fun _ => finishes_after _ fun _ => hcall
    · exact hcall

/-- What a variable is given where it is bound, if anything. -/
theorem finishes_initial (h : AnnotatedInitial node) : Finishes (do
    if !node.isAbsent then
      put " = "
      write node
    put ";") := by
  obtain rfl | h := h
  · exact finishes_put _
  · split
    · exact finishes_after _ fun _ => (finishes_expression h).bind fun _ => finishes_put _
    · exact finishes_put _

theorem finishes_header (h : AnnotatedHeader node) (before : String) :
    Finishes (writeHeaderPart before node) := by
  cases h with
  | none =>
    rw [writeHeaderPart]
    exact finishes_pure ()
  | some left right =>
    rw [writeHeaderPart]
    refine finishes_after _ fun _ => finishes_part_then (finishes_expression left) fun _ => ?_
    exact finishes_after _ fun _ => finishes_part (finishes_expression right)

end Expressions

section Statements

variable {node : Node} {nodes : List Node}

theorem finishes_lines (h : ∀ n ∈ nodes, Finishes (write n)) : Finishes (writeLines nodes) := by
  induction nodes with
  | nil =>
    rw [writeLines]
    exact finishes_pure ()
  | cons node rest ih =>
    obtain ⟨hnode, hrest⟩ := List.forall_mem_cons.mp h
    rw [writeLines]
    exact finishes_line fun _ => hnode.bind fun _ => ih hrest

theorem finishes_block (h : ∀ n ∈ nodes, Finishes (write n)) : Finishes (writeBlock nodes) := by
  cases nodes with
  | nil =>
    rw [writeBlock]
    exact finishes_put _
  | cons node rest =>
    obtain ⟨hnode, hrest⟩ := List.forall_mem_cons.mp h
    have hdeeper : Finishes deeper := fun _ => trivial
    have hshallower : Finishes shallower := fun _ => trivial
    rw [writeBlock]
    refine finishes_after _ fun _ => hdeeper.bind fun _ => finishes_line fun _ => ?_
    refine hnode.bind fun _ => (finishes_lines hrest).bind fun _ => hshallower.bind fun _ => ?_
    exact finishes_line fun _ => finishes_put _

theorem finishes_methods (h : ∀ n ∈ nodes, Finishes (write n)) :
    Finishes (writeMethods nodes) := by
  induction nodes with
  | nil =>
    rw [writeMethods]
    exact finishes_pure ()
  | cons node rest ih =>
    obtain ⟨hnode, hrest⟩ := List.forall_mem_cons.mp h
    rw [writeMethods]
    refine finishes_line fun _ => hnode.bind fun _ => ?_
    exact (finishes_newline 0).bind fun _ => ih hrest

theorem finishes_statement (h : AnnotatedStatement node) : Finishes (write node) := by
  induction h with
  | exprStmt whole =>
    rw [write]
    exact finishes_part_then (finishes_expression whole) fun _ => finishes_put _
  | declaration initial =>
    rw [write]
    exact finishes_after _ fun _ => finishes_initial initial
  | assign left right =>
    rw [write]
    refine finishes_part_then (finishes_expression left) fun _ => finishes_after _ fun _ => ?_
    exact finishes_part_then (finishes_expression right) fun _ => finishes_put _
  | @ifStmt condition thens elses test first second ih₁ ih₂ =>
    rw [write]
    refine finishes_after _ fun _ => finishes_part_then (finishes_expression test) fun _ => ?_
    refine finishes_after _ fun _ => (finishes_block ih₁).bind fun _ => ?_
    split
    · exact finishes_after _ fun _ => finishes_block ih₂
    · exact finishes_pure ()
  | forStmt before test after body ih =>
    rw [write]
    refine finishes_after _ fun _ => (finishes_header before "").bind fun _ => ?_
    refine finishes_after _ fun _ => finishes_part_then (finishes_expression test) fun _ => ?_
    refine finishes_after _ fun _ => (finishes_header after " ").bind fun _ => ?_
    exact finishes_after _ fun _ => finishes_block ih
  | whileStmt test body ih =>
    rw [write]
    refine finishes_after _ fun _ => finishes_part_then (finishes_expression test) fun _ => ?_
    exact finishes_after _ fun _ => finishes_block ih
  | returnStmt whole =>
    rw [write]
    refine finishes_after _ fun _ => finishes_part_then (finishes_expression whole) fun _ => ?_
    exact finishes_put _

theorem finishes_field (h : AnnotatedField node) : Finishes (write node) := by
  obtain @⟨name, typeName, constant, value, v, initial⟩ := h
  have hrest : Finishes (do
      put (v.type.javaName ++ " " ++ v.javaName)
      if !value.isAbsent then
        put " = "
        write value
      put ";") := finishes_after _ fun _ => finishes_initial initial
  rw [write]
  show Finishes (if v.constant then _ else _)
  split
  · exact finishes_after _ fun _ => hrest
  · exact hrest

theorem finishes_method (h : AnnotatedMethod node) : Finishes (write node) := by
  obtain ⟨body⟩ := h
  rw [write]
  exact finishes_after _ fun _ => finishes_block fun n hn => finishes_statement (body n hn)

theorem finishes_program (h : AnnotatedProgram node) : Finishes (write node) := by
  obtain @⟨fields, methods, first, second⟩ := h
  have hfields : Finishes (writeLines fields) :=
    finishes_lines fun n hn => finishes_field (first n hn)
  have hmethods : Finishes (writeMethods methods) :=
    finishes_methods fun n hn => finishes_method (second n hn)
  have hrest : Finishes (do
      startMethod
      writeMethods methods
      closeClass) :=
    finishes_startMethod.bind fun _ => hmethods.bind fun _ => finishes_closeClass
  rw [write]
  refine finishes_openClass.bind fun _ => ?_
  split
  · exact hfields.bind fun _ => (finishes_newline 0).bind fun _ => hrest
  · exact hrest

end Statements

section Programs

variable {c c' : Checker} {tree checked : Node}

theorem exists_program (h : AnnotatedProgram checked) : ∃ text, program checked = .ok text := by
  have hends := finishes_program h ⟨"", 0⟩
  obtain ⟨-, -⟩ := h
  unfold Ends at hends
  unfold program writeOn
  dsimp only
  split at hends
  · next hrun =>
    rw [hrun]
    exact ⟨_, rfl⟩
  · exact hends.elim

/-- Whatever the tree and the surroundings: when checking succeeds it has filled every slot of every
node and changed nothing else, all integers in the tree have 32 bits, and there is a Java text for
it. -/
theorem checked_program_generates (h : c.check tree = (.ok checked, c')) :
    checked.bare = tree.bare ∧ (∀ node ∈ checked.preorder, node.Annotated) ∧
      (∀ n type, .literal (.integer n) type ∈ checked.preorder → -2 ^ 31 ≤ n ∧ n ≤ 2 ^ 31 - 1) ∧
      ∃ text, program checked = .ok text := by
  have hannotated : AnnotatedProgram checked := annotated_of_check h
  refine ⟨bare_of_check h, hannotated.annotated, fun n type hmem => ?_, exists_program hannotated⟩
  exact integer_mem_bounds (hannotated.annotated _ hmem)

/-- A loop that calls a method of an object in the surroundings. -/
theorem checked_program_generates_loop :
    let counter : HostEntry := .object "counter" "counter" true "Counter" "Counter"
      (.source [.field "count" none false (.literal (.integer 0) none) none]
        [.method "step" ["self", "by"] [none, some "Integer"] none [] none])
    let n : Node := .access .absent "n" none none
    let tree : Node := .source [.field "n" none false (.literal (.integer 0) none) none]
      [.method "main" [] [] (some "Integer")
        [.forStmt (.assign n (.literal (.integer 0) none))
          (.binary "<" n (.group (.literal (.integer 2) none) none) none)
          (.assign n (.binary "+" n (.literal (.integer 1) none) none))
          [.exprStmt (.call (.access .absent "counter" none none) "step" [n] none none)],
        .returnStmt (.access (.access .absent "counter" none none) "count" none none)] none]
    readProgram
      "LET n = 0; DEF main(): Integer DO FOR (n = 0; n < (2); n = n + 1) counter.step(n); END
        RETURN counter.count; END" = .ok tree ∧
      ∃ c checked c', Checker.empty.inside [counter] 0 = .ok c ∧
        c.check tree = (.ok checked, c') ∧ (∀ node ∈ checked.preorder, node.Annotated) ∧
        ∃ text, program checked = .ok text := by
  intro counter n tree
  have hread : readProgram
      "LET n = 0; DEF main(): Integer DO FOR (n = 0; n < (2); n = n + 1) counter.step(n); END
        RETURN counter.count; END" = .ok tree := by
    cbv
  have hok : ((Checker.empty.inside [counter] 0).bind fun c => (c.check tree).1).isOk = true := by
    decide +kernel
  cases hinside : Checker.empty.inside [counter] 0 with
  | error fault =>
    rw [hinside] at hok
    cases hok
  | ok c =>
    rw [hinside] at hok
    cases hresult : c.check tree with
    | mk result c' =>
      cases result with
      | error fault =>
        simp only [Except.bind, hresult] at hok
        cases hok
      | ok checked =>
        obtain ⟨-, hannotated, -, htext⟩ := checked_program_generates hresult
        exact ⟨hread, c, checked, c', rfl, hresult, hannotated, htext⟩

end Programs

end BlockScript.Java
