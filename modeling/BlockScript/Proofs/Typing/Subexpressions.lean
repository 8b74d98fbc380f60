import BlockScript.Proofs.Tree.Expressions
import BlockScript.Proofs.Typing.Judgement
/-!
# The expressions of a checked program

Every expression in a well-typed program is well typed where something is seen. With what is known
of written expressions this leaves five forms: nothing has members.
-/
namespace BlockScript

def IsTyped (node : Node) : Prop := ∃ Γ t, HasType Γ node t

mutual

theorem HasType.expressions {Γ : StaticView} {node : Node} {t : StaticType}
    (h : HasType Γ node t) : AllExpressions IsTyped node.preorder := by
  cases h with
  | literal plain type =>
    exact allExpressions_cons (fun _ => ⟨Γ, _, .literal plain type⟩) allExpressions_nil
  | group inside =>
    exact allExpressions_cons (fun _ => ⟨Γ, _, .group inside⟩) (HasType.expressions inside)
  | binary first second rule =>
    exact allExpressions_cons (fun _ => ⟨Γ, _, .binary first second rule⟩)
      (allExpressions_append (HasType.expressions first) (HasType.expressions second))
  | access found spelled =>
    exact allExpressions_cons (fun _ => ⟨Γ, _, .access found spelled⟩) allExpressions_nil
  | call passed found accepted spelled =>
    exact allExpressions_cons (fun _ => ⟨Γ, _, .call passed found accepted spelled⟩)
      (HaveTypes.expressions passed)

theorem HaveTypes.expressions {Γ : StaticView} {nodes : List Node} {ts : List StaticType}
    (h : HaveTypes Γ nodes ts) : AllExpressions IsTyped (Node.preorderAll nodes) := by
  cases h with
  | nil => exact allExpressions_nil
  | cons head tail =>
    exact allExpressions_append (HasType.expressions head) (HaveTypes.expressions tail)

end

section Parts

variable {Γ : StaticView} {node : Node} {t : StaticType}

theorem Initializes.expressions (h : Initializes Γ node t) :
    AllExpressions IsTyped node.preorder := by
  obtain rfl | ⟨source, h, -⟩ := h
  · exact allExpressions_nil
  · exact h.expressions

theorem AssignTyped.expressions (h : AssignTyped Γ node) :
    AllExpressions IsTyped node.preorder := by
  cases h with
  | assign found assignable spelled typed accepted =>
    exact allExpressions_cons nofun
      (allExpressions_cons (fun _ => ⟨Γ, _, .access found spelled⟩) typed.expressions)

theorem HeaderTyped.expressions (h : HeaderTyped Γ node) :
    AllExpressions IsTyped node.preorder := by
  obtain rfl | h := h
  · exact allExpressions_nil
  · exact h.expressions

end Parts

mutual

theorem StatementTyped.expressions {C : Scopes StaticVariable StaticFunction}
    {returns : StaticType} {Γ Γ' : StaticView} {node : Node}
    (h : StatementTyped C returns Γ node Γ') :
    AllExpressions IsTyped node.preorder := by
  cases h with
  | exprStmt typed => exact allExpressions_cons nofun typed.expressions
  | declaration initial => exact allExpressions_cons nofun initial.expressions
  | assign typed => exact typed.expressions
  | ifStmt test first second =>
    refine allExpressions_cons nofun
      (allExpressions_append ?_ (StatementsTyped.expressions second))
    exact allExpressions_append test.expressions (StatementsTyped.expressions first)
  | forStmt before test after body =>
    refine allExpressions_cons nofun
      (allExpressions_append ?_ (StatementsTyped.expressions body))
    refine allExpressions_append ?_ after.expressions
    exact allExpressions_append before.expressions test.expressions
  | whileStmt test body =>
    exact allExpressions_cons nofun
      (allExpressions_append test.expressions (StatementsTyped.expressions body))
  | returnStmt typed => exact allExpressions_cons nofun typed.expressions

theorem StatementsTyped.expressions {C : Scopes StaticVariable StaticFunction}
    {returns : StaticType} {Γ Γ' : StaticView} {nodes : List Node}
    (h : StatementsTyped C returns Γ nodes Γ') :
    AllExpressions IsTyped (Node.preorderAll nodes) := by
  cases h with
  | nil => exact allExpressions_nil
  | cons head tail =>
    exact allExpressions_append (StatementTyped.expressions head) (StatementsTyped.expressions tail)

end

section Program

variable {C : Scopes StaticVariable StaticFunction} {Γ : StaticView} {node : Node}
  {nodes : List Node} {vars vars' : List (String × StaticVariable)}
  {funs funs' : List (Signature × StaticFunction)}

theorem FieldsTyped.expressions (h : FieldsTyped C funs vars nodes vars') :
    AllExpressions IsTyped (Node.preorderAll nodes) := by
  induction h with
  | nil => exact allExpressions_nil
  | cons initial fresh home tail ih =>
    exact allExpressions_append (allExpressions_cons nofun initial.expressions) ih

theorem MethodsTyped.expressions (h : MethodsTyped C Γ funs nodes funs') :
    AllExpressions IsTyped (Node.preorderAll nodes) := by
  induction h with
  | nil => exact allExpressions_nil
  | cons paired typed unbound tail ih =>
    cases typed with
    | method bound arity own placed body =>
      exact allExpressions_append (allExpressions_cons nofun body.expressions) ih

theorem ProgramTyped.expressions (h : ProgramTyped C node) :
    AllExpressions IsTyped node.preorder := by
  cases h with
  | source first second seen entry integer =>
    exact allExpressions_cons nofun (allExpressions_append first.expressions second.expressions)

theorem exists_hasType_of_mem {ts : List StaticType} (h : HaveTypes Γ nodes ts)
    (hmem : node ∈ nodes) : ∃ t, HasType Γ node t := by
  induction nodes generalizing ts with
  | nil => cases hmem
  | cons first rest ih =>
    cases h with
    | cons head tail =>
      rcases List.mem_cons.mp hmem with rfl | hmem
      · exact ⟨_, head⟩
      · exact ih tail hmem

end Program

/-- An expression as it stands in a checked program. -/
inductive CheckedExpression : Node → Prop where
  | literal {value : Literal} {slot : Option StaticType} (plain : value.Plain) :
      CheckedExpression (.literal value slot)
  | group {inner : Node} {slot : Option StaticType} (inside : CheckedExpression inner) :
      CheckedExpression (.group inner slot)
  | binary {level : Rule.Level} {op : String} {left right : Node} {slot : Option StaticType}
      (known : op ∈ level.operators) (first : WrittenOperand level.rank left)
      (second : WrittenOperand (level.rank - 1) right)
      (typed : IsTyped (.binary op left right slot)) (before : CheckedExpression left)
      (behind : CheckedExpression right) : CheckedExpression (.binary op left right slot)
  | access {name : String} {slot : Option StaticType} {v : StaticVariable} (word : IsName name)
      (spelled : v.javaName = name) : CheckedExpression (.access .absent name slot (some v))
  | call {name : String} {arguments : List Node} {slot : Option StaticType} {f : StaticFunction}
      (word : IsName name) (spelled : f = .print ∨ f.javaName = name)
      (passed : ∀ node ∈ arguments, CheckedExpression node) :
      CheckedExpression (.call .absent name arguments slot (some f))

theorem CheckedExpression.isAbsent {node : Node} (h : CheckedExpression node) :
    node.isAbsent = false := by
  cases h <;> rfl

theorem checkedExpression_of_hasType {limit : Nat} {Γ : StaticView} {node : Node}
    (hw : WrittenOperand limit node) : ∀ {t}, HasType Γ node t → CheckedExpression node := by
  induction hw with
  | literal plain => exact fun _ => .literal plain
  | group inside ih =>
    intro t ht
    cases ht with
    | group hinner => exact .group (ih hinner)
  | binary known reach first second ih₁ ih₂ =>
    intro t ht
    cases ht with
    | binary hl hr rule =>
      exact .binary known first second ⟨Γ, t, .binary hl hr rule⟩ (ih₁ hl) (ih₂ hr)
  | access word =>
    intro t ht
    cases ht with
    | access found spelled => exact .access word spelled
  | member object =>
    intro t ht
    cases ht
    cases object
  | call word passed ih =>
    intro t ht
    cases ht with
    | call hargs found accepted spelled =>
      exact .call word spelled fun node hmem =>
        (exists_hasType_of_mem hargs hmem).elim fun _ => ih node hmem
  | methodCall object =>
    intro t ht
    cases ht
    cases object

theorem ProgramTyped.checkedExpressions {C : Scopes StaticVariable StaticFunction} {node : Node}
    (h : ProgramTyped C node) (hw : WrittenProgram node) :
    AllExpressions CheckedExpression node.preorder := by
  intro e hmem hexpression
  obtain ⟨Γ, t, ht⟩ := h.expressions e hmem hexpression
  exact checkedExpression_of_hasType (hw.expressions e hmem hexpression) ht

end BlockScript
