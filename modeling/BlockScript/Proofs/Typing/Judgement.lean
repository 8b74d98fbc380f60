import BlockScript.Proofs.Scope
import BlockScript.Proofs.Tree.Written
import BlockScript.Proofs.Typing.Types
/-!
# The type system

Which values belong to a type, and when a tree with filled slots is well typed: expressions where
certain variables and functions are seen, statements that may add variables to the innermost frame
of what is seen, methods and whole programs.
-/
namespace BlockScript

namespace StaticType

/-- Whether a value belongs to a type. Decimals of a program are finite. -/
def contains : StaticType → Value → Bool
  | any, _ => true
  | nil, .nil => true
  | comparable, .integer _ => true
  | comparable, .decimal d => d.isFinite
  | comparable, .character _ => true
  | comparable, .string _ => true
  | boolean, .boolean _ => true
  | integer, .integer _ => true
  | decimal, .decimal d => d.isFinite
  | character, .character _ => true
  | string, .string _ => true
  | _, _ => false

def Admits (t : StaticType) (v : Value) : Prop := v = .nil ∨ t.contains v = true

theorem admits_nil (t : StaticType) : t.Admits .nil := .inl rfl

/-- What may be kept where `target` is expected belongs to `target`. -/
theorem Admits.of_accepts {target source : StaticType} {v : Value} (h : source.Admits v)
    (ha : target.accepts source = true) : target.Admits v := by
  obtain rfl | hv := h
  · exact admits_nil target
  · simp only [accepts, Bool.or_eq_true, Bool.and_eq_true, beq_iff_eq] at ha
    rcases ha with (rfl | rfl) | ⟨rfl, ho | rfl⟩
    · exact .inr hv
    · exact .inr rfl
    · refine .inr ?_
      cases source <;> cases v <;> simp_all [isOrdered, contains]
    · refine .inl ?_
      cases v <;> simp_all [contains]

end StaticType

abbrev StaticView := View StaticVariable StaticFunction

mutual

/-- The expression has the type where `Γ` is seen, and its slots say so. In Java everything but
printing keeps its name. -/
inductive HasType (Γ : StaticView) : Node → StaticType → Prop where
  | literal {value : Literal} {t : StaticType} (plain : value.Plain)
      (type : value.staticType = .ok t) :
      HasType Γ (.literal value (some t)) t
  | group {inner : Node} {t : StaticType} (inside : HasType Γ inner t) :
      HasType Γ (.group inner (some t)) t
  | binary {operator : String} {left right : Node} {l r t : StaticType} (first : HasType Γ left l)
      (second : HasType Γ right r) (rule : binaryType operator l r = .ok t) :
      HasType Γ (.binary operator left right (some t)) t
  | access {name : String} {v : StaticVariable} (found : Γ.findVariable name = some v)
      (spelled : v.javaName = name) :
      HasType Γ (.access .absent name (some v.type) (some v)) v.type
  | call {name : String} {arguments : List Node} {types : List StaticType} {f : StaticFunction}
      (passed : HaveTypes Γ arguments types)
      (found : Γ.findFunction ⟨name, arguments.length⟩ = some f)
      (accepted : ∀ pair ∈ f.parameterTypes.zip types, pair.1.accepts pair.2 = true)
      (spelled : f = .print ∨ f.javaName = name) :
      HasType Γ (.call .absent name arguments (some f.returnType) (some f)) f.returnType

inductive HaveTypes (Γ : StaticView) : List Node → List StaticType → Prop where
  | nil : HaveTypes Γ [] []
  | cons {node : Node} {t : StaticType} {rest : List Node} {ts : List StaticType}
      (head : HasType Γ node t) (tail : HaveTypes Γ rest ts) : HaveTypes Γ (node :: rest) (t :: ts)

end

/-- The initial value of a variable is left out or fits its type. -/
def Initializes (Γ : StaticView) (value : Node) (t : StaticType) : Prop :=
  value = .absent ∨ ∃ source, HasType Γ value source ∧ t.accepts source = true

inductive AssignTyped (Γ : StaticView) : Node → Prop where
  | assign {name : String} {v : StaticVariable} {value : Node} {t : StaticType}
      (found : Γ.findVariable name = some v) (assignable : v.constant = false)
      (spelled : v.javaName = name) (typed : HasType Γ value t)
      (accepted : v.type.accepts t = true) :
      AssignTyped Γ (.assign (.access .absent name (some v.type) (some v)) value)

def HeaderTyped (Γ : StaticView) (node : Node) : Prop := node = .absent ∨ AssignTyped Γ node

/-- A variable may be added to a frame that binds `vars`: it has another name, the same home, and
is one of those that checking has bound. -/
structure Fresh (C : Scopes StaticVariable StaticFunction) (vars : List (String × StaticVariable))
    (v : StaticVariable) : Prop where
  unbound : vars.lookup v.name = none
  together : ∀ b ∈ vars, b.2.home = v.home
  bound : C.Binds v.home v.name v

mutual

/-- The statement is well typed in a method that returns `returns`: what is seen before it and
after it. All variables that it declares are bound in `C`. -/
inductive StatementTyped (C : Scopes StaticVariable StaticFunction) (returns : StaticType) :
    StaticView → Node → StaticView → Prop where
  | exprStmt {Γ : StaticView} {expression : Node} {t : StaticType}
      (typed : HasType Γ expression t) :
      StatementTyped C returns Γ (.exprStmt expression) Γ
  | declaration {vars : List (String × StaticVariable)}
      {funs : List (Signature × StaticFunction)} {Γ : StaticView} {v : StaticVariable}
      {typeName : Option String} {value : Node}
      (initial : Initializes ((vars, funs) :: Γ) value v.type) (fresh : Fresh C vars v)
      (assignable : v.constant = false) :
      StatementTyped C returns ((vars, funs) :: Γ) (.declaration v.name typeName value (some v))
        ((vars ++ [(v.name, v)], funs) :: Γ)
  | assign {Γ : StaticView} {receiver value : Node} (typed : AssignTyped Γ (.assign receiver value)) :
      StatementTyped C returns Γ (.assign receiver value) Γ
  | ifStmt {Γ Γ₁ Γ₂ : StaticView} {condition : Node} {thens elses : List Node}
      (test : HasType Γ condition .boolean)
      (first : StatementsTyped C returns (([], []) :: Γ) thens Γ₁)
      (second : StatementsTyped C returns (([], []) :: Γ) elses Γ₂) :
      StatementTyped C returns Γ (.ifStmt condition thens elses) Γ
  | forStmt {Γ Γ₁ : StaticView} {initialization condition increment : Node}
      {statements : List Node} (before : HeaderTyped (([], []) :: Γ) initialization)
      (test : HasType (([], []) :: Γ) condition .boolean)
      (after : HeaderTyped (([], []) :: Γ) increment)
      (body : StatementsTyped C returns (([], []) :: ([], []) :: Γ) statements Γ₁) :
      StatementTyped C returns Γ (.forStmt initialization condition increment statements) Γ
  | whileStmt {Γ Γ₁ : StaticView} {condition : Node} {statements : List Node}
      (test : HasType Γ condition .boolean)
      (body : StatementsTyped C returns (([], []) :: Γ) statements Γ₁) :
      StatementTyped C returns Γ (.whileStmt condition statements) Γ
  | returnStmt {Γ : StaticView} {value : Node} {t : StaticType} (typed : HasType Γ value t)
      (accepted : returns.accepts t = true) : StatementTyped C returns Γ (.returnStmt value) Γ

inductive StatementsTyped (C : Scopes StaticVariable StaticFunction) (returns : StaticType) :
    StaticView → List Node → StaticView → Prop where
  | nil {Γ : StaticView} : StatementsTyped C returns Γ [] Γ
  | cons {Γ Γ₁ Γ₂ : StaticView} {node : Node} {rest : List Node}
      (head : StatementTyped C returns Γ node Γ₁) (tail : StatementsTyped C returns Γ₁ rest Γ₂) :
      StatementsTyped C returns Γ (node :: rest) Γ₂

end

/-- The variables that parameters of these names and types become in one frame. -/
inductive ParametersTyped (C : Scopes StaticVariable StaticFunction) :
    List (String × StaticVariable) → List String → List StaticType →
      List (String × StaticVariable) → Prop where
  | nil {vars : List (String × StaticVariable)} : ParametersTyped C vars [] [] vars
  | cons {vars vars' : List (String × StaticVariable)} {v : StaticVariable} {names : List String}
      {types : List StaticType} (fresh : Fresh C vars v) (assignable : v.constant = false)
      (tail : ParametersTyped C (vars ++ [(v.name, v)]) names types vars') :
      ParametersTyped C vars (v.name :: names) (v.type :: types) vars'

/-- The method at the place `index` among the methods is well typed where `Γ` is seen, with the
function that its slot holds. Its parameters are bound in the frame under the first one that is at
the same place. -/
inductive MethodTyped (C : Scopes StaticVariable StaticFunction) (Γ : StaticView) (index : Nat) :
    List String → List Node → StaticFunction → Prop where
  | method {parameters : List String} {statements : List Node} {f : StaticFunction}
      {vars : List (String × StaticVariable)} {Γ₁ : StaticView} {home : FrameId}
      (bound : ParametersTyped C [] parameters f.parameterTypes vars)
      (arity : f.arity = parameters.length) (own : (C.children 0)[index]? = some home)
      (placed : ∀ b ∈ vars, b.2.home = home)
      (body : StatementsTyped C f.returnType ((vars, []) :: Γ) statements Γ₁) :
      MethodTyped C Γ index parameters statements f

/-- The fields are well typed one after the other: the variables of the program before and after
them, where `funs` are its functions. -/
inductive FieldsTyped (C : Scopes StaticVariable StaticFunction)
    (funs : List (Signature × StaticFunction)) :
    List (String × StaticVariable) → List Node → List (String × StaticVariable) → Prop where
  | nil {vars : List (String × StaticVariable)} : FieldsTyped C funs vars [] vars
  | cons {vars vars' : List (String × StaticVariable)} {v : StaticVariable}
      {typeName : Option String} {value : Node} {rest : List Node}
      (initial : Initializes [(vars, funs)] value v.type) (fresh : Fresh C vars v)
      (home : v.home = 0)
      (tail : FieldsTyped C funs (vars ++ [(v.name, v)]) rest vars') :
      FieldsTyped C funs vars (.field v.name typeName v.constant value (some v) :: rest) vars'

/-- The methods bind functions one after the other, all of them well typed where `Γ` is seen: the
functions of the program before and after them, of which printing is the first. -/
inductive MethodsTyped (C : Scopes StaticVariable StaticFunction) (Γ : StaticView) :
    List (Signature × StaticFunction) → List Node → List (Signature × StaticFunction) → Prop where
  | nil {funs : List (Signature × StaticFunction)} : MethodsTyped C Γ funs [] funs
  | cons {funs funs' : List (Signature × StaticFunction)} {f : StaticFunction}
      {parameters : List String} {parameterTypes : List (Option String)}
      {returnType : Option String} {statements rest : List Node}
      (paired : parameterTypes.length = parameters.length)
      (typed : MethodTyped C Γ (funs.length - 1) parameters statements f)
      (unbound : funs.lookup f.signature = none)
      (tail : MethodsTyped C Γ (funs ++ [(f.signature, f)]) rest funs') :
      MethodsTyped C Γ funs
        (.method f.name parameters parameterTypes returnType statements (some f) :: rest) funs'

/-- The program is well typed: its fields see the fields before them and printing, its methods see
all fields and methods, which are what the first frame of `C` binds, and `main` returns an
integer. -/
inductive ProgramTyped (C : Scopes StaticVariable StaticFunction) : Node → Prop where
  | source {fields methods : List Node} {vars : List (String × StaticVariable)}
      {funs : List (Signature × StaticFunction)} {main : StaticFunction}
      (first : FieldsTyped C [(StaticFunction.print.signature, .print)] [] fields vars)
      (second : MethodsTyped C [(vars, funs)] [(StaticFunction.print.signature, .print)] methods funs)
      (seen : C.Sees 0 [(vars, funs)])
      (entry : View.findFunction [(vars, funs)] ⟨"main", 0⟩ = some main)
      (integer : main.returnType = .integer) : ProgramTyped C (.source fields methods)

end BlockScript
