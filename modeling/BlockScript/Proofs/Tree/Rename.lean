import BlockScript.Tree.Basic
/-!
# Trees under other frame numbers

A slot names a variable by the frame that binds it, and frames are numbered in the order in which
checking makes them. Two trees that agree up to the numbers say the same of the program.
-/
namespace BlockScript

def StaticVariable.rename (ρ : FrameId → FrameId) (v : StaticVariable) : StaticVariable :=
  { v with home := ρ v.home }

namespace Node

mutual

/-- The same tree where the frame `i` has the number `ρ i`. Only the frames at which variables are
at home change; types and functions stay. -/
def rename (ρ : FrameId → FrameId) : Node → Node
  | absent => absent
  | source fields methods => source (renameAll ρ fields) (renameAll ρ methods)
  | field name typeName constant value v =>
    field name typeName constant (value.rename ρ) (v.map (·.rename ρ))
  | method name parameters parameterTypes returnType statements f =>
    method name parameters parameterTypes returnType (renameAll ρ statements) f
  | exprStmt expression => exprStmt (expression.rename ρ)
  | declaration name typeName value v =>
    declaration name typeName (value.rename ρ) (v.map (·.rename ρ))
  | assign receiver value => assign (receiver.rename ρ) (value.rename ρ)
  | ifStmt condition thens elses =>
    ifStmt (condition.rename ρ) (renameAll ρ thens) (renameAll ρ elses)
  | forStmt initialization condition increment statements =>
    forStmt (initialization.rename ρ) (condition.rename ρ) (increment.rename ρ)
      (renameAll ρ statements)
  | whileStmt condition statements => whileStmt (condition.rename ρ) (renameAll ρ statements)
  | returnStmt value => returnStmt (value.rename ρ)
  | literal value t => literal value t
  | group expression t => group (expression.rename ρ) t
  | binary operator left right t => binary operator (left.rename ρ) (right.rename ρ) t
  | access receiver name t v => access (receiver.rename ρ) name t (v.map (·.rename ρ))
  | call receiver name arguments t f =>
    call (receiver.rename ρ) name (renameAll ρ arguments) t f

def renameAll (ρ : FrameId → FrameId) : List Node → List Node
  | [] => []
  | node :: rest => node.rename ρ :: renameAll ρ rest

end

@[simp] theorem renameAll_eq_map (ρ : FrameId → FrameId) (nodes : List Node) :
    renameAll ρ nodes = nodes.map (rename ρ) := by
  induction nodes with
  | nil => rfl
  | cons node rest ih => rw [renameAll, ih, List.map_cons]

variable (ρ τ : FrameId → FrameId)

theorem map_rename_rename (v : Option StaticVariable) :
    (v.map (·.rename ρ)).map (·.rename τ) = v.map (·.rename (τ ∘ ρ)) := by
  cases v <;> rfl

mutual

theorem rename_rename (node : Node) : (node.rename ρ).rename τ = node.rename (τ ∘ ρ) := by
  match node with
  | absent => simp only [rename]
  | source fields methods =>
    simp only [rename, renameAll_rename fields, renameAll_rename methods]
  | field _ _ _ value v => simp only [rename, rename_rename value, map_rename_rename]
  | method _ _ _ _ statements _ => simp only [rename, renameAll_rename statements]
  | exprStmt expression => simp only [rename, rename_rename expression]
  | declaration _ _ value v => simp only [rename, rename_rename value, map_rename_rename]
  | assign receiver value => simp only [rename, rename_rename receiver, rename_rename value]
  | ifStmt condition thens elses =>
    simp only [rename, rename_rename condition, renameAll_rename thens, renameAll_rename elses]
  | forStmt initialization condition increment statements =>
    simp only [rename, rename_rename initialization, rename_rename condition,
      rename_rename increment, renameAll_rename statements]
  | whileStmt condition statements =>
    simp only [rename, rename_rename condition, renameAll_rename statements]
  | returnStmt value => simp only [rename, rename_rename value]
  | literal _ _ => simp only [rename]
  | group expression _ => simp only [rename, rename_rename expression]
  | binary _ left right _ => simp only [rename, rename_rename left, rename_rename right]
  | access receiver _ _ v => simp only [rename, rename_rename receiver, map_rename_rename]
  | call receiver _ arguments _ _ =>
    simp only [rename, rename_rename receiver, renameAll_rename arguments]

theorem renameAll_rename (nodes : List Node) :
    renameAll τ (renameAll ρ nodes) = renameAll (τ ∘ ρ) nodes := by
  match nodes with
  | [] => simp only [renameAll]
  | node :: rest => simp only [renameAll, rename_rename node, renameAll_rename rest]

end

end Node

end BlockScript
