import BlockScript.Fault
/-!
# Trees of one shape

What checking reads of a tree is its shape and its names. The operators and the values of literals
may be those of another tree under two maps, and slots are not read. A map of trees that changes
nothing but operators and values makes such a tree of each.
-/
namespace BlockScript.Node

mutual

/-- The second tree has the operators and the values of the first one under the two maps, any slots,
and is the same otherwise. -/
inductive Like (operator : String → String) (value : Literal → Literal) : Node → Node → Prop where
  | absent : Like operator value .absent .absent
  | source {fields fields' methods methods' : List Node}
      (first : LikeAll operator value fields fields')
      (second : LikeAll operator value methods methods') :
      Like operator value (.source fields methods) (.source fields' methods')
  | field {name : String} {typeName : Option String} {constant : Bool} {initial initial' : Node}
      {v v' : Option StaticVariable} (inner : Like operator value initial initial') :
      Like operator value (.field name typeName constant initial v)
        (.field name typeName constant initial' v')
  | method {name : String} {parameters : List String} {parameterTypes : List (Option String)}
      {returnType : Option String} {statements statements' : List Node}
      {f f' : Option StaticFunction} (body : LikeAll operator value statements statements') :
      Like operator value (.method name parameters parameterTypes returnType statements f)
        (.method name parameters parameterTypes returnType statements' f')
  | exprStmt {inner inner' : Node} (whole : Like operator value inner inner') :
      Like operator value (.exprStmt inner) (.exprStmt inner')
  | declaration {name : String} {typeName : Option String} {initial initial' : Node}
      {v v' : Option StaticVariable} (inner : Like operator value initial initial') :
      Like operator value (.declaration name typeName initial v)
        (.declaration name typeName initial' v')
  | assign {receiver receiver' assigned assigned' : Node}
      (left : Like operator value receiver receiver')
      (right : Like operator value assigned assigned') :
      Like operator value (.assign receiver assigned) (.assign receiver' assigned')
  | ifStmt {condition condition' : Node} {thens thens' elses elses' : List Node}
      (test : Like operator value condition condition')
      (first : LikeAll operator value thens thens')
      (second : LikeAll operator value elses elses') :
      Like operator value (.ifStmt condition thens elses) (.ifStmt condition' thens' elses')
  | forStmt {initial initial' condition condition' increment increment' : Node}
      {statements statements' : List Node} (before : Like operator value initial initial')
      (test : Like operator value condition condition')
      (after : Like operator value increment increment')
      (body : LikeAll operator value statements statements') :
      Like operator value (.forStmt initial condition increment statements)
        (.forStmt initial' condition' increment' statements')
  | whileStmt {condition condition' : Node} {statements statements' : List Node}
      (test : Like operator value condition condition')
      (body : LikeAll operator value statements statements') :
      Like operator value (.whileStmt condition statements) (.whileStmt condition' statements')
  | returnStmt {inner inner' : Node} (whole : Like operator value inner inner') :
      Like operator value (.returnStmt inner) (.returnStmt inner')
  | literal {v : Literal} {t t' : Option StaticType} :
      Like operator value (.literal v t) (.literal (value v) t')
  | group {inner inner' : Node} {t t' : Option StaticType}
      (inside : Like operator value inner inner') :
      Like operator value (.group inner t) (.group inner' t')
  | binary {op : String} {left left' right right' : Node} {t t' : Option StaticType}
      (first : Like operator value left left') (second : Like operator value right right') :
      Like operator value (.binary op left right t) (.binary (operator op) left' right' t')
  | access {receiver receiver' : Node} {name : String} {t t' : Option StaticType}
      {v v' : Option StaticVariable} (object : Like operator value receiver receiver') :
      Like operator value (.access receiver name t v) (.access receiver' name t' v')
  | call {receiver receiver' : Node} {name : String} {arguments arguments' : List Node}
      {t t' : Option StaticType} {f f' : Option StaticFunction}
      (object : Like operator value receiver receiver')
      (passed : LikeAll operator value arguments arguments') :
      Like operator value (.call receiver name arguments t f)
        (.call receiver' name arguments' t' f')

/-- So are the trees of two lists, one by one. -/
inductive LikeAll (operator : String → String) (value : Literal → Literal) :
    List Node → List Node → Prop where
  | nil : LikeAll operator value [] []
  | cons {node node' : Node} {rest rest' : List Node} (head : Like operator value node node')
      (tail : LikeAll operator value rest rest') :
      LikeAll operator value (node :: rest) (node' :: rest')

end

variable {operator : String → String} {value : Literal → Literal} {node node' : Node}
  {nodes nodes' : List Node}

theorem Like.isAbsent_eq (h : Like operator value node node') : node'.isAbsent = node.isAbsent := by
  cases h <;> rfl

theorem Like.kindPath_eq (h : Like operator value node node') : node'.kindPath = node.kindPath := by
  cases h <;> rfl

theorem LikeAll.isEmpty_eq (h : LikeAll operator value nodes nodes') :
    nodes'.isEmpty = nodes.isEmpty := by
  cases h <;> rfl

/-- The map goes through trees and changes nothing but operators and values, these as the two maps
say. -/
structure Maps (operator : String → String) (value : Literal → Literal) (g : Node → Node) :
    Prop where
  absent : g .absent = .absent
  source : ∀ fields methods, g (.source fields methods) = .source (fields.map g) (methods.map g)
  field : ∀ name typeName constant initial v,
    g (.field name typeName constant initial v) = .field name typeName constant (g initial) v
  method : ∀ name parameters parameterTypes returnType statements f,
    g (.method name parameters parameterTypes returnType statements f) =
      .method name parameters parameterTypes returnType (statements.map g) f
  exprStmt : ∀ inner, g (.exprStmt inner) = .exprStmt (g inner)
  declaration : ∀ name typeName initial v,
    g (.declaration name typeName initial v) = .declaration name typeName (g initial) v
  assign : ∀ receiver assigned, g (.assign receiver assigned) = .assign (g receiver) (g assigned)
  ifStmt : ∀ condition thens elses,
    g (.ifStmt condition thens elses) = .ifStmt (g condition) (thens.map g) (elses.map g)
  forStmt : ∀ initial condition increment statements,
    g (.forStmt initial condition increment statements) =
      .forStmt (g initial) (g condition) (g increment) (statements.map g)
  whileStmt : ∀ condition statements,
    g (.whileStmt condition statements) = .whileStmt (g condition) (statements.map g)
  returnStmt : ∀ inner, g (.returnStmt inner) = .returnStmt (g inner)
  literal : ∀ v t, g (.literal v t) = .literal (value v) t
  group : ∀ inner t, g (.group inner t) = .group (g inner) t
  binary : ∀ op left right t,
    g (.binary op left right t) = .binary (operator op) (g left) (g right) t
  access : ∀ receiver name t v, g (.access receiver name t v) = .access (g receiver) name t v
  call : ∀ receiver name arguments t f,
    g (.call receiver name arguments t f) = .call (g receiver) name (arguments.map g) t f

section Maps

variable {g : Node → Node}

mutual

theorem Maps.like (h : Maps operator value g) (node : Node) :
    Like operator value node (g node) := by
  match node with
  | .absent =>
    rw [h.absent]
    exact .absent
  | .source fields methods =>
    rw [h.source]
    exact .source (h.likeAll fields) (h.likeAll methods)
  | .field _ _ _ initial _ =>
    rw [h.field]
    exact .field (h.like initial)
  | .method _ _ _ _ statements _ =>
    rw [h.method]
    exact .method (h.likeAll statements)
  | .exprStmt inner =>
    rw [h.exprStmt]
    exact .exprStmt (h.like inner)
  | .declaration _ _ initial _ =>
    rw [h.declaration]
    exact .declaration (h.like initial)
  | .assign receiver assigned =>
    rw [h.assign]
    exact .assign (h.like receiver) (h.like assigned)
  | .ifStmt condition thens elses =>
    rw [h.ifStmt]
    exact .ifStmt (h.like condition) (h.likeAll thens) (h.likeAll elses)
  | .forStmt initial condition increment statements =>
    rw [h.forStmt]
    exact .forStmt (h.like initial) (h.like condition) (h.like increment) (h.likeAll statements)
  | .whileStmt condition statements =>
    rw [h.whileStmt]
    exact .whileStmt (h.like condition) (h.likeAll statements)
  | .returnStmt inner =>
    rw [h.returnStmt]
    exact .returnStmt (h.like inner)
  | .literal _ _ =>
    rw [h.literal]
    exact .literal
  | .group inner _ =>
    rw [h.group]
    exact .group (h.like inner)
  | .binary _ left right _ =>
    rw [h.binary]
    exact .binary (h.like left) (h.like right)
  | .access receiver _ _ _ =>
    rw [h.access]
    exact .access (h.like receiver)
  | .call receiver _ arguments _ _ =>
    rw [h.call]
    exact .call (h.like receiver) (h.likeAll arguments)

theorem Maps.likeAll (h : Maps operator value g) (nodes : List Node) :
    LikeAll operator value nodes (nodes.map g) := by
  match nodes with
  | [] => exact .nil
  | node :: rest => exact .cons (h.like node) (h.likeAll rest)

end

theorem maps_id : Maps id id id := by
  constructor <;> simp

end Maps

theorem like_refl (node : Node) : Like id id node node := maps_id.like node

theorem likeAll_refl (nodes : List Node) : LikeAll id id nodes nodes := by
  simpa using maps_id.likeAll nodes

end BlockScript.Node
