import BlockScript.Proofs.Tree.Like
import BlockScript.Proofs.Tree.Written
import BlockScript.Proofs.Typing.Types
/-!
# Two runs of checking

A relation between runs of checking, if it is kept by what the rules are made of, holds of the runs
for two trees of one shape. Then the trees that come back are related as well, by any relation that
the rules for the parts of a program keep.
-/
namespace BlockScript

open Check

/-- What a part of a program is. -/
inductive Part where
  | expression
  | initial
  | header
  | statement
  | field
  | method
  | program

/-- What its slots say of the target of an assignment: its name, its type, and whether it is a
constant. -/
def Node.target? : Node → Option (String × Option StaticType × Option Bool)
  | access _ name type bound => some (name, type, bound.map (·.constant))
  | _ => none

/-- Fails unless a frame has a method `main` that returns an integer. -/
def requireMain (scope : FrameId) (program : Node) : Check Node := do
  match (← get).scopes.findFunction? scope ⟨"main", 0⟩ with
  | some (_, main) =>
    if main.returnType == .integer then return program
    else fail (.mainReturns main.returnType)
  | none => fail .noMain

section Rules

theorem checkStatement_assign (returns : Option StaticType) (scope : FrameId)
    (object : Node) (name : String) (type : Option StaticType) (bound : Option StaticVariable)
    (value : Node) :
    checkStatement returns scope (.assign (.access object name type bound) value) = (do
      let (receiver, target) ← checkExpression scope (.access object name type bound)
      let (value, t) ← checkExpression scope value
      match receiver.target? with
      | some (name, _, some constant) =>
        if constant then fail (.constantAssigned name)
        else
          lift (requireAccepts target t)
          return .assign receiver value
      | _ => fail .assignmentReceiver) := by
  rw [checkStatement]
  refine bind_congr fun result => bind_congr fun result' => ?_
  dsimp only
  cases result.1 with
  | access object name type bound => cases bound <;> rfl
  | _ => rfl

theorem headerType_assign (receiver value : Node) :
    headerType (.assign receiver value) = match receiver.target? with
      | some (_, some t, _) => pure (some t)
      | _ => throw .misplacedNode := by
  cases receiver with
  | access object name type bound => cases type <;> rfl
  | _ => rfl

theorem headerType_cases (node : Node) :
    (∃ t, headerType node = pure t) ∨ headerType node = throw .misplacedNode := by
  cases node with
  | absent => exact .inl ⟨none, rfl⟩
  | assign receiver value =>
    cases receiver with
    | access object name type bound =>
      cases type with
      | none => exact .inr rfl
      | some t => exact .inl ⟨some t, rfl⟩
    | _ => exact .inr rfl
  | _ => exact .inr rfl

theorem checkSource_source (scope : FrameId) (fields methods : List Node) :
    checkSource scope (.source fields methods) = (do
      let fields ← fields.mapM (checkField scope)
      let methods ← methods.mapM (declareMethod scope)
      let methods ← methods.mapM (checkBody scope)
      requireMain scope (.source fields methods)) := rfl

end Rules

/-- A relation of runs that start with at least `n` frames, with what holds of their results when
there are `k` of them. `Outer` relates the frames under which both runs put a new one, `Frame` those
in which they bind and look up names, and `Variable` what they find there. `Ranges` holds of every
type that is found. -/
structure CheckRelation where
  operator : String → String
  value : Literal → Literal
  Rel : ∀ {α : Type}, Nat → Check α → Check α → (Nat → α → α → Prop) → Prop
  Outer : Nat → FrameId → FrameId → Prop
  Frame : Nat → FrameId → FrameId → Prop
  Ranges : StaticType → Prop
  Variable : Nat → StaticVariable → StaticVariable → Prop
  relates_pure : ∀ {α n P} {a b : α}, (∀ k, n ≤ k → P k a b) → Rel n (pure a) (pure b) P
  relates_bind : ∀ {α β n P Q} {x y : Check α} {f g : α → Check β}, Rel n x y P →
    (∀ k a b, n ≤ k → P k a b → Rel k (f a) (g b) Q) → Rel n (x >>= f) (y >>= g) Q
  relates_throw : ∀ {α n} {P : Nat → α → α → Prop} fault, Rel n (throw fault) (throw fault) P
  relates_note : ∀ {n} least line, Rel n (note least line) (note least line) fun _ _ _ => True
  relates_newFrame : ∀ {n s s'}, Outer n s s' →
    Rel n (newFrame (some s)) (newFrame (some s')) Frame
  relates_defineVariable : ∀ {n s s' t} name constant, Frame n s s' → Ranges t →
    Rel n (defineVariable ⟨s, name, name, constant, t⟩)
      (defineVariable ⟨s', name, name, constant, t⟩) fun _ _ _ => True
  relates_defineFunction : ∀ {n s s' f}, Frame n s s' → Ranges f.returnType →
    Rel n (defineFunction s f) (defineFunction s' f) fun _ _ _ => True
  relates_findVariable : ∀ {n s s'} name, Frame n s s' →
    Rel n (findVariable (some s) name) (findVariable (some s') name) Variable
  relates_findField : ∀ {n t} name, Ranges t →
    Rel n (findVariable t.members? name) (findVariable t.members? name) Variable
  relates_findFunction : ∀ {n s s'} signature, Frame n s s' →
    Rel n (findFunction (some s) signature) (findFunction (some s') signature)
      fun _ f g => g = f ∧ Ranges f.returnType
  relates_findMethod : ∀ {n t} signature, Ranges t →
    Rel n (findFunction t.members? signature) (findFunction t.members? signature)
      fun _ f g => g = f ∧ Ranges f.returnType
  relates_binaryType : ∀ {n l} op r, Ranges l →
    Rel n (lift (binaryType op l r)) (lift (binaryType (operator op) l r))
      fun _ t t' => t' = t ∧ Ranges t
  relates_requireMain : ∀ {n s s'} program program', Frame n s s' →
    Rel n (requireMain s program) (requireMain s' program')
      fun _ a b => a = program ∧ b = program'
  staticType_value : ∀ v, (value v).staticType = v.staticType
  ranges_of_memberless : ∀ {t}, t.Memberless → Ranges t
  frame_mono : ∀ {n k s s'}, Frame n s s' → n ≤ k → Frame k s s'
  outer_of_frame : ∀ {n s s'}, Frame n s s' → Outer n s s'
  variable_mono : ∀ {n k v v'}, Variable n v v' → n ≤ k → Variable k v v'
  variable_same : ∀ {n v v'}, Variable n v v' →
    v'.type = v.type ∧ v'.constant = v.constant ∧ Ranges v.type
  variable_of_frame : ∀ {n s s' t} name constant, Frame n s s' → Ranges t →
    Variable n ⟨s, name, name, constant, t⟩ ⟨s', name, name, constant, t⟩

/-- The trees of three lists are related one by one. -/
inductive AllTrees (T : Node → Node → Node → Prop) : List Node → List Node → List Node → Prop where
  | nil : AllTrees T [] [] []
  | cons {s a b : Node} {ss as bs : List Node} (head : T s a b) (tail : AllTrees T ss as bs) :
      AllTrees T (s :: ss) (a :: as) (b :: bs)

/-- A relation between a tree and those that come back in both runs, by what part of a program it
is. -/
structure CheckRelation.Trees (R : CheckRelation) where
  Tree : Part → Nat → Node → Node → Node → Prop
  tree_mono : ∀ {part n k s a b}, Tree part n s a b → n ≤ k → Tree part k s a b
  literal : ∀ {n v t type}, v.staticType = .ok t →
    Tree .expression n (.literal v type) (.literal v (some t)) (.literal (R.value v) (some t))
  group : ∀ {n s a b t type}, Tree .expression n s a b →
    Tree .expression n (.group s type) (.group a (some t)) (.group b (some t))
  binary : ∀ {n op s a b s' a' b' t type}, Tree .expression n s a b →
    Tree .expression n s' a' b' →
      Tree .expression n (.binary op s s' type) (.binary op a a' (some t))
        (.binary (R.operator op) b b' (some t))
  access : ∀ {n name v v' type bound}, R.Variable n v v' →
    Tree .expression n (.access .absent name type bound)
      (.access .absent name (some v.type) (some v)) (.access .absent name (some v.type) (some v'))
  member : ∀ {n s a b name v v' type bound}, Tree .expression n s a b → R.Variable n v v' →
    Tree .expression n (.access s name type bound) (.access a name (some v.type) (some v))
      (.access b name (some v.type) (some v'))
  call : ∀ {n name ss as bs f type callee}, AllTrees (Tree .expression n) ss as bs →
    Tree .expression n (.call .absent name ss type callee)
      (.call .absent name as (some f.returnType) (some f))
      (.call .absent name bs (some f.returnType) (some f))
  methodCall : ∀ {n s a b name ss as bs f type callee}, Tree .expression n s a b →
    AllTrees (Tree .expression n) ss as bs →
      Tree .expression n (.call s name ss type callee)
        (.call a name as (some f.returnType) (some f))
        (.call b name bs (some f.returnType) (some f))
  noInitial : ∀ {n}, Tree .initial n .absent .absent .absent
  initial : ∀ {n s a b}, Tree .expression n s a b → Tree .initial n s a b
  noHeader : ∀ {n}, Tree .header n .absent .absent .absent
  header : ∀ {n s a b t}, Tree .statement n s a b → headerType a = pure t → Tree .header n s a b
  exprStmt : ∀ {n s a b}, Tree .expression n s a b →
    Tree .statement n (.exprStmt s) (.exprStmt a) (.exprStmt b)
  declaration : ∀ {n name typeName s a b v v' bound}, Tree .initial n s a b → R.Variable n v v' →
    Tree .statement n (.declaration name typeName s bound) (.declaration name typeName a (some v))
      (.declaration name typeName b (some v'))
  assign : ∀ {n s a b s' a' b'}, Tree .expression n s a b → Tree .expression n s' a' b' →
    Tree .statement n (.assign s s') (.assign a a') (.assign b b')
  ifStmt : ∀ {n s a b ss as bs ss' as' bs'}, Tree .expression n s a b →
    AllTrees (Tree .statement n) ss as bs → AllTrees (Tree .statement n) ss' as' bs' →
      Tree .statement n (.ifStmt s ss ss') (.ifStmt a as as') (.ifStmt b bs bs')
  forStmt : ∀ {n s a b s' a' b' s'' a'' b'' ss as bs}, Tree .header n s a b →
    Tree .expression n s' a' b' → Tree .header n s'' a'' b'' →
      AllTrees (Tree .statement n) ss as bs →
        Tree .statement n (.forStmt s s' s'' ss) (.forStmt a a' a'' as) (.forStmt b b' b'' bs)
  whileStmt : ∀ {n s a b ss as bs}, Tree .expression n s a b →
    AllTrees (Tree .statement n) ss as bs →
      Tree .statement n (.whileStmt s ss) (.whileStmt a as) (.whileStmt b bs)
  returnStmt : ∀ {n s a b}, Tree .expression n s a b →
    Tree .statement n (.returnStmt s) (.returnStmt a) (.returnStmt b)
  field : ∀ {n name typeName constant s a b v v' bound}, Tree .initial n s a b →
    R.Variable n v v' →
      Tree .field n (.field name typeName constant s bound)
        (.field name typeName constant a (some v)) (.field name typeName constant b (some v'))
  method : ∀ {n name parameters parameterTypes returnType ss as bs f callee},
    AllTrees (Tree .statement n) ss as bs →
      Tree .method n (.method name parameters parameterTypes returnType ss callee)
        (.method name parameters parameterTypes returnType as (some f))
        (.method name parameters parameterTypes returnType bs (some f))
  source : ∀ {n ss as bs ss' as' bs'}, AllTrees (Tree .field n) ss as bs →
    AllTrees (Tree .method n) ss' as' bs' →
      Tree .program n (.source ss ss') (.source as as') (.source bs bs')

section Lists

variable {T U : Node → Node → Node → Prop} {ss as bs : List Node}

theorem AllTrees.imp (h : AllTrees T ss as bs) (hT : ∀ {s a b}, T s a b → U s a b) :
    AllTrees U ss as bs := by
  induction h with
  | nil => exact .nil
  | cons head tail ih => exact .cons (hT head) ih

theorem AllTrees.eq_map {g : Node → Node} (h : AllTrees T ss as bs)
    (hT : ∀ {s a b}, T s a b → b = g a) : bs = as.map g := by
  induction h with
  | nil => rfl
  | cons head tail ih => rw [List.map_cons, hT head, ih]

theorem AllTrees.map_eq {β : Type} {g : Node → β} (h : AllTrees T ss as bs)
    (hT : ∀ {s a b}, T s a b → g a = g s) : as.map g = ss.map g := by
  induction h with
  | nil => rfl
  | cons head tail ih => rw [List.map_cons, List.map_cons, hT head, ih]

theorem AllTrees.forall_mem {P : Node → Prop} (h : AllTrees T ss as bs)
    (hT : ∀ {s a b}, T s a b → P a) : ∀ a ∈ as, P a := by
  induction h with
  | nil => exact nofun
  | cons head tail ih => exact List.forall_mem_cons.mpr ⟨hT head, ih⟩

theorem allTrees_of_forall {nodes : List Node} (h : ∀ node ∈ nodes, T node node node) :
    AllTrees T nodes nodes nodes := by
  induction nodes with
  | nil => exact .nil
  | cons node rest ih =>
    obtain ⟨hnode, hrest⟩ := List.forall_mem_cons.mp h
    exact .cons hnode (ih hrest)

theorem AllTrees.length_eq (h : AllTrees T ss as bs) : bs.length = as.length := by
  induction h with
  | nil => rfl
  | cons head tail ih => rw [List.length_cons, List.length_cons, ih]

end Lists

namespace CheckRelation

variable {R : CheckRelation} {α β : Type} {n : Nat} {scope scope' : FrameId}
  {P : Nat → α → α → Prop} {returns : Option StaticType}

section Steps

theorem relates_fail (fault : TypeFault) : R.Rel n (fail fault) (fail fault) P :=
  R.relates_throw _

theorem relates_lift (r : Except TypeFault α) :
    R.Rel n (lift r) (lift r) fun _ a b => b = a ∧ r = .ok a := by
  cases r with
  | ok a => exact R.relates_pure fun _ _ => ⟨rfl, rfl⟩
  | error fault => exact relates_fail fault

/-- What holds of the results for good. -/
theorem relates_imp {Q : Nat → α → α → Prop} {x y : Check α} (h : R.Rel n x y P)
    (hP : ∀ k a b, n ≤ k → P k a b → ∀ l, k ≤ l → Q l a b) : R.Rel n x y Q := by
  rw [← bind_pure x, ← bind_pure y]
  exact R.relates_bind h fun k a b hk hab => R.relates_pure (hP k a b hk hab)

theorem relates_ite {b : Bool} {x x' y y' : Check α} (h : b = true → R.Rel n x x' P)
    (h' : b = false → R.Rel n y y' P) :
    R.Rel n (if b then x else y) (if b then x' else y') P := by
  cases b with
  | true => exact h rfl
  | false => exact h' rfl

theorem relates_requireArguments (ps ts : List StaticType) :
    R.Rel n (requireArguments ps ts) (requireArguments ps ts) fun _ _ _ => True := by
  induction ps generalizing ts n with
  | nil => exact R.relates_pure fun _ _ => trivial
  | cons p ps ih =>
    cases ts with
    | nil => exact R.relates_pure fun _ _ => trivial
    | cons t ts =>
      exact R.relates_bind (relates_lift (requireAccepts p t)) fun _ _ _ _ _ => ih ts

theorem relates_requireSameType (first next : Option StaticType) :
    R.Rel n (requireSameType first next) (requireSameType first next) fun _ _ _ => True := by
  unfold requireSameType
  split
  · exact relates_ite (fun _ => R.relates_pure fun _ _ => trivial) fun _ => relates_fail _
  · exact R.relates_pure fun _ _ => trivial

theorem relates_introduce (what name : String) (constant : Bool) {t : StaticType}
    (hs : R.Frame n scope scope') (ht : R.Ranges t) :
    R.Rel n (introduce what ⟨scope, name, name, constant, t⟩)
      (introduce what ⟨scope', name, name, constant, t⟩) fun _ _ _ => True :=
  R.relates_bind (R.relates_defineVariable name constant hs ht) fun _ _ _ _ _ => R.relates_note _ _

theorem relates_bindParameters (hs : R.Frame n scope scope') (names : List String)
    {ts : List StaticType} (hts : ∀ t ∈ ts, t.Memberless) :
    R.Rel n (bindParameters scope names ts) (bindParameters scope' names ts)
      fun _ _ _ => True := by
  induction names generalizing ts n with
  | nil => exact R.relates_pure fun _ _ => trivial
  | cons name names ih =>
    cases ts with
    | nil => exact R.relates_pure fun _ _ => trivial
    | cons t ts =>
      obtain ⟨ht, hrest⟩ := List.forall_mem_cons.mp hts
      refine R.relates_bind
        (R.relates_defineVariable name false hs (R.ranges_of_memberless ht)) ?_
      exact fun k _ _ hk _ => ih (R.frame_mono hs hk) hrest

/-- Trees that are related are gone through in turn. -/
theorem relates_mapM {T : Node → Node → Node → Prop} {U : Nat → Node → Node → Node → Prop}
    (hmono : ∀ {k l s a b}, U k s a b → k ≤ l → U l s a b) {f g : Node → Check Node}
    {ss as bs : List Node} (h : AllTrees T ss as bs)
    (hf : ∀ {k s a b}, n ≤ k → T s a b → R.Rel k (f a) (g b) (U · s)) :
    R.Rel n (as.mapM f) (bs.mapM g) fun k as' bs' => AllTrees (U k) ss as' bs' := by
  induction h generalizing n with
  | nil => exact R.relates_pure fun _ _ => .nil
  | cons head tail ih =>
    rw [List.mapM_cons, List.mapM_cons]
    refine R.relates_bind (hf (Nat.le_refl n) head) fun k a b hk hab => ?_
    refine R.relates_bind (ih fun hl => hf (Nat.le_trans hk hl)) fun l as bs hl hall => ?_
    exact R.relates_pure fun m hm =>
      .cons (hmono hab (Nat.le_trans hl hm)) (hall.imp fun h => hmono h hm)

end Steps

/-- A method that has been declared in both runs, with its statements as they were. -/
inductive Declared (R : CheckRelation) : Node → Node → Node → Prop
  | intro {name : String} {parameters : List String} {parameterTypes : List (Option String)}
      {returnType : Option String} {statements statements' : List Node} {f : StaticFunction}
      {callee : Option StaticFunction} (plain : ∀ t ∈ f.parameterTypes, t.Memberless)
      (body : Node.LikeAll R.operator R.value statements statements') :
      Declared R (.method name parameters parameterTypes returnType statements callee)
        (.method name parameters parameterTypes returnType statements (some f))
        (.method name parameters parameterTypes returnType statements' (some f))

namespace Trees

variable (T : R.Trees)

theorem all_mono {part : Part} {k : Nat} {ss as bs : List Node}
    (h : AllTrees (T.Tree part n) ss as bs) (hk : n ≤ k) : AllTrees (T.Tree part k) ss as bs :=
  h.imp fun htree => T.tree_mono htree hk

/-- Expressions with the type that they have in both runs. As targets they are the same. -/
inductive Typed (s : Node) (k : Nat) : Node × StaticType → Node × StaticType → Prop
  | intro {a b : Node} {t : StaticType} (tree : T.Tree .expression k s a b)
      (target : b.target? = a.target?) (ranges : R.Ranges t) : Typed s k (a, t) (b, t)

mutual

theorem relates_checkExpression {n : Nat} {scope scope' : FrameId}
    (hs : R.Frame n scope scope') {node node' : Node} (h : node.Like R.operator R.value node') :
    R.Rel n (checkExpression scope node) (checkExpression scope' node') (T.Typed node) := by
  -- What is related where there are fewer frames is so where there are more.
  match node with
  | .literal v type =>
    cases h with
    | literal =>
    simp only [checkExpression, R.staticType_value]
    cases hvalue : v.staticType with
    | error fault => exact R.relates_throw fault
    | ok t =>
      refine R.relates_bind (R.relates_note _ _) fun k _ _ _ _ => R.relates_pure fun _ _ => ?_
      exact ⟨T.literal hvalue, rfl, R.ranges_of_memberless (memberless_of_staticType hvalue)⟩
  | .group inner type =>
    cases h with
    | group inside =>
    simp only [checkExpression]
    refine R.relates_bind (relates_checkExpression hs inside) ?_
    rintro k _ _ hk ⟨hinner, -, ht⟩
    refine R.relates_bind (R.relates_note _ _) fun k₁ _ _ hk₁ _ => R.relates_pure fun l hl => ?_
    exact ⟨T.group (T.tree_mono hinner (Nat.le_trans hk₁ hl)), rfl, ht⟩
  | .binary op left right type =>
    cases h with
    | binary first second =>
    simp only [checkExpression]
    refine R.relates_bind (relates_checkExpression hs first) ?_
    rintro k _ _ hk ⟨hleft, -, hl⟩
    refine R.relates_bind (relates_checkExpression (R.frame_mono hs hk) second) ?_
    rintro k₁ _ _ hk₁ ⟨hright, -, -⟩
    refine R.relates_bind (R.relates_binaryType op _ hl) ?_
    rintro k₂ t _ hk₂ ⟨rfl, ht⟩
    refine R.relates_bind (R.relates_note _ _) fun k₃ _ _ hk₃ _ => R.relates_pure fun l hl => ?_
    exact ⟨T.binary (T.tree_mono hleft (by omega)) (T.tree_mono hright (by omega)), rfl, ht⟩
  | .access receiver name type bound =>
    cases h with
    | @access _ receiver' _ _ _ _ _ object =>
    simp only [checkExpression, object.isAbsent_eq]
    refine relates_ite (fun habsent => ?_) fun _ => ?_
    · obtain rfl := eq_absent habsent
      refine R.relates_bind (R.relates_findVariable name hs) fun k v v' hk hv => ?_
      obtain ⟨htype, hconstant, ht⟩ := R.variable_same hv
      rw [htype]
      refine R.relates_bind (R.relates_note _ _) fun k₁ _ _ hk₁ _ => R.relates_pure fun l hl => ?_
      exact ⟨T.access (R.variable_mono hv (Nat.le_trans hk₁ hl)),
        by simp only [Node.target?, Option.map_some, hconstant], ht⟩
    · refine R.relates_bind (relates_checkExpression hs object) ?_
      rintro k _ _ hk ⟨hreceiver, -, ht⟩
      refine R.relates_bind (R.relates_findField name ht) fun k₁ v v' hk₁ hv => ?_
      obtain ⟨htype, hconstant, ht⟩ := R.variable_same hv
      rw [htype]
      refine R.relates_bind (R.relates_note _ _) fun k₂ _ _ hk₂ _ => R.relates_pure fun l hl => ?_
      exact ⟨T.member (T.tree_mono hreceiver (by omega)) (R.variable_mono hv (by omega)),
        by simp only [Node.target?, Option.map_some, hconstant], ht⟩
  | .call receiver name arguments type callee =>
    cases h with
    | call object passed =>
    simp only [checkExpression, object.isAbsent_eq]
    refine R.relates_bind (relates_checkExpressions hs passed) ?_
    rintro k ⟨arguments, types⟩ ⟨arguments', _⟩ hk ⟨harguments, rfl⟩
    dsimp only at harguments ⊢
    rw [harguments.length_eq]
    refine relates_ite (fun habsent => ?_) fun _ => ?_
    · obtain rfl := eq_absent habsent
      refine R.relates_bind (R.relates_findFunction _ (R.frame_mono hs hk)) ?_
      rintro k₁ f _ hk₁ ⟨rfl, ht⟩
      refine R.relates_bind (relates_requireArguments _ _) fun k₂ _ _ hk₂ _ => ?_
      refine R.relates_bind (R.relates_note _ _) fun k₃ _ _ hk₃ _ => R.relates_pure fun l hl => ?_
      exact ⟨T.call (T.all_mono harguments (by omega)), rfl, ht⟩
    · refine R.relates_bind (relates_checkExpression (R.frame_mono hs hk) object) ?_
      rintro k₁ _ _ hk₁ ⟨hreceiver, -, ht⟩
      refine R.relates_bind (R.relates_findMethod _ ht) ?_
      rintro k₂ f _ hk₂ ⟨rfl, ht⟩
      refine R.relates_bind (relates_requireArguments _ _) fun k₃ _ _ hk₃ _ => ?_
      refine R.relates_bind (R.relates_note _ _) fun k₄ _ _ hk₄ _ => R.relates_pure fun l hl => ?_
      exact ⟨T.methodCall (T.tree_mono hreceiver (by omega)) (T.all_mono harguments (by omega)),
        rfl, ht⟩
  | .absent | .source .. | .field .. | .method .. | .exprStmt .. | .declaration .. | .assign ..
  | .ifStmt .. | .forStmt .. | .whileStmt .. | .returnStmt .. =>
    have hkind := h.kindPath_eq
    cases h
    simp only [checkExpression, hkind]
    exact R.relates_throw _

theorem relates_checkExpressions {n : Nat} {scope scope' : FrameId}
    (hs : R.Frame n scope scope') {nodes nodes' : List Node}
    (h : Node.LikeAll R.operator R.value nodes nodes') :
    R.Rel n (checkExpressions scope nodes) (checkExpressions scope' nodes')
      fun k r r' => AllTrees (T.Tree .expression k) nodes r.1 r'.1 ∧ r'.2 = r.2 := by
  match nodes with
  | [] =>
    cases h with
    | nil =>
    simp only [checkExpressions]
    exact R.relates_pure fun _ _ => ⟨.nil, rfl⟩
  | node :: rest =>
    cases h with
    | cons head tail =>
    simp only [checkExpressions]
    refine R.relates_bind (relates_checkExpression hs head) ?_
    rintro k _ _ hk ⟨hnode, -, -⟩
    refine R.relates_bind (relates_checkExpressions (R.frame_mono hs hk) tail) ?_
    rintro k₁ ⟨rest, ts⟩ ⟨rest', _⟩ hk₁ ⟨hrest, rfl⟩
    exact R.relates_pure fun l hl =>
      ⟨.cons (T.tree_mono hnode (Nat.le_trans hk₁ hl)) (T.all_mono hrest hl), rfl⟩

end

theorem relates_checkCondition (hs : R.Frame n scope scope') (construct : String)
    {node node' : Node} (h : node.Like R.operator R.value node') :
    R.Rel n (checkCondition scope construct node) (checkCondition scope' construct node')
      (T.Tree .expression · node) := by
  unfold checkCondition
  refine R.relates_bind (T.relates_checkExpression hs h) ?_
  rintro k _ _ hk ⟨hnode, -, -⟩
  exact relates_ite (fun _ => R.relates_pure fun l hl => T.tree_mono hnode hl)
    fun _ => relates_fail _

theorem relates_checkInitial (hs : R.Frame n scope scope') {node node' : Node}
    (h : node.Like R.operator R.value node') :
    R.Rel n (checkInitial scope node) (checkInitial scope' node') fun k r r' =>
      T.Tree .initial k node r.1 r'.1 ∧ r'.2 = r.2 ∧ ∀ t, r.2 = some t → R.Ranges t := by
  unfold checkInitial
  rw [h.isAbsent_eq]
  refine relates_ite (fun habsent => ?_) fun _ => ?_
  · obtain rfl := eq_absent habsent
    cases h
    exact R.relates_pure fun _ _ => ⟨T.noInitial, rfl, nofun⟩
  · refine R.relates_bind (T.relates_checkExpression hs h) ?_
    rintro k _ _ hk ⟨hnode, -, ht⟩
    refine R.relates_pure fun l hl => ⟨T.initial (T.tree_mono hnode hl), rfl, ?_⟩
    rintro _ ⟨⟩
    exact ht

/-- Checked statements. As parts of the header of a loop they are the same. -/
structure Checked (s : Node) (k : Nat) (a b : Node) : Prop where
  tree : T.Tree .statement k s a b
  header : headerType b = headerType a

/-- A part of the header of a loop that is left out, or one that has been checked. -/
inductive HeaderPart (k : Nat) : Node → Node → Node → Prop
  | none : HeaderPart k .absent .absent .absent
  | some {s a b : Node} (checked : T.Checked s k a b) : HeaderPart k s a b

theorem relates_headerType {s a b : Node} (h : T.HeaderPart n s a b) :
    R.Rel n (headerType a) (headerType b) fun k t t' => t' = t ∧ T.Tree .header k s a b := by
  cases h with
  | none => exact R.relates_pure fun _ _ => ⟨rfl, T.noHeader⟩
  | some checked =>
    rw [checked.header]
    obtain ⟨t, ht⟩ | ht := headerType_cases a
    · rw [ht]
      exact R.relates_pure fun k hk => ⟨rfl, T.tree_mono (T.header checked.tree ht) hk⟩
    · rw [ht]
      exact R.relates_throw _

/-- A part of the header of a loop is checked unless it is left out. -/
theorem relates_header {x y : Node → Check Node} {node node' : Node} {f g : Node → Check α}
    (h : node.Like R.operator R.value node')
    (hx : R.Rel n (x node) (y node') (T.Checked node))
    (hf : ∀ k a b, n ≤ k → T.HeaderPart k node a b → R.Rel k (f a) (g b) P) :
    R.Rel n (if node.isAbsent then pure .absent >>= f else x node >>= f)
      (if node'.isAbsent then pure .absent >>= g else y node' >>= g) P := by
  rw [h.isAbsent_eq]
  refine relates_ite (fun habsent => ?_) fun _ => ?_
  · obtain rfl := eq_absent habsent
    exact hf n .absent .absent (Nat.le_refl n) .none
  · exact R.relates_bind hx fun k a b hk hab => hf k a b hk (.some hab)

/-- Statements in a new frame. -/
theorem relates_inner (hs : R.Outer n scope scope') {ss : List Node}
    {x y : FrameId → Check (List Node)} {f g : List Node → Check α}
    (hx : ∀ k inner inner', n ≤ k → R.Frame k inner inner' →
      R.Rel k (x inner) (y inner') fun l => AllTrees (T.Tree .statement l) ss)
    (hf : ∀ k as bs, n ≤ k → AllTrees (T.Tree .statement k) ss as bs →
      R.Rel k (f as) (g bs) P) :
    R.Rel n (newFrame (some scope) >>= fun inner => x inner >>= f)
      (newFrame (some scope') >>= fun inner => y inner >>= g) P := by
  refine R.relates_bind (R.relates_newFrame hs) fun k inner inner' hk hinner => ?_
  refine R.relates_bind (hx k inner inner' hk hinner) fun l as bs hl hall => ?_
  exact hf l as bs (Nat.le_trans hk hl) hall

theorem relates_checkAssign (hs : R.Frame n scope scope') {receiver receiver' value value' : Node}
    (hr : receiver.Like R.operator R.value receiver') (hv : value.Like R.operator R.value value') :
    R.Rel n (checkStatement returns scope (.assign receiver value))
      (checkStatement returns scope' (.assign receiver' value'))
      (T.Checked (.assign receiver value)) := by
  cases hr with
  | access object =>
    rw [checkStatement_assign, checkStatement_assign]
    refine R.relates_bind (T.relates_checkExpression hs (.access object)) ?_
    rintro k _ _ hk ⟨hreceiver, htarget, -⟩
    refine R.relates_bind (T.relates_checkExpression (R.frame_mono hs hk) hv) ?_
    rintro k₁ _ _ hk₁ ⟨hvalue, -, -⟩
    dsimp only
    rw [htarget]
    split
    · refine relates_ite (fun _ => relates_fail _) fun _ => ?_
      refine R.relates_bind (relates_lift _) fun k₂ _ _ hk₂ _ => R.relates_pure fun l hl => ?_
      refine ⟨T.assign (T.tree_mono hreceiver (by omega)) (T.tree_mono hvalue (by omega)), ?_⟩
      rw [headerType_assign, headerType_assign, htarget]
    · exact relates_fail _
  | _ =>
    simp only [checkStatement]
    exact relates_fail _

mutual

theorem relates_checkStatement {n : Nat} {scope scope' : FrameId}
    (hs : R.Frame n scope scope') {node node' : Node} (h : node.Like R.operator R.value node') :
    R.Rel n (checkStatement returns scope node) (checkStatement returns scope' node')
      (T.Checked node) := by
  match node with
  | .exprStmt expression =>
    cases h with
    | exprStmt whole =>
    simp only [checkStatement]
    refine R.relates_bind (T.relates_checkExpression hs whole) ?_
    rintro k _ _ hk ⟨hexpression, -, -⟩
    exact R.relates_pure fun l hl => ⟨T.exprStmt (T.tree_mono hexpression hl), rfl⟩
  | .declaration name typeName value bound =>
    cases h with
    | declaration inner =>
    simp only [checkStatement]
    refine R.relates_bind (T.relates_checkInitial hs inner) ?_
    rintro k ⟨value, initial⟩ ⟨value', _⟩ hk ⟨hvalue, rfl, hinitial⟩
    refine R.relates_bind (relates_lift _) ?_
    rintro k₁ t _ hk₁ ⟨rfl, ht⟩
    dsimp only at hvalue
    have hranges := holds_of_declaredType R.ranges_of_memberless hinitial ht
    have hs₁ := R.frame_mono hs (Nat.le_trans hk hk₁)
    refine R.relates_bind (relates_introduce "declare" name false hs₁ hranges)
      fun k₂ _ _ hk₂ _ => R.relates_pure fun l hl => ?_
    exact ⟨T.declaration (T.tree_mono hvalue (by omega))
      (R.variable_of_frame name false (R.frame_mono hs (by omega)) hranges), rfl⟩
  | .assign receiver value =>
    cases h with
    | assign left right => exact T.relates_checkAssign hs left right
  | .ifStmt condition thens elses =>
    cases h with
    | ifStmt test first second =>
    simp only [checkStatement, first.isEmpty_eq, second.isEmpty_eq]
    refine R.relates_bind (T.relates_checkCondition hs "if" test)
      fun k condition condition' hk hcondition => ?_
    have hs₁ := R.frame_mono hs hk
    refine relates_ite (fun _ => relates_fail _) fun _ => ?_
    refine T.relates_inner (R.outer_of_frame hs₁)
      (fun _ _ _ _ hinner => relates_checkStatements hinner first)
      fun k₁ thens thens' hk₁ hthens => ?_
    refine relates_ite (fun helses => R.relates_pure fun l hl => ?_) fun _ => ?_
    · obtain rfl : elses = [] := List.isEmpty_iff.mp helses
      cases second
      exact ⟨T.ifStmt (T.tree_mono hcondition (by omega)) (T.all_mono hthens hl) .nil, rfl⟩
    · refine T.relates_inner (R.outer_of_frame (R.frame_mono hs₁ hk₁))
        (fun _ _ _ _ hinner => relates_checkStatements hinner second)
        fun k₂ elses elses' hk₂ helses => R.relates_pure fun l hl => ?_
      exact ⟨T.ifStmt (T.tree_mono hcondition (by omega)) (T.all_mono hthens (by omega))
        (T.all_mono helses hl), rfl⟩
  | .forStmt initialization condition increment statements =>
    cases h with
    | forStmt before test after body =>
    simp only [checkStatement, body.isEmpty_eq]
    refine R.relates_bind (R.relates_newFrame (R.outer_of_frame hs))
      fun k loop loop' hk hloop => ?_
    refine T.relates_header (x := checkStatement returns loop) before
      (relates_checkStatement hloop before) fun k₁ first first' hk₁ hfirst => ?_
    refine R.relates_bind (T.relates_headerType hfirst) ?_
    rintro k₂ t _ hk₂ ⟨rfl, hfirst⟩
    have hloop₂ := R.frame_mono hloop (Nat.le_trans hk₁ hk₂)
    refine R.relates_bind (T.relates_checkCondition hloop₂ "for" test)
      fun k₃ condition condition' hk₃ hcondition => ?_
    have hloop₃ := R.frame_mono hloop₂ hk₃
    refine T.relates_header (x := checkStatement returns loop) after
      (relates_checkStatement hloop₃ after) fun k₄ last last' hk₄ hlast => ?_
    refine R.relates_bind (T.relates_headerType hlast) ?_
    rintro k₅ t' _ hk₅ ⟨rfl, hlast⟩
    refine R.relates_bind (relates_requireSameType _ _) fun k₆ _ _ hk₆ _ => ?_
    refine relates_ite (fun _ => relates_fail _) fun _ => ?_
    refine T.relates_inner (R.outer_of_frame (R.frame_mono hloop₃ (by omega)))
      (fun _ _ _ _ hinner => relates_checkStatements hinner body)
      fun k₇ statements statements' hk₇ hstatements => R.relates_pure fun l hl => ?_
    exact ⟨T.forStmt (T.tree_mono hfirst (by omega)) (T.tree_mono hcondition (by omega))
      (T.tree_mono hlast (by omega)) (T.all_mono hstatements hl), rfl⟩
  | .whileStmt condition statements =>
    cases h with
    | whileStmt test body =>
    simp only [checkStatement]
    refine R.relates_bind (T.relates_checkCondition hs "while" test)
      fun k condition condition' hk hcondition => ?_
    refine T.relates_inner (R.outer_of_frame (R.frame_mono hs hk))
      (fun _ _ _ _ hinner => relates_checkStatements hinner body)
      fun k₁ statements statements' hk₁ hstatements => R.relates_pure fun l hl => ?_
    exact ⟨T.whileStmt (T.tree_mono hcondition (by omega)) (T.all_mono hstatements hl), rfl⟩
  | .returnStmt value =>
    cases h with
    | returnStmt whole =>
    simp only [checkStatement]
    refine R.relates_bind (T.relates_checkExpression hs whole) ?_
    rintro k _ _ hk ⟨hvalue, -, -⟩
    cases returns with
    | none => exact relates_fail _
    | some r =>
      refine R.relates_bind (relates_lift _) fun k₁ _ _ hk₁ _ => R.relates_pure fun l hl => ?_
      exact ⟨T.returnStmt (T.tree_mono hvalue (by omega)), rfl⟩
  | .absent | .source .. | .field .. | .method .. | .literal .. | .group .. | .binary ..
  | .access .. | .call .. =>
    have hkind := h.kindPath_eq
    cases h
    simp only [checkStatement, hkind]
    exact R.relates_throw _

theorem relates_checkStatements {n : Nat} {scope scope' : FrameId}
    (hs : R.Frame n scope scope') {nodes nodes' : List Node}
    (h : Node.LikeAll R.operator R.value nodes nodes') :
    R.Rel n (checkStatements returns scope nodes) (checkStatements returns scope' nodes')
      fun k => AllTrees (T.Tree .statement k) nodes := by
  match nodes with
  | [] =>
    cases h with
    | nil =>
    simp only [checkStatements]
    exact R.relates_pure fun _ _ => .nil
  | node :: rest =>
    cases h with
    | cons head tail =>
    simp only [checkStatements]
    refine R.relates_bind (relates_checkStatement hs head) fun k _ _ hk hnode => ?_
    refine R.relates_bind (relates_checkStatements (R.frame_mono hs hk) tail)
      fun k₁ _ _ hk₁ hrest => R.relates_pure fun l hl => ?_
    exact .cons (T.tree_mono hnode.tree (Nat.le_trans hk₁ hl)) (T.all_mono hrest hl)

end

theorem relates_checkField (hs : R.Frame n scope scope') {node node' : Node}
    (h : node.Like R.operator R.value node') :
    R.Rel n (checkField scope node) (checkField scope' node') (T.Tree .field · node) := by
  cases h with
  | @field name typeName constant _ _ _ _ inner =>
    simp only [checkField]
    refine R.relates_bind (relates_lift _) ?_
    rintro k declared _ hk ⟨rfl, hdeclared⟩
    refine R.relates_bind (T.relates_checkInitial (R.frame_mono hs hk) inner) ?_
    rintro k₁ ⟨value, initial⟩ ⟨value', _⟩ hk₁ ⟨hvalue, rfl, hinitial⟩
    dsimp only at hvalue hinitial
    refine R.relates_bind (relates_lift _) ?_
    rintro k₂ _ t hk₂ ⟨rfl, ht⟩
    have hranges : R.Ranges t := holds_of_fieldType
      (fun d hd => R.ranges_of_memberless (memberless_of_mapM_typeNamed hdeclared d hd)) hinitial ht
    refine R.relates_bind
      (relates_introduce "field" name constant (R.frame_mono hs (by omega)) hranges)
      fun k₃ _ _ hk₃ _ => R.relates_pure fun l hl => ?_
    exact T.field (T.tree_mono hvalue (by omega))
      (R.variable_of_frame name constant (R.frame_mono hs (by omega)) hranges)
  | _ => exact R.relates_throw _

theorem relates_declareMethod (hs : R.Frame n scope scope') {node node' : Node}
    (h : node.Like R.operator R.value node') :
    R.Rel n (declareMethod scope node) (declareMethod scope' node')
      fun _ => R.Declared node := by
  cases h with
  | method body =>
    simp only [declareMethod]
    refine R.relates_bind (relates_lift _) ?_
    rintro k f _ hk ⟨rfl, hhead⟩
    obtain ⟨-, -, -, -, hparameters, hreturn⟩ := memberless_of_headFunction hhead
    refine R.relates_bind (R.relates_defineFunction (R.frame_mono hs hk)
      (R.ranges_of_memberless hreturn)) fun _ _ _ _ _ => ?_
    refine R.relates_bind (R.relates_note _ _) fun _ _ _ _ _ => R.relates_pure fun _ _ => ?_
    exact .intro hparameters body
  | _ => exact R.relates_throw _

theorem relates_checkBody (hs : R.Outer n scope scope') {s a b : Node}
    (h : R.Declared s a b) :
    R.Rel n (checkBody scope a) (checkBody scope' b) (T.Tree .method · s) := by
  obtain ⟨plain, body⟩ := h
  simp only [checkBody]
  refine R.relates_bind (R.relates_newFrame hs) fun k inner inner' hk hinner => ?_
  refine R.relates_bind (relates_bindParameters hinner _ plain) fun k₁ _ _ hk₁ _ => ?_
  refine R.relates_bind (T.relates_checkStatements (R.frame_mono hinner hk₁) body)
    fun k₂ _ _ hk₂ hstatements => R.relates_pure fun l hl => ?_
  exact T.method (T.all_mono hstatements hl)

theorem allTrees_of_likeAll {nodes nodes' : List Node}
    (h : Node.LikeAll R.operator R.value nodes nodes') :
    AllTrees (fun s a b => a = s ∧ s.Like R.operator R.value b) nodes nodes nodes' := by
  induction nodes generalizing nodes' with
  | nil =>
    cases h
    exact .nil
  | cons node rest ih =>
    cases h with
    | cons head tail => exact .cons ⟨rfl, head⟩ (ih tail)

theorem relates_checkSource (hs : R.Frame n scope scope') {node node' : Node}
    (h : node.Like R.operator R.value node') :
    R.Rel n (checkSource scope node) (checkSource scope' node') (T.Tree .program · node) := by
  cases h with
  | source first second =>
    rw [checkSource_source, checkSource_source]
    refine R.relates_bind (relates_mapM (U := T.Tree .field) T.tree_mono
      (allTrees_of_likeAll first) ?_) fun k fields fields' hk hfields => ?_
    · rintro k s _ b hk ⟨rfl, hlike⟩
      exact T.relates_checkField (R.frame_mono hs hk) hlike
    refine R.relates_bind (relates_mapM (U := fun _ => R.Declared) (fun h _ => h)
      (allTrees_of_likeAll second) ?_) fun k₁ declared declared' hk₁ hdeclared => ?_
    · rintro l s _ b hl ⟨rfl, hlike⟩
      exact relates_declareMethod (R.frame_mono hs (Nat.le_trans hk hl)) hlike
    refine R.relates_bind (relates_mapM (U := T.Tree .method) T.tree_mono hdeclared
      fun hl h => T.relates_checkBody (R.outer_of_frame (R.frame_mono hs (by omega))) h)
      fun k₂ methods methods' hk₂ hmethods => ?_
    refine relates_imp (R.relates_requireMain _ _ (R.frame_mono hs (by omega))) ?_
    rintro k₃ _ _ hk₃ ⟨rfl, rfl⟩ l hl
    exact T.source (T.all_mono hfields (by omega)) (T.all_mono hmethods (by omega))
  | _ => exact R.relates_throw _

end Trees

end CheckRelation

end BlockScript
