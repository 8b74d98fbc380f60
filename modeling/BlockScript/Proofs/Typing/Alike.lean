import BlockScript.Proofs.Typing.Relation
/-!
# Checking what reads alike

Of operators and of the values of literals checking reads no more than what types they have. Two
trees of one shape in which these are the same are checked alike: from one checker both runs come to
one checker again.
-/
namespace BlockScript

open Check

section Ends

variable {α β : Type} {Same : Fault → Fault → Prop} {n : Nat}

/-- Two ends of checking in one checker: with results of which `P` holds, or with faults that are
the same. -/
inductive SameChecks (Same : Fault → Fault → Prop) (P : α → α → Prop) :
    Except Fault α × Checker → Except Fault α × Checker → Prop where
  | ok {a b : α} {c : Checker} (holds : P a b) : SameChecks Same P (.ok a, c) (.ok b, c)
  | error {fault fault' : Fault} {c : Checker} (same : Same fault fault') :
      SameChecks Same P (.error fault, c) (.error fault', c)

/-- From every checker both come to one end. What holds of the results does so for `n` frames and
for more. -/
def ChecksAlike (Same : Fault → Fault → Prop) (n : Nat) (x y : Check α) (P : Nat → α → α → Prop) :
    Prop :=
  ∀ c, SameChecks Same (fun a b => ∀ k, n ≤ k → P k a b) (Check.outcome x c) (Check.outcome y c)

variable {P : Nat → α → α → Prop} {R : Nat → β → β → Prop}

theorem checksAlike_pure {a b : α} (h : ∀ k, n ≤ k → P k a b) :
    ChecksAlike Same n (pure a) (pure b) P := fun _ => .ok h

theorem checkOutcome_bind (x : Check α) (f : α → Check β) (c : Checker) :
    Check.outcome (x >>= f) c = match Check.outcome x c with
      | (.ok a, c) => Check.outcome (f a) c
      | (.error fault, c) => (.error fault, c) := by
  simp only [Check.outcome, bind, EStateM.bind]
  cases x c <;> rfl

theorem ChecksAlike.bind {x y : Check α} {f g : α → Check β} (h : ChecksAlike Same n x y P)
    (hf : ∀ k a b, n ≤ k → P k a b → ChecksAlike Same k (f a) (g b) R) :
    ChecksAlike Same n (x >>= f) (y >>= g) R := by
  intro c
  have hends := h c
  rw [checkOutcome_bind, checkOutcome_bind]
  generalize Check.outcome x c = e at hends ⊢
  generalize Check.outcome y c = e' at hends ⊢
  cases hends with
  | ok holds => exact hf n _ _ (Nat.le_refl n) (holds n (Nat.le_refl n)) _
  | error same => exact .error same

/-- One run ends as it does. -/
theorem checksAlike_refl (hrefl : ∀ fault, Same fault fault) (x : Check α)
    (hP : ∀ k a, P k a a) : ChecksAlike Same n x x P := by
  intro c
  generalize Check.outcome x c = e
  obtain ⟨fault | a, c⟩ := e
  · exact .error (hrefl fault)
  · exact .ok fun k _ => hP k a

/-- Both runs look for the method in the same scopes. -/
theorem checksAlike_requireMain (hrefl : ∀ fault, Same fault fault) (scope : FrameId)
    (program program' : Node) :
    ChecksAlike Same n (requireMain scope program) (requireMain scope program')
      fun _ a b => a = program ∧ b = program' := by
  refine (checksAlike_refl (P := fun _ c c' => c' = c) hrefl get fun _ _ => rfl).bind ?_
  rintro k _ c - rfl
  cases c.scopes.findFunction? scope ⟨"main", 0⟩ with
  | none => exact fun _ => .error (hrefl _)
  | some found =>
    dsimp only
    split
    · exact checksAlike_pure fun _ _ => ⟨rfl, rfl⟩
    · exact fun _ => .error (hrefl _)

end Ends

/-- The operators and the values are read alike by checking, but for what faults are the same. -/
structure ReadAlike (Same : Fault → Fault → Prop) (operator : String → String)
    (value : Literal → Literal) : Prop where
  refl : ∀ fault, Same fault fault
  binaryType : ∀ (n : Nat) (op : String) (l r : StaticType),
    ChecksAlike Same n (lift (BlockScript.binaryType op l r))
      (lift (BlockScript.binaryType (operator op) l r)) fun _ t t' => t' = t
  staticType : ∀ v : Literal, (value v).staticType = v.staticType

section Relation

variable {Same : Fault → Fault → Prop} {operator : String → String} {value : Literal → Literal}

/-- Where operators and values are read alike, so are trees. -/
def CheckRelation.alike (h : ReadAlike Same operator value) : CheckRelation where
  operator := operator
  value := value
  Rel := ChecksAlike Same
  Outer _ s s' := s' = s
  Frame _ s s' := s' = s
  Ranges _ := True
  Variable _ v v' := v' = v
  relates_pure := checksAlike_pure
  relates_bind := ChecksAlike.bind
  relates_throw fault _ := .error (h.refl fault)
  relates_note _ _ := checksAlike_refl h.refl _ fun _ _ => trivial
  relates_newFrame := by
    rintro n s _ rfl
    exact checksAlike_refl h.refl _ fun _ _ => rfl
  relates_defineVariable := by
    rintro n s _ t name constant rfl -
    exact checksAlike_refl h.refl _ fun _ _ => trivial
  relates_defineFunction := by
    rintro n s _ f rfl -
    exact checksAlike_refl h.refl _ fun _ _ => trivial
  relates_findVariable := by
    rintro n s _ name rfl
    exact checksAlike_refl h.refl _ fun _ _ => rfl
  relates_findField _ _ := checksAlike_refl h.refl _ fun _ _ => rfl
  relates_findFunction := by
    rintro n s _ signature rfl
    exact checksAlike_refl h.refl _ fun _ _ => ⟨rfl, trivial⟩
  relates_findMethod _ _ := checksAlike_refl h.refl _ fun _ _ => ⟨rfl, trivial⟩
  relates_binaryType {n l} op r _ := by
    intro c
    have hends := h.binaryType n op l r c
    generalize Check.outcome (lift (binaryType op l r)) c = e at hends ⊢
    generalize Check.outcome (lift (binaryType (operator op) l r)) c = e' at hends ⊢
    cases hends with
    | ok holds => exact .ok fun k hk => ⟨holds k hk, trivial⟩
    | error same => exact .error same
  relates_requireMain := by
    rintro n _ s program program' rfl
    exact checksAlike_requireMain h.refl s program program'
  staticType_value := h.staticType
  ranges_of_memberless _ := trivial
  frame_mono hs _ := hs
  outer_of_frame hs := hs
  variable_mono hv _ := hv
  variable_same := by
    rintro n v _ rfl
    exact ⟨rfl, rfl, trivial⟩
  variable_of_frame := by
    rintro n s _ t name constant rfl -
    rfl

variable {h : ReadAlike Same operator value}

/-- A checker checks trees that read alike alike. -/
theorem sameChecks_check (T : (CheckRelation.alike h).Trees) {tree tree' : Node}
    (hlike : tree.Like operator value tree') (c : Checker) :
    SameChecks Same (T.Tree .program 0 tree) (c.check tree) (c.check tree') := by
  have halike : ChecksAlike Same 0 (note 1 "analyze source" >>= fun _ => checkSource c.root tree)
      (note 1 "analyze source" >>= fun _ => checkSource c.root tree') (T.Tree .program · tree) :=
    (checksAlike_refl (P := fun _ _ _ => True) h.refl _ fun _ _ => trivial).bind
      fun _ _ _ _ _ => T.relates_checkSource rfl hlike
  have hends := halike c
  unfold Checker.check
  generalize Check.outcome _ c = e at hends ⊢
  generalize Check.outcome _ c = e' at hends ⊢
  cases hends with
  | ok holds => exact .ok (holds 0 (Nat.le_refl 0))
  | error same => exact .error same

section Maps

variable {g : Node → Node}

theorem map_lists {ss as bs : List Node} (h : AllTrees (fun _ a b => b = g a) ss as bs) :
    bs = as.map g :=
  h.eq_map id

/-- What checking yields for a tree and for what the map makes of it: the map makes the one checked
tree of the other. -/
def mappedTrees (h : ReadAlike Same operator value) (hg : Node.Maps operator value g) :
    (CheckRelation.alike h).Trees where
  Tree _ _ _ a b := b = g a
  tree_mono h _ := h
  literal _ := (hg.literal _ _).symm
  group := by
    rintro n s a _ t type rfl
    exact (hg.group _ _).symm
  binary := by
    rintro n op s a _ s' a' _ t type rfl rfl
    exact (hg.binary _ _ _ _).symm
  access := by
    rintro n name v _ type bound rfl
    rw [hg.access, hg.absent]
  member := by
    rintro n s a _ name v _ type bound rfl rfl
    exact (hg.access _ _ _ _).symm
  call hall := by rw [map_lists hall, hg.call, hg.absent]
  methodCall := by
    rintro n s a _ name ss as bs f type callee rfl hall
    rw [map_lists hall, hg.call]
  noInitial := hg.absent.symm
  initial h := h
  noHeader := hg.absent.symm
  header h _ := h
  exprStmt := by
    rintro n s a _ rfl
    exact (hg.exprStmt _).symm
  declaration := by
    rintro n name typeName s a _ v _ bound rfl rfl
    exact (hg.declaration _ _ _ _).symm
  assign := by
    rintro n s a _ s' a' _ rfl rfl
    exact (hg.assign _ _).symm
  ifStmt := by
    rintro n s a _ ss as bs ss' as' bs' rfl hthens helses
    rw [map_lists hthens, map_lists helses, hg.ifStmt]
  forStmt := by
    rintro n s a _ s' a' _ s'' a'' _ ss as bs rfl rfl rfl hall
    rw [map_lists hall, hg.forStmt]
  whileStmt := by
    rintro n s a _ ss as bs rfl hall
    rw [map_lists hall, hg.whileStmt]
  returnStmt := by
    rintro n s a _ rfl
    exact (hg.returnStmt _).symm
  field := by
    rintro n name typeName constant s a _ v _ bound rfl rfl
    exact (hg.field _ _ _ _ _).symm
  method hall := by rw [map_lists hall, hg.method]
  source hfields hmethods := by rw [map_lists hfields, map_lists hmethods, hg.source]

theorem sameChecks_map (h : ReadAlike Same operator value) (hg : Node.Maps operator value g)
    (c : Checker) (tree : Node) :
    SameChecks Same (fun a b => b = g a) (c.check tree) (c.check (g tree)) :=
  sameChecks_check (mappedTrees h hg) (hg.like tree) c

end Maps

end Relation

/-- Operators and values as they are. -/
theorem readAlike_id : ReadAlike Eq id id where
  refl _ := rfl
  binaryType _ _ _ _ := checksAlike_refl (fun _ => rfl) _ fun _ _ => rfl
  staticType _ := rfl

end BlockScript
