import BlockScript.Proofs.Ends
import BlockScript.Proofs.Typing.Order
/-!
# Checking a program with its methods in another order

A program is accepted with its methods in one order if and only if it is accepted with them in any
other one. The trees that come back have the same types and bindings, up to the numbers of the
frames in the bodies.
-/
namespace BlockScript

open Check

/-- Two programs differ in the order of their methods and in nothing else. -/
inductive Node.Reorders : Node → Node → Prop
  | methods {fields methods methods' : List Node} (perm : methods.Perm methods') :
      Reorders (.source fields methods) (.source fields methods')

section Declarations

variable {c : Checker} {root : FrameId}

/-- The tree of a method when it is declared, and the function that it declares, unless its head is
wrong. -/
def Node.declaration? : Node → Option (Node × StaticFunction)
  | method name parameters parameterTypes returnType statements _ =>
    match headFunction name parameters parameterTypes returnType with
    | .ok f => some (method name parameters parameterTypes returnType statements (some f), f)
    | .error _ => none
  | _ => none

def declarations (methods : List Node) : List (Node × StaticFunction) :=
  methods.filterMap Node.declaration?

def declaredFunctions (methods : List Node) : List (Signature × StaticFunction) :=
  (declarations methods).map fun declared => (declared.2.signature, declared.2)

structure Declarable (s : Scopes StaticVariable StaticFunction) (root : FrameId)
    (methods : List Node) : Prop where
  heads : ∀ method ∈ methods, method.declaration?.isSome = true
  admits : s.Admits root ((declaredFunctions methods).map Prod.fst)

theorem Declarable.perm {s : Scopes StaticVariable StaticFunction} {methods methods' : List Node}
    (h : Declarable s root methods) (hperm : methods.Perm methods') : Declarable s root methods' where
  heads method hmem := h.heads method (hperm.mem_iff.mpr hmem)
  admits := h.admits.perm (((hperm.filterMap _).map _).map _)

theorem ends_defineFunction (f : StaticFunction) :
    Ends (defineFunction root f) c
      (fun _ d => c.scopes.bindsFunction root f.signature = false ∧
        d.scopes = c.scopes.addFunction root f.signature f)
      fun _ _ => c.scopes.bindsFunction root f.signature = true := by
  unfold defineFunction
  refine ends_bind.mpr (ends_get.mpr ?_)
  split
  · next hbinds => exact hbinds
  · next hbinds => exact ⟨by simpa using hbinds, rfl⟩

theorem ends_note (least : Nat) (line : String) :
    Ends (note least line) c (fun _ d => d.scopes = c.scopes) fun _ _ => False := by
  refine ends_modify.mpr ?_
  split <;> rfl

theorem ends_declareMethod (node : Node) :
    Ends (declareMethod root node) c
      (fun node' d => ∃ f, node.declaration? = some (node', f) ∧
        c.scopes.bindsFunction root f.signature = false ∧
        d.scopes = c.scopes.addFunction root f.signature f)
      fun _ _ => ∀ node' f, node.declaration? = some (node', f) →
        c.scopes.bindsFunction root f.signature = true := by
  cases node with
  | method name parameters parameterTypes returnType statements callee =>
    simp only [declareMethod, Node.declaration?]
    cases headFunction name parameters parameterTypes returnType with
    | error fault => exact fun _ _ h => by cases h
    | ok f =>
      refine ends_bind.mpr (ends_bind.mpr (Ends.imp (ends_defineFunction f) ?_ ?_))
      · rintro ⟨⟩ d ⟨hfree, hd⟩
        refine ends_bind.mpr (Ends.imp (ends_note _ _) (fun _ d' hd' => ?_) fun _ _ => False.elim)
        exact ⟨f, rfl, hfree, hd'.trans hd⟩
      · intro _ _ hbinds node' g heq
        cases heq
        exact hbinds
  | _ => exact fun _ _ h => by cases h

theorem declarable_nil (s : Scopes StaticVariable StaticFunction) (root : FrameId) :
    Declarable s root [] :=
  ⟨fun _ hmem => absurd hmem List.not_mem_nil, .nil, fun _ hmem => absurd hmem List.not_mem_nil⟩

theorem declarable_cons {s : Scopes StaticVariable StaticFunction} (hroot : root < s.next)
    {method node : Node} {f : StaticFunction} (hdeclared : method.declaration? = some (node, f))
    (methods : List Node) : Declarable s root (method :: methods) ↔
      s.bindsFunction root f.signature = false ∧
        Declarable (s.addFunction root f.signature f) root methods := by
  have hfunctions : declaredFunctions (method :: methods) =
      (f.signature, f) :: declaredFunctions methods := by
    simp [declaredFunctions, declarations, hdeclared]
  have hcons := Scopes.admits_cons hroot f.signature f ((declaredFunctions methods).map Prod.fst)
  constructor
  · rintro ⟨hheads, hadmits⟩
    rw [hfunctions, List.map_cons] at hadmits
    obtain ⟨hfree, hrest⟩ := hcons.mp hadmits
    exact ⟨hfree, fun other hother => hheads other (List.mem_cons_of_mem _ hother), hrest⟩
  · rintro ⟨hfree, hheads, hadmits⟩
    refine ⟨List.forall_mem_cons.mpr ⟨by rw [hdeclared]; rfl, hheads⟩, ?_⟩
    rw [hfunctions, List.map_cons]
    exact hcons.mpr ⟨hfree, hadmits⟩

/-- Methods are declared one after the other if they can be, and otherwise the program is
refused. -/
theorem ends_declareMethods (hroot : root < c.scopes.next) (methods : List Node) :
    Ends (methods.mapM (declareMethod root)) c
      (fun out d => Declarable c.scopes root methods ∧ out = (declarations methods).map Prod.fst ∧
        d.scopes = c.scopes.addFunctions root (declaredFunctions methods))
      fun _ _ => ¬Declarable c.scopes root methods := by
  induction methods generalizing c with
  | nil => exact ⟨declarable_nil _ _, rfl, (Scopes.addFunctions_nil _ _).symm⟩
  | cons method methods ih =>
    rw [List.mapM_cons]
    refine ends_bind.mpr (Ends.imp (ends_declareMethod method) ?_ ?_)
    · rintro node d ⟨f, hdeclared, hfree, hd⟩
      have hcons := declarable_cons hroot hdeclared methods
      have hroot' : root < d.scopes.next := by
        rw [hd, Scopes.addFunction, Scopes.next_update]
        exact hroot
      refine ends_bind.mpr (Ends.imp (ih hroot') ?_ ?_)
      · rintro out e ⟨hdeclarable, rfl, he⟩
        rw [hd] at hdeclarable he
        refine ⟨hcons.mpr ⟨hfree, hdeclarable⟩, ?_, ?_⟩
        · simp [declarations, hdeclared]
        · rw [he, ← Scopes.addFunctions_cons _ _ (f.signature, f)]
          simp [declaredFunctions, declarations, hdeclared]
      · intro _ _ hnot hdeclarable
        rw [hd] at hnot
        exact hnot (hcons.mp hdeclarable).2
    · intro _ _ hbinds hdeclarable
      have hhead := hdeclarable.heads method List.mem_cons_self
      obtain ⟨⟨node, f⟩, hdeclared⟩ := Option.isSome_iff_exists.mp hhead
      have hfree := ((declarable_cons hroot hdeclared methods).mp hdeclarable).1
      exact Bool.false_ne_true (hfree.symm.trans (hbinds node f hdeclared))

theorem plain_of_declaration? {method node : Node} {f : StaticFunction}
    (h : method.declaration? = some (node, f)) : node.PlainHead ∧ f.returnType.Memberless := by
  cases method with
  | method name parameters parameterTypes returnType statements callee =>
    simp only [Node.declaration?] at h
    split at h
    · next hhead =>
      cases h
      obtain ⟨-, -, -, -, hparameters, hreturn⟩ := memberless_of_headFunction hhead
      exact ⟨hparameters, hreturn⟩
    · cases h
  | _ => cases h

theorem plain_of_mem_declarations {methods : List Node} {declared : Node × StaticFunction}
    (h : declared ∈ declarations methods) :
    declared.1.PlainHead ∧ declared.2.returnType.Memberless := by
  obtain ⟨method, -, hdeclared⟩ := List.mem_filterMap.mp h
  exact plain_of_declaration? hdeclared

theorem within_of_mem_declaredFunctions {methods : List Node} {b : Signature × StaticFunction}
    (h : b ∈ declaredFunctions methods) {base : Nat} : b.2.returnType.Within base := by
  obtain ⟨declared, hmem, rfl⟩ := List.mem_map.mp h
  exact (plain_of_mem_declarations hmem).2.within base

/-- Both orders bind the same functions. -/
theorem renumbered_declared {base : Nat} {s : Scopes StaticVariable StaticFunction}
    (hs : AtHome base s) {methods methods' : List Node} (h : Declarable s root methods)
    (hperm : methods.Perm methods') :
    Renumbered base id (s.addFunctions root (declaredFunctions methods))
      (s.addFunctions root (declaredFunctions methods')) := by
  have hfunctions : (declaredFunctions methods).Perm (declaredFunctions methods') :=
    (hperm.filterMap _).map _
  refine ⟨fun _ _ => rfl, hs.addFunctions fun b hb => within_of_mem_declaredFunctions hb, ?_⟩
  · refine (Renumbered.refl hs).corresponds.addFunctions root fun signature => ?_
    rw [lookup_perm hfunctions h.admits.1 signature]
    cases (declaredFunctions methods').lookup signature with
    | none => exact .none
    | some f => exact .some rfl

/-- Two runs that declare methods end alike: both fail, or they bind the same functions and give the
same trees in another order. -/
inductive DeclaredAlike (base : Nat) (c : Checker) : EStateM.Result Fault Checker (List Node) →
    EStateM.Result Fault Checker (List Node) → Prop
  | ok {nodes nodes' : List Node} {d d' : Checker} (numbers : Renumbered base id d.scopes d'.scopes)
      (next : d.scopes.next = c.scopes.next) (perm : nodes.Perm nodes')
      (plain : ∀ node ∈ nodes, node.PlainHead) :
      DeclaredAlike base c (.ok nodes d) (.ok nodes' d')
  | error {fault fault' : Fault} {d d' : Checker} :
      DeclaredAlike base c (.error fault d) (.error fault' d')

theorem declaredAlike_declareMethods {base : Nat} (hs : AtHome base c.scopes)
    (hroot : root < c.scopes.next) {methods methods' : List Node} (h : methods.Perm methods') :
    DeclaredAlike base c (methods.mapM (declareMethod root) c)
      (methods'.mapM (declareMethod root) c) := by
  have hends := ends_declareMethods hroot methods
  have hends' := ends_declareMethods hroot methods'
  unfold Ends at hends hends'
  generalize methods.mapM (declareMethod root) c = r at hends ⊢
  generalize methods'.mapM (declareMethod root) c = r' at hends' ⊢
  cases r with
  | error fault d =>
    cases r' with
    | error fault' d' => exact .error
    | ok out' d' => exact absurd (hends'.1.perm h.symm) hends
  | ok out d =>
    obtain ⟨hdeclarable, rfl, hd⟩ := hends
    cases r' with
    | error fault' d' => exact absurd (hdeclarable.perm h) hends'
    | ok out' d' =>
      obtain ⟨-, rfl, hd'⟩ := hends'
      refine .ok ?_ ?_ ((h.filterMap _).map _) fun node hnode => ?_
      · rw [hd, hd']
        exact renumbered_declared hs hdeclarable h
      · rw [hd, Scopes.addFunctions, Scopes.next_update]
      · obtain ⟨declared, hmem, rfl⟩ := List.mem_map.mp hnode
        exact (plain_of_mem_declarations hmem).1

end Declarations

section Programs

variable {base : Nat} {root : FrameId} {c : Checker}

/-- Two runs that check programs end alike: both fail, or the second tree is the first one with its
methods in another order and under other numbers for the frames that are new. -/
inductive CheckedAlike (base : Nat) (c : Checker) : EStateM.Result Fault Checker Node →
    EStateM.Result Fault Checker Node → Prop
  | ok {program program' : Node} {d d' : Checker} (ρ : FrameId → FrameId)
      (numbers : Renumbered base ρ d.scopes d'.scopes) (fixes : ∀ i < c.scopes.next, ρ i = i)
      (reorders : (program.rename ρ).Reorders program') :
      CheckedAlike base c (.ok program d) (.ok program' d')
  | error {fault fault' : Fault} {d d' : Checker} :
      CheckedAlike base c (.error fault d) (.error fault' d')

/-- Bodies are checked alike in corresponding frames. -/
theorem permuted_bodies (hroot : root < base) {nodes nodes' : List Node} (h : nodes.Perm nodes')
    (hnodes : ∀ node ∈ nodes, node.PlainHead) {c' : Checker}
    (hnumbers : Renumbered base id c.scopes c'.scopes) (hbase : base ≤ c.scopes.next) :
    Permuted base c (nodes.mapM (checkBody root) c) (nodes'.mapM (checkBody root) c') := by
  refine (permuted_mapM hroot h hnodes hnumbers.home hbase).trans ?_
  have hfollows : Follows base id (fun _ => False) c.scopes.next (nodes'.mapM (checkBody root))
      (nodes'.mapM (checkBody (id root))) (CopiedAll id) :=
    follows_mapM nodes' fun node hnode k _ =>
      follows_checkBody (fun _ => False.elim) root (hnodes node (h.mem_iff.mpr hnode))
  have hends := hfollows c c' hnumbers (Nat.le_refl _)
  rw [id] at hends
  generalize nodes'.mapM (checkBody root) c = r at hends ⊢
  generalize nodes'.mapM (checkBody root) c' = r' at hends ⊢
  cases hends with
  | error => exact .error
  | ok numbers _ le copied => exact .ok id numbers (fun _ _ => rfl) le (.of_eq copied.eq)

/-- The fields of a program come out naming only frames that are there. -/
theorem checkedFields_of_ok (hs : AtHome base c.scopes) (hroot : root < c.scopes.next)
    {fields fields' : List Node} {d : Checker}
    (h : fields.mapM (checkField root) c = .ok fields' d) :
    AtHome base d.scopes ∧ c.scopes.next ≤ d.scopes.next ∧
      CopiedAll id d.scopes.next fields' fields' := by
  have hapart : Apart (fun _ => False) c.scopes.next root := ⟨fun _ => False.elim, id, hroot⟩
  have hfollows : Follows base id (fun _ => False) c.scopes.next (fields.mapM (checkField root))
      (fields.mapM (checkField (id root))) (CopiedAll id) :=
    follows_mapM fields fun node _ k hk => follows_checkField (hapart.mono hk) node
  have hends := hfollows c c (.refl hs) (Nat.le_refl _)
  rw [id, h] at hends
  cases hends with
  | ok numbers _ le holds => exact ⟨numbers.home, le, holds⟩

theorem checkedAlike_requireMain (hroot : root < base) {program program' : Node} {d d' : Checker}
    {ρ : FrameId → FrameId} (numbers : Renumbered base ρ d.scopes d'.scopes)
    (fixes : ∀ i < c.scopes.next, ρ i = i) (reorders : (program.rename ρ).Reorders program') :
    CheckedAlike base c (requireMain root program d) (requireMain root program' d') := by
  have hfollows : Follows base ρ (fun _ => False) d.scopes.next (requireMain root program)
      (requireMain (ρ root) program') _ := follows_requireMain root program program'
  have hends := hfollows d d' numbers (Nat.le_refl _)
  rw [numbers.fixes root hroot] at hends
  generalize requireMain root program d = r at hends ⊢
  generalize requireMain root program' d' = r' at hends ⊢
  cases hends with
  | error => exact .error
  | ok numbers' _ _ holds =>
    obtain ⟨rfl, rfl⟩ := holds
    exact .ok ρ numbers' fixes reorders

/-- Programs that differ in the order of their methods are checked alike. -/
theorem checkedAlike_checkSource (hs : AtHome base c.scopes) (hbase : base ≤ c.scopes.next)
    (hroot : root < base) {fields methods methods' : List Node} (h : methods.Perm methods') :
    CheckedAlike base c (checkSource root (.source fields methods) c)
      (checkSource root (.source fields methods') c) := by
  rw [checkSource_source, checkSource_source]
  simp only [bind, EStateM.bind]
  -- Both runs check the same fields first.
  cases hfields : fields.mapM (checkField root) c with
  | error fault d => exact .error
  | ok fields' c₁ =>
  have hroot₀ : root < c.scopes.next := Nat.lt_of_lt_of_le hroot hbase
  obtain ⟨hs₁, hle₁, hcopied⟩ := checkedFields_of_ok hs hroot₀ hfields
  have hbase₁ : base ≤ c₁.scopes.next := Nat.le_trans hbase hle₁
  have hdeclared := declaredAlike_declareMethods hs₁ (Nat.lt_of_lt_of_le hroot hbase₁) h
  dsimp only
  generalize methods.mapM (declareMethod root) c₁ = r at hdeclared ⊢
  generalize methods'.mapM (declareMethod root) c₁ = r' at hdeclared ⊢
  cases hdeclared with
  | error => exact .error
  | @ok nodes nodes' d d' numbers next perm plain =>
  have hbodies := permuted_bodies hroot perm plain numbers (by rwa [next])
  dsimp only
  generalize nodes.mapM (checkBody root) d = t at hbodies ⊢
  generalize nodes'.mapM (checkBody root) d' = t' at hbodies ⊢
  cases hbodies with
  | error => exact .error
  | @ok out out' e e' ρ numbers fixes le perm =>
  rw [next] at fixes
  refine checkedAlike_requireMain hroot numbers
    (fun i hi => fixes i (Nat.lt_of_lt_of_le hi hle₁)) ?_
  rw [Node.rename, Node.renameAll_eq_map, Node.renameAll_eq_map, ← hcopied ρ fixes]
  exact .methods perm.symm

end Programs

end BlockScript
