import BlockScript.Proofs.Evaluation.Observation
import BlockScript.Proofs.Evaluation.Reachable
import BlockScript.Proofs.Typing.Reordering
/-!
# Running a program with its methods in another order

Fields run before any method is bound, and they bind no functions. What a method is bound to does
not depend on the methods before it, so in any order the frame of the program gets the same
functions, and calls find them by name.
-/
namespace BlockScript

open Run StepRelation

section Functions

variable {α β : Type} {s s' s'' : Scopes Variable Function}

/-- The frames that are there bind the same functions as before. -/
def Scopes.FixesFunctions (s s' : Scopes Variable Function) : Prop :=
  ∀ (i : FrameId) (fr : Frame Variable Function), s.frames[i]? = some fr →
    ∃ fr' : Frame Variable Function,
      s'.frames[i]? = some fr' ∧ fr'.boundFunctions = fr.boundFunctions

theorem Scopes.FixesFunctions.refl (s : Scopes Variable Function) : s.FixesFunctions s :=
  fun _ fr hfr => ⟨fr, hfr, rfl⟩

theorem Scopes.FixesFunctions.trans (h : s.FixesFunctions s') (h' : s'.FixesFunctions s'') :
    s.FixesFunctions s'' := by
  intro i fr hfr
  obtain ⟨fr', hfr', hsame⟩ := h i fr hfr
  obtain ⟨fr'', hfr'', hsame'⟩ := h' i fr' hfr'
  exact ⟨fr'', hfr'', hsame'.trans hsame⟩

theorem Scopes.Evolves.fixesFunctions (h : s.Evolves Anywhere Nowhere s') : s.FixesFunctions s' := by
  intro i fr hfr
  obtain ⟨fr', hfr', hev⟩ := h i fr hfr
  exact ⟨fr', hfr', (hev.names_eq id).2⟩

theorem Scopes.FixesFunctions.addVariable (s : Scopes Variable Function) (scope : FrameId)
    (name : String) (v : Variable) : s.FixesFunctions (s.addVariable scope name v) := by
  intro i fr hfr
  rw [Scopes.addVariable, Scopes.getElem?_update, hfr]
  split
  · exact ⟨_, rfl, rfl⟩
  · exact ⟨fr, rfl, rfl⟩

theorem Scopes.FixesFunctions.bindsFunction (h : s.FixesFunctions s') {i : FrameId}
    (hi : i < s.next) (signature : Signature) :
    s'.bindsFunction i signature = s.bindsFunction i signature := by
  have hfr : s.frames[i]? = some s.frames[i] := Array.getElem?_eq_getElem hi
  obtain ⟨fr', hfr', hsame⟩ := h i _ hfr
  rw [Scopes.bindsFunction, Scopes.bindsFunction, hfr, hfr', Option.any_some, Option.any_some, hsame]

def BindsNoFunction (x : Run α) : Prop :=
  ∀ m : Machine, Ends x m (fun _ m' => m.scopes.FixesFunctions m'.scopes)
    fun _ m' => m.scopes.FixesFunctions m'.scopes

theorem bindsNoFunction_of_evolving {x : Run α} (h : ∀ m, Evolving Anywhere Nowhere m x) :
    BindsNoFunction x :=
  fun m => Ends.imp (h m) (fun _ _ hm' => hm'.scopes.fixesFunctions) fun _ _ hm' =>
    hm'.scopes.fixesFunctions

theorem bindsNoFunction_pure (a : α) : BindsNoFunction (pure a) :=
  bindsNoFunction_of_evolving fun _ => evolving_pure a

theorem BindsNoFunction.bind {x : Run α} {f : α → Run β} (h : BindsNoFunction x)
    (hf : ∀ a, BindsNoFunction (f a)) : BindsNoFunction (x >>= f) := by
  intro m
  refine ends_bind.mpr (Ends.imp (h m) (fun a m₁ hm₁ => ?_) fun _ _ => id)
  exact Ends.imp (hf a m₁) (fun _ _ hm₂ => hm₁.trans hm₂) fun _ _ hm₂ => hm₁.trans hm₂

theorem bindsNoFunction_noteAt (a : Activation) (least : Nat) {line : Run String}
    (h : Shows line) : BindsNoFunction (noteAt a least line) :=
  bindsNoFunction_of_evolving fun _ => evolving_noteAt a least h

theorem bindsNoFunction_defineVariable (scope : FrameId) (name : String) (v : Variable) :
    BindsNoFunction (defineVariable scope name v) := by
  intro m
  refine ends_bind.mpr (ends_get.mpr ?_)
  split
  · exact .refl _
  · exact .addVariable _ scope name v

theorem bindsNoFunction_bindArguments (scope : FrameId) (names : List String)
    (values : List Value) : BindsNoFunction (bindArguments scope names values) := by
  induction names generalizing values with
  | nil => exact bindsNoFunction_pure ()
  | cons name names ih =>
    cases values with
    | nil => exact bindsNoFunction_pure ()
    | cons v vs => exact (bindsNoFunction_defineVariable scope name _).bind fun _ => ih vs

def functionless : StepRelation Run Run where
  Rel x _ := BindsNoFunction x
  Level := Eq
  Body := SameStatements
  body_refl := statements_same
  relates_pure := bindsNoFunction_pure
  relates_bind := BindsNoFunction.bind
  relates_settled result := bindsNoFunction_of_evolving fun _ => evolving_lift result
  relates_printLine line := bindsNoFunction_of_evolving fun _ => evolving_printLine line
  relates_newFrame parent := bindsNoFunction_of_evolving fun _ => evolving_newFrame parent
  relates_bindArguments := bindsNoFunction_bindArguments
  relates_findVariable scope name := bindsNoFunction_of_evolving fun _ =>
    evolving_findVariable scope name
  relates_assignVariable _ name value := bindsNoFunction_of_evolving fun _ =>
    evolving_assignVariable name value fun _ _ _ => trivial
  relates_getField typeName members name := bindsNoFunction_of_evolving fun _ =>
    evolving_getField typeName members name
  relates_setField typeName _ name value := bindsNoFunction_of_evolving fun _ =>
    evolving_setField typeName name value fun _ _ _ => trivial
  relates_noteAt _ hline _ := bindsNoFunction_noteAt _ _ hline
  relates_requireBoolean construct value _ := bindsNoFunction_of_evolving fun _ =>
    evolving_requireBoolean _ construct value
  relates_bindVariable {a _} _ name v _ := (bindsNoFunction_defineVariable a.scope name v).bind
    fun _ => bindsNoFunction_noteAt a 2 ((shows_text v.value).bind fun _ => shows_pure _)
  relates_findFunction scope signature _ _ hk :=
    (bindsNoFunction_of_evolving fun _ => evolving_findFunction scope signature).bind fun f =>
      hk f f (.same f)
  relates_findMethod typeName members name arguments _ _ hk :=
    (bindsNoFunction_of_evolving fun _ => evolving_findMethod typeName members name arguments).bind
      fun f => hk f f (.same f)

theorem functionless_steps (fuel : Nat) : (steps fuel).Relate functionless (steps fuel) := by
  induction fuel with
  | zero => exact Steps.relate_giveUp _
  | succ fuel ih => exact ih.next fun _ hbody => congrArg _ hbody

/-- The fields of a program bind no function. -/
theorem bindsNoFunction_executeFields (fuel : Nat) (a : Activation) (fields : List Node) :
    BindsNoFunction (fields.forM (executeField (steps fuel) a)) :=
  Rel.forM (R := functionless) (fun field =>
    (functionless_steps fuel).executeField (.refl (fun _ => rfl) a) field) fields

end Functions

section Methods

def Node.signature? : Node → Option Signature
  | method name parameters _ _ _ _ => some ⟨name, parameters.length⟩
  | _ => none

/-- All of them are methods, and no two have the same name and the same number of parameters. -/
structure DistinctMethods (methods : List Node) : Prop where
  named : ∀ method ∈ methods, method.signature?.isSome = true
  nodup : (methods.filterMap Node.signature?).Nodup

def Node.HasDistinctMethods (program : Node) : Prop := DistinctMethods program.members.2

def Node.boundMethod? (a : Activation) : Node → Option (Signature × Function)
  | method name parameters _ _ statements _ =>
    some (⟨name, parameters.length⟩,
      ⟨name, some (.method a.scope a.level name parameters statements)⟩)
  | _ => none

def methodTable (a : Activation) (methods : List Node) : List (Signature × Function) :=
  methods.filterMap (Node.boundMethod? a)

theorem fst_boundMethod? (a : Activation) (node : Node) :
    (node.boundMethod? a).map Prod.fst = node.signature? := by
  cases node <;> rfl

theorem signature?_bare (node : Node) : node.bare.signature? = node.signature? := by
  cases node <;> rfl

theorem names_methodTable (a : Activation) (methods : List Node) :
    (methodTable a methods).map Prod.fst = methods.filterMap Node.signature? := by
  rw [methodTable, List.map_filterMap]
  exact List.filterMap_congr fun node _ => fst_boundMethod? a node

variable {a : Activation} {m : Machine}

theorem ends_bindMethod (hlevel : a.level = 0) {node : Node} {signature : Signature}
    {f : Function} (hbound : node.boundMethod? a = some (signature, f)) :
    Ends (defineMethod a node) m
      (fun _ m' => m.scopes.bindsFunction a.scope signature = false ∧
        m' = { m with scopes := m.scopes.addFunction a.scope signature f })
      fun fault m' => m.scopes.bindsFunction a.scope signature = true ∧
        fault = .run (.scope (.functionDefined signature)) ∧ m' = m := by
  cases node with
  | method name parameters parameterTypes returnType statements callee =>
    cases hbound
    refine ends_bind.mpr (ends_bind.mpr (ends_get.mpr ?_))
    split
    · next hbinds => exact ⟨hbinds, rfl, rfl⟩
    · next hbinds =>
      have hfree : m.scopes.bindsFunction a.scope ⟨name, parameters.length⟩ = false := by
        simpa using hbinds
      refine ends_modify.mpr ?_
      unfold noteAt
      rw [hlevel]
      exact ⟨hfree, rfl⟩
  | _ => cases hbound

/-- Methods are bound one after the other, unless the frame binds one of them already. -/
theorem ends_bindMethods (hlevel : a.level = 0) (hscope : a.scope < m.scopes.next)
    {methods : List Node} (hmethods : DistinctMethods methods) :
    Ends (methods.forM (defineMethod a)) m
      (fun _ m' => m.scopes.Admits a.scope (methods.filterMap Node.signature?) ∧
        m' = { m with scopes := m.scopes.addFunctions a.scope (methodTable a methods) })
      fun fault m' => m'.console = m.console ∧ ∃ signature ∈ methods.filterMap Node.signature?,
        m.scopes.bindsFunction a.scope signature = true ∧
          fault = .run (.scope (.functionDefined signature)) := by
  induction methods generalizing m with
  | nil => exact ⟨⟨.nil, fun _ hmem => absurd hmem List.not_mem_nil⟩, by
      rw [methodTable, List.filterMap_nil, Scopes.addFunctions_nil]⟩
  | cons method methods ih =>
    obtain ⟨hmethod, hrest⟩ := List.forall_mem_cons.mp hmethods.named
    have hnodup := hmethods.nodup
    obtain ⟨⟨signature, f⟩, hbound⟩ : ∃ b, method.boundMethod? a = some b := by
      rw [← fst_boundMethod? a, Option.isSome_map] at hmethod
      exact Option.isSome_iff_exists.mp hmethod
    have hsignature : method.signature? = some signature := by
      rw [← fst_boundMethod? a, hbound]
      rfl
    have htable : methodTable a (method :: methods) = (signature, f) :: methodTable a methods :=
      List.filterMap_cons_some hbound
    rw [List.filterMap_cons_some hsignature] at hnodup ⊢
    obtain ⟨hnot, hnodup⟩ := List.nodup_cons.mp hnodup
    refine ends_bind.mpr (Ends.imp (ends_bindMethod hlevel hbound) ?_ ?_)
    · rintro ⟨⟩ m₁ ⟨hfree, rfl⟩
      have hscope₁ : a.scope < (m.scopes.addFunction a.scope signature f).next := by
        rw [Scopes.addFunction, Scopes.next_update]
        exact hscope
      refine Ends.imp (ih hscope₁ ⟨hrest, hnodup⟩) ?_ ?_
      · rintro ⟨⟩ m₂ ⟨hadmits, rfl⟩
        refine ⟨(Scopes.admits_cons hscope signature f _).mpr ⟨hfree, hadmits⟩, ?_⟩
        rw [htable, Scopes.addFunctions_cons]
      · rintro fault m₂ ⟨hconsole, other, hother, hbinds, hfault⟩
        refine ⟨hconsole, other, List.mem_cons_of_mem _ hother, ?_, hfault⟩
        have hne : other ≠ signature := by
          rintro rfl
          exact hnot hother
        rw [Scopes.bindsFunction_addFunction hscope, beq_eq_false_iff_ne.mpr hne,
          Bool.or_false] at hbinds
        exact hbinds
    · rintro fault m₁ ⟨hbinds, hfault, rfl⟩
      exact ⟨rfl, signature, List.mem_cons_self, hbinds, hfault⟩

def Function.bare : Function → Function
  | ⟨javaName, some (.method home level name parameters statements)⟩ =>
    ⟨javaName, some (.method home level name parameters (statements.map Node.bare))⟩
  | f => f

theorem twin_of_bare_eq {l l' : Nat} {f g : Function} (h : f.bare = g.bare) : f.Twin l l' g := by
  obtain ⟨javaName, _ | _ | ⟨home, level, name, parameters, statements⟩ | act⟩ := f <;>
    obtain ⟨javaName', _ | _ | ⟨home', level', name', parameters', statements'⟩ | act'⟩ := g <;>
    simp only [Function.bare, Function.mk.injEq, Option.some.injEq, Body.method.injEq,
      Body.host.injEq, reduceCtorEq, and_true, and_false] at h
  · rw [h]
    exact .bare
  · rw [h]
    exact .print
  · obtain ⟨rfl, rfl, rfl, rfl, rfl, hbody⟩ := h
    exact .method (.inl rfl) hbody
  · obtain ⟨rfl, rfl⟩ := h
    exact .host

theorem boundMethod?_bare (a : Activation) (node : Node) :
    node.bare.boundMethod? a = (node.boundMethod? a).map fun b => (b.1, b.2.bare) := by
  cases node <;> simp [Node.bare, Node.boundMethod?, Function.bare]

theorem methodTable_bare (a : Activation) (methods : List Node) :
    methodTable a (methods.map Node.bare) =
      (methodTable a methods).map fun b => (b.1, b.2.bare) := by
  rw [methodTable, List.filterMap_map, methodTable, List.map_filterMap]
  exact List.filterMap_congr fun node _ => boundMethod?_bare a node

theorem filterMap_signature?_bare (methods : List Node) :
    (methods.map Node.bare).filterMap Node.signature? = methods.filterMap Node.signature? := by
  rw [List.filterMap_map]
  exact List.filterMap_congr fun node _ => signature?_bare node

variable {methods methods' : List Node}

theorem DistinctMethods.perm (h : DistinctMethods methods)
    (hperm : (methods.map Node.bare).Perm (methods'.map Node.bare)) : DistinctMethods methods' where
  named method' hmem' := by
    have hmem := hperm.symm.mem_iff.mp (List.mem_map_of_mem (f := Node.bare) hmem')
    obtain ⟨method, hmem, hsame⟩ := List.mem_map.mp hmem
    rw [← signature?_bare, ← hsame, signature?_bare]
    exact h.named method hmem
  nodup := by
    have hnames := hperm.filterMap Node.signature?
    rw [filterMap_signature?_bare, filterMap_signature?_bare] at hnames
    exact hnames.nodup_iff.mp h.nodup

/-- In another order methods are bound to the same functions. -/
theorem rel_methodTable (a : Activation) (h : DistinctMethods methods)
    (hperm : (methods.map Node.bare).Perm (methods'.map Node.bare)) {l l' : Nat}
    (signature : Signature) :
    Option.Rel (Function.Twin l l') ((methodTable a methods).lookup signature)
      ((methodTable a methods').lookup signature) := by
  have htable := hperm.filterMap (Node.boundMethod? a)
  rw [← methodTable, ← methodTable, methodTable_bare, methodTable_bare] at htable
  have hnames : (((methodTable a methods).map fun b => (b.1, b.2.bare)).map Prod.fst).Nodup := by
    rw [List.map_map]
    show ((methodTable a methods).map Prod.fst).Nodup
    rw [names_methodTable]
    exact h.nodup
  have hlookup := lookup_perm htable hnames signature
  rw [lookup_map, lookup_map] at hlookup
  generalize (methodTable a methods).lookup signature = x at hlookup ⊢
  generalize (methodTable a methods').lookup signature = y at hlookup ⊢
  cases x <;> cases y
  · exact .none
  · cases hlookup
  · cases hlookup
  · exact .some (twin_of_bare_eq (Option.some.inj hlookup))

/-- The frame is there and binds no function but the one that prints. -/
structure Machine.BindsPrint (m : Machine) (scope : FrameId) : Prop where
  lt_next : scope < m.scopes.next
  only : ∀ signature, m.scopes.bindsFunction scope signature = true → signature = ⟨"print", 1⟩

theorem Machine.BindsPrint.fixesFunctions {m m' : Machine} {scope : FrameId}
    (h : m.BindsPrint scope) (hm' : m.scopes.FixesFunctions m'.scopes) : m'.BindsPrint scope := by
  obtain ⟨fr', hfr', -⟩ := hm' scope _ (Array.getElem?_eq_getElem h.lt_next)
  refine ⟨Scopes.lt_next_of_getElem? hfr', fun signature hbinds => ?_⟩
  rw [hm'.bindsFunction h.lt_next] at hbinds
  exact h.only signature hbinds

theorem bindsPrint_addRoot (m : Machine) (parent : Option FrameId) (level : Nat) :
    (m.addRoot parent level).BindsPrint m.scopes.next := by
  have hlt : m.scopes.next < (m.scopes.addFrame parent).next := by
    rw [Scopes.next_addFrame]
    exact Nat.lt_succ_self _
  refine ⟨?_, fun signature hbinds => ?_⟩
  · show m.scopes.next < ((m.scopes.addFrame parent).addFunction _ _ _).next
    rw [Scopes.addFunction, Scopes.next_update]
    exact hlt
  · have hnone : (m.scopes.addFrame parent).bindsFunction m.scopes.next signature = false := by
      rw [Scopes.bindsFunction, Scopes.getElem?_addFrame, if_pos rfl]
      rfl
    have hadded := Scopes.bindsFunction_addFunction hlt ⟨"print", 1⟩ signature
      (⟨"System.out.println", some .print⟩ : Function)
    rw [hnone, Bool.false_or] at hadded
    exact eq_of_beq (hadded.symm.trans hbinds)

/-- Methods are bound alike in both orders. If one of them cannot be bound, it is because of the
function that prints. -/
theorem agrees_bindMethods (hlevel : a.level = 0) (hm : m.BindsPrint a.scope)
    (h : DistinctMethods methods)
    (hperm : (methods.map Node.bare).Perm (methods'.map Node.bare)) :
    Agrees 0 0 ((methods.forM (defineMethod a)).outcome m)
      ((methods'.forM (defineMethod a)).outcome m) := by
  have hnames : (methods.filterMap Node.signature?).Perm (methods'.filterMap Node.signature?) := by
    have hnames := hperm.filterMap Node.signature?
    rwa [filterMap_signature?_bare, filterMap_signature?_bare] at hnames
  have hends := ends_iff_outcome.mp (ends_bindMethods hlevel hm.lt_next h)
  have hends' := ends_iff_outcome.mp (ends_bindMethods hlevel hm.lt_next (h.perm hperm))
  generalize (methods.forM (defineMethod a)).outcome m = e at hends ⊢
  generalize (methods'.forM (defineMethod a)).outcome m = e' at hends' ⊢
  obtain ⟨fault | ⟨⟩, m₁⟩ := e <;> obtain ⟨fault' | ⟨⟩, m₁'⟩ := e'
  · obtain ⟨hconsole, signature, -, hbinds, rfl⟩ := hends
    obtain ⟨hconsole', signature', -, hbinds', rfl⟩ := hends'
    rw [hm.only signature hbinds, hm.only signature' hbinds']
    exact .error (by rw [hconsole, hconsole'])
  · obtain ⟨-, signature, hmem, hbinds, -⟩ := hends
    have hfree := (hends'.1.perm hnames.symm).2 signature hmem
    cases hfree.symm.trans hbinds
  · obtain ⟨-, signature, hmem, hbinds, -⟩ := hends'
    have hfree := (hends.1.perm hnames).2 signature hmem
    cases hfree.symm.trans hbinds
  · obtain ⟨-, rfl⟩ := hends
    obtain ⟨-, rfl⟩ := hends'
    have hscopes : m.scopes.Corresponds id Eq (Function.Twin 0 0) m.scopes :=
      .refl (fun _ => rfl) Function.twin_refl _
    exact .ok ⟨hscopes.addFunctions a.scope (rel_methodTable a h hperm), rfl, .inl ⟨rfl, rfl⟩⟩

end Methods

section Programs

variable {a : Activation} {m : Machine}

theorem executeFields_bare (fuel : Nat) (a : Activation) (fields : List Node) :
    (fields.map Node.bare).forM (executeField (steps fuel) a) =
      fields.forM (executeField (steps fuel) a) := by
  induction fields with
  | nil => rfl
  | cons field fields ih =>
    rw [List.map_cons, List.forM, List.forM, ih, (steps_ignoreSlots fuel).executeField]

/-- The fields and methods of a program are bound alike in both orders. -/
theorem agrees_setUp (hlevel : a.level = 0) (hm : m.BindsPrint a.scope) (fuel : Nat)
    {fields fields' methods methods' : List Node}
    (hfields : fields.map Node.bare = fields'.map Node.bare) (h : DistinctMethods methods)
    (hperm : (methods.map Node.bare).Perm (methods'.map Node.bare)) :
    Agrees 0 0 ((setUp (steps fuel) a fields methods).outcome m)
      ((setUp (steps fuel) a fields' methods').outcome m) := by
  have hsame : fields.forM (executeField (steps fuel) a) =
      fields'.forM (executeField (steps fuel) a) := by
    rw [← executeFields_bare, hfields, executeFields_bare]
  have hkept := ends_iff_outcome.mp (bindsNoFunction_executeFields fuel a fields' m)
  unfold setUp
  rw [hsame, outcome_bind, outcome_bind]
  generalize (fields'.forM (executeField (steps fuel) a)).outcome m = e at hkept ⊢
  obtain ⟨fault | ⟨⟩, m₁⟩ := e
  · exact .error rfl
  · exact agrees_bindMethods hlevel (hm.fixesFunctions hkept) h hperm

/-- What follows when a program is set up is observed alike. -/
theorem observes_main (fuel : Nat) (a : Activation) :
    Observes 0 0 (callMain (steps fuel) a >>= reportMain (steps fuel) a)
      (callMain (steps fuel) a >>= reportMain (steps fuel) a) := by
  have hsteps := observe_steps (Nat.le_refl 0) fuel
  have ha : a.Related (Raised 0 0) a := .refl (fun _ => .inl rfl) a
  have hmain : Observes 0 0 (callMain (steps fuel) a) (callMain (steps fuel) a) :=
    (observing (Nat.le_refl 0)).relates_findMain ha fun f g hfg => hsteps.invoke _ [] ha hfg
  refine hmain.bind fun v => Observes.bind (hsteps.write v) fun shown => ?_
  refine (observes_noteAt (Nat.le_refl 0) ha (shows_pure _) ?_).bind fun _ => .pure v
  exact .inr ⟨_, rfl⟩

theorem source_of_bare {program : Node} {fields methods : List Node}
    (h : program.bare = .source fields methods) :
    ∃ fields' methods', program = .source fields' methods' ∧ fields'.map Node.bare = fields ∧
      methods'.map Node.bare = methods := by
  cases program with
  | source fields' methods' =>
    rw [Node.bare, Node.bareAll_eq_map, Node.bareAll_eq_map, Node.source.injEq] at h
    exact ⟨fields', methods', rfl, h.1, h.2⟩
  | _ => cases h

/-- At level 0 a program is set up, and then its main method is called. -/
theorem executeProgram_untraced (hlevel : a.level = 0) (fuel : Nat) (fields methods : List Node) :
    executeProgram (steps fuel) a (.source fields methods) =
      setUp (steps fuel) a fields methods >>= fun _ =>
        callMain (steps fuel) a >>= reportMain (steps fuel) a := by
  have hnote : noteAt a 1 (return "run source") = pure () := by
    rw [noteAt, hlevel]
    rfl
  rw [executeProgram_source, hnote]
  rfl

/-- A program whose methods have distinct names or arities runs the same way with its methods in any
order. It ends with the same result or fault, and prints the same. Slots do not matter. -/
theorem runWithin_of_reorders {program program' : Node} (h : program.bare.Reorders program'.bare)
    (hdistinct : program.HasDistinctMethods) (m : Machine) (parent : Option FrameId) (fuel : Nat) :
    ((m.addRoot parent 0).runWithin fuel program').1 =
        ((m.addRoot parent 0).runWithin fuel program).1 ∧
      ((m.addRoot parent 0).runWithin fuel program').2.console.output =
        ((m.addRoot parent 0).runWithin fuel program).2.console.output := by
  generalize hbare : program.bare = bare at h
  generalize hbare' : program'.bare = bare' at h
  cases h with
  | methods perm =>
  obtain ⟨fields, methods, rfl, hfields, rfl⟩ := source_of_bare hbare
  obtain ⟨fields', methods', rfl, hfields', rfl⟩ := source_of_bare hbare'
  have hsetUp : Agrees 0 0 _ _ := agrees_setUp (a := (m.addRoot parent 0).activation) rfl
    (bindsPrint_addRoot m parent 0) fuel (hfields.trans hfields'.symm) hdistinct perm
  have hends := hsetUp.bind fun _ => observes_main fuel (m.addRoot parent 0).activation
  rw [← executeProgram_untraced rfl, ← executeProgram_untraced rfl] at hends
  exact hends.same

end Programs

end BlockScript
