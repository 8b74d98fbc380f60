import BlockScript.Host
import BlockScript.Proofs.Typing.Reordering
/-!
# Checkers that are set up

Whatever surroundings a checker is given, everything in them is bound at home, and objects have
their members in frames that are there.
-/
namespace BlockScript

open Check

section Surroundings

variable {c d : Checker} {scope : FrameId}

theorem AtHome.mono {base base' : Nat} {s : Scopes StaticVariable StaticFunction}
    (h : AtHome base s) (hle : base ≤ base') : AtHome base' s := by
  have hwithin (t : StaticType) (ht : t.Within base) : t.Within base' :=
    fun members hmembers => Nat.lt_of_lt_of_le (ht members hmembers) hle
  exact Scopes.All.mono h (fun _ _ v hv => ⟨hv.1, hwithin v.type hv.2⟩) fun _ f hf =>
    hwithin f.returnType hf

/-- Everything is bound at home, and objects have their members in frames that are there. -/
def Checker.Grounded (c : Checker) : Prop := AtHome c.scopes.next c.scopes

/-- From the checker `c` the step succeeds with everything at home still, or it fails. -/
def Grounds {α : Type} (x : Check α) (c : Checker) (Q : α → Checker → Prop) : Prop :=
  Ends x c (fun a d => d.Grounded ∧ c.scopes.next ≤ d.scopes.next ∧ Q a d) fun _ _ => True

theorem Grounds.bind {α β : Type} {x : Check α} {f : α → Check β} {Q : α → Checker → Prop}
    {R : β → Checker → Prop} (h : Grounds x c Q)
    (hf : ∀ a d, d.Grounded → c.scopes.next ≤ d.scopes.next → Q a d → Grounds (f a) d R) :
    Grounds (x >>= f) c R := by
  refine ends_bind.mpr (Ends.imp h (fun a d hd => ?_) fun _ _ => id)
  refine Ends.imp (hf a d hd.1 hd.2.1 hd.2.2) (fun b e he => ?_) fun _ _ => id
  exact ⟨he.1, Nat.le_trans hd.2.1 he.2.1, he.2.2⟩

theorem grounds_pure {α : Type} {a : α} {Q : α → Checker → Prop} (h : c.Grounded) (ha : Q a c) :
    Grounds (pure a) c Q := ⟨h, Nat.le_refl _, ha⟩

theorem grounds_newFrame (h : c.Grounded) (parent : Option FrameId) :
    Grounds (newFrame parent) c fun i d => i < d.scopes.next := by
  have hnext : (c.scopes.addFrame parent).next = c.scopes.next + 1 := Scopes.next_addFrame _ _
  have hle : c.scopes.next ≤ (c.scopes.addFrame parent).next := by
    rw [hnext]
    exact Nat.le_succ _
  have hlt : c.scopes.next < (c.scopes.addFrame parent).next := by
    rw [hnext]
    exact Nat.lt_succ_self _
  exact ⟨(AtHome.mono h hle).addFrame parent, hle, hlt⟩

theorem grounds_defineVariable (h : c.Grounded) {v : StaticVariable}
    (ht : v.type.Within c.scopes.next) : Grounds (defineVariable v) c fun _ _ => True := by
  refine ends_bind.mpr (ends_get.mpr ?_)
  split
  · trivial
  · have hnext : (c.scopes.addVariable v.home v.name v).next = c.scopes.next :=
      Scopes.next_update _ _ _ _
    refine ⟨?_, Nat.le_of_eq hnext.symm, trivial⟩
    show AtHome (c.scopes.addVariable v.home v.name v).next (c.scopes.addVariable v.home v.name v)
    rw [hnext]
    exact Scopes.All.addVariable h ⟨rfl, ht⟩

theorem grounds_defineFunction (h : c.Grounded) {f : StaticFunction}
    (ht : f.returnType.Within c.scopes.next) : Grounds (defineFunction scope f) c fun _ _ => True := by
  refine ends_bind.mpr (ends_get.mpr ?_)
  split
  · trivial
  · have hnext : (c.scopes.addFunction scope f.signature f).next = c.scopes.next :=
      Scopes.next_update _ _ _ _
    refine ⟨?_, Nat.le_of_eq hnext.symm, trivial⟩
    show AtHome (c.scopes.addFunction scope f.signature f).next
      (c.scopes.addFunction scope f.signature f)
    rw [hnext]
    exact Scopes.All.addFunction h scope ht

theorem grounds_lift {α : Type} (h : c.Grounded) (r : Except TypeFault α) :
    Grounds (lift r) c fun a _ => r = .ok a := by
  cases r with
  | ok a => exact grounds_pure h rfl
  | error fault => exact trivial

theorem grounds_checkFields (h : c.Grounded) (hscope : scope < c.scopes.next)
    (fields : List Node) : Grounds (fields.mapM (checkField scope)) c fun _ _ => True := by
  unfold Grounds Ends
  cases hrun : fields.mapM (checkField scope) c with
  | error fault d => trivial
  | ok fields' d =>
    obtain ⟨hd, hle, -⟩ := checkedFields_of_ok h hscope hrun
    exact ⟨hd.mono hle, hle, trivial⟩

theorem grounds_declareMethods (h : c.Grounded) (hscope : scope < c.scopes.next)
    (methods : List Node) : Grounds (methods.mapM (declareMethod scope)) c fun _ _ => True := by
  refine Ends.imp (ends_declareMethods hscope methods) ?_ fun _ _ _ => trivial
  rintro out d ⟨-, -, hd⟩
  have hnext : d.scopes.next = c.scopes.next := by
    rw [hd, Scopes.addFunctions, Scopes.next_update]
  refine ⟨?_, Nat.le_of_eq hnext.symm, trivial⟩
  unfold Checker.Grounded
  rw [hnext, hd]
  exact h.addFunctions fun b hb => within_of_mem_declaredFunctions hb

theorem grounds_checkMembers (h : c.Grounded) (members : Node) :
    Grounds (checkMembers members) c fun i d => i < d.scopes.next := by
  refine (grounds_newFrame h none).bind fun frame d hd _ hframe => ?_
  refine (grounds_checkFields hd hframe _).bind fun _ e he hle _ => ?_
  have hframe' : frame < e.scopes.next := Nat.lt_of_lt_of_le hframe hle
  refine (grounds_declareMethods he hframe' _).bind fun _ e' he' hle' _ => ?_
  exact grounds_pure he' (Nat.lt_of_lt_of_le hframe' hle')

theorem grounds_declare (h : c.Grounded) (hscope : scope < c.scopes.next) (entry : HostEntry) :
    Grounds (entry.declare scope) c fun _ _ => True := by
  cases entry with
  | binding name javaName constant typeName value =>
    refine (grounds_lift h (typeNamed typeName)).bind fun t d hd _ ht => ?_
    exact grounds_defineVariable hd ((memberless_of_typeNamed ht).within _)
  | object name javaName constant typeName typeJavaName members =>
    refine (grounds_checkMembers h members).bind fun frame d hd _ hframe => ?_
    refine grounds_defineVariable hd fun members hmembers => ?_
    cases hmembers
    exact hframe
  | methods program =>
    exact (grounds_declareMethods h hscope _).bind fun _ d hd _ _ => grounds_pure hd trivial
  | function name javaName parameterTypes returnType act =>
    refine (grounds_lift h (parameterTypes.mapM typeNamed)).bind fun types d hd _ _ => ?_
    refine (grounds_lift hd (typeNamed returnType)).bind fun t d' hd' _ ht => ?_
    exact grounds_defineFunction hd' ((memberless_of_typeNamed ht).within _)

theorem grounds_entries (h : c.Grounded) (hscope : scope < c.scopes.next)
    (entries : List HostEntry) :
    Grounds (entries.forM (HostEntry.declare scope)) c fun _ _ => True := by
  induction entries generalizing c with
  | nil => exact grounds_pure h trivial
  | cons entry entries ih =>
    refine (grounds_declare h hscope entry).bind fun _ d hd hle _ => ?_
    exact ih hd (Nat.lt_of_lt_of_le hscope hle)

end Surroundings

/-- The checkers with which a program can be checked: without surroundings, inside of what entries
bind, or inside of what there is already. -/
inductive Checker.SetUp : Checker → Prop
  | new (level : Nat) : SetUp (.new level)
  | inside {c : Checker} {entries : List HostEntry} {level : Nat}
      (made : Checker.empty.inside entries level = .ok c) : SetUp c
  | under {c : Checker} (outer : SetUp c) (parent : Option FrameId) (level : Nat) :
      SetUp (c.addRoot parent level)

theorem Checker.grounded_empty : Checker.empty.Grounded := Scopes.all_empty

theorem Checker.next_addRoot (c : Checker) (parent : Option FrameId) (level : Nat) :
    (c.addRoot parent level).scopes.next = c.scopes.next + 1 := by
  rw [addRoot, Scopes.addFunction, Scopes.next_update, Scopes.next_addFrame]

theorem Checker.Grounded.atHome_addRoot {c : Checker} (h : c.Grounded) (parent : Option FrameId)
    (level : Nat) : AtHome c.scopes.next (c.addRoot parent level).scopes :=
  (Scopes.All.addFrame h parent).addFunction _ (StaticType.Memberless.within (by rfl) _)

theorem Checker.Grounded.addRoot {c : Checker} (h : c.Grounded) (parent : Option FrameId)
    (level : Nat) : (c.addRoot parent level).Grounded ∧
      (c.addRoot parent level).root < (c.addRoot parent level).scopes.next := by
  have hnext := c.next_addRoot parent level
  refine ⟨(h.atHome_addRoot parent level).mono ?_, ?_⟩
  · rw [hnext]
    exact Nat.le_succ _
  · rw [hnext]
    exact Nat.lt_succ_self _

/-- Everything is at home in a checker that is set up, and the frame of the program is there. -/
theorem Checker.SetUp.grounded {c : Checker} (h : c.SetUp) :
    c.Grounded ∧ c.root < c.scopes.next := by
  induction h with
  | new level => exact grounded_empty.addRoot none level
  | @inside c entries level made =>
    have hentries : Grounds (do
        let frame ← Check.newFrame none
        entries.forM (HostEntry.declare frame)
        return frame) Checker.empty fun _ _ => True :=
      (grounds_newFrame grounded_empty none).bind fun frame d hd _ hframe =>
        (grounds_entries hd hframe entries).bind fun _ e he _ _ => grounds_pure he trivial
    unfold Checker.inside Check.outcome at made
    unfold Grounds Ends at hentries
    split at hentries
    · next frame d hrun =>
      rw [hrun] at made
      cases made
      exact hentries.1.addRoot (some frame) level
    · next fault d hrun =>
      rw [hrun] at made
      cases made
  | under outer parent level ih => exact ih.1.addRoot parent level

end BlockScript
