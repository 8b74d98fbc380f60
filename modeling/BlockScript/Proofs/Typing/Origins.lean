import BlockScript.Host
import BlockScript.Proofs.Evaluation.History
import BlockScript.Proofs.Scope
import Mathlib.Data.List.Infix
/-!
# Where variables, functions and nil come from

The record of a run of a checked program tells by which field, declaration or call a variable was
made and of which call it is, which method a call has reached, and what may have brought nil to a
place where it is not expected.
-/
namespace BlockScript

/-- A program as checking leaves it: the scopes that are filled then, and the tree with its slots.
-/
structure CheckedProgram where
  scopes : Scopes StaticVariable StaticFunction
  tree : Node

namespace CheckedProgram

def fields (K : CheckedProgram) : List Node := K.tree.members.1

def methods (K : CheckedProgram) : List Node := K.tree.members.2

end CheckedProgram

section Functions

/-- The function runs the statements of the method at the place `index`, whose slot holds `f`. -/
structure Function.Follows (K : CheckedProgram) (index : Nat) (parameters : List String)
    (statements : List Node) (f : StaticFunction) (g : Function) : Prop where
  written : ∃ types returnType,
    K.methods[index]? = some (.method f.name parameters types returnType statements (some f))
  body : ∃ level, g.body = some (.method 0 level f.name parameters statements)

/-- The function is the one that checking knows as `f`: it prints, or it is the method whose slot
holds `f`. -/
inductive Function.Implements (K : CheckedProgram) (g : Function) : StaticFunction → Prop where
  | print (body : g.body = some .print) : Implements K g .print
  | method {index : Nat} {parameters : List String} {statements : List Node} {f : StaticFunction}
      (follows : g.Follows K index parameters statements f) : Implements K g f

/-- The function `f` is called: by the expression that is being evaluated, whose slot holds `f`, or
as the `main` of the program. -/
inductive Asked (events : List Event) (signature : Signature) (f : StaticFunction) : Prop where
  | main (top : innermost? .expression events = none) (entry : signature = ⟨"main", 0⟩) :
      Asked events signature f
  | call {a : Activation} {arguments : List Node} {type : Option StaticType} {m : Machine}
      (now : innermost? .expression events =
        some (.evaluating a (.call .absent signature.name arguments type (some f)) m))
      (arity : signature.arity = arguments.length) : Asked events signature f

end Functions

section Variables

/-- The nodes are part of the method that the innermost call under way runs, or of a field if no
call is under way. -/
inductive Inside (K : CheckedProgram) (events : List Event) (part : List Node) : Prop where
  | field {field : Node} (top : innermost? .call events = none) (mem : field ∈ K.fields)
      (sub : part ⊆ field.preorder) : Inside K events part
  | method {a : Activation} {signature : Signature} {g : Function} {values : List Value}
      {m : Machine} {index : Nat} {parameters : List String} {statements : List Node}
      {f : StaticFunction} (live : innermost? .call events = some (.invoking a signature g values m))
      (follows : g.Follows K index parameters statements f)
      (sub : part ⊆ Node.preorderAll statements) : Inside K events part

/-- After these events the frame `home` gets the variable that checking knows as `x`: the field with
`x` in its slot is bound before anything is called, the declaration with `x` in its slot is executed
in that frame, or a call has begun whose frame it is, and `x` is one of the parameters. -/
inductive Made (K : CheckedProgram) (events : List Event) (home : FrameId) (x : StaticVariable) :
    Prop where
  | field {typeName : Option String} {value : Node} (top : innermost? .call events = none)
      (mem : .field x.name typeName x.constant value (some x) ∈ K.fields) (here : home = 0) :
      Made K events home x
  | declaration {a : Activation} {typeName : Option String} {value : Node} {m : Machine}
      (now : innermost? .statement events =
        some (.executing a (.declaration x.name typeName value (some x)) m))
      (here : home = a.scope) (inner : 0 < home) : Made K events home x
  | parameter {a : Activation} {signature : Signature} {g : Function} {values : List Value}
      {m m' : Machine} {earlier : List Event} {index : Nat} {parameters : List String}
      {statements : List Node} {f : StaticFunction}
      (now : events = .moved m' :: .invoking a signature g values m :: earlier)
      (follows : g.Follows K index parameters statements f) (mem : x.name ∈ parameters)
      (own : (K.scopes.children 0)[index]? = some x.home) (here : home = m.scopes.next)
      (inner : 0 < home) : Made K events home x

/-- The variable of the frame `home` that checking knows as `x` was made in the course of the
events, and the frame did not bind its name before. -/
def Created (K : CheckedProgram) (events : List Event) (home : FrameId) (x : StaticVariable) : Prop :=
  ∃ later m before, events = later ++ .moved m :: before ∧
    m.scopes.bindsVariable home x.name = true ∧
    (∀ e ∈ before, e.machine.scopes.bindsVariable home x.name = false) ∧ Made K before home x

/-- The variable that the name means in the frame is the one that checking knows as `x`, and it is
bound in the frame of the program or in the innermost call under way. -/
def Resolves (K : CheckedProgram) (events : List Event) (m : Machine) (scope : FrameId)
    (name : String) (x : StaticVariable) : Prop :=
  x.name = name ∧ ∃ home v, m.scopes.findVariable? scope name = some (home, v) ∧
    Created K events home x ∧
    (home = 0 ∨ ∃ call, innermost? .call events = some call ∧
      m.scopes.Under call.machine.scopes.next home)

/-- After these events, what happens agrees with what checking has resolved. A name that is used or
assigned to stands in the method or field that is under way and means the variable in its slot. A
call reaches the function in its slot, and nothing else is called but `main`. -/
structure Event.Resolved (K : CheckedProgram) (events : List Event) (e : Event) : Prop where
  used : ∀ a name type bound v m, e = .evaluated a (.access .absent name type bound) v m →
    Inside K events [.access .absent name type bound] ∧
      ∃ x, bound = some x ∧ Resolves K events m a.scope name x
  assigned : ∀ a name type bound value m,
    e = .executed a (.assign (.access .absent name type bound) value) none m →
      Inside K events [.access .absent name type bound] ∧
        ∃ x, bound = some x ∧ Resolves K events m a.scope name x
  asked : ∀ a signature g values m, e = .invoking a signature g values m →
    ∃ f, g.Implements K f ∧ Asked events signature f
  answered : ∀ a name arguments type callee v m,
    e = .evaluated a (.call .absent name arguments type callee) v m →
      ∃ f g values m' earlier, callee = some f ∧ g.Implements K f ∧
        events = .invoked a ⟨name, arguments.length⟩ g values v m' :: earlier

end Variables

section Nil

/-- The latest event brings nil to a variable that is given no value, or as the result of a method
that should return something else and has not returned. -/
inductive NilOrigin (K : CheckedProgram) : List Event → Prop where
  | field {name : String} {typeName : Option String} {constant : Bool}
      {slot : Option StaticVariable} {e : Event} {events : List Event}
      (mem : .field name typeName constant .absent slot ∈ K.fields)
      (bound : e.machine.scopes.bindsVariable 0 name = true) : NilOrigin K (e :: events)
  | declaration {a : Activation} {name : String} {typeName : Option String}
      {slot : Option StaticVariable} {m : Machine} {events : List Event} :
      NilOrigin K (.executing a (.declaration name typeName .absent slot) m :: events)
  | method {a : Activation} {signature : Signature} {g : Function} {values : List Value} {v : Value}
      {m : Machine} {events : List Event} {index : Nat} {parameters : List String}
      {statements : List Node} {f : StaticFunction}
      (follows : g.Follows K index parameters statements f) (notNil : f.returnType ≠ .nil)
      (notAny : f.returnType ≠ .any) (unreturned : Unreturned events) :
      NilOrigin K (.invoked a signature g values v m :: events)

/-- In the course of the events nil has been brought to a place where it is not expected. -/
def Nilled (K : CheckedProgram) (events : List Event) : Prop :=
  ∃ before, before <:+ events ∧ NilOrigin K before

end Nil

section Lemmas

variable {K : CheckedProgram} {events events' : List Event} {e : Event} {home : FrameId}
  {x : StaticVariable} {part part' : List Node}

theorem Created.cons (h : Created K events home x) (e : Event) : Created K (e :: events) home x := by
  obtain ⟨later, m, before, rfl, hrest⟩ := h
  exact ⟨e :: later, m, before, rfl, hrest⟩

theorem NilOrigin.nilled (h : NilOrigin K events) : Nilled K events := ⟨events, List.suffix_rfl, h⟩

theorem Nilled.mono (h : Nilled K events) (hs : events <:+ events') : Nilled K events' := by
  obtain ⟨before, hbefore, horigin⟩ := h
  exact ⟨before, hbefore.trans hs, horigin⟩

theorem Nilled.cons (h : Nilled K events) (e : Event) : Nilled K (e :: events) :=
  h.mono (List.suffix_cons e events)

/-- A declaration without a value that is being executed has brought nil. -/
theorem nilled_of_declaration {a : Activation} {name : String} {typeName : Option String}
    {slot : Option StaticVariable} {m : Machine}
    (h : innermost? .statement events =
      some (.executing a (.declaration name typeName .absent slot) m)) : Nilled K events := by
  obtain ⟨later, before, rfl⟩ := split_of_pending? h
  exact ⟨_, List.suffix_append later _, .declaration⟩

/-- Whether the latest event may bring nil: a declaration without a value begins, or a call has
ended and no statement has returned just before. -/
def mayBringNil : List Event → Bool
  | .executing _ (.declaration _ _ .absent _) _ :: _ => true
  | .invoked .. :: .executed _ _ (some _) _ :: _ => false
  | .invoked .. :: _ => true
  | _ => false

/-- A record in which nothing may bring nil. -/
theorem not_nilled_of_tails
    (hfields : ∀ name typeName constant slot,
      .field name typeName constant .absent slot ∉ K.fields)
    (h : ∀ before ∈ events.tails, mayBringNil before = false) : ¬Nilled K events := by
  rintro ⟨before, hbefore, horigin⟩
  have hno := h before ((List.mem_tails before events).mpr hbefore)
  cases horigin with
  | field mem bound => exact hfields _ _ _ _ mem
  | declaration => cases hno
  | @method _ _ _ _ _ _ events _ _ _ _ follows notNil notAny unreturned =>
    rcases events with _ | ⟨e, events⟩
    · cases hno
    · cases e with
      | executed a node result m =>
        cases result with
        | none => cases hno
        | some v => exact unreturned _ _ _ _ rfl
      | _ => cases hno

end Lemmas
end BlockScript
