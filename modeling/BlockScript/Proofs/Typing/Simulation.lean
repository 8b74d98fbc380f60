import BlockScript.Proofs.Typing.Operators
import BlockScript.Proofs.Typing.Origins
/-!
# Frames of a run and frames of checking

The frames of a running program are described by frames of the same shape that bind static variables
and static functions instead of values and bodies. Each of them is an instance of a frame that
checking has made, and there are as many instances as there are calls, branches and rounds of loops.
The description of a run only grows, so it describes all that has happened before.
-/
namespace BlockScript

def Variable.Fits (v : Variable) (x : StaticVariable) : Prop :=
  v.constant = x.constant ∧ x.type.Admits v.value

/-- The variable is constant if it should be, and its value is one of its type. If that should not
be nil but is, then `nilled`. -/
def Variable.Holds (nilled : Prop) (v : Variable) (x : StaticVariable) : Prop :=
  v.constant = x.constant ∧ x.type.Holds nilled v.value

theorem Variable.Holds.fits {nilled : Prop} {v : Variable} {x : StaticVariable}
    (h : v.Holds nilled x) : v.Fits x := ⟨h.1, h.2.admits⟩

/-- The function prints, or it is a method that is well typed where `Γ` is seen. There are methods
only when the program is `ready`. -/
inductive Function.Fits (K : CheckedProgram) (Γ : StaticView) (ready : Prop) :
    Function → StaticFunction → Prop where
  | print {javaName : String} : Fits K Γ ready ⟨javaName, some .print⟩ .print
  | method {javaName : String} {level index : Nat} {parameters : List String}
      {types : List (Option String)} {returnType : Option String} {statements : List Node}
      {f : StaticFunction} (prepared : ready)
      (written : K.methods[index]? =
        some (.method f.name parameters types returnType statements (some f)))
      (typed : MethodTyped K.scopes Γ index parameters statements f) :
      Fits K Γ ready ⟨javaName, some (.method 0 level f.name parameters statements)⟩ f

/-- All variables of the frame are bound by one frame of checking. All functions are functions of
the program. -/
structure Frame.InstanceOf (C : Scopes StaticVariable StaticFunction)
    (fr : Frame StaticVariable StaticFunction) : Prop where
  bound : ∀ b ∈ fr.boundVariables, b.2.name = b.1 ∧ C.Binds b.2.home b.1 b.2
  together : ∀ b ∈ fr.boundVariables, ∀ b' ∈ fr.boundVariables, b.2.home = b'.2.home
  signed : ∀ b ∈ fr.boundFunctions, b.2.signature = b.1 ∧ C.BindsFunction 0 b.1 b.2

/-- All frames are instances of frames of checking, and the first is an instance of the first. -/
structure Instances (C W : Scopes StaticVariable StaticFunction) : Prop where
  instanceOf : ∀ (i : FrameId) (fr : Frame StaticVariable StaticFunction),
    W.frames[i]? = some fr → fr.InstanceOf C
  first : ∀ fr, W.frames[0]? = some fr → ∀ b ∈ fr.boundVariables, b.2.home = 0

/-- A variable that is added to the first frame has that frame as its home. Nothing is added to it
when the program is ready. -/
def Placed (ready : Prop) (scope : FrameId) (x : StaticVariable) : Prop :=
  0 < scope ∨ ¬ready ∧ x.home = 0

namespace Instances

variable {C W : Scopes StaticVariable StaticFunction}

theorem addFrame (h : Instances C W) (parent : Option FrameId) :
    Instances C (W.addFrame parent) := by
  constructor
  · intro i fr hfr
    rw [Scopes.getElem?_addFrame] at hfr
    split at hfr
    · cases hfr
      constructor <;> simp
    · exact h.instanceOf i fr hfr
  · intro fr hfr
    rw [Scopes.getElem?_addFrame] at hfr
    split at hfr
    · cases hfr
      simp
    · exact h.first fr hfr

theorem addVariable (h : Instances C W) {ready : Prop} {scope : FrameId}
    {vars : List (String × StaticVariable)} {funs : List (Signature × StaticFunction)}
    {Γ : StaticView} {v : StaticVariable} (hs : W.Sees scope ((vars, funs) :: Γ))
    (hv : Fresh C vars v) (hplaced : Placed ready scope v) :
    Instances C (W.addVariable scope v.name v) := by
  unfold Scopes.addVariable
  constructor
  · intro i fr hfr
    rw [Scopes.getElem?_update] at hfr
    split at hfr
    · next hi =>
      subst hi
      obtain ⟨old, hold, rfl⟩ := Option.map_eq_some_iff.mp hfr
      obtain ⟨hbound, htogether, hsigned⟩ := h.instanceOf scope old hold
      obtain rfl : old.boundVariables = vars := hs.boundVariables_eq hold
      refine ⟨?_, ?_, hsigned⟩
      · intro b hb
        rcases List.mem_append.mp hb with hb | hb
        · exact hbound b hb
        · cases List.mem_singleton.mp hb
          exact ⟨rfl, hv.bound⟩
      · intro b hb b' hb'
        rcases List.mem_append.mp hb with hb | hb <;> rcases List.mem_append.mp hb' with hb' | hb'
        · exact htogether b hb b' hb'
        · cases List.mem_singleton.mp hb'
          exact hv.together b hb
        · cases List.mem_singleton.mp hb
          exact (hv.together b' hb').symm
        · cases List.mem_singleton.mp hb
          cases List.mem_singleton.mp hb'
          rfl
    · exact h.instanceOf i fr hfr
  · intro fr hfr b hb
    rw [Scopes.getElem?_update] at hfr
    split at hfr
    · next hi =>
      obtain ⟨old, hold, rfl⟩ := Option.map_eq_some_iff.mp hfr
      rcases List.mem_append.mp hb with hb | hb
      · exact h.first old hold b hb
      · cases List.mem_singleton.mp hb
        rcases hplaced with hpos | ⟨-, hhome⟩
        · exact absurd hi (Nat.ne_of_gt hpos)
        · exact hhome
    · exact h.first fr hfr b hb

theorem addFunction (h : Instances C W) (scope : FrameId) {f : StaticFunction}
    (hf : C.BindsFunction 0 f.signature f) : Instances C (W.addFunction scope f.signature f) := by
  unfold Scopes.addFunction
  constructor
  · intro i fr hfr
    rw [Scopes.getElem?_update] at hfr
    split at hfr
    · obtain ⟨old, hold, rfl⟩ := Option.map_eq_some_iff.mp hfr
      obtain ⟨hbound, htogether, hsigned⟩ := h.instanceOf i old hold
      refine ⟨hbound, htogether, fun b hb => ?_⟩
      rcases List.mem_append.mp hb with hb | hb
      · exact hsigned b hb
      · cases List.mem_singleton.mp hb
        exact ⟨rfl, hf⟩
    · exact h.instanceOf i fr hfr
  · intro fr hfr b hb
    rw [Scopes.getElem?_update] at hfr
    split at hfr
    · obtain ⟨old, hold, rfl⟩ := Option.map_eq_some_iff.mp hfr
      exact h.first old hold b hb
    · exact h.first fr hfr b hb

end Instances

/-- Each variable of the machine is described by `W` and fits what is described. -/
def Machine.TypedBy (W : Scopes StaticVariable StaticFunction) (m : Machine) : Prop :=
  ∀ (i : FrameId) (name : String) (v : Variable), m.scopes.Binds i name v →
    ∃ x, W.Binds i name x ∧ v.Fits x

def Node.type? : Node → Option StaticType
  | .literal _ type => type
  | .group _ type => type
  | .binary _ _ _ type => type
  | .access _ _ type _ => type
  | .call _ _ _ type _ => type
  | _ => none

def Machine.Means (W : Scopes StaticVariable StaticFunction) (m : Machine) (scope : FrameId)
    (name : String) (x : StaticVariable) : Prop :=
  ∃ home v, m.scopes.findVariable? scope name = some (home, v) ∧ W.Binds home name x

/-- All variables are as they are described. An expression has a value of the type in its slot;
arguments and results have the types of the function that the program binds. The variable in the
slot of a name that is used or assigned to is the one that the name means, and that in the slot of a
declaration has been added. -/
structure Event.TypedBy (C W : Scopes StaticVariable StaticFunction) (e : Event) : Prop where
  machine : e.machine.TypedBy W
  value : ∀ a node v m, e = .evaluated a node v m → ∃ t, node.type? = some t ∧ t.Admits v
  passed : ∀ a signature g values m, e = .invoking a signature g values m →
    ∃ f, C.BindsFunction 0 signature f ∧ List.Forall₂ StaticType.Admits f.parameterTypes values
  returned : ∀ a signature g values v m, e = .invoked a signature g values v m →
    ∃ f, C.BindsFunction 0 signature f ∧ f.returnType.Admits v
  used : ∀ a name type x v m, e = .evaluated a (.access .absent name type (some x)) v m →
    m.Means W a.scope name x
  assigned : ∀ a name type x value m,
    e = .executed a (.assign (.access .absent name type (some x)) value) none m →
      m.Means W a.scope name x
  declared : ∀ a name typeName value x m,
    e = .executed a (.declaration name typeName value (some x)) none m → W.Binds a.scope name x

def Event.Silent : Event → Prop
  | evaluated .. => False
  | invoking .. => False
  | invoked .. => False
  | executed .. => False
  | _ => True

section Growth

variable {C W W' : Scopes StaticVariable StaticFunction}

theorem Machine.TypedBy.mono {m : Machine} (h : m.TypedBy W) (hW : W.Grows W') :
    m.TypedBy W' := by
  intro i name v hb
  obtain ⟨x, hx, hv⟩ := h i name v hb
  exact ⟨x, Scopes.Grows.binds hW hx, hv⟩

theorem Machine.Means.mono {m : Machine} {scope : FrameId} {name : String} {x : StaticVariable}
    (h : m.Means W scope name x) (hW : W.Grows W') : m.Means W' scope name x := by
  obtain ⟨home, v, hv, hb⟩ := h
  exact ⟨home, v, hv, Scopes.Grows.binds hW hb⟩

theorem Event.TypedBy.mono {e : Event} (h : e.TypedBy C W) (hW : W.Grows W') : e.TypedBy C W' where
  machine := h.machine.mono hW
  value := h.value
  passed := h.passed
  returned := h.returned
  used a name type x v m he := (h.used a name type x v m he).mono hW
  assigned a name type x value m he := (h.assigned a name type x value m he).mono hW
  declared a name typeName value x m he :=
    Scopes.Grows.binds hW (h.declared a name typeName value x m he)

end Growth

/-- The frames `W` are instances of the frames of checking and account for all events. -/
structure Accounts (C W : Scopes StaticVariable StaticFunction) (events : List Event) : Prop where
  instances : Instances C W
  events : ∀ e ∈ events, e.TypedBy C W

/-- An expression of a type to which nil does not belong has not become nil, unless nil has been
brought somewhere before. -/
def Event.Definite (K : CheckedProgram) (events : List Event) (e : Event) : Prop :=
  ∀ a node v m t, e = .evaluated a node v m → node.type? = some t → t.isDefinite = true →
    v = .nil → Nilled K events

/-- The frames of a running program have the shape of the frames `W` and hold what they say. If a
variable is nil that should not be, then `nilled`. -/
structure Matches (K : CheckedProgram) (Γ : StaticView) (ready nilled : Prop)
    (W : Scopes StaticVariable StaticFunction) (s : Scopes Variable Function) : Prop where
  related : s.Related (Variable.Holds nilled) (Function.Fits K Γ ready) W
  instances : Instances K.scopes W

/-- The frames `W` describe the frames of a running program. When the program is ready, all that a
method sees is bound in the frame of the program. -/
structure Describes (K : CheckedProgram) (Γ : StaticView) (ready nilled : Prop)
    (W : Scopes StaticVariable StaticFunction) (s : Scopes Variable Function) : Prop
    extends Matches K Γ ready nilled W s where
  root : ready → W.Sees 0 Γ

variable {K : CheckedProgram} {Γ : StaticView} {ready nilled nilled' : Prop}
  {W W' : Scopes StaticVariable StaticFunction} {s : Scopes Variable Function}

theorem Function.Fits.implements {g : Function} {f : StaticFunction} (h : g.Fits K Γ ready f) :
    g.Implements K f := by
  cases h with
  | print => exact .print rfl
  | method prepared written typed => exact .method ⟨⟨_, _, written⟩, _, rfl⟩

namespace Matches

theorem mono (h : Matches K Γ ready nilled W s) (hn : nilled → nilled') :
    Matches K Γ ready nilled' W s :=
  ⟨h.related.mono (fun _ _ hv => ⟨hv.1, hv.2.mono hn⟩) fun _ _ => id, h.instances⟩

theorem typedBy {m : Machine} (h : Matches K Γ ready nilled W m.scopes) : m.TypedBy W := by
  rintro i name v ⟨fr, hfr, hv⟩
  obtain ⟨fr', hfr', hrel⟩ := h.related.getElem? hfr
  obtain ⟨hl, -⟩ | ⟨v', x, hl, hx, hholds⟩ := rel_cases (hrel.vars.lookup name)
  · cases hl.symm.trans hv
  · cases hl.symm.trans hv
    exact ⟨x, ⟨fr', hfr', hx⟩, hholds.fits⟩

theorem typedBy_silent {e : Event} (h : Matches K Γ ready nilled W e.machine.scopes)
    (hs : e.Silent) : e.TypedBy K.scopes W := by
  refine ⟨h.typedBy, ?_, ?_, ?_, ?_, ?_, ?_⟩ <;>
    (intros; subst_vars; exact hs.elim)

end Matches

namespace Describes

theorem mono (h : Describes K Γ ready nilled W s) (hn : nilled → nilled') :
    Describes K Γ ready nilled' W s := ⟨h.toMatches.mono hn, h.root⟩

theorem findVariable (h : Describes K Γ ready nilled W s) {scope : FrameId} {Δ : StaticView}
    {name : String} {x : StaticVariable} (hs : W.Sees scope Δ) (hx : Δ.findVariable name = some x) :
    ∃ home v, s.findVariable? scope name = some (home, v) ∧ W.Binds home name x ∧
      v.Holds nilled x := by
  have hW := hs.findVariable? name
  obtain ⟨-, hnone⟩ | ⟨⟨home, v⟩, ⟨home', x'⟩, hv, hx', hhome, hholds⟩ :=
    rel_cases (h.related.findVariable? scope name)
  · rw [hnone, hx] at hW
    cases hW
  · rw [hx', hx] at hW
    cases hW
    obtain rfl : home = home' := hhome
    obtain ⟨fr, hfr, hpick⟩ := Scopes.nearest?_eq_some hx'
    exact ⟨home, v, hv, ⟨fr, hfr, hpick⟩, hholds⟩

theorem findFunction (h : Describes K Γ ready nilled W s) {scope : FrameId} {Δ : StaticView}
    {signature : Signature} {f : StaticFunction} (hs : W.Sees scope Δ)
    (hf : Δ.findFunction signature = some f) :
    ∃ home g, s.findFunction? scope signature = some (home, g) ∧ g.Fits K Γ ready f ∧
      f.signature = signature ∧ K.scopes.BindsFunction 0 signature f := by
  have hW := hs.findFunction? signature
  obtain ⟨-, hnone⟩ | ⟨⟨home, g⟩, ⟨home', f'⟩, hg, hf', -, hfits⟩ :=
    rel_cases (h.related.findFunction? scope signature)
  · rw [hnone, hf] at hW
    cases hW
  · rw [hf', hf] at hW
    cases hW
    obtain ⟨fr, hfr, hpick⟩ := Scopes.nearest?_eq_some hf'
    exact ⟨home, g, hg, hfits, (h.instances.instanceOf home' fr hfr).signed _ (mem_of_lookup hpick)⟩

theorem addFrame (h : Describes K Γ ready nilled W s) (parent : Option FrameId) :
    Describes K Γ ready nilled (W.addFrame parent) (s.addFrame parent) :=
  ⟨⟨h.related.addFrame parent, h.instances.addFrame parent⟩,
    fun hready => (h.root hready).keeps (Scopes.keeps_addFrame _ _)⟩

theorem addVariable (h : Describes K Γ ready nilled W s) {scope : FrameId}
    {vars : List (String × StaticVariable)} {funs : List (Signature × StaticFunction)}
    {Δ : StaticView} {x : StaticVariable} {v : Variable} (hs : W.Sees scope ((vars, funs) :: Δ))
    (hx : Fresh K.scopes vars x) (hv : v.Holds nilled x) (hplaced : Placed ready scope x) :
    Describes K Γ ready nilled (W.addVariable scope x.name x) (s.addVariable scope x.name v) := by
  refine ⟨⟨h.related.addVariable scope x.name hv, h.instances.addVariable hs hx hplaced⟩, ?_⟩
  intro hready
  rcases hplaced with hpos | ⟨hno, -⟩
  · exact (h.root hready).keepsBut_of_lt (Scopes.keepsBut_update _ _ _ _) hpos
  · exact absurd hready hno

theorem setVariable (h : Describes K Γ ready nilled W s) {home : FrameId} {name : String}
    {x : StaticVariable} {v : Variable} (hx : W.Binds home name x) (hv : v.Holds nilled x) :
    Describes K Γ ready nilled W (s.setVariable home name v) := by
  refine ⟨⟨h.related.setVariable ?_ hv, h.instances⟩, h.root⟩
  intro fr hfr
  obtain ⟨fr', hfr', hpick⟩ := hx
  cases hfr.symm.trans hfr'
  exact hpick

end Describes

end BlockScript
