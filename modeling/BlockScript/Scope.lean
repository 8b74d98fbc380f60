/-!
# Scopes

A tree of frames. A frame binds variables by name and functions by name and arity, each at most
once, in the order of definition; a name that a frame does not bind is looked up in its parent.
Checking and running a program work on the same tree with different things bound in it.
-/
namespace BlockScript

structure Signature where
  name : String
  arity : Int
deriving DecidableEq, Repr, Inhabited

def Signature.toText (s : Signature) : String := s.name ++ "/" ++ toString s.arity

def Signature.display (s : Signature) : String := "<function " ++ s.toText ++ ">"

def displayVariable (name : String) : String := "<variable " ++ name ++ ">"

inductive ScopeFault where
  | variableDefined (name : String)
  | functionDefined (signature : Signature)
  | unboundVariable (name : String)
  | unboundFunction (signature : Signature)
  | noImplementation (signature : Signature)
deriving DecidableEq, Repr

def ScopeFault.message : ScopeFault → String
  | variableDefined name => "variable " ++ name ++ " already defined in this scope"
  | functionDefined signature => "function " ++ signature.toText ++ " already defined in this scope"
  | unboundVariable name => "undefined variable " ++ name
  | unboundFunction signature => "undefined function " ++ signature.toText
  | noImplementation signature => "function " ++ signature.toText ++ " has no implementation"

/-- Frames are numbered in the order in which they are made. -/
abbrev FrameId := Nat

structure Frame (V F : Type) where
  parent : Option FrameId
  boundVariables : List (String × V)
  boundFunctions : List (Signature × F)
deriving Inhabited

/-- A tree of frames. A parent is older than its children. -/
structure Scopes (V F : Type) where
  frames : Array (Frame V F)
  parent_lt : ∀ (i : Nat) (h : i < frames.size) (p : Nat), frames[i].parent = some p → p < i

namespace Scopes

variable {V F α : Type}

def empty : Scopes V F := ⟨#[], fun _ h => absurd h (Nat.not_lt_zero _)⟩

instance : Inhabited (Scopes V F) := ⟨empty⟩

def next (s : Scopes V F) : FrameId := s.frames.size

def addFrame (s : Scopes V F) (parent : Option FrameId) : Scopes V F :=
  ⟨s.frames.push ⟨parent.filter (· < s.frames.size), [], []⟩, by
    intro i h p hp
    rw [Array.getElem_push] at hp
    split at hp
    case isTrue lt => exact s.parent_lt i lt p hp
    case isFalse nlt =>
      have older : p < s.frames.size := by
        simpa using (Option.filter_eq_some_iff.mp hp).2
      rw [Array.size_push] at h
      omega⟩

def update (s : Scopes V F) (id : FrameId) (f : Frame V F → Frame V F)
    (keeps : ∀ frame, (f frame).parent = frame.parent) : Scopes V F :=
  ⟨s.frames.modify id f, by
    intro i h p hp
    rw [Array.getElem_modify] at hp
    split at hp
    · rw [keeps] at hp
      exact s.parent_lt i (by simpa using h) p hp
    · exact s.parent_lt i (by simpa using h) p hp⟩

/-- The nearest frame on the way from `id` to the root for which `pick` gives something, and
what it gives. -/
def nearest? (s : Scopes V F) (pick : Frame V F → Option α) (id : FrameId) :
    Option (FrameId × α) :=
  if h : id < s.frames.size then
    match pick s.frames[id] with
    | some a => some (id, a)
    | none =>
      match hp : s.frames[id].parent with
      | some p => nearest? s pick p
      | none => none
  else none
termination_by id
decreasing_by exact s.parent_lt id h p hp

def findVariable? (s : Scopes V F) (id : FrameId) (name : String) : Option (FrameId × V) :=
  s.nearest? (·.boundVariables.lookup name) id

def findFunction? (s : Scopes V F) (id : FrameId) (signature : Signature) : Option (FrameId × F) :=
  s.nearest? (·.boundFunctions.lookup signature) id

def getVariable (s : Scopes V F) (id : FrameId) (name : String) :
    Except ScopeFault (FrameId × V) :=
  match s.findVariable? id name with
  | some found => .ok found
  | none => .error (.unboundVariable name)

def getFunction (s : Scopes V F) (id : FrameId) (signature : Signature) :
    Except ScopeFault (FrameId × F) :=
  match s.findFunction? id signature with
  | some found => .ok found
  | none => .error (.unboundFunction signature)

def bindsVariable (s : Scopes V F) (id : FrameId) (name : String) : Bool :=
  s.frames[id]?.any fun frame => (frame.boundVariables.lookup name).isSome

def bindsFunction (s : Scopes V F) (id : FrameId) (signature : Signature) : Bool :=
  s.frames[id]?.any fun frame => (frame.boundFunctions.lookup signature).isSome

def addVariable (s : Scopes V F) (id : FrameId) (name : String) (v : V) : Scopes V F :=
  s.update id (fun frame => { frame with boundVariables := frame.boundVariables ++ [(name, v)] })
    fun _ => rfl

def addFunction (s : Scopes V F) (id : FrameId) (signature : Signature) (f : F) : Scopes V F :=
  s.update id (fun frame => { frame with boundFunctions := frame.boundFunctions ++ [(signature, f)] })
    fun _ => rfl

/-- Replaces what the first binding of `name` holds. -/
def rebind (name : String) (v : V) : List (String × V) → List (String × V)
  | [] => []
  | (n, w) :: rest => if n == name then (n, v) :: rest else (n, w) :: rebind name v rest

def setVariable (s : Scopes V F) (id : FrameId) (name : String) (v : V) : Scopes V F :=
  s.update id (fun frame => { frame with boundVariables := rebind name v frame.boundVariables })
    fun _ => rfl

def defineVariable (s : Scopes V F) (id : FrameId) (name : String) (v : V) :
    Except ScopeFault (Scopes V F) :=
  if s.bindsVariable id name then .error (.variableDefined name)
  else .ok (s.addVariable id name v)

def defineFunction (s : Scopes V F) (id : FrameId) (signature : Signature) (f : F) :
    Except ScopeFault (Scopes V F) :=
  if s.bindsFunction id signature then .error (.functionDefined signature)
  else .ok (s.addFunction id signature f)

end Scopes
end BlockScript
