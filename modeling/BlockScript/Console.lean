/-!
# Output and trace

What a program prints, and the trace of its checking and running. While the trace is open its
lines go there with the name of the stage in front; later they are printed. Texts, here as everywhere,
are of Unicode scalar values: halves of surrogate pairs that stand alone are left out, and so are
streams and files that cannot encode a text.
-/
namespace BlockScript

inductive Stage where
  | checking | running
deriving DecidableEq, Repr

def Stage.name : Stage → String
  | checking => "analyzer"
  | running => "interpreter"

/-- What was printed, the trace, and whether the trace is still kept. -/
structure Console where
  output : String
  trace : String
  isOpen : Bool
deriving Repr, Inhabited

namespace Console

def empty : Console := ⟨"", "", true⟩

def printLine (c : Console) (line : String) : Console :=
  { c with output := c.output ++ line ++ "\n" }

def note (c : Console) (stage : Stage) (line : String) : Console :=
  if c.isOpen then { c with trace := c.trace ++ stage.name ++ ": " ++ line ++ "\n" }
  else c.printLine line

def close (c : Console) : Console := { c with isOpen := false }

end Console
end BlockScript
