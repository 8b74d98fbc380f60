import BlockScript.CommandLine.Request
/-!
# The command

Reads the file that is asked for, does the request, and writes what it leaves.
-/
namespace BlockScript

open CommandLine

def usage : String :=
  "usage: endive [-v] [--no-check] " ++
    "[--emit-ast FILE | --ast FILE | --emit-java FILE | --check FILE] [program]"

def readFile? (path : String) : IO (Option String) := do
  try
    return some (← IO.FS.readFile path)
  catch _ => return none

def appendFile (path text : String) : IO Unit := do
  let handle ← IO.FS.Handle.mk path .append
  handle.putStr text

/-- Writes what a request leaves and gives its exit status. -/
def deliver (outcome : Outcome) : IO UInt32 := do
  IO.print outcome.output
  IO.eprint outcome.errors
  if let some trace := outcome.trace then appendFile "debug.txt" trace
  if let some (name, text) := outcome.written then IO.FS.writeFile name text
  return (outcome.status % 256).toNat.toUInt32

end BlockScript

open BlockScript CommandLine in
def main (arguments : List String) : IO UInt32 := do
  match Request.ofArguments arguments with
  | none =>
    IO.eprintln usage
    deliver refusal
  | some request =>
    match request.perform (← readFile? request.path) with
    | .ok outcome => deliver outcome
    | .error fault =>
      IO.eprintln (fault.message?.getD "the input cannot be worked on")
      return 1
