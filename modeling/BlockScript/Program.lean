import BlockScript.Java.Writer
import BlockScript.Evaluation.Program
import BlockScript.Typing.Program
/-!
# From text to result

The stages one after another: a text is read as a tree by one of the rules, the tree is checked,
and it is run or written as Java.
-/
namespace BlockScript

def tokensOf (text : String) : Except Fault (List Token) :=
  (scan text).mapError Fault.character

/-- What a rule reads from the tokens `ts`, of all tokens `all`, and the tokens after it. -/
def applyRule {α : Type} {k : Nat} (rule : (ts : List Token) → Parse α k ts.length)
    (all ts : List Token) : Except Fault α × List Token :=
  match (rule ts).outcome with
  | (.ok a, rest) => (.ok a, rest)
  | (.error fault, rest) => (.error (.ofParse all rest fault), rest)

def readAs {α : Type} {k : Nat} (rule : (ts : List Token) → Parse α k ts.length)
    (text : String) : Except Fault α := do
  let tokens ← tokensOf text
  (applyRule rule tokens tokens).1

def readProgram (text : String) : Except Fault Node := readAs Rule.source text

def treeOfJson (j : Json) : Except Fault Node := (Node.ofJson j).mapError Fault.tree

/-- The JSON form of a value that is no tree: only absence has one. -/
def jsonOfValue (j : Json) : Except Fault Json :=
  match j with
  | .null => .ok .null
  | j => .error (.serialization j.kindName)

/-- What a run leaves: its result, what was printed, and the lines of the trace. -/
structure RunReport where
  result : Except Fault Value
  output : String
  trace : String

/-- Runs a tree on a machine, after the trace of what came before. -/
def Machine.report (m : Machine) (program : Node) (trace : String) : RunReport :=
  let (result, m) := m.run program
  ⟨result, m.console.output, trace ++ m.console.trace⟩

/-- Checks a tree if there is a checker, and runs it if it passes. -/
def checkAndRun (checker : Option Checker) (m : Machine) (program : Node) : RunReport :=
  match checker with
  | none => m.report program ""
  | some c =>
    match c.check program with
    | (.ok program, c) => m.report program c.console.trace
    | (.error fault, c) => ⟨.error fault, c.console.output, c.console.trace⟩

/-- Reads, checks and runs a program; the checking may be left out. -/
def runText (text : String) (check : Bool) (calls : Nat := callLimit) : Except Fault Value := do
  let program ← readProgram text
  (checkAndRun (if check then some (Checker.new 0) else none) (Machine.new 0 calls) program).result

end BlockScript
