import BlockScript.CommandLine.Arguments
import BlockScript.Json.Reader
import BlockScript.Json.Writer
import BlockScript.Program
/-!
# Requests

One thing to do with one file. A request that fails in a stage says so and ends with status one;
a program that runs to its end sets the status itself. Other faults are passed on.
-/
namespace BlockScript.CommandLine

inductive Task where
  | emitTree | emitJava | check | runTree | runProgram
deriving DecidableEq, Repr

structure Request where
  task : Task
  path : String
  level : Nat
  checks : Bool
deriving DecidableEq, Repr

/-- Leaves out the parts of a path that mean the place where it is. -/
def normalizePath (path : String) : String :=
  let parts := (path.splitOn "/").filter fun part => part != "" && part != "."
  let start := path.toList.takeWhile (· == '/')
  let root := if start.length == 2 then "//" else if start.isEmpty then "" else "/"
  let whole := root ++ "/".intercalate parts
  if whole.isEmpty then "." else whole

def FileOption.task : FileOption → Task
  | emitTree => .emitTree
  | runTree => .runTree
  | emitJava => .emitJava
  | check => .check

/-- The request that arguments make. An option with an empty file counts as absent; then there
has to be a program. -/
def Arguments.request? (a : Arguments) : Option Request :=
  match a.file.filter (!·.2.isEmpty) with
  | some (option, path) => some ⟨option.task, normalizePath path, a.verbosity, !a.noCheck⟩
  | .none =>
    (a.program.filter (!·.isEmpty)).map fun path =>
      ⟨.runProgram, normalizePath path, a.verbosity, !a.noCheck⟩

def Request.ofArguments (arguments : List String) : Option Request :=
  (Arguments.ofList arguments).bind Arguments.request?

/-- What a request leaves: the status, the two outputs, the lines of the trace if one was kept,
and a file that was written. -/
structure Outcome where
  status : Int
  output : String
  errors : String
  trace : Option String
  written : Option (String × String)
deriving DecidableEq, Repr

/-- The outcome of arguments that are refused, but for the explanation. -/
def refusal : Outcome := ⟨2, "", "", none, none⟩

def lineFeeds : List Char → List Char
  | '\r' :: '\n' :: cs => '\n' :: lineFeeds cs
  | '\r' :: cs => '\n' :: lineFeeds cs
  | c :: cs => c :: lineFeeds cs
  | [] => []

def stageName? : Fault → Option String
  | .character _ | .parse .. => some "Parse"
  | .typing _ => some "Analysis"
  | .run _ => some "Runtime"
  | _ => none

def Outcome.ofFault (output : String) (trace : Option String) (fault : Fault) :
    Except Fault Outcome :=
  match stageName? fault, fault.message? with
  | some stage, some message =>
    .ok ⟨1, output, stage ++ " error: " ++ message ++ "\n", trace, none⟩
  | _, _ => .error fault

def treeOfText (text : String) : Except Fault Node :=
  match Json.ofText (some Text.digitLimit) text with
  | .ok j => treeOfJson j
  | .error .malformed => .error .notJson
  | .error .tooManyDigits => .error .tooManyDigits

/-- The status of a program that gave `v`, which has to be an integer. -/
def statusOf (v : Value) : Except Fault Int :=
  match v with
  | .integer n => .ok n
  | v => .error (.run (.mainReturned v.typeName))

namespace Request

def kept (r : Request) (trace : String) : Option String :=
  if r.level == 0 then none else some trace

def checked (r : Request) (program : Node) (next : Node → String → Except Fault Outcome) :
    Except Fault Outcome :=
  let (result, c) := (Checker.new r.level).check program
  match result with
  | .ok program => next program c.console.trace
  | .error fault => Outcome.ofFault c.console.output (r.kept c.console.trace) fault

def run (r : Request) (program : Node) : Except Fault Outcome :=
  let checker := if r.checks then some (Checker.new r.level) else none
  let report := checkAndRun checker (Machine.new r.level) program
  let trace := r.kept report.trace
  match report.result.bind statusOf with
  | .ok status => .ok ⟨status, report.output, "", trace, none⟩
  | .error fault => Outcome.ofFault report.output trace fault

def emitTree (r : Request) (program : Node) : Except Fault Outcome :=
  let name := r.path ++ ".ast.json"
  .ok ⟨0, name ++ "\n", "", none, some (name, program.toJson.indented)⟩

def emitJava (r : Request) (program : Node) : Except Fault Outcome :=
  r.checked program fun program trace => do
    return ⟨0, (← Java.program program) ++ "\n", "", r.kept trace, none⟩

def checkOnly (r : Request) (program : Node) : Except Fault Outcome :=
  r.checked program fun _ trace => .ok ⟨0, "", "", r.kept trace, none⟩

def performOn (r : Request) (text : String) : Except Fault Outcome :=
  let text := String.ofList (lineFeeds text.toList)
  let tree := if r.task == .runTree then treeOfText text else readProgram text
  match tree with
  | .error fault => Outcome.ofFault "" none fault
  | .ok program =>
    match r.task with
    | .emitTree => r.emitTree program
    | .emitJava => r.emitJava program
    | .check => r.checkOnly program
    | .runTree | .runProgram => r.run program

/-- Does what is asked for with the file, which may be missing. -/
def perform (r : Request) (content : Option String) : Except Fault Outcome :=
  match content with
  | some text => r.performOn text
  | none => .ok ⟨1, "", "Error: file " ++ r.path ++ " not found\n", none, none⟩

end Request
end BlockScript.CommandLine
