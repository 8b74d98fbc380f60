import BlockScript.Fault
import BlockScript.Java.Escape
/-!
# Writing Java

A program becomes one class with its fields and methods and a start method that calls `main`.
Names and types are taken from the slots that checking has filled; an empty one stops the
writing, and what was written until then stays.
-/
namespace BlockScript.Java

/-- What has been written, and how deep the next line stands. Only a program inside another can
bring the depth below zero. -/
structure Page where
  text : String
  indent : Int
deriving Repr, Inhabited

abbrev Write := EStateM Fault Page

def put (s : String) : Write Unit := modify fun p => { p with text := p.text ++ s }

/-- Begins a line, four spaces deep for each level. -/
def newline (depth : Int) : Write Unit :=
  put (String.ofList ('\n' :: List.replicate (4 * depth.toNat) ' '))

def indentation : Write Int := return (← get).indent

def deeper : Write Unit := modify fun p => { p with indent := p.indent + 1 }

def shallower : Write Unit := modify fun p => { p with indent := p.indent - 1 }

def resolved {α : Type} (kind slot : String) : Option α → Write α
  | some a => pure a
  | none => throw (.unresolved kind slot)

def operator (s : String) : String :=
  if s == "AND" then "&&" else if s == "OR" then "||" else s

def parameters (types : List StaticType) (names : List String) : String :=
  ", ".intercalate ((types.zip names).map fun (t, name) => t.javaName ++ " " ++ name)

/-- What is written in the place of an absent part. -/
def absentWord : String := "None"

def openClass : Write Unit := do
  put "public class Main \x7b"
  newline 0
  modify fun p => { p with indent := 1 }

/-- The start method, which passes the result of `main` on as exit status. -/
def startMethod : Write Unit := do
  let depth ← indentation
  newline depth
  put "public static void main(String[] args) \x7b"
  newline (depth + 1)
  put "System.exit(new Main().main());"
  newline depth
  put "\x7d"
  newline 0

def closeClass : Write Unit := do
  modify fun p => { p with indent := 0 }
  put "\x7d"

mutual

/-- Writes a tree. A word stands in the place of an absent part of a statement or expression. -/
def write : Node → Write Unit
  | .source fields methods => do
    openClass
    if !fields.isEmpty then
      writeLines fields
      newline 0
    startMethod
    writeMethods methods
    closeClass
  | .field _ _ _ value bound => do
    let v ← resolved "Field" "variable" bound
    if v.constant then put "final "
    put (v.type.javaName ++ " " ++ v.javaName)
    if !value.isAbsent then
      put " = "
      write value
    put ";"
  | .method _ names _ _ statements callee => do
    let f ← resolved "Method" "function" callee
    put (f.returnType.javaName ++ " " ++ f.javaName ++ "(" ++ parameters f.parameterTypes names
      ++ ") ")
    writeBlock statements
  | .exprStmt expression => do
    if expression.isAbsent then put absentWord else write expression
    put ";"
  | .declaration _ _ value bound => do
    let v ← resolved "Declaration" "variable" bound
    put (v.type.javaName ++ " " ++ v.javaName)
    if !value.isAbsent then
      put " = "
      write value
    put ";"
  | .assign receiver value => do
    if receiver.isAbsent then put absentWord else write receiver
    put " = "
    if value.isAbsent then put absentWord else write value
    put ";"
  | .ifStmt condition thens elses => do
    put "if ("
    if condition.isAbsent then put absentWord else write condition
    put ") "
    writeBlock thens
    if !elses.isEmpty then
      put " else "
      writeBlock elses
  | .forStmt initialization condition increment statements => do
    put "for ("
    writeHeaderPart "" initialization
    put "; "
    if condition.isAbsent then put absentWord else write condition
    put ";"
    writeHeaderPart " " increment
    put ") "
    writeBlock statements
  | .whileStmt condition statements => do
    put "while ("
    if condition.isAbsent then put absentWord else write condition
    put ") "
    writeBlock statements
  | .returnStmt value => do
    put "return "
    if value.isAbsent then put absentWord else write value
    put ";"
  | .literal value _ =>
    match literal? value with
    | some s => put s
    | none => throw .tooManyDigits
  | .group expression _ => do
    put "("
    if expression.isAbsent then put absentWord else write expression
    put ")"
  | .binary op left right _ => do
    if left.isAbsent then put absentWord else write left
    put (" " ++ operator op ++ " ")
    if right.isAbsent then put absentWord else write right
  | .access receiver _ _ bound => do
    if !receiver.isAbsent then
      write receiver
      put "."
    let v ← resolved "Access" "variable" bound
    put v.javaName
  | .call receiver _ arguments _ callee => do
    if !receiver.isAbsent then
      write receiver
      put "."
    let f ← resolved "Call" "function" callee
    put (f.javaName ++ "(")
    writeArguments true arguments
    put ")"
  | .absent => throw (.unexpectedNode .writeJava Node.absent.kindPath)

def writeHeaderPart (before : String) : Node → Write Unit
  | .absent => pure ()
  | .assign receiver value => do
    put before
    if receiver.isAbsent then put absentWord else write receiver
    put " = "
    if value.isAbsent then put absentWord else write value
  | _ => throw .misplacedNode

def writeLines : List Node → Write Unit
  | [] => pure ()
  | node :: rest => do
    newline (← indentation)
    write node
    writeLines rest

/-- Writes methods on lines of their own, with an empty line after each. -/
def writeMethods : List Node → Write Unit
  | [] => pure ()
  | node :: rest => do
    newline (← indentation)
    write node
    newline 0
    writeMethods rest

/-- Writes statements in braces, one level deeper. -/
def writeBlock : List Node → Write Unit
  | [] => put "\x7b\x7d"
  | node :: rest => do
    put "\x7b"
    deeper
    newline (← indentation)
    write node
    writeLines rest
    shallower
    newline (← indentation)
    put "\x7d"

def writeArguments (first : Bool) : List Node → Write Unit
  | [] => pure ()
  | node :: rest => do
    if !first then put ", "
    if node.isAbsent then put absentWord else write node
    writeArguments false rest

end

/-- Writes a tree onto a page; what was written is kept when the writing stops. -/
def writeOn (p : Page) (node : Node) : Except Fault Unit × Page :=
  match write node p with
  | .ok _ p => (.ok (), p)
  | .error fault p => (.error fault, p)

def program (node : Node) : Except Fault String :=
  match node with
  | .source .. =>
    match writeOn ⟨"", 0⟩ node with
    | (.ok _, p) => .ok p.text
    | (.error fault, _) => .error fault
  | _ => .error .misplacedNode

end BlockScript.Java
