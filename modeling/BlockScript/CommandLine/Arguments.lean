import BlockScript.Text.DecimalDigit
/-!
# Command line arguments

What is asked for on the command line: a level of tracing, whether to check, at most one option
that names a file and says what to do with it, and at most one program to run. Long options may
be shortened as long as one option is meant, and a value may follow its option after an equals
sign or as the next argument.
-/
namespace BlockScript.CommandLine

/-- The options that name a file. They exclude each other. -/
inductive FileOption where
  | emitTree | runTree | emitJava | check
deriving DecidableEq, Repr

inductive OptionName where
  | verbose
  | noCheck
  | file (option : FileOption)
deriving DecidableEq, Repr

def longOptions : List (String × OptionName) :=
  [("--no-check", .noCheck), ("--emit-ast", .file .emitTree), ("--ast", .file .runTree),
    ("--emit-java", .file .emitJava), ("--check", .file .check)]

def exactOptions : List (String × OptionName) := ("-v", .verbose) :: longOptions

/-- How an argument is taken: as a value, as an option with or without a value of its own, or not
at all. -/
inductive Word where
  | value (text : String)
  | option (name : OptionName) (own : Option (List Char))
  | refused
deriving DecidableEq, Repr

def splitEquals (cs : List Char) : List Char × Option (List Char) :=
  match cs.dropWhile (· != '=') with
  | '=' :: rest => (cs.takeWhile (· != '='), some rest)
  | _ => (cs, none)

def isNegativeNumber : List Char → Bool
  | '-' :: cs =>
    let isDigit := fun c => (Text.digitValue? c).isSome
    match cs.dropWhile isDigit with
    | [] => !cs.isEmpty
    | '.' :: rest => !rest.isEmpty && rest.all isDigit
    | _ => false
  | _ => false

def shortened (start : List Char) : List OptionName :=
  (longOptions.filter fun o => start.isPrefixOf o.1.toList).map Prod.snd

/-- The meaning of an argument that begins with a dash and is not spelled as an option. -/
def takeUnknown (text : String) : Word :=
  let cs := text.toList
  if isNegativeNumber cs || cs.contains ' ' then .value text else .refused

def takeWord (text : String) : Word :=
  match exactOptions.lookup text with
  | some name => .option name none
  | none =>
    match text.toList with
    | '-' :: second :: rest =>
      let (start, own) := splitEquals ('-' :: second :: rest)
      match own.bind fun _ => exactOptions.lookup (String.ofList start) with
      | some .verbose => .refused
      | some name => .option name own
      | none =>
        if second == '-' then
          match shortened start with
          | [name] => .option name own
          | [] => takeUnknown text
          | _ => .refused
        else if second == 'v' then .option .verbose (some rest)
        else takeUnknown text
    | _ => .value text

structure Arguments where
  verbosity : Nat
  noCheck : Bool
  file : Option (FileOption × String)
  program : Option String
deriving DecidableEq, Repr

namespace Arguments

def none : Arguments := ⟨0, false, .none, .none⟩

def setProgram (a : Arguments) (text : String) : Option Arguments :=
  if a.program.isSome then .none else some { a with program := some text }

/-- Takes an option that names a file; it may be given again but excludes the others. -/
def setFile (a : Arguments) (option : FileOption) (text : String) : Option Arguments :=
  match a.file with
  | some (other, _) =>
    if other == option then some { a with file := some (option, text) } else .none
  | .none => some { a with file := some (option, text) }

/-- Takes an option without a value. After the letter of the verbose one there may be more of
the same. -/
def setFlag (a : Arguments) (name : OptionName) (own : Option (List Char)) : Option Arguments :=
  match name, own with
  | .verbose, .none => some { a with verbosity := a.verbosity + 1 }
  | .verbose, some more =>
    if more.all (· == 'v') then some { a with verbosity := a.verbosity + 1 + more.length }
    else .none
  | .noCheck, .none => some { a with noCheck := true }
  | _, _ => .none

/-- Takes the arguments one by one. Everything after a double dash is a program. `settled` holds
when an option came after the program; then there may be no double dash any more. -/
def take (settled : Bool) (a : Arguments) : List String → Option Arguments
  | [] => some a
  | text :: rest =>
    if text == "--" then if settled then .none else rest.foldlM setProgram a
    else
      match takeWord text with
      | .value text => (a.setProgram text).bind (take settled · rest)
      | .refused => .none
      | .option (.file option) (some own) =>
        (a.setFile option (String.ofList own)).bind (take a.program.isSome · rest)
      | .option (.file option) .none =>
        match rest with
        | next :: rest =>
          if next == "--" then .none
          else
            match takeWord next with
            | .value text => (a.setFile option text).bind (take a.program.isSome · rest)
            | _ => .none
        | [] => .none
      | .option name own => (a.setFlag name own).bind (take a.program.isSome · rest)

def ofList (arguments : List String) : Option Arguments := take false Arguments.none arguments

end Arguments
end BlockScript.CommandLine
