import BlockScript.Typing.Operators
/-!
# The spelling of logical operators

Two logical operators have a word and a sign. In words, trees that differ in nothing but that choice
are the same, and so are the faults that name an operator.
-/
namespace BlockScript

/-- The word for a logical operator; other operators stay. -/
def inWords (operator : String) : String :=
  if operator == "&&" then "AND" else if operator == "||" then "OR" else operator

section Operators

/-- Only signs have other words. -/
theorem inWords_cases (operator : String) :
    operator = "&&" ∧ inWords operator = "AND" ∨ operator = "||" ∧ inWords operator = "OR" ∨
      inWords operator = operator := by
  unfold inWords
  by_cases hand : operator = "&&"
  · exact .inl ⟨hand, by rw [hand]; rfl⟩
  · rw [if_neg (by simpa using hand)]
    by_cases hor : operator = "||"
    · exact .inr (.inl ⟨hor, by rw [hor]; rfl⟩)
    · rw [if_neg (by simpa using hor)]
      exact .inr (.inr rfl)

theorem inWords_inWords (operator : String) : inWords (inWords operator) = inWords operator := by
  obtain ⟨-, h⟩ | ⟨-, h⟩ | h := inWords_cases operator <;> rw [h]
  · rfl
  · rfl
  · exact h

theorem conjunctions_inWords (operator : String) :
    conjunctions.contains (inWords operator) = conjunctions.contains operator := by
  obtain ⟨rfl, h⟩ | ⟨rfl, h⟩ | h := inWords_cases operator <;> rw [h] <;> rfl

theorem disjunctions_inWords (operator : String) :
    disjunctions.contains (inWords operator) = disjunctions.contains operator := by
  obtain ⟨rfl, h⟩ | ⟨rfl, h⟩ | h := inWords_cases operator <;> rw [h] <;> rfl

/-- An operator that is not logical is in words as it is. -/
theorem inWords_of_other {operator : String} (hand : conjunctions.contains operator = false)
    (hor : disjunctions.contains operator = false) : inWords operator = operator := by
  obtain ⟨rfl, -⟩ | ⟨rfl, -⟩ | h := inWords_cases operator
  · cases hand
  · cases hor
  · exact h

end Operators

namespace Node

mutual

def inWords : Node → Node
  | absent => absent
  | source fields methods => source (inWordsAll fields) (inWordsAll methods)
  | field name typeName constant value bound => field name typeName constant value.inWords bound
  | method name parameters parameterTypes returnType statements callee =>
    method name parameters parameterTypes returnType (inWordsAll statements) callee
  | exprStmt expression => exprStmt expression.inWords
  | declaration name typeName value bound => declaration name typeName value.inWords bound
  | assign receiver value => assign receiver.inWords value.inWords
  | ifStmt condition thens elses => ifStmt condition.inWords (inWordsAll thens) (inWordsAll elses)
  | forStmt initialization condition increment statements =>
    forStmt initialization.inWords condition.inWords increment.inWords (inWordsAll statements)
  | whileStmt condition statements => whileStmt condition.inWords (inWordsAll statements)
  | returnStmt value => returnStmt value.inWords
  | literal value type => literal value type
  | group expression type => group expression.inWords type
  | binary operator left right type =>
    binary (BlockScript.inWords operator) left.inWords right.inWords type
  | access receiver name type bound => access receiver.inWords name type bound
  | call receiver name arguments type callee =>
    call receiver.inWords name (inWordsAll arguments) type callee

def inWordsAll : List Node → List Node
  | [] => []
  | node :: rest => node.inWords :: inWordsAll rest

end

theorem inWordsAll_eq_map (nodes : List Node) : inWordsAll nodes = nodes.map inWords := by
  induction nodes with
  | nil => rfl
  | cons node rest ih => rw [inWordsAll, ih, List.map_cons]

mutual

/-- A tree in words stays as it is. -/
theorem inWords_inWords (node : Node) : node.inWords.inWords = node.inWords := by
  match node with
  | absent | literal _ _ => rfl
  | source fields methods =>
    simp only [inWords, inWordsAll_inWordsAll fields, inWordsAll_inWordsAll methods]
  | field _ _ _ value _ | declaration _ _ value _ => simp only [inWords, inWords_inWords value]
  | method _ _ _ _ statements _ => simp only [inWords, inWordsAll_inWordsAll statements]
  | exprStmt inner | returnStmt inner | group inner _ => simp only [inWords, inWords_inWords inner]
  | assign receiver value =>
    simp only [inWords, inWords_inWords receiver, inWords_inWords value]
  | ifStmt condition thens elses =>
    simp only [inWords, inWords_inWords condition, inWordsAll_inWordsAll thens,
      inWordsAll_inWordsAll elses]
  | forStmt initialization condition increment statements =>
    simp only [inWords, inWords_inWords initialization, inWords_inWords condition,
      inWords_inWords increment, inWordsAll_inWordsAll statements]
  | whileStmt condition statements =>
    simp only [inWords, inWords_inWords condition, inWordsAll_inWordsAll statements]
  | binary operator left right _ =>
    simp only [inWords, BlockScript.inWords_inWords operator, inWords_inWords left,
      inWords_inWords right]
  | access receiver _ _ _ => simp only [inWords, inWords_inWords receiver]
  | call receiver _ arguments _ _ =>
    simp only [inWords, inWords_inWords receiver, inWordsAll_inWordsAll arguments]

theorem inWordsAll_inWordsAll (nodes : List Node) :
    inWordsAll (inWordsAll nodes) = inWordsAll nodes := by
  match nodes with
  | [] => rfl
  | node :: rest => simp only [inWordsAll, inWords_inWords node, inWordsAll_inWordsAll rest]

end

@[simp] theorem isAbsent_inWords (node : Node) : node.inWords.isAbsent = node.isAbsent := by
  cases node <;> rfl

@[simp] theorem isEmpty_inWordsAll (nodes : List Node) :
    (inWordsAll nodes).isEmpty = nodes.isEmpty := by
  cases nodes <;> rfl

end Node

section Faults

def TypeFault.inWords : TypeFault → TypeFault
  | booleanOperands operator left right => booleanOperands (BlockScript.inWords operator) left right
  | fault => fault

def RunFault.inWords : RunFault → RunFault
  | condition construct typeName => condition (BlockScript.inWords construct) typeName
  | fault => fault

/-- The fault with a logical operator that it names in words. -/
def Fault.inWords : Fault → Fault
  | typing fault => typing fault.inWords
  | run fault => run fault.inWords
  | fault => fault

end Faults

end BlockScript
