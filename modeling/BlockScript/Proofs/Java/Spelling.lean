import BlockScript.Java.Writer
import BlockScript.Proofs.Tree.Spelling
/-!
# Java has one spelling

Both spellings of a logical operator are written as its sign, so that trees that differ in nothing
but the spelling have the same Java text.
-/
namespace BlockScript.Java

/-- Java has only the signs. -/
theorem operator_inWords (s : String) : operator (inWords s) = operator s := by
  obtain ⟨rfl, h⟩ | ⟨rfl, h⟩ | h := inWords_cases s <;> rw [h] <;> rfl

mutual

/-- A tree is written the same in words. -/
theorem write_inWords (node : Node) : write node.inWords = write node := by
  match node with
  | .absent => simp only [Node.inWords]
  | .source fields methods =>
    simp only [Node.inWords, write, Node.isEmpty_inWordsAll, writeLines_inWords fields,
      writeMethods_inWords methods]
  | .field _ _ _ value _ | .declaration _ _ value _ =>
    simp only [Node.inWords, write, Node.isAbsent_inWords, write_inWords value]
  | .method _ _ _ _ statements _ =>
    simp only [Node.inWords, write, writeBlock_inWords statements]
  | .exprStmt inner | .returnStmt inner | .group inner _ =>
    simp only [Node.inWords, write, Node.isAbsent_inWords, write_inWords inner]
  | .assign left right =>
    simp only [Node.inWords, write, Node.isAbsent_inWords, write_inWords left, write_inWords right]
  | .ifStmt condition thens elses =>
    simp only [Node.inWords, write, Node.isAbsent_inWords, Node.isEmpty_inWordsAll,
      write_inWords condition, writeBlock_inWords thens, writeBlock_inWords elses]
  | .forStmt initialization condition increment statements =>
    simp only [Node.inWords, write, Node.isAbsent_inWords, writeHeaderPart_inWords _ initialization,
      write_inWords condition, writeHeaderPart_inWords _ increment, writeBlock_inWords statements]
  | .whileStmt condition statements =>
    simp only [Node.inWords, write, Node.isAbsent_inWords, write_inWords condition,
      writeBlock_inWords statements]
  | .literal _ _ => simp only [Node.inWords]
  | .binary op left right _ =>
    simp only [Node.inWords, write, Node.isAbsent_inWords, operator_inWords, write_inWords left,
      write_inWords right]
  | .access receiver _ _ _ =>
    simp only [Node.inWords, write, Node.isAbsent_inWords, write_inWords receiver]
  | .call receiver _ arguments _ _ =>
    simp only [Node.inWords, write, Node.isAbsent_inWords, write_inWords receiver,
      writeArguments_inWords _ arguments]

theorem writeHeaderPart_inWords (before : String) (node : Node) :
    writeHeaderPart before node.inWords = writeHeaderPart before node := by
  match node with
  | .assign left right =>
    simp only [Node.inWords, writeHeaderPart, Node.isAbsent_inWords, write_inWords left,
      write_inWords right]
  | .absent | .source .. | .field .. | .method .. | .exprStmt .. | .declaration .. | .ifStmt ..
  | .forStmt .. | .whileStmt .. | .returnStmt .. | .literal .. | .group .. | .binary ..
  | .access .. | .call .. => simp only [Node.inWords, writeHeaderPart]

theorem writeLines_inWords (nodes : List Node) :
    writeLines (Node.inWordsAll nodes) = writeLines nodes := by
  match nodes with
  | [] => simp only [Node.inWordsAll]
  | node :: rest =>
    simp only [Node.inWordsAll, writeLines, write_inWords node, writeLines_inWords rest]

theorem writeMethods_inWords (nodes : List Node) :
    writeMethods (Node.inWordsAll nodes) = writeMethods nodes := by
  match nodes with
  | [] => simp only [Node.inWordsAll]
  | node :: rest =>
    simp only [Node.inWordsAll, writeMethods, write_inWords node, writeMethods_inWords rest]

theorem writeBlock_inWords (nodes : List Node) :
    writeBlock (Node.inWordsAll nodes) = writeBlock nodes := by
  match nodes with
  | [] => simp only [Node.inWordsAll]
  | node :: rest =>
    simp only [Node.inWordsAll, writeBlock, write_inWords node, writeLines_inWords rest]

theorem writeArguments_inWords (first : Bool) (nodes : List Node) :
    writeArguments first (Node.inWordsAll nodes) = writeArguments first nodes := by
  match nodes with
  | [] => simp only [Node.inWordsAll]
  | node :: rest =>
    simp only [Node.inWordsAll, writeArguments, Node.isAbsent_inWords, write_inWords node,
      writeArguments_inWords _ rest]

end

/-- Trees that differ in nothing but the spelling of logical operators have the same Java text. -/
theorem program_of_inWords {tree tree' : Node} (h : tree'.inWords = tree.inWords) :
    program tree' = program tree := by
  have hwords (node : Node) : program node.inWords = program node := by
    cases node with
    | source fields methods =>
      have hwrite := write_inWords (.source fields methods)
      simp only [Node.inWords] at hwrite
      simp only [Node.inWords, program, writeOn, hwrite]
    | _ => simp only [Node.inWords, program]
  rw [← hwords, h, hwords]

end BlockScript.Java
