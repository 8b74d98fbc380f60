import BlockScript.Java.Writer
import BlockScript.Proofs.Java.Pieces
import BlockScript.Proofs.Tree.Outline
/-!
# Trees that are written line by line

What a tree has to hold so that only its texts stand between quotes in Java and only the writer
opens and closes brackets and begins lines. Its texts themselves have no part in this.
-/
namespace BlockScript.Java

/-- A character that begins no line and no literal and is no bracket. -/
def isInline (c : Char) : Bool :=
  isUnquoted c && !(['(', ')', '\x7b', '\x7d', '\n'].contains c)

abbrev Inline (s : String) : Prop := s.toList.all isInline = true

/-- A text that may also stand first on a line. -/
abbrev Word (s : String) : Prop := Inline s ∧ s.toList.head?.any (· != ' ') = true

theorem Inline.append {s s' : String} (h : Inline s) (h' : Inline s') : Inline (s ++ s') := by
  rw [Inline, String.toList_append, List.all_append, h, h', Bool.and_self]

theorem inline_intercalate {separator : String} {parts : List String}
    (hseparator : Inline separator) (h : ∀ s ∈ parts, Inline s) :
    Inline (separator.intercalate parts) := by
  induction parts with
  | nil => rfl
  | cons s parts ih =>
    obtain ⟨hs, hparts⟩ := List.forall_mem_cons.mp h
    cases parts with
    | nil => simpa using hs
    | cons s' parts =>
      rw [String.intercalate_cons_cons]
      exact (hs.append hseparator).append (ih hparts)

theorem inline_parameters {types : List StaticType} {names : List String}
    (htypes : ∀ t ∈ types, Inline t.javaName) (hnames : ∀ name ∈ names, Inline name) :
    Inline (parameters types names) := by
  refine inline_intercalate (by decide) (List.forall_mem_map.mpr fun (t, name) hmem => ?_)
  obtain ⟨ht, hname⟩ := List.of_mem_zip hmem
  exact ((htypes t ht).append (by decide)).append (hnames name hname)

/-- What stands in Java for a value is a word, unless it stands between quotes. -/
def InlineLiteral (value : Literal) : Prop :=
  value.text? = none → ∃ s, literal? value = some s ∧ Word s

theorem inlineLiteral_outline (value : Literal) :
    InlineLiteral value.outline ↔ InlineLiteral value := by
  cases value <;> simp [InlineLiteral, Literal.outline, Literal.text?]

mutual

def InlineExpression : Node → Prop
  | .absent => True
  | .literal value _ => InlineLiteral value
  | .group expression _ => InlineExpression expression
  | .binary op left right _ =>
    Inline (operator op) ∧ InlineExpression left ∧ InlineExpression right
  | .access receiver _ _ bound =>
    InlineExpression receiver ∧ ∃ v, bound = some v ∧ Word v.javaName
  | .call receiver _ arguments _ callee =>
    InlineExpression receiver ∧ InlineExpressions arguments ∧ ∃ f, callee = some f ∧ Word f.javaName
  | _ => False

def InlineExpressions : List Node → Prop
  | [] => True
  | node :: rest => InlineExpression node ∧ InlineExpressions rest

end

def InlineHeader : Node → Prop
  | .absent => True
  | .assign receiver value => InlineExpression receiver ∧ InlineExpression value
  | _ => False

def InlineVariable (bound : Option StaticVariable) : Prop :=
  ∃ v, bound = some v ∧ Word v.type.javaName ∧ Inline v.javaName

mutual

/-- A statement, field or method, which begins on a line of its own. -/
def InLines : Node → Prop
  | .exprStmt expression => InlineExpression expression
  | .field _ _ _ value bound | .declaration _ _ value bound =>
    InlineExpression value ∧ InlineVariable bound
  | .assign receiver value => InlineExpression receiver ∧ InlineExpression value
  | .ifStmt condition thens elses =>
    InlineExpression condition ∧ AllInLines thens ∧ AllInLines elses
  | .forStmt initialization condition increment statements =>
    InlineHeader initialization ∧ InlineExpression condition ∧ InlineHeader increment ∧
      AllInLines statements
  | .whileStmt condition statements => InlineExpression condition ∧ AllInLines statements
  | .returnStmt value => InlineExpression value
  | .method _ names _ _ statements callee =>
    AllInLines statements ∧ (∀ name ∈ names, Inline name) ∧
      ∃ f, callee = some f ∧ Word f.returnType.javaName ∧ Inline f.javaName ∧
        ∀ t ∈ f.parameterTypes, Inline t.javaName
  | _ => False

def AllInLines : List Node → Prop
  | [] => True
  | node :: rest => InLines node ∧ AllInLines rest

end

def ProgramInLines : Node → Prop
  | .source fields methods => AllInLines fields ∧ AllInLines methods
  | _ => False

theorem inlineExpressions_iff {nodes : List Node} :
    InlineExpressions nodes ↔ ∀ node ∈ nodes, InlineExpression node := by
  induction nodes with
  | nil => simp [InlineExpressions]
  | cons node rest ih => rw [InlineExpressions, ih, List.forall_mem_cons]

theorem allInLines_iff {nodes : List Node} :
    AllInLines nodes ↔ ∀ node ∈ nodes, InLines node := by
  induction nodes with
  | nil => simp [AllInLines]
  | cons node rest ih => rw [AllInLines, ih, List.forall_mem_cons]

section Outline

mutual

theorem inlineExpression_outline (node : Node) :
    InlineExpression node.outline ↔ InlineExpression node := by
  match node with
  | .absent => rfl
  | .literal value _ => exact inlineLiteral_outline value
  | .group expression _ =>
    simp only [Node.outline, InlineExpression, inlineExpression_outline expression]
  | .binary op left right _ =>
    simp only [Node.outline, InlineExpression, inlineExpression_outline left,
      inlineExpression_outline right]
  | .access receiver _ _ _ =>
    simp only [Node.outline, InlineExpression, inlineExpression_outline receiver]
  | .call receiver _ arguments _ _ =>
    simp only [Node.outline, InlineExpression, inlineExpression_outline receiver,
      inlineExpressions_outline arguments]
  | .source .. | .field .. | .method .. | .exprStmt .. | .declaration .. | .assign .. | .ifStmt ..
  | .forStmt .. | .whileStmt .. | .returnStmt .. => simp only [Node.outline, InlineExpression]

theorem inlineExpressions_outline (nodes : List Node) :
    InlineExpressions (Node.outlineAll nodes) ↔ InlineExpressions nodes := by
  match nodes with
  | [] => rfl
  | node :: rest =>
    simp only [Node.outlineAll, InlineExpressions, inlineExpression_outline node,
      inlineExpressions_outline rest]

end

theorem inlineHeader_outline (node : Node) : InlineHeader node.outline ↔ InlineHeader node := by
  cases node <;> simp only [Node.outline, InlineHeader, inlineExpression_outline]

mutual

theorem inLines_outline (node : Node) : InLines node.outline ↔ InLines node := by
  match node with
  | .exprStmt _ | .field .. | .declaration .. | .assign _ _ | .returnStmt _ =>
    simp only [Node.outline, InLines, inlineExpression_outline]
  | .ifStmt _ thens elses =>
    simp only [Node.outline, InLines, inlineExpression_outline, allInLines_outline thens,
      allInLines_outline elses]
  | .forStmt _ _ _ statements =>
    simp only [Node.outline, InLines, inlineExpression_outline, inlineHeader_outline,
      allInLines_outline statements]
  | .whileStmt _ statements =>
    simp only [Node.outline, InLines, inlineExpression_outline, allInLines_outline statements]
  | .method _ _ _ _ statements _ =>
    simp only [Node.outline, InLines, allInLines_outline statements]
  | .absent | .source .. | .literal .. | .group .. | .binary .. | .access .. | .call .. =>
    simp only [Node.outline, InLines]

theorem allInLines_outline (nodes : List Node) :
    AllInLines (Node.outlineAll nodes) ↔ AllInLines nodes := by
  match nodes with
  | [] => rfl
  | node :: rest =>
    simp only [Node.outlineAll, AllInLines, inLines_outline node, allInLines_outline rest]

end

theorem programInLines_outline (node : Node) :
    ProgramInLines node.outline ↔ ProgramInLines node := by
  cases node <;> simp only [Node.outline, ProgramInLines, allInLines_outline]

/-- Whether a tree is written line by line does not depend on its texts. -/
theorem ProgramInLines.of_outline {tree tree' : Node} (h : ProgramInLines tree)
    (houtline : tree'.outline = tree.outline) : ProgramInLines tree' := by
  rwa [← programInLines_outline, houtline, programInLines_outline]

end Outline

end BlockScript.Java
