import BlockScript.Reading
import BlockScript.Token.Escape
import BlockScript.Token.Scan
import BlockScript.Tree.Basic
/-!
# Reading trees from tokens

One function for each rule of the grammar. A rule takes the tokens that are left and gives a node
and the tokens after it, or a fault and the tokens at which it was found; it decides by the next
token alone and never goes back. A call of a rule on the same tokens goes down in a fixed order
of the rules, and every other call has fewer tokens, so reading ends.
-/
namespace BlockScript

/-- Why tokens are no tree. The last three are about a number that has no value. -/
inductive ParseFault where
  | expected (what : String)
  | unexpectedToken
  | expectedExpression
  | tooManyDigits
  | invalidInteger
  | invalidDecimal
deriving DecidableEq, Repr

def ParseFault.message : ParseFault → String
  | expected what => "Expected " ++ what ++ "."
  | unexpectedToken => "Unexpected token."
  | expectedExpression => "Expected expression."
  | tooManyDigits => "Too many digits."
  | invalidInteger => "Invalid integer."
  | invalidDecimal => "Invalid decimal."

def ParseFault.isPlaced : ParseFault → Bool
  | tooManyDigits | invalidInteger | invalidDecimal => false
  | _ => true

/-- Reading from `n` tokens, of which a success uses `k` or more. -/
abbrev Parse (α : Type) (k n : Nat) := Reading Token ParseFault α k n

/-- The index of a fault found at the tokens `rest` of `all`: that of the next token, or the one
just past the last token. -/
def faultIndex (all rest : List Token) : Nat :=
  match rest with
  | t :: _ => t.index
  | [] => (all.getLast?.map Token.finish).getD 0

inductive Pattern where
  | kind (kind : TokenKind)
  | literal (text : String)
deriving DecidableEq, Repr

namespace Pattern

def fits (p : Pattern) (t : Token) : Bool :=
  match p with
  | kind k => t.kind == k
  | literal s => t.literal == s

def allFit : List Pattern → List Token → Bool
  | [], _ => true
  | _ :: _, [] => false
  | p :: ps, t :: ts => p.fits t && allFit ps ts

/-- The first of the texts that the next token has. -/
def firstFit? (options : List String) (ts : List Token) : Option String :=
  options.find? fun option => allFit [literal option] ts

end Pattern

namespace Rule

def expect (p : Pattern) (what : String) (ts : List Token) : Parse Token 1 ts.length :=
  match ts with
  | t :: rest => if p.fits t then .done t rest (Nat.le_refl _)
      else .failed (.expected what) (t :: rest) (Nat.le_refl _)
  | [] => .failed (.expected what) [] (Nat.le_refl _)

/-- A keyword or sign, named by its own text in the message. -/
def keyword (text : String) (ts : List Token) : Parse Token 1 ts.length :=
  expect (.literal text) text ts

/-- A sign, in quotes in the message. -/
def sign (text : String) (ts : List Token) : Parse Token 1 ts.length :=
  expect (.literal text) ("'" ++ text ++ "'") ts

def identifier (ts : List Token) : Parse String 1 ts.length :=
  (expect (.kind .identifier) "identifier" ts).map Token.literal

/-- Whether the next token has that text; if so it is used. -/
def accept (text : String) (ts : List Token) : Parse Bool 0 ts.length :=
  match ts with
  | t :: rest => if t.literal == text then .done true rest (Nat.le_succ _)
      else .done false (t :: rest) (Nat.le_refl _)
  | [] => .done false [] (Nat.le_refl _)

def typeClause (ts : List Token) : Parse (Option String) 0 ts.length :=
  match ts with
  | t :: rest =>
    if t.literal == ":" then
      ((identifier rest).map some).widen (by simp only [List.length_cons]; omega)
        (by simp only [List.length_cons]; omega)
    else .done none (t :: rest) (Nat.le_refl _)
  | [] => .done none [] (Nat.le_refl _)

/-- The value of an integer token, of which the digits are limited in number. -/
def integerLiteral (t : Token) : Except ParseFault Literal :=
  if Text.digitLimit < (Text.splitSign t.literal.toList).2.length then .error .tooManyDigits
  else
    match Text.integer? t.literal.toList with
    | some n => .ok (.integer n)
    | none => .error .invalidInteger

def decimalLiteral (t : Token) : Except ParseFault Literal :=
  match Decimal.literal? t.literal.toList with
  | some d => .ok (.decimal d)
  | none => .error .invalidDecimal

/-- The value of a character token: its first character, or the null character when there is
none. -/
def characterLiteral (t : Token) : Literal :=
  .character (String.singleton ((unescapeChars (insideQuotes t.literal)).headD '\x00'))

def stringLiteral (t : Token) : Literal :=
  .string (String.ofList (unescapeChars (insideQuotes t.literal)))

/-- The levels of binary operators, from loosest to tightest. -/
inductive Level where
  | logical | comparison | additive | multiplicative
deriving DecidableEq, Repr

namespace Level

/-- The operators of a level, which group to the left. -/
def operators : Level → List String
  | logical => ["AND", "OR", "&&", "||"]
  | comparison => ["<", "<=", ">", ">=", "==", "!="]
  | additive => ["+", "-"]
  | multiplicative => ["*", "/"]

def tighter? : Level → Option Level
  | logical => some comparison
  | comparison => some additive
  | additive => some multiplicative
  | multiplicative => none

def rank : Level → Nat
  | logical => 9
  | comparison => 7
  | additive => 5
  | multiplicative => 3

theorem rank_of_tighter? {l m : Level} (h : l.tighter? = some m) : m.rank + 2 = l.rank := by
  cases l <;> cases h <;> rfl

theorem two_lt_rank (l : Level) : 2 < l.rank := by cases l <;> decide

theorem rank_lt_ten (l : Level) : l.rank < 10 := by cases l <;> decide

end Level

mutual

/-- Operands of the next tighter level with operators of this one between them, grouped to the
left. -/
def binaryExpression (level : Level) (ts : List Token) : Parse Node 1 ts.length :=
  ((operand level ts).andThen fun left rest used => binaryRest level left rest).weaken
termination_by 16 * ts.length + level.rank
decreasing_by
  · have := Level.two_lt_rank level; omega
  · omega

def operand (level : Level) (ts : List Token) : Parse Node 1 ts.length :=
  match _tighter : level.tighter? with
  | some tighter => binaryExpression tighter ts
  | none => secondaryExpression ts
termination_by 16 * ts.length + (level.rank - 1)
decreasing_by
  · have := Level.rank_of_tighter? _tighter; omega
  · have := Level.two_lt_rank level; omega

/-- Operators of a level with their right operands, after a left operand. -/
def binaryRest (level : Level) (left : Node) (ts : List Token) : Parse Node 0 ts.length :=
  match ts with
  | t :: rest =>
    if level.operators.contains t.literal then
      ((operand level rest).andThen fun right rest' used =>
        binaryRest level (.binary t.literal left right none) rest').widen
        (by simp only [List.length_cons]; omega) (by simp only [List.length_cons]; omega)
    else .done left (t :: rest) (Nat.le_refl _)
  | [] => .done left [] (Nat.le_refl _)
termination_by 16 * ts.length
decreasing_by
  · have := Level.rank_lt_ten level; simp only [List.length_cons]; omega
  · simp only [List.length_cons]; omega

/-- A primary expression with accesses to members and calls of methods behind it. -/
def secondaryExpression (ts : List Token) : Parse Node 1 ts.length :=
  ((primaryExpression ts).andThen fun node rest used => secondaryRest node rest).weaken
termination_by 16 * ts.length + 1
decreasing_by
  · omega
  · omega

def secondaryRest (node : Node) (ts : List Token) : Parse Node 0 ts.length :=
  match ts with
  | t :: rest =>
    if t.literal == "." then
      ((identifier rest).andThen fun name rest' used =>
        match rest' with
        | p :: rest'' =>
          if p.literal == "(" then
            (((arguments rest'').andThen fun args rest₃ used' =>
              secondaryRest (.call node name args none none) rest₃).widen
              (by simp only [List.length_cons]; omega) (by simp only [List.length_cons]; omega) :
              Parse Node 0 (p :: rest'').length)
          else secondaryRest (.access node name none none) (p :: rest'')
        | [] => .done (.access node name none none) [] (Nat.le_refl _)).widen
        (by simp only [List.length_cons]; omega) (by simp only [List.length_cons]; omega)
    else .done node (t :: rest) (Nat.le_refl _)
  | [] => .done node [] (Nat.le_refl _)
termination_by 16 * ts.length
decreasing_by
  all_goals
    simp only [List.length_cons] at *
    omega

/-- The arguments of a call, after the opening parenthesis. -/
def arguments (ts : List Token) : Parse (List Node) 1 ts.length :=
  match ts with
  | t :: rest =>
    if t.literal == ")" then .done [] rest (Nat.le_refl _)
    else ((binaryExpression .logical (t :: rest)).andThen fun first rest' used =>
      (moreArguments rest').map (first :: ·)).weaken
  | [] => .failed .expectedExpression [] (Nat.le_refl _)
termination_by 16 * ts.length + 10
decreasing_by
  · simp only [Level.rank]; omega
  · omega

/-- Arguments with commas in front of them, and the closing parenthesis. -/
def moreArguments (ts : List Token) : Parse (List Node) 1 ts.length :=
  match ts with
  | t :: rest =>
    if t.literal == "," then
      ((binaryExpression .logical rest).andThen fun next rest' used =>
        (moreArguments rest').map (next :: ·)).widen
        (by simp only [List.length_cons]; omega) (by simp only [List.length_cons]; omega)
    else (sign ")" (t :: rest)).map fun _ => []
  | [] => (sign ")" []).map fun _ => []
termination_by 16 * ts.length
decreasing_by
  · simp only [Level.rank, List.length_cons]; omega
  · simp only [List.length_cons]; omega

def primaryExpression (ts : List Token) : Parse Node 1 ts.length :=
  match ts with
  | [] => .failed .expectedExpression [] (Nat.le_refl _)
  | t :: rest =>
    if t.literal == "NIL" then .done (.literal .nil none) rest (Nat.le_refl _)
    else if t.literal == "TRUE" then .done (.literal (.boolean true) none) rest (Nat.le_refl _)
    else if t.literal == "FALSE" then .done (.literal (.boolean false) none) rest (Nat.le_refl _)
    else if t.kind == .integer then
      match integerLiteral t with
      | .ok value => .done (.literal value none) rest (Nat.le_refl _)
      | .error fault => .failed fault rest (Nat.le_succ _)
    else if t.kind == .decimal then
      match decimalLiteral t with
      | .ok value => .done (.literal value none) rest (Nat.le_refl _)
      | .error fault => .failed fault rest (Nat.le_succ _)
    else if t.kind == .character then
      .done (.literal (characterLiteral t) none) rest (Nat.le_refl _)
    else if t.kind == .string then
      .done (.literal (stringLiteral t) none) rest (Nat.le_refl _)
    else if t.literal == "(" then
      ((binaryExpression .logical rest).andThen fun inner rest' used =>
        (sign ")" rest').map fun _ => Node.group inner none).widen
        (by simp only [List.length_cons]; omega) (by simp only [List.length_cons]; omega)
    else if t.kind == .identifier then
      match rest with
      | p :: rest' =>
        if p.literal == "(" then
          ((arguments rest').map fun args => Node.call .absent t.literal args none none).widen
            (by simp only [List.length_cons]; omega) (by simp only [List.length_cons]; omega)
        else .done (.access .absent t.literal none none) (p :: rest') (Nat.le_refl _)
      | [] => .done (.access .absent t.literal none none) [] (Nat.le_refl _)
    else .failed .expectedExpression (t :: rest) (Nat.le_refl _)
termination_by 16 * ts.length
decreasing_by
  · simp only [Level.rank, List.length_cons]; omega
  · simp only [List.length_cons]; omega

end

def expression (ts : List Token) : Parse Node 1 ts.length := binaryExpression .logical ts

def initialValue (ts : List Token) : Parse Node 0 ts.length :=
  match ts with
  | t :: rest =>
    if t.literal == "=" then
      (expression rest).widen (by simp only [List.length_cons]; omega)
        (by simp only [List.length_cons]; omega)
    else .done .absent (t :: rest) (Nat.le_refl _)
  | [] => .done .absent [] (Nat.le_refl _)

def declarationStatement (ts : List Token) : Parse Node 1 ts.length :=
  ((keyword "LET" ts).andThen fun _ rest₁ _ =>
    (identifier rest₁).andThen fun name rest₂ _ =>
    (typeClause rest₂).andThen fun typeName rest₃ _ =>
    (initialValue rest₃).andThen fun value rest₄ _ =>
    (sign ";" rest₄).map fun _ => Node.declaration name typeName value none).weaken

def returnStatement (ts : List Token) : Parse Node 1 ts.length :=
  ((keyword "RETURN" ts).andThen fun _ rest₁ _ =>
    (expression rest₁).andThen fun value rest₂ _ =>
    (sign ";" rest₂).map fun _ => Node.returnStmt value).weaken

def expressionStatement (ts : List Token) : Parse Node 1 ts.length :=
  ((expression ts).andThen fun left rest₁ _ =>
    (accept "=" rest₁).andThen fun assigned rest₂ _ =>
    (if assigned then
      ((expression rest₂).andThen fun value rest₃ _ =>
        (sign ";" rest₃).map fun _ => Node.assign left value).weaken
    else (sign ";" rest₂).map fun _ => Node.exprStmt left :
      Parse Node 1 rest₂.length)).weaken

/-- What the header of a loop may do before and after: assign to a name, or nothing. -/
def loopAssignment (ts : List Token) : Parse Node 0 ts.length :=
  match ts with
  | t :: rest =>
    if t.kind == .identifier then
      ((identifier (t :: rest)).andThen fun name rest₁ _ =>
        (sign "=" rest₁).andThen fun _ rest₂ _ =>
        (expression rest₂).map fun value =>
          Node.assign (.access .absent name none none) value).weaken
    else .done .absent (t :: rest) (Nat.le_refl _)
  | [] => .done .absent [] (Nat.le_refl _)

mutual

/-- Statements up to one of the words that end them, which is left. -/
def block (terminators : List String) (ts : List Token) : Parse (List Node) 0 ts.length :=
  match ts with
  | t :: rest =>
    if terminators.contains t.literal then .done [] (t :: rest) (Nat.le_refl _)
    else ((statement (t :: rest)).andThen fun first rest' used =>
      (block terminators rest').map (first :: ·)).weaken
  | [] => .failed (.expected (terminators.getLast?.getD "")) [] (Nat.le_refl _)
termination_by 4 * ts.length + 2
decreasing_by
  · omega
  · omega

def statement (ts : List Token) : Parse Node 1 ts.length :=
  match ts with
  | t :: rest =>
    if t.literal == "LET" then declarationStatement (t :: rest)
    else if t.literal == "IF" then ifStatement (t :: rest)
    else if t.literal == "FOR" then forStatement (t :: rest)
    else if t.literal == "WHILE" then whileStatement (t :: rest)
    else if t.literal == "RETURN" then returnStatement (t :: rest)
    else expressionStatement (t :: rest)
  | [] => expressionStatement []
termination_by 4 * ts.length + 1
decreasing_by
  all_goals omega

def ifStatement (ts : List Token) : Parse Node 1 ts.length :=
  ((keyword "IF" ts).andThen fun _ rest₁ used₁ =>
    (expression rest₁).andThen fun condition rest₂ used₂ =>
    (keyword "DO" rest₂).andThen fun _ rest₃ used₃ =>
    (block ["ELSE", "END"] rest₃).andThen fun thens rest₄ used₄ =>
    (elseBranch rest₄).andThen fun elses rest₅ used₅ =>
    (keyword "END" rest₅).map fun _ => Node.ifStmt condition thens elses).weaken
termination_by 4 * ts.length
decreasing_by
  · omega
  · omega

def elseBranch (ts : List Token) : Parse (List Node) 0 ts.length :=
  match ts with
  | t :: rest =>
    if t.literal == "ELSE" then
      (block ["END"] rest).widen (by simp only [List.length_cons]; omega)
        (by simp only [List.length_cons]; omega)
    else .done [] (t :: rest) (Nat.le_refl _)
  | [] => .done [] [] (Nat.le_refl _)
termination_by 4 * ts.length
decreasing_by
  simp only [List.length_cons]; omega

def forStatement (ts : List Token) : Parse Node 1 ts.length :=
  ((keyword "FOR" ts).andThen fun _ rest₁ used₁ =>
    (sign "(" rest₁).andThen fun _ rest₂ used₂ =>
    (loopAssignment rest₂).andThen fun initialization rest₃ used₃ =>
    (sign ";" rest₃).andThen fun _ rest₄ used₄ =>
    (expression rest₄).andThen fun condition rest₅ used₅ =>
    (sign ";" rest₅).andThen fun _ rest₆ used₆ =>
    (loopAssignment rest₆).andThen fun increment rest₇ used₇ =>
    (sign ")" rest₇).andThen fun _ rest₈ used₈ =>
    (block ["END"] rest₈).andThen fun statements rest₉ used₉ =>
    (keyword "END" rest₉).map fun _ =>
      Node.forStmt initialization condition increment statements).weaken
termination_by 4 * ts.length
decreasing_by
  omega

def whileStatement (ts : List Token) : Parse Node 1 ts.length :=
  ((keyword "WHILE" ts).andThen fun _ rest₁ used₁ =>
    (expression rest₁).andThen fun condition rest₂ used₂ =>
    (keyword "DO" rest₂).andThen fun _ rest₃ used₃ =>
    (block ["END"] rest₃).andThen fun statements rest₄ used₄ =>
    (keyword "END" rest₄).map fun _ => Node.whileStmt condition statements).weaken
termination_by 4 * ts.length
decreasing_by
  omega

end

def field (ts : List Token) : Parse Node 1 ts.length :=
  ((keyword "LET" ts).andThen fun _ rest₁ _ =>
    (accept "CONST" rest₁).andThen fun constant rest₂ _ =>
    (identifier rest₂).andThen fun name rest₃ _ =>
    (typeClause rest₃).andThen fun typeName rest₄ _ =>
    (initialValue rest₄).andThen fun value rest₅ _ =>
    (sign ";" rest₅).map fun _ => Node.field name typeName constant value none).weaken

def parameter (ts : List Token) : Parse (String × Option String) 1 ts.length :=
  ((identifier ts).andThen fun name rest _ =>
    (typeClause rest).map fun typeName => (name, typeName)).weaken

def moreParameters (ts : List Token) : Parse (List (String × Option String)) 0 ts.length :=
  match ts with
  | t :: rest =>
    if t.literal == "," then
      ((parameter rest).andThen fun next rest' used =>
        (moreParameters rest').map (next :: ·)).widen
        (by simp only [List.length_cons]; omega) (by simp only [List.length_cons]; omega)
    else .done [] (t :: rest) (Nat.le_refl _)
  | [] => .done [] [] (Nat.le_refl _)
termination_by ts.length
decreasing_by
  simp only [List.length_cons]; omega

/-- Parameters up to the closing parenthesis, which is left. -/
def parameters (ts : List Token) : Parse (List (String × Option String)) 0 ts.length :=
  if Pattern.allFit [.literal ")"] ts then .done [] ts (Nat.le_refl _)
  else
    ((parameter ts).andThen fun first rest _ =>
      (moreParameters rest).map (first :: ·)).weaken

def method (ts : List Token) : Parse Node 1 ts.length :=
  ((keyword "DEF" ts).andThen fun _ rest₁ _ =>
    (identifier rest₁).andThen fun name rest₂ _ =>
    (sign "(" rest₂).andThen fun _ rest₃ _ =>
    (parameters rest₃).andThen fun ps rest₄ _ =>
    (sign ")" rest₄).andThen fun _ rest₅ _ =>
    (typeClause rest₅).andThen fun returnType rest₆ _ =>
    (keyword "DO" rest₆).andThen fun _ rest₇ _ =>
    (block ["END"] rest₇).andThen fun statements rest₈ _ =>
    (keyword "END" rest₈).map fun _ =>
      Node.method name (ps.map Prod.fst) (ps.map Prod.snd) returnType statements none).weaken

def fields (ts : List Token) : Parse (List Node) 0 ts.length :=
  match ts with
  | t :: rest =>
    if t.literal == "LET" then
      ((field (t :: rest)).andThen fun first rest' used =>
        (fields rest').map (first :: ·)).weaken
    else .done [] (t :: rest) (Nat.le_refl _)
  | [] => .done [] [] (Nat.le_refl _)
termination_by ts.length
decreasing_by
  omega

def methods (ts : List Token) : Parse (List Node) 0 ts.length :=
  match ts with
  | t :: rest =>
    if t.literal == "DEF" then
      ((method (t :: rest)).andThen fun first rest' used =>
        (methods rest').map (first :: ·)).weaken
    else .done [] (t :: rest) (Nat.le_refl _)
  | [] => .done [] [] (Nat.le_refl _)
termination_by ts.length
decreasing_by
  omega

def endOfTokens (ts : List Token) : Parse Unit 0 ts.length :=
  match ts with
  | [] => .done () [] (Nat.le_refl _)
  | t :: rest => .failed .unexpectedToken (t :: rest) (Nat.le_refl _)

def source (ts : List Token) : Parse Node 0 ts.length :=
  ((fields ts).andThen fun fs rest₁ _ =>
    (methods rest₁).andThen fun ms rest₂ _ =>
    (endOfTokens rest₂).map fun _ => Node.source fs ms).weaken

end Rule
end BlockScript
