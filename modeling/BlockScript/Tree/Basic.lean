import BlockScript.Literal
import BlockScript.StaticType
/-!
# Syntax trees

One type for whole programs, their fields and methods, statements and expressions, because a
tree read from JSON may have any of them anywhere; `absent` stands where there is none. What
checking finds out is kept in slots, which are empty in a tree that has just been read.
-/
namespace BlockScript

/-- A node of a syntax tree, or none at all. -/
inductive Node where
  | absent
  | source (fields methods : List Node)
  | field (name : String) (typeName : Option String) (constant : Bool) (value : Node)
      (bound : Option StaticVariable)
  | method (name : String) (parameters : List String) (parameterTypes : List (Option String))
      (returnType : Option String) (statements : List Node) (callee : Option StaticFunction)
  | exprStmt (expression : Node)
  | declaration (name : String) (typeName : Option String) (value : Node)
      (bound : Option StaticVariable)
  | assign (receiver value : Node)
  | ifStmt (condition : Node) (thenStatements elseStatements : List Node)
  | forStmt (initialization condition increment : Node) (statements : List Node)
  | whileStmt (condition : Node) (statements : List Node)
  | returnStmt (value : Node)
  | literal (value : Literal) (type : Option StaticType)
  | group (expression : Node) (type : Option StaticType)
  | binary (operator : String) (left right : Node) (type : Option StaticType)
  | access (receiver : Node) (name : String) (type : Option StaticType)
      (bound : Option StaticVariable)
  | call (receiver : Node) (name : String) (arguments : List Node) (type : Option StaticType)
      (callee : Option StaticFunction)
deriving Repr, Inhabited

namespace Node

/-- The name of the kind of a node, which is also its tag in JSON. -/
def kindName : Node → String
  | absent => "NoneType"
  | source .. => "Source"
  | field .. => "Field"
  | method .. => "Method"
  | exprStmt .. => "ExprStmt"
  | declaration .. => "Declaration"
  | assign .. => "Assign"
  | ifStmt .. => "IfStmt"
  | forStmt .. => "ForStmt"
  | whileStmt .. => "WhileStmt"
  | returnStmt .. => "ReturnStmt"
  | literal .. => "Literal"
  | group .. => "Group"
  | binary .. => "BinaryOp"
  | access .. => "Access"
  | call .. => "Call"

def isAbsent : Node → Bool
  | absent => true
  | _ => false

def isExpression : Node → Bool
  | literal .. | group .. | binary .. | access .. | call .. => true
  | _ => false

mutual

/-- The nodes of a tree, each before its children. -/
def preorder : Node → List Node
  | absent => []
  | source fields methods => source fields methods :: (preorderAll fields ++ preorderAll methods)
  | field n t c value v => field n t c value v :: preorder value
  | method n ps ts r statements f => method n ps ts r statements f :: preorderAll statements
  | exprStmt expression => exprStmt expression :: preorder expression
  | declaration n t value v => declaration n t value v :: preorder value
  | assign receiver value => assign receiver value :: (preorder receiver ++ preorder value)
  | ifStmt condition thens elses =>
    ifStmt condition thens elses :: (preorder condition ++ preorderAll thens ++ preorderAll elses)
  | forStmt initialization condition increment statements =>
    forStmt initialization condition increment statements ::
      (preorder initialization ++ preorder condition ++ preorder increment ++
        preorderAll statements)
  | whileStmt condition statements =>
    whileStmt condition statements :: (preorder condition ++ preorderAll statements)
  | returnStmt value => returnStmt value :: preorder value
  | literal value t => [literal value t]
  | group expression t => group expression t :: preorder expression
  | binary operator left right t =>
    binary operator left right t :: (preorder left ++ preorder right)
  | access receiver n t v => access receiver n t v :: preorder receiver
  | call receiver n arguments t f =>
    call receiver n arguments t f :: (preorder receiver ++ preorderAll arguments)

def preorderAll : List Node → List Node
  | [] => []
  | node :: rest => preorder node ++ preorderAll rest

end

end Node
end BlockScript
