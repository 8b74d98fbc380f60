import BlockScript.Main
import BlockScript.Session
import BlockScript.Proofs.Grammar.Basic
import BlockScript.Proofs.Reading
import BlockScript.Proofs.Grammar.Soundness
import BlockScript.Proofs.Grammar.Completeness
import BlockScript.Proofs.Grammar.Uniqueness
import BlockScript.Proofs.Grammar.Correctness
import BlockScript.Proofs.Ends
import BlockScript.Proofs.Evaluation.Relate
import BlockScript.Proofs.Evaluation.Record
import BlockScript.Proofs.Evaluation.History
import BlockScript.Proofs.Scope
import BlockScript.Proofs.Typing.Types
import BlockScript.Proofs.Typing.Judgement
import BlockScript.Proofs.Typing.Expressions
import BlockScript.Proofs.Typing.Statements
import BlockScript.Proofs.Typing.Program
import BlockScript.Proofs.Typing.Operators
import BlockScript.Proofs.Typing.Origins
import BlockScript.Proofs.Typing.Simulation
import BlockScript.Proofs.Typing.Course
import BlockScript.Proofs.Typing.Operations
import BlockScript.Proofs.Typing.Preservation
import BlockScript.Proofs.Typing.Soundness
import BlockScript.Proofs.Tree.Digits
import BlockScript.Proofs.Tree.Written
import BlockScript.Proofs.Tree.Expressions
import BlockScript.Proofs.Tree.Bare
import BlockScript.Proofs.Tree.Names
import BlockScript.Proofs.Tree.Outline
import BlockScript.Proofs.Text.Numeral
import BlockScript.Proofs.Decimal.Text
import BlockScript.Proofs.Tree.Object
import BlockScript.Proofs.Tree.Loading
import BlockScript.Proofs.Tree.Like
import BlockScript.Proofs.Typing.Relation
import BlockScript.Proofs.Typing.Alike
import BlockScript.Proofs.Typing.Slots
import BlockScript.Proofs.Evaluation.Trace
import BlockScript.Proofs.Evaluation.Plain
import BlockScript.Proofs.Evaluation.Standalone
import BlockScript.Proofs.Evaluation.Limit
import BlockScript.Proofs.Evaluation.Observation
import BlockScript.Proofs.Evaluation.ForLoop
import BlockScript.Proofs.Failures
import BlockScript.Proofs.Typing.Subexpressions
import BlockScript.Proofs.Java.Expression
import BlockScript.Proofs.Java.Reading
import BlockScript.Proofs.Java.Scan
import BlockScript.Proofs.Java.Decode
import BlockScript.Proofs.Typing.Annotated
import BlockScript.Proofs.Java.Generation
import BlockScript.Proofs.Java.Reread
import BlockScript.Proofs.Java.Text
import BlockScript.Proofs.Java.Grouping
import BlockScript.Proofs.Java.Pieces
import BlockScript.Proofs.Java.Inline
import BlockScript.Proofs.Java.Printing
import BlockScript.Proofs.Java.Layout
import BlockScript.Proofs.Java.Names
import BlockScript.Proofs.Typing.Outline
import BlockScript.Proofs.Java.Quoting
import BlockScript.Proofs.Grammar.Prefix
import BlockScript.Proofs.Grammar.FirstFault
import BlockScript.Proofs.Evaluation.Constants
import BlockScript.Proofs.Evaluation.Discipline
import BlockScript.Proofs.Evaluation.Bindings
import BlockScript.Proofs.Evaluation.Reachable
import BlockScript.Proofs.Correspondence
import BlockScript.Proofs.Tree.Rename
import BlockScript.Proofs.Typing.Renumbering
import BlockScript.Proofs.Typing.Order
import BlockScript.Proofs.Typing.Reordering
import BlockScript.Proofs.Typing.Surroundings
import BlockScript.Proofs.Evaluation.Slots
import BlockScript.Proofs.Evaluation.MethodTable
import BlockScript.Proofs.MethodOrder
import BlockScript.Proofs.Evaluation.Values
import BlockScript.Proofs.Typing.Recheck
import BlockScript.Proofs.Token.Pattern
import BlockScript.Proofs.Token.Folding
import BlockScript.Proofs.Token.Tiling
import BlockScript.Proofs.Token.Cover
import BlockScript.Proofs.Token.Unexpected
import BlockScript.Proofs.Token.Splice
import BlockScript.Proofs.Grammar.Places
import BlockScript.Proofs.Layout
import BlockScript.Proofs.Grammar.Operands
import BlockScript.Proofs.Spacing
import BlockScript.Proofs.Grammar.Bodies
import BlockScript.Proofs.Bodies
import BlockScript.Proofs.Collapse
import BlockScript.Proofs.Evaluation.Lockstep
import BlockScript.Proofs.Evaluation.Unlimited
import BlockScript.Proofs.Decimal.Number
import BlockScript.Proofs.Decimal.Quotient
import BlockScript.Proofs.Decimal.Order
import BlockScript.Proofs.Json.Equality
import BlockScript.Proofs.Evaluation.Comparison
import BlockScript.Proofs.Java.Spelling
import BlockScript.Proofs.Evaluation.Spelling
import BlockScript.Proofs.Typing.Spelling
import BlockScript.Proofs.Evaluation.Quiet
import BlockScript.Proofs.Tree.Spelling
import BlockScript.Proofs.Spelling
import BlockScript.Proofs.Token.Signs
import BlockScript.Proofs.Definitions
import BlockScript.Proofs.Grammar.Descent
