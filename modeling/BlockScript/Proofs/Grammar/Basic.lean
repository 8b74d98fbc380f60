import BlockScript.Proofs.Token.Shape
import BlockScript.Tree.Rules
/-!
# The grammar

A grammar of programs with one constructor for each production, apart from how reading goes about
it. A derivation takes a phrase from the front of some tokens and leaves the rest; the phrase names
the tree that the derivation stands for. Words and signs are matched by their text, names and
literals by the kind of token. Operators of a level and members behind a primary expression are
folded to the left as they are derived.
-/
namespace BlockScript.Grammar

open Rule (Level)

def integerValue (cs : List Char) : Int :=
  let (negative, ds) := Text.splitSign cs
  if negative then -(Text.ofDigits ds : Int) else Text.ofDigits ds

def decimalValue (cs : List Char) : Decimal :=
  let (negative, body) := Text.splitSign cs
  let whole := body.takeWhile Text.isAsciiDigit
  let fraction := (body.drop (whole.length + 1)).takeWhile Text.isAsciiDigit
  .finite negative (Text.ofDigits (whole ++ fraction)) (-fraction.length)

theorem eq_integerValue {cs : List Char} {n : Int} (h : Text.integer? cs = some n) :
    n = integerValue cs := by
  unfold Text.integer? at h
  dsimp only at h
  split at h
  · cases h
  · exact (Option.some.inj h).symm

/-- The digits behind the point are all that is left of a decimal. -/
theorem eq_decimalValue {cs : List Char} {d : Decimal} (h : Decimal.literal? cs = some d) :
    d = decimalValue cs := by
  unfold Decimal.literal? at h
  unfold decimalValue
  generalize Text.splitSign cs = parts at h ⊢
  obtain ⟨negative, body⟩ := parts
  dsimp only at h ⊢
  split at h
  · next fraction hdrop =>
    split at h
    · cases h
    · next hno =>
      simp only [Bool.or_eq_true, not_or, Bool.not_eq_true', Bool.not_eq_false] at hno
      have hafter : body.drop ((body.takeWhile Text.isAsciiDigit).length + 1) = fraction := by
        have hbody := List.takeWhile_append_dropWhile (p := Text.isAsciiDigit) (l := body)
        generalize body.takeWhile Text.isAsciiDigit = whole at hbody ⊢
        rw [hdrop] at hbody
        simp [← hbody]
      have hdigits : fraction.takeWhile Text.isAsciiDigit = fraction :=
        List.takeWhile_eq_self_iff.mpr (List.all_eq_true.mp hno.2)
      rw [hafter, hdigits]
      exact (Option.some.inj h).symm
  · cases h

theorem integer?_of_fits {cs : List Char} (h : TokenKind.integer.fits (Text.splitSign cs).2 = true) :
    Text.integer? cs = some (integerValue cs) := by
  simp only [TokenKind.fits, Bool.and_eq_true, Bool.not_eq_true'] at h
  simp [Text.integer?, integerValue, h]

theorem literal?_of_fits {cs : List Char} (h : TokenKind.decimal.fits (Text.splitSign cs).2 = true) :
    Decimal.literal? cs = some (decimalValue cs) := by
  have hsome : (Decimal.literal? cs).isSome = true := by
    simp only [TokenKind.fits] at h
    unfold Decimal.literal?
    dsimp only
    generalize (Text.splitSign cs).2.dropWhile Text.isAsciiDigit = rest at h ⊢
    split at h
    · simp only [Bool.and_eq_true, Bool.not_eq_true'] at h
      simp [h]
    · cases h
  obtain ⟨d, hd⟩ := Option.isSome_iff_exists.mp hsome
  rw [hd, eq_decimalValue hd]

/-- A nonterminal together with what it stands for. -/
inductive Phrase where
  | source (tree : Node)
  | fields (trees : List Node)
  | methods (trees : List Node)
  | constMark (present : Bool)
  | typeClause (name : Option String)
  | initialValue (tree : Node)
  | parameters (ps : List (String × Option String))
  | moreParameters (ps : List (String × Option String))
  | statements (trees : List Node)
  | statement (tree : Node)
  | elseBranch (trees : List Node)
  | header (tree : Node)
  | operation (level : Level) (tree : Node)
  | operand (level : Level) (tree : Node)
  | operations (level : Level) (left tree : Node)
  | secondary (tree : Node)
  | members (node tree : Node)
  | primary (tree : Node)
  | arguments (trees : List Node)
  | moreArguments (trees : List Node)

/-- Derivations of a phrase from the front of the first tokens, leaving the second. All names and
literals in it satisfy `leaf`. -/
inductive Derivation (leaf : Token → Prop) : Phrase → List Token → List Token → Type
  /-- source ::= field* method* -/
  | source {fs ms : List Node} {ts mid rest : List Token}
      (fields : Derivation leaf (.fields fs) ts mid)
      (methods : Derivation leaf (.methods ms) mid rest) :
      Derivation leaf (.source (.source fs ms)) ts rest
  | fieldsNil {ts : List Token} : Derivation leaf (.fields []) ts ts
  /-- field ::= 'LET' 'CONST'? identifier (':' identifier)? ('=' expression)? ';' -/
  | fieldsCons {t n s : Token} {constant : Bool} {type : Option String} {value : Node}
      {fs : List Node} {ts ts₁ ts₂ ts₃ rest : List Token}
      (letWord : t.literal = "LET") (mark : Derivation leaf (.constMark constant) ts (n :: ts₁))
      (name : n.kind = .identifier ∧ leaf n) (clause : Derivation leaf (.typeClause type) ts₁ ts₂)
      (initial : Derivation leaf (.initialValue value) ts₂ (s :: ts₃)) (stop : s.literal = ";")
      (more : Derivation leaf (.fields fs) ts₃ rest) :
      Derivation leaf (.fields (.field n.literal type constant value none :: fs)) (t :: ts) rest
  | methodsNil {ts : List Token} : Derivation leaf (.methods []) ts ts
  /-- method ::= 'DEF' identifier '(' (parameter (',' parameter)*)? ')' (':' identifier)?
  'DO' statement* 'END' -/
  | methodsCons {t n l r d e : Token} {ps : List (String × Option String)} {type : Option String}
      {body ms : List Node} {ts ts₁ ts₂ ts₃ rest : List Token}
      (defWord : t.literal = "DEF") (name : n.kind = .identifier ∧ leaf n) (opens : l.literal = "(")
      (params : Derivation leaf (.parameters ps) ts (r :: ts₁)) (closes : r.literal = ")")
      (clause : Derivation leaf (.typeClause type) ts₁ (d :: ts₂)) (doWord : d.literal = "DO")
      (statements : Derivation leaf (.statements body) ts₂ (e :: ts₃)) (endWord : e.literal = "END")
      (more : Derivation leaf (.methods ms) ts₃ rest) :
      Derivation leaf
        (.methods (.method n.literal (ps.map Prod.fst) (ps.map Prod.snd) type body none :: ms))
        (t :: n :: l :: ts) rest
  | constNone {ts : List Token} : Derivation leaf (.constMark false) ts ts
  | constSome {t : Token} {ts : List Token} (word : t.literal = "CONST") :
      Derivation leaf (.constMark true) (t :: ts) ts
  | typeNone {ts : List Token} : Derivation leaf (.typeClause none) ts ts
  | typeSome {t n : Token} {ts : List Token} (colon : t.literal = ":")
      (name : n.kind = .identifier ∧ leaf n) :
      Derivation leaf (.typeClause (some n.literal)) (t :: n :: ts) ts
  | initialNone {ts : List Token} : Derivation leaf (.initialValue .absent) ts ts
  | initialSome {t : Token} {value : Node} {ts rest : List Token} (equals : t.literal = "=")
      (expression : Derivation leaf (.operation .logical value) ts rest) :
      Derivation leaf (.initialValue value) (t :: ts) rest
  | parametersNone {ts : List Token} : Derivation leaf (.parameters []) ts ts
  /-- parameter ::= identifier (':' identifier)? -/
  | parametersSome {n : Token} {type : Option String} {ps : List (String × Option String)}
      {ts ts₁ rest : List Token} (name : n.kind = .identifier ∧ leaf n)
      (clause : Derivation leaf (.typeClause type) ts ts₁)
      (more : Derivation leaf (.moreParameters ps) ts₁ rest) :
      Derivation leaf (.parameters ((n.literal, type) :: ps)) (n :: ts) rest
  | moreParametersNil {ts : List Token} : Derivation leaf (.moreParameters []) ts ts
  | moreParametersCons {c n : Token} {type : Option String} {ps : List (String × Option String)}
      {ts ts₁ rest : List Token} (comma : c.literal = ",") (name : n.kind = .identifier ∧ leaf n)
      (clause : Derivation leaf (.typeClause type) ts ts₁)
      (more : Derivation leaf (.moreParameters ps) ts₁ rest) :
      Derivation leaf (.moreParameters ((n.literal, type) :: ps)) (c :: n :: ts) rest
  | statementsNil {ts : List Token} : Derivation leaf (.statements []) ts ts
  | statementsCons {first : Node} {others : List Node} {ts mid rest : List Token}
      (head : Derivation leaf (.statement first) ts mid)
      (more : Derivation leaf (.statements others) mid rest) :
      Derivation leaf (.statements (first :: others)) ts rest
  /-- statement ::= 'LET' identifier (':' identifier)? ('=' expression)? ';' -/
  | declaration {t n s : Token} {type : Option String} {value : Node} {ts ts₁ rest : List Token}
      (letWord : t.literal = "LET") (name : n.kind = .identifier ∧ leaf n)
      (clause : Derivation leaf (.typeClause type) ts ts₁)
      (initial : Derivation leaf (.initialValue value) ts₁ (s :: rest)) (stop : s.literal = ";") :
      Derivation leaf (.statement (.declaration n.literal type value none)) (t :: n :: ts) rest
  /-- statement ::= 'IF' expression 'DO' statement* ('ELSE' statement*)? 'END' -/
  | ifStmt {t d e : Token} {condition : Node} {thens elses : List Node}
      {ts ts₁ ts₂ rest : List Token} (ifWord : t.literal = "IF")
      (test : Derivation leaf (.operation .logical condition) ts (d :: ts₁))
      (doWord : d.literal = "DO") (first : Derivation leaf (.statements thens) ts₁ ts₂)
      (second : Derivation leaf (.elseBranch elses) ts₂ (e :: rest)) (endWord : e.literal = "END") :
      Derivation leaf (.statement (.ifStmt condition thens elses)) (t :: ts) rest
  | elseNone {ts : List Token} : Derivation leaf (.elseBranch []) ts ts
  | elseSome {t : Token} {elses : List Node} {ts rest : List Token} (elseWord : t.literal = "ELSE")
      (statements : Derivation leaf (.statements elses) ts rest) :
      Derivation leaf (.elseBranch elses) (t :: ts) rest
  /-- statement ::= 'FOR' '(' (identifier '=' expression)? ';' expression ';'
  (identifier '=' expression)? ')' statement* 'END' -/
  | forStmt {t l s₁ s₂ r e : Token} {initialization condition increment : Node} {body : List Node}
      {ts ts₁ ts₂ ts₃ rest : List Token} (forWord : t.literal = "FOR") (opens : l.literal = "(")
      (before : Derivation leaf (.header initialization) ts (s₁ :: ts₁)) (stop₁ : s₁.literal = ";")
      (test : Derivation leaf (.operation .logical condition) ts₁ (s₂ :: ts₂))
      (stop₂ : s₂.literal = ";") (after : Derivation leaf (.header increment) ts₂ (r :: ts₃))
      (closes : r.literal = ")") (statements : Derivation leaf (.statements body) ts₃ (e :: rest))
      (endWord : e.literal = "END") :
      Derivation leaf (.statement (.forStmt initialization condition increment body))
        (t :: l :: ts) rest
  | headerNone {ts : List Token} : Derivation leaf (.header .absent) ts ts
  | headerSome {n q : Token} {value : Node} {ts rest : List Token}
      (name : n.kind = .identifier ∧ leaf n) (equals : q.literal = "=")
      (expression : Derivation leaf (.operation .logical value) ts rest) :
      Derivation leaf (.header (.assign (.access .absent n.literal none none) value))
        (n :: q :: ts) rest
  /-- statement ::= 'WHILE' expression 'DO' statement* 'END' -/
  | whileStmt {t d e : Token} {condition : Node} {body : List Node} {ts ts₁ rest : List Token}
      (whileWord : t.literal = "WHILE")
      (test : Derivation leaf (.operation .logical condition) ts (d :: ts₁))
      (doWord : d.literal = "DO") (statements : Derivation leaf (.statements body) ts₁ (e :: rest))
      (endWord : e.literal = "END") :
      Derivation leaf (.statement (.whileStmt condition body)) (t :: ts) rest
  /-- statement ::= 'RETURN' expression ';' -/
  | returnStmt {t s : Token} {value : Node} {ts rest : List Token} (returnWord : t.literal = "RETURN")
      (expression : Derivation leaf (.operation .logical value) ts (s :: rest))
      (stop : s.literal = ";") : Derivation leaf (.statement (.returnStmt value)) (t :: ts) rest
  /-- statement ::= expression ('=' expression)? ';' -/
  | exprStmt {s : Token} {expression : Node} {ts rest : List Token}
      (whole : Derivation leaf (.operation .logical expression) ts (s :: rest))
      (stop : s.literal = ";") : Derivation leaf (.statement (.exprStmt expression)) ts rest
  | assign {q s : Token} {receiver value : Node} {ts ts₁ rest : List Token}
      (left : Derivation leaf (.operation .logical receiver) ts (q :: ts₁)) (equals : q.literal = "=")
      (right : Derivation leaf (.operation .logical value) ts₁ (s :: rest)) (stop : s.literal = ";") :
      Derivation leaf (.statement (.assign receiver value)) ts rest
  /-- A level is its operands with operators of the level between them. -/
  | operation {level : Level} {left tree : Node} {ts mid rest : List Token}
      (first : Derivation leaf (.operand level left) ts mid)
      (more : Derivation leaf (.operations level left tree) mid rest) :
      Derivation leaf (.operation level tree) ts rest
  | operandTighter {level tighter : Level} {tree : Node} {ts rest : List Token}
      (next : level.tighter? = some tighter)
      (inner : Derivation leaf (.operation tighter tree) ts rest) :
      Derivation leaf (.operand level tree) ts rest
  | operandTightest {level : Level} {tree : Node} {ts rest : List Token}
      (last : level.tighter? = none) (inner : Derivation leaf (.secondary tree) ts rest) :
      Derivation leaf (.operand level tree) ts rest
  | operationsNil {level : Level} {left : Node} {ts : List Token} :
      Derivation leaf (.operations level left left) ts ts
  | operationsCons {level : Level} {o : Token} {left right tree : Node} {ts mid rest : List Token}
      (operator : o.literal ∈ level.operators) (next : Derivation leaf (.operand level right) ts mid)
      (more : Derivation leaf (.operations level (.binary o.literal left right none) tree) mid rest) :
      Derivation leaf (.operations level left tree) (o :: ts) rest
  /-- secondary ::= primary ('.' identifier ('(' arguments? ')')?)* -/
  | secondary {node tree : Node} {ts mid rest : List Token}
      (first : Derivation leaf (.primary node) ts mid)
      (more : Derivation leaf (.members node tree) mid rest) :
      Derivation leaf (.secondary tree) ts rest
  | membersNil {node : Node} {ts : List Token} : Derivation leaf (.members node node) ts ts
  | membersAccess {p n : Token} {node tree : Node} {ts rest : List Token} (point : p.literal = ".")
      (name : n.kind = .identifier ∧ leaf n)
      (more : Derivation leaf (.members (.access node n.literal none none) tree) ts rest) :
      Derivation leaf (.members node tree) (p :: n :: ts) rest
  | membersCall {p n l r : Token} {node tree : Node} {args : List Node} {ts ts₁ rest : List Token}
      (point : p.literal = ".") (name : n.kind = .identifier ∧ leaf n) (opens : l.literal = "(")
      (list : Derivation leaf (.arguments args) ts (r :: ts₁)) (closes : r.literal = ")")
      (more : Derivation leaf (.members (.call node n.literal args none none) tree) ts₁ rest) :
      Derivation leaf (.members node tree) (p :: n :: l :: ts) rest
  /-- primary ::= 'NIL' | 'TRUE' | 'FALSE' | integer | decimal | character | string |
  '(' expression ')' | identifier ('(' arguments? ')')? -/
  | nilWord {t : Token} {ts : List Token} (word : t.literal = "NIL") :
      Derivation leaf (.primary (.literal .nil none)) (t :: ts) ts
  | trueWord {t : Token} {ts : List Token} (word : t.literal = "TRUE") :
      Derivation leaf (.primary (.literal (.boolean true) none)) (t :: ts) ts
  | falseWord {t : Token} {ts : List Token} (word : t.literal = "FALSE") :
      Derivation leaf (.primary (.literal (.boolean false) none)) (t :: ts) ts
  | integer {t : Token} {ts : List Token} (number : t.kind = .integer ∧ leaf t) :
      Derivation leaf (.primary (.literal (.integer (integerValue t.literal.toList)) none))
        (t :: ts) ts
  | decimal {t : Token} {ts : List Token} (number : t.kind = .decimal ∧ leaf t) :
      Derivation leaf (.primary (.literal (.decimal (decimalValue t.literal.toList)) none))
        (t :: ts) ts
  | character {t : Token} {ts : List Token} (quoted : t.kind = .character ∧ leaf t) :
      Derivation leaf (.primary (.literal (Rule.characterLiteral t) none)) (t :: ts) ts
  | string {t : Token} {ts : List Token} (quoted : t.kind = .string ∧ leaf t) :
      Derivation leaf (.primary (.literal (Rule.stringLiteral t) none)) (t :: ts) ts
  | group {l r : Token} {inner : Node} {ts rest : List Token} (opens : l.literal = "(")
      (expression : Derivation leaf (.operation .logical inner) ts (r :: rest))
      (closes : r.literal = ")") : Derivation leaf (.primary (.group inner none)) (l :: ts) rest
  | name {n : Token} {ts : List Token} (name : n.kind = .identifier ∧ leaf n) :
      Derivation leaf (.primary (.access .absent n.literal none none)) (n :: ts) ts
  | call {n l r : Token} {args : List Node} {ts rest : List Token}
      (name : n.kind = .identifier ∧ leaf n) (opens : l.literal = "(")
      (list : Derivation leaf (.arguments args) ts (r :: rest)) (closes : r.literal = ")") :
      Derivation leaf (.primary (.call .absent n.literal args none none)) (n :: l :: ts) rest
  | argumentsNone {ts : List Token} : Derivation leaf (.arguments []) ts ts
  /-- arguments ::= expression (',' expression)* -/
  | argumentsSome {first : Node} {others : List Node} {ts mid rest : List Token}
      (expression : Derivation leaf (.operation .logical first) ts mid)
      (more : Derivation leaf (.moreArguments others) mid rest) :
      Derivation leaf (.arguments (first :: others)) ts rest
  | moreArgumentsNil {ts : List Token} : Derivation leaf (.moreArguments []) ts ts
  | moreArgumentsCons {c : Token} {next : Node} {others : List Node} {ts mid rest : List Token}
      (comma : c.literal = ",") (expression : Derivation leaf (.operation .logical next) ts mid)
      (more : Derivation leaf (.moreArguments others) mid rest) :
      Derivation leaf (.moreArguments (next :: others)) (c :: ts) rest

def anyLeaf (_ : Token) : Prop := True

/-- A name that is no reserved word, an integer of a size that can be read, or another literal. -/
def plainLeaf (t : Token) : Prop :=
  (t.kind = .identifier → t.literal ∉ reserved) ∧
    (t.kind = .integer → (Text.splitSign t.literal.toList).2.length ≤ Text.digitLimit)

end BlockScript.Grammar
