import BlockScript.Proofs.Grammar.Correctness
import BlockScript.Proofs.Tree.Digits
import BlockScript.Value
import Mathlib.Algebra.Group.Nat.Defs
/-!
# Trees that are read

What the nodes of a program look like that has been read from a text, apart from their slots: which
nodes stand where, and which values literals have. Checking keeps to this.
-/
namespace BlockScript

def Decimal.Pointed (d : Decimal) : Prop := ∃ s c e, d = .finite s c e ∧ e ≤ -1

/-- A value that a program can write down: no integer of too many digits, only decimals that have a
point, characters that are single characters, and nothing that only JSON has. -/
def Literal.Plain : Literal → Prop
  | .integer n => n.natAbs < Text.digitBound
  | .decimal d => d.Pointed
  | .character s => s.length = 1
  | .raw _ => False
  | _ => True

theorem eq_absent {node : Node} (h : node.isAbsent = true) : node = .absent := by
  cases node <;> first | rfl | cases h

/-- The text is a name: letters, digits and underscores, and no digit comes first. -/
def IsName (name : String) : Prop := TokenKind.identifier.fits name.toList = true

/-- An expression that can stand where operators of rank at most `limit` may stand outside of
parentheses. The left operand of an operator may have operators of the same level, the right one
only tighter ones. -/
inductive WrittenOperand : Nat → Node → Prop where
  | literal {limit : Nat} {value : Literal} {t : Option StaticType} (plain : value.Plain) :
      WrittenOperand limit (.literal value t)
  | group {limit : Nat} {inner : Node} {t : Option StaticType}
      (inside : WrittenOperand Rule.Level.logical.rank inner) :
      WrittenOperand limit (.group inner t)
  | binary {limit : Nat} {level : Rule.Level} {operator : String} {left right : Node}
      {t : Option StaticType} (known : operator ∈ level.operators) (reach : level.rank ≤ limit)
      (first : WrittenOperand level.rank left) (second : WrittenOperand (level.rank - 1) right) :
      WrittenOperand limit (.binary operator left right t)
  | access {limit : Nat} {name : String} {t : Option StaticType} {v : Option StaticVariable}
      (spelled : IsName name) : WrittenOperand limit (.access .absent name t v)
  | member {limit : Nat} {receiver : Node} {name : String} {t : Option StaticType}
      {v : Option StaticVariable} (object : WrittenOperand 0 receiver) (spelled : IsName name) :
      WrittenOperand limit (.access receiver name t v)
  | call {limit : Nat} {name : String} {arguments : List Node} {t : Option StaticType}
      {f : Option StaticFunction} (spelled : IsName name)
      (passed : ∀ node ∈ arguments, WrittenOperand Rule.Level.logical.rank node) :
      WrittenOperand limit (.call .absent name arguments t f)
  | methodCall {limit : Nat} {receiver : Node} {name : String} {arguments : List Node}
      {t : Option StaticType} {f : Option StaticFunction} (object : WrittenOperand 0 receiver)
      (spelled : IsName name)
      (passed : ∀ node ∈ arguments, WrittenOperand Rule.Level.logical.rank node) :
      WrittenOperand limit (.call receiver name arguments t f)

abbrev WrittenExpression (node : Node) : Prop := WrittenOperand Rule.Level.logical.rank node

def WrittenInitial (node : Node) : Prop := node = .absent ∨ WrittenExpression node

/-- A part of the header of a loop: an assignment to a name, or nothing. -/
inductive WrittenHeader : Node → Prop where
  | none : WrittenHeader .absent
  | some {name : String} {t : Option StaticType} {v : Option StaticVariable} {value : Node}
      (spelled : IsName name) (assigned : WrittenExpression value) :
      WrittenHeader (.assign (.access .absent name t v) value)

inductive WrittenStatement : Node → Prop where
  | exprStmt {expression : Node} (whole : WrittenExpression expression) :
      WrittenStatement (.exprStmt expression)
  | declaration {name : String} {typeName : Option String} {value : Node}
      {v : Option StaticVariable} (initial : WrittenInitial value) :
      WrittenStatement (.declaration name typeName value v)
  | assign {receiver value : Node} (left : WrittenExpression receiver)
      (right : WrittenExpression value) : WrittenStatement (.assign receiver value)
  | ifStmt {condition : Node} {thens elses : List Node} (test : WrittenExpression condition)
      (first : ∀ node ∈ thens, WrittenStatement node)
      (second : ∀ node ∈ elses, WrittenStatement node) :
      WrittenStatement (.ifStmt condition thens elses)
  | forStmt {initialization condition increment : Node} {statements : List Node}
      (before : WrittenHeader initialization) (test : WrittenExpression condition)
      (after : WrittenHeader increment) (body : ∀ node ∈ statements, WrittenStatement node) :
      WrittenStatement (.forStmt initialization condition increment statements)
  | whileStmt {condition : Node} {statements : List Node} (test : WrittenExpression condition)
      (body : ∀ node ∈ statements, WrittenStatement node) :
      WrittenStatement (.whileStmt condition statements)
  | returnStmt {value : Node} (whole : WrittenExpression value) :
      WrittenStatement (.returnStmt value)

inductive WrittenField : Node → Prop where
  | field {name : String} {typeName : Option String} {constant : Bool} {value : Node}
      {v : Option StaticVariable} (initial : WrittenInitial value) :
      WrittenField (.field name typeName constant value v)

/-- There is a place for the type of each parameter. -/
inductive WrittenMethod : Node → Prop where
  | method {name : String} {parameters : List String} {parameterTypes : List (Option String)}
      {returnType : Option String} {statements : List Node} {f : Option StaticFunction}
      (paired : parameterTypes.length = parameters.length)
      (body : ∀ node ∈ statements, WrittenStatement node) :
      WrittenMethod (.method name parameters parameterTypes returnType statements f)

inductive WrittenProgram : Node → Prop where
  | source {fields methods : List Node} (first : ∀ node ∈ fields, WrittenField node)
      (second : ∀ node ∈ methods, WrittenMethod node) : WrittenProgram (.source fields methods)

theorem Rule.Level.rank_le (level : Rule.Level) : level.rank ≤ Rule.Level.logical.rank := by
  cases level <;> decide

namespace WrittenOperand

variable {limit : Nat} {node : Node}

theorem isAbsent (h : WrittenOperand limit node) : node.isAbsent = false := by
  cases h <;> rfl

/-- An expression can stand wherever no level is out of reach that was in reach. -/
theorem widen (h : WrittenOperand limit node) {limit' : Nat}
    (hreach : ∀ level : Rule.Level, level.rank ≤ limit → level.rank ≤ limit') :
    WrittenOperand limit' node := by
  cases h with
  | literal plain => exact .literal plain
  | group inside => exact .group inside
  | binary known reach first second => exact .binary known (hreach _ reach) first second
  | access spelled => exact .access spelled
  | member object spelled => exact .member object spelled
  | call spelled passed => exact .call spelled passed
  | methodCall object spelled passed => exact .methodCall object spelled passed

theorem mono (h : WrittenOperand limit node) {limit' : Nat} (hle : limit ≤ limit') :
    WrittenOperand limit' node :=
  h.widen fun _ hreach => hreach.trans hle

theorem expression (h : WrittenOperand limit node) : WrittenExpression node :=
  h.widen fun level _ => level.rank_le

end WrittenOperand

theorem Text.digit_le {c : Char} (h : isAsciiDigit c = true) : c.toNat - '0'.toNat ≤ 9 := by
  simp only [isAsciiDigit, Bool.and_eq_true, decide_eq_true_eq, Char.le_def,
    UInt32.le_iff_toNat_le] at h
  have hle : c.toNat ≤ 57 := h.2
  have hzero : '0'.toNat = 48 := rfl
  omega

theorem Text.foldl_digits_lt {cs : List Char} (h : ∀ c ∈ cs, isAsciiDigit c = true) (n : Nat) :
    cs.foldl (fun n c => 10 * n + (c.toNat - '0'.toNat)) n < (n + 1) * 10 ^ cs.length := by
  induction cs generalizing n with
  | nil => simp
  | cons c cs ih =>
    simp only [List.mem_cons, forall_eq_or_imp] at h
    have hc := digit_le h.1
    rw [List.foldl_cons, List.length_cons, Nat.pow_succ, Nat.mul_comm (10 ^ cs.length),
      ← Nat.mul_assoc]
    exact Nat.lt_of_lt_of_le (ih h.2 _) (Nat.mul_le_mul_right _ (by omega))

theorem Text.ofDigits_lt {cs : List Char} (h : ∀ c ∈ cs, isAsciiDigit c = true) :
    ofDigits cs < 10 ^ cs.length := by
  have hlt := foldl_digits_lt h 0
  rwa [Nat.zero_add, Nat.one_mul] at hlt

theorem Text.pow_le_digitBound {k : Nat} (h : k ≤ digitLimit) : 10 ^ k ≤ digitBound := by
  unfold digitBound
  generalize digitLimit = limit at h ⊢
  exact Nat.pow_le_pow_right (by decide) h

theorem Decimal.pointed_decimalValue {cs : List Char}
    (h : TokenKind.decimal.fits (Text.splitSign cs).2 = true) :
    (Grammar.decimalValue cs).Pointed := by
  unfold Grammar.decimalValue
  generalize Text.splitSign cs = parts at h ⊢
  obtain ⟨negative, body⟩ := parts
  refine ⟨_, _, _, rfl, ?_⟩
  simp only [TokenKind.fits] at h
  split at h
  · next fs hdrop =>
    simp only [Bool.and_eq_true, Bool.not_eq_true', List.isEmpty_eq_false_iff, List.all_eq_true] at h
    obtain ⟨⟨-, hne⟩, hdigits⟩ := h
    have hafter : body.drop ((body.takeWhile Text.isAsciiDigit).length + 1) = fs := by
      have hbody := List.takeWhile_append_dropWhile (p := Text.isAsciiDigit) (l := body)
      generalize body.takeWhile Text.isAsciiDigit = whole at hbody ⊢
      rw [hdrop] at hbody
      simp [← hbody]
    have hfraction : fs.takeWhile Text.isAsciiDigit = fs := List.takeWhile_eq_self_iff.mpr hdigits
    have hpos := List.length_pos_iff.mpr hne
    rw [hafter, hfraction]
    omega
  · cases h

namespace Grammar

def AllReadable (ts : List Token) : Prop := ∀ t ∈ ts, t.Shaped ∧ t.Readable

def Phrase.Written : Phrase → Prop
  | .source tree => WrittenProgram tree
  | .fields trees => ∀ tree ∈ trees, WrittenField tree
  | .methods trees => ∀ tree ∈ trees, WrittenMethod tree
  | .initialValue tree => WrittenInitial tree
  | .statements trees | .elseBranch trees => ∀ tree ∈ trees, WrittenStatement tree
  | .statement tree => WrittenStatement tree
  | .header tree => WrittenHeader tree
  | .operation level tree => WrittenOperand level.rank tree
  | .operand level tree => WrittenOperand (level.rank - 1) tree
  | .secondary tree | .primary tree => WrittenOperand 0 tree
  | .operations level left tree =>
    WrittenOperand level.rank left → WrittenOperand level.rank tree
  | .members left tree => WrittenOperand 0 left → WrittenOperand 0 tree
  | .arguments trees | .moreArguments trees => ∀ tree ∈ trees, WrittenExpression tree
  | _ => True

variable {leaf : Token → Prop} {p : Phrase} {t : Token} {ts rest : List Token}

theorem AllReadable.tail (h : AllReadable (t :: ts)) : AllReadable ts :=
  fun u hu => h u (List.mem_cons_of_mem t hu)

theorem AllReadable.after (h : AllReadable ts) (d : Derivation leaf p ts rest) :
    AllReadable rest := fun t ht => h t (d.suffix.subset ht)

theorem isName_of_shaped (h : AllReadable (t :: ts)) (hk : t.kind = .identifier) :
    IsName t.literal := by
  obtain ⟨hshaped, -⟩ := h t List.mem_cons_self
  unfold Token.Shaped at hshaped
  rwa [if_neg (by simp [Token.isNumber, hk]), hk] at hshaped

theorem plain_integer (h : AllReadable (t :: ts)) (hk : t.kind = .integer) :
    (Literal.integer (integerValue t.literal.toList)).Plain := by
  obtain ⟨hshaped, hreadable⟩ := h t List.mem_cons_self
  have hdigits : ∀ c ∈ (Text.splitSign t.literal.toList).2, Text.isAsciiDigit c = true := by
    unfold Token.Shaped at hshaped
    rw [if_pos (by simp [Token.isNumber, hk]), hk] at hshaped
    simpa [TokenKind.fits] using (Bool.and_eq_true_iff.mp hshaped).2
  have hlt := Nat.lt_of_lt_of_le (Text.ofDigits_lt hdigits)
    (Text.pow_le_digitBound (hreadable hk))
  unfold Literal.Plain integerValue
  dsimp only
  split <;> simpa using hlt

theorem plain_decimal (h : AllReadable (t :: ts)) (hk : t.kind = .decimal) :
    (Literal.decimal (decimalValue t.literal.toList)).Plain := by
  obtain ⟨hshaped, -⟩ := h t List.mem_cons_self
  unfold Token.Shaped at hshaped
  rw [if_pos (by simp [Token.isNumber, hk]), hk] at hshaped
  exact Decimal.pointed_decimalValue hshaped

/-- A phrase that is derived from readable tokens stands for what a program can write. -/
theorem Derivation.written (d : Derivation leaf p ts rest) (h : AllReadable ts) : p.Written := by
  induction d with
  | source fields methods ih₁ ih₂ => exact .source (ih₁ h) (ih₂ (h.after fields))
  | fieldsCons letWord mark name clause initial stop more ih₁ ih₂ ih₃ ih₄ =>
    have h₁ := (h.tail.after mark).tail
    have h₂ := h₁.after clause
    exact List.forall_mem_cons.mpr ⟨.field (ih₃ h₂), ih₄ (h₂.after initial).tail⟩
  | methodsCons defWord name opens params closes clause doWord statements endWord more ih₁ ih₂ ih₃
      ih₄ =>
    have h₁ := (h.tail.tail.tail.after params).tail
    have h₂ := (h₁.after clause).tail
    exact List.forall_mem_cons.mpr
      ⟨.method (by simp) (ih₃ h₂), ih₄ (h₂.after statements).tail⟩
  | initialNone => exact .inl rfl
  | initialSome equals expression ih => exact .inr (ih h.tail)
  | statementsCons head more ih₁ ih₂ =>
    exact List.forall_mem_cons.mpr ⟨ih₁ h, ih₂ (h.after head)⟩
  | declaration letWord name clause initial stop ih₁ ih₂ =>
    exact .declaration (ih₂ (h.tail.tail.after clause))
  | ifStmt ifWord test doWord first second endWord ih₁ ih₂ ih₃ =>
    have h₁ := (h.tail.after test).tail
    exact .ifStmt (ih₁ h.tail) (ih₂ h₁) (ih₃ (h₁.after first))
  | elseSome elseWord statements ih => exact ih h.tail
  | forStmt forWord opens before stop₁ test stop₂ after closes statements endWord ih₁ ih₂ ih₃ ih₄ =>
    have h₁ := (h.tail.tail.after before).tail
    have h₂ := (h₁.after test).tail
    exact .forStmt (ih₁ h.tail.tail) (ih₂ h₁) (ih₃ h₂) (ih₄ (h₂.after after).tail)
  | headerNone => exact .none
  | headerSome name equals expression ih => exact .some (isName_of_shaped h name.1) (ih h.tail.tail)
  | whileStmt whileWord test doWord statements endWord ih₁ ih₂ =>
    exact .whileStmt (ih₁ h.tail) (ih₂ (h.tail.after test).tail)
  | returnStmt returnWord expression stop ih => exact .returnStmt (ih h.tail)
  | exprStmt whole stop ih => exact .exprStmt (ih h)
  | assign left equals right stop ih₁ ih₂ => exact .assign (ih₁ h) (ih₂ (h.after left).tail)
  | operation first more ih₁ ih₂ => exact ih₂ (h.after first) ((ih₁ h).mono (Nat.sub_le _ _))
  | operandTighter next inner ih =>
    have hrank := Rule.Level.rank_of_tighter? next
    exact (ih h).mono (by omega)
  | operandTightest last inner ih => exact (ih h).mono (Nat.zero_le _)
  | operationsNil => exact id
  | operationsCons operator next more ih₁ ih₂ =>
    exact fun hl => ih₂ (h.tail.after next) (.binary operator (Nat.le_refl _) hl (ih₁ h.tail))
  | secondary first more ih₁ ih₂ => exact ih₂ (h.after first) (ih₁ h)
  | membersNil => exact id
  | membersAccess point name more ih =>
    exact fun hn => ih h.tail.tail (.member hn (isName_of_shaped h.tail name.1))
  | membersCall point name opens list closes more ih₁ ih₂ =>
    have h₁ := h.tail.tail.tail
    have hn := isName_of_shaped h.tail name.1
    exact fun hnode => ih₂ (h₁.after list).tail (.methodCall hnode hn (ih₁ h₁))
  | nilWord word => exact .literal trivial
  | trueWord word => exact .literal trivial
  | falseWord word => exact .literal trivial
  | integer number => exact .literal (plain_integer h number.1)
  | decimal number => exact .literal (plain_decimal h number.1)
  | character quoted => exact .literal (String.length_singleton)
  | string quoted => exact .literal trivial
  | group opens expression closes ih => exact .group (ih h.tail)
  | name name => exact .access (isName_of_shaped h name.1)
  | call name opens list closes ih => exact .call (isName_of_shaped h name.1) (ih h.tail.tail)
  | argumentsSome expression more ih₁ ih₂ =>
    exact List.forall_mem_cons.mpr ⟨ih₁ h, ih₂ (h.after expression)⟩
  | moreArgumentsCons comma expression more ih₁ ih₂ =>
    have h₁ := h.tail
    exact List.forall_mem_cons.mpr ⟨ih₁ h₁, ih₂ (h₁.after expression)⟩
  | fieldsNil | methodsNil | statementsNil | elseNone | argumentsNone | moreArgumentsNil =>
    exact fun _ hmem => absurd hmem List.not_mem_nil
  | _ => trivial

/-- A tree that is read from a text is derived from readable tokens. -/
theorem derives_readable {text : String} {tree : Node} (h : readProgram text = .ok tree) :
    ∃ ts, AllReadable ts ∧ Nonempty (Derivation anyLeaf (.source tree) ts []) := by
  obtain ⟨ts, hts, hshaped, hd⟩ := derives_of_readProgram h
  obtain ⟨rest, hreturns⟩ := (readProgram_eq_ok_iff hts).mp h
  obtain ⟨taken, htaken, hiff, -⟩ := Rule.takes_source ts
  obtain ⟨hrest, -⟩ := (source_sound ts).of_returns hreturns
  subst hrest
  rw [hreturns] at htaken hiff
  simp only [List.append_nil, reduceCtorEq, iff_false, not_exists, not_and, not_not] at htaken hiff
  exact ⟨ts, fun t ht => ⟨hshaped t ht, hiff t (htaken ▸ ht)⟩, hd⟩

/-- A tree that is read from a text is one that a program can write. -/
theorem written_of_readProgram {text : String} {tree : Node} (h : readProgram text = .ok tree) :
    WrittenProgram tree := by
  obtain ⟨ts, hreadable, ⟨d⟩⟩ := derives_readable h
  exact d.written hreadable

end Grammar

end BlockScript
