import BlockScript.Proofs.Grammar.Bodies
import BlockScript.Proofs.Token.Splice
import Mathlib
/-!
# Bodies in their surroundings

The statements of a method, written instead as the body of a loop or behind `ELSE`, are read as the
same statements. The one exception is the body of a `FOR` loop that begins with a signed number. It
stands behind a parenthesis, where a sign is taken to stand behind an operand, so it is no part of
the number, and no statement begins with it.
-/
namespace BlockScript

open Text Grammar Rule Reading

variable {s front back text : String} {last last' : Option Token} {index place : Nat}
  {cs : List Char} {t e : Token} {ts us fs bs : List Token} {body fields : List Node}

def between (front s back : String) : String := front ++ " " ++ s ++ " " ++ back

def methodOf (statement : Node) : Node :=
  .source [] [.method "f" [] [] none [statement] none]

section Texts

/-- Two words that end what is open. -/
theorem tiling_ends (last : Option Token) (index : Nat) :
    Tiling Token.Reads last index "END END".toList
      [⟨.identifier, "END", index⟩, ⟨.identifier, "END", index + 4⟩] := by
  have hword : TokenKind.identifier.fits "END".toList = true := by decide
  exact (Tiling.name hword last index).append (by decide) (Tiling.name hword _ (index + 4))

/-- The tokens of a text between others. -/
theorem tokensOf_between (hfront : tokensOf front = .ok fs)
    (hs : Tiling Token.Reads (lastOf none fs) (front.length + 1) s.toList us)
    (hback : Tiling Token.Reads (lastOf (lastOf none fs) us) (front.length + 1 + s.length + 1)
      back.toList bs) :
    tokensOf (between front s back) = .ok (fs ++ (us ++ bs)) := by
  have hspace : isLayout ' ' = true := by decide
  have hrest : Tiling Token.Reads (lastOf none fs) (front.length + 1)
      (s.toList ++ ' ' :: back.toList) (us ++ bs) :=
    hs.append hspace (by simpa [String.length_toList] using hback)
  have hwhole : Tiling Token.Reads none 0
      (front.toList ++ ' ' :: (s.toList ++ ' ' :: back.toList)) (fs ++ (us ++ bs)) :=
    (tokensOf_eq_ok_iff.mp hfront).append hspace (by simpa [String.length_toList] using hrest)
  exact tokensOf_eq_ok_iff.mpr (by simpa [between] using hwhole)

/-- A text between others that have no quotes has tokens of its own. -/
theorem tiling_of_between (h : tokensOf (between front s back) = .ok ts)
    (hfront : tokensOf front = .ok fs) (hquotes : front.toList.any isQuote = false)
    (hquotes' : back.toList.any isQuote = false) :
    ∃ us bs, ts = fs ++ (us ++ bs) ∧
      Tiling Token.Reads (lastOf none fs) (front.length + 1) s.toList us ∧
      Tiling Token.Reads (lastOf (lastOf none fs) us) (front.length + 1 + s.length + 1)
        back.toList bs := by
  have hspace : isLayout ' ' = true := by decide
  have hwhole : Tiling Token.Reads none 0
      (front.toList ++ ' ' :: (s.toList ++ ' ' :: back.toList)) ts := by
    simpa [between] using tokensOf_eq_ok_iff.mp h
  obtain ⟨fs', rest, rfl, hfs, hrest⟩ := hwhole.cut hspace (.inl (by simpa using hquotes))
  obtain rfl := (tokensOf_eq_ok_iff.mp hfront).unique hfs
  obtain ⟨us, bs, rfl, hus, hbs⟩ := hrest.cut hspace (.inr (by simpa using hquotes'))
  rw [String.length_toList, Nat.zero_add] at hus
  rw [String.length_toList, String.length_toList, Nat.zero_add] at hbs
  exact ⟨us, bs, rfl, hus, hbs⟩

end Texts

section Surroundings

/-- The tokens are read as these statements, up to a word that ends them. -/
def ReadsBody (ts : List Token) (body : List Node) : Prop :=
  ∀ e : Token, e.literal = "END" → (block ["END"] (ts ++ [e])).Returns body [e]

def methodFront : List Token :=
  [⟨.identifier, "DEF", 0⟩, ⟨.identifier, "f", 4⟩, ⟨.operator, "(", 5⟩, ⟨.operator, ")", 6⟩,
    ⟨.identifier, "DO", 8⟩]

/-- The statements of a method are those of the text that stands in it. -/
theorem body_of_readProgram {name : String} {params : List String} {types : List (Option String)}
    {type : Option String} {slot : Option StaticFunction}
    (h : readProgram (between "DEF f() DO" s "END") =
      .ok (.source fields [.method name params types type body slot])) :
    ∃ ts, tokensOf s = .ok ts ∧ ReadsBody ts body := by
  have hfront : tokensOf "DEF f() DO" = .ok methodFront := by
    cbv
  obtain ⟨all, hall, -, -⟩ := derives_of_readProgram h
  obtain ⟨rest, hsource⟩ := (readProgram_eq_ok_iff hall).mp h
  obtain ⟨us, bs, rfl, hus, hbs⟩ := tiling_of_between hall hfront (by decide) (by decide)
  obtain rfl := (Tiling.name (by decide) _ _).unique hbs
  obtain ⟨e, -, hbody⟩ := body_of_source ⟨rfl, rfl, rfl, rfl, rfl⟩ hsource
  obtain ⟨ts, hts, hsame⟩ : ∃ ts, Tiling Token.Reads none 0 s.toList ts ∧
    ts.map Token.unplaced = us.map Token.unplaced := hus.move (by rfl) 0
  exact ⟨ts, tokensOf_eq_ok_iff.mpr hts, fun e he => block_steady hbody hsame he⟩

/-- Statements before two words `END` are read as they are alone, unless they stand behind an
operand and begin with a signed number. -/
theorem body_between_ends (hfront : tokensOf front = .ok fs) (hts : tokensOf s = .ok ts)
    (hbody : ReadsBody ts body) (hsigned : (lastOf none fs).any Token.endsOperand = true →
      ts.head?.any Token.isSigned = false) :
    ∃ us e e', tokensOf (between front s "END END") = .ok (fs ++ (us ++ [e, e'])) ∧
      (block ["END"] (us ++ [e, e'])).Returns body [e, e'] ∧ e.literal = "END" ∧
      e'.literal = "END" := by
  have halone := tokensOf_eq_ok_iff.mp hts
  obtain ⟨us, hus, hsame⟩ : ∃ us, Tiling Token.Reads (lastOf none fs) (front.length + 1)
      s.toList us ∧ us.map Token.unplaced = ts.map Token.unplaced := by
    cases hlast : (lastOf none fs).any Token.endsOperand with
    | true => exact halone.move_behind (hsigned hlast) hlast _
    | false => exact halone.move (by rw [hlast, Option.any_none]) _
  exact ⟨us, _, _, tokensOf_between hfront hus (tiling_ends _ _),
    block_steady (hbody ⟨.identifier, "END", 0⟩ rfl) hsame rfl, rfl, rfl⟩

/-- A statement by itself in a method. -/
theorem readProgram_methodOf {first : Node} (htokens : tokensOf text = .ok (methodFront ++ t :: ts))
    (ht : t.literal ≠ "END") (hfirst : (statement (t :: ts)).Returns first [e])
    (he : e.literal = "END") : readProgram text = .ok (methodOf first) :=
  (readProgram_eq_ok_iff htokens).mpr
    ⟨[], source_of_body ⟨rfl, rfl, rfl, rfl, rfl⟩ (block_single ht hfirst he) he⟩

/-- A fault in the first statement is that of the program. -/
theorem readProgram_fault {rest : List Token} {cause : ParseFault}
    (htokens : tokensOf text = .ok (methodFront ++ t :: ts)) (ht : t.literal ≠ "END")
    (hfirst : (statement (t :: ts)).outcome = (.error cause, rest)) :
    readProgram text = .error (.ofParse (methodFront ++ t :: ts) rest cause) := by
  have hbody : (block ["END"] (t :: ts)).outcome = (.error cause, rest) :=
    outcome_block_error (by simpa using ht) hfirst
  have hsource : (source (methodFront ++ t :: ts)).outcome = (.error cause, rest) :=
    outcome_source_error ⟨rfl, rfl, rfl, rfl, rfl⟩ hbody
  rw [readProgram_eq_applyRule htokens, applyRule_of_fault hsource]

/-- The statements as the body of a `WHILE` loop. -/
theorem readProgram_while (hts : tokensOf s = .ok ts) (hbody : ReadsBody ts body) :
    readProgram (between "DEF f() DO WHILE TRUE DO" s "END END") =
      .ok (methodOf (.whileStmt (.literal (.boolean true) none) body)) := by
  have hfront : tokensOf "DEF f() DO WHILE TRUE DO" = .ok [⟨.identifier, "DEF", 0⟩,
      ⟨.identifier, "f", 4⟩, ⟨.operator, "(", 5⟩, ⟨.operator, ")", 6⟩, ⟨.identifier, "DO", 8⟩,
      ⟨.identifier, "WHILE", 11⟩, ⟨.identifier, "TRUE", 17⟩, ⟨.identifier, "DO", 22⟩] := by
    cbv
  obtain ⟨us, e, e', htokens, hinner, he, he'⟩ := body_between_ends hfront hts hbody
    fun hends => absurd hends (by decide)
  exact readProgram_methodOf htokens (by decide) (statement_while_true rfl rfl rfl hinner he) he'

/-- The statements behind `ELSE`. -/
theorem readProgram_else (hts : tokensOf s = .ok ts) (hbody : ReadsBody ts body) :
    readProgram (between "DEF f() DO IF TRUE DO x; ELSE" s "END END") =
      .ok (methodOf (.ifStmt (.literal (.boolean true) none)
        [.exprStmt (.access .absent "x" none none)] body)) := by
  have hfront : tokensOf "DEF f() DO IF TRUE DO x; ELSE" = .ok [⟨.identifier, "DEF", 0⟩,
      ⟨.identifier, "f", 4⟩, ⟨.operator, "(", 5⟩, ⟨.operator, ")", 6⟩, ⟨.identifier, "DO", 8⟩,
      ⟨.identifier, "IF", 11⟩, ⟨.identifier, "TRUE", 14⟩, ⟨.identifier, "DO", 19⟩,
      ⟨.identifier, "x", 22⟩, ⟨.operator, ";", 23⟩, ⟨.identifier, "ELSE", 25⟩] := by
    cbv
  obtain ⟨us, e, e', htokens, hinner, he, he'⟩ := body_between_ends hfront hts hbody
    fun hends => absurd hends (by decide)
  exact readProgram_methodOf htokens (by decide)
    (statement_else rfl rfl rfl ⟨rfl, rfl⟩ rfl rfl hinner he) he'

theorem tokensOf_for : tokensOf "DEF f() DO FOR (; TRUE; )" = .ok [⟨.identifier, "DEF", 0⟩,
    ⟨.identifier, "f", 4⟩, ⟨.operator, "(", 5⟩, ⟨.operator, ")", 6⟩, ⟨.identifier, "DO", 8⟩,
    ⟨.identifier, "FOR", 11⟩, ⟨.operator, "(", 15⟩, ⟨.operator, ";", 16⟩,
    ⟨.identifier, "TRUE", 18⟩, ⟨.operator, ";", 22⟩, ⟨.operator, ")", 24⟩] := by
  cbv

/-- The statements as the body of a `FOR` loop, if they do not begin with a signed number. -/
theorem readProgram_for (hts : tokensOf s = .ok ts) (hbody : ReadsBody ts body)
    (hsigned : ts.head?.any Token.isSigned = false) :
    readProgram (between "DEF f() DO FOR (; TRUE; )" s "END END") =
      .ok (methodOf (.forStmt .absent (.literal (.boolean true) none) .absent body)) := by
  obtain ⟨us, e, e', htokens, hinner, he, he'⟩ :=
    body_between_ends tokensOf_for hts hbody fun _ => hsigned
  exact readProgram_methodOf htokens (by decide)
    (statement_for_true ⟨rfl, rfl, ⟨rfl, rfl⟩, rfl, rfl, ⟨rfl, rfl⟩⟩ hinner he) he'

/-- A `FOR` loop is not read if its body begins with a signed number. -/
theorem readProgram_for_signed (hts : tokensOf s = .ok (t :: ts)) (ht : t.isSigned = true) :
    readProgram (between "DEF f() DO FOR (; TRUE; )" s "END END") =
      .error (.parse .expectedExpression (26 + t.index)) := by
  obtain ⟨sign, us, hus, hsign, hindex⟩ :
      ∃ sign us, Tiling Token.Reads (some ⟨.operator, ")", 24⟩) 26 s.toList (sign :: us) ∧
        sign.isSign = true ∧ sign.index + 0 = 26 + t.index :=
    (tokensOf_eq_ok_iff.mp hts).apart_behind ht rfl 26
  have htokens := tokensOf_between tokensOf_for hus (tiling_ends _ _)
  have hfault := readProgram_fault htokens (by decide)
    (outcome_for_error ⟨rfl, rfl, ⟨rfl, rfl⟩, rfl, rfl, ⟨rfl, rfl⟩⟩ (outcome_block_sign hsign _))
  rw [hfault, ← hindex]
  rfl

/-- What is read as the statements of a method is read as the same statements in a `WHILE` loop and
behind `ELSE`, and in a `FOR` loop if it does not begin with a signed number. If it does, no
expression is found at the sign. -/
theorem bodies_read_alike {name : String} {params : List String} {types : List (Option String)}
    {type : Option String} {slot : Option StaticFunction}
    (h : readProgram (between "DEF f() DO" s "END") =
      .ok (.source fields [.method name params types type body slot])) :
    ∃ ts, tokensOf s = .ok ts ∧
      readProgram (between "DEF f() DO WHILE TRUE DO" s "END END") =
        .ok (methodOf (.whileStmt (.literal (.boolean true) none) body)) ∧
      readProgram (between "DEF f() DO IF TRUE DO x; ELSE" s "END END") =
        .ok (methodOf (.ifStmt (.literal (.boolean true) none)
          [.exprStmt (.access .absent "x" none none)] body)) ∧
      (ts.head?.any Token.isSigned = false →
        readProgram (between "DEF f() DO FOR (; TRUE; )" s "END END") =
          .ok (methodOf (.forStmt .absent (.literal (.boolean true) none) .absent body))) ∧
      ∀ t ∈ ts.head?, t.isSigned = true →
        readProgram (between "DEF f() DO FOR (; TRUE; )" s "END END") =
          .error (.parse .expectedExpression (26 + t.index)) := by
  obtain ⟨ts, hts, hbody⟩ := body_of_readProgram h
  refine ⟨ts, hts, readProgram_while hts hbody, readProgram_else hts hbody,
    readProgram_for hts hbody, fun t ht hsigned => ?_⟩
  obtain ⟨more, rfl⟩ := List.head?_eq_some_iff.mp ht
  exact readProgram_for_signed hts hsigned

/-- A signed number as the only statement. -/
theorem bodies_read_alike_signed :
    tokensOf "-1;" = .ok [⟨.integer, "-1", 0⟩, ⟨.operator, ";", 2⟩] ∧
    readProgram (between "DEF f() DO" "-1;" "END") =
      .ok (methodOf (.exprStmt (.literal (.integer (-1)) none))) ∧
    readProgram (between "DEF f() DO WHILE TRUE DO" "-1;" "END END") =
      .ok (methodOf (.whileStmt (.literal (.boolean true) none)
        [.exprStmt (.literal (.integer (-1)) none)])) ∧
    readProgram (between "DEF f() DO FOR (; TRUE; )" "-1;" "END END") =
      .error (.parse .expectedExpression 26) := by
  have htokens : tokensOf "-1;" = .ok [⟨.integer, "-1", 0⟩, ⟨.operator, ";", 2⟩] := by
    cbv
  have hread : readProgram (between "DEF f() DO" "-1;" "END") =
      .ok (methodOf (.exprStmt (.literal (.integer (-1)) none))) := by
    cbv
  obtain ⟨ts, hts, hwhile, -, -, hfor⟩ := bodies_read_alike hread
  cases htokens.symm.trans hts
  exact ⟨htokens, hread, hwhile, hfor _ rfl (by decide)⟩

/-- A method whose only statement is a signed number; in a `FOR` loop it is not read. -/
theorem signed_body_not_read :
    readProgram "DEF f() DO -1; END" =
      .ok (methodOf (.exprStmt (.literal (.integer (-1)) none))) ∧
    readProgram "DEF f() DO FOR (; TRUE; ) -1; END END" =
      .error (.parse .expectedExpression 26) := by
  constructor <;> cbv

end Surroundings

end BlockScript
