import BlockScript.Proofs.Grammar.Operands
import BlockScript.Proofs.Grammar.Places
import Mathlib
/-!
# Spacing behind a sign

A sign that is not part of a number stands behind an operand. If this does not end with a name that
is spelled like a keyword, the sign stays apart from a number directly behind it, so the layout
between them can be left out. Behind such a name it cannot.
-/
namespace BlockScript

open Text Grammar

variable {text : String} {last : Option Token} {index : Nat} {cs : List Char} {tree : Node}
  {sign next : Token} {before after : List Token}

/-- What can end an operand of the grammar does so for signs, unless it is spelled like a
keyword. -/
theorem endsOperand_of_endsTerm (h : EndsTerm last) (hshaped : ∀ t ∈ last, t.Shaped)
    (hkeyword : ∀ t ∈ last, t.kind = .identifier → t.literal ∉ keywords) :
    last.any Token.endsOperand = true := by
  obtain ⟨t, rfl, ht⟩ := h
  rw [Option.any_some, Token.endsOperand]
  cases hk : t.kind with
  | identifier => simpa using hkeyword t rfl hk
  | operator =>
    have hend : t.literal ∈ [")", "NIL", "TRUE", "FALSE"] := ht.resolve_left fun hno => hno hk
    by_cases hclose : t.literal = ")"
    · simp [hclose]
    · have hword : t.literal ∈ reserved := by
        have hrest : t.literal ∈ ["NIL", "TRUE", "FALSE"] := by simpa [hclose] using hend
        exact List.mem_append_right _ hrest
      have hname := (hshaped t rfl).kind_of_reserved hword
      rw [hk] at hname
      cases hname
  | _ => rfl

/-- A sign and layout in front of it begin as they do, whatever stands behind the sign. -/
theorem head?_gap_sign {gap : List Char} (hgap : Gap gap) (hsign : sign.isSign = true) :
    ∃ c, c ≠ '.' ∧ ∀ cs, (gap ++ (sign.literal.toList ++ cs)).head? = some c := by
  cases gap with
  | nil =>
    obtain ⟨-, hs | hs⟩ := Token.isSign_iff.mp hsign
    · exact ⟨'+', by decide, fun cs => by rw [hs]; rfl⟩
    · exact ⟨'-', by decide, fun cs => by rw [hs]; rfl⟩
  | cons c gap =>
    refine ⟨c, ?_, fun cs => rfl⟩
    rintro rfl
    exact absurd (hgap '.' List.mem_cons_self) (by decide)

/-- Behind an operand, a sign and the token behind it are read the same with nothing between
them. -/
theorem tiling_without_gap (h : Tiling Token.Reads none 0 cs (before ++ sign :: next :: after))
    (hsign : sign.isSign = true) (hlast : (lastOf none before).any Token.endsOperand = true) :
    ∃ us, Tiling Token.Reads none 0 (cs.take sign.finish ++ cs.drop next.index) us ∧
      us.map Token.unplaced = (before ++ sign :: next :: after).map Token.unplaced := by
  obtain ⟨a, b, hcs, hb, hother⟩ := h.split
  cases hb with
  | @cons _ _ gap _ _ _ layout place own more =>
    cases more with
    | @cons _ _ gap' rest _ _ layout' place' own' more' =>
      -- The two tokens without the layout between them, and what stood behind them.
      let moved : Token := { next with index := sign.finish }
      have hbehind : (some moved).any Token.endsOperand = (some next).any Token.endsOperand := rfl
      obtain ⟨us, hus, hsame⟩ := more'.move hbehind moved.finish
      have hnext : Tiling Token.Reads (some sign) sign.finish (next.literal.toList ++ rest)
          (moved :: us) := Tiling.first (own'.move _) hus
      have hreads : sign.Reads (lastOf none before) (next.literal.toList ++ rest) :=
        .plain (Token.stands_of_isSign hsign) fun _ hno => by simp [hlast] at hno
      obtain ⟨c, hdot, hhead⟩ := head?_gap_sign layout hsign
      have htiling := hother _ _ ((hhead _).trans (hhead _).symm) (by rw [hhead]; simpa using hdot)
        (Tiling.cons layout place hreads hnext)
      -- In the text they are what stands before the end of the sign and behind the layout.
      have hsplit : cs = (a ++ (gap ++ sign.literal.toList)) ++
          (gap' ++ (next.literal.toList ++ rest)) := by
        rw [hcs]
        simp
      have hfinish : sign.finish = (a ++ (gap ++ sign.literal.toList)).length := by
        simp only [Token.finish, place, List.length_append, String.length_toList]
        omega
      have htake : cs.take sign.finish = a ++ (gap ++ sign.literal.toList) := by
        rw [hsplit, hfinish, List.take_left]
      have hdrop : cs.drop next.index = next.literal.toList ++ rest := by
        rw [hsplit, place', hfinish, ← List.drop_drop, List.drop_left, List.drop_left]
      refine ⟨before ++ sign :: moved :: us, ?_, ?_⟩
      · rw [htake, hdrop]
        simpa using htiling
      · simp only [List.map_append, List.map_cons, hsame]
        rfl

/-- In a program, the layout between a binary sign and the token behind it can be left out, if the
operand before the sign does not end with a name that is spelled like a keyword. The tokens stay the
same, the sign apart from a number that follows, and so does the tree. -/
theorem binary_sign_spacing (hread : readProgram text = .ok tree)
    (hts : tokensOf text = .ok (before ++ sign :: next :: after)) (hsign : sign.isSign = true)
    (hkeyword : ∀ t ∈ before.getLast?, t.kind = .identifier → t.literal ∉ keywords) :
    ∃ us, tokensOf (String.ofList (text.toList.take sign.finish ++ text.toList.drop next.index)) =
        .ok us ∧
      us.map (fun t => (t.kind, t.literal)) =
        (before ++ sign :: next :: after).map (fun t => (t.kind, t.literal)) ∧
      readProgram (String.ofList (text.toList.take sign.finish ++ text.toList.drop next.index)) =
        .ok tree := by
  obtain ⟨ts, hts', hshaped, ⟨d⟩⟩ := derives_of_readProgram hread
  cases hts.symm.trans hts'
  have hlast : (lastOf none before).any Token.endsOperand = true := by
    have hends : EndsTerm (lastOf none before) := (signsBehind_of_source d).before hsign
    rw [lastOf, Option.or_none] at hends ⊢
    refine endsOperand_of_endsTerm hends (fun t ht => ?_) hkeyword
    exact hshaped t (List.mem_append_left _ (List.mem_of_getLast? ht))
  obtain ⟨us, htiling, hsame⟩ := tiling_without_gap (tokensOf_eq_ok_iff.mp hts) hsign hlast
  have hus : tokensOf
      (String.ofList (text.toList.take sign.finish ++ text.toList.drop next.index)) = .ok us :=
    tokensOf_eq_ok_iff.mpr (by simpa using htiling)
  refine ⟨us, hus, kinds_of_unplaced hsame, ?_⟩
  obtain ⟨tree', htree, htree'⟩ | ⟨fault, count, hfault, -⟩ := readProgram_alike hts hus hsame
  · cases hread.symm.trans htree
    exact htree'
  · cases hread.symm.trans hfault

/-- A sign behind a closing parenthesis, with layout before a number. -/
theorem binary_sign_spacing_group :
    readProgram "LET x = (3) -  5;" = .ok (.source [.field "x" none false
      (.binary "-" (.group (.literal (.integer 3) none) none) (.literal (.integer 5) none) none)
      none] []) ∧
    tokensOf "LET x = (3) -  5;" = .ok ([⟨.identifier, "LET", 0⟩, ⟨.identifier, "x", 4⟩,
      ⟨.operator, "=", 6⟩, ⟨.operator, "(", 8⟩, ⟨.integer, "3", 9⟩, ⟨.operator, ")", 10⟩] ++
      ⟨.operator, "-", 12⟩ :: ⟨.integer, "5", 15⟩ :: [⟨.operator, ";", 16⟩]) ∧
    readProgram "LET x = (3) -5;" = .ok (.source [.field "x" none false
      (.binary "-" (.group (.literal (.integer 3) none) none) (.literal (.integer 5) none) none)
      none] []) := by
  have hread : readProgram "LET x = (3) -  5;" = .ok (.source [.field "x" none false
      (.binary "-" (.group (.literal (.integer 3) none) none) (.literal (.integer 5) none) none)
      none] []) := by
    cbv
  have htokens : tokensOf "LET x = (3) -  5;" = .ok ([⟨.identifier, "LET", 0⟩,
      ⟨.identifier, "x", 4⟩, ⟨.operator, "=", 6⟩, ⟨.operator, "(", 8⟩, ⟨.integer, "3", 9⟩,
      ⟨.operator, ")", 10⟩] ++
      ⟨.operator, "-", 12⟩ :: ⟨.integer, "5", 15⟩ :: [⟨.operator, ";", 16⟩]) := by
    cbv
  obtain ⟨us, -, -, hclose⟩ := binary_sign_spacing hread htokens (by decide) (by decide)
  exact ⟨hread, htokens, hclose⟩

/-- Behind a name that is spelled like a keyword the spacing of a sign matters. -/
theorem keyword_sign_spacing_matters :
    readProgram "LET DO = 2; DEF main(): Integer DO RETURN DO - 1; END" =
      .ok (.source [.field "DO" none false (.literal (.integer 2) none) none]
        [.method "main" [] [] (some "Integer") [.returnStmt (.binary "-"
          (.access .absent "DO" none none) (.literal (.integer 1) none) none)] none]) ∧
    tokensOf "LET DO = 2; DEF main(): Integer DO RETURN DO - 1; END" =
      .ok ([⟨.identifier, "LET", 0⟩, ⟨.identifier, "DO", 4⟩, ⟨.operator, "=", 7⟩,
        ⟨.integer, "2", 9⟩, ⟨.operator, ";", 10⟩, ⟨.identifier, "DEF", 12⟩,
        ⟨.identifier, "main", 16⟩, ⟨.operator, "(", 20⟩, ⟨.operator, ")", 21⟩,
        ⟨.operator, ":", 22⟩, ⟨.identifier, "Integer", 24⟩, ⟨.identifier, "DO", 32⟩,
        ⟨.identifier, "RETURN", 35⟩, ⟨.identifier, "DO", 42⟩] ++
        ⟨.operator, "-", 45⟩ :: ⟨.integer, "1", 47⟩ ::
        [⟨.operator, ";", 48⟩, ⟨.identifier, "END", 50⟩]) ∧
    readProgram (String.ofList
      ("LET DO = 2; DEF main(): Integer DO RETURN DO - 1; END".toList.take 46 ++
        "LET DO = 2; DEF main(): Integer DO RETURN DO - 1; END".toList.drop 47)) =
      .error (.parse (.expected "';'") 45) := by
  refine ⟨?_, ?_, ?_⟩ <;> cbv

end BlockScript
