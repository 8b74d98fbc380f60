import BlockScript.Proofs.Java.Layout
import BlockScript.Proofs.Java.Names
import BlockScript.Proofs.Typing.Outline
import Mathlib
/-!
# No text leaves its quotes

Every text of a checked program stands between quotes of its own in Java, and what stands outside
of quotes is the same whatever the texts are: brackets that fit together, on lines as deep as they
stand in braces.
-/
namespace BlockScript.Java

section Pieces

variable {p p' : Piece} {ps ps' : List Piece} {before after : List (Char × String)}
  {t t' : Char × String}

theorem literal?_ofText (t : Char × String) : (Piece.ofText t).literal? = some (quoted t.1 t.2) :=
  rfl

/-- A literal is given by its text. -/
theorem eq_of_literal? {s : String} (h : p.literal? = some s) (h' : p'.literal? = some s) :
    p = p' := by
  cases p with
  | plain c => cases h
  | quoted quote tail =>
    cases p' with
    | plain c => cases h'
    | quoted quote' tail' =>
      have hchars := String.ofList_injective (Option.some.inj (h.trans h'.symm))
      obtain ⟨rfl, rfl⟩ := List.cons.inj hchars
      rfl

/-- Pieces with the same outline are the same, unless both are literals. -/
theorem outline_cases (h : p.outline = p'.outline) :
    p = p' ∧ p.literal? = none ∨ ∃ s s', p.literal? = some s ∧ p'.literal? = some s' := by
  cases p with
  | plain c =>
    cases p' with
    | plain c' => exact .inl ⟨h, rfl⟩
    | quoted quote' tail' => cases h
  | quoted quote tail =>
    cases p' with
    | plain c' => cases h
    | quoted quote' tail' => exact .inr ⟨_, _, rfl, rfl⟩

theorem literals_cons_none (h : p.literal? = none) : literals (p :: ps) = literals ps :=
  List.filterMap_cons_none h

theorem literals_cons_some {s : String} (h : p.literal? = some s) :
    literals (p :: ps) = s :: literals ps :=
  List.filterMap_cons_some h

/-- Pieces are given by their outline and their literals. -/
theorem eq_of_literals_eq (houtline : ps.map Piece.outline = ps'.map Piece.outline)
    (h : literals ps = literals ps') : ps = ps' := by
  induction ps generalizing ps' with
  | nil => exact (List.map_eq_nil_iff.mp houtline.symm).symm
  | cons p ps ih =>
    cases ps' with
    | nil => cases houtline
    | cons p' ps' =>
      obtain ⟨hp, hps⟩ := List.cons.inj houtline
      obtain ⟨rfl, hnone⟩ | ⟨s, s', hs, hs'⟩ := outline_cases hp
      · rw [literals_cons_none hnone, literals_cons_none hnone] at h
        rw [ih hps h]
      · rw [literals_cons_some hs, literals_cons_some hs'] at h
        obtain ⟨rfl, hrest⟩ := List.cons.inj h
        rw [eq_of_literal? hs hs', ih hps hrest]

/-- Where the literals are those of texts of which one is another, only the piece of that one is
another. -/
theorem exists_replaced (houtline : ps.map Piece.outline = ps'.map Piece.outline)
    (h : literals ps = (before ++ t :: after).map fun t => quoted t.1 t.2)
    (h' : literals ps' = (before ++ t' :: after).map fun t => quoted t.1 t.2) :
    ∃ head tail, ps = head ++ .ofText t :: tail ∧ ps' = head ++ .ofText t' :: tail ∧
      (literals head).length = before.length := by
  induction ps generalizing ps' before with
  | nil =>
    rw [List.map_append, List.map_cons] at h
    exact absurd h.symm (List.append_ne_nil_of_right_ne_nil _ (List.cons_ne_nil _ _))
  | cons p ps ih =>
    cases ps' with
    | nil => cases houtline
    | cons p' ps' =>
      obtain ⟨hp, hps⟩ := List.cons.inj houtline
      obtain ⟨rfl, hnone⟩ | ⟨s, s', hs, hs'⟩ := outline_cases hp
      · rw [literals_cons_none hnone] at h h'
        obtain ⟨head, tail, rfl, rfl, hlength⟩ := ih hps h h'
        exact ⟨p :: head, tail, rfl, rfl, by rwa [literals_cons_none hnone]⟩
      · rw [literals_cons_some hs] at h
        rw [literals_cons_some hs'] at h'
        -- The other text comes here, or further behind.
        cases before with
        | nil =>
          obtain ⟨rfl, hrest⟩ := List.cons.inj h
          obtain ⟨rfl, hrest'⟩ := List.cons.inj h'
          rw [eq_of_literal? hs (literal?_ofText t), eq_of_literal? hs' (literal?_ofText t'),
            eq_of_literals_eq hps (hrest.trans hrest'.symm)]
          exact ⟨[], ps', rfl, rfl, rfl⟩
        | cons b before =>
          obtain ⟨rfl, hrest⟩ := List.cons.inj h
          obtain ⟨rfl, hrest'⟩ := List.cons.inj h'
          obtain ⟨head, tail, rfl, rfl, hlength⟩ := ih hps hrest hrest'
          rw [eq_of_literal? hs' hs]
          refine ⟨p :: head, tail, rfl, rfl, ?_⟩
          rw [literals_cons_some hs, List.length_cons, List.length_cons, hlength]

end Pieces

section Programs

variable {node : Node} {w' : Write Unit} {texts : List (Char × String)} {ps : List Piece}

/-- The Java text of a program is what is written from the beginning of a page. -/
theorem program_of_prints (h : ProgramInLines node)
    (hps : PrintsPieces ⟨[], some 0⟩ (write node) w' texts ⟨[], none⟩ ps) :
    program node = .ok (textOf ps) := by
  have hwrites : write node ⟨"", 0⟩ = .ok () ⟨"" ++ textOf ps, 0⟩ := hps.writes ""
  rw [String.empty_append] at hwrites
  cases node with
  | source fields methods =>
    unfold program writeOn
    dsimp only
    rw [hwrites]
  | _ => exact h.elim

theorem pieces?_textOf (h : ∀ p ∈ ps, p.Closed) : pieces? (textOf ps).toList = some ps := by
  rw [textOf, String.toList_ofList]
  exact pieces?_flatMap h

/-- Programs that differ in nothing but their texts are written with the same pieces outside of
quotes. -/
theorem outline_eq_of_prints {node' : Node} {texts' : List (Char × String)} {ps' : List Piece}
    (houtline : node'.outline = node.outline)
    (h : PrintsPieces ⟨[], some 0⟩ (write node) (write node.outline) texts ⟨[], none⟩ ps)
    (h' : PrintsPieces ⟨[], some 0⟩ (write node') (write node'.outline) texts' ⟨[], none⟩ ps') :
    ps.map Piece.outline = ps'.map Piece.outline := by
  have hclosed : ∀ {ps : List Piece}, (∀ p ∈ ps, p.Closed) →
      ∀ p ∈ ps.map Piece.outline, p.Closed :=
    fun h => List.forall_mem_map.mpr fun p hp => (h p hp).outline
  have hsame := h'.outlines ""
  rw [houtline, h.outlines ""] at hsame
  have htext := (Page.mk.inj (EStateM.Result.ok.inj hsame).2).1
  rw [String.empty_append, String.empty_append] at htext
  exact eq_of_flatMap_chars_eq (hclosed h.closed) (hclosed h'.closed)
    (String.ofList_injective htext)

variable {text : String} {level : Nat} {tree checked : Node} {c : Checker}

/-- For every program that is read from a text and checked, the Java text falls into literals and
the characters outside of them. The literals are the texts of the program between quotes, one after
another, and each ends on its line. Outside of them brackets fit together and every line is indented
by the braces that are open. With another text in the place of one the program is checked as well,
and its Java text is another in the literal of that text only. -/
theorem texts_stay_between_quotes (hread : readProgram text = .ok tree)
    (hcheck : (Checker.new level).check tree = (.ok checked, c)) :
    ∃ java ps, program checked = .ok java ∧ pieces? java.toList = some ps ∧
      literals ps = tree.texts.map (fun t => quoted t.1 t.2) ∧
      (∀ literal ∈ literals ps, '\n' ∉ literal.toList) ∧ '\r' ∉ java.toList ∧
      Balanced ps ∧ Indented ps ∧
      ∀ tree' before t t' after, tree'.outline = tree.outline →
        tree.texts = before ++ t :: after → tree'.texts = before ++ t' :: after →
        ∃ checked' java' head tail, (Checker.new level).check tree' = (.ok checked', c) ∧
          program checked' = .ok java' ∧ ps = head ++ .ofText t :: tail ∧
          pieces? java'.toList = some (head ++ .ofText t' :: tail) ∧
          (literals head).length = before.length := by
  have hlines := programInLines_of_check hread hcheck
  obtain ⟨ps, hps⟩ := prints_program hlines
  have htexts : checked.texts = tree.texts := Node.texts_congr (bare_of_check hcheck)
  refine ⟨textOf ps, ps, program_of_prints hlines hps, pieces?_textOf hps.closed, ?_,
    fun literal => newline_not_mem_of_closed hps.closed, ?_,
    Place.balanced_of_run hps.runs rfl, Place.indented_of_run hps.runs, ?_⟩
  · rw [hps.literals, htexts]
  · rw [textOf, String.toList_ofList]
    exact return_not_mem_of_closed hps.closed
  · intro tree' before t t' after houtline hbefore hafter
    obtain ⟨checked', hcheck', hsame⟩ := exists_check_of_outline hcheck houtline
    have hlines' := hlines.of_outline hsame
    obtain ⟨ps', hps'⟩ := prints_program hlines'
    have htexts' : checked'.texts = tree'.texts := Node.texts_congr (bare_of_check hcheck')
    have hliterals := hps.literals
    have hliterals' := hps'.literals
    rw [htexts, hbefore] at hliterals
    rw [htexts', hafter] at hliterals'
    obtain ⟨head, tail, hhead, hhead', hlength⟩ :=
      exists_replaced (outline_eq_of_prints hsame hps hps') hliterals hliterals'
    refine ⟨checked', textOf ps', head, tail, hcheck', program_of_prints hlines' hps', hhead, ?_,
      hlength⟩
    rw [← hhead']
    exact pieces?_textOf hps'.closed

/-- A character that is a quote, and a string in which a brace closes and a parenthesis opens. -/
theorem texts_stay_between_quotes_bracket :
    let tree (s : String) : Node := .source [] [.method "main" [] [] (some "Integer")
      [.declaration "c" none (.literal (.character "\"") none) none,
        .exprStmt (.call .absent "print" [.literal (.string s) none] none none),
        .returnStmt (.literal (.integer 0) none)] none]
    readProgram "DEF main(): Integer DO LET c = '\"'; print(\"\x7d ' (\"); RETURN 0; END" =
        .ok (tree "\x7d ' (") ∧
      ∃ checked c java ps, (Checker.new 0).check (tree "\x7d ' (") = (.ok checked, c) ∧
        program checked = .ok java ∧ pieces? java.toList = some ps ∧
        literals ps = ["'\\\"'", "\"\x7d \\' (\""] ∧ Balanced ps ∧ Indented ps ∧
        ∃ checked' java' head tail, (Checker.new 0).check (tree "") = (.ok checked', c) ∧
          program checked' = .ok java' ∧ ps = head ++ .ofText ('"', "\x7d ' (") :: tail ∧
          pieces? java'.toList = some (head ++ .ofText ('"', "") :: tail) := by
  intro tree
  have hread :
      readProgram "DEF main(): Integer DO LET c = '\"'; print(\"\x7d ' (\"); RETURN 0; END" =
        .ok (tree "\x7d ' (") := by
    cbv
  have hok : ((Checker.new 0).check (tree "\x7d ' (")).1.isOk = true := by decide +kernel
  cases hresult : (Checker.new 0).check (tree "\x7d ' (") with
  | mk result c =>
    cases result with
    | error fault =>
      rw [hresult] at hok
      cases hok
    | ok checked =>
      obtain ⟨java, ps, hjava, hps, hliterals, -, -, hbalanced, hindented, hreplaced⟩ :=
        texts_stay_between_quotes hread hresult
      have htexts : ∀ s, (tree s).texts = [('\'', "\"")] ++ ('"', s) :: [] := fun _ => rfl
      obtain ⟨checked', java', head, tail, hcheck', hjava', hhead, hhead', -⟩ :=
        hreplaced (tree "") _ _ _ _ rfl (htexts _) (htexts _)
      refine ⟨hread, checked, c, java, ps, rfl, hjava, hps, ?_, hbalanced, hindented, checked',
        java', head, tail, hcheck', hjava', hhead, hhead'⟩
      rw [hliterals, htexts]
      decide

end Programs

end BlockScript.Java
