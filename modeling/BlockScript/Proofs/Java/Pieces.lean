import BlockScript.Proofs.Java.Scan
/-!
# Quotes, brackets and lines of Java

A text of Java falls into literals between quotes and the characters outside of them. Outside of
quotes brackets are to fit together, and a line is to stand as deep as it stands in braces. One pass
over the pieces of a text, which keeps the open brackets and the place on the line, decides both.
-/
namespace BlockScript.Java

/-- A character outside of quotes, or a literal of which `tail` is what comes after its opening
quote. -/
inductive Piece where
  | plain (c : Char)
  | quoted (quote : Char) (tail : List Char)
deriving DecidableEq, Repr

namespace Piece

def chars : Piece → List Char
  | plain c => [c]
  | quoted quote tail => quote :: tail

def literal? : Piece → Option String
  | plain _ => none
  | quoted quote tail => some (String.ofList (quote :: tail))

def ofText (t : Char × String) : Piece := quoted t.1 (escapeChars t.2.toList ++ [t.1])

def outline : Piece → Piece
  | plain c => plain c
  | quoted quote _ => quoted quote [quote]

end Piece

def isQuote (c : Char) : Bool := c == '\'' || c == '"'

/-- The pieces of a text. A literal opens at a quote and ends at the next quote of its kind that no
backslash takes along; there are no pieces if it does not end on its line. -/
def pieces? : List Char → Option (List Piece)
  | [] => some []
  | c :: cs =>
    if isQuote c then
      match quotedTail? c cs with
      | none => none
      | some tail => (pieces? (cs.drop tail.length)).map (.quoted c tail :: ·)
    else (pieces? cs).map (.plain c :: ·)
termination_by cs => cs.length
decreasing_by all_goals simp only [List.length_cons, List.length_drop]; omega

def literals (ps : List Piece) : List String := ps.filterMap Piece.literal?

def closeBracket (opening : Char) : List Char → Option (List Char)
  | c :: opened => if c = opening then some opened else none
  | [] => none

/-- The open brackets, the innermost first, after a piece; none if it closes another bracket than
the innermost. -/
def bracket (opened : List Char) : Piece → Option (List Char)
  | .plain '(' => some ('(' :: opened)
  | .plain '\x7b' => some ('\x7b' :: opened)
  | .plain ')' => closeBracket '(' opened
  | .plain '\x7d' => closeBracket '\x7b' opened
  | _ => some opened

/-- Every bracket is closed, and brackets that are opened later are closed earlier. -/
def Balanced (ps : List Piece) : Prop := ps.foldlM bracket [] = some []

def braceDepth (ps : List Piece) : Nat := ps.count (.plain '\x7b') - ps.count (.plain '\x7d')

/-- Every line that does not only have spaces begins with four of them for each brace that is open
before it. A closing brace with which a line begins counts as closed. -/
def Indented (ps : List Piece) : Prop :=
  ∀ before spaces first rest,
    ps = before ++ (List.replicate spaces (.plain ' ') ++ first :: rest) →
    (before = [] ∨ ∃ above, before = above ++ [.plain '\n']) →
    first ≠ .plain ' ' → first ≠ .plain '\n' →
    spaces = 4 * (if first = .plain '\x7d' then braceDepth before - 1 else braceDepth before)

/-- Where a text has come to: the open brackets, and how many spaces are on the line if there is
nothing else. -/
structure Place where
  opened : List Char
  column : Option Nat
deriving DecidableEq, Repr

namespace Place

def depth (σ : Place) : Nat := σ.opened.count '\x7b'

/-- The place after a piece. What comes first on a line has to be indented by the braces that are
open both before and after it. -/
def step (σ : Place) : Piece → Option Place
  | .plain '\n' => some ⟨σ.opened, some 0⟩
  | .plain ' ' => some ⟨σ.opened, σ.column.map (· + 1)⟩
  | piece =>
    (bracket σ.opened piece).bind fun opened =>
      if σ.column.all (· == 4 * min σ.depth (opened.count '\x7b')) then some ⟨opened, none⟩
      else none

def run (σ : Place) (ps : List Piece) : Option Place := ps.foldlM step σ

end Place

section Scanning

/-- A character that opens no literal. Of those that end a line it can only be the one that the
writer uses. -/
def isUnquoted (c : Char) : Bool := !isQuote c && c != '\r'

/-- A literal is found again wherever it stands and ends on the line on which it begins. -/
def Piece.Closed : Piece → Prop
  | plain c => isUnquoted c = true
  | quoted quote tail => isQuote quote = true ∧ '\n' ∉ tail ∧ '\r' ∉ tail ∧
      ∀ rest, quotedTail? quote (tail ++ rest) = some tail

theorem ne_of_isQuote {c d : Char} (h : isQuote c = true) (hd : isQuote d = false) : d ≠ c := by
  rintro rfl
  rw [hd] at h
  cases h

theorem Piece.Closed.outline {p : Piece} (h : p.Closed) : p.outline.Closed := by
  cases p with
  | plain c => exact h
  | quoted quote tail =>
    have hline : '\n' ≠ quote := ne_of_isQuote h.1 rfl
    have hreturn : '\r' ≠ quote := ne_of_isQuote h.1 rfl
    have hslash : '\\' ≠ quote := ne_of_isQuote h.1 rfl
    refine ⟨h.1, by simpa using hline, by simpa using hreturn, fun rest => ?_⟩
    simp [quotedTail?, hslash.symm]

/-- A line ends nowhere in an escaped text. -/
theorem lineEnd_not_mem_escapeChars (cs : List Char) :
    '\n' ∉ escapeChars cs ∧ '\r' ∉ escapeChars cs := by
  have hchar : ∀ c, '\n' ∉ escapeChar c ∧ '\r' ∉ escapeChar c := by
    intro c
    unfold escapeChar
    split
    case h_9 hline hreturn _ _ _ _ _ => simp [Ne.symm hline, Ne.symm hreturn]
    all_goals decide
  simp only [escapeChars, List.mem_flatMap, not_exists, not_and]
  exact ⟨fun c _ => (hchar c).1, fun c _ => (hchar c).2⟩

/-- An escaped text between quotes. -/
theorem Piece.closed_escapeChars {quote : Char} (h : isQuote quote = true) (cs : List Char) :
    (quoted quote (escapeChars cs ++ [quote])).Closed := by
  have hquote := h
  rw [isQuote, Bool.or_eq_true, beq_iff_eq, beq_iff_eq] at hquote
  have hline : '\n' ≠ quote := ne_of_isQuote h rfl
  have hreturn : '\r' ≠ quote := ne_of_isQuote h rfl
  obtain ⟨hnone, hnone'⟩ := lineEnd_not_mem_escapeChars cs
  refine ⟨h, by simp [hnone, hline], by simp [hnone', hreturn], fun rest => ?_⟩
  rw [List.append_assoc]
  exact quotedTail?_escapeChars hquote cs rest

theorem pieces?_flatMap {ps : List Piece} (h : ∀ p ∈ ps, p.Closed) :
    pieces? (ps.flatMap Piece.chars) = some ps := by
  induction ps with
  | nil => rw [List.flatMap_nil, pieces?]
  | cons p ps ih =>
    obtain ⟨hp, hps⟩ := List.forall_mem_cons.mp h
    rw [List.flatMap_cons]
    cases p with
    | plain c =>
      have hunquoted : isUnquoted c = true := hp
      have hquote : ¬isQuote c = true := by
        rw [isUnquoted, Bool.and_eq_true, Bool.not_eq_true'] at hunquoted
        exact Bool.eq_false_iff.mp hunquoted.1
      rw [Piece.chars, List.singleton_append, pieces?, if_neg hquote, ih hps, Option.map_some]
    | quoted quote tail =>
      obtain ⟨hquote, -, -, htail⟩ := hp
      rw [Piece.chars, List.cons_append, pieces?, if_pos hquote, htail]
      dsimp only
      rw [List.drop_left, ih hps, Option.map_some]

/-- Pieces that are found again and make the same text are the same. -/
theorem eq_of_flatMap_chars_eq {ps ps' : List Piece} (h : ∀ p ∈ ps, p.Closed)
    (h' : ∀ p ∈ ps', p.Closed) (heq : ps.flatMap Piece.chars = ps'.flatMap Piece.chars) :
    ps = ps' := by
  have hsome : some ps = some ps' := by rw [← pieces?_flatMap h, heq, pieces?_flatMap h']
  exact Option.some.inj hsome

theorem return_not_mem_of_closed {ps : List Piece} (h : ∀ p ∈ ps, p.Closed) :
    '\r' ∉ ps.flatMap Piece.chars := by
  rw [List.mem_flatMap]
  rintro ⟨p, hmem, hreturn⟩
  cases p with
  | plain c =>
    have hunquoted : isUnquoted c = true := h _ hmem
    rw [← List.mem_singleton.mp hreturn] at hunquoted
    cases hunquoted
  | quoted quote tail =>
    obtain ⟨hquote, -, hnone, -⟩ := h _ hmem
    rcases List.mem_cons.mp hreturn with hreturn | hreturn
    · exact ne_of_isQuote hquote rfl hreturn
    · exact hnone hreturn

theorem newline_not_mem_of_closed {ps : List Piece} (h : ∀ p ∈ ps, p.Closed) {literal : String}
    (hliteral : literal ∈ literals ps) : '\n' ∉ literal.toList := by
  obtain ⟨p, hmem, hp⟩ := List.mem_filterMap.mp hliteral
  cases p with
  | plain c => cases hp
  | quoted quote tail =>
    obtain ⟨hquote, hnone, -, -⟩ := h _ hmem
    cases hp
    rw [String.toList_ofList, List.mem_cons]
    rintro (hline | hline)
    · exact ne_of_isQuote hquote rfl hline
    · exact hnone hline

end Scanning

namespace Place

variable {σ σ' σ'' : Place} {p : Piece} {ps ps' : List Piece}

@[simp] theorem run_nil : run σ [] = some σ := rfl

theorem run_cons : run σ (p :: ps) = (step σ p).bind (run · ps) := by
  rw [run, List.foldlM_cons]
  rfl

theorem run_append : run σ (ps ++ ps') = (run σ ps).bind (run · ps') := by
  rw [run, List.foldlM_append]
  rfl

/-- What a step does: it begins a line, or takes a blank, or else what stands there is indented if
it is the first on its line. -/
theorem step_cases (h : step σ p = some σ') :
    p = .plain '\n' ∧ σ' = ⟨σ.opened, some 0⟩ ∨
      p = .plain ' ' ∧ σ' = ⟨σ.opened, σ.column.map (· + 1)⟩ ∨
        p ≠ .plain ' ' ∧ p ≠ .plain '\n' ∧ bracket σ.opened p = some σ'.opened ∧ σ'.column = none ∧
          ∀ n, σ.column = some n → n = 4 * min σ.depth σ'.depth := by
  unfold step at h
  split at h
  · exact .inl ⟨rfl, (Option.some.inj h).symm⟩
  · exact .inr (.inl ⟨rfl, (Option.some.inj h).symm⟩)
  · next hline hblank =>
    obtain ⟨opened, hopened, h⟩ := Option.bind_eq_some_iff.mp h
    split at h
    · next hcolumn =>
      cases h
      refine .inr (.inr ⟨hblank, hline, hopened, rfl, fun n hn => ?_⟩)
      rw [hn, Option.all_some, beq_iff_eq] at hcolumn
      exact hcolumn
    · cases h

theorem bracket_of_step (h : step σ p = some σ') : bracket σ.opened p = some σ'.opened := by
  obtain ⟨rfl, rfl⟩ | ⟨rfl, rfl⟩ | ⟨-, -, h, -, -⟩ := step_cases h
  · rfl
  · rfl
  · exact h

theorem foldlM_bracket_of_run (h : run σ ps = some σ') :
    ps.foldlM bracket σ.opened = some σ'.opened := by
  induction ps generalizing σ with
  | nil =>
    cases h
    rfl
  | cons p ps ih =>
    rw [run_cons, Option.bind_eq_some_iff] at h
    obtain ⟨σ₁, hstep, hrun⟩ := h
    rw [List.foldlM_cons, bracket_of_step hstep]
    exact ih hrun

/-- A bracket that is closed was the innermost one. -/
theorem closeBracket_eq_some {opening : Char} {opened opened' : List Char}
    (h : closeBracket opening opened = some opened') : opened = opening :: opened' := by
  unfold closeBracket at h
  split at h
  · split at h
    · next heq =>
      cases h
      rw [heq]
    · cases h
  · cases h

/-- How many braces are open after a piece. -/
theorem count_of_bracket {opened opened' : List Char} (h : bracket opened p = some opened') :
    opened'.count '\x7b' + [p].count (.plain '\x7d') =
      opened.count '\x7b' + [p].count (.plain '\x7b') := by
  unfold bracket at h
  split at h
  · cases h
    simp
  · cases h
    simp
  · rw [closeBracket_eq_some h]
    simp
  · rw [closeBracket_eq_some h]
    simp
  · next hopening _ hclosing =>
    cases h
    simp only [List.count_singleton, beq_iff_eq]
    rw [if_neg hopening, if_neg hclosing]

theorem depth_of_step (h : step σ p = some σ') :
    σ'.depth + [p].count (.plain '\x7d') = σ.depth + [p].count (.plain '\x7b') :=
  count_of_bracket (bracket_of_step h)

theorem depth_of_run (h : run σ ps = some σ') :
    σ'.depth + ps.count (.plain '\x7d') = σ.depth + ps.count (.plain '\x7b') := by
  induction ps generalizing σ with
  | nil =>
    cases h
    rfl
  | cons p ps ih =>
    rw [run_cons, Option.bind_eq_some_iff] at h
    obtain ⟨σ₁, hstep, hrun⟩ := h
    have hfirst := depth_of_step hstep
    have hrest := ih hrun
    rw [← List.singleton_append, List.count_append, List.count_append]
    omega

theorem run_blanks (n : Nat) : run σ (List.replicate n (.plain ' ')) =
    some ⟨σ.opened, σ.column.map (· + n)⟩ := by
  induction n generalizing σ with
  | zero => simp
  | succ n ih =>
    rw [List.replicate_succ, run_cons]
    show run _ _ = _
    rw [ih]
    simp [Function.comp_def, Nat.add_assoc, Nat.add_comm 1]

theorem column_of_newline (h : run σ (ps ++ [.plain '\n']) = some σ') : σ'.column = some 0 := by
  rw [run_append, Option.bind_eq_some_iff] at h
  obtain ⟨σ₁, -, hstep⟩ := h
  cases hstep
  rfl

/-- A text through which there is a run is indented. -/
theorem indented_of_run (h : run ⟨[], some 0⟩ ps = some σ') : Indented ps := by
  rintro before spaces first rest rfl hbefore hblank hline
  rw [run_append, Option.bind_eq_some_iff] at h
  obtain ⟨σ, hrun, h⟩ := h
  have hdepth : σ.depth = braceDepth before := by
    have hcount := depth_of_run hrun
    unfold braceDepth
    simp only [depth, List.count_nil] at hcount ⊢
    omega
  have hcolumn : σ.column = some 0 := by
    obtain rfl | ⟨above, rfl⟩ := hbefore
    · cases hrun
      rfl
    · exact column_of_newline hrun
  -- The column is zero where the line begins, so it counts just these blanks.
  rw [run_append, run_blanks, Option.bind_some, run_cons, Option.bind_eq_some_iff] at h
  obtain ⟨σ₁, hstep, -⟩ := h
  have hbraces := depth_of_step hstep
  obtain ⟨rfl, -⟩ | ⟨rfl, -⟩ | ⟨-, -, -, -, hindent⟩ := step_cases hstep
  · exact absurd rfl hline
  · exact absurd rfl hblank
  have hspaces := hindent spaces (by rw [hcolumn]; simp)
  rw [hspaces, ← hdepth]
  simp only [depth, List.count_singleton, beq_iff_eq] at hbraces ⊢
  split
  · next hclosing =>
    rw [if_pos hclosing, if_neg (by rw [hclosing]; decide)] at hbraces
    omega
  · next hclosing =>
    rw [if_neg hclosing] at hbraces
    omega

/-- In a text through which there is a run and that closes what it opens, brackets fit together. -/
theorem balanced_of_run (h : run ⟨[], some 0⟩ ps = some σ') (hclosed : σ'.opened = []) :
    Balanced ps := by
  have hfold := foldlM_bracket_of_run h
  rwa [hclosed] at hfold

end Place

end BlockScript.Java
