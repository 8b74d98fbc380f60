import BlockScript.Proofs.Java.Inline
/-!
# Writing line by line

Between the statements of a program the page stands as deep as braces are open, and every statement
and block comes back to that. So writing runs through the places of its text, and the texts of the
tree stand in it between quotes, one after another.
-/
namespace BlockScript.Java

def textOf (ps : List Piece) : String := String.ofList (ps.flatMap Piece.chars)

theorem textOf_append (ps ps' : List Piece) : textOf (ps ++ ps') = textOf ps ++ textOf ps' := by
  rw [textOf, List.flatMap_append, String.ofList_append]
  rfl

/-- From a place, on a page that is as deep as braces are open there, the step writes the pieces and
leads to another such place; the other step writes them with nothing between their quotes. The
literals are the texts between quotes. -/
structure PrintsPieces (σ : Place) (w w' : Write Unit) (texts : List (Char × String)) (σ' : Place)
    (ps : List Piece) : Prop where
  writes : ∀ s, w ⟨s, σ.depth⟩ = .ok () ⟨s ++ textOf ps, σ'.depth⟩
  outlines : ∀ s, w' ⟨s, σ.depth⟩ = .ok () ⟨s ++ textOf (ps.map Piece.outline), σ'.depth⟩
  closed : ∀ p ∈ ps, p.Closed
  literals : literals ps = texts.map fun t => quoted t.1 t.2
  runs : σ.run ps = some σ'

def Prints (σ : Place) (w w' : Write Unit) (texts : List (Char × String)) (σ' : Place) : Prop :=
  ∃ ps, PrintsPieces σ w w' texts σ' ps

section Steps

variable {σ σ₁ σ' : Place} {w w' : Write Unit} {v v' : Unit → Write Unit}
  {ts ts' : List (Char × String)} {s s' : String}

theorem Prints.congr (h : Prints σ w w' ts σ') (heq : ts = ts') : Prints σ w w' ts' σ' := heq ▸ h

/-- A text, and on the page as deep as it is then another one. -/
theorem writes_bind {d d₁ d' : Int} {a b : String} (h : ∀ s, w ⟨s, d⟩ = .ok () ⟨s ++ a, d₁⟩)
    (hv : ∀ s, v () ⟨s, d₁⟩ = .ok () ⟨s ++ b, d'⟩) (s : String) :
    (w >>= v) ⟨s, d⟩ = .ok () ⟨s ++ (a ++ b), d'⟩ := by
  show EStateM.bind w v _ = _
  rw [EStateM.bind, h]
  show v () _ = _
  rw [hv, String.append_assoc]

theorem Prints.bind (h : Prints σ w w' ts σ₁) (hv : Prints σ₁ (v ()) (v' ()) ts' σ') :
    Prints σ (w >>= v) (w' >>= v') (ts ++ ts') σ' := by
  obtain ⟨ps, hps⟩ := h
  obtain ⟨ps', hps'⟩ := hv
  refine ⟨ps ++ ps', ?_, ?_, ?_, ?_, ?_⟩
  · rw [textOf_append]
    exact writes_bind hps.writes hps'.writes
  · rw [List.map_append, textOf_append]
    exact writes_bind hps.outlines hps'.outlines
  · exact List.forall_mem_append.mpr ⟨hps.closed, hps'.closed⟩
  · rw [BlockScript.Java.literals, List.filterMap_append, List.map_append]
    exact congrArg₂ (· ++ ·) hps.literals hps'.literals
  · rw [Place.run_append, hps.runs]
    exact hps'.runs

theorem prints_pure : Prints σ (pure ()) (pure ()) [] σ := by
  have hnothing : ∀ s, (pure () : Write Unit) ⟨s, σ.depth⟩ = .ok () ⟨s ++ textOf [], σ.depth⟩ := by
    intro s
    rw [textOf, List.flatMap_nil, String.ofList_nil, String.append_empty]
    rfl
  exact ⟨[], hnothing, hnothing, by simp, rfl, rfl⟩

def Goes (σ : Place) (s : String) (σ' : Place) : Prop :=
  s.toList.all isUnquoted = true ∧ σ.run (s.toList.map .plain) = some σ'

theorem Goes.append (h : Goes σ s σ₁) (h' : Goes σ₁ s' σ') : Goes σ (s ++ s') σ' := by
  refine ⟨?_, ?_⟩
  · rw [String.toList_append, List.all_append, h.1, h'.1, Bool.and_self]
  · rw [String.toList_append, List.map_append, Place.run_append, h.2]
    exact h'.2

theorem textOf_plain (s : String) : textOf (s.toList.map .plain) = s := by
  rw [textOf, List.flatMap_map]
  exact (congrArg String.ofList (List.flatMap_singleton' _)).trans String.ofList_toList

/-- A step that writes a text, and makes the page as deep as the text does. -/
theorem prints_of_goes (h : Goes σ s σ') (hw : ∀ t, w ⟨t, σ.depth⟩ = .ok () ⟨t ++ s, σ'.depth⟩) :
    Prints σ w w [] σ' := by
  have hwrites : ∀ t, w ⟨t, σ.depth⟩ = .ok () ⟨t ++ textOf (s.toList.map .plain), σ'.depth⟩ := by
    rwa [textOf_plain]
  have houtline : (s.toList.map Piece.plain).map Piece.outline = s.toList.map .plain := by
    rw [List.map_map]
    rfl
  refine ⟨s.toList.map .plain, hwrites, by rwa [houtline], ?_, ?_, h.2⟩
  · exact List.forall_mem_map.mpr (List.all_eq_true.mp h.1)
  · rw [literals, List.filterMap_map]
    exact List.filterMap_eq_nil_iff.mpr fun _ _ => rfl

theorem prints_put (h : Goes σ s σ') (hdepth : σ'.depth = σ.depth) :
    Prints σ (put s) (put s) [] σ' :=
  prints_of_goes h fun t => by
    rw [hdepth]
    rfl

/-- What follows a text on the same line. -/
theorem prints_after (h : Goes σ s σ₁) (hdepth : σ₁.depth = σ.depth)
    (hv : Prints σ₁ (v ()) (v' ()) ts σ') : Prints σ (put s >>= v) (put s >>= v') ts σ' :=
  (prints_put h hdepth).bind hv

/-- A line begins. -/
theorem goes_line (n : Nat) : Goes σ (String.ofList ('\n' :: List.replicate n ' '))
    ⟨σ.opened, some n⟩ := by
  refine ⟨List.all_eq_true.mpr fun c hc => ?_, ?_⟩
  · rw [String.toList_ofList, List.mem_cons, List.mem_replicate] at hc
    obtain rfl | ⟨-, rfl⟩ := hc <;> rfl
  · rw [String.toList_ofList, List.map_cons, List.map_replicate, Place.run_cons]
    show Place.run _ _ = _
    rw [Place.run_blanks, Option.map_some, Nat.zero_add]

/-- A line that is not indented. -/
theorem prints_emptyLine : Prints σ (newline 0) (newline 0) [] ⟨σ.opened, some 0⟩ :=
  prints_of_goes (goes_line 0) fun _ => rfl

/-- What follows on a new line. -/
theorem prints_line (hv : Prints ⟨σ.opened, some (4 * σ.depth)⟩ (v ()) (v' ()) ts σ') :
    Prints σ (indentation >>= fun depth => newline depth >>= v)
      (indentation >>= fun depth => newline depth >>= v') ts σ' :=
  (prints_of_goes (w := indentation >>= fun depth => newline depth) (goes_line (4 * σ.depth))
    fun _ => rfl).bind hv

end Steps

section Lines

variable {σ σ' : Place} {opened : List Char} {p : Piece} {ps : List Piece} {c : Char} {s : String}

/-- What comes next may stand here: it is not the first on its line, or the line is indented. -/
def Place.Ready (σ : Place) : Prop := ∀ n, σ.column = some n → n = 4 * σ.depth

theorem Place.ready_none : Place.Ready ⟨opened, none⟩ := nofun

theorem Place.ready_line : Place.Ready ⟨σ.opened, some (4 * σ.depth)⟩ :=
  fun _ hn => (Option.some.inj hn).symm

/-- Where the line is indented, what is no blank and does not close a brace is written as on a line
on which there is something already. -/
theorem Place.step_of_ready (h : σ.Ready) (hblank : p ≠ .plain ' ') (hbrace : p ≠ .plain '\x7d') :
    step σ p = step ⟨σ.opened, none⟩ p := by
  unfold step
  split
  · rfl
  · exact absurd rfl hblank
  · dsimp only
    cases hopened : bracket σ.opened p with
    | none => rfl
    | some opened =>
      have hcount := count_of_bracket hopened
      simp only [List.count_singleton, beq_iff_eq, if_neg hbrace] at hcount
      have hmin : min σ.depth (opened.count '\x7b') = σ.depth := by
        unfold depth
        omega
      rw [Option.bind_some, Option.bind_some, hmin]
      cases hcolumn : σ.column with
      | none => rfl
      | some n => simp [h n hcolumn]

theorem Goes.of_ready (h : Goes ⟨σ.opened, none⟩ s σ') (hσ : σ.Ready)
    (hfirst : s.toList.head?.any (fun c => c != ' ' && c != '\x7d') = true) : Goes σ s σ' := by
  obtain ⟨hchars, hrun⟩ := h
  refine ⟨hchars, ?_⟩
  cases hs : s.toList with
  | nil =>
    rw [hs] at hfirst
    cases hfirst
  | cons c cs =>
    rw [hs] at hfirst hrun
    simp only [List.head?_cons, Option.any_some, Bool.and_eq_true, bne_iff_ne] at hfirst
    rw [List.map_cons, Place.run_cons] at hrun ⊢
    rwa [Place.step_of_ready hσ (by simpa using hfirst.1) (by simpa using hfirst.2)]

theorem bracket_of_isInline (h : isInline c = true) : bracket opened (.plain c) = some opened := by
  unfold bracket
  split
  case h_5 => rfl
  all_goals next heq =>
    cases heq
    cases h

/-- A character that is no bracket and no line end leads nowhere else on a line on which there is
something already. -/
theorem Place.step_of_isInline (h : isInline c = true) :
    step ⟨opened, none⟩ (.plain c) = some ⟨opened, none⟩ := by
  unfold step
  split
  · next heq =>
    cases heq
    cases h
  · rfl
  · rw [bracket_of_isInline h]
    rfl

theorem goes_inline (h : Inline s) : Goes ⟨opened, none⟩ s ⟨opened, none⟩ := by
  refine ⟨List.all_eq_true.mpr fun c hc => ?_, ?_⟩
  · exact (Bool.and_eq_true_iff.mp (List.all_eq_true.mp h c hc)).1
  · rw [Inline, List.all_eq_true] at h
    generalize s.toList = cs at h ⊢
    induction cs with
    | nil => rfl
    | cons c cs ih =>
      obtain ⟨hc, hcs⟩ := List.forall_mem_cons.mp h
      rw [List.map_cons, Place.run_cons, Place.step_of_isInline hc]
      exact ih hcs

theorem goes_word (h : Word s) (hσ : σ.Ready) : Goes σ s ⟨σ.opened, none⟩ := by
  refine (goes_inline h.1).of_ready hσ ?_
  obtain ⟨hinline, hfirst⟩ := h
  rw [Inline, List.all_eq_true] at hinline
  cases hs : s.toList with
  | nil =>
    rw [hs] at hfirst
    cases hfirst
  | cons c cs =>
    rw [hs] at hfirst hinline
    have hc := hinline c List.mem_cons_self
    rw [List.head?_cons, Option.any_some] at hfirst ⊢
    rw [hfirst, Bool.true_and, bne_iff_ne]
    rintro rfl
    cases hc

/-- A literal with its text, and with none. -/
theorem prints_quoted {quote : Char} (hquote : isQuote quote = true) (hσ : σ.Ready) (s : String) :
    Prints σ (put (quoted quote s)) (put (quoted quote "")) [(quote, s)] ⟨σ.opened, none⟩ := by
  have hwrites : ∀ s t, put (quoted quote s) ⟨t, σ.depth⟩ =
      .ok () ⟨t ++ textOf [.quoted quote (escapeChars s.toList ++ [quote])], σ.depth⟩ := by
    intro s t
    rw [textOf, List.flatMap_singleton]
    rfl
  refine ⟨[.quoted quote (escapeChars s.toList ++ [quote])], hwrites s, hwrites "", ?_, rfl, ?_⟩
  · exact List.forall_mem_singleton.mpr (Piece.closed_escapeChars hquote s.toList)
  · rw [Place.run_cons, Place.step_of_ready hσ]
    · rfl
    · exact nofun
    · exact nofun

end Lines

end BlockScript.Java
