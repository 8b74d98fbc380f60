import BlockScript.Proofs.Token.Folding
/-!
# Tokens in other surroundings

How far a token goes depends on the characters behind it only by the next one, and behind a number
also by the one after a point. So a token is read again where nothing follows, or layout, or what
begins as before. The token before matters only to a sign and a signed number, and only by whether
an operand can end with it.
-/
namespace BlockScript

open Text

/-- No token goes on with the second characters that did not go on with the first: they are empty,
or begin with layout, or begin as the first do, without a digit behind a point that was none. -/
def Halts (rest : List Char) : List Char → Prop
  | [] => True
  | d :: ds => isLayout d = true ∨ rest.head? = some d ∧
      (d = '.' → ∀ e ∈ ds.head?, isAsciiDigit e = true → rest.tail.head? = some e)

section Halting

variable {rest rest' a b : List Char} {c : Char}

theorem halts_of_gap (h : Gap a) (hb : a = [] → b = []) : Halts rest (a ++ b) := by
  cases a with
  | nil =>
    rw [hb rfl]
    trivial
  | cons c a => exact .inl (h c List.mem_cons_self)

/-- Behind the same characters, where the first characters after them are the same. -/
theorem halts_append_of_head (h : rest'.head? = rest.head?) (hdot : rest.head? ≠ some '.')
    (a : List Char) : Halts (a ++ rest) (a ++ rest') := by
  cases a with
  | nil =>
    cases rest' with
    | nil => trivial
    | cons d ds =>
      refine .inr ⟨h.symm, fun hd => ?_⟩
      rw [← h, hd] at hdot
      exact absurd rfl hdot
  | cons d a =>
    refine .inr ⟨rfl, fun _ e he _ => ?_⟩
    have heq : (a ++ rest').head? = (a ++ rest).head? := by
      rw [List.head?_append, List.head?_append, h]
    exact heq.symm.trans he

theorem halts_append (a b : List Char) : Halts (a ++ b) a := by
  cases a with
  | nil => trivial
  | cons d a =>
    refine .inr ⟨rfl, fun _ e he _ => ?_⟩
    obtain ⟨a, rfl⟩ := List.head?_eq_some_iff.mp he
    rfl

theorem halts_layout (hc : isLayout c = true) (a b : List Char) : Halts a (a ++ c :: b) := by
  cases a with
  | nil => exact .inl hc
  | cons d a =>
    refine .inr ⟨rfl, fun _ e he hdigit => ?_⟩
    cases a with
    | nil =>
      obtain rfl : c = e := by simpa using he
      rw [isAsciiDigit_of_isLayout hc] at hdigit
      cases hdigit
    | cons f a => exact he

/-- A class of characters without layout does not go on. -/
theorem Halts.head {p : Char → Bool} (h : Halts rest rest')
    (hlayout : ∀ c, isLayout c = true → p c = false) (hrest : ∀ c ∈ rest.head?, p c = false) :
    ∀ c ∈ rest'.head?, p c = false := by
  intro c hc
  obtain ⟨ds, rfl⟩ := List.head?_eq_some_iff.mp hc
  obtain hd | ⟨hd, -⟩ := h
  · exact hlayout c hd
  · exact hrest c hd

end Halting

section Tails

variable {c : Char} {cs tail rest rest' : List Char} {kind : TokenKind}

theorem takeWhile_append_eq_left_iff {p : Char → Bool} :
    (tail ++ rest).takeWhile p = tail ↔
      (∀ c ∈ tail, p c = true) ∧ ∀ c ∈ rest.head?, p c = false := by
  refine ⟨fun h => ?_, fun h => takeWhile_append_of_stop h.1 h.2⟩
  have hall : ∀ c ∈ tail, p c = true := fun c hc => by
    rw [← h] at hc
    exact List.mem_takeWhile_imp hc
  refine ⟨hall, fun c hc => ?_⟩
  obtain ⟨more, rfl⟩ := List.head?_eq_some_iff.mp hc
  rw [List.takeWhile_append_of_pos hall, List.append_right_eq_self] at h
  by_contra hp
  rw [List.takeWhile_cons_of_pos (by simpa using hp)] at h
  cases h

theorem dropWhile_append_of_stop {p : Char → Bool} (h : ∀ c ∈ cs, p c = true)
    (hstop : ∀ c ∈ rest.head?, p c = false) : (cs ++ rest).dropWhile p = rest := by
  rw [List.dropWhile_append_of_pos h]
  cases rest with
  | nil => rfl
  | cons c rest => exact List.dropWhile_cons_of_neg (by simp [hstop c rfl])

/-- An integer ends where no digit follows, nor a point and a digit. -/
theorem numberTail_integer (h : ∀ c ∈ tail, isAsciiDigit c = true)
    (hstop : ∀ c ∈ rest.head?, isAsciiDigit c = false)
    (hpoint : rest.head? = some '.' → ∀ c ∈ rest.tail.head?, isAsciiDigit c = false) :
    numberTail (tail ++ rest) = (.integer, tail) := by
  unfold numberTail
  dsimp only
  rw [takeWhile_append_of_stop h hstop, dropWhile_append_of_stop h hstop]
  split
  · next d more => rw [if_neg (by simp [hpoint rfl d rfl])]
  · rfl

/-- A decimal ends where no digit follows. -/
theorem numberTail_decimal {whole places : List Char} {d : Char}
    (hwhole : ∀ c ∈ whole, isAsciiDigit c = true) (hd : isAsciiDigit d = true)
    (hplaces : ∀ c ∈ places, isAsciiDigit c = true)
    (hstop : ∀ c ∈ rest.head?, isAsciiDigit c = false) :
    numberTail (whole ++ '.' :: d :: (places ++ rest)) =
      (.decimal, whole ++ '.' :: d :: places) := by
  have hpoint : ∀ c ∈ ('.' :: d :: (places ++ rest)).head?, isAsciiDigit c = false := by
    simp only [List.head?_cons, Option.mem_some_iff, forall_eq']
    decide
  unfold numberTail
  dsimp only
  rw [takeWhile_append_of_stop hwhole hpoint, dropWhile_append_of_stop hwhole hpoint]
  simp only [hd, if_true, takeWhile_append_of_stop hplaces hstop]

theorem numberTail_of_halts (h : numberTail (tail ++ rest) = (kind, tail))
    (hrest : Halts rest rest') : numberTail (tail ++ rest') = (kind, tail) := by
  have hstop : (∀ c ∈ rest.head?, isAsciiDigit c = false) →
      ∀ c ∈ rest'.head?, isAsciiDigit c = false :=
    hrest.head fun _ => isAsciiDigit_of_isLayout
  -- An integer goes on with a point only if a digit is behind it.
  have hinteger : (tail ++ rest).takeWhile isAsciiDigit = tail →
      (∀ d more, rest = '.' :: d :: more → isAsciiDigit d = false) →
      numberTail (tail ++ rest') = (.integer, tail) := by
    intro htake hpoint
    obtain ⟨hdigits, hhead⟩ := takeWhile_append_eq_left_iff.mp htake
    refine numberTail_integer hdigits (hstop hhead) fun hdot e he => ?_
    obtain ⟨ds, rfl⟩ := List.head?_eq_some_iff.mp hdot
    obtain hlayout | ⟨hd, hpair⟩ := hrest
    · exact absurd hlayout (by decide)
    · by_contra hdigit
      obtain ⟨more, rfl⟩ := List.head?_eq_some_iff.mp hd
      obtain ⟨more, rfl⟩ := List.head?_eq_some_iff.mp (hpair rfl e he (by simpa using hdigit))
      exact hdigit (hpoint e more rfl)
  have hdigits : ∀ c ∈ (tail ++ rest).takeWhile isAsciiDigit, isAsciiDigit c = true :=
    fun _ hc => List.mem_takeWhile_imp hc
  have hsplit : (tail ++ rest).takeWhile isAsciiDigit ++ (tail ++ rest).dropWhile isAsciiDigit =
      tail ++ rest := List.takeWhile_append_dropWhile
  unfold numberTail at h
  dsimp only at h
  split at h
  · next d more hdrop =>
    rw [hdrop] at hsplit
    split at h
    · next hd =>
      generalize (tail ++ rest).takeWhile isAsciiDigit = whole at h hdigits hsplit
      obtain ⟨rfl, rfl⟩ := Prod.mk.inj h
      have hmore : more.takeWhile isAsciiDigit ++ rest = more := by simpa using hsplit.symm
      have htake : (more.takeWhile isAsciiDigit ++ rest).takeWhile isAsciiDigit =
          more.takeWhile isAsciiDigit := by rw [hmore]
      obtain ⟨hplaces, hhead⟩ := takeWhile_append_eq_left_iff.mp htake
      simpa using numberTail_decimal hdigits hd hplaces (hstop hhead)
    · next hd =>
      obtain ⟨rfl, htake⟩ := Prod.mk.inj h
      refine hinteger htake fun e more' hrest' => ?_
      rw [htake, hrest', List.append_cancel_left_eq] at hsplit
      cases hsplit
      simpa using hd
  · next hdrop =>
    obtain ⟨rfl, htake⟩ := Prod.mk.inj h
    rw [htake, List.append_cancel_left_eq] at hsplit
    exact hinteger htake fun e more' hrest' => absurd (hsplit.trans hrest') (hdrop e more')

theorem operatorTail_of_halts (h : operatorTail c (tail ++ rest) = tail) (hrest : Halts rest rest') :
    operatorTail c (tail ++ rest') = tail := by
  cases tail with
  | cons d ds => exact h
  | nil =>
    cases rest' with
    | nil => rfl
    | cons d ds =>
      obtain hd | ⟨hd, -⟩ := hrest
      · have hequals : d ≠ '=' := by
          rintro rfl
          exact absurd hd (by decide)
        have htwice : ((c == '&' || c == '|') && d == c) = false := by
          by_contra hc
          simp only [Bool.not_eq_false, Bool.and_eq_true, Bool.or_eq_true, beq_iff_eq] at hc
          obtain ⟨rfl | rfl, rfl⟩ := hc <;> exact absurd hd (by decide)
        simp [operatorTail, hequals, htwice]
      · obtain ⟨more, rfl⟩ := List.head?_eq_some_iff.mp hd
        exact h

theorem tokenTail?_of_halts (h : tokenTail? c (tail ++ rest) = some (kind, tail))
    (hrest : Halts rest rest') : tokenTail? c (tail ++ rest') = some (kind, tail) := by
  unfold tokenTail? at h ⊢
  split at h
  · next hc =>
    obtain ⟨hkind, htail⟩ := Prod.mk.inj (Option.some.inj h)
    obtain ⟨hall, hhead⟩ := takeWhile_append_eq_left_iff.mp htail
    have hstop := hrest.head (fun _ => isNamePart_of_isLayout) hhead
    rw [if_pos hc, hkind, takeWhile_append_of_stop hall hstop]
  next hstart =>
  rw [if_neg hstart]
  split at h
  · next hc => rw [if_pos hc, numberTail_of_halts (Option.some.inj h) hrest]
  next hdigit =>
  rw [if_neg hdigit]
  split at h
  · next hc =>
    obtain ⟨inner, hinner, heq⟩ := Option.map_eq_some_iff.mp h
    obtain ⟨rfl, rfl⟩ := Prod.mk.inj heq
    rw [if_pos hc, characterTail?_append hinner]
    rfl
  next hsingle =>
  rw [if_neg hsingle]
  split at h
  · next hc =>
    obtain ⟨inner, hinner, heq⟩ := Option.map_eq_some_iff.mp h
    obtain ⟨rfl, rfl⟩ := Prod.mk.inj heq
    rw [if_pos hc, stringTail?_append hinner]
    rfl
  next hdouble =>
  rw [if_neg hdouble]
  split at h
  · cases h
  · next hblank =>
    obtain ⟨rfl, htail⟩ := Prod.mk.inj (Option.some.inj h)
    rw [if_neg hblank, operatorTail_of_halts htail hrest]

end Tails

theorem Token.Stands.of_halts {t : Token} {rest rest' : List Char} (h : t.Stands rest)
    (hrest : Halts rest rest') : t.Stands rest' := by
  obtain ⟨c, tail, hliteral, hlayout, htail⟩ := h
  exact ⟨c, tail, hliteral, hlayout, tokenTail?_of_halts htail hrest⟩

theorem Token.Reads.of_halts {last : Option Token} {t : Token} {rest rest' : List Char}
    (h : t.Reads last rest) (hrest : Halts rest rest') : t.Reads last rest' := by
  cases h with
  | signed starts isSign isNumber stands =>
    exact .signed starts isSign isNumber (stands.of_halts hrest)
  | plain stands apart =>
    refine .plain (stands.of_halts hrest) fun hsign hlast => ?_
    have hhead := apart hsign hlast
    simp only [Option.any_eq_false] at hhead ⊢
    exact hrest.head (fun _ => isAsciiDigit_of_isLayout) hhead

/-- Only whether an operand can end with it matters of the token before. -/
theorem Token.Reads.congr_last {last last' : Option Token} {t : Token} {rest : List Char}
    (h : t.Reads last rest) (heq : last'.any endsOperand = last.any endsOperand) :
    t.Reads last' rest := by
  cases h with
  | plain stands apart => exact .plain stands fun hsign hlast => apart hsign (heq ▸ hlast)
  | signed starts isSign isNumber stands => exact .signed (heq ▸ starts) isSign isNumber stands

/-- Behind an operand only a signed number is read otherwise. -/
theorem Token.Reads.behind_operand {last last' : Option Token} {t : Token} {rest : List Char}
    (h : t.Reads last rest) (ht : t.isSigned = false) (hlast : last'.any endsOperand = true) :
    t.Reads last' rest := by
  cases h with
  | plain stands _ => exact .plain stands fun _ hno => by simp [hlast] at hno
  | signed _ isSign isNumber _ =>
    rw [isSigned_signed isSign isNumber] at ht
    cases ht

end BlockScript
