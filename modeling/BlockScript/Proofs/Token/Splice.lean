import BlockScript.Proofs.Token.Pattern
import BlockScript.Proofs.Token.Rescan
/-!
# Splicing texts

The tokens of a text that is changed at one place. Layout outside of quotes separates the tokens
before it from those behind it; behind some of the tokens the text can be exchanged for another that
begins alike; and a text has the same tokens at every place, apart from their indices, as long as an
operand ends before it or not as it did.
-/
namespace BlockScript

open Text

def Token.unplaced (t : Token) : Token := { t with index := 0 }

def lastOf (last : Option Token) (ts : List Token) : Option Token := ts.getLast?.or last

variable {last last' : Option Token} {t u : Token} {index : Nat} {a b cs : List Char} {c : Char}
  {ts us : List Token}

@[simp] theorem lastOf_cons : lastOf last (t :: ts) = lastOf (some t) ts := by
  cases h : ts.getLast? <;> simp [lastOf, List.getLast?_cons, h]

/-- Without their places, tokens are known by their kinds and texts. -/
theorem kinds_of_unplaced (h : us.map Token.unplaced = ts.map Token.unplaced) :
    us.map (fun t => (t.kind, t.literal)) = ts.map (fun t => (t.kind, t.literal)) := by
  have hpairs := congrArg (List.map fun t => (t.kind, t.literal)) h
  rw [List.map_map, List.map_map] at hpairs
  exact hpairs

/-- The same token can be read at another place. -/
theorem Token.Reads.move (h : t.Reads last cs) (place : Nat) :
    ({ t with index := place } : Token).Reads last cs := by
  cases h with
  | plain stands apart => exact .plain stands apart
  | @signed sign number _ starts isSign isNumber stands =>
    exact @Token.Reads.signed _ { sign with index := place } number _ starts isSign isNumber stands

/-- A text has the same tokens at every place. -/
theorem Tiling.move (h : Tiling Token.Reads last index cs ts)
    (hlast : last'.any Token.endsOperand = last.any Token.endsOperand) (place : Nat) :
    ∃ us, Tiling Token.Reads last' place cs us ∧
      us.map Token.unplaced = ts.map Token.unplaced := by
  induction h generalizing last' place with
  | nil layout => exact ⟨[], .nil layout, rfl⟩
  | @cons last index gap rest t ts layout _ own more ih =>
    let u : Token := { t with index := place + gap.length }
    have hbehind : (some u).any Token.endsOperand = (some t).any Token.endsOperand := rfl
    obtain ⟨us, hus, hsame⟩ := ih hbehind u.finish
    have hown : u.Reads last' rest := (own.move _).congr_last hlast
    exact ⟨u :: us, .cons layout rfl hown hus, congrArg (t.unplaced :: ·) hsame⟩

/-- A text has the same tokens behind an operand, if it does not begin with a signed number. -/
theorem Tiling.move_behind (h : Tiling Token.Reads last index cs ts)
    (hts : ts.head?.any Token.isSigned = false) (hlast : last'.any Token.endsOperand = true)
    (place : Nat) :
    ∃ us, Tiling Token.Reads last' place cs us ∧
      us.map Token.unplaced = ts.map Token.unplaced := by
  cases h with
  | nil layout => exact ⟨[], .nil layout, rfl⟩
  | @cons _ _ gap rest t ts layout _ own more =>
    let u : Token := { t with index := place + gap.length }
    have hbehind : (some u).any Token.endsOperand = (some t).any Token.endsOperand := rfl
    obtain ⟨us, hus, hsame⟩ := more.move hbehind u.finish
    have hown : u.Reads last' rest := (own.move _).behind_operand hts hlast
    exact ⟨u :: us, .cons layout rfl hown hus, congrArg (t.unplaced :: ·) hsame⟩

/-- Behind an operand, a signed number falls apart into its sign and the number. -/
theorem Tiling.apart_behind (h : Tiling Token.Reads last index cs (t :: ts))
    (ht : t.isSigned = true) (hlast : last'.any Token.endsOperand = true) (place : Nat) :
    ∃ sign us, Tiling Token.Reads last' place cs (sign :: us) ∧ sign.isSign = true ∧
      sign.index + index = place + t.index := by
  cases h with
  | @cons _ _ gap rest _ _ layout hplace own more =>
    cases own with
    | plain stands _ => rw [stands.not_isSigned] at ht; cases ht
    | @signed sign number _ _ isSign isNumber stands =>
      let first : Token := { sign with index := place + gap.length }
      let digits : Token := { number with index := first.finish }
      have hfirst : first.Reads last' (digits.literal.toList ++ rest) :=
        .plain (Token.stands_of_isSign isSign) fun _ hno => by simp [hlast] at hno
      have hdigits : digits.Reads (some first) rest :=
        .plain stands fun hno => by simp [digits.not_isSign_of_isNumber isNumber] at hno
      have hbehind : (some digits).any Token.endsOperand =
          (some (sign.signed number)).any Token.endsOperand :=
        (digits.endsOperand_of_isNumber isNumber).trans
          ((sign.signed number).endsOperand_of_isNumber isNumber).symm
      obtain ⟨us, hus, -⟩ := more.move hbehind digits.finish
      have htiling := Tiling.cons layout rfl hfirst (Tiling.first hdigits hus)
      have hindex : first.index + index = place + (sign.signed number).index := by
        rw [hplace, ← Nat.add_assoc, Nat.add_right_comm]
      exact ⟨first, digits :: us, by simpa [Token.signed] using htiling, isSign, hindex⟩

/-- Behind some of its tokens a text can be exchanged for one that begins with the same character,
if this is no point. -/
theorem Tiling.split (h : Tiling Token.Reads last index cs (ts ++ us)) :
    ∃ a b, cs = a ++ b ∧ Tiling Token.Reads (lastOf last ts) (index + a.length) b us ∧
      ∀ b' us', b'.head? = b.head? → b.head? ≠ some '.' →
        Tiling Token.Reads (lastOf last ts) (index + a.length) b' us' →
        Tiling Token.Reads last index (a ++ b') (ts ++ us') := by
  induction ts generalizing last index cs with
  | nil => exact ⟨[], cs, rfl, h, fun _ _ _ _ h' => h'⟩
  | cons t ts ih =>
    cases h with
    | @cons _ _ gap rest _ _ layout place own more =>
      obtain ⟨a, b, rfl, hb, hother⟩ := ih more
      have hplace : t.finish + a.length =
          index + (gap ++ (t.literal.toList ++ a)).length := by
        simp only [Token.finish, place, List.length_append, String.length_toList]
        omega
      rw [hplace] at hb hother
      refine ⟨gap ++ (t.literal.toList ++ a), b, by simp, by simpa using hb,
        fun b' us' hhead hdot h' => ?_⟩
      have hmore := hother b' us' hhead hdot (by simpa using h')
      have hown := own.of_halts (halts_append_of_head hhead hdot a)
      simpa using Tiling.cons layout place hown hmore

/-- Layout in front of a text. -/
theorem Tiling.gap_append {P : Option Token → Token → List Char → Prop} {gap : List Char}
    (hgap : Gap gap) (h : Tiling P last (index + gap.length) cs ts) :
    Tiling P last index (gap ++ cs) ts := by
  induction gap generalizing index with
  | nil => exact h
  | cons c gap ih =>
    obtain ⟨hc, hgap⟩ := List.forall_mem_cons.mp hgap
    refine (ih hgap ?_).layout_cons hc
    rwa [List.length_cons, ← Nat.add_assoc, Nat.add_right_comm] at h

/-- Two texts with layout between them. -/
theorem Tiling.append (h : Tiling Token.Reads last index a ts) (hc : isLayout c = true)
    (h' : Tiling Token.Reads (lastOf last ts) (index + a.length + 1) b us) :
    Tiling Token.Reads last index (a ++ c :: b) (ts ++ us) := by
  induction h with
  | nil layout => exact (h'.layout_cons hc).gap_append layout
  | @cons last index gap rest t ts layout place own more ih =>
    have hplace : index + (gap ++ (t.literal.toList ++ rest)).length + 1 =
        t.finish + rest.length + 1 := by
      simp only [Token.finish, place, List.length_append, String.length_toList]
      omega
    rw [hplace, lastOf_cons] at h'
    simpa using Tiling.cons layout place (own.of_halts (halts_layout hc rest b)) (ih h')

/-- A name by itself. -/
theorem Tiling.name {word : String} (h : TokenKind.identifier.fits word.toList = true)
    (last : Option Token) (index : Nat) :
    Tiling Token.Reads last index word.toList [⟨.identifier, word, index⟩] := by
  have hstands : Token.Stands ⟨.identifier, word, index⟩ [] := by
    cases hw : word.toList with
    | nil => simp [hw, TokenKind.fits] at h
    | cons c tail =>
      simp only [hw, TokenKind.fits, Bool.and_eq_true, List.all_eq_true] at h
      refine ⟨c, tail, hw, ?_, ?_⟩
      · by_contra hc
        have hpart : isNamePart c = false := isNamePart_of_isLayout (by simpa using hc)
        simp [isNamePart, h.1] at hpart
      · rw [tokenTail?, if_pos h.1, takeWhile_append_of_stop h.2 (by simp)]
  have hreads : Token.Reads last ⟨.identifier, word, index⟩ [] :=
    .plain hstands (by simp [Token.isSign])
  have hfirst : Tiling Token.Reads last index (word.toList ++ []) [⟨.identifier, word, index⟩] :=
    Tiling.first hreads (.nil (by simp [Gap]))
  simpa using hfirst

section Quotes

def isQuote (c : Char) : Bool := c == '\'' || c == '"'

theorem isQuote_of_isLayout (hc : isLayout c = true) : isQuote c = false :=
  not_layout (by decide) hc

theorem not_layout_of_operatorTail (hc : isBlank c = false) (h : operatorTail c cs = cs) :
    ∀ d ∈ c :: cs, isLayout d = false := by
  have hfirst : isLayout c = false := by
    by_contra hlayout
    rw [isBlank_of_isLayout (by simpa using hlayout)] at hc
    cases hc
  refine List.forall_mem_cons.mpr ⟨hfirst, ?_⟩
  cases cs with
  | nil => simp
  | cons d ds =>
    unfold operatorTail at h
    dsimp only at h
    split at h
    · next hequals =>
      cases h
      obtain rfl : d = '=' := by simpa using (Bool.and_eq_true_iff.mp hequals).2
      simp [isLayout]
    split at h
    · next htwice =>
      cases h
      obtain rfl : d = c := by simpa using (Bool.and_eq_true_iff.mp htwice).2
      simpa using hfirst
    · cases h

/-- Only characters and strings contain layout. -/
theorem not_layout_of_fits {kind : TokenKind} (h : kind.fits cs = true)
    (hkind : kind ≠ .character ∧ kind ≠ .string) : ∀ c ∈ cs, isLayout c = false := by
  have hapart : ∀ {p : Char → Bool} {c : Char}, (∀ c, isLayout c = true → p c = false) →
      p c = true → isLayout c = false := by
    intro p c hp hc
    by_contra hlayout
    rw [hp c (by simpa using hlayout)] at hc
    cases hc
  have hdigit : ∀ {c : Char}, isAsciiDigit c = true → isLayout c = false :=
    hapart fun _ => isAsciiDigit_of_isLayout
  have hpart : ∀ {c : Char}, isNamePart c = true → isLayout c = false :=
    hapart fun _ => isNamePart_of_isLayout
  cases kind with
  | character => exact absurd rfl hkind.1
  | string => exact absurd rfl hkind.2
  | identifier =>
    cases cs with
    | nil => simp
    | cons c cs =>
      simp only [TokenKind.fits, Bool.and_eq_true, List.all_eq_true] at h
      exact List.forall_mem_cons.mpr ⟨hpart (by simp [isNamePart, h.1]), fun d hd => hpart (h.2 d hd)⟩
  | integer =>
    simp only [TokenKind.fits, Bool.and_eq_true, List.all_eq_true] at h
    exact fun c hc => hdigit (h.2 c hc)
  | decimal =>
    simp only [TokenKind.fits] at h
    split at h
    · next fs hfs =>
      simp only [Bool.and_eq_true, List.all_eq_true] at h
      intro c hc
      rw [← List.takeWhile_append_dropWhile (p := isAsciiDigit) (l := cs), hfs] at hc
      obtain hc | hc := List.mem_append.mp hc
      · exact hdigit (List.mem_takeWhile_imp hc)
      obtain rfl | hc := List.mem_cons.mp hc
      · decide
      · exact hdigit (h.2 c hc)
    · cases h
  | operator =>
    cases cs with
    | nil => simp
    | cons c cs =>
      simp only [TokenKind.fits, Bool.and_eq_true, Bool.not_eq_true', beq_iff_eq] at h
      exact not_layout_of_operatorTail h.1.2 h.2

theorem getLast?_of_mem_mul {L : Language Char} {q : Char} (h : cs ∈ L * oneOf (· == q)) :
    cs.getLast? = some q := by
  obtain ⟨a, -, b, ⟨d, hd, rfl⟩, rfl⟩ := Language.mem_mul.mp h
  rw [List.getLast?_concat, beq_iff_eq.mp hd]

/-- A token that contains layout has a quote before it and a quote behind it. -/
theorem quotes_of_fits {kind : TokenKind} (h : kind.fits (a ++ c :: b) = true)
    (hc : isLayout c = true) : (∃ q ∈ a, isQuote q = true) ∧ ∃ q ∈ b, isQuote q = true := by
  have hends : ∃ q tail, isQuote q = true ∧ a ++ c :: b = q :: tail ∧ tail.getLast? = some q := by
    by_cases hkind : kind = .character ∨ kind = .string
    · obtain rfl | rfl := hkind
      · obtain ⟨tail, heq, htail⟩ := tail_of_fits_character h
        exact ⟨_, tail, by decide, heq, getLast?_of_mem_mul (mem_pattern_of_characterTail? htail)⟩
      · obtain ⟨tail, heq, htail⟩ := tail_of_fits_string h
        exact ⟨_, tail, by decide, heq, getLast?_of_mem_mul (mem_pattern_of_stringTail? htail)⟩
    · have hno := not_layout_of_fits h (not_or.mp hkind) c (by simp)
      rw [hc] at hno
      cases hno
  obtain ⟨q, tail, hq, heq, hlast⟩ := hends
  have hne : c ≠ q := by
    rintro rfl
    rw [isQuote_of_isLayout hc] at hq
    cases hq
  constructor
  · cases a with
    | nil => exact absurd (List.cons.inj heq).1 hne
    | cons d a => exact ⟨q, by simp [(List.cons.inj heq).1], hq⟩
  · have hend : (c :: b).getLast? = some q := by
      have hwhole := congrArg List.getLast? heq
      rw [List.getLast?_append_cons, List.getLast?_cons (a := q), hlast] at hwhole
      exact hwhole
    cases b with
    | nil => exact absurd (Option.some.inj hend) hne
    | cons d b => exact ⟨q, List.mem_of_getLast? (by simpa using hend), hq⟩

/-- A sign in front changes nothing. -/
theorem Token.Reads.quotes (h : t.Reads last cs) (ht : t.literal.toList = a ++ c :: b)
    (hc : isLayout c = true) : (∃ q ∈ a, isQuote q = true) ∧ ∃ q ∈ b, isQuote q = true := by
  cases h with
  | plain stands apart => exact quotes_of_fits (ht ▸ stands.fits) hc
  | @signed sign number _ starts isSign isNumber stands =>
    have hkind : number.kind ≠ .character ∧ number.kind ≠ .string := by
      constructor <;> intro hk <;> simp [Token.isNumber, hk] at isNumber
    have hsign : sign.literal.toList.any isLayout = false := by
      obtain ⟨-, hs | hs⟩ := isSign_iff.mp isSign <;> rw [hs] <;> decide
    have hno : ∀ d ∈ (sign.signed number).literal.toList, isLayout d = false := by
      intro d hd
      obtain hd | hd := List.mem_append.mp (by simpa [Token.signed] using hd)
      · simpa using List.any_eq_false.mp hsign d hd
      · exact not_layout_of_fits stands.fits hkind d hd
    have hlayout := hno c (by simp [ht])
    rw [hc] at hlayout
    cases hlayout

end Quotes

theorem append_eq_append_cons {u v m : List Char} (h : u ++ v = m ++ c :: b) :
    (∃ w, m = u ++ w ∧ v = w ++ c :: b) ∨ ∃ w, u = m ++ c :: w ∧ b = w ++ v := by
  obtain ⟨w, hm, hv⟩ | ⟨w, hu, hw⟩ := List.append_eq_append_iff.mp h
  · exact .inl ⟨w, hm, hv⟩
  · cases w with
    | nil => exact .inl ⟨[], by simpa using hu.symm, by simpa using hw.symm⟩
    | cons d w =>
      obtain ⟨rfl, rfl⟩ := List.cons.inj hw
      exact .inr ⟨w, hu, rfl⟩

/-- Layout outside of quotes separates the tokens before it from those behind it. -/
theorem Tiling.cut (hc : isLayout c = true) (h : Tiling Token.Reads last index (a ++ c :: b) ts)
    (hquotes : (∀ q ∈ a, isQuote q = false) ∨ ∀ q ∈ b, isQuote q = false) :
    ∃ ts₁ ts₂, ts = ts₁ ++ ts₂ ∧ Tiling Token.Reads last index a ts₁ ∧
      Tiling Token.Reads (lastOf last ts₁) (index + a.length + 1) b ts₂ := by
  generalize hcs : a ++ c :: b = cs at h
  induction h generalizing a with
  | @nil last index gap layout =>
    subst hcs
    exact ⟨[], [], rfl, .nil fun d hd => layout d (by simp [hd]),
      .nil fun d hd => layout d (by simp [hd])⟩
  | @cons last index gap rest t ts layout place own more ih =>
    obtain ⟨w, rfl, hw⟩ | ⟨w, rfl, rfl⟩ := append_eq_append_cons hcs.symm
    · obtain ⟨v, rfl, rfl⟩ | ⟨v, ht, rfl⟩ := append_eq_append_cons hw
      · -- The layout stands behind the token.
        obtain ⟨ts₁, ts₂, rfl, h₁, h₂⟩ := ih
          (hquotes.imp_left fun hno q hq => hno q (by simp [hq])) rfl
        refine ⟨t :: ts₁, ts₂, rfl, .cons layout place (own.of_halts (halts_append v _)) h₁, ?_⟩
        have hplace : index + (gap ++ (t.literal.toList ++ v)).length + 1 =
            t.finish + v.length + 1 := by
          simp only [Token.finish, place, List.length_append, String.length_toList]
          omega
        rwa [lastOf_cons, hplace]
      · -- It stands in the token, between quotes.
        obtain ⟨⟨q, hq, hquote⟩, ⟨q', hq', hquote'⟩⟩ := own.quotes ht hc
        obtain hno | hno := hquotes
        · simp [hno q (by simp [hq])] at hquote
        · simp [hno q' (by simp [hq'])] at hquote'
    · -- It stands before the token.
      refine ⟨[], t :: ts, rfl, .nil fun d hd => layout d (by simp [hd]),
        .cons (fun d hd => layout d (by simp [hd])) ?_ own more⟩
      simp only [place, List.length_append, List.length_cons]
      omega

end BlockScript
