import BlockScript.Decimal.Text
import BlockScript.Proofs.Text.Numeral
/-!
# The text of a decimal reads back

The characters of a text that writes a decimal are left alone by what reading does first. The digits
around the point and behind the exponent then give the same sign, coefficient and exponent, and the
names of the special values give those with their payload.
-/
namespace BlockScript.Decimal

open BlockScript.Text

/-- The characters that can come up in the text of a decimal. -/
def IsSymbol (c : Char) : Prop := isAsciiDigit c = true ∨ c ∈ "-+.EInfityNas".toList

section Symbols

variable {c : Char} {cs ds : List Char}

theorem code_of_isAsciiDigit (h : isAsciiDigit c = true) : 48 ≤ c.toNat ∧ c.toNat ≤ 57 := by
  simp only [isAsciiDigit, Bool.and_eq_true, decide_eq_true_eq, Char.le_def,
    UInt32.le_iff_toNat_le] at h
  exact h

theorem westernDigit_of_isAsciiDigit (h : isAsciiDigit c = true) : westernDigit c = c := by
  obtain ⟨hlow, hhigh⟩ := code_of_isAsciiDigit h
  have hlt : c.toNat < 48 + 10 := by omega
  have hvalue : digitValue? c = some (c.toNat - 48) := by
    simp only [digitValue?, zeroDigits, List.find?_cons, hlow, hlt, decide_true, Bool.and_self,
      Option.map_some]
  have hcode : '0'.toNat + (c.toNat - 48) = c.toNat := by
    show 48 + (c.toNat - 48) = c.toNat
    omega
  rw [westernDigit, hvalue]
  dsimp only
  rw [hcode, Char.ofNat_toNat]

theorem IsSymbol.westernDigit_eq (h : IsSymbol c) : westernDigit c = c := by
  have hsigns : ∀ c ∈ "-+.EInfityNas".toList, westernDigit c = c := by simp; decide
  exact h.elim westernDigit_of_isAsciiDigit (hsigns c)

theorem IsSymbol.isBlank_eq (h : IsSymbol c) : isBlank c = false := by
  have hsigns : ∀ c ∈ "-+.EInfityNas".toList, isBlank c = false := by simp; decide
  refine h.elim (fun hdigit => ?_) (hsigns c)
  obtain ⟨hlow, hhigh⟩ := code_of_isAsciiDigit hdigit
  simp only [isBlank, Bool.or_eq_false_iff, Bool.and_eq_false_iff, decide_eq_false_iff_not,
    beq_eq_false_iff_ne]
  omega

theorem IsSymbol.ne_underscore (h : IsSymbol c) : c ≠ '_' := by
  rintro rfl
  exact absurd h (by unfold IsSymbol; decide)

theorem stripBlanks_of_symbols (h : ∀ c ∈ cs, IsSymbol c) : stripBlanks cs = cs := by
  have hdrop : ∀ l : List Char, (∀ c ∈ l, IsSymbol c) → l.dropWhile isBlank = l := by
    intro l hl
    cases l with
    | nil => rfl
    | cons c l => rw [List.dropWhile_cons, (hl c List.mem_cons_self).isBlank_eq, if_neg (by simp)]
  unfold stripBlanks
  rw [hdrop cs h, hdrop cs.reverse fun c hc => h c (List.mem_reverse.mp hc), List.reverse_reverse]

/-- Reading begins with steps that change nothing of such a text. -/
theorem tidied_of_symbols (h : ∀ c ∈ cs, IsSymbol c) :
    ((stripBlanks cs).filter (· != '_')).map westernDigit = cs := by
  rw [stripBlanks_of_symbols h, List.filter_eq_self.mpr fun c hc => by simp [(h c hc).ne_underscore]]
  exact (List.map_congr_left fun c hc => (h c hc).westernDigit_eq).trans (List.map_id cs)

theorem symbol_of_mem_digits {n : Nat} (hc : c ∈ digits n) : IsSymbol c :=
  .inl (isAsciiDigit_of_mem_digits hc)

end Symbols

section Shapes

/-- A number with places behind its point is written as digits around a point. -/
theorem pointed_digits (n places : Nat) :
    places = 0 ∧ pointed (digits n) places = digits n ∨
      ∃ w f, pointed (digits n) places = w ++ '.' :: f ∧ w ≠ [] ∧
        (∀ c ∈ w ++ f, isAsciiDigit c = true) ∧ ofDigits (w ++ f) = n ∧ f.length = places := by
  unfold pointed
  split
  · next hzero => exact .inl ⟨by simpa using hzero, rfl⟩
  · next hpos =>
    have hpos : 0 < places := Nat.pos_of_ne_zero (by simpa using hpos)
    generalize hp : List.replicate (places + 1 - (digits n).length) '0' ++ digits n = padded
    have hlength : places < padded.length := by
      rw [← hp, List.length_append, List.length_replicate]
      omega
    refine .inr ⟨padded.take (padded.length - places), padded.drop (padded.length - places), rfl, ?_⟩
    rw [List.take_append_drop, List.length_drop]
    refine ⟨?_, ?_, ?_, by omega⟩
    · rw [ne_eq, List.take_eq_nil_iff]
      rintro (hnone | rfl)
      · omega
      · exact absurd hlength (Nat.not_lt_zero _)
    · intro c hc
      rw [← hp] at hc
      rcases List.mem_append.mp hc with hc | hc
      · rw [List.eq_of_mem_replicate hc]
        rfl
      · exact isAsciiDigit_of_mem_digits hc
    · rw [← hp, ofDigits_zeros_append, ofDigits_digits]

def exponentChars (x : Int) : List Char :=
  'E' :: (if x < 0 then '-' else '+') :: digits x.natAbs

/-- A number with an exponent is written as one digit and, if there are more, those behind a
point. -/
theorem scientific_digits (n : Nat) (x : Int) :
    (∃ d, digits n = [d] ∧ scientific (digits n) x = d :: exponentChars x) ∨
      ∃ d f, digits n = d :: f ∧ scientific (digits n) x = d :: '.' :: (f ++ exponentChars x) := by
  have hne := digits_ne_nil n
  unfold scientific
  generalize digits n = ds at hne
  match ds with
  | [] => exact absurd rfl hne
  | [d] => exact .inl ⟨d, rfl, rfl⟩
  | d :: d' :: rest => exact .inr ⟨d, d' :: rest, rfl, rfl⟩

/-- What is written for the size of a finite decimal begins with a digit. -/
theorem magnitude_eq_cons (n : Nat) (e : Int) :
    ∃ c cs, magnitude n e = c :: cs ∧ isAsciiDigit c = true := by
  have hdigits : ∀ c ∈ digits n, isAsciiDigit c = true := fun _ => isAsciiDigit_of_mem_digits
  unfold magnitude
  split
  · obtain ⟨-, heq⟩ | ⟨w, f, heq, hw, hall, -⟩ := pointed_digits n (-e).toNat
    · obtain ⟨c, cs, hcs⟩ := List.exists_cons_of_ne_nil (digits_ne_nil n)
      exact ⟨c, cs, heq.trans hcs, hdigits c (hcs ▸ List.mem_cons_self)⟩
    · obtain ⟨c, cs, rfl⟩ := List.exists_cons_of_ne_nil hw
      exact ⟨c, _, heq, hall c List.mem_cons_self⟩
  · obtain ⟨d, hd, heq⟩ | ⟨d, f, hd, heq⟩ := scientific_digits n (adjusted n e)
    · exact ⟨d, _, heq, hdigits d (hd ▸ List.mem_cons_self)⟩
    · exact ⟨d, _, heq, hdigits d (hd ▸ List.mem_cons_self)⟩

theorem symbol_of_mem_exponentChars {c : Char} {x : Int} (hc : c ∈ exponentChars x) :
    IsSymbol c := by
  rcases List.mem_cons.mp hc with rfl | hc
  · exact .inr (by decide)
  rcases List.mem_cons.mp hc with rfl | hc
  · split <;> exact .inr (by decide)
  · exact symbol_of_mem_digits hc

theorem symbol_of_mem_magnitude {c : Char} {n : Nat} {e : Int} (hc : c ∈ magnitude n e) :
    IsSymbol c := by
  have hpoint : IsSymbol '.' := .inr (by decide)
  unfold magnitude at hc
  split at hc
  -- without an exponent
  · obtain ⟨-, heq⟩ | ⟨w, f, heq, -, hall, -⟩ := pointed_digits n (-e).toNat
    · rw [heq] at hc
      exact symbol_of_mem_digits hc
    · rw [heq] at hc
      simp only [List.mem_append, List.mem_cons] at hc hall
      rcases hc with hc | rfl | hc
      · exact .inl (hall c (.inl hc))
      · exact hpoint
      · exact .inl (hall c (.inr hc))
  -- with one
  · obtain ⟨d, hd, heq⟩ | ⟨d, f, hd, heq⟩ := scientific_digits n (adjusted n e)
    · rw [heq] at hc
      rcases List.mem_cons.mp hc with rfl | hc
      · exact symbol_of_mem_digits (hd ▸ List.mem_cons_self)
      · exact symbol_of_mem_exponentChars hc
    · rw [heq] at hc
      simp only [List.mem_cons, List.mem_append] at hc
      rcases hc with rfl | rfl | hc | hc
      · exact symbol_of_mem_digits (hd ▸ List.mem_cons_self)
      · exact hpoint
      · exact symbol_of_mem_digits (hd ▸ List.mem_cons_of_mem d hc)
      · exact symbol_of_mem_exponentChars hc

def bodyChars : Decimal → List Char
  | finite _ c e => magnitude c e
  | infinite _ => "Infinity".toList
  | nan _ signaling payload =>
    (if signaling then "sNaN".toList else "NaN".toList) ++
      (if payload == 0 then [] else digits payload)

theorem chars_eq (d : Decimal) : d.chars = (if d.isNegative then ['-'] else []) ++ d.bodyChars := by
  cases d with
  | nan s signaling payload => exact List.append_assoc _ _ _
  | _ => rfl

theorem symbol_of_mem_bodyChars {c : Char} {d : Decimal} (hc : c ∈ d.bodyChars) : IsSymbol c := by
  cases d with
  | finite s n e =>
    exact symbol_of_mem_magnitude hc
  | infinite s =>
    have hall : ∀ c ∈ "Infinity".toList, c ∈ "-+.EInfityNas".toList := by simp
    exact .inr (hall c hc)
  | nan s signaling payload =>
    rcases List.mem_append.mp hc with hc | hc
    · have hall : ∀ c ∈ (if signaling then "sNaN".toList else "NaN".toList),
          c ∈ "-+.EInfityNas".toList := by
        cases signaling <;> simp
      exact .inr (hall c hc)
    · split at hc
      · cases hc
      · exact symbol_of_mem_digits hc

theorem symbol_of_mem_chars {c : Char} {d : Decimal} (hc : c ∈ d.chars) : IsSymbol c := by
  rw [chars_eq] at hc
  rcases List.mem_append.mp hc with hc | hc
  · split at hc
    · exact .inr (by rw [List.mem_singleton.mp hc]; decide)
    · cases hc
  · exact symbol_of_mem_bodyChars hc

end Shapes

section Numbers

variable {w f r : List Char} (negative : Bool)

theorem splitSign_append {c : Char} {cs : List Char} (hminus : c ≠ '-')
    (hplus : c ≠ '+') :
    splitSign ((if negative then ['-'] else []) ++ c :: cs) = (negative, c :: cs) := by
  cases negative with
  | true => rfl
  | false =>
    show splitSign (c :: cs) = (false, c :: cs)
    unfold splitSign
    split
    · next heq => exact absurd (List.cons.inj heq).1 hminus
    · next heq => exact absurd (List.cons.inj heq).1 hplus
    · rfl

/-- Digits, a point, digits, and what is no digit. -/
theorem number?_pointed (hw : ∀ c ∈ w, isAsciiDigit c = true) (hne : w ≠ [])
    (hf : ∀ c ∈ f, isAsciiDigit c = true) (hr : ∀ c ∈ r.head?, isAsciiDigit c = false) :
    number? negative (w ++ '.' :: (f ++ r)) =
      (exponent? r).map fun e => finite negative (ofDigits (w ++ f)) (e - f.length) := by
  have hpoint : isAsciiDigit '.' = false := rfl
  have htake : r.takeWhile isAsciiDigit = [] := by
    cases r with
    | nil => rfl
    | cons c r => simp [hr c rfl]
  have hdrop : r.dropWhile isAsciiDigit = r := by
    cases r with
    | nil => rfl
    | cons c r => simp [hr c rfl]
  unfold number?
  simp only [List.takeWhile_append_of_pos hw, List.dropWhile_append_of_pos hw,
    List.takeWhile_cons, List.dropWhile_cons, hpoint, Bool.false_eq_true, if_false,
    List.append_nil, List.takeWhile_append_of_pos hf, List.dropWhile_append_of_pos hf, htake, hdrop]
  rw [if_neg]
  simp [hne]

/-- Digits, and what is neither a digit nor a point. -/
theorem number?_whole (hw : ∀ c ∈ w, isAsciiDigit c = true) (hne : w ≠ [])
    (hr : ∀ c ∈ r.head?, isAsciiDigit c = false ∧ c ≠ '.') :
    number? negative (w ++ r) = (exponent? r).map fun e => finite negative (ofDigits w) e := by
  have htake : r.takeWhile isAsciiDigit = [] := by
    cases r with
    | nil => rfl
    | cons c r => simp [(hr c rfl).1]
  have hdrop : r.dropWhile isAsciiDigit = r := by
    cases r with
    | nil => rfl
    | cons c r => simp [(hr c rfl).1]
  unfold number?
  simp only [List.takeWhile_append_of_pos hw, List.dropWhile_append_of_pos hw, htake, hdrop,
    List.append_nil]
  split
  · next r' => exact absurd rfl (hr '.' rfl).2
  · simp [hne]

theorem number?_pointed_digits (n places : Nat) :
    number? negative (pointed (digits n) places) = some (finite negative n (-(places : Int))) := by
  obtain ⟨rfl, heq⟩ | ⟨w, f, heq, hne, hall, hvalue, rfl⟩ := pointed_digits n places
  · have hread := number?_whole (r := []) negative
      (fun _ => isAsciiDigit_of_mem_digits) (digits_ne_nil n) (by simp)
    rw [List.append_nil] at hread
    rw [heq, hread, ofDigits_digits]
    rfl
  · simp only [List.mem_append] at hall
    have hread := number?_pointed (r := []) negative (fun c hc => hall c (.inl hc)) hne
      (fun c hc => hall c (.inr hc)) (by simp)
    rw [List.append_nil] at hread
    rw [heq, hread, hvalue]
    simp [exponent?]

/-- The exponent part that is written for a number is the one that reads as it. -/
theorem exponent?_exponentChars (x : Int) : exponent? (exponentChars x) = some x := by
  have hsplit : splitSign ((if x < 0 then '-' else '+') :: digits x.natAbs) =
      (decide (x < 0), digits x.natAbs) := by
    by_cases hx : x < 0
    · simp only [hx, if_true, decide_true]
      rfl
    · simp only [hx, if_false, decide_false]
      rfl
  have hall : (digits x.natAbs).all isAsciiDigit = true :=
    List.all_eq_true.mpr fun _ => isAsciiDigit_of_mem_digits
  have hsigned : signed (decide (x < 0)) x.natAbs = x := by
    unfold signed
    simp only [decide_eq_true_eq]
    split <;> omega
  unfold exponent? exponentChars
  simp only [hsplit, hall, digits_ne_nil, ofDigits_digits, hsigned, beq_self_eq_true, Bool.or_true,
    if_true, List.isEmpty_iff, Bool.not_true, Bool.or_false, if_false]

theorem number?_scientific_digits (n : Nat) (x : Int) :
    number? negative (scientific (digits n) x) =
      some (finite negative n (x - (((digits n).length : Int) - 1))) := by
  have hdigits : ∀ c ∈ digits n, isAsciiDigit c = true := fun _ => isAsciiDigit_of_mem_digits
  have hvalue := ofDigits_digits n
  have hletter : ∀ c ∈ (exponentChars x).head?, isAsciiDigit c = false ∧ c ≠ '.' := by
    simp [exponentChars]
    decide
  obtain ⟨d, hd, heq⟩ | ⟨d, f, hd, heq⟩ := scientific_digits n x <;> rw [heq] <;>
    rw [hd] at hdigits hvalue ⊢
  · have hread := number?_whole negative hdigits (by simp) hletter
    rw [exponent?_exponentChars, Option.map_some, hvalue] at hread
    refine hread.trans ?_
    simp
  · have hread := number?_pointed (w := [d]) negative (by simpa using hdigits d)
      (by simp) (fun c hc => hdigits c (List.mem_cons_of_mem d hc)) fun c hc => (hletter c hc).1
    rw [exponent?_exponentChars, Option.map_some] at hread
    refine hread.trans ?_
    simp only [List.singleton_append, hvalue, List.length_cons, Option.some.injEq, finite.injEq,
      true_and]
    omega

end Numbers

section Texts

theorem lowered_of_isAsciiDigit {c : Char} (h : isAsciiDigit c = true) : c.toLower = c := by
  obtain ⟨hlow, hhigh⟩ := code_of_isAsciiDigit h
  refine dif_neg fun hupper => ?_
  have hcode : 65 ≤ c.toNat := UInt32.le_iff_toNat_le.mp hupper.1
  omega

/-- What begins with a digit is not the name of a special value. -/
theorem unsigned?_of_digit {negative : Bool} {c : Char} {cs : List Char}
    (h : isAsciiDigit c = true) : unsigned? negative (c :: cs) = number? negative (c :: cs) := by
  have hnot : ∀ d : Char, isAsciiDigit d = false → c ≠ d := by
    rintro d hd rfl
    exact absurd (h.symm.trans hd) (by decide)
  unfold unsigned?
  rw [List.map_cons, lowered_of_isAsciiDigit h]
  split
  · next heq => exact absurd (List.cons.inj heq).1 (hnot 'i' rfl)
  · next heq => exact absurd (List.cons.inj heq).1 (hnot 'i' rfl)
  · next heq => exact absurd (List.cons.inj heq).1 (hnot 'n' rfl)
  · next heq => exact absurd (List.cons.inj heq).1 (hnot 's' rfl)
  · rfl

theorem payload?_digits (payload : Nat) :
    payload? (if payload == 0 then [] else digits payload) = some payload := by
  split
  · next hzero =>
    obtain rfl : payload = 0 := by simpa using hzero
    rfl
  · unfold payload?
    rw [if_pos (List.all_eq_true.mpr fun _ => isAsciiDigit_of_mem_digits), ofDigits_digits]

theorem magnitude_reads (negative : Bool) (n : Nat) (e : Int) :
    number? negative (magnitude n e) = some (finite negative n e) := by
  unfold magnitude
  split
  · next hplain =>
    simp only [Bool.and_eq_true, decide_eq_true_eq] at hplain
    rw [number?_pointed_digits]
    congr 2
    omega
  · rw [number?_scientific_digits]
    congr 2
    unfold adjusted
    omega

/-- A name of what is no number, and the digits of its payload. -/
theorem unsigned?_nan (negative signaling : Bool) {ds : List Char}
    (h : ∀ c ∈ ds, isAsciiDigit c = true) :
    unsigned? negative ((if signaling then "sNaN".toList else "NaN".toList) ++ ds) =
      (payload? ds).map (nan negative signaling) := by
  have hlower : ds.map Char.toLower = ds :=
    (List.map_congr_left fun c hc => lowered_of_isAsciiDigit (h c hc)).trans (List.map_id ds)
  unfold unsigned?
  cases signaling with
  | true =>
    show (payload? (ds.map Char.toLower)).map (nan negative true) = _
    rw [hlower]
  | false =>
    show (payload? (ds.map Char.toLower)).map (nan negative false) = _
    rw [hlower]

theorem unsigned?_bodyChars (d : Decimal) : unsigned? d.isNegative d.bodyChars = some d := by
  cases d with
  | finite s n e =>
    obtain ⟨c, cs, heq, hc⟩ := magnitude_eq_cons n e
    have hread := magnitude_reads s n e
    rw [heq] at hread
    show unsigned? s (magnitude n e) = _
    rw [heq, unsigned?_of_digit hc, hread]
  | infinite s => rfl
  | nan s signaling payload =>
    have hdigits : ∀ c ∈ (if payload == 0 then [] else digits payload), isAsciiDigit c = true := by
      intro c hc
      split at hc
      · cases hc
      · exact isAsciiDigit_of_mem_digits hc
    refine (unsigned?_nan s signaling hdigits).trans ?_
    rw [payload?_digits, Option.map_some]

/-- What is written behind the sign does not begin with a sign. -/
theorem bodyChars_eq_cons (d : Decimal) : ∃ c cs, d.bodyChars = c :: cs ∧ c ≠ '-' ∧ c ≠ '+' := by
  cases d with
  | finite s n e =>
    obtain ⟨c, cs, heq, hc⟩ := magnitude_eq_cons n e
    refine ⟨c, cs, heq, ?_, ?_⟩ <;>
      · rintro rfl
        cases hc
  | infinite s => exact ⟨'I', _, rfl, by decide, by decide⟩
  | nan s signaling payload =>
    cases signaling with
    | true => exact ⟨'s', _, rfl, by decide, by decide⟩
    | false => exact ⟨'N', _, rfl, by decide, by decide⟩

/-- The text of a decimal is read as that decimal, digit for digit. -/
theorem ofText?_toText (d : Decimal) : ofText? d.toText = some d := by
  obtain ⟨c, cs, hbody, hminus, hplus⟩ := bodyChars_eq_cons d
  have hread := unsigned?_bodyChars d
  unfold ofText? toText
  rw [String.toList_ofList, tidied_of_symbols fun _ => symbol_of_mem_chars, chars_eq]
  rw [hbody] at hread ⊢
  simp only [splitSign_append d.isNegative hminus hplus]
  exact hread

end Texts

end BlockScript.Decimal
