import BlockScript.Program
import BlockScript.Proofs.Token.Tiling
/-!
# The tokens of a text in one pass

The tokens of a text are scanned without signs in numbers, and then the signs are folded. The same
tokens are found in one pass: they tile the text, and each is either one that stands alone, which a
sign in front of a digit does only if an operand can end before it; or it is a sign and a number,
and no operand ends before it.
-/
namespace BlockScript

open Text

namespace Token

variable {last : Option Token} {t sign number : Token} {rest : List Char}

def isSigned (t : Token) : Bool :=
  t.isNumber && t.literal.toList.head?.any fun c => c == '+' || c == '-'

theorem isSign_iff : t.isSign = true ↔ t.kind = .operator ∧ (t.literal = "+" ∨ t.literal = "-") := by
  simp [isSign]

theorem kind_of_isNumber (h : t.isNumber = true) : t.kind = .integer ∨ t.kind = .decimal := by
  simpa [isNumber] using h

theorem not_isSign_of_isNumber (h : t.isNumber = true) : t.isSign = false := by
  obtain hk | hk := kind_of_isNumber h <;> simp [isSign, hk]

theorem endsOperand_of_isNumber (h : t.isNumber = true) : t.endsOperand = true := by
  obtain hk | hk := kind_of_isNumber h <;> simp [endsOperand, hk]

theorem length_of_isSign (h : t.isSign = true) : t.literal.length = 1 := by
  obtain ⟨-, h | h⟩ := isSign_iff.mp h <;> rw [h] <;> rfl

theorem foldsInto_iff : sign.foldsInto last number = true ↔
    sign.isSign = true ∧ number.isNumber = true ∧ number.index = sign.index + 1 ∧
      last.any endsOperand = false := by
  simp [foldsInto, and_assoc]

theorem isSigned_signed (hsign : sign.isSign = true) (hnumber : number.isNumber = true) :
    (sign.signed number).isSigned = true := by
  have hn : (sign.signed number).isNumber = true := hnumber
  rw [isSigned, hn, Bool.true_and]
  obtain ⟨-, hs | hs⟩ := isSign_iff.mp hsign <;> simp [signed, hs]

/-- A sign stands in front of anything. -/
theorem stands_of_isSign (h : t.isSign = true) : t.Stands rest := by
  obtain ⟨hkind, hliteral | hliteral⟩ := isSign_iff.mp h
  · exact ⟨'+', [], by rw [hliteral]; rfl, by decide, by rw [hkind]; cases rest <;> rfl⟩
  · exact ⟨'-', [], by rw [hliteral]; rfl, by decide, by rw [hkind]; cases rest <;> rfl⟩

/-- A token is a number if and only if it begins with a digit. -/
theorem Stands.isNumber_eq (h : t.Stands rest) :
    t.isNumber = t.literal.toList.head?.any isAsciiDigit := by
  have hfits := h.fits
  obtain ⟨c, tail, hliteral, -⟩ := h
  rw [hliteral] at hfits ⊢
  have hiff := isNumber_iff_of_fits hfits
  rw [Bool.eq_iff_iff]
  simpa [isNumber] using hiff

/-- No sign stands in a number before folding. -/
theorem Stands.not_isSigned (h : t.Stands rest) : t.isSigned = false := by
  rw [isSigned, h.isNumber_eq]
  cases t.literal.toList with
  | nil => rfl
  | cons c tail =>
    rw [List.head?_cons, Option.any_some, Option.any_some]
    by_contra hboth
    simp only [Bool.not_eq_false, Bool.and_eq_true, Bool.or_eq_true, beq_iff_eq] at hboth
    obtain ⟨hdigit, rfl | rfl⟩ := hboth <;> exact absurd hdigit (by decide)

/-- The token that is read behind the token `last` and in front of these characters. -/
inductive Reads (last : Option Token) : Token → List Char → Prop
  | plain {t : Token} {rest : List Char} (stands : t.Stands rest)
      (apart : t.isSign = true → last.any endsOperand = false →
        rest.head?.any isAsciiDigit = false) : Reads last t rest
  | signed {sign number : Token} {rest : List Char} (starts : last.any endsOperand = false)
      (isSign : sign.isSign = true) (isNumber : number.isNumber = true)
      (stands : number.Stands rest) : Reads last (sign.signed number) rest

end Token

variable {last : Option Token} {index : Nat} {cs rest : List Char} {t : Token}
  {raw ts us : List Token}

/-- Where a digit follows directly, the next token is a number that begins there. -/
theorem head?_of_rawTiling (h : RawTiling last index cs raw) :
    cs.head?.any isAsciiDigit = true ↔ ∃ n ∈ raw.head?, n.isNumber = true ∧ n.index = index := by
  cases h with
  | nil layout =>
    cases cs with
    | nil => simp
    | cons c cs => simp [isAsciiDigit_of_isLayout (layout c List.mem_cons_self)]
  | @cons _ _ gap rest t ts layout place own more =>
    simp only [List.head?_cons, Option.mem_def, Option.some.injEq, exists_eq_left']
    cases gap with
    | nil =>
      have hnumber := own.isNumber_eq
      obtain ⟨c, tail, hliteral, -⟩ := own
      rw [hliteral] at hnumber
      simp only [List.length_nil, Nat.add_zero] at place
      simp [hliteral, hnumber, place]
    | cons c gap =>
      simp only [List.length_cons] at place
      have hindex : t.index ≠ index := by omega
      simp [isAsciiDigit_of_isLayout (layout c List.mem_cons_self), hindex]

/-- A sign is kept apart from a digit directly behind it just when it does not fold into the next
token. -/
theorem apart_iff (h : RawTiling (some t) t.finish rest raw) (last : Option Token) :
    (t.isSign = true → last.any Token.endsOperand = false →
      rest.head?.any isAsciiDigit = false) ↔ ∀ n ∈ raw.head?, t.foldsInto last n = false := by
  have hhead := head?_of_rawTiling h
  have hfinish : t.isSign = true → t.finish = t.index + 1 := fun hsign => by
    rw [Token.finish, Token.length_of_isSign hsign]
  constructor
  · intro hapart n hn
    rw [Bool.eq_false_iff]
    intro hfolds
    obtain ⟨hsign, hnumber, hindex, hlast⟩ := Token.foldsInto_iff.mp hfolds
    have hdigit := hhead.mpr ⟨n, hn, hnumber, hindex.trans (hfinish hsign).symm⟩
    rw [hapart hsign hlast] at hdigit
    cases hdigit
  · intro hno hsign hlast
    rw [Bool.eq_false_iff]
    intro hdigit
    obtain ⟨n, hn, hnumber, hindex⟩ := hhead.mp hdigit
    have hfolds := Token.foldsInto_iff.mpr ⟨hsign, hnumber, hindex.trans (hfinish hsign), hlast⟩
    rw [hno n hn] at hfolds
    cases hfolds

theorem reads_foldSignsAfter (h : RawTiling last index cs raw) (last' : Option Token) :
    Tiling Token.Reads last' index cs (foldSignsAfter last' raw) := by
  induction last', raw using foldSignsAfter.induct generalizing last index cs with
  | case1 last' =>
    cases h with
    | nil layout =>
      rw [foldSignsAfter]
      exact .nil layout
  | case2 last' t =>
    cases h with
    | cons layout place own more =>
      have happart := (apart_iff more last').mpr (by simp)
      cases more with
      | nil layout' =>
        rw [foldSignsAfter]
        exact .cons layout place (.plain own happart) (.nil layout')
  | case3 last' sign number raw hfolds ih =>
    obtain ⟨hsign, hnumber, hindex, hlast⟩ := Token.foldsInto_iff.mp hfolds
    have hlength : sign.literal.length = 1 := Token.length_of_isSign hsign
    cases h with
    | @cons _ _ gap _ _ _ layout place own more =>
      cases more with
      | @cons _ _ gap' rest _ _ layout' place' own' more' =>
        have hnone : gap' = [] := by
          rw [← List.length_eq_zero_iff]
          simp only [Token.finish] at place'
          omega
        subst hnone
        have htext : sign.literal.toList ++ ([] ++ (number.literal.toList ++ rest)) =
            (sign.signed number).literal.toList ++ rest := by
          simp [Token.signed]
        rw [foldSignsAfter, if_pos hfolds, htext]
        refine .cons layout place (.signed hlast hsign hnumber own') ?_
        rw [finish_signed hfolds]
        exact ih more'
  | case4 last' t n raw hfolds ih =>
    cases h with
    | cons layout place own more =>
      have happart := (apart_iff more last').mpr (by simpa using hfolds)
      rw [foldSignsAfter, if_neg hfolds]
      exact .cons layout place (.plain own happart) (ih more)

/-- The tokens after folding are exactly the tilings by tokens that are read where they are. -/
theorem reads_iff : Tiling Token.Reads last index cs ts ↔
    ∃ raw, scanFrom index cs = .ok raw ∧ foldSignsAfter last raw = ts := by
  constructor
  · intro h
    induction h with
    | @nil last index gap layout =>
      refine ⟨[], ?_, by rw [foldSignsAfter]⟩
      rw [← List.append_nil gap, scanFrom_gap layout, scanFrom]
    | @cons last index gap rest t ts layout place own more ih =>
      obtain ⟨raw, hraw, hfolded⟩ := ih
      cases own with
      | plain stands apart =>
        refine ⟨t :: raw, ?_, ?_⟩
        · rw [scanFrom_gap layout, ← place, scanFrom_token stands, hraw]
          rfl
        · have hno := (apart_iff (tiling_of_scanFrom hraw (some t)) last).mp apart
          cases raw with
          | nil =>
            rw [foldSignsAfter] at hfolded
            rw [foldSignsAfter, ← hfolded]
          | cons n raw => rw [foldSignsAfter, if_neg (by simp [hno n rfl]), hfolded]
      | @signed sign number _ starts isSign isNumber stands =>
        -- Before folding, the number is a token of its own behind the sign.
        let digits : Token := ⟨number.kind, number.literal, sign.index + 1⟩
        have hfolds : sign.foldsInto last digits = true :=
          Token.foldsInto_iff.mpr ⟨isSign, isNumber, rfl, starts⟩
        have hdigits : digits.Stands rest := stands
        have hfinish : sign.finish = digits.index := by
          rw [Token.finish, Token.length_of_isSign isSign]
        have htext : (sign.signed number).literal.toList ++ rest =
            sign.literal.toList ++ (digits.literal.toList ++ rest) := by
          simp [Token.signed, digits]
        have hplace : index + gap.length = sign.index := place.symm
        have hraw' : scanFrom digits.finish rest = .ok raw := (finish_signed hfolds).symm ▸ hraw
        refine ⟨sign :: digits :: raw, ?_, ?_⟩
        · rw [scanFrom_gap layout, htext, hplace, scanFrom_token (Token.stands_of_isSign isSign),
            hfinish, scanFrom_token hdigits, hraw']
          rfl
        · rw [foldSignsAfter, if_pos hfolds]
          exact congrArg _ hfolded
  · rintro ⟨raw, hraw, rfl⟩
    exact reads_foldSignsAfter (tiling_of_scanFrom hraw last) last

/-- There is one tiling by tokens that are read where they are. -/
theorem Tiling.unique (h : Tiling Token.Reads last index cs ts)
    (h' : Tiling Token.Reads last index cs us) : ts = us := by
  obtain ⟨raw, hraw, rfl⟩ := reads_iff.mp h
  obtain ⟨raw', hraw', rfl⟩ := reads_iff.mp h'
  cases hraw.symm.trans hraw'
  rfl

/-- The tokens of a text tile it, and each is read where it is. -/
theorem tokensOf_eq_ok_iff {text : String} :
    tokensOf text = .ok ts ↔ Tiling Token.Reads none 0 text.toList ts := by
  rw [reads_iff]
  unfold tokensOf scan foldSigns
  cases scanFrom 0 text.toList <;> simp [Except.map, Except.mapError]

end BlockScript
