import BlockScript.Proofs.Token.Pattern
import BlockScript.Proofs.Token.Rescan
/-!
# Where a text has no tokens

Scanning goes over layout and tokens and stops at a character at which no token can begin. That is a
white space character that is no layout, or a quote such that no text of its kind of token begins
there. It fails exactly where it comes to such a character, and what is before has tokens.
-/
namespace BlockScript

open Text
open scoped Computability

/-- No token begins at `c` with the characters `cs` behind it: it is white space but no layout, or
a quote that begins no text of the pattern of its kind. -/
def Stuck (c : Char) (cs : List Char) : Prop :=
  isBlank c = true ∧ isLayout c = false ∨
    c = '\'' ∧ (∀ cs', cs' <+: c :: cs → cs' ∉ TokenKind.character.pattern) ∨
    c = '"' ∧ ∀ cs', cs' <+: c :: cs → cs' ∉ TokenKind.string.pattern

/-- Scanning from the characters `cs` at `index` comes to the characters `rest` at `place`, over
layout and over tokens, each being the one that stands where it is. -/
inductive ScanReaches : Nat → List Char → Nat → List Char → Prop
  | here {index : Nat} {cs : List Char} : ScanReaches index cs index cs
  | layout {index place : Nat} {c : Char} {cs rest : List Char} (blank : isLayout c = true)
      (more : ScanReaches (index + 1) cs place rest) : ScanReaches index (c :: cs) place rest
  | token {t : Token} {place : Nat} {cs rest : List Char} (stands : t.Stands cs)
      (more : ScanReaches t.finish cs place rest) :
      ScanReaches t.index (t.literal.toList ++ cs) place rest

section Quotes

variable {c : Char} {cs rest : List Char}

/-- A text of a class and a language has a character of the class first. -/
theorem mem_oneOf_mul_iff {p : Char → Bool} {L : Language Char} :
    cs ∈ oneOf p * L ↔ ∃ c ds, p c = true ∧ ds ∈ L ∧ cs = c :: ds := by
  rw [Language.mem_mul]
  constructor
  · rintro ⟨_, ⟨c, hc, rfl⟩, ds, hds, rfl⟩
    exact ⟨c, ds, hc, hds, rfl⟩
  · rintro ⟨c, ds, hc, hds, rfl⟩
    exact ⟨[c], singleton_mem_oneOf hc, ds, hds, rfl⟩

theorem mem_quotedItem_iff {quote : Char} :
    cs ∈ quotedItem quote ↔
      (∃ c, isPlain quote c = true ∧ cs = [c]) ∨ ∃ c, c ≠ '\n' ∧ cs = ['\\', c] := by
  refine or_congr Iff.rfl ?_
  constructor
  · intro h
    obtain ⟨c, ds, hc, ⟨d, hd, rfl⟩, rfl⟩ := mem_oneOf_mul_iff.mp h
    obtain rfl : c = '\\' := by simpa using hc
    exact ⟨d, by simpa using hd, rfl⟩
  · rintro ⟨d, hd, rfl⟩
    exact mem_oneOf_mul_iff.mpr ⟨'\\', [d], by decide, singleton_mem_oneOf (by simpa using hd), rfl⟩

/-- A text of the pattern of characters is scanned, whatever stands behind it. -/
theorem characterTail?_of_mem (h : cs ∈ (1 + quotedItem '\'') * oneOf (· == '\'')) :
    characterTail? (cs ++ rest) ≠ none := by
  obtain ⟨item, hitem, _, ⟨c, hc, rfl⟩, rfl⟩ := Language.mem_mul.mp h
  obtain rfl : c = '\'' := by simpa using hc
  obtain rfl | hitem := hitem
  · exact Option.some_ne_none _
  obtain ⟨c, hplain, rfl⟩ | ⟨c, hline, rfl⟩ := mem_quotedItem_iff.mp hitem
  · obtain ⟨hquote, hslash⟩ := ne_of_isPlain hplain
    simp [characterTail?, hplain, hslash]
  · simp [characterTail?, hline]

/-- A text of the pattern of strings is scanned, whatever stands behind it. -/
theorem stringTail?_of_mem (h : cs ∈ (quotedItem '"')∗ * oneOf (· == '"')) :
    stringTail? (cs ++ rest) ≠ none := by
  obtain ⟨_, hitems, _, ⟨c, hc, rfl⟩, rfl⟩ := Language.mem_mul.mp h
  obtain rfl : c = '"' := by simpa using hc
  obtain ⟨items, rfl, hall⟩ := Language.mem_kstar.mp hitems
  clear h hitems
  induction items with
  | nil => exact Option.some_ne_none _
  | cons item items ih =>
    obtain ⟨hitem, hall⟩ := List.forall_mem_cons.mp hall
    have hmore : stringTail? (items.flatten ++ ['"'] ++ rest) ≠ none := ih hall
    obtain ⟨c, hplain, rfl⟩ | ⟨c, hline, rfl⟩ := mem_quotedItem_iff.mp hitem
    · obtain ⟨hquote, hslash⟩ := ne_of_isPlain hplain
      rw [List.flatten_cons, List.append_assoc, List.append_assoc, List.singleton_append,
        stringTail?.eq_4 _ _ (by simpa using hquote) (by simp [hslash]), if_pos hplain,
        ← List.append_assoc]
      simpa using hmore
    · simpa [stringTail?, hline] using hmore

/-- At a quote no character is scanned exactly if no text of the pattern of characters is there. -/
theorem characterTail?_eq_none_iff : characterTail? cs = none ↔
    ∀ cs', cs' <+: '\'' :: cs → cs' ∉ TokenKind.character.pattern := by
  constructor
  · rintro hnone cs' ⟨rest, heq⟩ hmem
    obtain ⟨c, ds, -, hds, rfl⟩ := mem_oneOf_mul_iff.mp hmem
    obtain ⟨-, rfl⟩ := List.cons.inj heq
    exact characterTail?_of_mem hds hnone
  · intro hno
    by_contra hsome
    obtain ⟨tail, htail⟩ := Option.ne_none_iff_exists'.mp hsome
    obtain ⟨rest, rfl⟩ := characterTail?_isPrefix htail
    have hself : characterTail? tail = some tail := by simpa using characterTail?_append htail []
    exact hno ('\'' :: tail) ⟨rest, rfl⟩ (cons_mem_mul (by decide) (mem_pattern_of_characterTail? hself))

/-- At a double quote no string is scanned exactly if no text of the pattern of strings is there. -/
theorem stringTail?_eq_none_iff : stringTail? cs = none ↔
    ∀ cs', cs' <+: '"' :: cs → cs' ∉ TokenKind.string.pattern := by
  constructor
  · rintro hnone cs' ⟨rest, heq⟩ hmem
    obtain ⟨c, ds, -, hds, rfl⟩ := mem_oneOf_mul_iff.mp hmem
    obtain ⟨-, rfl⟩ := List.cons.inj heq
    exact stringTail?_of_mem hds hnone
  · intro hno
    by_contra hsome
    obtain ⟨tail, htail⟩ := Option.ne_none_iff_exists'.mp hsome
    obtain ⟨rest, rfl⟩ := stringTail?_isPrefix htail
    exact hno ('"' :: tail) ⟨rest, rfl⟩ (cons_mem_mul (by decide) (mem_pattern_of_stringTail? htail))

end Quotes

section Places

variable {c : Char} {cs rest : List Char} {index place : Nat}

/-- White space has no code of a printed character of ASCII. -/
theorem code_of_isBlank (h : isBlank c = true) : c.toNat < 33 ∨ 132 < c.toNat := by
  simp only [isBlank, Bool.or_eq_true, Bool.and_eq_true, decide_eq_true_eq, beq_iff_eq] at h
  omega

theorem code_of_isNamePart (h : isNamePart c = true) : 33 ≤ c.toNat ∧ c.toNat ≤ 132 := by
  have hle : ∀ a b : Char, a ≤ b → a.toNat ≤ b.toNat := fun _ _ h => h
  simp only [isNamePart, isNameStart, isLetter, isAsciiDigit, Bool.or_eq_true, Bool.and_eq_true,
    decide_eq_true_eq, beq_iff_eq] at h
  rcases h with ((⟨hlow, hhigh⟩ | ⟨hlow, hhigh⟩) | rfl) | ⟨hlow, hhigh⟩
  · exact ⟨Nat.le_trans (by decide) (hle _ _ hlow), Nat.le_trans (hle _ _ hhigh) (by decide)⟩
  · exact ⟨Nat.le_trans (by decide) (hle _ _ hlow), Nat.le_trans (hle _ _ hhigh) (by decide)⟩
  · decide
  · exact ⟨Nat.le_trans (by decide) (hle _ _ hlow), Nat.le_trans (hle _ _ hhigh) (by decide)⟩

/-- White space begins neither a name nor a number, and is no quote. -/
theorem tokenTail?_of_isBlank (h : isBlank c = true) : tokenTail? c cs = none := by
  have hcode := code_of_isBlank h
  have hpart : isNamePart c = false := by
    rw [Bool.eq_false_iff]
    intro hpart
    have := code_of_isNamePart hpart
    omega
  have hsingle : c ≠ '\'' := by
    rintro rfl
    exact absurd h (by decide)
  have hdouble : c ≠ '"' := by
    rintro rfl
    exact absurd h (by decide)
  obtain ⟨hstart, hdigit⟩ := Bool.or_eq_false_iff.mp hpart
  simp [tokenTail?, hstart, hdigit, hsingle, hdouble, h]

/-- No token begins at a place exactly if none is scanned there. -/
theorem stuck_iff : Stuck c cs ↔ isLayout c = false ∧ tokenTail? c cs = none := by
  have hsingle : tokenTail? '\'' cs = (characterTail? cs).map (.character, ·) := rfl
  have hdouble : tokenTail? '"' cs = (stringTail? cs).map (.string, ·) := rfl
  constructor
  · rintro (⟨hblank, hlayout⟩ | ⟨rfl, hno⟩ | ⟨rfl, hno⟩)
    · exact ⟨hlayout, tokenTail?_of_isBlank hblank⟩
    · exact ⟨by decide, by rw [hsingle, characterTail?_eq_none_iff.mpr hno, Option.map_none]⟩
    · exact ⟨by decide, by rw [hdouble, stringTail?_eq_none_iff.mpr hno, Option.map_none]⟩
  · rintro ⟨hlayout, hnone⟩
    by_cases hc : c = '\''
    · subst hc
      rw [hsingle, Option.map_eq_none_iff] at hnone
      exact .inr (.inl ⟨rfl, characterTail?_eq_none_iff.mp hnone⟩)
    by_cases hc' : c = '"'
    · subst hc'
      rw [hdouble, Option.map_eq_none_iff] at hnone
      exact .inr (.inr ⟨rfl, stringTail?_eq_none_iff.mp hnone⟩)
    · simp only [tokenTail?, hc, hc', beq_iff_eq, if_false] at hnone
      refine .inl ⟨?_, hlayout⟩
      split at hnone
      · cases hnone
      split at hnone
      · cases hnone
      split at hnone
      · assumption
      · cases hnone

namespace ScanReaches

/-- What fails where the scan comes to fails from the beginning. -/
theorem scanFrom_eq_error (h : ScanReaches index cs place rest) {e : Unexpected}
    (he : scanFrom place rest = .error e) : scanFrom index cs = .error e := by
  induction h with
  | here => exact he
  | layout blank more ih => rw [scanFrom, if_pos blank, ih he]
  | token stands more ih =>
    rw [scanFrom_token stands, ih he]
    rfl

/-- What the scan has gone over has tokens of its own, whatever stands behind it. -/
theorem exists_tiling (h : ScanReaches index cs place rest) :
    ∃ before, cs = before ++ rest ∧ place = index + before.length ∧
      ∃ ts, ∀ last, RawTiling last index before ts := by
  induction h with
  | here => exact ⟨[], rfl, rfl, [], fun _ => .nil (by simp [Gap])⟩
  | @layout index place c cs rest blank more ih =>
    obtain ⟨before, rfl, hplace, ts, htiling⟩ := ih
    refine ⟨c :: before, rfl, ?_, ts, fun last => (htiling last).layout_cons blank⟩
    rw [hplace, List.length_cons]
    omega
  | @token t place cs rest stands more ih =>
    obtain ⟨before, rfl, hplace, ts, htiling⟩ := ih
    refine ⟨t.literal.toList ++ before, by simp, ?_, t :: ts, fun last => ?_⟩
    · simp only [hplace, Token.finish, List.length_append, String.length_toList]
      omega
    · exact Tiling.first (stands.of_halts (halts_append before rest)) (htiling (some t))

end ScanReaches

/-- A scan that fails has come to the character that is reported, and no token begins there. -/
theorem scanReaches_of_error {e : Unexpected} (h : scanFrom index cs = .error e) :
    ∃ rest, ScanReaches index cs e.index (e.character :: rest) ∧ Stuck e.character rest := by
  induction index, cs using scanFrom.induct with
  | case1 index => simp [scanFrom] at h
  | case2 index c cs hc ih =>
    rw [scanFrom, if_pos hc] at h
    obtain ⟨rest, hreaches, hstuck⟩ := ih h
    exact ⟨rest, .layout hc hreaches, hstuck⟩
  | case3 index c cs hc htail =>
    simp only [scanFrom, hc, htail, Bool.false_eq_true, if_false, Except.error.injEq] at h
    subst h
    exact ⟨cs, .here, stuck_iff.mpr ⟨by simpa using hc, htail⟩⟩
  | case4 index c cs hc kind tail htail tokens htokens ih =>
    simp [scanFrom, hc, htail, htokens] at h
  | case5 index c cs hc kind tail htail e' he ih =>
    simp only [scanFrom, hc, htail, he, Bool.false_eq_true, if_false, Except.error.injEq] at h
    subst h
    obtain ⟨rest, hreaches, hstuck⟩ := ih he
    obtain ⟨behind, rfl⟩ := tokenTail?_isPrefix htail
    rw [List.drop_left] at hreaches
    have hstands : Token.Stands ⟨kind, String.ofList (c :: tail), index⟩ behind :=
      ⟨c, tail, by simp, by simpa using hc, htail⟩
    have hfinish : (⟨kind, String.ofList (c :: tail), index⟩ : Token).finish =
        index + (tail.length + 1) := by
      simp [Token.finish, Nat.add_comm]
    have htoken := ScanReaches.token hstands (hfinish ▸ hreaches)
    rw [String.toList_ofList, List.cons_append] at htoken
    exact ⟨rest, htoken, hstuck⟩

theorem scanFrom_of_stuck (h : Stuck c cs) : scanFrom index (c :: cs) = .error ⟨c, index⟩ := by
  obtain ⟨hlayout, hnone⟩ := stuck_iff.mp h
  simp [scanFrom, hlayout, hnone]

end Places

section Texts

variable {text : String} {c : Char} {rest : List Char} {place : Nat}

theorem tokensOf_eq_error_iff {fault : Fault} :
    tokensOf text = .error fault ↔
      ∃ e, scanFrom 0 text.toList = .error e ∧ fault = .character e := by
  unfold tokensOf scan
  cases scanFrom 0 text.toList <;> simp [Except.map, Except.mapError, eq_comm]

theorem exists_tokensOf_of_tiling {ts : List Token} (h : RawTiling none 0 text.toList ts) :
    ∃ ts, tokensOf text = .ok ts := by
  unfold tokensOf scan
  rw [scanFrom_eq_ok_iff.mpr h]
  exact ⟨_, rfl⟩

/-- A text has no tokens exactly if scanning it comes to a character at which no token begins; the
error tells that character and where it is, and the text before it has tokens. A text without quotes
whose white space is all layout has tokens. -/
theorem tokensOf_fails_exactly_where_stuck (text : String) :
    (∀ fault, tokensOf text = .error fault → ∃ c place rest, fault = .character ⟨c, place⟩ ∧
      place < text.length ∧ text.toList.drop place = c :: rest ∧
      ScanReaches 0 text.toList place (c :: rest) ∧ Stuck c rest ∧
      ∃ ts, tokensOf (String.ofList (text.toList.take place)) = .ok ts) ∧
    (∀ c place rest, ScanReaches 0 text.toList place (c :: rest) → Stuck c rest →
      tokensOf text = .error (.character ⟨c, place⟩)) ∧
    ((∀ c ∈ text.toList, c ≠ '\'' ∧ c ≠ '"' ∧ (isBlank c = true → isLayout c = true)) →
      ∃ ts, tokensOf text = .ok ts) := by
  have hfails : ∀ fault, tokensOf text = .error fault → ∃ c place rest,
      fault = .character ⟨c, place⟩ ∧ ScanReaches 0 text.toList place (c :: rest) ∧
        Stuck c rest := by
    intro fault h
    obtain ⟨⟨c, place⟩, he, rfl⟩ := tokensOf_eq_error_iff.mp h
    obtain ⟨rest, hreaches, hstuck⟩ := scanReaches_of_error he
    exact ⟨c, place, rest, rfl, hreaches, hstuck⟩
  refine ⟨fun fault h => ?_, fun c place rest hreaches hstuck => ?_, fun hplain => ?_⟩
  · obtain ⟨c, place, rest, rfl, hreaches, hstuck⟩ := hfails fault h
    obtain ⟨before, htext, hplace, ts, htiling⟩ := hreaches.exists_tiling
    rw [Nat.zero_add] at hplace
    subst hplace
    refine ⟨c, _, rest, rfl, ?_, ?_, hreaches, hstuck, ?_⟩
    · rw [← String.length_toList, htext, List.length_append, List.length_cons]
      omega
    · rw [htext, List.drop_left]
    · have hbefore : (String.ofList (text.toList.take before.length)).toList = before := by
        rw [htext, List.take_left, String.toList_ofList]
      exact exists_tokensOf_of_tiling (hbefore.symm ▸ htiling none)
  · refine tokensOf_eq_error_iff.mpr ⟨⟨c, place⟩, ?_, rfl⟩
    exact hreaches.scanFrom_eq_error (scanFrom_of_stuck hstuck)
  · cases htokens : tokensOf text with
    | ok ts => exact ⟨ts, rfl⟩
    | error fault =>
      obtain ⟨c, place, rest, -, hreaches, hstuck⟩ := hfails fault htokens
      obtain ⟨before, htext, -⟩ := hreaches.exists_tiling
      obtain ⟨hsingle, hdouble, hblank⟩ := hplain c (by rw [htext]; simp)
      obtain ⟨hwhite, hlayout⟩ | ⟨heq, -⟩ | ⟨heq, -⟩ := hstuck
      · rw [hblank hwhite] at hlayout
        cases hlayout
      · exact absurd heq hsingle
      · exact absurd heq hdouble

/-- A quote in front of two characters begins no token, and the name before it is one. -/
theorem tokensOf_fails_exactly_where_stuck_quote :
    tokensOf "x 'ab'" = .error (.character ⟨'\'', 2⟩) ∧ Stuck '\'' ['a', 'b', '\''] ∧
      ∃ ts, tokensOf "x " = .ok ts := by
  have hfails : tokensOf "x 'ab'" = .error (.character ⟨'\'', 2⟩) := by cbv
  obtain ⟨c, place, rest, hfault, -, hdrop, -, hstuck, hbefore⟩ :=
    (tokensOf_fails_exactly_where_stuck "x 'ab'").1 _ hfails
  cases hfault
  obtain rfl : ['a', 'b', '\''] = rest := (List.cons.inj hdrop).2
  exact ⟨hfails, hstuck, hbefore⟩

end Texts

end BlockScript
