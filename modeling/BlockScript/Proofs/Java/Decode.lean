import BlockScript.Proofs.Java.Scan
/-!
# What literals of Java denote

Between quotes a backslash gives the characters behind it another meaning. Digits behind it are
those of an octal number, as many as there are up to a limit. So an escaped text means what it was
made of, unless a null character stands directly before an octal digit: then that digit is read as
one of the number.
-/
namespace BlockScript.Java

def isOctalDigit (c : Char) : Bool := '0' ≤ c && c ≤ '7'

def ofOctal (ds : List Char) : Nat := ds.foldl (fun n d => 8 * n + (d.toNat - '0'.toNat)) 0

/-- The digits that belong to an octal number after its first one: at most three digits belong to
it if the first one is `0` to `3`, and at most two otherwise. -/
def octalTail (first : Char) (cs : List Char) : List Char :=
  (cs.take (if first ≤ '3' then 2 else 1)).takeWhile isOctalDigit

/-- What a backslash and another character stand for, apart from octal digits. -/
def escapeOf? : Char → Option Char
  | 'b' => some '\x08'
  | 'f' => some '\x0c'
  | 's' => some ' '
  | 'n' => some '\n'
  | 'r' => some '\r'
  | 't' => some '\t'
  | '\'' => some '\''
  | '"' => some '"'
  | '\\' => some '\\'
  | _ => none

/-- The characters that stand between the quotes of a literal, if every backslash has a meaning. -/
def decode? : List Char → Option (List Char)
  | [] => some []
  | c :: cs =>
    if c == '\\' then
      match cs with
      | [] => none
      | d :: cs =>
        match escapeOf? d with
        | some e => (decode? cs).map (e :: ·)
        | none =>
          if isOctalDigit d then
            (decode? (cs.drop (octalTail d cs).length)).map
              (Char.ofNat (ofOctal (d :: octalTail d cs)) :: ·)
          else none
    else (decode? cs).map (c :: ·)
termination_by cs => cs.length
decreasing_by all_goals simp only [List.length_cons, List.length_drop]; omega

/-- The characters that a literal between quotes of the given kind denotes. -/
def denoted? (quote : Char) : List Char → Option (List Char)
  | [] => none
  | c :: cs =>
    if c == quote && quotedTail? quote cs == some cs then decode? cs.dropLast else none

/-- A null character stands directly before an octal digit. -/
def NullBeforeOctal (cs : List Char) : Prop :=
  ∃ before d after, cs = before ++ '\x00' :: d :: after ∧ isOctalDigit d = true

section Escaped

variable {c : Char} {cs : List Char}

/-- Every character but the null character has an escape that stands for it, or stands for
itself. -/
theorem escapeChar_denotes (hc : c ≠ '\x00') :
    (∃ d, escapeChar c = ['\\', d] ∧ escapeOf? d = some c) ∨ escapeChar c = [c] ∧ c ≠ '\\' := by
  unfold escapeChar
  split
  case h_8 => exact absurd rfl hc
  case h_9 hslash _ => exact .inr ⟨rfl, hslash⟩
  all_goals exact .inl ⟨_, rfl, rfl⟩

theorem escapeChar_of_octal (hc : isOctalDigit c = true) : escapeChar c = [c] := by
  unfold escapeChar
  split <;> first | rfl | exact absurd hc (by decide)

/-- What begins an escape is no octal digit. -/
theorem head?_escapeChar (hc : isOctalDigit c = false) :
    ∃ d ds, escapeChar c = d :: ds ∧ isOctalDigit d = false := by
  unfold escapeChar
  split
  case h_9 => exact ⟨c, [], rfl, hc⟩
  all_goals exact ⟨'\\', _, rfl, rfl⟩

theorem escapeChars_cons (c : Char) (cs : List Char) :
    escapeChars (c :: cs) = escapeChar c ++ escapeChars cs := List.flatMap_cons

/-- Octal digits stay in front when a text is escaped, and what is behind them is escaped apart from
them. -/
theorem takeWhile_escapeChars (n : Nat) (cs : List Char) :
    ((escapeChars cs).take n).takeWhile isOctalDigit = (cs.take n).takeWhile isOctalDigit ∧
      (escapeChars cs).drop ((cs.take n).takeWhile isOctalDigit).length =
        escapeChars (cs.drop ((cs.take n).takeWhile isOctalDigit).length) := by
  induction cs generalizing n with
  | nil => simp [escapeChars]
  | cons c cs ih =>
    cases n with
    | zero => simp
    | succ n =>
      rw [escapeChars_cons]
      cases hc : isOctalDigit c with
      | true =>
        obtain ⟨htake, hdrop⟩ := ih n
        simp [escapeChar_of_octal hc, hc, htake, hdrop]
      | false =>
        obtain ⟨d, ds, hd, hdigit⟩ := head?_escapeChar hc
        rw [hd]
        simp [hc, hdigit, escapeChars_cons, hd]

theorem decode?_cons_of_ne (hc : c ≠ '\\') (cs : List Char) :
    decode? (c :: cs) = (decode? cs).map (c :: ·) := by
  rw [decode?.eq_def]
  simp [hc]

theorem decode?_escapeChars_cons (hc : c ≠ '\x00') (cs : List Char) :
    decode? (escapeChars (c :: cs)) = (decode? (escapeChars cs)).map (c :: ·) := by
  rw [escapeChars_cons]
  obtain ⟨d, hd, hmeans⟩ | ⟨hself, hslash⟩ := escapeChar_denotes hc
  · simp [hd, decode?, hmeans]
  · rw [hself, List.singleton_append, decode?_cons_of_ne hslash]

/-- Behind an escaped null character octal digits are read as digits of its number. -/
theorem decode?_escapeChars_null (cs : List Char) :
    decode? (escapeChars ('\x00' :: cs)) =
      (decode? (escapeChars (cs.drop (octalTail '0' cs).length))).map
        (Char.ofNat (ofOctal ('0' :: octalTail '0' cs)) :: ·) := by
  obtain ⟨htake, hdrop⟩ := takeWhile_escapeChars 2 cs
  have htail : octalTail '0' (escapeChars cs) = octalTail '0' cs := htake
  have hrest : (escapeChars cs).drop (octalTail '0' cs).length =
      escapeChars (cs.drop (octalTail '0' cs).length) := hdrop
  have hescape : escapeChar '\x00' = ['\\', '0'] := rfl
  have hoctal : escapeOf? '0' = none := rfl
  have hdigit : isOctalDigit '0' = true := rfl
  simp [escapeChars_cons, hescape, decode?, hoctal, hdigit, htail, hrest]

/-- Reading an escaped text succeeds, with no more characters than there were. -/
theorem exists_decode?_escapeChars (cs : List Char) :
    ∃ ds, decode? (escapeChars cs) = some ds ∧ ds.length ≤ cs.length := by
  induction hn : cs.length using Nat.strongRecOn generalizing cs with
  | _ n ih =>
    subst hn
    cases cs with
    | nil => exact ⟨[], by simp [escapeChars, decode?], Nat.le_refl _⟩
    | cons c cs =>
      by_cases hc : c = '\x00'
      · subst hc
        have hlt : (cs.drop (octalTail '0' cs).length).length < ('\x00' :: cs).length := by
          rw [List.length_drop, List.length_cons]
          omega
        obtain ⟨ds, hds, hle⟩ := ih _ hlt _ rfl
        refine ⟨_, by rw [decode?_escapeChars_null, hds, Option.map_some], ?_⟩
        rw [List.length_cons]
        omega
      · obtain ⟨ds, hds, hle⟩ := ih cs.length (Nat.lt_succ_self _) cs rfl
        refine ⟨c :: ds, by rw [decode?_escapeChars_cons hc, hds, Option.map_some], ?_⟩
        exact Nat.succ_le_succ hle

theorem nullBeforeOctal_cons :
    NullBeforeOctal (c :: cs) ↔
      c = '\x00' ∧ (∃ d ∈ cs.head?, isOctalDigit d = true) ∨ NullBeforeOctal cs := by
  constructor
  · rintro ⟨before, d, after, heq, hd⟩
    cases before with
    | nil =>
      obtain ⟨rfl, rfl⟩ := List.cons.inj heq
      exact .inl ⟨rfl, d, rfl, hd⟩
    | cons b before =>
      obtain ⟨rfl, rfl⟩ := List.cons.inj heq
      exact .inr ⟨before, d, after, rfl, hd⟩
  · rintro (⟨rfl, d, hhead, hd⟩ | ⟨before, d, after, rfl, hd⟩)
    · obtain ⟨after, rfl⟩ := List.head?_eq_some_iff.mp hhead
      exact ⟨[], d, after, rfl, hd⟩
    · exact ⟨c :: before, d, after, rfl, hd⟩

theorem octalTail_eq_nil_iff {first : Char} :
    octalTail first cs = [] ↔ ¬∃ d ∈ cs.head?, isOctalDigit d = true := by
  unfold octalTail
  cases cs with
  | nil => simp
  | cons d cs => split <;> simp [List.takeWhile_cons]

/-- An escaped text means what it was made of if and only if in that no null character stands
directly before an octal digit. -/
theorem decode?_escapeChars_iff (cs : List Char) :
    decode? (escapeChars cs) = some cs ↔ ¬NullBeforeOctal cs := by
  induction cs with
  | nil =>
    refine iff_of_true (by simp [escapeChars, decode?]) ?_
    rintro ⟨before, d, after, heq, -⟩
    simp at heq
  | cons c cs ih =>
    rw [nullBeforeOctal_cons]
    by_cases hc : c = '\x00'
    · subst hc
      rw [decode?_escapeChars_null]
      by_cases htail : octalTail '0' cs = []
      · -- The escape ends with its first digit.
        have hno := octalTail_eq_nil_iff.mp htail
        have hnull : Char.ofNat (ofOctal ['0']) = '\x00' := rfl
        rw [htail, List.length_nil, List.drop_zero, hnull, or_iff_right (hno ·.2), ← ih]
        simp
      · -- The escape goes on, and fewer characters are left than there were.
        have hyes := not_not.mp (mt octalTail_eq_nil_iff.mpr htail)
        refine iff_of_false ?_ (not_not.mpr (.inl ⟨rfl, hyes⟩))
        obtain ⟨ds, hds, hle⟩ := exists_decode?_escapeChars (cs.drop (octalTail '0' cs).length)
        have hpos := List.length_pos_iff.mpr htail
        have hne : cs ≠ [] := by
          rintro rfl
          exact htail rfl
        have hcs := List.length_pos_iff.mpr hne
        rw [List.length_drop] at hle
        rw [hds, Option.map_some, Option.some.injEq, List.cons.injEq]
        rintro ⟨-, rfl⟩
        omega
    · rw [decode?_escapeChars_cons hc]
      simp [hc, ih]

end Escaped

section Literals

variable {quote : Char}

theorem denoted?_quoted (hquote : quote = '\'' ∨ quote = '"') (s : String) :
    denoted? quote (quoted quote s).toList = decode? (escapeChars s.toList) := by
  have htail := quotedTail?_escapeChars hquote s.toList []
  rw [quoted, String.toList_ofList, List.cons_append, denoted?, if_pos (by simp [htail]),
    List.dropLast_concat]

/-- Escaping a text and reading it again gives back the text if and only if no null character stands
directly before an octal digit in it. Just then the literal of the text denotes it as well. The
literal of a character always denotes that character. -/
theorem literal_denotes_iff (s : String) (c : Char) :
    (decode? (escape s).toList = some s.toList ↔ ¬NullBeforeOctal s.toList) ∧
      (∃ l, literal? (.string s) = some l ∧
        (denoted? '"' l.toList = some s.toList ↔ ¬NullBeforeOctal s.toList)) ∧
      ∃ l, literal? (.character (String.singleton c)) = some l ∧
        denoted? '\'' l.toList = some [c] := by
  refine ⟨?_, ⟨_, rfl, ?_⟩, ⟨_, rfl, ?_⟩⟩
  · rw [escape, String.toList_ofList]
    exact decode?_escapeChars_iff s.toList
  · rw [denoted?_quoted (.inr rfl)]
    exact decode?_escapeChars_iff s.toList
  · have hsingle : ¬NullBeforeOctal [c] := by
      rw [nullBeforeOctal_cons]
      rintro (⟨-, d, hd, -⟩ | ⟨before, d, after, heq, -⟩)
      · cases hd
      · simp at heq
    rw [denoted?_quoted (.inl rfl), String.toList_singleton]
    exact (decode?_escapeChars_iff [c]).mpr hsingle

/-- A null character before the digit one is read back as one character, with the number one. -/
theorem null_before_one_misread :
    decode? (escape "\x001").toList = some ['\x01'] ∧
      decode? (escape "\x001").toList ≠ some "\x001".toList := by
  have hread : decode? (escape "\x001").toList = some ['\x01'] := by
    have hchars : "\x001".toList = ['\x00', '1'] := rfl
    have hend : decode? (escapeChars []) = some [] := by simp [escapeChars, decode?]
    have hrest : decode? (escapeChars (List.drop (octalTail '0' ['1']).length ['1'])) = some [] :=
      hend
    rw [escape, String.toList_ofList, hchars, decode?_escapeChars_null, hrest]
    rfl
  exact ⟨hread, by rw [hread]; decide⟩

end Literals

end BlockScript.Java
