import BlockScript.Proofs.Token.Folding
/-!
# Where signs fold

Folding goes through the tokens once and asks the last token that it has put out whether an operand
ends there. That token may be a number with a sign, but then an operand ends with it just as with
the number itself. So where a sign folds is read off the tokens as they were, one position at a
time.
-/
namespace BlockScript

namespace Token

/-- A keyword or an operator behind which an operand begins. -/
def Opens (t : Token) : Prop :=
  t.kind = .identifier ∧ t.literal ∈ keywords ∨ t.kind = .operator ∧ t.literal ≠ ")"

instance (t : Token) : Decidable t.Opens := inferInstanceAs (Decidable (_ ∨ _))

def Touches (sign number : Token) : Prop :=
  sign.kind = .operator ∧ (sign.literal = "+" ∨ sign.literal = "-") ∧
    (number.kind = .integer ∨ number.kind = .decimal) ∧ number.index = sign.index + 1

instance (sign number : Token) : Decidable (sign.Touches number) := inferInstanceAs (Decidable (_ ∧ _))

theorem opens_iff {t : Token} : t.Opens ↔ t.endsOperand = false := by
  unfold Opens endsOperand
  cases t.kind <;> simp

theorem foldsInto_iff_touches {last : Option Token} {sign number : Token} :
    sign.foldsInto last number = true ↔
      sign.Touches number ∧ last.any endsOperand = false := by
  simp only [foldsInto_iff, isSign_iff, isNumber, Touches, Bool.or_eq_true, beq_iff_eq, and_assoc]

end Token

variable {ts rest : List Token} {t n : Token} {i : Nat} {last : Option Token}

def FoldsAt (ts : List Token) (i : Nat) : Prop :=
  (∃ sign ∈ ts[i]?, ∃ number ∈ ts[i + 1]?, sign.Touches number) ∧
    (i = 0 ∨ ∃ before ∈ ts[i - 1]?, before.Opens)

instance (ts : List Token) : DecidablePred (FoldsAt ts) := fun _ => inferInstanceAs (Decidable (_ ∧ _))

/-- What the position comes to: a sign that folds is joined with the number behind it, that number
goes into it, and any other token stays. -/
def foldedAt (ts : List Token) (i : Nat) : List Token :=
  if FoldsAt ts i then
    match ts[i]?, ts[i + 1]? with
    | some sign, some number => [⟨number.kind, sign.literal ++ number.literal, sign.index⟩]
    | _, _ => []
  else if 0 < i ∧ FoldsAt ts (i - 1) then []
  else ts[i]?.toList

/-- The number that a sign folds into is no sign itself. -/
theorem FoldsAt.not_succ (h : FoldsAt ts i) : ¬FoldsAt ts (i + 1) := by
  obtain ⟨⟨sign, -, number, hnumber, -, -, hnumeral, -⟩, -⟩ := h
  rintro ⟨⟨sign', hsign', -, -, hoperator, -⟩, -⟩
  obtain rfl : number = sign' := Option.some.inj (hnumber.symm.trans hsign')
  rw [hoperator] at hnumeral
  simp at hnumeral

/-- What is known where the loop stands at a position: whether an operand ends with the last token
that was put out is what the token before the position says, and no sign takes the position. -/
structure StandsAt (ts : List Token) (last : Option Token) (i : Nat) : Prop where
  last : last.any Token.endsOperand = false ↔ i = 0 ∨ ∃ before ∈ ts[i - 1]?, before.Opens
  free : ¬(0 < i ∧ FoldsAt ts (i - 1))

theorem standsAt_zero (ts : List Token) : StandsAt ts none 0 := ⟨by simp, by simp⟩

theorem getElem?_of_drop (h : ts.drop i = t :: rest) : ts[i]? = some t := by
  rw [← Nat.add_zero i, ← List.getElem?_drop, h]
  rfl

theorem getElem?_succ_of_drop (h : ts.drop i = t :: rest) : ts[i + 1]? = rest.head? := by
  rw [← List.getElem?_drop, h, List.getElem?_cons_succ, List.head?_eq_getElem?]

theorem drop_succ_of_drop (h : ts.drop i = t :: rest) : ts.drop (i + 1) = rest := by
  rw [← List.drop_drop, h]
  rfl

theorem StandsAt.foldsInto_iff (h : StandsAt ts last i) (hdrop : ts.drop i = t :: n :: rest) :
    t.foldsInto last n = true ↔ FoldsAt ts i := by
  rw [Token.foldsInto_iff_touches, h.last, FoldsAt, getElem?_of_drop hdrop,
    getElem?_succ_of_drop hdrop]
  simp

theorem StandsAt.foldedAt_eq (h : StandsAt ts last i) (hno : ¬FoldsAt ts i) :
    foldedAt ts i = ts[i]?.toList := by
  rw [foldedAt, if_neg hno, if_neg h.free]

/-- The loop goes on behind a token that it has put out as it was. -/
theorem StandsAt.kept (hdrop : ts.drop i = t :: rest) (hno : ¬FoldsAt ts i) :
    StandsAt ts (some t) (i + 1) where
  last := by simp [getElem?_of_drop hdrop, Token.opens_iff]
  free := by simpa using hno

/-- The loop goes on behind a number, of which it has put out the one with a sign. -/
theorem StandsAt.joined {sign number : Token} (hdrop : ts.drop i = sign :: number :: rest)
    (hfolds : FoldsAt ts i) : StandsAt ts (some (sign.signed number)) (i + 2) where
  last := by
    obtain ⟨⟨sign', hsign', number', hnumber', -, -, hnumeral, -⟩, -⟩ := hfolds
    rw [getElem?_succ_of_drop hdrop] at hnumber'
    obtain rfl : number = number' := Option.some.inj hnumber'
    -- An operand ends with a number, whether it has a sign or not.
    have hends : number.endsOperand = true :=
      Token.endsOperand_of_isNumber (by simpa [Token.isNumber] using hnumeral)
    have hsigned : (sign.signed number).endsOperand = true :=
      Token.endsOperand_of_isNumber (by simpa [Token.isNumber, Token.signed] using hnumeral)
    simp [getElem?_succ_of_drop hdrop, Token.opens_iff, hends, hsigned]
  free := by simpa using hfolds.not_succ

/-- From a position at which it stands the loop puts out what the positions come to. -/
theorem StandsAt.foldSignsAfter_eq (h : StandsAt ts last i) {left : List Token}
    (hdrop : ts.drop i = left) :
    foldSignsAfter last left = (List.range' i (ts.length - i)).flatMap (foldedAt ts) := by
  have hlength : ts.length - i = left.length := by rw [← hdrop, List.length_drop]
  rw [hlength]
  clear hlength
  induction last, left using foldSignsAfter.induct generalizing i with
  | case1 last => rw [foldSignsAfter, List.length_nil, List.range'_zero, List.flatMap_nil]
  | case2 last t =>
    have hno : ¬FoldsAt ts i := fun hfolds => by
      obtain ⟨⟨-, -, number, hnumber, -⟩, -⟩ := hfolds
      rw [getElem?_succ_of_drop hdrop] at hnumber
      cases hnumber
    simp [foldSignsAfter, h.foldedAt_eq hno, getElem?_of_drop hdrop]
  | case3 last sign number rest hinto ih =>
    have hfolds := (h.foldsInto_iff hdrop).mp hinto
    have hhere : foldedAt ts i = [sign.signed number] := by
      rw [foldedAt, if_pos hfolds, getElem?_of_drop hdrop, getElem?_succ_of_drop hdrop]
      rfl
    have hnext : foldedAt ts (i + 1) = [] := by
      rw [foldedAt, if_neg hfolds.not_succ, if_pos ⟨Nat.succ_pos i, hfolds⟩]
    have hrest : ts.drop (i + 2) = rest := drop_succ_of_drop (drop_succ_of_drop hdrop)
    rw [foldSignsAfter, if_pos hinto, ih (.joined hdrop hfolds) hrest]
    simp [List.range'_succ, hhere, hnext]
  | case4 last t n rest hinto ih =>
    have hno : ¬FoldsAt ts i := fun hfolds => hinto ((h.foldsInto_iff hdrop).mpr hfolds)
    rw [foldSignsAfter, if_neg hinto, ih (.kept hdrop hno) (drop_succ_of_drop hdrop)]
    simp [List.range'_succ, h.foldedAt_eq hno, getElem?_of_drop hdrop]

theorem join_literals_foldSignsAfter (last : Option Token) (ts : List Token) :
    String.join ((foldSignsAfter last ts).map Token.literal) =
      String.join (ts.map Token.literal) := by
  induction last, ts using foldSignsAfter.induct with
  | case1 last => rw [foldSignsAfter]
  | case2 last t => rw [foldSignsAfter]
  | case3 last sign number rest hinto ih =>
    have hjoined : (sign.signed number).literal = sign.literal ++ number.literal := rfl
    rw [foldSignsAfter, if_pos hinto]
    simp [ih, hjoined, String.append_assoc]
  | case4 last t n rest hinto ih =>
    rw [foldSignsAfter, if_neg hinto]
    simpa using ih

/-- Folding joins exactly the signs that stand directly in front of a number where an operand can
begin, each with its number, and leaves all other tokens as they are and in their order. No token
is joined twice, and the text of the tokens stays the same. -/
theorem foldSigns_pointwise (ts : List Token) :
    foldSigns ts = (List.range ts.length).flatMap (foldedAt ts) ∧
      (∀ i, ¬(FoldsAt ts i ∧ FoldsAt ts (i + 1))) ∧
      String.join ((foldSigns ts).map Token.literal) = String.join (ts.map Token.literal) := by
  refine ⟨?_, fun i h => h.1.not_succ h.2, join_literals_foldSignsAfter none ts⟩
  rw [foldSigns, (standsAt_zero ts).foldSignsAfter_eq List.drop_zero, Nat.sub_zero,
    List.range_eq_range']

/-- Of two signs in front of a number the second folds, and the sign behind the number does not. -/
example : foldSigns [⟨.operator, "-", 0⟩, ⟨.operator, "-", 1⟩, ⟨.integer, "1", 2⟩,
    ⟨.operator, "-", 3⟩, ⟨.integer, "3", 4⟩] =
    [⟨.operator, "-", 0⟩, ⟨.integer, "-1", 1⟩, ⟨.operator, "-", 3⟩, ⟨.integer, "3", 4⟩] := by
  decide

end BlockScript
