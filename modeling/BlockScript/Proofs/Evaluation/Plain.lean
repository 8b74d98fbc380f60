import BlockScript.Proofs.Evaluation.Record
import BlockScript.Proofs.Evaluation.Trace
import BlockScript.Proofs.Scope
import BlockScript.Proofs.Tree.Written
/-!
# Values of a program that stands alone

A program without surroundings starts with the values of its literals, and no operation on them
gives an object, a decimal without a point or one that is not finite. Operations stop the program in
an orderly way, unless they write out an integer of too many digits.
-/
namespace BlockScript

open Run

/-- A value that a program without surroundings can have. -/
def Value.Plain : Value → Prop
  | .decimal d => d.Pointed
  | .character s => s.length = 1
  | .object .. => False
  | .raw _ => False
  | _ => True

def Value.Overlong (v : Value) : Prop := ∃ n, v = .integer n ∧ Text.digitBound ≤ n.natAbs

theorem Literal.Plain.toValue {l : Literal} (h : l.Plain) : l.toValue.Plain := by
  cases l with
  | raw j => exact h.elim
  | decimal d => exact h
  | character s => exact h
  | _ => exact trivial

section Operators

variable {operator : String} {l r : Value} {a b : Decimal}

theorem toText?_eq_none_iff (v : Value) : v.toText? = none ↔ v.Overlong := by
  unfold Value.Overlong
  cases v <;> simp [Value.toText?, Text.numeral?]

/-- A plus that writes out an integer of too many digits beside a text. -/
def JoinsOverlong (operator : String) (l r : Value) : Prop :=
  operator = "+" ∧ (l.isString || r.isString) = true ∧ (l.Overlong ∨ r.Overlong)

/-- The result is plain, or the program stops. In place of that comes an integer of too many digits
exactly if `long` holds. -/
def Settles (long : Prop) : Except Fault Value → Prop
  | .ok v => v.Plain ∧ ¬long
  | .error fault => (∃ cause, fault = .run cause) ∧ ¬long ∨ fault = .tooManyDigits ∧ long

theorem pointed_addFinite {s s' : Bool} {c c' : Nat} {e e' : Int} (h : e ≤ -1) (h' : e' ≤ -1) :
    (Decimal.addFinite s c e s' c' e').Pointed := by
  refine ⟨_, _, _, rfl, ?_⟩
  omega

theorem plain_decimalArithmetic (ha : a.Pointed) (hb : b.Pointed) :
    Settles False (decimalArithmetic operator a b) := by
  obtain ⟨s, c, e, rfl, he⟩ := ha
  obtain ⟨s', c', e', rfl, he'⟩ := hb
  unfold decimalArithmetic
  split
  · exact ⟨pointed_addFinite he he', id⟩
  split
  · exact ⟨pointed_addFinite he he', id⟩
  split
  · have hsum : e + e' ≤ -1 := by omega
    exact ⟨⟨_, _, _, rfl, hsum⟩, id⟩
  · unfold divideDecimals
    split
    · contradiction
    split
    · exact Or.inl ⟨⟨_, rfl⟩, id⟩
    · have hscale : -max (-e) (-e') ≤ -1 := by omega
      exact ⟨⟨_, _, _, rfl, hscale⟩, id⟩

theorem plain_integerArithmetic (x y : Int) : Settles False (integerArithmetic operator x y) := by
  unfold integerArithmetic
  split
  · exact ⟨trivial, id⟩
  split
  · exact ⟨trivial, id⟩
  split
  · exact ⟨trivial, id⟩
  · unfold divideIntegers
    cases y == 0
    · exact ⟨trivial, id⟩
    · exact Or.inl ⟨⟨_, rfl⟩, id⟩

theorem plain_applyArithmetic (hl : l.Plain) (hr : r.Plain) :
    Settles False (applyArithmetic operator l r) := by
  unfold applyArithmetic
  split
  · exact plain_integerArithmetic _ _
  · exact plain_decimalArithmetic hl hr
  · exact Or.inl ⟨⟨_, rfl⟩, id⟩

theorem equalValues_of_plain (hl : l.Plain) (hr : r.Plain) : ∃ e, equalValues l r = .ok e := by
  unfold equalValues
  split
  · exact ⟨_, rfl⟩
  split
  case h_6 x y =>
    obtain ⟨s, c, e, rfl, -⟩ := hl
    obtain ⟨s', c', e', rfl, -⟩ := hr
    exact ⟨_, rfl⟩
  all_goals exact ⟨_, rfl⟩

theorem orderValues_of_plain (hl : l.Plain) (hr : r.Plain) :
    (∃ o, orderValues l r = .ok o) ∨ ∃ cause, orderValues l r = .error (.run cause) := by
  unfold orderValues
  split
  · exact .inr ⟨_, rfl⟩
  next htypes =>
    simp only [Bool.or_eq_true, bne_iff_ne, Bool.not_eq_true', not_or, not_not, ne_eq,
      Bool.not_eq_false] at htypes
    obtain ⟨hsame, hordered⟩ := htypes
    split
    case h_2 x y =>
      obtain ⟨s, c, e, rfl, -⟩ := hl
      obtain ⟨s', c', e', rfl, -⟩ := hr
      exact .inl ⟨_, rfl⟩
    case h_5 hother _ _ =>
      cases l <;> cases r <;> simp_all [Value.typeName, orderedTypeNames, Value.Plain]
    all_goals exact .inl ⟨_, rfl⟩

theorem settles_joinTexts (l r : Value) : Settles (l.Overlong ∨ r.Overlong) (joinTexts l r) := by
  rw [← toText?_eq_none_iff, ← toText?_eq_none_iff]
  unfold joinTexts
  cases l.toText? with
  | none => exact Or.inr ⟨rfl, .inl rfl⟩
  | some s =>
    cases r.toText? with
    | none => exact Or.inr ⟨rfl, .inr rfl⟩
    | some t => exact ⟨trivial, by simp⟩

theorem Settles.congr {long long' : Prop} {result : Except Fault Value} (h : Settles long result)
    (hiff : long ↔ long') : Settles long' result := by
  rwa [← propext hiff]

/-- An operator on two plain values gives a plain value or stops the program, unless it writes out
an integer of too many digits. -/
theorem plain_applyBinary (operator : String) (hl : l.Plain) (hr : r.Plain) :
    Settles (JoinsOverlong operator l r) (applyBinary operator l r) := by
  have hno : operator ≠ "+" ∨ (l.isString || r.isString) = false →
      (False ↔ JoinsOverlong operator l r) := by
    rintro h
    refine ⟨False.elim, fun ⟨hplus, hstring, _⟩ => ?_⟩
    rcases h with h | h
    · exact h hplus
    · cases h.symm.trans hstring
  unfold applyBinary
  split
  · next he =>
    obtain ⟨e, heq⟩ := equalValues_of_plain hl hr
    rw [heq]
    refine Settles.congr ⟨trivial, id⟩ (hno (.inl ?_))
    rintro rfl
    cases he
  split
  · next ho =>
    refine Settles.congr ?_ (hno (.inl ?_))
    · obtain ⟨o, heq⟩ | ⟨cause, heq⟩ := orderValues_of_plain hl hr
      · rw [heq]
        exact ⟨trivial, id⟩
      · rw [heq]
        exact Or.inl ⟨⟨cause, rfl⟩, id⟩
    · rintro rfl
      cases ho
  split
  · next hjoin =>
    obtain ⟨hplus, hstring⟩ := Bool.and_eq_true_iff.mp hjoin
    refine (settles_joinTexts l r).congr ?_
    simp [JoinsOverlong, eq_of_beq hplus, hstring]
  next hjoin =>
    have hfree : operator ≠ "+" ∨ (l.isString || r.isString) = false := by
      rw [Bool.and_eq_true, beq_iff_eq, not_and_or, Bool.not_eq_true] at hjoin
      exact hjoin
    split
    · exact (plain_applyArithmetic hl hr).congr (hno hfree)
    · exact Settles.congr (Or.inl ⟨⟨_, rfl⟩, id⟩) (hno hfree)

end Operators

end BlockScript
