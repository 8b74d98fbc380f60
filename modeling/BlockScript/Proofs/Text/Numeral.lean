import BlockScript.Text.Numeral
/-!
# Digits and numbers

The digits of a number read back as the number, with zeros before them as well.
-/
namespace BlockScript.Text

theorem isAsciiDigit_of_isDigit {c : Char} (h : c.isDigit = true) : isAsciiDigit c = true := by
  simp only [Char.isDigit, Bool.and_eq_true, decide_eq_true_eq] at h
  simp only [isAsciiDigit, Bool.and_eq_true, decide_eq_true_eq, Char.le_def]
  exact h

theorem digits_eq (n : Nat) : digits n = Nat.toDigits 10 n := Nat.toList_repr

theorem isAsciiDigit_of_mem_digits {n : Nat} {c : Char} (h : c ∈ digits n) :
    isAsciiDigit c = true := by
  rw [digits_eq] at h
  exact isAsciiDigit_of_isDigit (Nat.isDigit_of_mem_toDigits (by decide) (by decide) h)

theorem digits_ne_nil (n : Nat) : digits n ≠ [] := by
  rw [digits_eq]
  exact Nat.toDigits_ne_nil

theorem ofDigits_digits (n : Nat) : ofDigits (digits n) = n := by
  rw [digits_eq]
  exact Nat.ofDigitChars_toDigits (by decide) (by decide)

theorem ofDigits_zeros_append (k : Nat) (cs : List Char) :
    ofDigits (List.replicate k '0' ++ cs) = ofDigits cs := by
  induction k with
  | zero => rfl
  | succ k ih =>
    rw [List.replicate_succ, List.cons_append, ← ih]
    rfl

end BlockScript.Text
