import BlockScript.Evaluation.Operators
import Mathlib
/-!
# The numbers that decimals stand for

A finite decimal stands for a rational number, and it is known by that number, its exponent and, if
it is a zero, its sign. Sums, differences and products are exact, and their laws hold of the decimals
as they are, not only of the numbers.
-/
namespace BlockScript

namespace Decimal

def toRat : Decimal → ℚ
  | finite s c e => signed s c * 10 ^ e
  | _ => 0

def exponent : Decimal → Int
  | finite _ _ e => e
  | _ => 0

variable {a b c d : Decimal}

theorem exists_finite (h : a.isFinite = true) : ∃ s c e, a = finite s c e := by
  cases a with
  | finite s c e => exact ⟨s, c, e, rfl⟩
  | _ => cases h

theorem isFinite_negate : a.negate.isFinite = a.isFinite := by
  cases a <;> rfl

theorem isNaN_of_isFinite (h : a.isFinite = true) : a.isNaN = false := by
  cases a with
  | finite => rfl
  | _ => cases h

theorem isSignaling_of_isNaN (h : a.isNaN = false) : a.isSignaling = false := by
  cases a with
  | nan => cases h
  | _ => rfl

section Coefficients

variable {s : Bool} {n : Nat} {e least : Int}

theorem ten_zpow_pos (e : Int) : (0 : ℚ) < 10 ^ e := zpow_pos (by norm_num) e

theorem signed_nonpos (n : Nat) : signed true n ≤ 0 := by
  simp [signed]

theorem signed_not (s : Bool) (n : Nat) : signed (!s) n = -signed s n := by
  cases s <;> simp [signed]

/-- An integer is its magnitude with its sign; either sign is right for zero. -/
theorem signed_natAbs {total : Int} (h : total ≠ 0 → s = decide (total < 0)) :
    signed s total.natAbs = total := by
  by_cases hzero : total = 0
  · subst hzero
    cases s <;> rfl
  · rw [h hzero, signed]
    by_cases hneg : total < 0
    · rw [if_pos (by simpa using hneg)]
      omega
    · rw [if_neg (by simpa using hneg)]
      omega

/-- The coefficient at a smaller exponent stands for the same number. -/
theorem signed_aligned (h : least ≤ e) :
    (signed s (aligned n e least) : ℚ) * 10 ^ least = signed s n * 10 ^ e := by
  have hpow : (10 : ℚ) ^ (e - least).toNat * 10 ^ least = 10 ^ e := by
    rw [← zpow_natCast, Int.toNat_of_nonneg (by omega), ← zpow_add₀ (by norm_num),
      Int.sub_add_cancel]
  have hscaled : (signed s (aligned n e least) : ℚ) =
      signed s n * 10 ^ (e - least).toNat := by
    cases s <;> simp [signed, aligned]
  rw [hscaled, mul_assoc, hpow]

end Coefficients

section Signs

theorem toRat_negate (a : Decimal) : a.negate.toRat = -a.toRat := by
  cases a with
  | finite s n e =>
    show ((signed (!s) n : Int) : ℚ) * 10 ^ e = -(signed s n * 10 ^ e)
    rw [signed_not]
    push_cast
    ring
  | _ => simp [negate, toRat]

theorem exponent_negate (a : Decimal) : a.negate.exponent = a.exponent := by
  cases a <;> rfl

theorem toRat_nonpos (h : a.isNegative = true) : a.toRat ≤ 0 := by
  cases a with
  | finite s n e =>
    obtain rfl : s = true := h
    exact mul_nonpos_of_nonpos_of_nonneg (by exact_mod_cast signed_nonpos n)
      (ten_zpow_pos e).le
  | _ => exact le_refl _

/-- A finite decimal is known by its exponent, its sign and its number. -/
theorem eq_of_toRat_eq (ha : a.isFinite = true) (hb : b.isFinite = true)
    (hexponent : a.exponent = b.exponent) (hsign : a.isNegative = b.isNegative)
    (hnumber : a.toRat = b.toRat) : a = b := by
  obtain ⟨s, n, e, rfl⟩ := exists_finite ha
  obtain ⟨s', n', e', rfl⟩ := exists_finite hb
  obtain rfl : e = e' := hexponent
  obtain rfl : s = s' := hsign
  have hsigned : (signed s n : ℚ) = signed s n' :=
    mul_right_cancel₀ (ten_zpow_pos e).ne' hnumber
  cases s <;> simpa [signed] using hsigned

end Signs

/-- The exact sum at the smaller exponent. It is negative if its number is, or if both operands are:
so a zero has a minus sign only if both of them have one. -/
structure IsSum (a b d : Decimal) : Prop where
  finite : d.isFinite = true
  exponent : d.exponent = min a.exponent b.exponent
  number : d.toRat = a.toRat + b.toRat
  sign : d.isNegative = true ↔ d.toRat < 0 ∨ a.isNegative = true ∧ b.isNegative = true

/-- The exact product, of which the exponents add up and the signs multiply. -/
structure IsProduct (a b d : Decimal) : Prop where
  finite : d.isFinite = true
  exponent : d.exponent = a.exponent + b.exponent
  number : d.toRat = a.toRat * b.toRat
  sign : d.isNegative = (a.isNegative != b.isNegative)

section Sums

theorem isSum_addFinite (s₁ : Bool) (c₁ : Nat) (e₁ : Int) (s₂ : Bool) (c₂ : Nat) (e₂ : Int) :
    IsSum (.finite s₁ c₁ e₁) (.finite s₂ c₂ e₂) (addFinite s₁ c₁ e₁ s₂ c₂ e₂) := by
  let e := min e₁ e₂
  let total := signed s₁ (aligned c₁ e₁ e) + signed s₂ (aligned c₂ e₂ e)
  let negative := if total == 0 then s₁ && s₂ else decide (total < 0)
  have htotal : (total : ℚ) * 10 ^ e = signed s₁ c₁ * 10 ^ e₁ + signed s₂ c₂ * 10 ^ e₂ := by
    rw [Int.cast_add, add_mul, signed_aligned (min_le_left e₁ e₂),
      signed_aligned (min_le_right e₁ e₂)]
  have hnumber : (addFinite s₁ c₁ e₁ s₂ c₂ e₂).toRat = total * 10 ^ e := by
    show (signed negative total.natAbs : ℚ) * 10 ^ e = total * 10 ^ e
    rw [signed_natAbs fun hne => if_neg (by simpa using hne)]
  refine ⟨rfl, rfl, hnumber.trans htotal, ?_⟩
  have hbelow : (total : ℚ) * 10 ^ e < 0 ↔ total < 0 := by
    rw [← zero_mul ((10 : ℚ) ^ e), mul_lt_mul_iff_left₀ (ten_zpow_pos e)]
    exact Int.cast_lt_zero
  have hboth : s₁ = true → s₂ = true → total ≤ 0 := by
    rintro rfl rfl
    exact Int.add_nonpos (signed_nonpos _) (signed_nonpos _)
  rw [hnumber, hbelow]
  show negative = true ↔ total < 0 ∨ s₁ = true ∧ s₂ = true
  by_cases hzero : total = 0
  · simp [negative, hzero]
  · have hsign : negative = decide (total < 0) := if_neg (by simpa using hzero)
    rw [hsign, decide_eq_true_iff]
    refine ⟨.inl, ?_⟩
    rintro (hneg | ⟨h₁, h₂⟩)
    · exact hneg
    · exact lt_of_le_of_ne (hboth h₁ h₂) hzero

theorem exists_sum (ha : a.isFinite = true) (hb : b.isFinite = true) :
    ∃ d, a.add? b = some d ∧ IsSum a b d := by
  obtain ⟨s₁, c₁, e₁, rfl⟩ := exists_finite ha
  obtain ⟨s₂, c₂, e₂, rfl⟩ := exists_finite hb
  exact ⟨_, rfl, isSum_addFinite s₁ c₁ e₁ s₂ c₂ e₂⟩

theorem IsSum.unique (h : IsSum a b c) (h' : IsSum a b d) : c = d := by
  have hnumber : c.toRat = d.toRat := h.number.trans h'.number.symm
  refine eq_of_toRat_eq h.finite h'.finite (h.exponent.trans h'.exponent.symm) ?_ hnumber
  rw [Bool.eq_iff_iff, h.sign, h'.sign, hnumber]

theorem IsSum.comm (h : IsSum a b d) : IsSum b a d where
  finite := h.finite
  exponent := h.exponent.trans (min_comm _ _)
  number := h.number.trans (add_comm _ _)
  sign := h.sign.trans (or_congr_right and_comm)

/-- A sum of three is negative if its number is or if all three are. -/
theorem IsSum.sign_left {p q : Decimal} (h : IsSum a b p) (h' : IsSum p c q) :
    q.isNegative = true ↔
      q.toRat < 0 ∨ a.isNegative = true ∧ b.isNegative = true ∧ c.isNegative = true := by
  rw [h'.sign, h.sign]
  refine ⟨?_, ?_⟩
  · rintro (hneg | ⟨hneg | ⟨ha, hb⟩, hc⟩)
    · exact .inl hneg
    · have hnonpos := toRat_nonpos hc
      exact .inl (by rw [h'.number]; linarith)
    · exact .inr ⟨ha, hb, hc⟩
  · rintro (hneg | ⟨ha, hb, hc⟩)
    · exact .inl hneg
    · exact .inr ⟨.inr ⟨ha, hb⟩, hc⟩

theorem IsSum.assoc {p q r t : Decimal} (h : IsSum a b p) (h' : IsSum p c q) (hr : IsSum b c r)
    (ht : IsSum a r t) : q = t := by
  have hnumber : q.toRat = t.toRat := by
    rw [h'.number, h.number, ht.number, hr.number, add_assoc]
  refine eq_of_toRat_eq h'.finite ht.finite ?_ ?_ hnumber
  · rw [h'.exponent, h.exponent, ht.exponent, hr.exponent, min_assoc]
  · rw [Bool.eq_iff_iff, h.sign_left h', hr.sign_left ht.comm, hnumber]
    tauto

end Sums

section Products

theorem isProduct_mulFinite (s₁ : Bool) (c₁ : Nat) (e₁ : Int) (s₂ : Bool) (c₂ : Nat) (e₂ : Int) :
    IsProduct (.finite s₁ c₁ e₁) (.finite s₂ c₂ e₂)
      (.finite (s₁ != s₂) (c₁ * c₂) (e₁ + e₂)) := by
  refine ⟨rfl, rfl, ?_, rfl⟩
  have hsigned : (signed (s₁ != s₂) (c₁ * c₂) : ℚ) = signed s₁ c₁ * signed s₂ c₂ := by
    cases s₁ <;> cases s₂ <;> simp [signed]
  show (signed (s₁ != s₂) (c₁ * c₂) : ℚ) * 10 ^ (e₁ + e₂) =
    signed s₁ c₁ * 10 ^ e₁ * (signed s₂ c₂ * 10 ^ e₂)
  rw [hsigned, zpow_add₀ (by norm_num), mul_mul_mul_comm]

theorem exists_product (ha : a.isFinite = true) (hb : b.isFinite = true) :
    ∃ d, a.mul? b = some d ∧ IsProduct a b d := by
  obtain ⟨s₁, c₁, e₁, rfl⟩ := exists_finite ha
  obtain ⟨s₂, c₂, e₂, rfl⟩ := exists_finite hb
  exact ⟨_, rfl, isProduct_mulFinite s₁ c₁ e₁ s₂ c₂ e₂⟩

theorem IsProduct.unique (h : IsProduct a b c) (h' : IsProduct a b d) : c = d :=
  eq_of_toRat_eq h.finite h'.finite (h.exponent.trans h'.exponent.symm)
    (h.sign.trans h'.sign.symm) (h.number.trans h'.number.symm)

theorem IsProduct.comm (h : IsProduct a b d) : IsProduct b a d where
  finite := h.finite
  exponent := h.exponent.trans (add_comm _ _)
  number := h.number.trans (mul_comm _ _)
  sign := h.sign.trans (bne_comm)

theorem IsProduct.assoc {p q r t : Decimal} (h : IsProduct a b p) (h' : IsProduct p c q)
    (hr : IsProduct b c r) (ht : IsProduct a r t) : q = t := by
  refine eq_of_toRat_eq h'.finite ht.finite ?_ ?_ ?_
  · rw [h'.exponent, h.exponent, ht.exponent, hr.exponent, add_assoc]
  · rw [h'.sign, h.sign, ht.sign, hr.sign, Bool.bne_assoc]
  · rw [h'.number, h.number, ht.number, hr.number, mul_assoc]

end Products

end Decimal

section Operators

open Decimal

variable {a b c : Decimal}

def GivesDecimal (result : Except Fault Value) (number : ℚ) (exponent : Int) : Prop :=
  ∃ d : Decimal, result = .ok (.decimal d) ∧ d.isFinite = true ∧ d.toRat = number ∧
    d.exponent = exponent

def GivesNumber (result : Except Fault Value) (number : ℚ) : Prop :=
  ∃ exponent, GivesDecimal result number exponent

theorem applyBinary_sum (ha : a.isFinite = true) (hb : b.isFinite = true) :
    ∃ d, applyBinary "+" (.decimal a) (.decimal b) = .ok (.decimal d) ∧ IsSum a b d := by
  obtain ⟨d, hd, hsum⟩ := exists_sum ha hb
  refine ⟨d, ?_, hsum⟩
  show validDecimal (a.add? b) = _
  rw [hd]
  rfl

theorem applyBinary_difference (ha : a.isFinite = true) (hb : b.isFinite = true) :
    ∃ d, applyBinary "-" (.decimal a) (.decimal b) = .ok (.decimal d) ∧ IsSum a b.negate d := by
  obtain ⟨d, hd, hsum⟩ := exists_sum ha (isFinite_negate.trans hb)
  refine ⟨d, ?_, hsum⟩
  show validDecimal (a.sub? b) = _
  rw [sub?, if_neg (by simp [isNaN_of_isFinite hb]), hd]
  rfl

theorem applyBinary_product (ha : a.isFinite = true) (hb : b.isFinite = true) :
    ∃ d, applyBinary "*" (.decimal a) (.decimal b) = .ok (.decimal d) ∧ IsProduct a b d := by
  obtain ⟨d, hd, hproduct⟩ := exists_product ha hb
  refine ⟨d, ?_, hproduct⟩
  show validDecimal (a.mul? b) = _
  rw [hd]
  rfl

/-- The laws of `+`, `-` and `*` on finite decimals. Results are exact; sums and products do not
depend on order and grouping, sign and exponent included. -/
structure ExactArithmetic (a b c : Decimal) : Prop where
  sum : GivesDecimal (applyBinary "+" (.decimal a) (.decimal b)) (a.toRat + b.toRat)
    (min a.exponent b.exponent)
  difference : GivesDecimal (applyBinary "-" (.decimal a) (.decimal b)) (a.toRat - b.toRat)
    (min a.exponent b.exponent)
  product : GivesDecimal (applyBinary "*" (.decimal a) (.decimal b)) (a.toRat * b.toRat)
    (a.exponent + b.exponent)
  sum_comm : applyBinary "+" (.decimal a) (.decimal b) = applyBinary "+" (.decimal b) (.decimal a)
  sum_assoc : (do applyBinary "+" (← applyBinary "+" (.decimal a) (.decimal b)) (.decimal c)) =
    (do applyBinary "+" (.decimal a) (← applyBinary "+" (.decimal b) (.decimal c)))
  product_comm :
    applyBinary "*" (.decimal a) (.decimal b) = applyBinary "*" (.decimal b) (.decimal a)
  product_assoc : (do applyBinary "*" (← applyBinary "*" (.decimal a) (.decimal b)) (.decimal c)) =
    (do applyBinary "*" (.decimal a) (← applyBinary "*" (.decimal b) (.decimal c)))
  distributes : ∃ number,
    GivesNumber (do applyBinary "*" (.decimal a) (← applyBinary "+" (.decimal b) (.decimal c)))
      number ∧
    GivesNumber (do
      applyBinary "+" (← applyBinary "*" (.decimal a) (.decimal b))
        (← applyBinary "*" (.decimal a) (.decimal c))) number
  cancels : GivesNumber
    (do applyBinary "-" (← applyBinary "+" (.decimal a) (.decimal b)) (.decimal b)) a.toRat

/-- For all finite decimals the sum, the difference and the product are exact and obey the laws. -/
theorem decimal_arithmetic_exact (ha : a.isFinite = true) (hb : b.isFinite = true)
    (hc : c.isFinite = true) : ExactArithmetic a b c := by
  obtain ⟨p, hp, hab⟩ := applyBinary_sum ha hb
  obtain ⟨r, hr, hbc⟩ := applyBinary_sum hb hc
  obtain ⟨x, hx, hxab⟩ := applyBinary_product ha hb
  obtain ⟨y, hy, hybc⟩ := applyBinary_product hb hc
  obtain ⟨z, hz, hzac⟩ := applyBinary_product ha hc
  constructor
  case sum => exact ⟨p, hp, hab.finite, hab.number, hab.exponent⟩
  case difference =>
    obtain ⟨d, hd, hdiff⟩ := applyBinary_difference ha hb
    refine ⟨d, hd, hdiff.finite, ?_, ?_⟩
    · rw [hdiff.number, toRat_negate, sub_eq_add_neg]
    · rw [hdiff.exponent, exponent_negate]
  case product => exact ⟨x, hx, hxab.finite, hxab.number, hxab.exponent⟩
  case sum_comm =>
    obtain ⟨p', hp', hba⟩ := applyBinary_sum hb ha
    rw [hp, hp', hab.unique hba.comm]
  case sum_assoc =>
    obtain ⟨q, hq, hpc⟩ := applyBinary_sum hab.finite hc
    obtain ⟨t, ht, har⟩ := applyBinary_sum ha hbc.finite
    rw [hp, hr]
    show applyBinary "+" (.decimal p) (.decimal c) = applyBinary "+" (.decimal a) (.decimal r)
    rw [hq, ht, hab.assoc hpc hbc har]
  case product_comm =>
    obtain ⟨x', hx', hba⟩ := applyBinary_product hb ha
    rw [hx, hx', hxab.unique hba.comm]
  case product_assoc =>
    obtain ⟨q, hq, hxc⟩ := applyBinary_product hxab.finite hc
    obtain ⟨t, ht, hay⟩ := applyBinary_product ha hybc.finite
    rw [hx, hy]
    show applyBinary "*" (.decimal x) (.decimal c) = applyBinary "*" (.decimal a) (.decimal y)
    rw [hq, ht, hxab.assoc hxc hybc hay]
  case distributes =>
    obtain ⟨q, hq, har⟩ := applyBinary_product ha hbc.finite
    obtain ⟨t, ht, hxz⟩ := applyBinary_sum hxab.finite hzac.finite
    refine ⟨a.toRat * (b.toRat + c.toRat), ⟨_, q, ?_, har.finite, ?_, rfl⟩,
      ⟨_, t, ?_, hxz.finite, ?_, rfl⟩⟩
    · rw [hr]
      exact hq
    · rw [har.number, hbc.number]
    · rw [hx, hz]
      exact ht
    · rw [hxz.number, hxab.number, hzac.number, mul_add]
  case cancels =>
    obtain ⟨q, hq, hpb⟩ := applyBinary_difference hab.finite hb
    refine ⟨_, q, ?_, hpb.finite, ?_, rfl⟩
    · rw [hp]
      exact hq
    · rw [hpb.number, hab.number, toRat_negate, add_neg_cancel_right]

/-- One and a half, minus two and a half, and minus zero: `1.50 + -2.5` is `-1.00`. -/
theorem decimal_arithmetic_exact_cents :
    let a : Decimal := .finite false 150 (-2)
    let b : Decimal := .finite true 25 (-1)
    let c : Decimal := .finite true 0 0
    a.isFinite = true ∧ b.isFinite = true ∧ c.isFinite = true ∧ ExactArithmetic a b c ∧
      applyBinary "+" (.decimal a) (.decimal b) = .ok (.decimal (.finite true 100 (-2))) :=
  ⟨rfl, rfl, rfl, decimal_arithmetic_exact rfl rfl rfl, rfl⟩

end Operators

end BlockScript
