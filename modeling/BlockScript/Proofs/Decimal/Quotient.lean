import BlockScript.Proofs.Decimal.Number
/-!
# Quotients

The quotient of two decimals is the nearest one at the larger of their scales, a half going to the
even coefficient. The quotient of two integers leaves a remainder with the sign of the dividend.
-/
namespace BlockScript

namespace Decimal

/-- How many digits of a finite decimal stand behind the point. -/
def scale (a : Decimal) : Int := -a.exponent

def coefficient : Decimal → Nat
  | finite _ c _ => c
  | _ => 0

/-- The quotient rounded to the larger scale: no more than half a unit of its last digit away from
the exact one, with an even coefficient if it is that far. A zero has no minus sign. -/
structure IsQuotient (a b q : Decimal) : Prop where
  finite : q.isFinite = true
  exponent : q.exponent = -max a.scale b.scale
  near : |q.toRat - a.toRat / b.toRat| ≤ 10 ^ q.exponent / 2
  even : |q.toRat - a.toRat / b.toRat| = 10 ^ q.exponent / 2 → Even q.coefficient
  positive : q.isZero = true → q.isNegative = false

section Rounding

variable {den : Nat}

/-- The remainder that the rounded quotient leaves, on either side, is at most half the divisor, and
if it is half of it the quotient is even. -/
theorem roundedQuotient_near (num : Nat) (hden : 0 < den) :
    2 * (roundedQuotient num den * den) ≤ 2 * num + den ∧
      2 * num ≤ 2 * (roundedQuotient num den * den) + den ∧
      (2 * (roundedQuotient num den * den) = 2 * num + den ∨
        2 * num = 2 * (roundedQuotient num den * den) + den → Even (roundedQuotient num den)) := by
  have hdivided : num / den * den + num % den = num := Nat.div_add_mod' num den
  have hsucc : (num / den + 1) * den = num / den * den + den := Nat.succ_mul _ _
  have hrest : num % den < den := Nat.mod_lt num hden
  unfold roundedQuotient
  dsimp only
  split
  · exact ⟨by omega, by omega, by omega⟩
  split
  · rw [hsucc]
    exact ⟨by omega, by omega, by omega⟩
  split
  · next heven =>
    refine ⟨by omega, by omega, fun _ => Nat.even_iff.mpr ?_⟩
    simpa using heven
  · next hodd =>
    rw [hsucc]
    refine ⟨by omega, by omega, fun _ => ?_⟩
    have hodd' : Odd (num / den) := Nat.odd_iff.mpr (by simpa using hodd)
    exact hodd'.add_one

/-- The same in rational numbers. -/
theorem abs_roundedQuotient_sub (num : Nat) (hden : 0 < den) :
    |(roundedQuotient num den : ℚ) - num / den| ≤ 1 / 2 ∧
      (|(roundedQuotient num den : ℚ) - num / den| = 1 / 2 → Even (roundedQuotient num den)) := by
  obtain ⟨hupper, hlower, heven⟩ := roundedQuotient_near num hden
  generalize roundedQuotient num den = q at *
  have hpos : (0 : ℚ) < den := by exact_mod_cast hden
  have hupper' : 2 * ((q : ℚ) * den) ≤ 2 * num + den := by exact_mod_cast hupper
  have hlower' : 2 * (num : ℚ) ≤ 2 * (q * den) + den := by exact_mod_cast hlower
  have hdistance : (q : ℚ) - num / den = (q * den - num) / den := by
    field_simp
  have habs : |(q : ℚ) - num / den| = |(q : ℚ) * den - num| / den := by
    rw [hdistance, abs_div, abs_of_pos hpos]
  rw [habs, div_le_iff₀ hpos, div_eq_iff hpos.ne']
  refine ⟨abs_le.mpr ⟨by linarith, by linarith⟩, fun hhalf => heven ?_⟩
  obtain h | h := (abs_eq (by positivity)).mp hhalf
  · exact .inl (by exact_mod_cast (by linarith : 2 * ((q : ℚ) * den) = 2 * num + den))
  · exact .inr (by exact_mod_cast (by linarith : 2 * (num : ℚ) = 2 * (q * den) + den))

end Rounding

section Quotients

variable {a b q : Decimal}

/-- A power of ten as a quotient of two of which one is no power. -/
theorem ten_zpow_eq_div (k : Int) :
    (10 : ℚ) ^ k = ((10 ^ k.toNat : Nat) : ℚ) / ((10 ^ (-k).toNat : Nat) : ℚ) := by
  obtain ⟨n, rfl | rfl⟩ := k.eq_nat_or_neg <;> simp

/-- The number and the sign of a quotient. -/
theorem exists_quotient_eq (s₁ : Bool) (c₁ : Nat) (e₁ : Int) (s₂ : Bool) {c₂ : Nat} (e₂ : Int)
    (hc₂ : c₂ ≠ 0) :
    ∃ num den : Nat, 0 < den ∧
      divFinite s₁ c₁ e₁ s₂ c₂ e₂ =
        finite (roundedQuotient num den != 0 && s₁ != s₂) (roundedQuotient num den)
          (-max (-e₁) (-e₂)) ∧
      ((signed s₁ c₁ * 10 ^ e₁) / (signed s₂ c₂ * 10 ^ e₂) : ℚ) =
        (if s₁ = s₂ then 1 else -1) * (num / den) * 10 ^ (-max (-e₁) (-e₂)) := by
  let scale := max (-e₁) (-e₂)
  let shift := e₁ - e₂ + scale
  refine ⟨c₁ * 10 ^ shift.toNat, c₂ * 10 ^ (-shift).toNat,
    Nat.mul_pos (Nat.pos_of_ne_zero hc₂) (by positivity), rfl, ?_⟩
  have hexponents : (10 : ℚ) ^ e₁ / 10 ^ e₂ = 10 ^ shift * 10 ^ (-scale) := by
    rw [← zpow_sub₀ (by norm_num), ← zpow_add₀ (by norm_num)]
    congr 1
    omega
  have hscaled : ((c₁ * 10 ^ shift.toNat : Nat) : ℚ) / ((c₂ * 10 ^ (-shift).toNat : Nat) : ℚ) =
      c₁ / c₂ * 10 ^ shift := by
    rw [ten_zpow_eq_div shift, Nat.cast_mul, Nat.cast_mul, mul_div_mul_comm]
  have hsigns : (signed s₁ c₁ : ℚ) / signed s₂ c₂ = (if s₁ = s₂ then 1 else -1) * (c₁ / c₂) := by
    cases s₁ <;> cases s₂ <;> simp [signed, neg_div, div_neg]
  rw [mul_div_mul_comm, hexponents, hsigns, hscaled]
  ring

theorem isQuotient_divFinite (s₁ : Bool) (c₁ : Nat) (e₁ : Int) (s₂ : Bool) {c₂ : Nat} (e₂ : Int)
    (hc₂ : c₂ ≠ 0) :
    IsQuotient (.finite s₁ c₁ e₁) (.finite s₂ c₂ e₂) (divFinite s₁ c₁ e₁ s₂ c₂ e₂) := by
  obtain ⟨num, den, hden, hresult, hexact⟩ := exists_quotient_eq s₁ c₁ e₁ s₂ e₂ hc₂
  obtain ⟨hnear, heven⟩ := abs_roundedQuotient_sub num hden
  rw [hresult]
  generalize roundedQuotient num den = q at *
  generalize hs : -max (-e₁) (-e₂) = e at *
  have hunit := ten_zpow_pos e
  have hsigned : (signed (q != 0 && s₁ != s₂) q : ℚ) = (if s₁ = s₂ then 1 else -1) * q := by
    by_cases hq : q = 0
    · simp [hq, signed]
    · cases s₁ <;> cases s₂ <;> simp [signed, hq]
  have hdistance : |(finite (q != 0 && s₁ != s₂) q e).toRat -
      (finite s₁ c₁ e₁).toRat / (finite s₂ c₂ e₂).toRat| = |(q : ℚ) - num / den| * 10 ^ e := by
    show |(signed (q != 0 && s₁ != s₂) q : ℚ) * 10 ^ e -
      signed s₁ c₁ * 10 ^ e₁ / (signed s₂ c₂ * 10 ^ e₂)| = _
    rw [hexact, hsigned, ← sub_mul, ← mul_sub, abs_mul, abs_mul, abs_of_pos hunit]
    split <;> simp
  refine ⟨rfl, hs.symm, ?_, ?_, ?_⟩
  · rw [hdistance]
    show _ ≤ (10 : ℚ) ^ e / 2
    linarith [mul_le_mul_of_nonneg_right hnear hunit.le]
  · rw [hdistance]
    intro hhalf
    refine heven (mul_right_cancel₀ hunit.ne' (hhalf.trans ?_))
    show (10 : ℚ) ^ e / 2 = 1 / 2 * 10 ^ e
    ring
  · intro hzero
    obtain rfl : q = 0 := by simpa [isZero] using hzero
    rfl

/-- The quotient of decimals of which one is negated. -/
theorem toRat_divFinite_not (s₁ : Bool) (c₁ : Nat) (e₁ : Int) (s₂ : Bool) (c₂ : Nat) (e₂ : Int) :
    (divFinite (!s₁) c₁ e₁ s₂ c₂ e₂).toRat = -(divFinite s₁ c₁ e₁ s₂ c₂ e₂).toRat ∧
      (divFinite s₁ c₁ e₁ (!s₂) c₂ e₂).toRat = -(divFinite s₁ c₁ e₁ s₂ c₂ e₂).toRat := by
  unfold divFinite
  dsimp only
  generalize roundedQuotient _ _ = q
  by_cases hq : q = 0
  · simp [hq, toRat, signed]
  · cases s₁ <;> cases s₂ <;> simp [hq, toRat, signed]

theorem divideDecimals_finite (s₁ : Bool) (c₁ : Nat) (e₁ : Int) (s₂ : Bool) {c₂ : Nat} (e₂ : Int)
    (hc₂ : c₂ ≠ 0) :
    divideDecimals (.finite s₁ c₁ e₁) (.finite s₂ c₂ e₂) =
      .ok (divFinite s₁ c₁ e₁ s₂ c₂ e₂) := by
  unfold divideDecimals
  rw [isSignaling_of_isNaN rfl, if_neg Bool.false_ne_true, if_neg (by simpa [isZero] using hc₂)]

/-- Dividing by a zero fails whatever the dividend is. -/
theorem divideDecimals_zero (a : Decimal) (h : b.isZero = true) :
    divideDecimals a b = .error (.run .divisionByZero) := by
  cases b with
  | finite s c e =>
    unfold divideDecimals
    rw [isSignaling_of_isNaN rfl, if_neg Bool.false_ne_true, if_pos h]
  | _ => cases h

end Quotients

end Decimal

section Operators

open Decimal

def Value.isZero : Value → Bool
  | integer n => n == 0
  | decimal d => d.isZero
  | _ => false

/-- Whatever is divided by a zero, the run fails. -/
theorem applyBinary_zero (v : Value) {w : Value} (h : w.isZero = true) :
    ∃ fault, applyBinary "/" v w = .error (.run fault) := by
  cases w with
  | integer n =>
    obtain rfl : n = 0 := by simpa [Value.isZero] using h
    cases v <;> exact ⟨_, rfl⟩
  | decimal d =>
    cases v with
    | decimal a =>
      refine ⟨.divisionByZero, ?_⟩
      show (divideDecimals a d).map Value.decimal = _
      rw [divideDecimals_zero a h]
      rfl
    | _ => exact ⟨_, rfl⟩
  | _ => cases h

/-- The quotient of integers and the remainder that it leaves. -/
theorem exists_divideIntegers (a : Int) {b : Int} (hb : b ≠ 0) :
    ∃ q r, divideIntegers a b = .ok q ∧ a = q * b + r ∧ |r| < |b| ∧ (r = 0 ∨ r.sign = a.sign) := by
  refine ⟨a.tdiv b, a.tmod b, if_neg (by simpa using hb), (Int.tdiv_mul_add_tmod a b).symm, ?_, ?_⟩
  · rw [Int.abs_eq_natAbs, Int.abs_eq_natAbs, Int.natAbs_tmod]
    exact_mod_cast Nat.mod_lt _ (Int.natAbs_pos.mpr hb)
  · by_cases hdvd : b ∣ a
    · exact .inl (Int.tmod_eq_zero_of_dvd hdvd)
    · exact .inr (by rw [Int.sign_tmod, if_neg hdvd])

/-- The quotient changes its sign with either operand. -/
theorem divideIntegers_neg {a b q : Int} (h : divideIntegers a b = .ok q) :
    divideIntegers (-a) b = .ok (-q) ∧ divideIntegers a (-b) = .ok (-q) := by
  unfold divideIntegers at *
  split at h
  · cases h
  · next hb =>
    cases h
    rw [if_neg hb, if_neg (by simpa using hb), Int.neg_tdiv, Int.tdiv_neg]
    exact ⟨rfl, rfl⟩

/-- For all finite decimals and all integers, of which the second one is not zero, the quotient is
rounded as it should be, and it changes its sign with either operand. Dividing by a zero fails. -/
theorem division_rounds_correctly :
    (∀ a b : Decimal, a.isFinite = true → b.isFinite = true → b.isZero = false →
      ∃ q, divideDecimals a b = .ok q ∧ IsQuotient a b q ∧
        (∃ q', divideDecimals a.negate b = .ok q' ∧ q'.toRat = -q.toRat) ∧
        ∃ q', divideDecimals a b.negate = .ok q' ∧ q'.toRat = -q.toRat) ∧
    (∀ a b : Int, b ≠ 0 →
      ∃ q r, divideIntegers a b = .ok q ∧ a = q * b + r ∧ |r| < |b| ∧ (r = 0 ∨ r.sign = a.sign) ∧
        divideIntegers (-a) b = .ok (-q) ∧ divideIntegers a (-b) = .ok (-q)) ∧
    (∀ a b : Decimal, b.isZero = true → divideDecimals a b = .error (.run .divisionByZero)) ∧
    (∀ a : Int, divideIntegers a 0 = .error .divisionByZero) ∧
    ∀ v w : Value, w.isZero = true → ∃ fault, applyBinary "/" v w = .error (.run fault) := by
  refine ⟨fun a b ha hb hzero => ?_, fun a b hb => ?_, fun a b => divideDecimals_zero a,
    fun _ => rfl, fun v w => applyBinary_zero v⟩
  · obtain ⟨s₁, c₁, e₁, rfl⟩ := exists_finite ha
    obtain ⟨s₂, c₂, e₂, rfl⟩ := exists_finite hb
    have hc₂ : c₂ ≠ 0 := by simpa [isZero] using hzero
    obtain ⟨hleft, hright⟩ := toRat_divFinite_not s₁ c₁ e₁ s₂ c₂ e₂
    exact ⟨_, divideDecimals_finite s₁ c₁ e₁ s₂ e₂ hc₂, isQuotient_divFinite s₁ c₁ e₁ s₂ e₂ hc₂,
      ⟨_, divideDecimals_finite (!s₁) c₁ e₁ s₂ e₂ hc₂, hleft⟩,
      ⟨_, divideDecimals_finite s₁ c₁ e₁ (!s₂) e₂ hc₂, hright⟩⟩
  · obtain ⟨q, r, hq, hexact, hsmall, hsign⟩ := exists_divideIntegers a hb
    exact ⟨q, r, hq, hexact, hsmall, hsign, divideIntegers_neg hq⟩

/-- One eighth at two places is a tie between `0.12` and `0.13`, and minus seven by two is minus
three. -/
theorem division_rounds_correctly_eighth :
    let one : Decimal := .finite false 100 (-2)
    let eight : Decimal := .finite false 8 0
    let eighth : Decimal := .finite false 12 (-2)
    one.isFinite = true ∧ eight.isFinite = true ∧ eight.isZero = false ∧
      divideDecimals one eight = .ok eighth ∧ IsQuotient one eight eighth ∧ (2 : Int) ≠ 0 ∧
      divideIntegers (-7) 2 = .ok (-3) ∧ (Decimal.finite true 0 5).isZero = true ∧
      divideDecimals one (.finite true 0 5) = .error (.run .divisionByZero) := by
  obtain ⟨hdecimals, hintegers, hzero, -⟩ := division_rounds_correctly
  obtain ⟨q, hq, hquotient, -⟩ := hdecimals (.finite false 100 (-2)) (.finite false 8 0) rfl rfl rfl
  obtain ⟨n, r, hn, -⟩ := hintegers (-7) 2 (by decide)
  have hdivided : divideDecimals (.finite false 100 (-2)) (.finite false 8 0) =
    .ok (.finite false 12 (-2)) := rfl
  rw [hdivided] at hq
  cases hq
  exact ⟨rfl, rfl, rfl, rfl, hquotient, by decide, rfl, rfl, hzero _ _ rfl⟩

end Operators

end BlockScript
