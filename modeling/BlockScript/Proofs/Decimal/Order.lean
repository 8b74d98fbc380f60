import BlockScript.Proofs.Decimal.Number
/-!
# The order of decimals

Decimals other than NaN compare as the numbers that they stand for, with an infinity at either end.
-/
namespace BlockScript.Decimal

/-- The place of a decimal on the line of numbers, of which the infinities are the ends. -/
def size : Decimal → WithBot (WithTop ℚ)
  | infinite true => ⊥
  | infinite false => (⊤ : WithTop ℚ)
  | a => (a.toRat : WithTop ℚ)

variable {a b : Decimal}

theorem compareFinite_eq (s₁ : Bool) (c₁ : Nat) (e₁ : Int) (s₂ : Bool) (c₂ : Nat) (e₂ : Int) :
    compareFinite s₁ c₁ e₁ s₂ c₂ e₂ =
      compare (finite s₁ c₁ e₁).toRat (finite s₂ c₂ e₂).toRat := by
  let e := min e₁ e₂
  have hmono : StrictMono fun n : ℤ => (n : ℚ) * 10 ^ e := by
    intro m n hmn
    exact mul_lt_mul_of_pos_right (Int.cast_lt.mpr hmn) (ten_zpow_pos e)
  have haligned := hmono.cmp_map_eq (signed s₁ (aligned c₁ e₁ e)) (signed s₂ (aligned c₂ e₂ e))
  rw [cmp_eq_compare, cmp_eq_compare, signed_aligned (min_le_left e₁ e₂),
    signed_aligned (min_le_right e₁ e₂)] at haligned
  exact haligned.symm

theorem compare_coe (p q : ℚ) :
    compare ((p : WithTop ℚ) : WithBot (WithTop ℚ)) ((q : WithTop ℚ) : WithBot (WithTop ℚ)) =
      compare p q := by
  have hmono : StrictMono fun r : ℚ => ((r : WithTop ℚ) : WithBot (WithTop ℚ)) :=
    WithBot.coe_strictMono.comp WithTop.coe_strictMono
  rw [← cmp_eq_compare, ← cmp_eq_compare, hmono.cmp_map_eq]

/-- Decimals that are numbers compare as their places on the line. -/
theorem compare?_eq (ha : a.isNaN = false) (hb : b.isNaN = false) :
    a.compare? b = some (compare a.size b.size) := by
  cases a with
  | nan => cases ha
  | finite s₁ c₁ e₁ =>
    cases b with
    | nan => cases hb
    | finite s₂ c₂ e₂ => exact congrArg some ((compareFinite_eq ..).trans (compare_coe _ _).symm)
    | infinite s =>
      cases s with
      | true => exact congrArg some (compare_gt_iff_gt.mpr (WithBot.bot_lt_coe _)).symm
      | false =>
        exact congrArg some
          (compare_lt_iff_lt.mpr (WithBot.coe_lt_coe.mpr (WithTop.coe_lt_top _))).symm
  | infinite s =>
    cases b with
    | nan => cases hb
    | finite s₂ c₂ e₂ =>
      cases s with
      | true => exact congrArg some (compare_lt_iff_lt.mpr (WithBot.bot_lt_coe _)).symm
      | false =>
        exact congrArg some
          (compare_gt_iff_gt.mpr (WithBot.coe_lt_coe.mpr (WithTop.coe_lt_top _))).symm
    | infinite s' =>
      cases s <;> cases s'
      · exact congrArg some (compare_eq_iff_eq.mpr rfl).symm
      · exact congrArg some (compare_gt_iff_gt.mpr (WithBot.bot_lt_coe _)).symm
      · exact congrArg some (compare_lt_iff_lt.mpr (WithBot.bot_lt_coe _)).symm
      · exact congrArg some (compare_eq_iff_eq.mpr rfl).symm

/-- Decimals that are numbers are equal if they have one place on the line. -/
theorem equal?_eq (ha : a.isNaN = false) (hb : b.isNaN = false) :
    a.equal? b = some (decide (a.size = b.size)) := by
  unfold equal?
  rw [isSignaling_of_isNaN ha, isSignaling_of_isNaN hb, Bool.or_self, if_neg Bool.false_ne_true,
    compare?_eq ha hb, Option.some_beq_some, Bool.beq_eq_decide_eq]
  simp only [compare_eq_iff_eq]

end BlockScript.Decimal
