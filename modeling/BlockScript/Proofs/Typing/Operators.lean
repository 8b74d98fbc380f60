import BlockScript.Evaluation.Operators
import BlockScript.Proofs.Typing.Judgement
/-!
# Operators on values of their types

An operator that checking allows for the types of its operands gives a value of the type of the
operation, unless it divides by zero, meets nil, or has to write an integer that is too long.
-/
namespace BlockScript

/-- What a checked program may still fail with: a division by zero, too many nested calls, an
operator or a condition that meets nil, and an integer of too many digits. A run that was cut off
has not failed. -/
def Fault.Permitted : Fault → Prop
  | .run .divisionByZero => True
  | .run .callsExhausted => True
  | .run (.condition _ typeName) => typeName = Value.nil.typeName
  | .run (.unsupportedOperands _ left right) =>
    left = Value.nil.typeName ∨ right = Value.nil.typeName
  | .run (.incomparable left right) => left = Value.nil.typeName ∨ right = Value.nil.typeName
  | .tooManyDigits => True
  | .unfinished => True
  | _ => False

def Fault.Inherent : Fault → Prop
  | .run .divisionByZero => True
  | .run .callsExhausted => True
  | .tooManyDigits => True
  | .unfinished => True
  | _ => False

theorem Fault.Inherent.permitted {fault : Fault} (h : fault.Inherent) : fault.Permitted := by
  unfold Fault.Inherent at h
  split at h
  · trivial
  · trivial
  · trivial
  · trivial
  · exact h.elim

/-- A fault that is permitted. If it has to do with nil, then `nilled`. -/
structure Fault.Allowed (nilled : Prop) (fault : Fault) : Prop where
  permitted : fault.Permitted
  origin : fault.Inherent ∨ nilled

theorem Fault.Inherent.allowed {nilled : Prop} {fault : Fault} (h : fault.Inherent) :
    fault.Allowed nilled := ⟨h.permitted, .inl h⟩

/-- The result belongs to the type, or the fault is one that is permitted. -/
def StaticType.AdmitsResult (t : StaticType) : Except Fault Value → Prop
  | .ok v => t.Admits v
  | .error fault => fault.Permitted

namespace StaticType

variable {v a b : Value} {t : StaticType}

theorem eq_of_admits_boolean (h : boolean.Admits v) : v = .nil ∨ ∃ b, v = .boolean b := by
  cases v <;> simp_all [Admits, contains]

theorem eq_of_admits_integer (h : integer.Admits v) : v = .nil ∨ ∃ n, v = .integer n := by
  cases v <;> simp_all [Admits, contains]

theorem eq_of_admits_decimal (h : decimal.Admits v) :
    v = .nil ∨ ∃ s c e, v = .decimal (.finite s c e) := by
  cases v with
  | decimal d => cases d <;> simp_all [Admits, contains, Decimal.isFinite]
  | _ => simp_all [Admits, contains]

theorem eq_of_admits_character (h : character.Admits v) : v = .nil ∨ ∃ s, v = .character s := by
  cases v <;> simp_all [Admits, contains]

theorem eq_of_admits_string (h : string.Admits v) : v = .nil ∨ ∃ s, v = .string s := by
  cases v <;> simp_all [Admits, contains]

/-- Whether only values of one kind belong to the type, and nil does not. -/
def isDefinite : StaticType → Bool
  | boolean | integer | decimal | character | string => true
  | _ => false

/-- A value of the type. If it should not be nil but is, then `nilled`. -/
structure Holds (nilled : Prop) (t : StaticType) (v : Value) : Prop where
  admits : t.Admits v
  nilled : t.isDefinite = true → v = .nil → nilled

def HoldsResult (nilled : Prop) (t : StaticType) : Except Fault Value → Prop
  | .ok v => t.Holds nilled v
  | .error fault => fault.Allowed nilled

variable {nilled nilled' : Prop}

theorem Holds.mono (h : t.Holds nilled v) (hn : nilled → nilled') : t.Holds nilled' v :=
  ⟨h.admits, fun ht hv => hn (h.nilled ht hv)⟩

theorem HoldsResult.mono {r : Except Fault Value} (h : t.HoldsResult nilled r)
    (hn : nilled → nilled') : t.HoldsResult nilled' r := by
  cases r with
  | ok v => exact Holds.mono h hn
  | error fault => exact ⟨h.permitted, h.origin.imp_right hn⟩

theorem HoldsResult.admitsResult {r : Except Fault Value} (h : t.HoldsResult nilled r) :
    t.AdmitsResult r := by
  cases r with
  | ok v => exact h.admits
  | error fault => exact h.permitted

theorem Holds.of_contains (h : t.contains v = true) (hv : v ≠ .nil) : t.Holds nilled v :=
  ⟨.inr h, fun _ hnil => absurd hnil hv⟩

theorem holds_boolean (b : Bool) : boolean.Holds nilled (.boolean b) :=
  .of_contains rfl (by simp)

theorem Holds.of_admits (h : t.Admits v) (ht : t.isDefinite = false) : t.Holds nilled v := by
  refine ⟨h, fun hd => ?_⟩
  cases ht.symm.trans hd

/-- What may be kept where `target` is expected is a value of `target`. -/
theorem Holds.of_accepts {target source : StaticType} (h : source.Holds nilled v)
    (ha : target.accepts source = true) : target.Holds nilled v := by
  refine ⟨h.admits.of_accepts ha, fun ht => ?_⟩
  simp only [accepts, Bool.or_eq_true, Bool.and_eq_true, beq_iff_eq] at ha
  rcases ha with (rfl | rfl) | ⟨rfl, -⟩
  · exact h.nilled ht
  · cases ht
  · cases ht

/-- The value of a literal that a program can write belongs to the type of the literal. -/
theorem contains_of_staticType {value : Literal} (hp : value.Plain)
    (h : value.staticType = .ok t) : t.contains value.toValue = true := by
  cases value <;> simp only [Literal.staticType] at h
  case integer n =>
    split at h
    · cases h
      rfl
    · split at h <;> cases h
  case decimal d =>
    obtain ⟨s, c, e, rfl, -⟩ := hp
    split at h
    · cases h
    · split at h <;> cases h
      rfl
  case raw j => cases h
  all_goals
    cases h
    rfl

theorem holds_of_staticType {value : Literal} (hp : value.Plain)
    (h : value.staticType = .ok t) : t.Holds nilled value.toValue := by
  refine ⟨.inr (contains_of_staticType hp h), ?_⟩
  cases value <;> rintro ht ⟨⟩
  cases h
  cases ht

inductive Alike : Value → Value → Prop where
  | integers (m n : Int) : Alike (.integer m) (.integer n)
  | decimals (s s' : Bool) (c c' : Nat) (e e' : Int) :
      Alike (.decimal (.finite s c e)) (.decimal (.finite s' c' e'))
  | characters (s s' : String) : Alike (.character s) (.character s')
  | strings (s s' : String) : Alike (.string s) (.string s')

theorem alike_of_admits (ht : t.isOrdered = true) (ha : t.Admits a) (hb : t.Admits b) :
    (a = .nil ∨ b = .nil) ∨ Alike a b := by
  cases t with
  | integer =>
    obtain rfl | ⟨n, rfl⟩ := eq_of_admits_integer ha
    · exact .inl (.inl rfl)
    obtain rfl | ⟨n', rfl⟩ := eq_of_admits_integer hb
    · exact .inl (.inr rfl)
    · exact .inr (.integers n n')
  | decimal =>
    obtain rfl | ⟨s, c, e, rfl⟩ := eq_of_admits_decimal ha
    · exact .inl (.inl rfl)
    obtain rfl | ⟨s', c', e', rfl⟩ := eq_of_admits_decimal hb
    · exact .inl (.inr rfl)
    · exact .inr (.decimals s s' c c' e e')
  | character =>
    obtain rfl | ⟨s, rfl⟩ := eq_of_admits_character ha
    · exact .inl (.inl rfl)
    obtain rfl | ⟨s', rfl⟩ := eq_of_admits_character hb
    · exact .inl (.inr rfl)
    · exact .inr (.characters s s')
  | string =>
    obtain rfl | ⟨s, rfl⟩ := eq_of_admits_string ha
    · exact .inl (.inl rfl)
    obtain rfl | ⟨s', rfl⟩ := eq_of_admits_string hb
    · exact .inl (.inr rfl)
    · exact .inr (.strings s s')
  | _ => cases ht

theorem alike_of_holds (ht : t.isOrdered = true) (ha : t.Holds nilled a) (hb : t.Holds nilled b) :
    (a = .nil ∨ b = .nil) ∧ nilled ∨ Alike a b := by
  have hdefinite : t.isDefinite = true := by
    cases t <;> cases ht <;> rfl
  refine (alike_of_admits ht ha.admits hb.admits).imp_left fun hnil => ⟨hnil, ?_⟩
  rcases hnil with hnil | hnil
  · exact ha.nilled hdefinite hnil
  · exact hb.nilled hdefinite hnil

/-- Values of an ordered type can be compared with each other for equality. -/
theorem equalValues_of_ordered (ht : t.isOrdered = true) (ha : t.Admits a) (hb : t.Admits b) :
    ∃ e, equalValues a b = .ok e := by
  rcases alike_of_admits ht ha hb with (rfl | rfl) | hab
  · unfold equalValues
    split
    · exact ⟨_, rfl⟩
    · cases b <;> exact ⟨_, rfl⟩
  · unfold equalValues
    split
    · exact ⟨_, rfl⟩
    · cases a <;> exact ⟨_, rfl⟩
  · cases hab <;> exact ⟨_, rfl⟩

/-- Values of an ordered type can be put in order unless one of them is nil. -/
theorem orderValues_of_ordered (ht : t.isOrdered = true) (ha : t.Holds nilled a)
    (hb : t.Holds nilled b) : (∃ o, orderValues a b = .ok o) ∨
      ∃ fault, orderValues a b = .error fault ∧ fault.Permitted ∧ nilled := by
  rcases alike_of_holds ht ha hb with ⟨rfl | rfl, hn⟩ | hab
  · refine .inr ⟨.run (.incomparable Value.nil.typeName b.typeName), ?_, Or.inl rfl, hn⟩
    simp [orderValues, orderedTypeNames, Value.typeName]
  · refine .inr ⟨.run (.incomparable a.typeName Value.nil.typeName), ?_, Or.inr rfl, hn⟩
    unfold orderValues
    rw [if_pos]
    cases hn : a.typeName != Value.nil.typeName
    · rw [bne_eq_false_iff_eq.mp hn]
      rfl
    · rfl
  · cases hab <;> exact .inl ⟨_, rfl⟩

theorem holds_integerArithmetic (operator : String) (x y : Int) :
    integer.HoldsResult nilled (integerArithmetic operator x y) := by
  unfold integerArithmetic
  split
  · exact .of_contains rfl nofun
  split
  · exact .of_contains rfl nofun
  split
  · exact .of_contains rfl nofun
  · unfold divideIntegers
    cases y == 0
    · exact .of_contains rfl nofun
    · exact ⟨trivial, .inl trivial⟩

theorem holds_decimalArithmetic (operator : String) (s s' : Bool) (c c' : Nat) (e e' : Int) :
    decimal.HoldsResult nilled
      (decimalArithmetic operator (.finite s c e) (.finite s' c' e')) := by
  unfold decimalArithmetic
  split
  · exact .of_contains rfl nofun
  split
  · exact .of_contains rfl nofun
  split
  · exact .of_contains rfl nofun
  · unfold divideDecimals
    split
    · contradiction
    split
    · exact ⟨trivial, .inl trivial⟩
    · exact .of_contains rfl nofun

theorem holds_joinTexts (a b : Value) : string.HoldsResult nilled (joinTexts a b) := by
  unfold joinTexts
  split
  · exact .of_contains rfl nofun
  · exact ⟨trivial, .inl trivial⟩

/-- Arithmetic on values of a type of numbers, where a plus does not join texts. -/
theorem holds_applyArithmetic (operator : String) (ht : t = .integer ∨ t = .decimal)
    (ha : t.Holds nilled a) (hb : t.Holds nilled b) :
    t.HoldsResult nilled (applyArithmetic operator a b) := by
  rcases ht with rfl | rfl
  · obtain rfl | ⟨x, rfl⟩ := eq_of_admits_integer ha.admits
    · exact ⟨.inl rfl, .inr (ha.nilled rfl rfl)⟩
    obtain rfl | ⟨y, rfl⟩ := eq_of_admits_integer hb.admits
    · exact ⟨.inr rfl, .inr (hb.nilled rfl rfl)⟩
    · exact holds_integerArithmetic operator x y
  · obtain rfl | ⟨s, c, e, rfl⟩ := eq_of_admits_decimal ha.admits
    · exact ⟨.inl rfl, .inr (ha.nilled rfl rfl)⟩
    obtain rfl | ⟨s', c', e', rfl⟩ := eq_of_admits_decimal hb.admits
    · exact ⟨.inr rfl, .inr (hb.nilled rfl rfl)⟩
    · exact holds_decimalArithmetic operator s s' c c' e e'

theorem isString_of_admits_number (ht : t = .integer ∨ t = .decimal) (ha : t.Admits a) :
    a.isString = false := by
  rcases ht with rfl | rfl
  · obtain rfl | ⟨x, rfl⟩ := eq_of_admits_integer ha <;> rfl
  · obtain rfl | ⟨s, c, e, rfl⟩ := eq_of_admits_decimal ha <;> rfl

/-- A plus of which one operand should be a text, where none is: that operand is nil. -/
theorem permitted_of_no_text {l r : StaticType} (h : l = .string ∨ r = .string)
    (ha : l.Holds nilled a) (hb : r.Holds nilled b) (hno : (a.isString || b.isString) = false) :
    t.HoldsResult nilled (applyArithmetic "+" a b) := by
  rcases h with rfl | rfl
  · obtain rfl | ⟨s, rfl⟩ := eq_of_admits_string ha.admits
    · exact ⟨.inl rfl, .inr (ha.nilled rfl rfl)⟩
    · cases hno
  · obtain rfl | ⟨s, rfl⟩ := eq_of_admits_string hb.admits
    · cases a <;> exact ⟨.inr rfl, .inr (hb.nilled rfl rfl)⟩
    · cases a <;> cases hno

/-- A binary operation that evaluates both operands gives a value of its type or fails as it may. -/
theorem holds_applyBinary {operator : String} {l r : StaticType} (ha : l.Holds nilled a)
    (hb : r.Holds nilled b) (ht : binaryType operator l r = .ok t)
    (hc : conjunctions.contains operator = false) (hd : disjunctions.contains operator = false) :
    t.HoldsResult nilled (applyBinary operator a b) := by
  unfold binaryType at ht
  simp only [hc, hd, Bool.or_self, Bool.false_eq_true, if_false] at ht
  unfold applyBinary
  cases he : equalities.contains operator with
  | true =>
    simp only [he, Bool.or_true, if_true] at ht ⊢
    split at ht
    · next h =>
      cases ht
      obtain ⟨ho, hr⟩ : l.isOrdered = true ∧ r = l := by simpa using h
      subst hr
      obtain ⟨e, heq⟩ := equalValues_of_ordered ho ha.admits hb.admits
      rw [heq]
      exact .of_contains rfl nofun
    · cases ht
  | false =>
    cases ho : orderings.contains operator with
    | true =>
      simp only [ho, Bool.true_or, if_true, Bool.false_eq_true, if_false] at ht ⊢
      split at ht
      · next h =>
        cases ht
        obtain ⟨hl, hr⟩ : l.isOrdered = true ∧ r = l := by simpa using h
        subst hr
        obtain ⟨o, heq⟩ | ⟨fault, heq, hf, hn⟩ := orderValues_of_ordered hl ha hb
        · rw [heq]
          exact .of_contains rfl nofun
        · rw [heq]
          exact ⟨hf, .inr hn⟩
      · cases ht
    | false =>
      simp only [he, ho, Bool.or_self, Bool.false_eq_true, if_false] at ht ⊢
      split at ht
      -- A plus with a text on one side joins texts, unless nil stands there instead.
      · next h =>
        cases ht
        simp only [Bool.and_eq_true, beq_iff_eq, Bool.or_eq_true] at h
        obtain ⟨rfl, hstring⟩ := h
        cases hjoin : a.isString || b.isString with
        | true => exact holds_joinTexts a b
        | false => exact permitted_of_no_text hstring ha hb hjoin
      · split at ht
        · next harith =>
          split at ht
          · next h =>
            cases ht
            simp only [Bool.and_eq_true, beq_iff_eq, Bool.or_eq_true] at h
            obtain ⟨hnum, rfl⟩ := h
            simp only [isString_of_admits_number hnum ha.admits,
              isString_of_admits_number hnum hb.admits, Bool.or_self, Bool.and_false,
              Bool.false_eq_true, if_false, harith, if_true]
            exact holds_applyArithmetic operator hnum ha hb
          · cases ht
        · cases ht

end StaticType
end BlockScript
