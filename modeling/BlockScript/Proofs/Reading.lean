import BlockScript.Reading
/-!
# What a reading yields

A reading is described by what holds of its result and of the items it leaves, and by what it
returns exactly. Both go through the steps of a rule one by one.
-/
namespace BlockScript.Reading

variable {σ ε α β : Type} {j k m n : Nat}

/-- If the reading succeeds, `P` holds of its result and of the items that are left. -/
def Yields (r : Reading σ ε α k n) (P : α → List σ → Prop) : Prop :=
  ∀ a rest, r.outcome = (.ok a, rest) → P a rest

def Returns (r : Reading σ ε α k n) (a : α) (rest : List σ) : Prop := r.outcome = (.ok a, rest)

theorem Yields.imp {r : Reading σ ε α k n} {P Q : α → List σ → Prop} (h : r.Yields P)
    (hPQ : ∀ a rest, P a rest → Q a rest) : r.Yields Q :=
  fun a rest hr => hPQ a rest (h a rest hr)

@[simp] theorem yields_done {a : α} {rest : List σ} {used : rest.length + k ≤ n}
    {P : α → List σ → Prop} :
    (done a rest used : Reading σ ε α k n).Yields P ↔ P a rest := by
  simp [Yields, outcome]

@[simp] theorem yields_failed {cause : ε} {rest : List σ} {within : rest.length ≤ n}
    {P : α → List σ → Prop} : (failed cause rest within : Reading σ ε α k n).Yields P := by
  simp [Yields, outcome]

@[simp] theorem yields_map {r : Reading σ ε α k n} {f : α → β} {P : β → List σ → Prop} :
    (r.map f).Yields P ↔ r.Yields fun a => P (f a) := by
  cases r <;> simp [map]

@[simp] theorem yields_weaken {r : Reading σ ε α j n} {le : decide (k ≤ j) = true}
    {P : α → List σ → Prop} : (r.weaken le).Yields P ↔ r.Yields P := by
  simp [Yields]

@[simp] theorem yields_widen {r : Reading σ ε α j m} {bound : m + k ≤ n + j} {le : m ≤ n}
    {P : α → List σ → Prop} : (r.widen bound le).Yields P ↔ r.Yields P := by
  simp [Yields]

@[simp] theorem yields_andThen {r : Reading σ ε α k n}
    {next : (a : α) → (rest : List σ) → rest.length + k ≤ n → Reading σ ε β j rest.length}
    {P : β → List σ → Prop} :
    (r.andThen next).Yields P ↔ r.Yields fun a rest => ∀ used, (next a rest used).Yields P := by
  cases r with
  | failed cause rest within => simp [andThen]
  | done a rest used =>
    rw [yields_done]
    cases h : next a rest used with
    | done b rest' used' => simp [andThen, h, used]
    | failed cause rest' within => simp [andThen, h]

@[simp] theorem returns_done {a b : α} {rest rest' : List σ} {used : rest.length + k ≤ n} :
    (done a rest used : Reading σ ε α k n).Returns b rest' ↔ a = b ∧ rest = rest' := by
  simp [Returns, outcome]

theorem Returns.map {r : Reading σ ε α k n} {a : α} {rest : List σ} (h : r.Returns a rest)
    (f : α → β) : (r.map f).Returns (f a) rest := by
  unfold Returns at *
  rw [outcome_map, h]
  rfl

@[simp] theorem returns_weaken {r : Reading σ ε α j n} {le : decide (k ≤ j) = true} {a : α}
    {rest : List σ} : (r.weaken le).Returns a rest ↔ r.Returns a rest := by
  simp [Returns]

@[simp] theorem returns_widen {r : Reading σ ε α j m} {bound : m + k ≤ n + j} {le : m ≤ n}
    {a : α} {rest : List σ} : (r.widen bound le).Returns a rest ↔ r.Returns a rest := by
  simp [Returns]

theorem Returns.andThen {r : Reading σ ε α k n}
    {next : (a : α) → (rest : List σ) → rest.length + k ≤ n → Reading σ ε β j rest.length}
    {a : α} {b : β} {mid rest : List σ} (h : r.Returns a mid)
    (hnext : ∀ used, (next a mid used).Returns b rest) : (r.andThen next).Returns b rest := by
  cases r with
  | failed cause rest' within => simp [Returns, outcome] at h
  | done a' mid' used =>
    obtain ⟨rfl, rfl⟩ := returns_done.mp h
    have hb := hnext used
    cases hn : next a' mid' used with
    | done b' rest' used' =>
      rw [hn] at hb
      simpa [Reading.andThen, hn] using hb
    | failed cause rest' within =>
      rw [hn] at hb
      simp [Returns, outcome] at hb

theorem Returns.of_map {r : Reading σ ε α k n} {f : α → β} {b : β} {rest : List σ}
    (h : (r.map f).Returns b rest) : ∃ a, r.Returns a rest ∧ f a = b := by
  cases r with
  | failed cause rest' within => simp [Returns, outcome, Reading.map] at h
  | done a rest' used =>
    obtain ⟨ha, hrest⟩ := returns_done.mp h
    exact ⟨a, returns_done.mpr ⟨rfl, hrest⟩, ha⟩

theorem Returns.of_andThen {r : Reading σ ε α k n}
    {next : (a : α) → (rest : List σ) → rest.length + k ≤ n → Reading σ ε β j rest.length}
    {b : β} {rest : List σ} (h : (r.andThen next).Returns b rest) :
    ∃ a mid used, r.Returns a mid ∧ (next a mid used).Returns b rest := by
  cases r with
  | failed cause rest' within => simp [Returns, outcome, Reading.andThen] at h
  | done a mid used =>
    refine ⟨a, mid, used, returns_done.mpr ⟨rfl, rfl⟩, ?_⟩
    cases hn : next a mid used with
    | done b' rest' used' => simpa [Reading.andThen, hn] using h
    | failed cause rest' within => simp [Reading.andThen, hn, Returns, outcome] at h

/-- What a reading returns is all that it can return. -/
theorem Returns.unique {r : Reading σ ε α k n} {a b : α} {rest rest' : List σ}
    (h : r.Returns a rest) (h' : r.Returns b rest') : a = b ∧ rest = rest' := by
  have he := h.symm.trans h'
  simpa using he

theorem Yields.of_returns {r : Reading σ ε α k n} {P : α → List σ → Prop} {a : α}
    {rest : List σ} (h : r.Yields P) (hr : r.Returns a rest) : P a rest := h a rest hr

end BlockScript.Reading
