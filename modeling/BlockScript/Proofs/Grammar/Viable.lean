import BlockScript.Proofs.Grammar.Productions
/-!
# Rules that keep a viable prefix

A rule that decides by the next token alone behaves the same however the tokens go on behind the
one at which it ended. If it ended with a failure, the tokens it had used before can be completed
to ones that it reads: by a fixed phrase of its own where it failed at once, and otherwise by what
completes the part in which it failed. The completion has to stand in front of tokens at which the
rule stops.
-/
namespace BlockScript.Grammar

open Rule Reading

variable {α β : Type} {j k k' n : Nat}

theorem avoids_of_head? {texts : List String} {ts us : List Token} (h : Avoids texts ts)
    (heq : us.head? = ts.head?) : Avoids texts us := by
  cases us with
  | nil => trivial
  | cons u us =>
    cases ts with
    | nil => cases heq
    | cons t ts =>
      obtain rfl : u = t := Option.some.inj heq
      exact h

theorem meets_of_head? {texts : List String} {ts us : List Token} (h : Meets texts ts)
    (heq : us.head? = ts.head?) : Meets texts us := by
  cases ts with
  | nil => exact absurd h id
  | cons t ts =>
    cases us with
    | nil => cases heq
    | cons u us =>
      obtain rfl : u = t := Option.some.inj heq
      exact h

/-- Behind tokens that begin a list, what comes later does not change the first token. -/
theorem head?_append_of_ne_nil {ts us vs : List Token} (h : ts ≠ []) :
    (ts ++ us).head? = (ts ++ vs).head? := by
  cases ts with
  | nil => exact absurd rfl h
  | cons t ts => rfl

/-- The rule reads `phrase` and no further wherever tokens follow at which it stops. -/
def Completes (stops : List Token → Prop) (r : (ts : List Token) → Parse α k ts.length)
    (phrase : List Token) : Prop :=
  ∀ rest, stops rest → ∃ a, (r (phrase ++ rest)).Returns a rest

/-- How a rule ends on `ts`, seen from the tokens it used and the next one. -/
inductive Viable (stops : List Token → Prop) (r : (ts : List Token) → Parse α k ts.length)
    (ts : List Token) : Prop where
  /-- It succeeds, and does so whenever the same token follows or one at which it stops. -/
  | reads (a : α) (used rest : List Token) (split : ts = used ++ rest)
      (steady : ∀ rest', rest'.head? = rest.head? ∨ stops rest' →
        (r (used ++ rest')).Returns a rest')
  /-- It fails, and does so whenever the same token follows; but what it used can be completed,
  unless it failed for a number without a value. -/
  | fails (e : ParseFault) (used rest : List Token) (split : ts = used ++ rest)
      (steady : ∀ rest', rest'.head? = rest.head? →
        (r (used ++ rest')).outcome = (.error e, rest'))
      (completed : e.isPlaced = true → ∃ more, Completes stops r (used ++ more))

/-- The rule has a phrase of its own, and keeps a viable prefix of up to `n` tokens. -/
structure Guided (stops : List Token → Prop) (r : (ts : List Token) → Parse α k ts.length)
    (phrase : List Token) (n : Nat) : Prop where
  completes : Completes stops r phrase
  viable : ∀ ts, ts.length ≤ n → Viable stops r ts

section Combinators

variable {stops stops' first : List Token → Prop} {phrase phrase' ts : List Token}
  {r : (ts : List Token) → Parse α k ts.length} {r' : (ts : List Token) → Parse α k' ts.length}

theorem Viable.mono (h : Viable stops r ts) (hstops : ∀ rest, stops' rest → stops rest) :
    Viable stops' r ts := by
  cases h with
  | reads a used rest split steady =>
    exact .reads a used rest split fun rest' h => steady rest' (h.imp_right (hstops rest'))
  | fails e used rest split steady completed =>
    refine .fails e used rest split steady fun he => ?_
    obtain ⟨more, hmore⟩ := completed he
    exact ⟨more, fun rest' h => hmore rest' (hstops rest' h)⟩

theorem Guided.mono (h : Guided stops r phrase n) (hstops : ∀ rest, stops' rest → stops rest) :
    Guided stops' r phrase n :=
  ⟨fun rest hrest => h.completes rest (hstops rest hrest), fun ts hts => (h.viable ts hts).mono hstops⟩

/-- A rule with the same outcomes. -/
theorem Guided.congr (h : Guided stops r' phrase n) (heq : ∀ ts, (r ts).outcome = (r' ts).outcome) :
    Guided stops r phrase n where
  completes rest hrest := by
    obtain ⟨a, ha⟩ := h.completes rest hrest
    exact ⟨a, (heq _).trans ha⟩
  viable ts hts := by
    cases h.viable ts hts with
    | reads a used rest split steady =>
      exact .reads a used rest split fun rest' h => (heq _).trans (steady rest' h)
    | fails e used rest split steady completed =>
      refine .fails e used rest split (fun rest' h => (heq _).trans (steady rest' h)) fun he => ?_
      obtain ⟨more, hmore⟩ := completed he
      refine ⟨more, fun rest' h => ?_⟩
      obtain ⟨a, ha⟩ := hmore rest' h
      exact ⟨a, (heq _).trans ha⟩

theorem Guided.weaken {le : decide (k ≤ k') = true} (h : Guided stops r' phrase n) :
    Guided stops (fun ts => (r' ts).weaken le) phrase n :=
  h.congr fun ts => outcome_weaken (r' ts) le

theorem Guided.map (h : Guided stops r phrase n) (f : α → β) :
    Guided stops (fun ts => (r ts).map f) phrase n where
  completes rest hrest := by
    obtain ⟨a, ha⟩ := h.completes rest hrest
    exact ⟨f a, ha.map f⟩
  viable ts hts := by
    cases h.viable ts hts with
    | reads a used rest split steady =>
      exact .reads (f a) used rest split fun rest' h => (steady rest' h).map f
    | fails e used rest split steady completed =>
      refine .fails e used rest split (fun rest' h => ?_) fun he => ?_
      · rw [outcome_map, steady rest' h]
        rfl
      · obtain ⟨more, hmore⟩ := completed he
        refine ⟨more, fun rest' h => ?_⟩
        obtain ⟨a, ha⟩ := hmore rest' h
        exact ⟨f a, ha.map f⟩

/-- A rule that uses nothing where it stops, and nothing in front of this token either. -/
theorem Viable.keeps {a : α}
    (h : ∀ rest, rest.head? = ts.head? ∨ stops rest → (r rest).Returns a rest) :
    Viable stops r ts :=
  .reads a [] ts rfl h

/-- A rule that fails at this token without using any. -/
theorem Viable.refuses {e : ParseFault} (hphrase : Completes stops r phrase)
    (h : ∀ rest, rest.head? = ts.head? → (r rest).outcome = (.error e, rest)) :
    Viable stops r ts :=
  .fails e [] ts rfl h fun _ => ⟨phrase, hphrase⟩

/-- What a rule does behind certain tokens is done by another rule. -/
theorem Viable.behind (front : List Token) (h : Viable stops r' ts)
    (heq : ∀ rest, (r (front ++ rest)).outcome = (r' rest).outcome) :
    Viable stops r (front ++ ts) := by
  have hback : ∀ us vs : List Token, (r (front ++ us ++ vs)).outcome = (r' (us ++ vs)).outcome := by
    intro us vs
    rw [List.append_assoc]
    exact heq (us ++ vs)
  cases h with
  | reads a used rest split steady =>
    refine .reads a (front ++ used) rest (by rw [split, List.append_assoc]) fun rest' h => ?_
    exact (hback used rest').trans (steady rest' h)
  | fails e used rest split steady completed =>
    refine .fails e (front ++ used) rest (by rw [split, List.append_assoc]) (fun rest' h => ?_)
      fun he => ?_
    · exact (hback used rest').trans (steady rest' h)
    · obtain ⟨more, hmore⟩ := completed he
      refine ⟨more, fun rest' h => ?_⟩
      obtain ⟨a, ha⟩ := hmore rest' h
      refine ⟨a, ?_⟩
      rw [List.append_assoc front used more]
      exact (hback (used ++ more) rest').trans ha

theorem Returns.length_le {m : Nat} {x : Parse α k m} {a : α} {rest : List Token}
    (h : x.Returns a rest) : rest.length + k ≤ m := by
  cases x with
  | failed cause rest' within => simp [Returns, outcome] at h
  | done a' rest' used =>
    obtain ⟨-, rfl⟩ := returns_done.mp h
    exact used

/-- A rule that goes by the next token is viable on `ts` if the rule it becomes there is. The two
have to agree on tokens that begin as `ts` does; and where both stop, if the second may use none. -/
theorem Viable.of_head? (h : Viable stops r' ts) (hphrase : Completes stops r phrase)
    (heq : ∀ us, us.head? = ts.head? ∨ (k' = 0 ∧ stops us) → (r us).outcome = (r' us).outcome) :
    Viable stops r ts := by
  have hbehind : ∀ used rest : List Token, ts = used ++ rest → used ≠ [] →
      ∀ us, (r (used ++ us)).outcome = (r' (used ++ us)).outcome := by
    intro used rest split hne us
    refine heq _ (.inl ?_)
    rw [split]
    exact head?_append_of_ne_nil hne
  cases h with
  | reads a used rest split steady =>
    refine .reads a used rest split fun rest' h => ?_
    have hr' : (r' (used ++ rest')).Returns a rest' := steady rest' h
    by_cases hused : used = []
    · subst hused
      have hk : k' = 0 := by
        have hle := Returns.length_le hr'
        simp only [List.nil_append] at hle
        omega
      have hhead : rest'.head? = ts.head? ∨ (k' = 0 ∧ stops rest') := by
        rw [split]
        exact h.imp_right fun hs => ⟨hk, hs⟩
      exact (heq rest' hhead).trans hr'
    · exact (hbehind used rest split hused rest').trans hr'
  | fails e used rest split steady completed =>
    by_cases hused : used = []
    · subst hused
      refine Viable.refuses hphrase (e := e) fun rest' h => ?_
      have hhead : rest'.head? = rest.head? := by rw [h, split, List.nil_append]
      exact (heq rest' (.inl h)).trans (steady rest' hhead)
    · refine .fails e used rest split (fun rest' h => ?_) fun he => ?_
      · exact (hbehind used rest split hused rest').trans (steady rest' h)
      · obtain ⟨more, hmore⟩ := completed he
        refine ⟨more, fun rest' h => ?_⟩
        obtain ⟨a, ha⟩ := hmore rest' h
        refine ⟨a, ?_⟩
        rw [List.append_assoc] at ha ⊢
        exact (hbehind used rest split hused (more ++ rest')).trans ha

/-- The same for a rule that never succeeds without using a token. -/
theorem Viable.of_head?_pos (h : Viable stops r' ts) (hphrase : Completes stops r phrase)
    (hk : 0 < k') (heq : ∀ us, us.head? = ts.head? → (r us).outcome = (r' us).outcome) :
    Viable stops r ts := by
  refine h.of_head? hphrase fun us hus => ?_
  obtain hus | ⟨hzero, -⟩ := hus
  · exact heq us hus
  · omega

theorem outcome_andThen_error {x : Parse α k n} {e : ParseFault} {rest : List Token}
    {next : (a : α) → (rest : List Token) → rest.length + k ≤ n → Parse β j rest.length}
    (h : x.outcome = (.error e, rest)) : (x.andThen next).outcome = (.error e, rest) := by
  cases x with
  | done a rest' used => simp [outcome] at h
  | failed cause rest' within =>
    simp only [outcome, Prod.mk.injEq, Except.error.injEq] at h
    obtain ⟨rfl, rfl⟩ := h
    rfl

theorem outcome_andThen_of_returns {x : Parse α k n} {a : α} {rest : List Token}
    {next : (a : α) → (rest : List Token) → Parse β j rest.length} (h : x.Returns a rest) :
    (x.andThen fun a rest _ => next a rest).outcome = (next a rest).outcome := by
  cases x with
  | failed cause rest' within => simp [Returns, outcome] at h
  | done a' rest' used =>
    obtain ⟨rfl, rfl⟩ := returns_done.mp h
    simp only [Reading.andThen]
    cases next a' rest' <;> rfl

variable {next : α → (ts : List Token) → Parse β j ts.length}

theorem Completes.andThen (h : Completes first r phrase)
    (hnext : ∀ a, Completes stops (next a) phrase')
    (hfirst : ∀ rest, stops rest → first (phrase' ++ rest)) :
    Completes stops (fun ts => (r ts).andThen fun a rest _ => next a rest) (phrase ++ phrase') := by
  intro rest hrest
  obtain ⟨a, ha⟩ := h (phrase' ++ rest) (hfirst rest hrest)
  obtain ⟨b, hb⟩ := hnext a rest hrest
  refine ⟨b, ?_⟩
  rw [List.append_assoc]
  exact (outcome_andThen_of_returns ha).trans hb

/-- One rule after another. The first has to stop where the phrase of the second begins, and, if the
second may use nothing, where the second stops. -/
theorem Viable.andThen (h : Viable first r ts) (hts : ts.length ≤ n)
    (hnext : ∀ a, Guided stops (next a) phrase' (n - k))
    (hfirst : ∀ rest, stops rest → first (phrase' ++ rest))
    (hend : 0 < j ∨ ∀ rest, stops rest → first rest) :
    Viable stops (fun ts => (r ts).andThen fun a rest _ => next a rest) ts := by
  cases h with
  | fails e used rest split steady completed =>
    refine .fails e used rest split (fun rest' h => outcome_andThen_error (steady rest' h))
      fun he => ?_
    obtain ⟨more, hmore⟩ := completed he
    refine ⟨more ++ phrase', ?_⟩
    rw [← List.append_assoc]
    exact hmore.andThen (fun a => (hnext a).completes) hfirst
  | reads a used rest split steady =>
    have hlength : rest.length ≤ n - k := by
      have hle := Returns.length_le (steady rest (.inl rfl))
      rw [← split] at hle
      omega
    cases (hnext a).viable rest hlength with
    | reads b used' rest' split' steady' =>
      refine .reads b (used ++ used') rest' (by rw [split, split', List.append_assoc])
        fun rest₂ h => ?_
      have hb := steady' rest₂ h
      have hhead : (used' ++ rest₂).head? = rest.head? ∨ first (used' ++ rest₂) := by
        by_cases hused : used' = []
        · subst hused
          obtain h | h := h
          · exact .inl (by rw [split', List.nil_append, List.nil_append, h])
          · refine .inr (hend.elim (fun hj => ?_) fun hall => hall rest₂ h)
            have hle := Returns.length_le hb
            simp only [List.nil_append] at hle
            omega
        · exact .inl (by rw [split']; exact head?_append_of_ne_nil hused)
      rw [List.append_assoc]
      exact (outcome_andThen_of_returns (steady _ hhead)).trans hb
    | fails e used' rest' split' steady' completed' =>
      refine .fails e (used ++ used') rest' (by rw [split, split', List.append_assoc])
        (fun rest₂ h => ?_) fun he => ?_
      · have hhead : (used' ++ rest₂).head? = rest.head? := by
          rw [split', List.head?_append, List.head?_append, h]
        rw [List.append_assoc]
        exact (outcome_andThen_of_returns (steady _ (.inl hhead))).trans (steady' rest₂ h)
      · -- If the second rule failed at once, its own phrase is what the first one stops at.
        have hmore : ∃ more, Completes stops (next a) (used' ++ more) ∧
            ∀ rest₂, stops rest₂ → (used' ++ more ++ rest₂).head? = rest.head? ∨
              first (used' ++ more ++ rest₂) := by
          by_cases hused : used' = []
          · subst hused
            exact ⟨phrase', (hnext a).completes, fun rest₂ h => .inr (hfirst rest₂ h)⟩
          · obtain ⟨more, hmore⟩ := completed' he
            refine ⟨more, hmore, fun rest₂ _ => .inl ?_⟩
            rw [split', List.append_assoc]
            exact head?_append_of_ne_nil hused
        obtain ⟨more, hmore, hhead⟩ := hmore
        refine ⟨more, fun rest₂ h => ?_⟩
        obtain ⟨b, hb⟩ := hmore rest₂ h
        refine ⟨b, ?_⟩
        rw [List.append_assoc used used' more, List.append_assoc used (used' ++ more) rest₂]
        exact (outcome_andThen_of_returns (steady _ (hhead rest₂ h))).trans hb

theorem Guided.andThen (h : Guided first r phrase n)
    (hnext : ∀ a, Guided stops (next a) phrase' (n - k))
    (hfirst : ∀ rest, stops rest → first (phrase' ++ rest))
    (hend : 0 < j ∨ ∀ rest, stops rest → first rest) :
    Guided stops (fun ts => (r ts).andThen fun a rest _ => next a rest) (phrase ++ phrase') n where
  completes := h.completes.andThen (fun a => (hnext a).completes) hfirst
  viable ts hts := (h.viable ts hts).andThen hts hnext hfirst hend

/-- A rule that uses the same tokens whatever follows, and another after it. -/
theorem Guided.thenAny (h : Guided (fun _ => True) r phrase n)
    (hnext : ∀ a, Guided stops (next a) phrase' (n - k)) :
    Guided stops (fun ts => (r ts).andThen fun a rest _ => next a rest) (phrase ++ phrase') n :=
  h.andThen hnext (fun _ _ => trivial) (.inr fun _ _ => trivial)

end Combinators

end BlockScript.Grammar
