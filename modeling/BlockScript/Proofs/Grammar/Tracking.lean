import BlockScript.Proofs.Grammar.Cursor
import BlockScript.Proofs.Grammar.Places
import BlockScript.Proofs.Token.Signs
/-!
# Steps with the cursor follow a list of tokens

A step with the cursor is compared with the reading of the list of the tokens that are left. It
ends as the reading does and its cursor stands where the tokens begin that the reading leaves, so
it has not looked outside of the tokens. Steps one after another pass this on.
-/
namespace BlockScript.Descent

open Grammar Reading Rule

variable {tokens rest : List Token} {α β : Type} {j k n : Nat} {s s₁ s₂ : Cursor} {t : Token}
  {text : String}

def Cursor.next (s : Cursor) : Cursor := { s with index := s.index + 1 }

@[simp] theorem Cursor.index_next (s : Cursor) : s.next.index = s.index + 1 := rfl

section Cursors

/-- The cursor moves forward within the tokens, and all calls that are made descend. -/
structure Leads (tokens : List Token) (s s' : Cursor) : Prop where
  forward : s.index ≤ s'.index
  within : s'.index ≤ tokens.length
  made : ∃ more, s'.nestings = s.nestings ++ more ∧ ∀ n ∈ more, n.Descends tokens

theorem leads_refl (h : s.index ≤ tokens.length) : Leads tokens s s :=
  ⟨Nat.le_refl _, h, [], (List.append_nil _).symm, nofun⟩

theorem Leads.trans (h : Leads tokens s s₁) (h' : Leads tokens s₁ s₂) : Leads tokens s s₂ := by
  obtain ⟨more, hmore, hdescends⟩ := h.made
  obtain ⟨more', hmore', hdescends'⟩ := h'.made
  refine ⟨Nat.le_trans h.forward h'.forward, h'.within, more ++ more', ?_, fun n hn => ?_⟩
  · rw [hmore', hmore, List.append_assoc]
  · exact (List.mem_append.mp hn).elim (hdescends n) (hdescends' n)

theorem lt_length_of_drop {i : Nat} (h : tokens.drop i = t :: rest) : i < tokens.length :=
  (List.getElem?_eq_some_iff.mp (getElem?_of_drop h)).1

theorem leads_next (h : tokens.drop s.index = t :: rest) : Leads tokens s s.next :=
  ⟨Nat.le_succ _, lt_length_of_drop h, [], (List.append_nil _).symm, nofun⟩

theorem drop_next (h : tokens.drop s.index = t :: rest) : tokens.drop s.next.index = rest :=
  drop_succ_of_drop h

theorem avoids_iff {ts : List Token} :
    Avoids [text] ts ↔ Pattern.allFit [.literal text] ts = false := by
  cases ts with
  | nil => simp [Avoids, Pattern.allFit]
  | cons t ts => simp [Pattern.allFit, Pattern.fits]

theorem exists_next {texts : List String} (h : ¬Avoids texts (tokens.drop s.index)) :
    ∃ t, tokens.drop s.index = t :: tokens.drop s.next.index ∧ t.literal ∈ texts := by
  cases hdrop : tokens.drop s.index with
  | nil =>
    rw [hdrop] at h
    exact absurd trivial h
  | cons t rest =>
    rw [hdrop] at h
    exact ⟨t, by rw [drop_next hdrop], by simpa using h⟩

end Cursors

section Steps

theorem bind_of_ok {x : Reader α} {f : α → Reader β} {a : α} (h : x s = .ok a s₁) :
    (x >>= f) s = f a s₁ := by
  simp [bind, EStateM.bind, h]

theorem get_eq (s : Cursor) : (get : Reader Cursor) s = .ok s s := rfl

theorem has_eq (offset : Nat) (s : Cursor) :
    has tokens offset s = .ok (decide (s.index + offset < tokens.length)) s := rfl

theorem tokenAt_eq {offset : Int} {place : Nat} (hplace : (s.index : Int) + offset = place)
    (h : tokens[place]? = some t) : tokenAt tokens offset s = .ok t s := by
  rw [tokenAt, bind_of_ok (get_eq s), hplace]
  simp only [h]
  rfl

theorem advance_eq (h : tokens.drop s.index = t :: rest) : advance tokens s = .ok t s.next := by
  rw [advance, bind_of_ok (tokenAt_eq (Int.add_zero _) (getElem?_of_drop h))]
  rfl

theorem skip_eq {n : Nat} (h : s.index + n ≤ tokens.length) :
    skip tokens n s = .ok () { s with index := s.index + n } := by
  induction n generalizing s with
  | zero => rfl
  | succ n ih =>
    have hdrop : tokens.drop s.index = tokens[s.index] :: tokens.drop (s.index + 1) :=
      List.drop_eq_getElem_cons (by omega)
    rw [skip, bind_of_ok (advance_eq hdrop), ih (by rw [Cursor.index_next]; omega)]
    simp only [Cursor.next, Nat.add_assoc, Nat.add_comm 1]

theorem peekFrom_eq (ps : List Pattern) (offset : Nat) (s : Cursor) :
    peekFrom tokens offset ps s =
      .ok (Pattern.allFit ps (tokens.drop (s.index + offset))) s := by
  induction ps generalizing offset with
  | nil => rfl
  | cons p ps ih =>
    rw [peekFrom, bind_of_ok (has_eq offset s)]
    cases hdrop : tokens.drop (s.index + offset) with
    | nil =>
      have hno : ¬s.index + offset < tokens.length := by
        rw [List.drop_eq_nil_iff] at hdrop
        omega
      rw [decide_eq_false hno]
      rfl
    | cons t rest =>
      have hrest : tokens.drop (s.index + (offset + 1)) = rest := drop_succ_of_drop hdrop
      rw [decide_eq_true (lt_length_of_drop hdrop), if_pos rfl,
        bind_of_ok (tokenAt_eq (by push_cast; rfl) (getElem?_of_drop hdrop)), Pattern.allFit]
      cases p.fits t with
      | true => rw [if_pos rfl, ih, hrest, Bool.true_and]
      | false => rfl

theorem peek_eq (ps : List Pattern) (s : Cursor) :
    peek tokens ps s = .ok (Pattern.allFit ps (tokens.drop s.index)) s :=
  peekFrom_eq ps 0 s

theorem length_le_of_allFit {ps : List Pattern} {ts : List Token}
    (h : Pattern.allFit ps ts = true) : ps.length ≤ ts.length := by
  induction ps generalizing ts with
  | nil => exact Nat.zero_le _
  | cons p ps ih =>
    cases ts with
    | nil => simp [Pattern.allFit] at h
    | cons t ts =>
      simp only [Pattern.allFit, Bool.and_eq_true] at h
      exact Nat.succ_le_succ (ih h.2)

/-- Tokens are only used after they have been seen to be there. -/
theorem accept_eq (ps : List Pattern) (hs : s.index ≤ tokens.length) :
    accept tokens ps s =
      if Pattern.allFit ps (tokens.drop s.index) then
        .ok true { s with index := s.index + ps.length }
      else .ok false s := by
  rw [accept, bind_of_ok (peek_eq ps s)]
  cases hfit : Pattern.allFit ps (tokens.drop s.index) with
  | false => rfl
  | true =>
    have hlength := length_le_of_allFit hfit
    rw [List.length_drop] at hlength
    rw [if_pos rfl, if_pos rfl, bind_of_ok (skip_eq (by omega))]
    rfl

theorem peekAny_eq (options : List String) (s : Cursor) :
    peekAny tokens options s = .ok (Pattern.firstFit? options (tokens.drop s.index)) s := by
  induction options with
  | nil => rfl
  | cons option options ih =>
    rw [peekAny, bind_of_ok (peek_eq [.literal option] s), Pattern.firstFit?, List.find?_cons]
    cases Pattern.allFit [.literal option] (tokens.drop s.index) with
    | true => rfl
    | false => rw [if_neg Bool.false_ne_true, ih]; rfl

theorem firstFit?_of_avoids {options : List String} {ts : List Token} (h : Avoids options ts) :
    Pattern.firstFit? options ts = none := by
  refine List.find?_eq_none.mpr fun option hmem hfit => ?_
  cases ts with
  | nil => cases hfit
  | cons t ts =>
    have ht : t.literal = option := by simpa [Pattern.allFit, Pattern.fits] using hfit
    exact h (ht ▸ hmem)

theorem firstFit?_of_mem {options : List String} {ts : List Token} (h : t.literal ∈ options) :
    Pattern.firstFit? options (t :: ts) = some t.literal := by
  cases hfirst : Pattern.firstFit? options (t :: ts) with
  | none =>
    have hno := List.find?_eq_none.mp hfirst t.literal h
    simp [Pattern.allFit, Pattern.fits] at hno
  | some option =>
    have hfit := List.find?_some hfirst
    have ht : t.literal = option := by simpa [Pattern.allFit, Pattern.fits] using hfit
    rw [ht]

/-- The place of a fault is a look at the next token or at the last one, if there is one. -/
theorem errorIndex_eq (hs : s.index ≤ tokens.length) :
    errorIndex tokens s = .ok (faultIndex tokens (tokens.drop s.index)) s := by
  rw [errorIndex, bind_of_ok (has_eq 0 s)]
  cases hdrop : tokens.drop s.index with
  | cons t rest =>
    rw [decide_eq_true (show s.index + 0 < _ from lt_length_of_drop hdrop), if_pos rfl,
      bind_of_ok (tokenAt_eq (Int.add_zero _) (getElem?_of_drop hdrop))]
    rfl
  | nil =>
    rw [List.drop_eq_nil_iff] at hdrop
    have hindex : s.index = tokens.length := Nat.le_antisymm hs hdrop
    rw [decide_eq_false (by omega), if_neg Bool.false_ne_true, bind_of_ok (get_eq s)]
    by_cases hzero : s.index = 0
    · have hempty : tokens = [] := List.length_eq_zero_iff.mp (hindex.symm.trans hzero)
      rw [if_pos hzero, hempty]
      rfl
    · have hlast : tokens[s.index - 1]? = tokens.getLast? := by
        rw [hindex, List.getLast?_eq_getElem?]
      have hsome : tokens[s.index - 1]? = some tokens[s.index - 1] :=
        List.getElem?_eq_getElem (by omega)
      rw [if_neg hzero, bind_of_ok (tokenAt_eq (by omega) hsome), faultIndex, ← hlast, hsome]
      rfl

theorem refuse_eq {cause : ParseFault} (hcause : cause.isPlaced = true)
    (hs : s.index ≤ tokens.length) :
    (refuse tokens cause : Reader α) s =
      .error (.fault (.ofParse tokens (tokens.drop s.index) cause)) s := by
  rw [refuse, bind_of_ok (errorIndex_eq hs)]
  cases cause with
  | tooManyDigits | invalidInteger | invalidDecimal => cases hcause
  | expected what => rfl
  | unexpectedToken => rfl
  | expectedExpression => rfl

theorem identifier_eq (h : tokens.drop s.index = t :: rest) (hk : t.kind = .identifier) :
    identifier tokens s = .ok t.literal s.next := by
  have hfit : Pattern.allFit [.kind .identifier] (tokens.drop s.index) = true := by
    simp [h, Pattern.allFit, Pattern.fits, hk]
  have hconsume : consume tokens (.kind .identifier) "identifier" s = .ok t s.next := by
    rw [consume, bind_of_ok (peek_eq _ s), hfit, if_pos rfl, advance_eq h]
  rw [identifier, bind_of_ok hconsume]
  rfl

end Steps

section Tracking

/-- The step with the cursor ends as a reading of the tokens that are left does, at the tokens that
it leaves. -/
def Tracks (tokens : List Token) (x : Reader α) (s : Cursor)
    (o : Except ParseFault α × List Token) : Prop :=
  Ends x s (fun a s' => Leads tokens s s' ∧ o = (.ok a, tokens.drop s'.index))
    fun halt s' => Leads tokens s s' ∧ ∃ cause, o = (.error cause, tokens.drop s'.index) ∧
      halt = .fault (.ofParse tokens (tokens.drop s'.index) cause)

variable {x : Reader α} {o : Except ParseFault α × List Token}

theorem Tracks.behind (hs : Leads tokens s s₁) (h : Tracks tokens x s₁ o) : Ends x s₁
    (fun a s' => Leads tokens s s' ∧ o = (.ok a, tokens.drop s'.index))
    fun halt s' => Leads tokens s s' ∧ ∃ cause, o = (.error cause, tokens.drop s'.index) ∧
      halt = .fault (.ofParse tokens (tokens.drop s'.index) cause) :=
  h.imp (fun _ _ ⟨hs', ho⟩ => ⟨hs.trans hs', ho⟩) fun _ _ ⟨hs', ho⟩ => ⟨hs.trans hs', ho⟩

theorem tracks_step {y : Reader β} {f : β → Reader α} {b : β} (hy : y s = .ok b s₁)
    (hs : Leads tokens s s₁) (h : Tracks tokens (f b) s₁ o) : Tracks tokens (y >>= f) s o := by
  have hends := h.behind hs
  unfold Tracks Ends at *
  rwa [bind_of_ok hy]

theorem tracks_of_ok {a : α} (hx : x s = .ok a s₁) (hs : Leads tokens s s₁)
    (ho : o = (.ok a, tokens.drop s₁.index)) : Tracks tokens x s o := by
  unfold Tracks Ends
  rw [hx]
  exact ⟨hs, ho⟩

theorem tracks_pure {a : α} (hs : s.index ≤ tokens.length) (ho : o = (.ok a, tokens.drop s.index)) :
    Tracks tokens (pure a) s o :=
  ⟨leads_refl hs, ho⟩

theorem tracks_refuse {cause : ParseFault} (hcause : cause.isPlaced = true)
    (hs : s.index ≤ tokens.length) (ho : o = (.error cause, tokens.drop s.index)) :
    Tracks tokens (refuse tokens cause) s o := by
  unfold Tracks Ends
  rw [refuse_eq hcause hs]
  exact ⟨leads_refl hs, cause, ho, rfl⟩

/-- A fault that has no place is the same wherever it is found. -/
theorem tracks_throw {cause : ParseFault} (hcause : cause.isPlaced = false)
    (hs : s.index ≤ tokens.length) (ho : o = (.error cause, tokens.drop s.index)) :
    Tracks tokens (throw (.fault (.ofParse [] [] cause))) s o := by
  have hsame : Fault.ofParse [] [] cause = .ofParse tokens (tokens.drop s.index) cause := by
    cases cause with
    | tooManyDigits | invalidInteger | invalidDecimal => rfl
    | _ => cases hcause
  exact ⟨leads_refl hs, cause, ho, by rw [hsame]⟩

theorem tracks_map {r : Parse α k n} (f : α → β) (h : Tracks tokens x s r.outcome) :
    Tracks tokens (x >>= fun a => pure (f a)) s (r.map f).outcome := by
  rw [outcome_map]
  refine ends_bind.mpr (h.imp (fun a s' ⟨hs, ho⟩ => ?_) fun halt s' ⟨hs, cause, ho, hhalt⟩ => ?_)
  · exact ⟨hs, by rw [ho]; rfl⟩
  · exact ⟨hs, cause, by rw [ho]; rfl, hhalt⟩

/-- What comes next begins where the cursor is, and it has moved past all tokens that a success
uses at least. -/
theorem tracks_bind {r : Parse α k (tokens.drop s.index).length} {f : α → Reader β}
    {next : (a : α) → (rest : List Token) → rest.length + k ≤ (tokens.drop s.index).length →
      Parse β j rest.length} (h : Tracks tokens x s r.outcome)
    (hnext : ∀ a s', s'.index ≤ tokens.length → s.index + k ≤ s'.index → ∀ used,
      Tracks tokens (f a) s' (next a (tokens.drop s'.index) used).outcome) :
    Tracks tokens (x >>= f) s (r.andThen next).outcome := by
  refine ends_bind.mpr (h.imp (fun a s' ⟨hs, ho⟩ => ?_) fun halt s' ⟨hs, cause, ho, hhalt⟩ => ?_)
  · cases r with
    | failed cause rest within => cases ho
    | done a' rest used =>
      cases ho
      rw [outcome_andThen_done]
      have hused := used
      rw [List.length_drop, List.length_drop] at hused
      have hforward := hs.forward
      have hwithin := hs.within
      exact (hnext a s' hwithin (by omega) used).behind hs
  · cases r with
    | done a rest used => cases ho
    | failed cause' rest within =>
      cases ho
      exact ⟨hs, cause, rfl, hhalt⟩

/-- What the reading makes of the tokens tells how the step with the cursor ends. -/
theorem Tracks.outcome {result : Except ParseFault α} (h : Tracks tokens x s (result, rest)) :
    ∃ s', x.outcome s = (result.mapError (Halt.fault ∘ .ofParse tokens rest), s') ∧
      rest = tokens.drop s'.index ∧ Leads tokens s s' := by
  unfold Tracks Ends at h
  unfold Reader.outcome
  cases hx : x s with
  | ok a s' =>
    rw [hx] at h
    obtain ⟨hs, ho⟩ := h
    obtain ⟨rfl, rfl⟩ := Prod.mk.inj ho
    exact ⟨s', rfl, rfl, hs⟩
  | error halt s' =>
    rw [hx] at h
    obtain ⟨hs, cause, ho, rfl⟩ := h
    obtain ⟨rfl, rfl⟩ := Prod.mk.inj ho
    exact ⟨s', rfl, rfl, hs⟩

section Tokens

variable (hs : s.index ≤ tokens.length)
include hs

theorem tracks_has {y : Reader α}
    (hyes : ∀ t, tokens.drop s.index = t :: tokens.drop s.next.index →
      s.next.index ≤ tokens.length → Tracks tokens x s o)
    (hno : tokens.drop s.index = [] → Tracks tokens y s o) :
    Tracks tokens (do if ← has tokens 0 then x else y) s o := by
  refine tracks_step (has_eq 0 s) (leads_refl hs) ?_
  cases hdrop : tokens.drop s.index with
  | nil =>
    have hlength := List.drop_eq_nil_iff.mp hdrop
    rw [decide_eq_false (by omega), if_neg Bool.false_ne_true]
    exact hno hdrop
  | cons t rest =>
    have hlength := lt_length_of_drop hdrop
    rw [decide_eq_true (by omega), if_pos rfl]
    exact hyes t (by rw [drop_next hdrop, hdrop]) hlength

theorem tracks_peek {p : Pattern} {y : Reader α}
    (hyes : Pattern.allFit [p] (tokens.drop s.index) = true → Tracks tokens x s o)
    (hno : Pattern.allFit [p] (tokens.drop s.index) = false → Tracks tokens y s o) :
    Tracks tokens (do if ← peek tokens [p] then x else y) s o := by
  refine tracks_step (peek_eq [p] s) (leads_refl hs) ?_
  cases hfit : Pattern.allFit [p] (tokens.drop s.index) with
  | true => exact hyes hfit
  | false => exact hno hfit

/-- A look at the text of the next token, which stays. -/
theorem tracks_ahead {y : Reader α}
    (hyes : ∀ t, tokens.drop s.index = t :: tokens.drop s.next.index → t.literal = text →
      Tracks tokens x s o)
    (hno : Avoids [text] (tokens.drop s.index) → Tracks tokens y s o) :
    Tracks tokens (do if ← peek tokens [.literal text] then x else y) s o := by
  refine tracks_peek hs (fun hfit => ?_) fun hfit => hno (avoids_iff.mpr hfit)
  have hmeets : ¬Avoids [text] (tokens.drop s.index) := by simpa [avoids_iff] using hfit
  obtain ⟨t, hdrop, ht⟩ := exists_next hmeets
  exact hyes t hdrop (List.mem_singleton.mp ht)

/-- The next token is used if it has the text. -/
theorem tracks_accept {y : Reader α}
    (hyes : ∀ t, tokens.drop s.index = t :: tokens.drop s.next.index → t.literal = text →
      s.next.index ≤ tokens.length → Tracks tokens x s.next o)
    (hno : Avoids [text] (tokens.drop s.index) → Tracks tokens y s o) :
    Tracks tokens (do if ← accept tokens [.literal text] then x else y) s o := by
  have haccept := accept_eq [.literal text] hs
  by_cases h : Avoids [text] (tokens.drop s.index)
  · rw [if_neg (by simpa using avoids_iff.mp h)] at haccept
    exact tracks_step haccept (leads_refl hs) (hno h)
  · obtain ⟨t, hdrop, ht⟩ := exists_next h
    rw [if_pos (by simpa [avoids_iff] using h)] at haccept
    have hleads := leads_next hdrop
    exact tracks_step haccept hleads (hyes t hdrop (List.mem_singleton.mp ht) hleads.within)

theorem tracks_mark (text : String) :
    Tracks tokens (accept tokens [.literal text]) s
      (Rule.accept text (tokens.drop s.index)).outcome := by
  have haccept := accept_eq [.literal text] hs
  by_cases h : Avoids [text] (tokens.drop s.index)
  · rw [if_neg (by simpa using avoids_iff.mp h)] at haccept
    exact tracks_of_ok haccept (leads_refl hs) (returns_accept_of_avoids h)
  · obtain ⟨t, hdrop, ht⟩ := exists_next h
    rw [if_pos (by simpa [avoids_iff] using h)] at haccept
    refine tracks_of_ok haccept (leads_next hdrop) ?_
    rw [hdrop]
    exact returns_accept (List.mem_singleton.mp ht)

theorem tracks_peekAny {options : List String} {f : Option String → Reader α}
    (hyes : ∀ t, tokens.drop s.index = t :: tokens.drop s.next.index → t.literal ∈ options →
      Tracks tokens (f (some t.literal)) s o)
    (hno : Avoids options (tokens.drop s.index) → Tracks tokens (f none) s o) :
    Tracks tokens (peekAny tokens options >>= f) s o := by
  have hpeek : peekAny tokens options s = .ok _ s := peekAny_eq options s
  by_cases h : Avoids options (tokens.drop s.index)
  · rw [firstFit?_of_avoids h] at hpeek
    exact tracks_step hpeek (leads_refl hs) (hno h)
  · obtain ⟨t, hdrop, ht⟩ := exists_next h
    rw [hdrop, firstFit?_of_mem ht] at hpeek
    exact tracks_step hpeek (leads_refl hs) (hyes t hdrop ht)

theorem tracks_consume (p : Pattern) (what : String) :
    Tracks tokens (consume tokens p what) s (Rule.expect p what (tokens.drop s.index)).outcome := by
  refine tracks_peek hs (fun hfit => ?_) fun hfit => ?_
  · cases hdrop : tokens.drop s.index with
    | nil => simp [hdrop, Pattern.allFit] at hfit
    | cons t rest =>
      rw [hdrop] at hfit
      refine tracks_of_ok (advance_eq hdrop) (leads_next hdrop) ?_
      have ht : p.fits t = true := by simpa [Pattern.allFit] using hfit
      rw [drop_next hdrop, Rule.expect, if_pos ht]
      rfl
  · refine tracks_refuse rfl hs ?_
    cases hdrop : tokens.drop s.index with
    | nil => rfl
    | cons t rest =>
      rw [hdrop] at hfit
      have ht : ¬p.fits t = true := by simpa [Pattern.allFit] using hfit
      rw [Rule.expect, if_neg ht]
      rfl

theorem tracks_keyword (text : String) :
    Tracks tokens (keyword tokens text) s (Rule.keyword text (tokens.drop s.index)).outcome :=
  tracks_consume hs _ text

theorem tracks_sign (text : String) :
    Tracks tokens (sign tokens text) s (Rule.sign text (tokens.drop s.index)).outcome :=
  tracks_consume hs _ _

theorem tracks_identifier :
    Tracks tokens (identifier tokens) s (Rule.identifier (tokens.drop s.index)).outcome :=
  tracks_map Token.literal (tracks_consume hs _ _)

end Tokens

end Tracking

end BlockScript.Descent
