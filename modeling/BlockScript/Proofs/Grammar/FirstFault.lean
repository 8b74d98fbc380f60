import BlockScript.Program
import BlockScript.Proofs.Grammar.Correctness
import BlockScript.Proofs.Grammar.Prefix
import BlockScript.Proofs.Token.Span
/-!
# The first fault of a program

Reading stops at the first token that no program has at this place. The tokens before it begin a
program, and with this token behind them no tokens do. The fault is reported at the token, or just
past the last one where the tokens came to their end too early.
-/
namespace BlockScript.Grammar

open Reading

variable {ts rest used : List Token} {fault : ParseFault} {index : Nat}

theorem applyRule_of_returns {α : Type} {k : Nat}
    {rule : (ts : List Token) → Parse α k ts.length} {a : α} (h : (rule ts).Returns a rest) :
    applyRule rule ts ts = (.ok a, rest) := by
  simp only [applyRule, show (rule ts).outcome = (.ok a, rest) from h]

theorem applyRule_of_fault {α : Type} {k : Nat}
    {rule : (ts : List Token) → Parse α k ts.length}
    (h : (rule ts).outcome = (.error fault, rest)) :
    applyRule rule ts ts = (.error (.ofParse ts rest fault), rest) := by
  simp only [applyRule, h]

theorem ofParse_eq_parse {e : ParseFault} :
    Fault.ofParse ts rest e = .parse fault index ↔
      e.isPlaced = true ∧ e = fault ∧ faultIndex ts rest = index := by
  cases e <;> simp [Fault.ofParse, ParseFault.isPlaced]

theorem finish_le_of_tokensOf {text : String} (h : tokensOf text = .ok ts) :
    ∀ t ∈ ts, t.finish ≤ text.length := by
  unfold tokensOf at h
  cases hs : scan text with
  | error e =>
    rw [hs] at h
    cases h
  | ok tokens =>
    rw [hs] at h
    cases h
    exact finish_le_of_scan hs

/-- A fault at the end of some of the tokens is reported within the text. -/
theorem faultIndex_le {bound : Nat} (h : ∀ t ∈ ts, t.finish ≤ bound) (hrest : rest <:+ ts) :
    faultIndex ts rest ≤ bound := by
  cases rest with
  | nil =>
    cases hlast : ts.getLast? with
    | none => simp [faultIndex, hlast]
    | some t =>
      have ht : t ∈ ts := List.mem_of_getLast? hlast
      simpa [faultIndex, hlast] using h t ht
  | cons t rest =>
    have ht : t ∈ ts := hrest.subset List.mem_cons_self
    have hle : t.index ≤ t.finish := Nat.le_add_right _ _
    exact hle.trans (h t ht)

/-- If the tokens of a text are no program, those before the fault begin one. The token at the
fault makes every continuation fail alike, and the fault is reported there; or it is reported behind
the last token, if there is none left. -/
theorem fault_at_first_misfit {text : String} (hts : tokensOf text = .ok ts)
    (h : applyRule Rule.source ts ts = (.error (.parse fault index), rest)) :
    ∃ used, ts = used ++ rest ∧
      (∃ more tree, applyRule Rule.source (used ++ more) (used ++ more) = (.ok tree, [])) ∧
      (∀ t after, rest = t :: after → index = t.index ∧
        ∀ after', applyRule Rule.source (used ++ t :: after') (used ++ t :: after') =
          (.error (.parse fault index), t :: after')) ∧
      (rest = [] → index = (ts.getLast?.map Token.finish).getD 0) ∧
      index ≤ text.length := by
  cases (guided_source ts.length).viable ts (Nat.le_refl _) with
  | reads tree used rest' split steady =>
    have hreturns : (Rule.source ts).Returns tree rest' := by
      rw [split]
      exact steady rest' (.inl rfl)
    cases h.symm.trans (applyRule_of_returns hreturns)
  | fails e used rest' split steady completed =>
    have hfails : ∀ us, us.head? = rest'.head? →
        applyRule Rule.source (used ++ us) (used ++ us) =
          (.error (.ofParse (used ++ us) us e), us) :=
      fun us hus => applyRule_of_fault (steady us hus)
    have hhere := hfails rest' rfl
    rw [← split, h] at hhere
    obtain ⟨hparse, rfl⟩ := Prod.mk.inj hhere
    obtain ⟨hplaced, rfl, hindex⟩ := ofParse_eq_parse.mp (Except.error.inj hparse).symm
    refine ⟨used, split, ?_, ?_, ?_, ?_⟩
    · obtain ⟨more, hmore⟩ := completed hplaced
      obtain ⟨tree, htree⟩ := hmore [] rfl
      rw [List.append_nil] at htree
      exact ⟨more, tree, applyRule_of_returns htree⟩
    · rintro t after rfl
      refine ⟨hindex.symm, fun after' => ?_⟩
      have hlike : Fault.ofParse (used ++ t :: after') (t :: after') e = .parse e index :=
        ofParse_eq_parse.mpr ⟨hplaced, rfl, hindex⟩
      rw [hfails (t :: after') rfl, hlike]
    · rintro rfl
      exact hindex.symm
    · rw [← hindex]
      exact faultIndex_le (finish_le_of_tokensOf hts) ⟨used, split.symm⟩

/-- A number where a sign has to stand. -/
theorem fault_at_first_misfit_number :
    tokensOf "LET x 1;" = .ok [⟨.identifier, "LET", 0⟩, ⟨.identifier, "x", 4⟩,
      ⟨.integer, "1", 6⟩, ⟨.operator, ";", 7⟩] ∧
    ∃ more tree, applyRule Rule.source
      ([⟨.identifier, "LET", 0⟩, ⟨.identifier, "x", 4⟩] ++ more)
      ([⟨.identifier, "LET", 0⟩, ⟨.identifier, "x", 4⟩] ++ more) = (.ok tree, []) := by
  have htokens : tokensOf "LET x 1;" = .ok [⟨.identifier, "LET", 0⟩, ⟨.identifier, "x", 4⟩,
      ⟨.integer, "1", 6⟩, ⟨.operator, ";", 7⟩] := by
    cbv
  have hfails : applyRule Rule.source
      [⟨.identifier, "LET", 0⟩, ⟨.identifier, "x", 4⟩, ⟨.integer, "1", 6⟩, ⟨.operator, ";", 7⟩]
      [⟨.identifier, "LET", 0⟩, ⟨.identifier, "x", 4⟩, ⟨.integer, "1", 6⟩, ⟨.operator, ";", 7⟩] =
      (.error (.parse (.expected "';'") 6), [⟨.integer, "1", 6⟩, ⟨.operator, ";", 7⟩]) := by
    cbv
  obtain ⟨used, hsplit, hprefix, -⟩ := fault_at_first_misfit htokens hfails
  have hsame : [⟨.identifier, "LET", 0⟩, ⟨.identifier, "x", 4⟩] ++
      [⟨.integer, "1", 6⟩, ⟨.operator, ";", 7⟩] = used ++
      [⟨.integer, "1", 6⟩, ⟨.operator, ";", 7⟩] := hsplit
  obtain rfl := List.append_cancel_right hsame
  exact ⟨htokens, hprefix⟩

end BlockScript.Grammar
