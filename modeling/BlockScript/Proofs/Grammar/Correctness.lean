import BlockScript.Program
import BlockScript.Proofs.Grammar.Soundness
import BlockScript.Proofs.Grammar.Uniqueness
/-!
# Reading is exactly the grammar

The tree that is read from a text is one that the grammar derives from all of its tokens, and where
the grammar derives a tree with proper names and numbers of a readable size, this tree is read.
-/
namespace BlockScript.Grammar

open Reading

theorem readProgram_eq_applyRule {text : String} {ts : List Token} (h : tokensOf text = .ok ts) :
    readProgram text = (applyRule Rule.source ts ts).1 := by
  rw [readProgram, readAs, h]
  rfl

theorem readProgram_eq_ok_iff {text : String} {ts : List Token} (h : tokensOf text = .ok ts)
    {tree : Node} : readProgram text = .ok tree ↔ ∃ rest, (Rule.source ts).Returns tree rest := by
  rw [readProgram_eq_applyRule h, applyRule]
  constructor
  · intro hread
    split at hread
    · next a rest ha =>
      cases hread
      exact ⟨rest, ha⟩
    · cases hread
  · rintro ⟨rest, hread⟩
    rw [hread]

theorem allShaped_of_tokensOf {text : String} {ts : List Token} (h : tokensOf text = .ok ts) :
    AllShaped ts := by
  unfold tokensOf at h
  cases hs : scan text with
  | error e =>
    rw [hs] at h
    cases h
  | ok tokens =>
    rw [hs] at h
    cases h
    exact shaped_of_scan hs

/-- A tree that is read is derived from all tokens of the text. -/
theorem derives_of_readProgram {text : String} {tree : Node} (h : readProgram text = .ok tree) :
    ∃ ts, tokensOf text = .ok ts ∧ AllShaped ts ∧
      Nonempty (Derivation anyLeaf (.source tree) ts []) := by
  cases hts : tokensOf text with
  | ok ts =>
    obtain ⟨rest, hreturns⟩ := (readProgram_eq_ok_iff hts).mp h
    exact ⟨ts, rfl, allShaped_of_tokensOf hts, ((source_sound ts).of_returns hreturns).2⟩
  | error fault =>
    rw [readProgram, readAs, hts] at h
    cases h

/-- Reading the tokens of a text fails at a place in it or for too many digits. -/
theorem isPlaced_or_tooManyDigits {ts : List Token} {cause : ParseFault} (hs : AllShaped ts)
    (h : (Rule.source ts).outcome.1 = .error cause) :
    cause.isPlaced = true ∨ cause = .tooManyDigits := by
  obtain ⟨taken, hts, -, hfault⟩ := Rule.takes_source ts
  refine (hfault cause h).imp_right fun ⟨t, ht, hnumber⟩ => ?_
  exact eq_tooManyDigits_of_shaped (hs t (hts ▸ List.mem_append_left _ ht)) hnumber

/-- On the tokens of a text, what is read as a program is derivable, and what is derivable with
proper names and readable integers is read; such a derivation is the only one. -/
theorem readProgram_exactly_derivable {text : String} {ts : List Token}
    (h : tokensOf text = .ok ts) :
    (∀ tree, readProgram text = .ok tree → Nonempty (Derivation anyLeaf (.source tree) ts [])) ∧
      (∀ tree, Derivation plainLeaf (.source tree) ts [] → readProgram text = .ok tree) ∧
      Subsingleton (Σ tree, Derivation plainLeaf (.source tree) ts []) := by
  have hs := allShaped_of_tokensOf h
  refine ⟨fun tree hread => ?_, fun tree d => ?_, ⟨?_⟩⟩
  · obtain ⟨ts', hts', -, hd⟩ := derives_of_readProgram hread
    cases h.symm.trans hts'
    exact hd
  · exact (readProgram_eq_ok_iff h).mpr ⟨[], d.accepts hs rfl⟩
  · rintro ⟨tree, d⟩ ⟨tree', d'⟩
    obtain ⟨heq, -, hd⟩ := d.same d' hs rfl rfl rfl (d.only hs rfl)
    cases heq
    rw [eq_of_heq hd]

theorem readProgram_exactly_derivable_sum :
    tokensOf "LET x = 1 + 2;" = .ok [⟨.identifier, "LET", 0⟩, ⟨.identifier, "x", 4⟩,
      ⟨.operator, "=", 6⟩, ⟨.integer, "1", 8⟩, ⟨.operator, "+", 10⟩, ⟨.integer, "2", 12⟩,
      ⟨.operator, ";", 13⟩] ∧
    readProgram "LET x = 1 + 2;" = .ok (.source [.field "x" none false
      (.binary "+" (.literal (.integer 1) none) (.literal (.integer 2) none) none) none] []) := by
  have htokens : tokensOf "LET x = 1 + 2;" = .ok [⟨.identifier, "LET", 0⟩, ⟨.identifier, "x", 4⟩,
      ⟨.operator, "=", 6⟩, ⟨.integer, "1", 8⟩, ⟨.operator, "+", 10⟩, ⟨.integer, "2", 12⟩,
      ⟨.operator, ";", 13⟩] := by
    cbv
  have hone : plainLeaf ⟨.integer, "1", 8⟩ := ⟨by decide, by decide⟩
  have htwo : plainLeaf ⟨.integer, "2", 12⟩ := ⟨by decide, by decide⟩
  have hx : plainLeaf ⟨.identifier, "x", 4⟩ := ⟨by decide, by decide⟩
  exact ⟨htokens, (readProgram_exactly_derivable htokens).2.1 _
    (.source (.fieldsCons rfl .constNone ⟨rfl, hx⟩ .typeNone
      (.initialSome rfl (.operation (.operandTighter rfl (.operation (.operandTighter rfl
        (.operation (.operandTighter rfl (.operation (.operandTightest rfl
          (.secondary (.integer ⟨rfl, hone⟩) .membersNil)) .operationsNil))
          (.operationsCons (by decide) (.operandTighter rfl (.operation (.operandTightest rfl
            (.secondary (.integer ⟨rfl, htwo⟩) .membersNil)) .operationsNil))
            .operationsNil))) .operationsNil)) .operationsNil)) rfl .fieldsNil) .methodsNil)⟩

end BlockScript.Grammar

namespace BlockScript

def programOf (text : String) : Node := (readProgram text).toOption.getD .absent

theorem readProgram_of_isOk {text : String} (h : (readProgram text).isOk = true) :
    readProgram text = .ok (programOf text) := by
  unfold programOf
  cases hread : readProgram text with
  | ok tree => rfl
  | error fault => simp [hread, Except.isOk, Except.toBool] at h

end BlockScript
