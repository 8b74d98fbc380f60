import BlockScript.Proofs.Grammar.Correctness
import BlockScript.Proofs.Token.Folding
import BlockScript.Proofs.Token.Pattern
/-!
# The tokens of a text

The tokens of a text tile it, also after signs have become part of numbers: every character is in
one token, or it is layout, and each token has a text of its kind.
-/
namespace BlockScript

open Text

theorem Token.Shaped.literal_ne {t : Token} (h : t.Shaped) : t.literal ≠ "" := by
  intro hempty
  unfold Token.Shaped at h
  cases hk : t.kind <;> simp_all [Token.isNumber, splitSign, TokenKind.fits]

/-- The tokens of a text stand in it in order, apart from each other, each at its index. What is
outside of them is layout, and each has a text of its kind, a number with one sign at most. -/
theorem tokens_tile_text {text : String} {ts : List Token} (h : tokensOf text = .ok ts) :
    (ts.Pairwise fun s t => s.index < t.index) ∧
      (ts.Pairwise fun s t => s.finish ≤ t.index) ∧
      (∀ t ∈ ts, t.finish ≤ text.length ∧
        t.literal.toList = (text.toList.drop t.index).take t.literal.length) ∧
      (∀ (i : Nat) (hi : i < text.toList.length), (∀ t ∈ ts, i < t.index ∨ t.finish ≤ i) →
        text.toList[i] ∈ [' ', '\t', '\n', '\x0C', '\r']) ∧
      ∀ t ∈ ts, t.literal.toList ∈ t.pattern := by
  have htiling := tokensOf_eq_ok_iff.mp h
  have hshaped := Grammar.allShaped_of_tokensOf h
  have happart := htiling.pairwise_finish_le
  have hlength : ∀ t ∈ ts, t.index < t.finish := fun t ht => by
    have hpos : 0 < t.literal.length :=
      Nat.pos_of_ne_zero fun hzero =>
        (hshaped t ht).literal_ne (String.length_eq_zero_iff.mp hzero)
    simp only [Token.finish]
    omega
  refine ⟨?_, happart, fun t ht => ?_, fun i hi houtside => ?_, fun t ht => (hshaped t ht).mem_pattern⟩
  · exact happart.imp_of_mem fun hs _ hle => (hlength _ hs).trans_le hle
  · obtain ⟨before, after, htext, hindex⟩ := htiling.slice t ht
    have hplace : t.index = before.length := by simpa using hindex
    constructor
    · rw [← String.length_toList, htext]
      simp only [Token.finish, hplace, List.length_append, String.length_toList]
      omega
    · rw [htext, hplace, List.drop_left, ← String.length_toList, List.take_left]
  · have hlayout := htiling.isLayout_of_outside i hi (by simpa using houtside)
    simpa [isLayout, or_assoc] using hlayout

/-- A signed decimal, and a string with an escaped quote and white space in it. -/
theorem tokens_tile_text_signed :
    tokensOf "\t(-1.50 , \"a \\\" b\")" = .ok [⟨.operator, "(", 1⟩, ⟨.decimal, "-1.50", 2⟩,
      ⟨.operator, ",", 8⟩, ⟨.string, "\"a \\\" b\"", 10⟩, ⟨.operator, ")", 18⟩] ∧
    "-1.50".toList ∈ (⟨.decimal, "-1.50", 2⟩ : Token).pattern := by
  have htokens : tokensOf "\t(-1.50 , \"a \\\" b\")" = .ok [⟨.operator, "(", 1⟩,
      ⟨.decimal, "-1.50", 2⟩, ⟨.operator, ",", 8⟩, ⟨.string, "\"a \\\" b\"", 10⟩,
      ⟨.operator, ")", 18⟩] := by
    cbv
  obtain ⟨-, -, -, -, hpattern⟩ := tokens_tile_text htokens
  exact ⟨htokens, hpattern _ (by simp)⟩

end BlockScript
