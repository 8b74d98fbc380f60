import BlockScript.Token.Scan
import Mathlib.Data.List.TakeWhile
/-!
# Where tokens stand

The text of a token is a stretch of the source, so it ends within the source; and a sign that is
folded into a number stands directly in front of it, so the folded token ends where the number did.
-/
namespace BlockScript

open Text

theorem numberTail_isPrefix (cs : List Char) : (numberTail cs).2 <+: cs := by
  have hsplit : cs.takeWhile isAsciiDigit ++ cs.dropWhile isAsciiDigit = cs :=
    List.takeWhile_append_dropWhile
  have hwhole : cs.takeWhile isAsciiDigit <+: cs := List.takeWhile_prefix _
  unfold numberTail
  dsimp only
  split
  · next d rest hcs =>
    split
    · -- The digits behind the point are the first of what follows it.
      rw [hcs] at hsplit
      refine ⟨rest.dropWhile isAsciiDigit, ?_⟩
      rw [List.append_assoc, List.cons_append, List.cons_append, List.takeWhile_append_dropWhile,
        hsplit]
    · exact hwhole
  · exact hwhole

theorem characterTail?_isPrefix {cs tail : List Char} (h : characterTail? cs = some tail) :
    tail <+: cs := by
  unfold characterTail? at h
  split at h
  · cases h
    exact ⟨_, rfl⟩
  · split at h
    · cases h
    · cases h
      exact ⟨_, rfl⟩
  · split at h
    · cases h
      exact ⟨_, rfl⟩
    · cases h
  · cases h

theorem stringTail?_isPrefix {cs tail : List Char} (h : stringTail? cs = some tail) :
    tail <+: cs := by
  induction cs using stringTail?.induct generalizing tail with
  | case1 => simp [stringTail?] at h
  | case2 cs =>
    simp only [stringTail?, Option.some.injEq] at h
    subst h
    exact ⟨cs, rfl⟩
  | case3 c cs hc => simp [stringTail?, hc] at h
  | case4 c cs hc ih =>
    simp only [stringTail?, hc, Bool.false_eq_true, if_false, Option.map_eq_some_iff] at h
    obtain ⟨inner, hinner, rfl⟩ := h
    have hprefix : inner <+: cs := ih hinner
    simpa using hprefix
  | case5 c cs hquote hescape hc ih =>
    rw [stringTail?.eq_4 _ _ hquote hescape, if_pos hc, Option.map_eq_some_iff] at h
    obtain ⟨inner, hinner, rfl⟩ := h
    have hprefix : inner <+: cs := ih hinner
    simpa using hprefix
  | case6 c cs hquote hescape hc =>
    rw [stringTail?.eq_4 _ _ hquote hescape, if_neg hc] at h
    cases h

theorem operatorTail_isPrefix (c : Char) (cs : List Char) : operatorTail c cs <+: cs := by
  cases cs with
  | nil => exact List.prefix_rfl
  | cons d cs =>
    unfold operatorTail
    dsimp only
    split
    · exact ⟨cs, rfl⟩
    split
    · exact ⟨cs, rfl⟩
    · exact List.nil_prefix

/-- What belongs to a token after its first character stands there in the text. -/
theorem tokenTail?_isPrefix {c : Char} {cs tail : List Char} {kind : TokenKind}
    (h : tokenTail? c cs = some (kind, tail)) : tail <+: cs := by
  unfold tokenTail? at h
  split at h
  · cases h
    exact List.takeWhile_prefix _
  split at h
  · have hprefix : (numberTail cs).2 <+: cs := numberTail_isPrefix cs
    rw [Option.some.inj h] at hprefix
    exact hprefix
  split at h
  · obtain ⟨inner, hinner, heq⟩ := Option.map_eq_some_iff.mp h
    cases heq
    exact characterTail?_isPrefix hinner
  split at h
  · obtain ⟨inner, hinner, heq⟩ := Option.map_eq_some_iff.mp h
    cases heq
    exact stringTail?_isPrefix hinner
  split at h
  · cases h
  · cases h
    exact operatorTail_isPrefix c cs

/-- What is scanned from characters ends at the last of them at the latest. -/
theorem finish_le_of_scanFrom {index : Nat} {cs : List Char} {ts : List Token}
    (h : scanFrom index cs = .ok ts) : ∀ t ∈ ts, t.finish ≤ index + cs.length := by
  induction index, cs using scanFrom.induct generalizing ts with
  | case1 =>
    rw [scanFrom] at h
    cases h
    simp
  | case2 index c cs hc ih =>
    rw [scanFrom, if_pos hc] at h
    intro t ht
    have hle := ih h t ht
    simp only [List.length_cons]
    omega
  | case3 index c cs hc htail => simp [scanFrom, hc, htail] at h
  | case4 index c cs hc kind tail htail tokens htokens ih =>
    simp only [scanFrom, hc, htail, htokens, Bool.false_eq_true, if_false] at h
    cases h
    have hlength : tail.length ≤ cs.length := (tokenTail?_isPrefix htail).length_le
    intro t ht
    obtain rfl | ht := List.mem_cons.mp ht
    · simp only [Token.finish, String.length_ofList, List.length_cons]
      omega
    · have hle := ih htokens t ht
      simp only [List.length_drop, List.length_cons] at hle ⊢
      omega
  | case5 index c cs hc kind tail htail e he ih => simp [scanFrom, hc, htail, he] at h

theorem finish_signed {last : Option Token} {sign number : Token}
    (hf : sign.foldsInto last number = true) : (sign.signed number).finish = number.finish := by
  simp only [Token.foldsInto, Bool.and_eq_true, Token.isSign, Bool.or_eq_true, beq_iff_eq] at hf
  obtain ⟨⟨⟨⟨-, hsign⟩, -⟩, hindex⟩, -⟩ := hf
  have hlength : sign.literal.length = 1 := by
    obtain hsign | hsign := hsign <;> rw [hsign] <;> rfl
  simp only [Token.finish, Token.signed, String.length_append]
  omega

theorem finish_le_of_foldSignsAfter {last : Option Token} {ts : List Token} {bound : Nat}
    (h : ∀ t ∈ ts, t.finish ≤ bound) : ∀ t ∈ foldSignsAfter last ts, t.finish ≤ bound := by
  induction last, ts using foldSignsAfter.induct with
  | case1 => simp [foldSignsAfter]
  | case2 last t => simpa [foldSignsAfter] using h
  | case3 last t n rest hf ih =>
    rw [foldSignsAfter, if_pos hf]
    simp only [List.mem_cons, forall_eq_or_imp] at h ⊢
    exact ⟨(finish_signed hf).trans_le h.2.1, ih h.2.2⟩
  | case4 last t n rest hf ih =>
    rw [foldSignsAfter, if_neg hf]
    simp only [List.mem_cons, forall_eq_or_imp] at h ih ⊢
    exact ⟨h.1, ih h.2⟩

/-- Every token of a text ends within the text. -/
theorem finish_le_of_scan {text : String} {ts : List Token} (h : scan text = .ok ts) :
    ∀ t ∈ ts, t.finish ≤ text.length := by
  unfold scan at h
  cases hs : scanFrom 0 text.toList with
  | error e =>
    rw [hs] at h
    cases h
  | ok raw =>
    rw [hs] at h
    cases h
    have hraw := finish_le_of_scanFrom hs
    rw [Nat.zero_add, String.length_toList] at hraw
    exact finish_le_of_foldSignsAfter hraw

end BlockScript
