import BlockScript.Proofs.Token.Shape
import BlockScript.Proofs.Token.Span
/-!
# Tokens tile the text

A text falls into gaps of layout and the texts of its tokens, in order. Scanning finds such a
tiling, in which each token is what can be read in front of the characters behind it; and it finds
every one of them, so a text that is put together from tokens is scanned as these tokens.
-/
namespace BlockScript

open Text

def Gap (cs : List Char) : Prop := ∀ c ∈ cs, isLayout c = true

theorem Gap.cons {c : Char} {cs : List Char} (hc : isLayout c = true) (h : Gap cs) :
    Gap (c :: cs) :=
  List.forall_mem_cons.mpr ⟨hc, h⟩

/-- The characters that begin at `index`, behind the token `last`, are the texts of the tokens with
gaps around them, and `P` holds of each token with the token before it and the characters behind. -/
inductive Tiling (P : Option Token → Token → List Char → Prop) :
    Option Token → Nat → List Char → List Token → Prop
  | nil {last : Option Token} {index : Nat} {gap : List Char} (layout : Gap gap) :
      Tiling P last index gap []
  | cons {last : Option Token} {index : Nat} {gap rest : List Char} {t : Token} {ts : List Token}
      (layout : Gap gap) (place : t.index = index + gap.length) (own : P last t rest)
      (more : Tiling P (some t) t.finish rest ts) :
      Tiling P last index (gap ++ (t.literal.toList ++ rest)) (t :: ts)

namespace Tiling

variable {P : Option Token → Token → List Char → Prop} {last : Option Token} {index : Nat}
  {cs : List Char} {t : Token} {ts us : List Token}

/-- A token at the beginning of the characters. -/
theorem first {rest : List Char} (own : P last t rest) (more : Tiling P (some t) t.finish rest ts) :
    Tiling P last t.index (t.literal.toList ++ rest) (t :: ts) := by
  have hgap : Gap [] := by simp [Gap]
  exact @cons P last t.index [] rest t ts hgap rfl own more

theorem layout_cons {c : Char} (hc : isLayout c = true) (h : Tiling P last (index + 1) cs ts) :
    Tiling P last index (c :: cs) ts := by
  cases h with
  | nil layout => exact .nil (layout.cons hc)
  | cons layout place own more =>
    exact .cons (layout.cons hc) (by rw [place, List.length_cons]; omega) own more

theorem index_le (h : Tiling P last index cs ts) : ∀ t ∈ ts, index ≤ t.index := by
  induction h with
  | nil => simp
  | @cons last index gap rest t ts layout place own more ih =>
    refine List.forall_mem_cons.mpr ⟨by omega, fun u hu => ?_⟩
    have hle : t.finish ≤ u.index := ih u hu
    have hfinish : t.index ≤ t.finish := Nat.le_add_right _ _
    omega

/-- The tokens come one after another and do not overlap. -/
theorem pairwise_finish_le (h : Tiling P last index cs ts) :
    ts.Pairwise fun s t => s.finish ≤ t.index := by
  induction h with
  | nil => exact .nil
  | cons layout place own more ih => exact .cons more.index_le ih

/-- Each token's text stands at its index. -/
theorem slice (h : Tiling P last index cs ts) :
    ∀ t ∈ ts, ∃ before after, cs = before ++ (t.literal.toList ++ after) ∧
      t.index = index + before.length := by
  induction h with
  | nil => simp
  | @cons last index gap rest t ts layout place own more ih =>
    refine List.forall_mem_cons.mpr ⟨⟨gap, rest, rfl, place⟩, fun u hu => ?_⟩
    obtain ⟨before, after, rfl, hu⟩ := ih u hu
    refine ⟨gap ++ (t.literal.toList ++ before), after, by simp, ?_⟩
    simp only [hu, Token.finish, place, List.length_append, String.length_toList]
    omega

/-- A character that is in no token is layout. -/
theorem isLayout_of_outside (h : Tiling P last index cs ts) (i : Nat) (hi : i < cs.length)
    (houtside : ∀ t ∈ ts, index + i < t.index ∨ t.finish ≤ index + i) : isLayout cs[i] = true := by
  induction h generalizing i with
  | nil layout => exact layout _ (List.getElem_mem hi)
  | @cons last index gap rest t ts layout place own more ih =>
    by_cases hgap : i < gap.length
    · rw [List.getElem_append_left hgap]
      exact layout _ (List.getElem_mem hgap)
    · obtain ⟨ht, hmore⟩ := List.forall_mem_cons.mp houtside
      simp only [Token.finish, place] at ht
      have hbehind : gap.length + t.literal.length ≤ i := by omega
      have hplace : t.finish + (i - gap.length - t.literal.length) = index + i := by
        simp only [Token.finish, place]
        omega
      simp only [List.length_append, String.length_toList] at hi
      rw [List.getElem_append_right (by omega),
        List.getElem_append_right (by rw [String.length_toList]; omega)]
      simp only [String.length_toList]
      exact ih _ (by omega) (by rwa [hplace])

end Tiling

def Token.Stands (t : Token) (rest : List Char) : Prop :=
  ∃ c tail, t.literal.toList = c :: tail ∧ isLayout c = false ∧
    tokenTail? c (tail ++ rest) = some (t.kind, tail)

theorem Token.Stands.fits {t : Token} {rest : List Char} (h : t.Stands rest) :
    t.kind.fits t.literal.toList = true := by
  obtain ⟨c, tail, hliteral, -, htail⟩ := h
  rw [hliteral]
  exact fits_of_tokenTail? htail

abbrev RawTiling := Tiling fun _ => Token.Stands

theorem scanFrom_gap {index : Nat} {gap : List Char} (h : Gap gap) (cs : List Char) :
    scanFrom index (gap ++ cs) = scanFrom (index + gap.length) cs := by
  induction gap generalizing index with
  | nil => rfl
  | cons c gap ih =>
    obtain ⟨hc, hgap⟩ := List.forall_mem_cons.mp h
    rw [List.cons_append, scanFrom, if_pos hc, ih hgap, List.length_cons]
    congr 1
    omega

theorem scanFrom_token {t : Token} {rest : List Char} (h : t.Stands rest) :
    scanFrom t.index (t.literal.toList ++ rest) = (scanFrom t.finish rest).map (t :: ·) := by
  obtain ⟨c, tail, hliteral, hlayout, htail⟩ := h
  have hlength : t.finish = t.index + (tail.length + 1) := by
    rw [Token.finish, ← String.length_toList, hliteral, List.length_cons]
  have htoken : t = ⟨t.kind, String.ofList (c :: tail), t.index⟩ := by
    rw [← hliteral, String.ofList_toList]
  rw [hliteral, List.cons_append, scanFrom, if_neg (by simp [hlayout])]
  simp only [htail, List.drop_left]
  rw [← hlength, ← htoken]
  cases scanFrom t.finish rest <;> rfl

theorem tiling_of_scanFrom {index : Nat} {cs : List Char} {ts : List Token}
    (h : scanFrom index cs = .ok ts) (last : Option Token) : RawTiling last index cs ts := by
  induction index, cs using scanFrom.induct generalizing ts last with
  | case1 index =>
    rw [scanFrom] at h
    cases h
    exact .nil (by simp [Gap])
  | case2 index c cs hc ih =>
    rw [scanFrom, if_pos hc] at h
    exact (ih h last).layout_cons hc
  | case3 index c cs hc htail => simp [scanFrom, hc, htail] at h
  | case4 index c cs hc kind tail htail tokens htokens ih =>
    simp only [scanFrom, hc, htail, htokens, Bool.false_eq_true, if_false] at h
    cases h
    obtain ⟨rest, rfl⟩ := tokenTail?_isPrefix htail
    rw [List.drop_left] at ih htokens
    have hfirst : Token.Stands ⟨kind, String.ofList (c :: tail), index⟩ rest :=
      ⟨c, tail, by simp, by simpa using hc, htail⟩
    have hplace : (⟨kind, String.ofList (c :: tail), index⟩ : Token).finish =
        index + (tail.length + 1) := by
      simp [Token.finish, Nat.add_comm]
    have htiling : RawTiling last index ((String.ofList (c :: tail)).toList ++ rest)
        (⟨kind, String.ofList (c :: tail), index⟩ :: tokens) :=
      Tiling.first hfirst (hplace ▸ ih htokens _)
    simpa using htiling
  | case5 index c cs hc kind tail htail e he ih => simp [scanFrom, hc, htail, he] at h

/-- Scanning finds exactly the tilings by tokens that stand where they are. -/
theorem scanFrom_eq_ok_iff {last : Option Token} {index : Nat} {cs : List Char} {ts : List Token} :
    scanFrom index cs = .ok ts ↔ RawTiling last index cs ts := by
  refine ⟨fun h => tiling_of_scanFrom h last, fun h => ?_⟩
  induction h with
  | @nil last index gap layout =>
    rw [← List.append_nil gap, scanFrom_gap layout, scanFrom]
  | cons layout place own more ih =>
    rw [scanFrom_gap layout, ← place, scanFrom_token own, ih]
    rfl

end BlockScript
