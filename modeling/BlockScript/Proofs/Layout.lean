import BlockScript.Proofs.Grammar.Places
/-!
# Layout does not matter

The tokens of a text may be written with other layout between them: any before the first and behind
the last, and some between any two. Each is read again as itself, a sign and its number in one piece
or apart as they were. So the same program is read, or reading fails for the same reason at the same
token.
-/
namespace BlockScript

open Text Grammar

/-- The texts of the tokens with gaps in front of each and behind the last. -/
def spread (gap : Nat → List Char) : List Token → List Char
  | [] => gap 0
  | t :: ts => gap 0 ++ (t.literal.toList ++ spread (fun i => gap (i + 1)) ts)

/-- The gaps are layout, and there is some between any two of `count` tokens. -/
structure Spaces (gap : Nat → List Char) (count : Nat) : Prop where
  layout : ∀ i ≤ count, Gap (gap i)
  apart : ∀ i, 0 < i → i < count → gap i ≠ []

theorem Spaces.tail {gap : Nat → List Char} {count : Nat} (h : Spaces gap (count + 1)) :
    Spaces (fun i => gap (i + 1)) count where
  layout i hi := h.layout (i + 1) (by omega)
  apart i _ hi := h.apart (i + 1) (by omega) (by omega)

theorem spread_eq_append (gap : Nat → List Char) (ts : List Token) :
    ∃ rest, spread gap ts = gap 0 ++ rest ∧ (ts = [] → rest = []) := by
  cases ts with
  | nil => exact ⟨[], by simp [spread], fun _ => rfl⟩
  | cons t ts => exact ⟨_, rfl, by simp⟩

variable {last last' : Option Token} {index : Nat} {cs : List Char} {ts : List Token}
  {gap : Nat → List Char}

/-- The gap behind a token ends it. -/
theorem halts_spread (h : Spaces gap (ts.length + 1)) (rest : List Char) :
    Halts rest (spread (fun i => gap (i + 1)) ts) := by
  obtain ⟨rest', heq, hnil⟩ := spread_eq_append (fun i => gap (i + 1)) ts
  rw [heq]
  refine halts_of_gap (h.layout 1 (by omega)) fun hgap => hnil ?_
  by_contra hne
  have hlength : 0 < ts.length := List.length_pos_iff.mpr hne
  exact h.apart 1 (by omega) (by omega) hgap

/-- Tokens that are spread out are read as they were. -/
theorem tiling_spread (h : Tiling Token.Reads last index cs ts) (hgap : Spaces gap ts.length)
    (hlast : last'.any Token.endsOperand = last.any Token.endsOperand) (place : Nat) :
    ∃ us, Tiling Token.Reads last' place (spread gap ts) us ∧
      us.map Token.unplaced = ts.map Token.unplaced := by
  induction h generalizing last' gap place with
  | nil layout => exact ⟨[], .nil (hgap.layout 0 (Nat.zero_le _)), rfl⟩
  | @cons last index _ rest t ts layout _ own more ih =>
    let u : Token := { t with index := place + (gap 0).length }
    have hbehind : (some u).any Token.endsOperand = (some t).any Token.endsOperand := rfl
    obtain ⟨us, hus, hsame⟩ := ih hgap.tail hbehind u.finish
    have hown : u.Reads last' (spread (fun i => gap (i + 1)) ts) :=
      ((own.move _).congr_last hlast).of_halts (halts_spread hgap rest)
    exact ⟨u :: us, .cons (hgap.layout 0 (Nat.zero_le _)) rfl hown hus,
      congrArg (t.unplaced :: ·) hsame⟩

/-- With other layout a text has tokens of the same kinds and texts, and the same program is read,
or reading fails for the same reason at the same of the tokens. -/
theorem layout_irrelevant {text : String} (h : tokensOf text = .ok ts)
    (hgap : Spaces gap ts.length) :
    ∃ us, tokensOf (String.ofList (spread gap ts)) = .ok us ∧
      us.map (fun t => (t.kind, t.literal)) = ts.map (fun t => (t.kind, t.literal)) ∧
      ((∃ tree, readProgram text = .ok tree ∧
          readProgram (String.ofList (spread gap ts)) = .ok tree) ∨
        ∃ fault count, readProgram text = .error (.ofParse ts (ts.drop count) fault) ∧
          readProgram (String.ofList (spread gap ts)) =
            .error (.ofParse us (us.drop count) fault)) := by
  obtain ⟨us, htiling, hsame⟩ := tiling_spread (tokensOf_eq_ok_iff.mp h) hgap rfl 0
  have hus : tokensOf (String.ofList (spread gap ts)) = .ok us :=
    tokensOf_eq_ok_iff.mpr (by simpa using htiling)
  exact ⟨us, hus, kinds_of_unplaced hsame, readProgram_alike h hus hsame⟩

/-- Each token, a signed number among them, on a line of its own. -/
theorem layout_irrelevant_lines :
    tokensOf "LET x=-1;" = .ok [⟨.identifier, "LET", 0⟩, ⟨.identifier, "x", 4⟩,
      ⟨.operator, "=", 5⟩, ⟨.integer, "-1", 6⟩, ⟨.operator, ";", 8⟩] ∧
    Spaces (fun _ => ['\n']) 5 ∧
    ∃ us, tokensOf "\nLET\nx\n=\n-1\n;\n" = .ok us ∧
      us.map (fun t => (t.kind, t.literal)) = [(.identifier, "LET"), (.identifier, "x"),
        (.operator, "="), (.integer, "-1"), (.operator, ";")] := by
  have htokens : tokensOf "LET x=-1;" = .ok [⟨.identifier, "LET", 0⟩, ⟨.identifier, "x", 4⟩,
      ⟨.operator, "=", 5⟩, ⟨.integer, "-1", 6⟩, ⟨.operator, ";", 8⟩] := by
    cbv
  have hspaces : Spaces (fun _ => ['\n']) 5 := ⟨fun _ _ => by simp [Gap, isLayout], by simp⟩
  obtain ⟨us, hus, hsame, -⟩ := layout_irrelevant htokens hspaces
  exact ⟨htokens, hspaces, us, hus, hsame⟩

end BlockScript
