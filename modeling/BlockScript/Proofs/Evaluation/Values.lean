import BlockScript.Proofs.Decimal.Text
import BlockScript.Proofs.Evaluation.Constants
import BlockScript.Proofs.Evaluation.Standalone
import BlockScript.Proofs.Typing.Slots
import BlockScript.Reading
import Mathlib
/-!
# The values of programs that are read from texts

Literals of decimals have digits behind their point, and no operation gives a decimal without them.
So whatever comes up in a run, a decimal never looks like an integer, and no operation on decimals is
refused.
-/
namespace BlockScript

open Text

section Texts

/-- A number with digits behind its point is written with a point, or with an exponent. -/
theorem Decimal.Pointed.marked {d : Decimal} (h : d.Pointed) :
    '.' ∈ d.toText.toList ∨ 'E' ∈ d.toText.toList := by
  obtain ⟨s, n, e, rfl, he⟩ := h
  have hmagnitude : '.' ∈ magnitude n e ∨ 'E' ∈ magnitude n e := by
    unfold magnitude
    split
    · have hplaces : (-e).toNat ≠ 0 := by omega
      obtain ⟨hzero, -⟩ | ⟨w, f, heq, -⟩ := pointed_digits n (-e).toNat
      · exact absurd hzero hplaces
      · exact .inl (heq ▸ List.mem_append_right w List.mem_cons_self)
    · obtain ⟨d, -, heq⟩ | ⟨d, f, -, heq⟩ := scientific_digits n (adjusted n e) <;>
        simp [heq, exponentChars]
  rw [toText, String.toList_ofList, chars]
  exact hmagnitude.imp (List.mem_append_right _) (List.mem_append_right _)

/-- The numeral of an integer has neither. -/
theorem unmarked_numeral (n : Int) : '.' ∉ (numeral n).toList ∧ 'E' ∉ (numeral n).toList := by
  have hchars : ∀ c ∈ (numeral n).toList, c = '-' ∨ isAsciiDigit c = true := by
    intro c hc
    unfold numeral at hc
    split at hc <;> rw [String.toList_ofList] at hc
    · obtain rfl | hc := List.mem_cons.mp hc
      · exact .inl rfl
      · exact .inr (isAsciiDigit_of_mem_digits hc)
    · exact .inr (isAsciiDigit_of_mem_digits hc)
  exact ⟨fun h => absurd (hchars _ h) (by decide), fun h => absurd (hchars _ h) (by decide)⟩

theorem numeral_ne_toText {d : Decimal} (h : d.Pointed) (n : Int) :
    (Value.integer n).toText? ≠ some d.toText := by
  intro heq
  obtain ⟨hpoint, hexponent⟩ := unmarked_numeral n
  have htext : numeral n = d.toText := by
    rw [Value.toText?, numeral?] at heq
    split at heq
    · cases heq
    · exact Option.some.inj heq
  rw [htext] at hpoint hexponent
  exact h.marked.elim hpoint hexponent

end Texts

/-- A value of a run: an event is about it, a variable holds it at some moment, or it is the
result. -/
inductive Machine.HasWithin (fuel : Nat) (m : Machine) (program : Node) : Value → Prop
  | event {e : Event} {v : Value} (happened : e ∈ m.eventsWithin fuel program)
      (about : v ∈ e.values) : HasWithin fuel m program v
  | held {m' : Machine} {i : FrameId} {frame : Frame Variable Function} {name : String}
      {x : Variable} (moment : m' ∈ m.momentsWithin fuel program)
      (there : m'.scopes.frames[i]? = some frame) (bound : (name, x) ∈ frame.boundVariables) :
      HasWithin fuel m program x.value
  | result {v : Value} (returned : (m.runWithin fuel program).1 = .ok v) :
      HasWithin fuel m program v

section Runs

variable {tree : Node} {fuel level calls : Nat}

theorem plainScopes_of_moment (hw : WrittenProgram tree) {m : Machine}
    (hm : m ∈ (Machine.new level calls).momentsWithin fuel tree) : PlainScopes level m.scopes := by
  unfold Machine.momentsWithin at hm
  rw [List.cons_append, List.mem_cons, List.mem_append, List.mem_map, List.mem_singleton] at hm
  rcases hm with rfl | ⟨e, he, rfl⟩ | rfl
  · exact run_leaves_plain hw fuel level calls
  · exact ((run_accounted hw fuel level calls).1 e he).scopes
  · exact (steady_new level calls).scopes

theorem plain_of_hasWithin (hw : WrittenProgram tree) {v : Value}
    (hv : (Machine.new level calls).HasWithin fuel tree v) : v.Plain := by
  obtain ⟨hevents, hresult⟩ := run_accounted hw fuel level calls
  cases hv with
  | event happened about => exact (hevents _ happened).values _ about
  | held moment there bound =>
    exact (plainScopes_of_moment hw moment).vars _ _ there _ bound
  | result returned =>
    rw [returned] at hresult
    exact hresult.1

end Runs

/-- Whatever comes up in a run of a program from a text, checked or not: decimals are finite and have
digits behind their point, characters are single, and there are no objects. The text of a decimal has
a point or an exponent in it, and no integer has that text. An operation fails for a reason of the
program, or for an integer of too many digits, and nothing else fails in the run. -/
theorem text_program_values {text : String} {tree program : Node}
    (hread : readProgram text = .ok tree)
    (hprogram : program = tree ∨ ∃ c c' : Checker, c.check tree = (.ok program, c'))
    (fuel level calls : Nat) :
    (∀ v, (Machine.new level calls).HasWithin fuel program v → v.Plain ∧ ∀ d, v = .decimal d →
      ('.' ∈ d.toText.toList ∨ 'E' ∈ d.toText.toList) ∧
        ∀ n, (Value.integer n).toText? ≠ some d.toText) ∧
    (∀ operator l r m, .operating operator l r m ∈ (Machine.new level calls).eventsWithin fuel program →
      ∀ fault, applyBinary operator l r = .error fault →
        (∃ cause, fault = .run cause) ∨ fault = .tooManyDigits) ∧
    ∀ fault, ((Machine.new level calls).runWithin fuel program).1 = .error fault →
      (∃ cause, fault = .run cause) ∨ fault = .unfinished ∨ fault = .tooManyDigits := by
  have htree : WrittenProgram tree := Grammar.written_of_readProgram hread
  have hw : WrittenProgram program := by
    obtain rfl | ⟨c, c', hcheck⟩ := hprogram
    · exact htree
    · exact written_of_check htree hcheck
  refine ⟨fun v hv => ?_, fun operator l r m hmem fault hfault => ?_, fun fault hfault => ?_⟩
  · have hplain : v.Plain := plain_of_hasWithin hw hv
    refine ⟨hplain, ?_⟩
    rintro d rfl
    exact ⟨Decimal.Pointed.marked hplain, numeral_ne_toText hplain⟩
  · have hl : l.Plain := plain_of_hasWithin hw (.event hmem List.mem_cons_self)
    have hr : r.Plain :=
      plain_of_hasWithin hw (.event hmem (List.mem_cons_of_mem _ List.mem_cons_self))
    have hsettles := plain_applyBinary operator hl hr
    rw [hfault] at hsettles
    exact hsettles.imp And.left And.left
  · have hresult := (run_accounted hw fuel level calls).2
    rw [hfault] at hresult
    exact hresult.kind

/-- A quotient of decimals. -/
theorem text_program_values_quotient : ∃ tree d,
    readProgram "DEF main(): Decimal DO RETURN 1.5 / 0.5; END" = .ok tree ∧
      ((Machine.new 0).runWithin 9 tree).1 = .ok (.decimal d) ∧ d.Pointed ∧
      ('.' ∈ d.toText.toList ∨ 'E' ∈ d.toText.toList) := by
  have hread : readProgram "DEF main(): Decimal DO RETURN 1.5 / 0.5; END" =
      .ok (.source [] [.method "main" [] [] (some "Decimal")
        [.returnStmt (.binary "/" (.literal (.decimal (.finite false 15 (-1))) none)
          (.literal (.decimal (.finite false 5 (-1))) none) none)] none]) := by
    cbv
  have hrun : ((Machine.new 0).runWithin 9 (.source [] [.method "main" [] [] (some "Decimal")
      [.returnStmt (.binary "/" (.literal (.decimal (.finite false 15 (-1))) none)
        (.literal (.decimal (.finite false 5 (-1))) none) none)] none])).1 =
      .ok (.decimal (.finite false 30 (-1))) := by
    cbv
  obtain ⟨hplain, htext⟩ := (text_program_values hread (.inl rfl) 9 0 callLimit).1 _ (.result hrun)
  exact ⟨_, _, hread, hrun, hplain, (htext _ rfl).1⟩

end BlockScript
