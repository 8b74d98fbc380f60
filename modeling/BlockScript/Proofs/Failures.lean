import BlockScript.Proofs.Evaluation.Limit
import BlockScript.Proofs.Evaluation.Standalone
import BlockScript.Proofs.Typing.Slots
import BlockScript.Proofs.Typing.Program
/-!
# How a program fails

A program that is read from a text, checked or not, and run without surroundings gives a value, runs
for ever, or fails with a fault of one of its stages. The exception are integers of too many digits:
where one is read or written out there is no such fault.
-/
namespace BlockScript

/-- The faults that are reported as those of reading, of checking and of running. -/
inductive Fault.OfStage : Fault → Prop where
  | character (unexpected : Unexpected) : OfStage (.character unexpected)
  | parse (fault : ParseFault) (index : Nat) : OfStage (.parse fault index)
  | typing (fault : TypeFault) : OfStage (.typing fault)
  | run (fault : RunFault) : OfStage (.run fault)

def preparedProgram (text : String) (check : Bool) : Except Fault Node := do
  let program ← readProgram text
  if check then ((Checker.new 0).check program).1 else return program

def runTextWithin (calls fuel : Nat) (text : String) (check : Bool) : Except Fault Value := do
  let program ← preparedProgram text check
  ((Machine.new 0 calls).runWithin fuel program).1

/-- The outcome of a program whenever the limit to the steps is large enough. -/
def EndsWith (calls : Nat) (text : String) (check : Bool) (outcome : Except Fault Value) : Prop :=
  ∃ limit, ∀ fuel, limit ≤ fuel → runTextWithin calls fuel text check = outcome

def Diverges (calls : Nat) (text : String) (check : Bool) : Prop :=
  ∀ fuel, runTextWithin calls fuel text check = .error .unfinished

/-- The tokens that reading a program uses up before it ends. -/
def takenTokens (ts : List Token) : List Token :=
  ts.take (ts.length - (Rule.source ts).outcome.2.length)

/-- An integer of too many digits comes up: its token is taken while the program is read, or it is
written out while the program runs. -/
inductive MeetsOverlong (calls : Nat) (text : String) (check : Bool) : Prop where
  | read {ts : List Token} {t : Token} (tokens : tokensOf text = .ok ts)
      (taken : t ∈ takenTokens ts) (long : ¬t.Readable)
  | written {program : Node} {fuel : Nat} {e : Event}
      (prepared : preparedProgram text check = .ok program)
      (happens : e ∈ (Machine.new 0 calls).eventsWithin fuel program) (long : e.Overlong)

variable {text : String} {check : Bool} {fault : Fault} {program : Node} {calls fuel : Nat}

section Reading

theorem readProgram_eq (ts : List Token) (h : tokensOf text = .ok ts) :
    readProgram text = match (Rule.source ts).outcome with
      | (.ok tree, _) => .ok tree
      | (.error cause, rest) => .error (.ofParse ts rest cause) := by
  rw [Grammar.readProgram_eq_applyRule h, applyRule]
  split
  · next hout => rw [hout]
  · next hout => rw [hout]

theorem ofParse_cases {ts rest : List Token} {cause : ParseFault} (hts : tokensOf text = .ok ts)
    (hout : (Rule.source ts).outcome = (.error cause, rest)) :
    cause = .tooManyDigits ∧ Fault.ofParse ts rest cause = .tooManyDigits ∨
      cause ≠ .tooManyDigits ∧ (Fault.ofParse ts rest cause).OfStage := by
  have hshaped := Grammar.allShaped_of_tokensOf hts
  rcases Grammar.isPlaced_or_tooManyDigits hshaped (congrArg Prod.fst hout) with hplaced | rfl
  · cases cause with
    | tooManyDigits | invalidInteger | invalidDecimal => cases hplaced
    | _ => exact .inr ⟨by simp, .parse _ _⟩
  · exact .inl ⟨rfl, rfl⟩

theorem ofStage_of_readProgram (h : readProgram text = .error fault) :
    fault.OfStage ∨ fault = .tooManyDigits := by
  cases hts : tokensOf text with
  | error cause =>
    unfold tokensOf at hts
    rw [readProgram, readAs, tokensOf] at h
    cases hscan : scan text with
    | ok ts =>
      rw [hscan] at hts
      cases hts
    | error unexpected =>
      rw [hscan] at h
      cases h
      exact .inl (.character unexpected)
  | ok ts =>
    rw [readProgram_eq ts hts] at h
    split at h
    · cases h
    · next cause rest hout =>
      cases h
      rcases ofParse_cases hts hout with ⟨-, hfault⟩ | ⟨-, hstage⟩
      · exact .inr hfault
      · exact .inl hstage

theorem mem_takenTokens {ts : List Token} {t : Token} :
    t ∈ takenTokens ts ↔ ∃ taken, ts = taken ++ (Rule.source ts).outcome.2 ∧ t ∈ taken := by
  obtain ⟨taken, hts, -, -⟩ := Rule.takes_source ts
  have hlength : ts.length - (Rule.source ts).outcome.2.length = taken.length := by
    have hsum := congrArg List.length hts
    rw [List.length_append] at hsum
    omega
  have htake : takenTokens ts = taken := by
    unfold takenTokens
    rw [hlength]
    conv_lhs =>
      arg 2
      rw [hts]
    exact List.take_left
  rw [htake]
  constructor
  · exact fun ht => ⟨taken, hts, ht⟩
  · rintro ⟨taken', hts', ht⟩
    rwa [List.append_cancel_right (hts.symm.trans hts')]

/-- Reading fails for too many digits exactly when it takes the token of such an integer. -/
theorem readProgram_tooManyDigits_iff : readProgram text = .error .tooManyDigits ↔
    ∃ ts t, tokensOf text = .ok ts ∧ t ∈ takenTokens ts ∧ ¬t.Readable := by
  cases hts : tokensOf text with
  | error cause =>
    have hread : readProgram text = .error cause := by
      rw [readProgram, readAs, hts]
      rfl
    have hcause : cause ≠ .tooManyDigits := by
      rintro rfl
      unfold tokensOf at hts
      cases hscan : scan text <;> rw [hscan] at hts <;> cases hts
    simp [hread, hcause]
  | ok ts =>
    obtain ⟨taken, htaken, hiff, -⟩ := Rule.takes_source ts
    have hmem : (∃ ts' t, Except.ok (ε := Fault) ts = .ok ts' ∧ t ∈ takenTokens ts' ∧ ¬t.Readable) ↔
        ∃ t ∈ taken, ¬t.Readable := by
      constructor
      · rintro ⟨_, t, ⟨⟩, ht, hlong⟩
        obtain ⟨taken', htaken', hmem⟩ := mem_takenTokens.mp ht
        rw [List.append_cancel_right (htaken'.symm.trans htaken)] at hmem
        exact ⟨t, hmem, hlong⟩
      · rintro ⟨t, ht, hlong⟩
        exact ⟨ts, t, rfl, mem_takenTokens.mpr ⟨taken, htaken, ht⟩, hlong⟩
    rw [hmem, hiff, readProgram_eq ts hts]
    split
    · next tree rest hout => simp [hout]
    · next cause rest hout =>
      have hcases := ofParse_cases hts hout
      rw [hout]
      rcases hcases with ⟨hcause, hfault⟩ | ⟨hcause, hstage⟩
      · rw [hcause] at hfault ⊢
        simp [hfault]
      · have hne : Fault.ofParse ts rest cause ≠ .tooManyDigits := by
          intro heq
          rw [heq] at hstage
          cases hstage
        simp [hcause, hne]

end Reading

section Preparing

theorem preparedProgram_of_error (h : readProgram text = .error fault) :
    preparedProgram text check = .error fault := by
  rw [preparedProgram, h]
  rfl

/-- What is run is a tree that a program can write. There is none if reading fails or the tree is
refused for its types. -/
theorem preparedProgram_cases (text : String) (check : Bool) :
    (∃ program, preparedProgram text check = .ok program ∧ WrittenProgram program) ∨
      (∃ cause, preparedProgram text check = .error (.typing cause)) ∨
      ∃ fault, preparedProgram text check = .error fault ∧ readProgram text = .error fault := by
  cases hread : readProgram text with
  | error fault => exact .inr (.inr ⟨fault, preparedProgram_of_error hread, rfl⟩)
  | ok tree =>
    have hwritten := Grammar.written_of_readProgram hread
    have hprepared : preparedProgram text check =
        if check then ((Checker.new 0).check tree).1 else .ok tree := by
      rw [preparedProgram, hread]
      rfl
    rw [hprepared]
    cases check with
    | false => exact .inl ⟨tree, rfl, hwritten⟩
    | true =>
      have hsound := check_sound hwritten 0
      rw [if_pos rfl]
      split at hsound
      · next checked c hcheck =>
        rw [hcheck]
        exact .inl ⟨checked, rfl, written_of_check hwritten hcheck⟩
      · next fault c hcheck =>
        rw [hcheck]
        obtain ⟨cause, rfl⟩ := hsound
        exact .inr (.inl ⟨cause, rfl⟩)

theorem written_of_preparedProgram (h : preparedProgram text check = .ok program) :
    WrittenProgram program := by
  obtain ⟨program', hprepared, hwritten⟩ | ⟨cause, hprepared⟩ | ⟨cause, hprepared, -⟩ :=
    preparedProgram_cases text check
  · cases hprepared.symm.trans h
    exact hwritten
  · cases hprepared.symm.trans h
  · cases hprepared.symm.trans h

end Preparing

section Running

theorem runText_eq (calls : Nat) (text : String) (check : Bool) :
    runText text check calls = runTextWithin calls stepLimit text check := by
  unfold runText runTextWithin preparedProgram
  cases readProgram text with
  | error fault => rfl
  | ok tree =>
    cases check with
    | false => rfl
    | true =>
      show (checkAndRun (some (Checker.new 0)) (Machine.new 0 calls) tree).result =
        ((Checker.new 0).check tree).1 >>=
          fun program => ((Machine.new 0 calls).runWithin stepLimit program).1
      unfold checkAndRun
      dsimp only
      generalize (Checker.new 0).check tree = checked
      obtain ⟨result, c⟩ := checked
      cases result <;> rfl

theorem runTextWithin_of_error (h : preparedProgram text check = .error fault) :
    runTextWithin calls fuel text check = .error fault := by
  rw [runTextWithin, h]
  rfl

theorem runTextWithin_of_ok (h : preparedProgram text check = .ok program) :
    runTextWithin calls fuel text check = ((Machine.new 0 calls).runWithin fuel program).1 := by
  rw [runTextWithin, h]
  rfl

theorem EndsWith.unique {outcome outcome' : Except Fault Value} (h : EndsWith calls text check outcome)
    (h' : EndsWith calls text check outcome') : outcome = outcome' := by
  obtain ⟨limit, hends⟩ := h
  obtain ⟨limit', hends'⟩ := h'
  have hleft := hends (max limit limit') (Nat.le_max_left _ _)
  have hright := hends' (max limit limit') (Nat.le_max_right _ _)
  exact hleft.symm.trans hright

/-- An outcome that is not a cut stays with every larger limit. -/
theorem endsWith_of_finished (h : runTextWithin calls fuel text check ≠ .error .unfinished) :
    EndsWith calls text check (runTextWithin calls fuel text check) := by
  refine ⟨fuel, fun fuel' hle => ?_⟩
  cases hprepared : preparedProgram text check with
  | error fault => rw [runTextWithin_of_error hprepared, runTextWithin_of_error hprepared]
  | ok program =>
    rw [runTextWithin_of_ok hprepared] at h ⊢
    rw [runTextWithin_of_ok hprepared, runWithin_of_le hle h]

end Running

theorem runTextWithin_tooManyDigits_of_event {e : Event}
    (h : preparedProgram text check = .ok program)
    (he : e ∈ (Machine.new 0 calls).eventsWithin fuel program) (hlong : e.Overlong) :
    runTextWithin calls fuel text check = .error .tooManyDigits := by
  have hrun := (run_accounted (written_of_preparedProgram h) fuel 0 calls).2
  rw [runTextWithin_of_ok h]
  split at hrun
  · exact absurd hlong (hrun.2 e he)
  · next fault hfault => rw [hfault, hrun.of_overlong ⟨e, he, hlong⟩]

theorem diverges_or_endsWith (calls : Nat) (text : String) (check : Bool) :
    Diverges calls text check ∨ ∃ outcome, EndsWith calls text check outcome ∧
      ∀ fault, outcome = .error fault → fault.OfStage ∨ fault = .tooManyDigits := by
  by_cases hdiverges : Diverges calls text check
  · exact .inl hdiverges
  unfold Diverges at hdiverges
  push Not at hdiverges
  obtain ⟨fuel, hfinished⟩ := hdiverges
  refine .inr ⟨_, endsWith_of_finished hfinished, fun fault hfault => ?_⟩
  obtain ⟨program, hprepared, hwritten⟩ | ⟨cause, hprepared⟩ | ⟨cause, hprepared, hread⟩ :=
    preparedProgram_cases text check
  · have hrun := (run_accounted hwritten fuel 0 calls).2
    rw [← runTextWithin_of_ok hprepared, hfault] at hrun
    rw [hfault] at hfinished
    rcases hrun.kind with ⟨cause, rfl⟩ | rfl | rfl
    · exact .inl (.run cause)
    · exact absurd rfl hfinished
    · exact .inr rfl
  · cases hfault.symm.trans (runTextWithin_of_error hprepared)
    exact .inl (.typing cause)
  · cases hfault.symm.trans (runTextWithin_of_error hprepared)
    exact ofStage_of_readProgram hread

theorem endsWith_tooManyDigits_iff :
    EndsWith calls text check (.error .tooManyDigits) ↔ MeetsOverlong calls text check := by
  constructor
  · rintro ⟨limit, hends⟩
    have hfault := hends limit (Nat.le_refl _)
    obtain ⟨program, hprepared, hwritten⟩ | ⟨cause, hprepared⟩ | ⟨cause, hprepared, hread⟩ :=
      preparedProgram_cases text check
    · have hrun := (run_accounted hwritten limit 0 calls).2
      rw [← runTextWithin_of_ok hprepared, hfault] at hrun
      obtain ⟨e, he, hlong⟩ := hrun.overlong rfl rfl
      exact .written hprepared he hlong
    · cases hfault.symm.trans (runTextWithin_of_error hprepared)
    · cases hfault.symm.trans (runTextWithin_of_error hprepared)
      obtain ⟨ts, t, tokens, taken, long⟩ := readProgram_tooManyDigits_iff.mp hread
      exact .read tokens taken long
  · intro hmeets
    cases hmeets with
    | read tokens taken long =>
      have hread := readProgram_tooManyDigits_iff.mpr ⟨_, _, tokens, taken, long⟩
      exact ⟨0, fun _ _ => runTextWithin_of_error (preparedProgram_of_error hread)⟩
    | @written program fuel e prepared happens long =>
      have hfault := runTextWithin_tooManyDigits_of_event prepared happens long
      rw [← hfault]
      exact endsWith_of_finished (by simp [hfault])

/-- A program runs for ever, or it ends with a value or with a fault of a stage. Only if it meets an
integer of too many digits it fails for that, and then it does. -/
theorem program_fails_in_stage_or_for_overlong (calls : Nat) (text : String) (check : Bool) :
    runText text check calls = runTextWithin calls stepLimit text check ∧
      (Diverges calls text check ∨ ∃ outcome, EndsWith calls text check outcome ∧
        ∀ fault, outcome = .error fault → fault.OfStage ∨ fault = .tooManyDigits) ∧
      (EndsWith calls text check (.error .tooManyDigits) ↔ MeetsOverlong calls text check) :=
  ⟨runText_eq calls text check, diverges_or_endsWith calls text check, endsWith_tooManyDigits_iff⟩

def greatSquare : String :=
  "DEF f(x: Integer): Integer DO RETURN x * x; END " ++
    "DEF main(): Integer DO RETURN f(f(f(f(f(f(f(f(f(f(f(f(f(10))))))))))))); END"

theorem greatSquare_not_of_stage :
    ¬(Diverges callLimit greatSquare true ∨ ∃ outcome, EndsWith callLimit greatSquare true outcome ∧
      ∀ fault, outcome = .error fault → fault.OfStage) := by
  have hrun : failsOverlong (runTextWithin callLimit 100 greatSquare true) = true := by
    decide +kernel
  have hfault : runTextWithin callLimit 100 greatSquare true = .error .tooManyDigits :=
    eq_of_failsOverlong hrun
  have hends : EndsWith callLimit greatSquare true (.error .tooManyDigits) := by
    rw [← hfault]
    exact endsWith_of_finished (by simp [hfault])
  rintro (hdiverges | ⟨outcome, houtcome, hstage⟩)
  · cases hfault.symm.trans (hdiverges 100)
  · cases hends.unique houtcome
    cases hstage _ rfl

end BlockScript
