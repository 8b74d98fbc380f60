import BlockScript.Proofs.Evaluation.Spelling
import BlockScript.Proofs.Java.Generation
import BlockScript.Proofs.Java.Spelling
import BlockScript.Proofs.Typing.Annotated
import BlockScript.Proofs.Typing.Spelling
/-!
# Words and signs are synonyms

Programs that differ in nothing but the spelling of logical operators are checked alike, run alike
without a trace, and have the same Java text.
-/
namespace BlockScript

/-- Under all surroundings both programs come to the same end but for the spelling of an operator in
a fault, and write the same, if there is no trace. -/
def RespelledRuns (program program' : Node) : Prop :=
  ∀ (m : Machine) (parent : Option FrameId) (fuel : Nat),
    ((m.addRoot parent 0).runWithin fuel program').1.mapError Fault.inWords =
        ((m.addRoot parent 0).runWithin fuel program).1.mapError Fault.inWords ∧
      ((m.addRoot parent 0).runWithin fuel program').2.console =
        ((m.addRoot parent 0).runWithin fuel program).2.console

/-- Two checks end alike. Both give trees with the same types and bindings, which run alike and have
the same Java text, or both refuse their programs for the same fault but for the spelling. -/
inductive RespelledChecks : Except Fault Node × Checker → Except Fault Node × Checker → Prop where
  | accepted {checked checked' : Node} {d : Checker} {text : String}
      (same : checked'.inWords = checked.inWords) (runs : RespelledRuns checked checked')
      (java : Java.program checked = .ok text) (java' : Java.program checked' = .ok text) :
      RespelledChecks (.ok checked, d) (.ok checked', d)
  | refused {fault fault' : Fault} {d : Checker} (same : fault'.inWords = fault.inWords) :
      RespelledChecks (.error fault, d) (.error fault', d)

theorem respelledRuns_of_inWords {program program' : Node}
    (h : program'.inWords = program.inWords) : RespelledRuns program program' :=
  runWithin_of_inWords h

theorem respelledChecks_check {program program' : Node} (h : program'.inWords = program.inWords)
    (c : Checker) : RespelledChecks (c.check program) (c.check program') := by
  have hwords := check_inWords c program
  have hwords' := check_inWords c program'
  rw [h] at hwords'
  cases hresult : c.check program with
  | mk result d =>
    cases hresult' : c.check program' with
    | mk result' d' =>
      rw [hresult] at hwords
      rw [hresult'] at hwords'
      generalize c.check program.inWords = w at hwords hwords'
      cases hwords with
      | @ok checked _ _ hchecked =>
        obtain ⟨text, htext⟩ := Java.exists_program (annotated_of_check hresult)
        cases hwords' with
        | ok hchecked' =>
          have hsame := hchecked'.symm.trans hchecked
          exact .accepted hsame (respelledRuns_of_inWords hsame) htext
            ((Java.program_of_inWords hsame).trans htext)
      | error same =>
        cases hwords' with
        | error same' => exact .refused (same'.symm.trans same)

/-- For all programs that differ in nothing but the spelling of logical operators: a checker accepts
both or none, with the same types and the same Java text, and they run alike. -/
theorem spelling_irrelevant {program program' : Node} (h : program'.inWords = program.inWords) :
    (∀ c : Checker, RespelledChecks (c.check program) (c.check program')) ∧
      RespelledRuns program program' :=
  ⟨respelledChecks_check h, respelledRuns_of_inWords h⟩

/-- A program that is accepted with a conjunction in both spellings. -/
theorem spelling_irrelevant_conjunction :
    let program (operator : String) : Node :=
      .source [] [.method "main" [] [] (some "Integer")
        [.ifStmt (.binary operator (.literal (.boolean true) none)
            (.literal (.boolean false) none) none) [.returnStmt (.literal (.integer 1) none)] [],
          .returnStmt (.literal (.integer 0) none)] none]
    (program "&&").inWords = (program "AND").inWords ∧
      ((Checker.new 0).check (program "AND")).1.isOk = true ∧
      RespelledChecks ((Checker.new 0).check (program "AND"))
        ((Checker.new 0).check (program "&&")) ∧
      RespelledRuns (program "AND") (program "&&") := by
  intro program
  have hsame : (program "&&").inWords = (program "AND").inWords := rfl
  have hirrelevant := spelling_irrelevant hsame
  exact ⟨hsame, by decide +kernel, hirrelevant.1 (.new 0), hirrelevant.2⟩

end BlockScript
