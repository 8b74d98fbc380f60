import BlockScript.Proofs.Evaluation.MethodTable
import BlockScript.Proofs.Typing.Slots
import BlockScript.Proofs.Typing.Surroundings
/-!
# The order of methods is irrelevant

A program is accepted with its methods in every order or in none, with the same types and bindings,
and it runs the same way in any order unless two methods have the same name and the same number of
parameters.
-/
namespace BlockScript

section Checks

/-- The second tree is the first one with its methods in another order. Every expression has the
same type, and every name is bound to the same declaration: `ρ` says which number its frame has,
and what the frames bind corresponds. Frames below `base` keep their numbers. -/
structure SameMeaning (base : Nat) (ρ : FrameId → FrameId) (checked checked' : Node)
    (s s' : Scopes StaticVariable StaticFunction) : Prop where
  injective : Function.Injective ρ
  fixes : ∀ i < base, ρ i = i
  tree : (checked.rename ρ).Reorders checked'
  scopes : s.Corresponds ρ (fun v v' => v' = v.rename ρ) (fun f f' => f' = f) s'

inductive AcceptedAlike (base : Nat) : Except Fault Node × Checker → Except Fault Node × Checker →
    Prop
  | accepted {checked checked' : Node} {d d' : Checker} (ρ : FrameId → FrameId)
      (same : SameMeaning base ρ checked checked' d.scopes d'.scopes) :
      AcceptedAlike base (.ok checked, d) (.ok checked', d')
  | refused {fault fault' : Fault} {d d' : Checker} :
      AcceptedAlike base (.error fault, d) (.error fault', d')

theorem acceptedAlike_check {c : Checker} (hc : c.SetUp) {program program' : Node}
    (h : program.Reorders program') :
    AcceptedAlike c.scopes.next (c.check program) (c.check program') := by
  obtain ⟨hgrounded, hroot⟩ := hc.grounded
  cases h with
  | @methods fields methods methods' perm =>
  obtain ⟨c₀, hnote, hscopes⟩ : ∃ c₀, Check.note 1 "analyze source" c = .ok () c₀ ∧
      c₀.scopes = c.scopes := by
    refine ⟨_, rfl, ?_⟩
    dsimp only
    split <;> rfl
  have hhome : AtHome c.scopes.next c₀.scopes := by
    rw [hscopes]
    exact hgrounded
  have halike : CheckedAlike c.scopes.next c₀ (checkSource c.root (.source fields methods) c₀)
      (checkSource c.root (.source fields methods') c₀) :=
    checkedAlike_checkSource hhome (Nat.le_of_eq (congrArg _ hscopes.symm)) hroot perm
  have hruns (tree : Node) : c.check tree =
      ((Check.outcome (checkSource c.root tree) c₀).1,
        { (Check.outcome (checkSource c.root tree) c₀).2 with
          console := (Check.outcome (checkSource c.root tree) c₀).2.console.close }) := by
    unfold Checker.check Check.outcome
    simp only [bind, EStateM.bind, hnote]
  rw [hruns, hruns]
  unfold Check.outcome
  generalize checkSource c.root (.source fields methods) c₀ = r at halike ⊢
  generalize checkSource c.root (.source fields methods') c₀ = r' at halike ⊢
  cases halike with
  | error => exact .refused
  | ok ρ numbers fixes reorders =>
    rw [hscopes] at fixes
    exact .accepted ρ ⟨numbers.corresponds.injective, fixes, reorders, numbers.corresponds⟩

end Checks

section Runs

theorem Node.Reorders.bare {program program' : Node} (h : program.Reorders program') :
    program.bare.Reorders program'.bare := by
  cases h with
  | methods perm =>
    rw [Node.bare, Node.bare, Node.bareAll_eq_map, Node.bareAll_eq_map, Node.bareAll_eq_map]
    exact .methods (perm.map _)

theorem members_bare (node : Node) : node.bare.members.2 = node.members.2.map Node.bare := by
  cases node <;> simp [Node.bare, Node.members]

theorem Node.HasDistinctMethods.of_bare {program program' : Node} (h : program.HasDistinctMethods)
    (hbare : program'.bare = program.bare) : program'.HasDistinctMethods := by
  refine DistinctMethods.perm h ?_
  rw [← members_bare, ← members_bare, hbare]

/-- Under all surroundings both programs end the same way and print the same, if there is no
trace. -/
def RunAlike (program program' : Node) : Prop :=
  ∀ (m : Machine) (parent : Option FrameId) (fuel : Nat),
    ((m.addRoot parent 0).runWithin fuel program').1 =
        ((m.addRoot parent 0).runWithin fuel program).1 ∧
      ((m.addRoot parent 0).runWithin fuel program').2.console.output =
        ((m.addRoot parent 0).runWithin fuel program).2.console.output

end Runs

/-- For all programs that differ in the order of their methods: a checker accepts both or none; if
it accepts them, the trees that it gives back have the same meaning. If no two methods have the
same name and the same number of parameters, the programs run alike, before and after they are
checked. -/
theorem method_order_irrelevant {program program' : Node} (h : program.Reorders program') :
    (∀ c : Checker, c.SetUp →
      ((∃ checked, (c.check program).1 = .ok checked) ↔
        ∃ checked', (c.check program').1 = .ok checked') ∧
      ∀ checked checked', (c.check program).1 = .ok checked →
        (c.check program').1 = .ok checked' →
          (∃ ρ, SameMeaning c.scopes.next ρ checked checked' (c.check program).2.scopes
            (c.check program').2.scopes) ∧
          (program.HasDistinctMethods → RunAlike checked checked')) ∧
    (program.HasDistinctMethods → RunAlike program program') := by
  refine ⟨fun c hc => ⟨?_, fun checked checked' hchecked hchecked' => ⟨?_, ?_⟩⟩, ?_⟩
  · have halike := acceptedAlike_check hc h
    generalize c.check program = e at halike ⊢
    generalize c.check program' = e' at halike ⊢
    cases halike with
    | refused => exact iff_of_false nofun nofun
    | accepted => exact iff_of_true ⟨_, rfl⟩ ⟨_, rfl⟩
  · have halike := acceptedAlike_check hc h
    generalize c.check program = e at halike hchecked ⊢
    generalize c.check program' = e' at halike hchecked' ⊢
    cases halike with
    | refused => cases hchecked
    | accepted ρ same =>
      cases hchecked
      cases hchecked'
      exact ⟨ρ, same⟩
  · intro hdistinct
    have hbare : checked.bare = program.bare := bare_of_check (Prod.ext hchecked rfl)
    have hbare' : checked'.bare = program'.bare := bare_of_check (Prod.ext hchecked' rfl)
    have hreorders : checked.bare.Reorders checked'.bare := by
      rw [hbare, hbare']
      exact h.bare
    exact runWithin_of_reorders hreorders (hdistinct.of_bare hbare)
  · exact runWithin_of_reorders h.bare

/-- A method and the main method that calls it, in one order and in the other. -/
theorem method_order_irrelevant_two :
    let two : Node := .method "two" [] [] (some "Integer")
      [.returnStmt (.literal (.integer 2) none)] none
    let main : Node := .method "main" [] [] (some "Integer")
      [.returnStmt (.call .absent "two" [] none none)] none
    let program : Node := .source [] [two, main]
    let program' : Node := .source [] [main, two]
    program.Reorders program' ∧ program.HasDistinctMethods ∧
      (∃ checked, ((Checker.new 0).check program).1 = .ok checked) ∧
      (∃ checked', ((Checker.new 0).check program').1 = .ok checked') ∧
      RunAlike program program' := by
  intro two main program program'
  have hreorders : program.Reorders program' := .methods (.swap _ _ _)
  have hdistinct : program.HasDistinctMethods := ⟨by decide, by decide⟩
  have hok : ((Checker.new 0).check program).1.isOk = true := by decide +kernel
  have haccepted : ∃ checked, ((Checker.new 0).check program).1 = .ok checked := by
    cases hresult : ((Checker.new 0).check program).1 with
    | ok checked => exact ⟨checked, rfl⟩
    | error fault =>
      rw [hresult] at hok
      cases hok
  have hirrelevant := method_order_irrelevant hreorders
  have haccepted' := ((hirrelevant.1 _ (.new 0)).1).mp haccepted
  exact ⟨hreorders, hdistinct, haccepted, haccepted', hirrelevant.2 hdistinct⟩

end BlockScript
