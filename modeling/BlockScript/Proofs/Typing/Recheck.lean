import BlockScript.Proofs.Typing.Slots
import BlockScript.Proofs.Typing.Surroundings
/-!
# Checking once more

What is around a program is the same after it has been checked, with whatever outcome: all that
checking binds is in frames of its own. So a program may be checked again and again in the same
surroundings, and each time the outcome is the same but for the numbers of new frames. The slots that
were filled before do not matter.
-/
namespace BlockScript

open Check

section Checkers

variable {base : Nat} {c c' : Checker}

/-- The computation of which checking gives the outcome. -/
theorem follows_check {ρ : FrameId → FrameId} {kept : FrameId → Prop}
    (hroot : Apart kept c.scopes.next c.root) (tree : Node) :
    Follows base ρ kept c.scopes.next
      (note 1 "analyze source" >>= fun _ => checkSource c.root tree)
      (note 1 "analyze source" >>= fun _ => checkSource (ρ c.root) tree) (Copied ρ) :=
  (follows_note 1 _ _).bind fun _ _ _ hk _ => follows_checkSource (hroot.mono hk) tree

/-- Checking changes nothing of the frames that were there before the one of the program. -/
theorem check_keeps (hs : AtHome base c.scopes) (hbase : base ≤ c.root)
    (hroot : c.root < c.scopes.next) (tree : Node) :
    (∀ i < base, (c.check tree).2.scopes.frames[i]? = c.scopes.frames[i]?) ∧
      c.scopes.next ≤ (c.check tree).2.scopes.next := by
  have hapart : Apart (· < base) c.scopes.next c.root :=
    ⟨fun _ hi => Nat.lt_of_lt_of_le hi (Nat.le_trans hbase (Nat.le_of_lt hroot)),
      Nat.not_lt.mpr hbase, hroot⟩
  have hends := follows_check (ρ := id) hapart tree c c (.refl hs) (Nat.le_refl _)
  rw [id] at hends
  unfold Checker.check Check.outcome
  generalize (note 1 "analyze source" >>= fun _ => checkSource c.root tree) c = r at hends ⊢
  cases hends with
  | ok numbers same le holds => exact ⟨same, le⟩
  | error same le => exact ⟨same, le⟩

/-- Two outcomes of checking say the same: a program is refused for the same reason, or it is
accepted with the same types and the same bindings, but for the numbers of frames that are not below
`base`. -/
inductive SaysSame (base : Nat) : Except Fault Node → Except Fault Node → Prop
  | accepted {checked : Node} {ρ : FrameId → FrameId} (fixes : ∀ i < base, ρ i = i)
      (injective : Function.Injective ρ) : SaysSame base (.ok checked) (.ok (checked.rename ρ))
  | refused {fault : Fault} : SaysSame base (.error fault) (.error fault)

/-- Checkers with corresponding frames say the same of a program. -/
theorem saysSame_of_renumbered {ρ : FrameId → FrameId}
    (h : Renumbered base ρ c.scopes c'.scopes) (hroot : c.root < c.scopes.next)
    (hroot' : c'.root = ρ c.root) (tree : Node) :
    SaysSame base (c.check tree).1 (c'.check tree).1 := by
  have hapart : Apart (fun _ => False) c.scopes.next c.root := ⟨fun _ => False.elim, id, hroot⟩
  have hends := follows_check hapart tree c c' h (Nat.le_refl _)
  rw [← hroot'] at hends
  unfold Checker.check Check.outcome
  generalize (note 1 "analyze source" >>= fun _ => checkSource c.root tree) c = r at hends ⊢
  generalize (note 1 "analyze source" >>= fun _ => checkSource c'.root tree) c' = r' at hends ⊢
  cases hends with
  | ok numbers same le copied =>
    rw [copied.eq]
    exact .accepted h.fixes h.corresponds.injective
  | error => exact .refused

/-- After a program has been checked, frames for the next one correspond to those that it would have
had before. -/
theorem renumbered_after_check (h : c.Grounded) {parent : Option FrameId}
    (hparent : ∀ p ∈ parent, p < c.scopes.next) (before : Node) (parent' : Option FrameId)
    (level level' level'' : Nat) :
    ∃ ρ, Renumbered c.scopes.next ρ (c.addRoot parent level).scopes
        (((c.addRoot parent' level').check before).2.addRoot parent level'').scopes ∧
      (((c.addRoot parent' level').check before).2.addRoot parent level'').root =
        ρ (c.addRoot parent level).root := by
  have hnext := c.next_addRoot parent' level'
  have hframes : ∀ i < c.scopes.next,
      (c.addRoot parent' level').scopes.frames[i]? = c.scopes.frames[i]? := by
    intro i hi
    have hne : c.scopes.next ≠ i := Nat.ne_of_gt hi
    rw [Checker.addRoot, Scopes.addFunction, Scopes.getElem?_update, if_neg hne,
      Scopes.getElem?_addFrame, if_neg (Nat.ne_of_lt hi)]
  obtain ⟨hkept, hle⟩ := check_keeps (h.atHome_addRoot parent' level') (Nat.le_refl _)
    (by rw [hnext]; exact Nat.lt_succ_self _) before
  generalize ((c.addRoot parent' level').check before).2 = d at hkept hle ⊢
  rw [hnext] at hle
  obtain ⟨b, hb⟩ := Nat.exists_eq_add_of_le (Nat.le_of_succ_le hle)
  have hshift : Renumbered c.scopes.next (shift c.scopes.next b) c.scopes d.scopes :=
    renumbered_shift h (Nat.le_refl _) (fun i hi => (hkept i hi).trans (hframes i hi)) hb
  have hroot : d.scopes.next = shift c.scopes.next b c.scopes.next := hshift.corresponds.next_eq.symm
  have hsame : parent.map (shift c.scopes.next b) = parent := by
    cases parent with
    | none => rfl
    | some p => rw [Option.map_some, hshift.fixes p (hparent p rfl)]
  refine ⟨shift c.scopes.next b, ?_, hroot⟩
  have hadded := (hshift.addFrame parent).addFunction c.scopes.next (f := .print)
    (StaticType.Memberless.within (by rfl) _)
  rw [hsame, ← hroot] at hadded
  exact hadded

end Checkers

/-- Trees that differ in nothing but their slots are checked with the same outcome, so that checking
a checked tree changes nothing. It does not matter either whether the same checker checks both or one
checker after the other: when any tree has been checked in the same surroundings before, the same
reason for refusing comes out, or the same types and bindings. -/
theorem recheck_says_same {tree tree' : Node} (hsame : tree'.bare = tree.bare) :
    (∀ c : Checker, c.check tree' = c.check tree) ∧
      (∀ (c c' : Checker) (checked : Node), c.check tree = (.ok checked, c') →
        c.check checked = (.ok checked, c')) ∧
      ∀ (outer : Checker) (parent parent' : Option FrameId) (level level' level'' : Nat)
        (before : Node), outer.Grounded → (∀ p ∈ parent, p < outer.scopes.next) →
        SaysSame outer.scopes.next ((outer.addRoot parent level).check tree).1
          ((((outer.addRoot parent' level').check before).2.addRoot parent level'').check
            tree').1 := by
  refine ⟨fun c => check_congr c hsame, fun c c' checked hchecked => ?_, ?_⟩
  · rw [check_congr c (bare_of_check hchecked), hchecked]
  · intro outer parent parent' level level' level'' before hgrounded hparent
    obtain ⟨ρ, hnumbers, hroot⟩ :=
      renumbered_after_check hgrounded hparent before parent' level level' level''
    rw [check_congr _ hsame]
    exact saysSame_of_renumbered hnumbers (hgrounded.addRoot parent level).2 hroot tree

/-- A tree with the slots of another program, around which there is the frame of a third one. -/
theorem recheck_says_same_stale :
    let one (type : Option StaticType) (callee : Option StaticFunction) : Node :=
      .source [] [.method "main" [] [] (some "Integer")
        [.returnStmt (.literal (.integer 1) type)] callee]
    let tree := one none none
    let stale := one (some .string) (some .print)
    stale.bare = tree.bare ∧ (Checker.new 0).Grounded ∧
      (((Checker.new 0).addRoot (some 0) 0).check tree).1.isOk = true ∧
      SaysSame 1 (((Checker.new 0).addRoot (some 0) 0).check tree).1
        (((((Checker.new 0).addRoot (some 0) 0).check tree).2.addRoot (some 0) 0).check
          stale).1 := by
  intro one tree stale
  have hsame : stale.bare = tree.bare := rfl
  have hgrounded : (Checker.new 0).Grounded := (Checker.SetUp.new 0).grounded.1
  have hok : (((Checker.new 0).addRoot (some 0) 0).check tree).1.isOk = true := by decide +kernel
  have hparent : ∀ p ∈ some 0, p < (Checker.new 0).scopes.next := by
    rintro _ ⟨⟩
    decide
  obtain ⟨-, -, hagain⟩ := recheck_says_same hsame
  exact ⟨hsame, hgrounded, hok, hagain _ (some 0) (some 0) 0 0 0 tree hgrounded hparent⟩

end BlockScript
