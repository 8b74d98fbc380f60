import BlockScript.Proofs.Evaluation.Limit
import BlockScript.Proofs.Evaluation.Observation
/-!
# Runs without a limit

Without a limit to how deeply steps are nested a run ends as it does with every limit that is large
enough, and if there is none it runs for ever. The steps without a limit do what each kind of step
says of the steps nested in it, and a loop is its rounds one after another.
-/
namespace BlockScript

open Run

abbrev Endless := ExceptT Fault (StateT Machine Option)

variable {α β : Type}

/-- A run that is cut off tells nothing about how it would end. -/
def Run.settle (x : Run α) : Endless α := fun m =>
  match x.outcome m with
  | (.error .unfinished, _) => none
  | e => some e

instance : MonadLift Run Endless := ⟨settle⟩

/-- How a run ends that may take as many nested steps as it needs. -/
noncomputable def limit (x : Nat → Run α) : Endless α := fun m =>
  open Classical in
  if h : ∃ fuel e, settle (x fuel) m = some e then settle (x h.choose) m else none

noncomputable def unlimited : Steps Endless where
  evaluate a node := limit fun fuel => (steps fuel).evaluate a node
  evaluateAll a nodes := limit fun fuel => (steps fuel).evaluateAll a nodes
  operate operator l r := limit fun fuel => (steps fuel).operate operator l r
  write v := limit fun fuel => (steps fuel).write v
  invoke a signature f values := limit fun fuel => (steps fuel).invoke a signature f values
  execute a node := limit fun fuel => (steps fuel).execute a node
  executeLoop a construct condition increment statements :=
    limit fun fuel => (steps fuel).executeLoop a construct condition increment statements
  executeAll a nodes := limit fun fuel => (steps fuel).executeAll a nodes

section Settle

theorem settle_eq_some_iff {x : Run α} {m : Machine} {e : Except Fault α × Machine} :
    settle x m = some e ↔ x.outcome m = e ∧ e.1 ≠ .error .unfinished := by
  unfold settle
  obtain ⟨result, m'⟩ := x.outcome m
  split
  · next h =>
    cases h
    simp only [reduceCtorEq, false_iff, not_and, not_not]
    rintro rfl
    rfl
  · next h =>
    rw [Option.some.injEq]
    refine ⟨fun he => ⟨he, fun hcut => ?_⟩, And.left⟩
    rw [← he] at hcut
    obtain rfl : result = .error .unfinished := hcut
    exact h m' rfl

theorem endless_bind_apply (y : Endless α) (g : α → Endless β) (m : Machine) :
    (y >>= g) m = (y m).bind fun e => match e with
      | (.ok a, m) => g a m
      | (.error fault, m) => some (.error fault, m) := by
  show (y m).bind _ = _
  congr 1
  funext e
  obtain ⟨_ | _, _⟩ := e <;> rfl

theorem settle_bind (x : Run α) (f : α → Run β) :
    settle (x >>= f) = settle x >>= fun a => settle (f a) := by
  funext m
  rw [endless_bind_apply]
  unfold settle
  rw [outcome_bind]
  obtain ⟨fault | a, m'⟩ := x.outcome m
  · cases fault <;> rfl
  · rfl

theorem Extends.settle {x y : Run α} (h : Extends x y) {m : Machine}
    {e : Except Fault α × Machine} (he : settle x m = some e) : settle y m = some e := by
  obtain ⟨m', hcut⟩ | hsame := h m
  · unfold Run.settle outcome at he
    rw [hcut] at he
    cases he
  · unfold Run.settle outcome at *
    rwa [hsame]

end Settle

/-- The run without a limit ends as the runs with larger and larger limits. -/
structure Limits (x : Nat → Run α) (y : Endless α) : Prop where
  grows : ∀ fuel, Extends (x fuel) (x (fuel + 1))
  ends : ∀ m e, y m = some e ↔ ∃ fuel, settle (x fuel) m = some e

section Limits

variable {x x' : Nat → Run α} {y y' : Endless α} {m : Machine}

theorem settle_of_le (h : ∀ fuel, Extends (x fuel) (x (fuel + 1))) {k l : Nat} (hle : k ≤ l)
    {e : Except Fault α × Machine} (he : settle (x k) m = some e) : settle (x l) m = some e := by
  induction hle with
  | refl => exact he
  | step _ ih => exact (h _).settle ih

theorem limits_limit (h : ∀ fuel, Extends (x fuel) (x (fuel + 1))) : Limits x (limit x) where
  grows := h
  ends m e := by
    unfold limit
    split
    · next hends =>
      refine ⟨fun he => ⟨_, he⟩, fun ⟨fuel, he⟩ => ?_⟩
      obtain ⟨e', he'⟩ := hends.choose_spec
      have hlarge := settle_of_le h (Nat.le_max_left hends.choose fuel) he'
      rw [settle_of_le h (Nat.le_max_right hends.choose fuel) he] at hlarge
      rw [he', hlarge]
    · next hnever =>
      simp only [reduceCtorEq, false_iff]
      exact fun ⟨fuel, he⟩ => hnever ⟨fuel, e, he⟩

/-- Runs that are the same from some limit on have the same end. -/
theorem Limits.eq_of_succ (h : Limits x y) (h' : Limits x' y')
    (hsucc : ∀ fuel, x (fuel + 1) = x' fuel) : y = y' := by
  funext m
  refine Option.ext fun e => ?_
  rw [h.ends, h'.ends]
  refine ⟨fun ⟨fuel, he⟩ => ⟨fuel, ?_⟩, fun ⟨fuel, he⟩ => ⟨fuel + 1, ?_⟩⟩
  · rw [← hsucc]
    exact (h.grows fuel).settle he
  · rwa [hsucc]

theorem Limits.congr (h : Limits x y) (hx : ∀ fuel, x fuel = x' fuel) : Limits x' y :=
  funext hx ▸ h

theorem Limits.pure (a : α) : Limits (fun _ => Pure.pure a) (Pure.pure a) where
  grows _ := .refl _
  ends _ _ := ⟨fun h => ⟨0, h⟩, fun ⟨_, h⟩ => h⟩

theorem Limits.lift (x : Run α) : Limits (fun _ => x) (liftM x) where
  grows _ := .refl _
  ends _ _ := ⟨fun h => ⟨0, h⟩, fun ⟨_, h⟩ => h⟩

theorem endless_bind_eq_some_iff {f : α → Endless β} {e : Except Fault β × Machine} :
    (y >>= f) m = some e ↔ (∃ fault m', y m = some (.error fault, m') ∧ e = (.error fault, m')) ∨
      ∃ a m', y m = some (.ok a, m') ∧ f a m' = some e := by
  rw [endless_bind_apply]
  cases hy : y m with
  | none => simp
  | some e' =>
    obtain ⟨fault | a, m'⟩ := e'
    · simp [eq_comm]
    · simp

theorem endless_bind_of_ok {a : α} {m' : Machine} (h : y m = some (.ok a, m')) (f : α → Endless β) :
    (y >>= f) m = f a m' := by
  rw [endless_bind_apply, h]
  rfl

theorem Limits.bind (h : Limits x y) {f : α → Nat → Run β} {g : α → Endless β}
    (hf : ∀ a, Limits (f a) (g a)) : Limits (fun fuel => x fuel >>= fun a => f a fuel) (y >>= g) where
  grows fuel := (h.grows fuel).bind fun a => (hf a).grows fuel
  ends m e := by
    simp only [settle_bind, endless_bind_eq_some_iff]
    constructor
    · rintro (⟨fault, m', hy, rfl⟩ | ⟨a, m', hy, hg⟩)
      · obtain ⟨fuel, hx⟩ := (h.ends _ _).mp hy
        exact ⟨fuel, .inl ⟨fault, m', hx, rfl⟩⟩
      · obtain ⟨k, hx⟩ := (h.ends _ _).mp hy
        obtain ⟨l, hrest⟩ := ((hf a).ends _ _).mp hg
        exact ⟨max k l, .inr ⟨a, m', settle_of_le h.grows (Nat.le_max_left k l) hx,
          settle_of_le (hf a).grows (Nat.le_max_right k l) hrest⟩⟩
    · rintro ⟨fuel, ⟨fault, m', hx, rfl⟩ | ⟨a, m', hx, hrest⟩⟩
      · exact .inl ⟨fault, m', (h.ends _ _).mpr ⟨fuel, hx⟩, rfl⟩
      · exact .inr ⟨a, m', (h.ends _ _).mpr ⟨fuel, hx⟩, ((hf a).ends _ _).mpr ⟨fuel, hrest⟩⟩

end Limits

/-- The steps with every limit at once. -/
def limited : Steps (ReaderT Nat Run) where
  evaluate a node fuel := (steps fuel).evaluate a node
  evaluateAll a nodes fuel := (steps fuel).evaluateAll a nodes
  operate operator l r fuel := (steps fuel).operate operator l r
  write v fuel := (steps fuel).write v
  invoke a signature f values fuel := (steps fuel).invoke a signature f values
  execute a node fuel := (steps fuel).execute a node
  executeLoop a construct condition increment statements fuel :=
    (steps fuel).executeLoop a construct condition increment statements
  executeAll a nodes fuel := (steps fuel).executeAll a nodes

def withLimit (fuel : Nat) : ProgramRelation (ReaderT Nat Run) Run :=
  .ofLift (fun x y => x fuel = y) (fun _ => rfl) (fun _ => rfl) fun h hf =>
    congrArg₂ (· >>= ·) h (funext hf)

def limiting : ProgramRelation (ReaderT Nat Run) Endless :=
  .ofLift Limits .pure .lift fun h hf => h.bind hf

theorem relate_withLimit (fuel : Nat) :
    limited.Relate (withLimit fuel).toStepRelation (steps fuel) where
  evaluate _ hab := hab.eq ▸ rfl
  evaluateAll _ hab := hab.eq ▸ rfl
  operate _ _ _ := rfl
  write _ := rfl
  invoke _ _ hab hfg := hab.eq ▸ hfg.eq ▸ rfl
  execute _ hab := hab.eq ▸ rfl
  executeLoop _ _ _ _ hab := hab.eq ▸ rfl
  executeAll hab hbody := hab.eq ▸ hbody ▸ rfl

theorem relate_limiting : limited.Relate limiting.toStepRelation unlimited where
  evaluate node hab := hab.eq ▸ limits_limit fun fuel => (extend_steps fuel).evaluate node (.same _)
  evaluateAll nodes hab := hab.eq ▸ limits_limit fun fuel =>
    (extend_steps fuel).evaluateAll nodes (.same _)
  operate operator l r := limits_limit fun fuel => (extend_steps fuel).operate operator l r
  write v := limits_limit fun fuel => (extend_steps fuel).write v
  invoke signature values hab hfg := hab.eq ▸ hfg.eq ▸ limits_limit fun fuel =>
    (extend_steps fuel).invoke signature values (.same _) (.same _)
  execute node hab := hab.eq ▸ limits_limit fun fuel => (extend_steps fuel).execute node (.same _)
  executeLoop construct condition increment statements hab := hab.eq ▸ limits_limit fun fuel =>
    (extend_steps fuel).executeLoop construct condition increment statements (.same _)
  executeAll hab hbody := hab.eq ▸ hbody ▸ limits_limit fun fuel =>
    (extend_steps fuel).executeAll (.same _) rfl

section Equations

variable (a : Activation)

/-- What a kind of step says of the steps nested in it holds without a limit, if it holds with one
limit more. -/
theorem limit_eq_of_succ {x : Nat → Run α} {y : ReaderT Nat Run α} {z : Endless α}
    (h : ∀ fuel, Extends (x fuel) (x (fuel + 1))) (hlimits : Limits y z)
    (hsucc : ∀ fuel, y fuel = x (fuel + 1)) : limit x = z :=
  (limits_limit h).eq_of_succ hlimits fun fuel => (hsucc fuel).symm

theorem unlimited_evaluate (node : Node) :
    unlimited.evaluate a node = unlimited.evaluateNode a node :=
  limit_eq_of_succ (fun fuel => (extend_steps fuel).evaluate node (.same a))
    (relate_limiting.evaluateNode (.same a) node)
    fun fuel => (relate_withLimit fuel).evaluateNode (.same a) node

theorem unlimited_execute (node : Node) :
    unlimited.execute a node = unlimited.executeNode a node :=
  limit_eq_of_succ (fun fuel => (extend_steps fuel).execute node (.same a))
    (relate_limiting.executeNode (.same a) node)
    fun fuel => (relate_withLimit fuel).executeNode (.same a) node

theorem unlimited_executeLoop (construct : String) (condition increment : Node)
    (statements : List Node) : unlimited.executeLoop a construct condition increment statements =
      unlimited.executeRound a construct condition increment statements :=
  limit_eq_of_succ
    (fun fuel => (extend_steps fuel).executeLoop construct condition increment statements (.same a))
    (relate_limiting.executeRound (.same a) construct condition increment statements)
    fun fuel =>
      (relate_withLimit fuel).executeRound (.same a) construct condition increment statements

theorem unlimited_executeAll (nodes : List Node) :
    unlimited.executeAll a nodes = unlimited.executeNodes a nodes :=
  limit_eq_of_succ (fun fuel => (extend_steps fuel).executeAll (.same a) rfl)
    (relate_limiting.executeNodes (.same a) nodes)
    fun fuel => (relate_withLimit fuel).executeNodes (.same a) nodes

end Equations

/-- A run without a limit ends as one with some limit that is not cut off. -/
theorem unlimited_execute_eq_some_iff {a : Activation} {node : Node} {m : Machine}
    {e : Except Fault (Option Value) × Machine} : unlimited.execute a node m = some e ↔
      e.1 ≠ .error .unfinished ∧ ∃ fuel, ((steps fuel).execute a node).outcome m = e := by
  have hlimits : Limits (fun fuel => (steps fuel).execute a node) (unlimited.execute a node) :=
    relate_limiting.execute node (.same a)
  rw [hlimits.ends]
  simp only [settle_eq_some_iff]
  exact ⟨fun ⟨fuel, he, hcut⟩ => ⟨hcut, fuel, he⟩, fun ⟨hcut, fuel, he⟩ => ⟨fuel, he, hcut⟩⟩

section Rounds

variable {M N : Type → Type} [Monad M] [MonadLiftT Run M] [Monad N] [MonadLiftT Run N]

def Steps.test (t : Steps M) (a : Activation) (construct : String) (condition : Node) : M Bool := do
  requireBoolean a construct (← t.evaluate a condition)

def Steps.inner (t : Steps M) (a : Activation) (statements : List Node) : M (Option Value) := do
  t.executeAll (a.within (← newFrame (some a.scope))) statements

/-- The body of a loop and its increment, and what the loop gives, or none if it goes on. -/
def Steps.bodyOnce (t : Steps M) (a : Activation) (increment : Node) (statements : List Node) :
    M (Option (Option Value)) := do
  match ← t.inner a statements with
  | some v => return some (some v)
  | none =>
    if increment.isAbsent then return none
    else
      let _ ← t.execute a increment
      return none

def Steps.round (t : Steps M) (a : Activation) (construct : String) (condition increment : Node)
    (statements : List Node) : M (Option (Option Value)) := do
  if ← t.test a construct condition then
    t.bodyOnce a increment statements
  else return some none

/-- A loop is a round, and unless that gives something the loop again. -/
theorem Steps.executeRound_eq [LawfulMonad M] (t : Steps M) (a : Activation) (construct : String)
    (condition increment : Node) (statements : List Node) :
    t.executeRound a construct condition increment statements = (do
      match ← t.round a construct condition increment statements with
      | some result => return result
      | none => t.executeLoop a construct condition increment statements) := by
  unfold Steps.executeRound Steps.round Steps.test Steps.bodyOnce Steps.inner
  simp only [bind_assoc]
  congr 1
  funext v
  congr 1
  funext c
  cases c with
  | false => simp
  | true =>
    simp only [if_pos, bind_assoc]
    congr 1
    funext i
    congr 1
    funext result
    cases result with
    | some v => simp
    | none => by_cases habsent : increment.isAbsent <;> simp [habsent]

section Relate

variable {R : StepRelation M N} {s : Steps M} {t : Steps N} {a b : Activation}

theorem Steps.Relate.test (h : s.Relate R t) (hab : a.Related R.Level b) (construct : String)
    (condition : Node) : R.Rel (s.test a construct condition) (t.test b construct condition) :=
  (h.evaluate condition hab).bind fun v => R.relates_requireBoolean construct v hab

theorem Steps.Relate.inner (h : s.Relate R t) (hab : a.Related R.Level b) (statements : List Node) :
    R.Rel (s.inner a statements) (t.inner b statements) := by
  unfold Steps.inner
  rw [hab.scope]
  exact (R.relates_newFrame _).bind fun frame =>
    h.executeAll (hab.within frame) (R.body_refl _ statements)

theorem Steps.Relate.bodyOnce (h : s.Relate R t) (hab : a.Related R.Level b) (increment : Node)
    (statements : List Node) :
    R.Rel (s.bodyOnce a increment statements) (t.bodyOnce b increment statements) := by
  refine (h.inner hab statements).bind fun result => ?_
  cases result with
  | some v => exact .pure _
  | none => exact .ite (.pure _) ((h.execute increment hab).bind fun _ => .pure _)

theorem Steps.Relate.round (h : s.Relate R t) (hab : a.Related R.Level b) (construct : String)
    (condition increment : Node) (statements : List Node) :
    R.Rel (s.round a construct condition increment statements)
      (t.round b construct condition increment statements) :=
  (h.test hab construct condition).bind fun _ =>
    .ite (h.bodyOnce hab increment statements) (.pure _)

end Relate

/-- At most `n` rounds, until one gives a result. -/
def rounds (x : Endless (Option α)) : Nat → Endless α
  | 0 => fun _ => none
  | n + 1 => do
    match ← x with
    | some a => return a
    | none => rounds x n

section Loops

variable (a : Activation) (construct : String) (condition increment : Node) (statements : List Node)

theorem limits_bodyOnce : Limits (fun fuel => (steps fuel).bodyOnce a increment statements)
    (unlimited.bodyOnce a increment statements) :=
  (relate_limiting.bodyOnce (.same a) increment statements).congr
    fun fuel => (relate_withLimit fuel).bodyOnce (.same a) increment statements

theorem limits_round :
    Limits (fun fuel => (steps fuel).round a construct condition increment statements)
      (unlimited.round a construct condition increment statements) :=
  (relate_limiting.round (.same a) construct condition increment statements).congr
    fun fuel => (relate_withLimit fuel).round (.same a) construct condition increment statements

/-- A loop with a limit takes fewer rounds than that. -/
theorem rounds_of_settle {fuel : Nat} {m : Machine} {e : Except Fault (Option Value) × Machine}
    (h : settle ((steps fuel).executeLoop a construct condition increment statements) m = some e) :
    rounds (unlimited.round a construct condition increment statements) fuel m = some e := by
  induction fuel generalizing m with
  | zero => cases h
  | succ fuel ih =>
    have hround : (steps (fuel + 1)).executeLoop a construct condition increment statements =
        (steps fuel).executeRound a construct condition increment statements := rfl
    rw [hround, Steps.executeRound_eq, settle_bind, endless_bind_eq_some_iff] at h
    have hlimits := limits_round a construct condition increment statements
    refine endless_bind_eq_some_iff.mpr (h.imp ?_ ?_)
    · rintro ⟨fault, m', hx, rfl⟩
      exact ⟨fault, m', (hlimits.ends _ _).mpr ⟨fuel, hx⟩, rfl⟩
    · rintro ⟨result, m', hx, hrest⟩
      refine ⟨result, m', (hlimits.ends _ _).mpr ⟨fuel, hx⟩, ?_⟩
      cases result with
      | some v => exact hrest
      | none => exact ih hrest

/-- A loop ends as some number of its rounds. -/
theorem executeLoop_eq_some_iff {m : Machine} {e : Except Fault (Option Value) × Machine} :
    unlimited.executeLoop a construct condition increment statements m = some e ↔
      ∃ n, rounds (unlimited.round a construct condition increment statements) n m = some e := by
  constructor
  · intro h
    have hlimits : Limits
        (fun fuel => (steps fuel).executeLoop a construct condition increment statements)
        (unlimited.executeLoop a construct condition increment statements) :=
      relate_limiting.executeLoop construct condition increment statements (.same a)
    obtain ⟨fuel, h⟩ := (hlimits.ends _ _).mp h
    exact ⟨fuel, rounds_of_settle a construct condition increment statements h⟩
  · rintro ⟨n, h⟩
    induction n generalizing m with
    | zero => cases h
    | succ n ih =>
      rw [unlimited_executeLoop, Steps.executeRound_eq, endless_bind_eq_some_iff]
      refine (endless_bind_eq_some_iff.mp h).imp id ?_
      rintro ⟨result, m', hx, hrest⟩
      refine ⟨result, m', hx, ?_⟩
      cases result with
      | some v => exact hrest
      | none => exact ih hrest

end Loops

end Rounds

end BlockScript
