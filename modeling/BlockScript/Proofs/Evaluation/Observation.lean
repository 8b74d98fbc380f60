import BlockScript.Proofs.Evaluation.Limit
import BlockScript.Proofs.Evaluation.Quiet
import BlockScript.Proofs.Evaluation.Slots
import BlockScript.Proofs.Grammar.Correctness
/-!
# Runs at two levels of the trace

A program takes the same steps and prints the same at every level of the trace. There is one
exception: a line of the trace cannot show an integer of too many digits, and the run that writes
it ends there.
-/
namespace BlockScript

open Run StepRelation

/-- The same level, or `l'` in place of `l`. -/
def Raised (l l' k k' : Nat) : Prop := k' = k ∨ k = l ∧ k' = l'

/-- The first console has printed the beginning of what the second one has. -/
def Console.Before (c c' : Console) : Prop := ∃ rest, c'.output = c.output ++ rest

/-- Consoles that have printed the same. If the levels differ both keep a trace, and the traces may
differ. -/
structure Console.Twin (l l' : Nat) (c c' : Console) : Prop where
  output : c'.output = c.output
  traces : l' = l ∧ c' = c ∨ c.isOpen = true ∧ c'.isOpen = true

def SameBare (_ : Nat) (statements statements' : List Node) : Prop :=
  statements.map Node.bare = statements'.map Node.bare

abbrev Function.Twin (l l' : Nat) : Function → Function → Prop :=
  Function.Related (Raised l l') SameBare

/-- Machines at the same point of a program. A frame may bind its functions in another order. -/
structure Machine.Twin (l l' : Nat) (m m' : Machine) : Prop where
  scopes : m.scopes.Corresponds id Eq (Function.Twin l l') m'.scopes
  console : m.console.Twin l l' m'.console

/-- Two ends of a step at the levels `l` and `l'`: they are the same, or the second one comes early,
at a line of the trace that only `l'` has. -/
inductive Agrees {α : Type} (l l' : Nat) :
    Except Fault α × Machine → Except Fault α × Machine → Prop where
  | ok {a : α} {m m' : Machine} (twin : m.Twin l l' m') : Agrees l l' (.ok a, m) (.ok a, m')
  | error {fault : Fault} {m m' : Machine} (output : m'.console.output = m.console.output) :
      Agrees l l' (.error fault, m) (.error fault, m')
  | cut {e : Except Fault α × Machine} {m' : Machine} (lower : l < l') (traced : 2 ≤ l')
      (printed : m'.console.Before e.2.console) : Agrees l l' e (.error .tooManyDigits, m')

/-- The steps agree from any two machines at the same point, and the first one takes back nothing
that is printed. -/
structure Observes {α : Type} (l l' : Nat) (x y : Run α) : Prop where
  prints : ∀ m : Machine, m.console.Before (x.outcome m).2.console
  agrees : ∀ {m m' : Machine}, m.Twin l l' m' → Agrees l l' (x.outcome m) (y.outcome m')

section Consoles

variable {c c' c'' : Console}

theorem Console.Before.refl (c : Console) : c.Before c := ⟨"", (String.append_empty).symm⟩

theorem Console.Before.trans (h : c.Before c') (h' : c'.Before c'') : c.Before c'' := by
  obtain ⟨rest, hrest⟩ := h
  obtain ⟨rest', hrest'⟩ := h'
  exact ⟨rest ++ rest', by rw [hrest', hrest, String.append_assoc]⟩

theorem Console.before_printLine (c : Console) (line : String) : c.Before (c.printLine line) :=
  ⟨line ++ "\n", String.append_assoc⟩

theorem Console.before_note (c : Console) (stage : Stage) (line : String) :
    c.Before (c.note stage line) := by
  unfold Console.note
  split
  · exact .refl c
  · exact c.before_printLine line

end Consoles

variable {α β : Type} {l l' : Nat}

theorem Function.twin_refl (f : Function) : f.Twin l l' f :=
  .refl (fun _ => .inl rfl) (fun _ _ => by rfl) f

theorem Machine.Twin.output {m m' : Machine} (h : m.Twin l l' m') :
    m'.console.output = m.console.output := h.console.output

/-- What is printed first stays printed. -/
theorem before_bind {x : Run α} {f g : α → Run β} (hf : ∀ a, Observes l l' (f a) (g a))
    (m : Machine) : (x.outcome m).2.console.Before ((x >>= f).outcome m).2.console := by
  rw [outcome_bind]
  obtain ⟨a | fault, m₁⟩ := x.outcome m
  · exact .refl _
  · exact (hf _).prints m₁

theorem Agrees.bind {x y : Run α} {f g : α → Run β} {m m' : Machine}
    (h : Agrees l l' (x.outcome m) (y.outcome m')) (hf : ∀ a, Observes l l' (f a) (g a)) :
    Agrees l l' ((x >>= f).outcome m) ((y >>= g).outcome m') := by
  have hcut := before_bind (x := x) hf m
  rw [outcome_bind, outcome_bind] at *
  generalize x.outcome m = e at h hcut ⊢
  generalize y.outcome m' = e' at h ⊢
  cases h with
  | ok twin => exact (hf _).agrees twin
  | error output => exact .error output
  | cut lower traced printed => exact .cut lower traced (printed.trans hcut)

/-- At the same level no line of the trace makes a difference. -/
theorem Agrees.same {e e' : Except Fault α × Machine} (h : Agrees l l e e') :
    e'.1 = e.1 ∧ e'.2.console.output = e.2.console.output := by
  cases h with
  | ok twin => exact ⟨rfl, twin.output⟩
  | error output => exact ⟨rfl, output⟩
  | cut lower => exact absurd lower (Nat.lt_irrefl l)

namespace Observes

theorem pure (a : α) : Observes l l' (pure a) (Pure.pure a) :=
  ⟨fun _ => .refl _, fun twin => .ok twin⟩

theorem settled (result : Except Fault α) : Observes l l' (Run.lift result) (Run.lift result) := by
  cases result with
  | ok a => exact .pure a
  | error fault => exact ⟨fun _ => .refl _, fun twin => .error twin.output⟩

theorem bind {x y : Run α} {f g : α → Run β} (h : Observes l l' x y)
    (hf : ∀ a, Observes l l' (f a) (g a)) : Observes l l' (x >>= f) (y >>= g) :=
  ⟨fun m => (h.prints m).trans (before_bind hf m), fun twin => (h.agrees twin).bind hf⟩

/-- A step that writes nothing agrees with one that comes to the same end. -/
theorem quiet {x y : Run α} (h : Quiet (Function.Twin l l') x y) : Observes l l' x y := by
  refine ⟨fun m => ?_, fun {m m'} twin => ?_⟩
  · have hends := h (.refl Function.twin_refl m)
    generalize x.outcome m = e at hends ⊢
    generalize y.outcome m = e' at hends
    cases hends <;> exact .refl _
  · have hends := h twin.scopes
    generalize x.outcome m = e at hends ⊢
    generalize y.outcome m' = e' at hends ⊢
    cases hends with
    | ok scopes => exact .ok ⟨scopes, twin.console⟩
    | error => exact .error twin.output

end Observes

section Operations

theorem Console.Twin.printLine {c c' : Console} (h : c.Twin l l' c') (line : String) :
    (c.printLine line).Twin l l' (c'.printLine line) := by
  obtain ⟨output, ⟨rfl, rfl⟩ | ⟨kept, kept'⟩⟩ := h
  · exact ⟨rfl, .inl ⟨rfl, rfl⟩⟩
  · exact ⟨by simp only [Console.printLine, output], .inr ⟨kept, kept'⟩⟩

theorem observes_printLine (line : String) : Observes l l' (printLine line) (printLine line) :=
  ⟨fun m => m.console.before_printLine line, fun twin =>
    .ok ⟨twin.scopes, twin.console.printLine line⟩⟩

/-- A step that goes on with a function that is looked up. -/
theorem observes_lookUp {find : Run Function} (hfind : Finds (Function.Twin l l') find)
    {k k' : Function → Run α} (hk : ∀ f g, f.Twin l l' g → Observes l l' (k f) (k' g)) :
    Observes l l' (find >>= k) (find >>= k') := by
  refine ⟨fun m => ?_, fun {m m'} twin => ?_⟩
  · rw [outcome_bind]
    obtain ⟨fault, hm, -⟩ | ⟨f, -, -, hm, -⟩ := hfind (.refl Function.twin_refl m) <;> rw [hm]
    · exact .refl _
    · exact (hk f f (Function.twin_refl f)).prints m
  · rw [outcome_bind, outcome_bind]
    obtain ⟨fault, hm, hm'⟩ | ⟨f, g, hfg, hm, hm'⟩ := hfind twin.scopes <;> rw [hm, hm']
    · exact .error twin.output
    · exact (hk f g hfg).agrees twin

def Machine.noted (m : Machine) (a : Activation) (least : Nat) (line : String) : Machine :=
  if least ≤ a.level then { m with console := m.console.note .running line } else m

theorem Machine.Twin.noted {m m' : Machine} (h : m.Twin l l' m') {a b : Activation}
    (hab : a.Related (Raised l l') b) (least : Nat) (line : String) :
    (m.noted a least line).Twin l l' (m'.noted b least line) := by
  obtain ⟨scopes, output, ⟨rfl, hsame⟩ | ⟨kept, kept'⟩⟩ := h
  · have hlevel : b.level = a.level := by
      obtain hlevel | ⟨hlow, hhigh⟩ := hab.level
      · exact hlevel
      · exact hhigh.trans hlow.symm
    unfold Machine.noted
    rw [hlevel, hsame]
    split
    · exact ⟨scopes, rfl, .inl ⟨rfl, rfl⟩⟩
    · exact ⟨scopes, output, .inl ⟨rfl, hsame⟩⟩
  · unfold Machine.noted Console.note
    rw [if_pos kept, if_pos kept']
    split <;> split <;> exact ⟨scopes, output, .inr ⟨kept, kept'⟩⟩

theorem outcome_noteAt (a : Activation) (least : Nat) (line : String) (m : Machine) :
    (noteAt a least (pure line)).outcome m = (.ok (), m.noted a least line) := by
  unfold noteAt Machine.noted
  split <;> rfl

theorem outcome_noteAt_throw (a : Activation) (least : Nat) (fault : Fault) (m : Machine) :
    (noteAt a least (throw fault)).outcome m =
      (if least ≤ a.level then .error fault else .ok (), m) := by
  unfold noteAt
  split <;> rfl

/-- A line of the trace may end the second run, but only a line that the first one does not have. -/
theorem observes_noteAt (hle : l ≤ l') {a b : Activation} (hab : a.Related (Raised l l') b)
    {least : Nat} {line : Run String} (hline : Shows line)
    (hleast : 2 ≤ least ∨ ∃ text, line = pure text) :
    Observes l l' (noteAt a least line) (noteAt b least line) := by
  obtain ⟨text, rfl⟩ | rfl := hline
  · refine ⟨fun m => ?_, fun twin => ?_⟩
    · rw [outcome_noteAt]
      unfold Machine.noted
      split
      · exact m.console.before_note .running text
      · exact .refl _
    · rw [outcome_noteAt, outcome_noteAt]
      exact .ok (twin.noted hab least text)
  have hpos : 2 ≤ least := by
    refine hleast.resolve_right ?_
    rintro ⟨text, htext⟩
    cases congrFun htext .empty
  refine ⟨fun m => ?_, fun {m m'} twin => ?_⟩
  · rw [outcome_noteAt_throw]
    exact .refl _
  · rw [outcome_noteAt_throw, outcome_noteAt_throw]
    have hlevel := hab.level
    unfold Raised at hlevel
    split
    · rw [if_pos (by omega)]
      exact .error twin.output
    · split
      · exact .cut (by omega) (by omega) ⟨"", by rw [twin.output, String.append_empty]⟩
      · exact .ok twin

theorem observes_requireBoolean (hle : l ≤ l') {a b : Activation}
    (hab : a.Related (Raised l l') b) (construct : String) (v : Value) :
    Observes l l' (requireBoolean a construct v) (requireBoolean b construct v) := by
  unfold requireBoolean
  split
  · refine (observes_noteAt hle hab ?_ (.inl (by decide))).bind fun _ => .pure _
    exact (shows_text _).bind fun _ => shows_pure _
  · exact .settled (.error _)

theorem observes_bindVariable (hle : l ≤ l') {a b : Activation}
    (hab : a.Related (Raised l l') b) (what name : String) (v : Variable) :
    Observes l l' (bindVariable a what name v) (bindVariable b what name v) := by
  unfold bindVariable
  rw [hab.scope]
  refine (Observes.quiet (quiet_defineVariable b.scope name v)).bind fun _ => ?_
  exact observes_noteAt hle hab ((shows_text _).bind fun _ => shows_pure _) (.inl (by decide))

theorem observes_defineMethod (hle : l ≤ l') {a b : Activation}
    (hab : a.Related (Raised l l') b) (node : Node) :
    Observes l l' (defineMethod a node) (defineMethod b node) := by
  cases node with
  | method name parameters parameterTypes returnType statements callee =>
    unfold defineMethod
    rw [hab.scope]
    refine (Observes.quiet (quiet_defineFunction b.scope _ ?_)).bind fun _ =>
      observes_noteAt hle hab (shows_pure _) (.inl (by decide))
    exact .method hab.level (by rfl)
  | _ => exact .settled (.error _)

end Operations

def observing (hle : l ≤ l') : ProgramRelation Run Run where
  Rel := Observes l l'
  Level := Raised l l'
  Body := SameBare
  body_refl _ _ := rfl
  relates_pure := .pure
  relates_bind := .bind
  relates_settled := .settled
  relates_printLine := observes_printLine
  relates_newFrame parent := .quiet (quiet_newFrame parent)
  relates_bindArguments scope names values := .quiet (quiet_bindArguments scope names values)
  relates_findVariable scope name := .quiet (quiet_findVariable scope name)
  relates_assignVariable scope name value := .quiet (quiet_assignVariable scope name value)
  relates_getField typeName members name := .quiet (quiet_getField typeName members name)
  relates_setField typeName members name value :=
    .quiet (quiet_setField typeName members name value)
  relates_noteAt hab hline hleast := observes_noteAt hle hab hline hleast
  relates_requireBoolean construct v hab := observes_requireBoolean hle hab construct v
  relates_bindVariable what name v hab := observes_bindVariable hle hab what name v
  relates_defineMethod node hab := observes_defineMethod hle hab node
  relates_findFunction scope signature _ _ hk :=
    observes_lookUp (finds_findFunction scope signature) hk
  relates_findMethod typeName members name arguments _ _ hk :=
    observes_lookUp (finds_findMethod typeName members name arguments) hk
  relates_findMain {_ a b _ _} hab hk := by
    have hmain : findMain a = findMain b := by rw [findMain, findMain, hab.scope]
    rw [hmain]
    exact observes_lookUp (finds_findMain b) hk

theorem observe_steps (hle : l ≤ l') (fuel : Nat) :
    (steps fuel).Relate (observing hle).toStepRelation (steps fuel) := by
  induction fuel with
  | zero => exact Steps.relate_giveUp _
  | succ fuel ih => exact ih.next fun _ hbody => (steps_ignoreSlots fuel).executeNodes_congr _ hbody

theorem twin_addRoot {m : Machine} (hkept : m.console.isOpen = true) (parent : Option FrameId)
    (l l' : Nat) : (m.addRoot parent l).Twin l l' (m.addRoot parent l') := by
  exact ⟨.refl (fun _ => rfl) Function.twin_refl _, rfl, .inr ⟨hkept, hkept⟩⟩

/-- At every level of the trace a program ends the same way and prints the same, or it fails at the
higher level for a line of the trace with an integer of too many digits. Until then it prints the
same. -/
theorem observed_unless_overlong {m : Machine} (hkept : m.console.isOpen = true)
    (parent : Option FrameId) {l l' : Nat} (hle : l ≤ l') (fuel : Nat) (program : Node) :
    let lower := (m.addRoot parent l).runWithin fuel program
    let higher := (m.addRoot parent l').runWithin fuel program
    higher.1 = lower.1 ∧ higher.2.console.output = lower.2.console.output ∨
      l < l' ∧ 2 ≤ l' ∧ higher.1 = .error .tooManyDigits ∧
        ∃ rest, lower.2.console.output = higher.2.console.output ++ rest := by
  have hroot : (m.addRoot parent l).activation.Related (Raised l l')
      (m.addRoot parent l').activation := ⟨rfl, rfl, .inr ⟨rfl, rfl⟩⟩
  have hobserves : Observes l l' _ _ := (observe_steps hle fuel).executeProgram hroot program
  have hends := hobserves.agrees (twin_addRoot hkept parent l l')
  unfold Machine.runWithin
  generalize outcome _ (m.addRoot parent l) = e at hends ⊢
  generalize outcome _ (m.addRoot parent l') = e' at hends ⊢
  cases hends with
  | ok twin => exact .inl ⟨rfl, twin.output⟩
  | error output => exact .inl ⟨rfl, output⟩
  | cut lower traced printed => exact .inr ⟨lower, traced, rfl, printed⟩

/-- At the levels 0 and 1 a program that adds two numbers ends the same way. -/
theorem observed_unless_overlong_sum :
    let program := programOf "DEF main(): Integer DO RETURN 1 + 2; END"
    Machine.empty.console.isOpen = true ∧ 0 ≤ 1 ∧
      ((Machine.empty.addRoot none 1).runWithin 100 program).1 =
        ((Machine.empty.addRoot none 0).runWithin 100 program).1 := by
  refine ⟨rfl, by decide, ?_⟩
  rcases observed_unless_overlong (m := .empty) rfl none (Nat.zero_le 1) 100
    (programOf "DEF main(): Integer DO RETURN 1 + 2; END") with h | ⟨-, h, -⟩
  · exact h.1
  · exact absurd h (by decide)

theorem run_of_runWithin {m : Machine} {program : Node} {result : Except Fault Value} (fuel : Nat)
    (hle : fuel ≤ stepLimit) (h : (m.runWithin fuel program).1 = result)
    (hfinished : result ≠ .error .unfinished) : (m.run program).1 = result := by
  subst h
  rw [Machine.run, runWithin_of_le hle hfinished]

def boundSquare : String :=
  "DEF f(x: Integer): Integer DO RETURN x * x; END " ++
    "DEF main(): Integer DO LET a = f(f(f(f(f(f(f(f(f(f(f(f(f(10))))))))))))); RETURN 0; END"

theorem boundSquare_lower :
    ((Machine.empty.addRoot none 0).run (programOf boundSquare)).1 = .ok (.integer 0) := by
  have hrun : endsWithInteger 0
      ((Machine.empty.addRoot none 0).runWithin 100 (programOf boundSquare)).1 = true := by
    decide +kernel
  exact run_of_runWithin 100 (by decide) (eq_of_endsWithInteger hrun) (by simp)

theorem boundSquare_higher :
    ((Machine.empty.addRoot none 2).run (programOf boundSquare)).1 = .error .tooManyDigits := by
  have hrun : failsOverlong
      ((Machine.empty.addRoot none 2).runWithin 100 (programOf boundSquare)).1 = true := by
    decide +kernel
  exact run_of_runWithin 100 (by decide) (eq_of_failsOverlong hrun) (by simp)

theorem boundSquare_not_observed :
    ¬∀ (m : Machine) (parent : Option FrameId) (l l' : Nat) (program : Node),
      m.console.isOpen = true →
        ((m.addRoot parent l').run program).1 = ((m.addRoot parent l).run program).1 ∧
        ((m.addRoot parent l').run program).2.console.output =
          ((m.addRoot parent l).run program).2.console.output := by
  intro h
  have hsame := (h .empty none 0 2 (programOf boundSquare) rfl).1
  rw [boundSquare_lower, boundSquare_higher] at hsame
  cases hsame

end BlockScript
