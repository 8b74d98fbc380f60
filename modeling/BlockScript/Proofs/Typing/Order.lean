import BlockScript.Proofs.Typing.Renumbering
/-!
# Checking methods in another order

The body of a method is checked in frames of its own, and what it sees outside of them does not
change from one body to the next. So two bodies can change places: the same frames come out, under
other numbers. The signatures of all methods are there before the first body, and which of them
came first does not matter either.
-/
namespace BlockScript

open Check

section Exchange

variable {base n : Nat} {s s₁ s₂ t₁ t₂ : Scopes StaticVariable StaticFunction}
  {ρ σ : FrameId → FrameId}

/-- Makes room for `b` frames behind the first `n`. -/
def shift (n b i : Nat) : Nat := if i < n then i else i + b

/-- Exchanges the `a` frames behind the first `n` and the `b` frames behind those. -/
def exchange (n a b i : Nat) : Nat :=
  if i < n then i else if i < n + a then i + b else if i < n + a + b then i - a else i

theorem shift_injective (n b : Nat) : Function.Injective (shift n b) := by
  intro i j h
  unfold shift at h
  split at h <;> split at h <;> omega

theorem exchange_injective (n a b : Nat) : Function.Injective (exchange n a b) := by
  intro i j h
  unfold exchange at h
  split_ifs at h <;> omega

theorem exchange_of_lt {n a b i : Nat} (hi : i < n + a) : exchange n a b i = shift n b i := by
  unfold exchange shift
  split_ifs <;> rfl

theorem exchange_shift {n a b i : Nat} (hi : i < n + b) : exchange n a b (shift n a i) = i := by
  unfold exchange shift
  split_ifs <;> omega

theorem exchange_of_le {n a b i : Nat} (hi : n + a + b ≤ i) : exchange n a b i = i := by
  unfold exchange
  split_ifs <;> omega

theorem shift_of_lt {n b i : Nat} (hi : i < n) : shift n b i = i := if_pos hi

theorem shift_add (n b k : Nat) : shift n b (n + k) = n + b + k := by
  unfold shift
  split <;> omega

theorem le_shift {n b i : Nat} (hi : ¬i < n) : n + b ≤ shift n b i := by
  unfold shift
  split <;> omega

theorem exists_shift {n a b i : Nat} (hi : ¬i < n + a) (hi' : i < n + a + b) :
    ∃ j < n + b, shift n a j = i := by
  refine ⟨i - a, by omega, ?_⟩
  unfold shift
  split <;> omega

/-- Under numbers that are the same for all that a frame says, another frame corresponds to it
again. -/
theorem corresponds_congr {fr fr' : Frame StaticVariable StaticFunction}
    (h : fr.Corresponds ρ (fun v v' => v' = v.rename ρ) (fun f f' => f' = f) fr')
    (hparent : ∀ p, fr.parent = some p → σ p = ρ p)
    (hvars : ∀ b ∈ fr.boundVariables, σ b.2.home = ρ b.2.home) :
    fr.Corresponds σ (fun v v' => v' = v.rename σ) (fun f f' => f' = f) fr' := by
  refine ⟨?_, fun name => ?_, h.funs⟩
  · rw [h.parent]
    cases hp : fr.parent with
    | none => rfl
    | some p => rw [Option.map_some, Option.map_some, hparent p hp]
  · obtain ⟨hv, hv'⟩ | ⟨v, v', hv, hv', rfl⟩ := rel_cases (h.vars name) <;> rw [hv, hv']
    · exact .none
    · refine .some ?_
      rw [StaticVariable.rename, StaticVariable.rename, hvars _ (mem_of_lookup hv)]

/-- The other way round, under numbers that take back the first ones. -/
theorem corresponds_symm {fr fr' : Frame StaticVariable StaticFunction}
    (h : fr.Corresponds ρ (fun v v' => v' = v.rename ρ) (fun f f' => f' = f) fr')
    (hparent : ∀ p, fr.parent = some p → σ (ρ p) = p)
    (hvars : ∀ b ∈ fr.boundVariables, σ (ρ b.2.home) = b.2.home) :
    fr'.Corresponds σ (fun v v' => v' = v.rename σ) (fun f f' => f' = f) fr := by
  refine ⟨?_, fun name => ?_, fun signature => ?_⟩
  · rw [h.parent]
    cases hp : fr.parent with
    | none => rfl
    | some p => rw [Option.map_some, Option.map_some, hparent p hp]
  · obtain ⟨hv, hv'⟩ | ⟨v, v', hv, hv', rfl⟩ := rel_cases (h.vars name) <;> rw [hv, hv']
    · exact .none
    · refine .some ?_
      rw [StaticVariable.rename, StaticVariable.rename, hvars _ (mem_of_lookup hv)]
  · obtain ⟨hf, hf'⟩ | ⟨f, f', hf, hf', rfl⟩ := rel_cases (h.funs signature) <;> rw [hf, hf']
    · exact .none
    · exact .some rfl

/-- Frames that are added behind others leave those their numbers. -/
theorem renumbered_shift {b : Nat} (hs : AtHome base s) (hbase : base ≤ s.next)
    (hkept : ∀ i < s.next, s₁.frames[i]? = s.frames[i]?) (hnext : s₁.next = s.next + b) :
    Renumbered base (shift s.next b) s s₁ := by
  refine ⟨fun i hi => shift_of_lt (Nat.lt_of_lt_of_le hi hbase), hs, shift_injective _ _,
    fun k => ?_, fun i => ?_⟩
  · rw [shift_add, hnext]
  by_cases hi : i < s.next
  · have hfr : s.frames[i]? = some s.frames[i] := Array.getElem?_eq_getElem hi
    rw [shift_of_lt hi, hkept i hi, hfr]
    have hsame := (Renumbered.refl hs).corresponds.frames i
    rw [id, hfr] at hsame
    cases hsame with
    | some hsame =>
      refine .some (corresponds_congr hsame (fun p hp => ?_) fun b hb => ?_)
      · exact shift_of_lt (Nat.lt_trans (Scopes.parent_lt_of_getElem? hfr hp) hi)
      · rw [(hs.vars i _ hfr b hb).1]
        exact shift_of_lt hi
  · have hlarge : s₁.next ≤ shift s.next b i := by
      rw [hnext]
      exact le_shift hi
    rw [Array.getElem?_eq_none (Nat.le_of_not_lt hi), Array.getElem?_eq_none hlarge]
    exact .none

/-- From the same frames, `s₁` has more frames, and then `s₂` has those of `t₁` behind them, while
`t₂` has first those of `t₁` and then those of `s₁`. -/
theorem renumbered_exchange {a b : Nat} (hbase : base ≤ n) (hs₁ : s₁.next = n + a)
    (ht₁ : t₁.next = n + b) (h₁ : Renumbered base (shift n b) s₁ t₂)
    (h₂ : Renumbered base (shift n a) t₁ s₂) (hs₂ : AtHome base s₂)
    (hkept : ∀ i < s₁.next, s₂.frames[i]? = s₁.frames[i]?)
    (hkept' : ∀ i < t₁.next, t₂.frames[i]? = t₁.frames[i]?) :
    Renumbered base (exchange n a b) s₂ t₂ := by
  have hs₂next : s₂.next = n + a + b := by
    rw [← h₂.corresponds.next_eq, ht₁, shift_add]
  have ht₂next : t₂.next = n + a + b := by
    rw [← h₁.corresponds.next_eq, hs₁, shift_add]
    exact Nat.add_right_comm n b a
  refine ⟨fun i hi => if_pos (Nat.lt_of_lt_of_le hi hbase), hs₂, exchange_injective _ _ _,
    fun k => ?_, fun i => ?_⟩
  · rw [hs₂next, ht₂next]
    exact exchange_of_le (Nat.le_add_right _ _)
  by_cases hi : i < n + a
  · -- The frames of `s₁`.
    rw [exchange_of_lt hi, hkept i (by rwa [hs₁])]
    obtain ⟨hfr, hfr'⟩ | ⟨fr, fr', hfr, hfr', hrel⟩ := rel_cases (h₁.corresponds.frames i) <;>
      rw [hfr, hfr']
    · exact .none
    refine .some (corresponds_congr hrel (fun p hp => exchange_of_lt ?_) fun v hv => ?_)
    · exact Nat.lt_trans (Scopes.parent_lt_of_getElem? hfr hp) hi
    · rw [(h₁.home.vars i fr hfr v hv).1]
      exact exchange_of_lt hi
  by_cases hi' : i < n + a + b
  · -- The frames that `t₁` has behind the first ones.
    obtain ⟨j, hj, rfl⟩ := exists_shift hi hi'
    rw [exchange_shift hj, hkept' j (by rwa [ht₁])]
    obtain ⟨hfr, hfr'⟩ | ⟨fr, fr', hfr, hfr', hrel⟩ := rel_cases (h₂.corresponds.frames j) <;>
      rw [hfr, hfr']
    · exact .none
    refine .some (corresponds_symm hrel (fun p hp => exchange_shift ?_) fun v hv => ?_)
    · exact Nat.lt_trans (Scopes.parent_lt_of_getElem? hfr hp) hj
    · rw [(h₂.home.vars j fr hfr v hv).1]
      exact exchange_shift hj
  · have hlarge : n + a + b ≤ i := Nat.le_of_not_lt hi'
    have hs : s₂.next ≤ i := hs₂next ▸ hlarge
    have ht : t₂.next ≤ i := ht₂next ▸ hlarge
    rw [exchange_of_le hlarge, Array.getElem?_eq_none hs, Array.getElem?_eq_none ht]
    exact .none

end Exchange

section Bodies

variable {base : Nat} {root : FrameId} {c d : Checker} {node node' : Node}

/-- What is known of a body that has been checked: the frames that were there are as they were,
and the tree that came back names no other frames than those that are there now. -/
structure CheckedBody (base : Nat) (c d : Checker) (node : Node) : Prop where
  home : AtHome base d.scopes
  same : ∀ i < c.scopes.next, d.scopes.frames[i]? = c.scopes.frames[i]?
  le : c.scopes.next ≤ d.scopes.next
  copied : Copied id d.scopes.next node node

theorem checkedBody_of_ok (hs : AtHome base c.scopes) (hnode : node.PlainHead)
    (h : checkBody root node c = .ok node' d) : CheckedBody base c d node' := by
  have hfollows : Follows base id (· < c.scopes.next) c.scopes.next (checkBody root node)
      (checkBody (id root) node) (Copied id) := follows_checkBody (fun _ => id) root hnode
  have hends := hfollows c c (.refl hs) (Nat.le_refl _)
  rw [id, h] at hends
  cases hends with
  | ok numbers same le holds => exact ⟨numbers.home, same, le, holds⟩

/-- A body can be checked before another one or after it. -/
theorem checkBody_after {a : Nat} (hs : AtHome base c.scopes) (hbase : base ≤ c.scopes.next)
    (hroot : root < base) (hnode : CheckedBody base c d node)
    (ha : d.scopes.next = c.scopes.next + a) {other : Node} (hother : other.PlainHead) :
    EndAlike base (shift c.scopes.next a) (· < c.scopes.next) (Copied (shift c.scopes.next a)) c
      (checkBody root other c) (checkBody root other d) := by
  have hshift : Renumbered base (shift c.scopes.next a) c.scopes d.scopes :=
    renumbered_shift hs hbase hnode.same ha
  have hfollows : Follows base (shift c.scopes.next a) (· < c.scopes.next) c.scopes.next
      (checkBody root other) (checkBody (shift c.scopes.next a root) other)
      (Copied (shift c.scopes.next a)) := follows_checkBody (fun _ => id) root hother
  rw [hshift.fixes root hroot] at hfollows
  exact hfollows c d hshift (Nat.le_refl _)

theorem Renumbered.trans {ρ τ : FrameId → FrameId} {s w u : Scopes StaticVariable StaticFunction}
    (h : Renumbered base ρ s w) (h' : Renumbered base τ w u) : Renumbered base (τ ∘ ρ) s u where
  fixes i hi := by rw [Function.comp_apply, h.fixes i hi, h'.fixes i hi]
  home := h.home
  corresponds := by
    refine h.corresponds.trans ?_ ?_ h'.corresponds
    · rintro v _ _ rfl rfl
      rfl
    · rintro f _ _ rfl rfl
      rfl

/-- Two runs that check lists of trees end alike: both fail, or the same trees come out in another
order and under other numbers for the frames that are new. -/
inductive Permuted (base : Nat) (c : Checker) : EStateM.Result Fault Checker (List Node) →
    EStateM.Result Fault Checker (List Node) → Prop
  | ok {nodes nodes' : List Node} {d d' : Checker} (ρ : FrameId → FrameId)
      (numbers : Renumbered base ρ d.scopes d'.scopes) (fixes : ∀ i < c.scopes.next, ρ i = i)
      (le : c.scopes.next ≤ d.scopes.next) (perm : nodes'.Perm (nodes.map (Node.rename ρ))) :
      Permuted base c (.ok nodes d) (.ok nodes' d')
  | error {fault fault' : Fault} {d d' : Checker} :
      Permuted base c (.error fault d) (.error fault' d')

theorem Permuted.trans {r r' r'' : EStateM.Result Fault Checker (List Node)}
    (h : Permuted base c r r') (h' : Permuted base c r' r'') : Permuted base c r r'' := by
  cases h with
  | error =>
    cases h'
    exact .error
  | ok ρ numbers fixes le perm =>
    cases h' with
    | ok τ numbers' fixes' le' perm' =>
      refine .ok (τ ∘ ρ) (numbers.trans numbers') (fun i hi => ?_) le (perm'.trans ?_)
      · rw [Function.comp_apply, fixes i hi, fixes' i hi]
      · have hmapped := perm.map (Node.rename τ)
        rw [List.map_map] at hmapped
        simpa only [Function.comp_def, Node.rename_rename] using hmapped

theorem run_mapM_cons (f : Node → Check Node) (node : Node) (rest : List Node) (c : Checker) :
    (node :: rest).mapM f c = match f node c with
      | .error fault d => .error fault d
      | .ok node' d => match rest.mapM f d with
        | .error fault e => .error fault e
        | .ok rest' e => .ok (node' :: rest') e := by
  rw [List.mapM_cons]
  simp only [bind, EStateM.bind]
  cases f node c with
  | error fault d => rfl
  | ok node' d =>
    dsimp only
    cases rest.mapM f d <;> rfl

/-- Two bodies change places. -/
theorem permuted_pair (hs : AtHome base c.scopes) (hbase : base ≤ c.scopes.next)
    (hroot : root < base) {x y : Node} (hx : x.PlainHead) (hy : y.PlainHead) :
    Permuted base c ([y, x].mapM (checkBody root) c) ([x, y].mapM (checkBody root) c) := by
  simp only [run_mapM_cons, List.mapM_nil]
  -- A body behind the other one is checked as it would be alone, so it fails there if it fails alone.
  cases hyc : checkBody root y c with
  | error fault d =>
    cases hxc : checkBody root x c with
    | error fault' d' => exact .error
    | ok x₁ t₁ =>
      have hx₁ := checkedBody_of_ok hs hx hxc
      have hafter := checkBody_after hs hbase hroot hx₁ (Nat.add_sub_of_le hx₁.le).symm hy
      rw [hyc] at hafter
      dsimp only
      generalize checkBody root y t₁ = r at hafter ⊢
      cases hafter
      exact .error
  | ok y₁ s₁ =>
    have hy₁ := checkedBody_of_ok hs hy hyc
    obtain ⟨a, ha⟩ := Nat.exists_eq_add_of_le hy₁.le
    have hafterY := checkBody_after hs hbase hroot hy₁ ha hx
    dsimp only
    cases hxc : checkBody root x c with
    | error fault d =>
      rw [hxc] at hafterY
      generalize checkBody root x s₁ = r at hafterY ⊢
      cases hafterY
      exact .error
    | ok x₁ t₁ =>
      have hx₁ := checkedBody_of_ok hs hx hxc
      obtain ⟨b, hb⟩ := Nat.exists_eq_add_of_le hx₁.le
      have hafterX := checkBody_after hs hbase hroot hx₁ hb hy
      rw [hxc] at hafterY
      rw [hyc] at hafterX
      dsimp only
      generalize hxs : checkBody root x s₁ = r at hafterY ⊢
      generalize hyt : checkBody root y t₁ = r' at hafterX ⊢
      cases hafterY with
      | @ok _ x₂ _ s₂ numbersX _ _ copiedX =>
      cases hafterX with
      | @ok _ y₂ _ t₂ numbersY _ _ copiedY =>
      have hx₂ := checkedBody_of_ok hy₁.home hx hxs
      have hy₂ := checkedBody_of_ok hx₁.home hy hyt
      -- Both trees come out as copies, with the frames of the two bodies exchanged.
      have hyCopy : y₂ = y₁.rename (exchange c.scopes.next a b) :=
        copiedY _ fun i hi => exchange_of_lt (ha ▸ hi)
      have hxCopy : x₁ = x₂.rename (exchange c.scopes.next a b) := by
        rw [copiedX.eq, Node.rename_rename]
        exact hx₁.copied _ fun i hi => exchange_shift (hb ▸ hi)
      refine .ok (exchange c.scopes.next a b) ?_ (fun i hi => if_pos hi)
        (Nat.le_trans hy₁.le hx₂.le) ?_
      · exact renumbered_exchange hbase ha hb numbersY numbersX hx₂.home hx₂.same hy₂.same
      · rw [List.map_cons, List.map_cons, List.map_nil, ← hyCopy, ← hxCopy]
        exact .swap _ _ _

/-- What is checked behind lists that end alike comes out alike. -/
theorem Permuted.append (hroot : root < base) {nodes nodes' rest : List Node}
    (hrest : ∀ node ∈ rest, node.PlainHead)
    (h : Permuted base c (nodes.mapM (checkBody root) c) (nodes'.mapM (checkBody root) c)) :
    Permuted base c ((nodes ++ rest).mapM (checkBody root) c)
      ((nodes' ++ rest).mapM (checkBody root) c) := by
  simp only [List.mapM_append, bind, EStateM.bind]
  generalize nodes.mapM (checkBody root) c = r at h ⊢
  generalize nodes'.mapM (checkBody root) c = r' at h ⊢
  cases h with
  | error => exact .error
  | @ok out out' d d' ρ numbers fixes le perm =>
    have hfollows : Follows base ρ (fun _ => False) d.scopes.next
        (rest.mapM (checkBody root)) (rest.mapM (checkBody (ρ root))) (CopiedAll ρ) :=
      follows_mapM rest fun node hnode k _ =>
        follows_checkBody (fun _ => False.elim) root (hrest node hnode)
    rw [numbers.fixes root hroot] at hfollows
    have hends := hfollows d d' numbers (Nat.le_refl _)
    dsimp only
    generalize rest.mapM (checkBody root) d = t at hends ⊢
    generalize rest.mapM (checkBody root) d' = t' at hends ⊢
    cases hends with
    | error => exact .error
    | ok numbers' _ le' copied =>
      refine .ok ρ numbers' fixes (Nat.le_trans le le') ?_
      rw [List.map_append, ← copied.eq]
      exact perm.append_right _

theorem permuted_mapM (hroot : root < base) {nodes nodes' : List Node} (h : nodes.Perm nodes')
    (hnodes : ∀ node ∈ nodes, node.PlainHead) {c : Checker} (hs : AtHome base c.scopes)
    (hbase : base ≤ c.scopes.next) :
    Permuted base c (nodes.mapM (checkBody root) c) (nodes'.mapM (checkBody root) c) := by
  induction h generalizing c with
  | nil => exact .ok id (.refl hs) (fun _ _ => rfl) (Nat.le_refl _) .nil
  | @cons node rest rest' _ ih =>
    obtain ⟨hnode, hrest⟩ := List.forall_mem_cons.mp hnodes
    rw [run_mapM_cons, run_mapM_cons]
    cases hrun : checkBody root node c with
    | error fault d => exact .error
    | ok node' d =>
      have hbody := checkedBody_of_ok hs hnode hrun
      have hpermuted := ih hrest hbody.home (Nat.le_trans hbase hbody.le)
      dsimp only
      generalize rest.mapM (checkBody root) d = r at hpermuted ⊢
      generalize rest'.mapM (checkBody root) d = r' at hpermuted ⊢
      cases hpermuted with
      | error => exact .error
      | ok ρ numbers fixes le perm =>
        refine .ok ρ numbers (fun i hi => fixes i (Nat.lt_of_lt_of_le hi hbody.le))
          (Nat.le_trans hbody.le le) ?_
        rw [List.map_cons, ← hbody.copied ρ fixes]
        exact perm.cons node'
  | swap x y rest =>
    simp only [List.forall_mem_cons] at hnodes
    exact (permuted_pair hs hbase hroot hnodes.2.1 hnodes.1).append hroot hnodes.2.2
  | trans h₁ h₂ ih₁ ih₂ =>
    have hnodes' := fun node hnode => hnodes node (h₁.mem_iff.mpr hnode)
    exact (ih₁ hnodes hs hbase).trans (ih₂ hnodes' hs hbase)

end Bodies

end BlockScript
