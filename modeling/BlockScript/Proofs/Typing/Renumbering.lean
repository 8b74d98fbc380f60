import BlockScript.Proofs.Correspondence
import BlockScript.Proofs.Tree.Rename
import BlockScript.Proofs.Typing.Relation
/-!
# Checking under other frame numbers

Checking looks at what is bound and never at the number of a frame. So where two checkers have
corresponding frames, it accepts a tree in both or in neither, and the two trees that come back
differ in nothing but the numbers of frames.
-/
namespace BlockScript

open Check

section Renumbered

/-- The values of the type have their members in a frame below `base`, if they have any. -/
def StaticType.Within (base : Nat) (t : StaticType) : Prop :=
  ∀ members, t.members? = some members → members < base

theorem StaticType.Memberless.within {t : StaticType} (h : t.Memberless) (base : Nat) :
    t.Within base := by
  intro members hmembers
  cases h.symm.trans hmembers

/-- Variables are bound at home, and what is bound has its members in frames below `base`. -/
def AtHome (base : Nat) (s : Scopes StaticVariable StaticFunction) : Prop :=
  s.All (fun i _ v => v.home = i ∧ v.type.Within base) fun _ f => f.returnType.Within base

/-- The second tree of frames has all that the first one has, where the frame `i` has the number
`ρ i`. The frames below `base` keep their numbers. -/
structure Renumbered (base : Nat) (ρ : FrameId → FrameId)
    (s w : Scopes StaticVariable StaticFunction) : Prop where
  fixes : ∀ i < base, ρ i = i
  home : AtHome base s
  corresponds : s.Corresponds ρ (fun v v' => v' = v.rename ρ) (fun f f' => f' = f) w

variable {base k n : Nat} {ρ : FrameId → FrameId} {s w : Scopes StaticVariable StaticFunction}

theorem Renumbered.refl (h : AtHome base s) : Renumbered base id s s :=
  ⟨fun _ _ => rfl, h, Scopes.Corresponds.refl (R := fun v v' => v' = v.rename id)
    (Q := fun f f' => f' = f) (fun _ => rfl) (fun _ => rfl) s⟩

theorem Renumbered.addFrame (h : Renumbered base ρ s w) (parent : Option FrameId) :
    Renumbered base ρ (s.addFrame parent) (w.addFrame (parent.map ρ)) :=
  ⟨h.fixes, h.home.addFrame parent, h.corresponds.addFrame parent⟩

theorem Renumbered.addVariable (h : Renumbered base ρ s w) {v : StaticVariable}
    (ht : v.type.Within base) :
    Renumbered base ρ (s.addVariable v.home v.name v)
      (w.addVariable (ρ v.home) v.name (v.rename ρ)) :=
  ⟨h.fixes, h.home.addVariable ⟨rfl, ht⟩, h.corresponds.addVariable v.home v.name rfl⟩

theorem Renumbered.addFunction (h : Renumbered base ρ s w) (id : FrameId) {f : StaticFunction}
    (ht : f.returnType.Within base) :
    Renumbered base ρ (s.addFunction id f.signature f) (w.addFunction (ρ id) f.signature f) :=
  ⟨h.fixes, h.home.addFunction id ht, h.corresponds.addFunction id f.signature rfl⟩

/-- A type keeps its members. -/
theorem Renumbered.members_eq (h : Renumbered base ρ s w) {t : StaticType} (ht : t.Within base) :
    t.members?.map ρ = t.members? := by
  cases hmembers : t.members? with
  | none => rfl
  | some members => rw [Option.map_some, h.fixes members (ht members hmembers)]

/-- The second tree is the first one under other numbers for the frames below `n`. -/
def Copied (ρ : FrameId → FrameId) (n : Nat) (node node' : Node) : Prop :=
  ∀ τ : FrameId → FrameId, (∀ i < n, τ i = ρ i) → node' = node.rename τ

def CopiedAll (ρ : FrameId → FrameId) (n : Nat) (nodes nodes' : List Node) : Prop :=
  ∀ τ : FrameId → FrameId, (∀ i < n, τ i = ρ i) → nodes' = nodes.map (Node.rename τ)

variable {node node' : Node} {nodes nodes' : List Node}

theorem Copied.mono (h : Copied ρ n node node') (hle : n ≤ k) : Copied ρ k node node' :=
  fun τ hτ => h τ fun i hi => hτ i (Nat.lt_of_lt_of_le hi hle)

theorem Copied.eq (h : Copied ρ n node node') : node' = node.rename ρ := h ρ fun _ _ => rfl

theorem CopiedAll.eq (h : CopiedAll ρ n nodes nodes') : nodes' = nodes.map (Node.rename ρ) :=
  h ρ fun _ _ => rfl

theorem copied_absent : Copied ρ n .absent .absent := fun _ _ => by simp only [Node.rename]

/-- The second variable is a copy of the first one, which is at home in a frame below `n`. -/
structure CopiedVariable (base : Nat) (ρ : FrameId → FrameId) (n : Nat)
    (v v' : StaticVariable) : Prop where
  eq : v' = v.rename ρ
  lt : v.home < n
  within : v.type.Within base

theorem CopiedVariable.eq_of_agree {v v' : StaticVariable} (h : CopiedVariable base ρ n v v')
    {τ : FrameId → FrameId} (hτ : ∀ i < n, τ i = ρ i) : v' = v.rename τ := by
  rw [h.eq, StaticVariable.rename, StaticVariable.rename, hτ v.home h.lt]

end Renumbered

section Steps

variable {α β : Type} {base n : Nat} {ρ : FrameId → FrameId} {kept : FrameId → Prop}
  {P : Nat → α → α → Prop} {R : Nat → β → β → Prop}

/-- Two runs of checking end alike: both fail with the same fault, or their frames correspond again
and `P` holds of the results and the next frame. In either case the frames of the first one that are
kept are as they were. -/
inductive EndAlike (base : Nat) (ρ : FrameId → FrameId) (kept : FrameId → Prop)
    (P : Nat → α → α → Prop) (c : Checker) :
    EStateM.Result Fault Checker α → EStateM.Result Fault Checker α → Prop
  | ok {a a' : α} {d d' : Checker} (numbers : Renumbered base ρ d.scopes d'.scopes)
      (same : ∀ i, kept i → d.scopes.frames[i]? = c.scopes.frames[i]?)
      (le : c.scopes.next ≤ d.scopes.next) (holds : P d.scopes.next a a') :
      EndAlike base ρ kept P c (.ok a d) (.ok a' d')
  | error {fault : Fault} {d d' : Checker}
      (same : ∀ i, kept i → d.scopes.frames[i]? = c.scopes.frames[i]?)
      (le : c.scopes.next ≤ d.scopes.next) :
      EndAlike base ρ kept P c (.error fault d) (.error fault d')

theorem EndAlike.refused {fault : Fault} {c c' : Checker} :
    EndAlike base ρ kept P c (.error fault c) (.error fault c') :=
  .error (fun _ _ => rfl) (Nat.le_refl _)

/-- From corresponding frames, at least `n` of them, the two computations end alike. -/
def Follows (base : Nat) (ρ : FrameId → FrameId) (kept : FrameId → Prop) (n : Nat)
    (x x' : Check α) (P : Nat → α → α → Prop) : Prop :=
  ∀ c c' : Checker, Renumbered base ρ c.scopes c'.scopes → n ≤ c.scopes.next →
    EndAlike base ρ kept P c (x c) (x' c')

theorem Follows.bind {x x' : Check α} {f f' : α → Check β} (h : Follows base ρ kept n x x' P)
    (hf : ∀ k a a', n ≤ k → P k a a' → Follows base ρ kept k (f a) (f' a') R) :
    Follows base ρ kept n (x >>= f) (x' >>= f') R := by
  intro c c' hc hn
  have hx := h c c' hc hn
  simp only [Bind.bind, EStateM.bind]
  generalize x c = r at hx ⊢
  generalize x' c' = r' at hx ⊢
  cases hx with
  | error same le => exact .error same le
  | @ok a a' d d' hd hsame hle ha =>
    have hy := hf d.scopes.next a a' (Nat.le_trans hn hle) ha d d' hd (Nat.le_refl _)
    dsimp only
    generalize f a d = t at hy ⊢
    generalize f' a' d' = t' at hy ⊢
    cases hy with
    | error hsame' hle' =>
      exact .error (fun i hi => (hsame' i hi).trans (hsame i hi)) (Nat.le_trans hle hle')
    | ok he hsame' hle' hb =>
      exact .ok he (fun i hi => (hsame' i hi).trans (hsame i hi)) (Nat.le_trans hle hle') hb

theorem Follows.imp {P' : Nat → α → α → Prop} {x x' : Check α} (h : Follows base ρ kept n x x' P)
    (hP : ∀ k a a', n ≤ k → P k a a' → P' k a a') : Follows base ρ kept n x x' P' := by
  intro c c' hc hn
  have hx := h c c' hc hn
  generalize x c = r at hx ⊢
  generalize x' c' = r' at hx ⊢
  cases hx with
  | error same le => exact .error same le
  | ok numbers same le holds => exact .ok numbers same le (hP _ _ _ (Nat.le_trans hn le) holds)

theorem follows_pure {a a' : α} (h : ∀ k, n ≤ k → P k a a') :
    Follows base ρ kept n (pure a) (pure a') P :=
  fun c _ hc hn => .ok hc (fun _ _ => rfl) (Nat.le_refl _) (h c.scopes.next hn)

theorem follows_throw {fault : Fault} :
    Follows base ρ kept n (throw fault) (throw fault : Check α) P := fun _ _ _ _ => .refused

theorem follows_fail {fault : TypeFault} :
    Follows base ρ kept n (fail fault) (fail fault : Check α) P := follows_throw

theorem follows_lift (r : Except TypeFault α) :
    Follows base ρ kept n (lift r) (lift r) fun _ a a' => a = a' ∧ r = .ok a := by
  cases r with
  | ok a => exact follows_pure fun _ _ => ⟨rfl, rfl⟩
  | error fault => exact follows_fail

theorem follows_note (least : Nat) (line line' : String) :
    Follows base ρ kept n (note least line) (note least line') fun _ _ _ => True := by
  intro c c' hc hn
  have hscopes (e : Checker) (text : String) : (if least ≤ e.level then
      { e with console := e.console.note .checking text } else e : Checker).scopes = e.scopes := by
    split <;> rfl
  refine .ok ?_ (fun i _ => ?_) ?_ trivial
  · rwa [hscopes, hscopes]
  · rw [hscopes]
  · rw [hscopes]

theorem follows_newFrame (hkept : ∀ i, kept i → i < n) (parent : Option FrameId) :
    Follows base ρ kept n (newFrame parent) (newFrame (parent.map ρ)) fun k i i' =>
      i' = ρ i ∧ n ≤ i ∧ i < k := by
  intro c c' hc hn
  refine .ok (hc.addFrame parent) (fun i hi => ?_) (by simp) ?_
  · have hlt : i < c.scopes.next := Nat.lt_of_lt_of_le (hkept i hi) hn
    exact (Scopes.getElem?_addFrame _ _ _).trans (if_neg (Nat.ne_of_lt hlt))
  · exact ⟨hc.corresponds.next_eq.symm, hn, by simp⟩

theorem follows_defineVariable {v : StaticVariable} (hv : ¬kept v.home) (ht : v.type.Within base) :
    Follows base ρ kept n (defineVariable v) (defineVariable (v.rename ρ)) fun _ _ _ => True := by
  intro c c' hc hn
  have hbinds : c'.scopes.bindsVariable (ρ v.home) v.name = c.scopes.bindsVariable v.home v.name :=
    hc.corresponds.bindsVariable v.home v.name
  show EndAlike base ρ kept _ c ((if c.scopes.bindsVariable v.home v.name then
      fail (.scope (.variableDefined v.name))
    else modify fun c => { c with scopes := c.scopes.addVariable v.home v.name v } : Check Unit) c)
    ((if c'.scopes.bindsVariable (ρ v.home) v.name then fail (.scope (.variableDefined v.name))
    else modify fun c => { c with scopes := c.scopes.addVariable (ρ v.home) v.name (v.rename ρ) } :
      Check Unit) c')
  rw [hbinds]
  split
  · exact .refused
  · refine .ok (hc.addVariable ht) (fun i hi => ?_) ?_ trivial
    · have hne : v.home ≠ i := fun heq => hv (heq ▸ hi)
      show (c.scopes.addVariable v.home v.name v).frames[i]? = c.scopes.frames[i]?
      rw [Scopes.addVariable, Scopes.getElem?_update, if_neg hne]
    · show c.scopes.next ≤ (c.scopes.addVariable v.home v.name v).next
      rw [Scopes.addVariable, Scopes.next_update]

theorem follows_defineFunction {scope : FrameId} (hscope : ¬kept scope) {f : StaticFunction}
    (ht : f.returnType.Within base) :
    Follows base ρ kept n (defineFunction scope f) (defineFunction (ρ scope) f)
      fun _ _ _ => True := by
  intro c c' hc hn
  have hbinds : c'.scopes.bindsFunction (ρ scope) f.signature =
      c.scopes.bindsFunction scope f.signature := hc.corresponds.bindsFunction scope f.signature
  show EndAlike base ρ kept _ c ((if c.scopes.bindsFunction scope f.signature then
      fail (.scope (.functionDefined f.signature))
    else modify fun c => { c with scopes := c.scopes.addFunction scope f.signature f } :
      Check Unit) c)
    ((if c'.scopes.bindsFunction (ρ scope) f.signature then
      fail (.scope (.functionDefined f.signature))
    else modify fun c => { c with scopes := c.scopes.addFunction (ρ scope) f.signature f } :
      Check Unit) c')
  rw [hbinds]
  split
  · exact .refused
  · refine .ok (hc.addFunction scope ht) (fun i hi => ?_) ?_ trivial
    · have hne : scope ≠ i := fun heq => hscope (heq ▸ hi)
      show (c.scopes.addFunction scope f.signature f).frames[i]? = c.scopes.frames[i]?
      rw [Scopes.addFunction, Scopes.getElem?_update, if_neg hne]
    · show c.scopes.next ≤ (c.scopes.addFunction scope f.signature f).next
      rw [Scopes.addFunction, Scopes.next_update]

theorem findVariable_some (i : FrameId) (name : String) (c : Checker) :
    findVariable (some i) name c = (match c.scopes.findVariable? i name with
      | some (_, v) => (pure v : Check StaticVariable)
      | none => fail (.scope (.unboundVariable name))) c := rfl

theorem findFunction_some (i : FrameId) (signature : Signature) (c : Checker) :
    findFunction (some i) signature c = (match c.scopes.findFunction? i signature with
      | some (_, f) => (pure f : Check StaticFunction)
      | none => fail (.scope (.unboundFunction signature))) c := rfl

theorem follows_findVariable (scope : Option FrameId) (name : String) :
    Follows base ρ kept n (findVariable scope name) (findVariable (scope.map ρ) name)
      (CopiedVariable base ρ) := by
  intro c c' hc hn
  cases scope with
  | none => exact .refused
  | some i =>
    rw [Option.map_some, findVariable_some, findVariable_some]
    obtain ⟨hs, hw⟩ | ⟨⟨home, v⟩, ⟨home', v'⟩, hs, hw, -, hvar⟩ :=
      rel_cases (hc.corresponds.findVariable? i name) <;> rw [hs, hw]
    · exact .refused
    · obtain ⟨fr, hfr, -⟩ := Scopes.nearest?_eq_some hs
      obtain ⟨hhome, ht⟩ := hc.home.of_findVariable? hs
      have hlt : v.home < c.scopes.next := by
        rw [hhome]
        exact Scopes.lt_next_of_getElem? hfr
      exact .ok hc (fun _ _ => rfl) (Nat.le_refl _) ⟨hvar, hlt, ht⟩

theorem follows_findFunction (scope : Option FrameId) (signature : Signature) :
    Follows base ρ kept n (findFunction scope signature) (findFunction (scope.map ρ) signature)
      fun _ f f' => f' = f ∧ f.returnType.Within base := by
  intro c c' hc hn
  cases scope with
  | none => exact .refused
  | some i =>
    rw [Option.map_some, findFunction_some, findFunction_some]
    obtain ⟨hs, hw⟩ | ⟨⟨home, f⟩, ⟨home', f'⟩, hs, hw, -, hfun⟩ :=
      rel_cases (hc.corresponds.findFunction? i signature) <;> rw [hs, hw]
    · exact .refused
    · exact .ok hc (fun _ _ => rfl) (Nat.le_refl _) ⟨hfun, hc.home.of_findFunction? hs⟩

/-- A field of an object. -/
theorem follows_findField (name : String) {t : StaticType} (ht : t.Within base) :
    Follows base ρ kept n (findVariable t.members? name) (findVariable t.members? name)
      (CopiedVariable base ρ) := by
  intro c c' hc hn
  have hends : EndAlike base ρ kept _ c _ _ := follows_findVariable t.members? name c c' hc hn
  rwa [hc.members_eq ht] at hends

/-- A method of an object. -/
theorem follows_findMethod (signature : Signature) {t : StaticType} (ht : t.Within base) :
    Follows base ρ kept n (findFunction t.members? signature) (findFunction t.members? signature)
      fun _ f f' => f' = f ∧ f.returnType.Within base := by
  intro c c' hc hn
  have hends : EndAlike base ρ kept _ c _ _ := follows_findFunction t.members? signature c c' hc hn
  rwa [hc.members_eq ht] at hends

/-- In corresponding frames there is such a method in both or in neither. -/
theorem follows_requireMain (scope : FrameId) (program program' : Node) :
    Follows base ρ kept n (requireMain scope program) (requireMain (ρ scope) program')
      fun _ checked checked' => checked = program ∧ checked' = program' := by
  intro c c' hc hn
  have hrun (scope : FrameId) (tree : Node) (e : Checker) : requireMain scope tree e =
      (match e.scopes.findFunction? scope ⟨"main", 0⟩ with
        | some (_, main) => if main.returnType == .integer then pure tree
          else fail (.mainReturns main.returnType)
        | none => fail .noMain : Check Node) e := rfl
  rw [hrun, hrun]
  obtain ⟨hs, hw⟩ | ⟨⟨home, f⟩, ⟨home', _⟩, hs, hw, -, rfl⟩ :=
    rel_cases (hc.corresponds.findFunction? scope ⟨"main", 0⟩) <;> rw [hs, hw]
  · exact .refused
  · dsimp only
    split
    · exact .ok hc (fun _ _ => rfl) (Nat.le_refl _) ⟨rfl, rfl⟩
    · exact .refused

end Steps

section Frames

variable {base n : Nat} {ρ : FrameId → FrameId} {kept : FrameId → Prop}

/-- Something takes place in the frame `scope`, one of at least `n` frames, and other frames are
kept. -/
structure Apart (kept : FrameId → Prop) (n : Nat) (scope : FrameId) : Prop where
  old : ∀ i, kept i → i < n
  free : ¬kept scope
  lt : scope < n

theorem Apart.mono {n k : Nat} {scope : FrameId} (h : Apart kept n scope) (hle : n ≤ k) :
    Apart kept k scope :=
  ⟨fun i hi => Nat.lt_of_lt_of_le (h.old i hi) hle, h.free, Nat.lt_of_lt_of_le h.lt hle⟩

/-- A new frame is none of those that are kept. -/
theorem apart_new {k : Nat} {scope : FrameId} (hkept : ∀ i, kept i → i < n) (hnew : n ≤ scope)
    (hk : scope < k) : Apart kept k scope where
  old i hi := Nat.lt_of_lt_of_le (hkept i hi) (Nat.le_trans hnew (Nat.le_of_lt hk))
  free hi := Nat.not_lt.mpr hnew (hkept scope hi)
  lt := hk

/-- Checking under other frame numbers, where some frames are kept. -/
def CheckRelation.renumbered (base : Nat) (ρ : FrameId → FrameId) (kept : FrameId → Prop) :
    CheckRelation where
  operator := id
  value := id
  Rel := Follows base ρ kept
  Outer n s s' := s' = ρ s ∧ ∀ i, kept i → i < n
  Frame n s s' := s' = ρ s ∧ Apart kept n s
  Ranges := StaticType.Within base
  Variable := CopiedVariable base ρ
  relates_pure := follows_pure
  relates_bind := Follows.bind
  relates_throw _ := follows_throw
  relates_note least line := follows_note least line line
  relates_newFrame := by
    rintro n s _ ⟨rfl, hkept⟩
    refine (follows_newFrame hkept (some s)).imp ?_
    rintro k i _ hk ⟨rfl, hnew, hlt⟩
    exact ⟨rfl, apart_new hkept hnew hlt⟩
  relates_defineVariable := by
    rintro n s _ t name constant ⟨rfl, hs⟩ ht
    exact follows_defineVariable (v := ⟨s, name, name, constant, t⟩) hs.free ht
  relates_defineFunction := by
    rintro n s _ f ⟨rfl, hs⟩ hf
    exact follows_defineFunction hs.free hf
  relates_findVariable := by
    rintro n s _ name ⟨rfl, hs⟩
    exact follows_findVariable (some s) name
  relates_findField name ht := follows_findField name ht
  relates_findFunction := by
    rintro n s _ signature ⟨rfl, hs⟩
    exact follows_findFunction (some s) signature
  relates_findMethod signature ht := follows_findMethod signature ht
  relates_binaryType {n l} op r hl := by
    refine (follows_lift (binaryType op l r)).imp ?_
    rintro k t _ hk ⟨rfl, ht⟩
    exact ⟨rfl, holds_of_binaryType (fun h => h.within base) hl ht⟩
  relates_requireMain := by
    rintro n s _ program program' ⟨rfl, hs⟩
    exact follows_requireMain s program program'
  staticType_value _ := rfl
  ranges_of_memberless h := h.within base
  frame_mono h hk := ⟨h.1, h.2.mono hk⟩
  outer_of_frame h := ⟨h.1, h.2.old⟩
  variable_mono h hk := ⟨h.eq, Nat.lt_of_lt_of_le h.lt hk, h.within⟩
  variable_same h := by
    rw [h.eq]
    exact ⟨rfl, rfl, h.within⟩
  variable_of_frame := by
    rintro n s _ t name constant ⟨rfl, hs⟩ ht
    exact ⟨rfl, hs.lt, ht⟩

end Frames

section Trees

variable {n : Nat} {ρ : FrameId → FrameId}

theorem copiedAll_of_allTrees {ss as bs : List Node}
    (h : AllTrees (fun _ => Copied ρ n) ss as bs) : CopiedAll ρ n as bs :=
  fun τ hτ => h.eq_map fun hcopied => hcopied τ hτ

/-- What checking yields under other frame numbers are copies. -/
def copiedTrees (base : Nat) (ρ : FrameId → FrameId) (kept : FrameId → Prop) :
    (CheckRelation.renumbered base ρ kept).Trees where
  Tree _ n _ := Copied ρ n
  tree_mono h hk := h.mono hk
  literal _ τ hτ := by
    simp only [Node.rename]
    rfl
  group h τ hτ := by simp only [Node.rename, h τ hτ]
  binary h h' τ hτ := by
    simp only [Node.rename, h τ hτ, h' τ hτ]
    rfl
  access hv τ hτ := by
    simp only [Node.rename, Option.map_some, hv.eq_of_agree hτ]
  member h hv τ hτ := by
    simp only [Node.rename, Option.map_some, h τ hτ, hv.eq_of_agree hτ]
  call hall τ hτ := by
    simp only [Node.rename, Node.renameAll_eq_map, copiedAll_of_allTrees hall τ hτ]
  methodCall h hall τ hτ := by
    simp only [Node.rename, Node.renameAll_eq_map, h τ hτ, copiedAll_of_allTrees hall τ hτ]
  noInitial := copied_absent
  initial h := h
  noHeader := copied_absent
  header h _ := h
  exprStmt h τ hτ := by simp only [Node.rename, h τ hτ]
  declaration h hv τ hτ := by
    simp only [Node.rename, Option.map_some, h τ hτ, hv.eq_of_agree hτ]
  assign h h' τ hτ := by simp only [Node.rename, h τ hτ, h' τ hτ]
  ifStmt h hthens helses τ hτ := by
    simp only [Node.rename, Node.renameAll_eq_map, h τ hτ, copiedAll_of_allTrees hthens τ hτ,
      copiedAll_of_allTrees helses τ hτ]
  forStmt h h' h'' hall τ hτ := by
    simp only [Node.rename, Node.renameAll_eq_map, h τ hτ, h' τ hτ, h'' τ hτ,
      copiedAll_of_allTrees hall τ hτ]
  whileStmt h hall τ hτ := by
    simp only [Node.rename, Node.renameAll_eq_map, h τ hτ, copiedAll_of_allTrees hall τ hτ]
  returnStmt h τ hτ := by simp only [Node.rename, h τ hτ]
  field h hv τ hτ := by
    simp only [Node.rename, Option.map_some, h τ hτ, hv.eq_of_agree hτ]
  method hall τ hτ := by
    simp only [Node.rename, Node.renameAll_eq_map, copiedAll_of_allTrees hall τ hτ]
  source hfields hmethods τ hτ := by
    simp only [Node.rename, Node.renameAll_eq_map, copiedAll_of_allTrees hfields τ hτ,
      copiedAll_of_allTrees hmethods τ hτ]

end Trees

section Programs

variable {base n : Nat} {ρ : FrameId → FrameId} {kept : FrameId → Prop} {scope : FrameId}

theorem follows_checkField (h : Apart kept n scope) (node : Node) :
    Follows base ρ kept n (checkField scope node) (checkField (ρ scope) node) (Copied ρ) :=
  (copiedTrees base ρ kept).relates_checkField ⟨rfl, h⟩ (Node.like_refl node)

/-- The parameters of a method that is declared have types without members. -/
def Node.PlainHead : Node → Prop
  | method _ _ _ _ _ (some f) => ∀ t ∈ f.parameterTypes, t.Memberless
  | _ => True

theorem follows_checkBody (hkept : ∀ i, kept i → i < n) (scope : FrameId) {node : Node}
    (hnode : node.PlainHead) :
    Follows base ρ kept n (checkBody scope node) (checkBody (ρ scope) node) (Copied ρ) := by
  cases node with
  | method name parameters parameterTypes returnType statements callee =>
    cases callee with
    | none => exact follows_throw
    | some f =>
      let node := Node.method name parameters parameterTypes returnType statements (some f)
      have hdeclared : (CheckRelation.renumbered base ρ kept).Declared node node node :=
        .intro hnode (Node.likeAll_refl statements)
      exact (copiedTrees base ρ kept).relates_checkBody ⟨rfl, hkept⟩ hdeclared
  | _ => exact follows_throw

theorem follows_checkSource (h : Apart kept n scope) (node : Node) :
    Follows base ρ kept n (checkSource scope node) (checkSource (ρ scope) node) (Copied ρ) :=
  (copiedTrees base ρ kept).relates_checkSource ⟨rfl, h⟩ (Node.like_refl node)

theorem follows_mapM {f f' : Node → Check Node} (nodes : List Node)
    (hf : ∀ node ∈ nodes, ∀ k, n ≤ k → Follows base ρ kept k (f node) (f' node) (Copied ρ)) :
    Follows base ρ kept n (nodes.mapM f) (nodes.mapM f') (CopiedAll ρ) := by
  have hall : AllTrees (fun s a b => a = s ∧ b = s ∧ s ∈ nodes) nodes nodes nodes :=
    allTrees_of_forall fun node hnode => ⟨rfl, rfl, hnode⟩
  have hmapM := (CheckRelation.renumbered base ρ kept).relates_mapM (n := n) (f := f) (g := f')
    (U := fun k _ => Copied ρ k) (fun h hk => h.mono hk) hall ?_
  · exact Follows.imp hmapM fun _ _ _ _ => copiedAll_of_allTrees
  · rintro k s _ _ hk ⟨rfl, rfl, hmem⟩
    exact hf _ hmem k hk

end Programs

end BlockScript
