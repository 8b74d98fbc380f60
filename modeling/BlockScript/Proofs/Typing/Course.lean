import BlockScript.Proofs.Typing.Operations
/-!
# The course of a well-typed run

The frames that describe a run and the record of what has happened in it grow together. At every
moment they explain the state of the machine: each variable has its origin in the record, and each
event is as checking has foreseen it.
-/
namespace BlockScript

/-- The frames that describe a run, and what has happened in it. -/
structure History where
  frames : Scopes StaticVariable StaticFunction
  events : List Event

namespace History

def record (H : History) (e : Event) : History := ⟨H.frames, e :: H.events⟩

def moved (H : History) (W : Scopes StaticVariable StaticFunction) (m : Machine) : History :=
  ⟨W, .moved m :: H.events⟩

structure Continues (H H' : History) : Prop where
  grows : H.frames.Grows H'.frames
  settled : Settled H.events H'.events

structure KeepsBut (id : FrameId) (H H' : History) : Prop extends Continues H H' where
  others : Scopes.KeepsBut id H.frames H'.frames

structure Keeps (H H' : History) : Prop where
  all : H.frames.Keeps H'.frames
  settled : Settled H.events H'.events

variable {H H' H'' : History} {id : FrameId} {m : Machine}
  {W : Scopes StaticVariable StaticFunction}

theorem Continues.trans (h : H.Continues H') (h' : H'.Continues H'') : H.Continues H'' :=
  ⟨h.grows.trans h'.grows, h.settled.trans h'.settled⟩

theorem Keeps.refl (H : History) : H.Keeps H := ⟨.refl _, .refl _⟩

theorem Keeps.trans (h : H.Keeps H') (h' : H'.Keeps H'') : H.Keeps H'' :=
  ⟨h.all.trans h'.all, h.settled.trans h'.settled⟩

theorem Keeps.continues (h : H.Keeps H') : H.Continues H' := ⟨h.all.grows, h.settled⟩

theorem Keeps.keepsBut (h : H.Keeps H') : KeepsBut id H H' := ⟨h.continues, h.all.keepsBut⟩

theorem KeepsBut.trans (h : KeepsBut id H H') (h' : KeepsBut id H' H'') : KeepsBut id H H'' :=
  ⟨h.toContinues.trans h'.toContinues, h.others.trans h'.others⟩

/-- A change of a frame that was not there before changes no frame that was. -/
theorem KeepsBut.keeps_of_next (h : KeepsBut id H H') (hid : H.frames.next ≤ id) : H.Keeps H' :=
  ⟨h.others.keeps_of_next hid, h.settled⟩

theorem settled_moved (H : History) (W : Scopes StaticVariable StaticFunction) (m : Machine) :
    Settled H.events (H.moved W m).events := settled_cons rfl rfl H.events

theorem keeps_moved (H : History) (m : Machine) : H.Keeps (H.moved H.frames m) :=
  ⟨.refl _, H.settled_moved _ m⟩

theorem keeps_addFrame (H : History) (parent : Option FrameId) (m : Machine) :
    H.Keeps (H.moved (H.frames.addFrame parent) m) :=
  ⟨Scopes.keeps_addFrame _ _, H.settled_moved _ m⟩

theorem keepsBut_addVariable (H : History) (id : FrameId) (name : String) (x : StaticVariable)
    (m : Machine) : KeepsBut id H (H.moved (H.frames.addVariable id name x) m) :=
  ⟨⟨Scopes.grows_addVariable _ _ _ _, H.settled_moved _ m⟩, Scopes.keepsBut_addVariable _ _ _ _⟩

section Around

variable {e e' : Event}

/-- What begins with one event and ends with another keeps what it keeps in between. -/
theorem Keeps.around (h : (H.record e).Keeps H') (hbegins : e.begins = e'.ends)
    (hends : e.ends = none) (hnone : e'.begins = none) : H.Keeps (H'.record e') :=
  ⟨h.all, h.settled.around hbegins hends hnone⟩

theorem KeepsBut.around (h : KeepsBut id (H.record e) H') (hbegins : e.begins = e'.ends)
    (hends : e.ends = none) (hnone : e'.begins = none) : KeepsBut id H (H'.record e') :=
  ⟨⟨h.grows, h.settled.around hbegins hends hnone⟩, h.others⟩

theorem keeps_record (hends : e.ends = none) (hbegins : e.begins = none) : H.Keeps (H.record e) :=
  ⟨.refl _, settled_cons hends hbegins _⟩

end Around

end History

variable {K : CheckedProgram} {Γ : StaticView} {ready ready' : Prop} {H H' : History}
  {W W' : Scopes StaticVariable StaticFunction} {m m' : Machine}

section Places

variable {scope : FrameId} {Δ Δ' : StaticView} {part part' : List Node}

/-- The nodes are part of the field that is being evaluated in the frame of the program, or of the
method that the innermost call under way runs, and the frame is one of that call. -/
inductive Within (K : CheckedProgram) (H : History) (scope : FrameId) (part : List Node) : Prop where
  | field {field : Node} (top : innermost? .call H.events = none) (mem : field ∈ K.fields)
      (here : scope = 0) (sub : part ⊆ field.preorder) : Within K H scope part
  | method {a : Activation} {signature : Signature} {g : Function} {values : List Value}
      {m : Machine} {index : Nat} {parameters : List String} {statements : List Node}
      {f : StaticFunction} {fr : Frame StaticVariable StaticFunction}
      (live : innermost? .call H.events = some (.invoking a signature g values m))
      (follows : g.Follows K index parameters statements f)
      (frame : H.frames.frames[m.scopes.next]? = some fr) (parent : fr.parent = some 0)
      (under : H.frames.Under m.scopes.next scope) (sub : part ⊆ Node.preorderAll statements) :
      Within K H scope part

namespace Within

theorem inside (h : Within K H scope part) : Inside K H.events part := by
  cases h with
  | field top mem here sub => exact .field top mem sub
  | method live follows frame parent under sub => exact .method live follows sub

theorem continues (h : Within K H scope part) (hH : H.Continues H') : Within K H' scope part := by
  cases h with
  | field top mem here sub => exact .field ((hH.settled.innermost? _).trans top) mem here sub
  | method live follows frame parent under sub =>
    obtain ⟨fr', hfr', hparent, -⟩ := hH.grows _ _ frame
    exact .method ((hH.settled.innermost? _).trans live) follows hfr' (hparent.trans parent)
      (under.grows hH.grows) sub

theorem mono (h : Within K H scope part) (hsub : part' ⊆ part) : Within K H scope part' := by
  cases h with
  | field top mem here sub => exact .field top mem here (List.Subset.trans hsub sub)
  | method live follows frame parent under sub =>
    exact .method live follows frame parent under (List.Subset.trans hsub sub)

/-- A new frame under one of the call is one of the call. -/
theorem addFrame (h : Within K H scope part) (hpos : 0 < scope) (hlt : scope < H.frames.next)
    (m : Machine) :
    Within K (H.moved (H.frames.addFrame (some scope)) m) H.frames.next part := by
  have hkeeps := H.keeps_addFrame (some scope) m
  cases h.continues hkeeps.continues with
  | field top mem here sub => exact absurd here (Nat.ne_of_gt hpos)
  | method live follows frame parent under sub =>
    have hnew : (H.frames.addFrame (some scope)).frames[H.frames.next]? =
        some ⟨some scope, [], []⟩ := by simp [Option.filter, hlt]
    exact .method live follows frame parent (.child hnew rfl under) sub

end Within

/-- In the frame `Δ` is seen, and the nodes are part of what is under way there. -/
structure Stands (K : CheckedProgram) (H : History) (scope : FrameId) (Δ : StaticView)
    (part : List Node) : Prop where
  sees : H.frames.Sees scope Δ
  within : Within K H scope part

namespace Stands

theorem keeps (h : Stands K H scope Δ part) (hk : H.Keeps H') : Stands K H' scope Δ part :=
  ⟨h.sees.keeps hk.all, h.within.continues hk.continues⟩

theorem after (h : Stands K H scope Δ part) (hH : H.Continues H') (hs : H'.frames.Sees scope Δ') :
    Stands K H' scope Δ' part := ⟨hs, h.within.continues hH⟩

theorem mono (h : Stands K H scope Δ part) (part' : List Node) (hsub : part' ⊆ part) :
    Stands K H scope Δ part' := ⟨h.sees, h.within.mono hsub⟩

/-- Within a call, other things begin and end. -/
theorem record (h : Stands K H scope Δ part) {e : Event} (hends : e.ends ≠ some .call)
    (hbegins : e.begins ≠ some .call) : Stands K (H.record e) scope Δ part := by
  have hlive : innermost? .call (H.record e).events = innermost? .call H.events :=
    pending?_of_neither hends hbegins 0 H.events
  refine ⟨h.sees, ?_⟩
  cases h.within with
  | field top mem here sub => exact .field (hlive.trans top) mem here sub
  | method live follows frame parent under sub =>
    exact .method (hlive.trans live) follows frame parent under sub

theorem addFrame (h : Stands K H scope Δ part) (hpos : 0 < scope) (m : Machine) :
    Stands K (H.moved (H.frames.addFrame (some scope)) m) H.frames.next (([], []) :: Δ) part :=
  ⟨h.sees.addFrame, h.within.addFrame hpos h.sees.lt_next m⟩

end Stands

end Places

section Explanations

/-- The frames account for all events, and each is as checking has foreseen it. -/
structure Account (K : CheckedProgram) (H : History) : Prop
    extends Accounts K.scopes H.frames H.events where
  throughout : ∀ later e before, H.events = later ++ e :: before →
    e.Resolved K before ∧ e.Definite K before

/-- The history describes the machine, and tells where its variables come from. -/
structure Explains (K : CheckedProgram) (Γ : StaticView) (ready : Prop) (H : History) (m : Machine) :
    Prop where
  describes : Describes K Γ ready (Nilled K H.events) H.frames m.scopes
  account : Account K H
  created : ∀ home name x, H.frames.Binds home name x → Created K H.events home x

/-- After this history the event is as checking has foreseen it. -/
structure Event.Told (K : CheckedProgram) (H : History) (e : Event) : Prop where
  typed : e.TypedBy K.scopes H.frames
  resolved : e.Resolved K H.events
  definite : e.Definite K H.events

theorem told_silent {nilled : Prop} {e : Event}
    (h : Matches K Γ ready nilled H.frames e.machine.scopes) (hs : e.Silent) : e.Told K H := by
  refine ⟨h.typedBy_silent hs, ⟨?_, ?_, ?_, ?_⟩, ?_⟩
  · rintro a name type bound v m rfl
    exact hs.elim
  · rintro a name type bound value m rfl
    exact hs.elim
  · rintro a signature g values m rfl
    exact hs.elim
  · rintro a name arguments type callee v m rfl
    exact hs.elim
  · rintro a node v m t rfl
    exact hs.elim

theorem Account.record (h : Account K H) {e : Event} (he : e.Told K H) :
    Account K (H.record e) := by
  refine ⟨⟨h.instances, ?_⟩, ?_⟩
  · simp only [History.record, List.mem_cons, forall_eq_or_imp]
    exact ⟨he.typed, h.events⟩
  · rintro (_ | ⟨e', later⟩) e₁ before hsplit
    · cases hsplit
      exact ⟨he.resolved, he.definite⟩
    · exact h.throughout later e₁ before (List.cons.inj hsplit).2

theorem Account.grow (h : Account K H) (hW : H.frames.Grows W) (hi : Instances K.scopes W) :
    Account K ⟨W, H.events⟩ :=
  ⟨⟨hi, fun e he => (h.events e he).mono hW⟩, h.throughout⟩

theorem Account.moved {nilled : Prop} (h : Account K H) (hW : H.frames.Grows W)
    (hmatch : Matches K Γ ready nilled W m.scopes) : Account K (H.moved W m) :=
  (h.grow hW hmatch.instances).record (e := .moved m) (told_silent hmatch trivial)

theorem Explains.record (h : Explains K Γ ready H m) {e : Event} (he : e.Told K H) :
    Explains K Γ ready (H.record e) m :=
  ⟨h.describes.mono fun hn => hn.cons e, h.account.record he,
    fun home name x hx => (h.created home name x hx).cons e⟩

/-- A variable that an operation has bound was made by it. -/
theorem created_moved {nilled : Prop} (h : Account K H)
    (created : ∀ home name x, H.frames.Binds home name x → Created K H.events home x)
    (hadds : Adds (Made K H.events) H.frames W) (hmatch : Matches K Γ ready nilled W m.scopes) :
    ∀ home name x, W.Binds home name x → Created K (H.moved W m).events home x := by
  intro home name x hx
  rcases hadds home name x hx with hold | ⟨hno, rfl, hmade⟩
  · exact (created home name x hold).cons _
  · refine ⟨[], m, H.events, rfl, ?_, fun e he => ?_, hmade⟩
    · rw [hmatch.related.bindsVariable, Scopes.bindsVariable_iff]
      exact ⟨x, hx⟩
    · rw [Bool.eq_false_iff, Ne, Scopes.bindsVariable_iff]
      rintro ⟨v, hv⟩
      obtain ⟨y, hy, -⟩ := (h.events e he).machine home x.name v hv
      exact hno y hy

theorem Explains.moved {nilled : Prop} (h : Explains K Γ ready H m) (hW : H.frames.Grows W)
    (hadds : Adds (Made K H.events) H.frames W) (hdesc : Describes K Γ ready nilled W m'.scopes)
    (hn : nilled → Nilled K (.moved m' :: H.events)) : Explains K Γ ready (H.moved W m') m' :=
  ⟨hdesc.mono hn, h.account.moved hW hdesc.toMatches,
    created_moved h.account h.created hadds hdesc.toMatches⟩

end Explanations

/-- The step ends with a result after a history that explains the machine and of which `Q` holds, or
with a fault that is allowed. -/
def Runs (K : CheckedProgram) (Γ : StaticView) (ready : Prop) {α : Type} (H : History) (m : Machine)
    (x : Recorded α) (Q : α → History → Prop) : Prop :=
  Ends x (m, H.events)
    (fun a s => ∃ W, Explains K Γ ready ⟨W, s.2⟩ s.1 ∧ Q a ⟨W, s.2⟩)
    fun fault s => (∃ W, Account K ⟨W, s.2⟩) ∧ fault.Allowed (Nilled K s.2)

section Runs

variable {α β : Type} {Q Q' : α → History → Prop} {R : β → History → Prop}

theorem Runs.bind {x : Recorded α} {f : α → Recorded β} (h : Runs K Γ ready H m x Q)
    (hf : ∀ a H' m', Explains K Γ ready H' m' → Q a H' → Runs K Γ ready' H' m' (f a) R) :
    Runs K Γ ready' H m (x >>= f) R :=
  ends_bind.mpr (Ends.imp h (fun a s ⟨W, hW, hq⟩ => hf a ⟨W, s.2⟩ s.1 hW hq) fun _ _ hfault => hfault)

theorem Runs.imp {x : Recorded α} (h : Runs K Γ ready H m x Q) (hQ : ∀ a H', Q a H' → Q' a H') :
    Runs K Γ ready H m x Q' :=
  Ends.imp h (fun a _ ⟨W, hW, hq⟩ => ⟨W, hW, hQ a _ hq⟩) fun _ _ hfault => hfault

/-- A step whose beginning depends on a test and whose rest does not. -/
theorem Runs.join {b : Bool} {x y : Recorded α} {f : α → Recorded β}
    (h : b = true → Runs K Γ ready H m x Q) (h' : b = false → Runs K Γ ready H m y Q)
    (hf : ∀ a H' m', Explains K Γ ready H' m' → Q a H' → Runs K Γ ready H' m' (f a) R) :
    Runs K Γ ready H m (if b then x >>= f else y >>= f) R := by
  cases b with
  | true => exact (h rfl).bind hf
  | false => exact (h' rfl).bind hf

theorem runs_pure {a : α} (h : Explains K Γ ready H m) (hq : Q a H) :
    Runs K Γ ready H m (pure a) Q := ⟨H.frames, h, hq⟩

/-- An operation that leaves a variable nil only if nil has been brought when it is done. -/
theorem runs_bringing {nilled : Prop} {x : Run α}
    {Q : α → Scopes StaticVariable StaticFunction → Prop} (h : Explains K Γ ready H m)
    (hx : Moves K Γ ready nilled (Made K H.events) H.frames m x Q)
    (hn : ∀ a W m', Describes K Γ ready nilled W m'.scopes → Q a W → nilled →
      Nilled K (.moved m' :: H.events)) :
    Runs K Γ ready H m (liftM x) fun a H' =>
      ∃ W m', H' = H.moved W m' ∧ H.frames.Grows W ∧ Q a W := by
  refine ends_lift.mpr (Ends.imp hx ?_ ?_)
  · rintro a m' ⟨W, hgrows, hadds, hdesc, hq⟩
    exact ⟨W, h.moved hgrows hadds hdesc (hn a W m' hdesc hq), W, m', rfl, hgrows, hq⟩
  · rintro fault m' ⟨⟨W, hgrows, hdesc⟩, hfault⟩
    exact ⟨⟨W, h.account.moved hgrows hdesc.toMatches⟩, hfault.allowed⟩

theorem runs_lift {x : Run α} {Q : α → Scopes StaticVariable StaticFunction → Prop}
    (h : Explains K Γ ready H m)
    (hx : Moves K Γ ready (Nilled K H.events) (Made K H.events) H.frames m x Q) :
    Runs K Γ ready H m (liftM x) fun a H' =>
      ∃ W m', H' = H.moved W m' ∧ H.frames.Grows W ∧ Q a W :=
  runs_bringing h hx fun _ _ _ _ _ hn => hn.cons _

theorem runs_reads {x : Run α} {P : α → Prop} (h : Explains K Γ ready H m)
    (hx : Reads (Nilled K H.events) m x P) :
    Runs K Γ ready H m (liftM x) fun a H' => (∃ m', H' = H.moved H.frames m') ∧ P a := by
  have hdesc : ∀ {m' : Machine}, m'.scopes = m.scopes →
      Describes K Γ ready (Nilled K H.events) H.frames m'.scopes := by
    intro m' hm
    rw [hm]
    exact h.describes
  refine ends_lift.mpr (Ends.imp hx ?_ ?_)
  · rintro a m' ⟨hm, hp⟩
    exact ⟨H.frames, h.moved (.refl _) (.refl _ _) (hdesc hm) fun hn => hn.cons _, ⟨m', rfl⟩, hp⟩
  · rintro fault m' ⟨hm, hfault⟩
    exact ⟨⟨H.frames, h.account.moved (.refl _) (hdesc hm).toMatches⟩, hfault.permitted,
      hfault.origin.imp_right fun hn => hn.cons _⟩

theorem runs_around {x : Recorded α} {before : Machine → Event} {after : α → Machine → Event}
    (h : Explains K Γ ready H m) (hbefore : (before m).Told K H)
    (hx : Explains K Γ ready (H.record (before m)) m →
      Runs K Γ ready (H.record (before m)) m x Q)
    (hafter : ∀ a H' m', Explains K Γ ready H' m' → Q a H' →
      (after a m').Told K H' ∧ Q' a (H'.record (after a m'))) :
    Runs K Γ ready H m (Recorded.around before after x) Q' := by
  refine ends_around.mpr (Ends.imp (hx (h.record hbefore)) ?_ fun _ _ hfault => hfault)
  rintro a s ⟨W, hs, hq⟩
  obtain ⟨htold, hq'⟩ := hafter a ⟨W, s.2⟩ s.1 hs hq
  exact ⟨W, hs.record htold, hq'⟩

theorem runs_record {x : Recorded α} {event : Machine → Event} (h : Explains K Γ ready H m)
    (he : (event m).Told K H)
    (hx : Explains K Γ ready (H.record (event m)) m → Runs K Γ ready (H.record (event m)) m x Q) :
    Runs K Γ ready H m (Recorded.record event >>= fun _ => x) Q :=
  ends_record.mpr (hx (h.record he))

end Runs

end BlockScript
