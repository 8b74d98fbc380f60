import BlockScript.Proofs.Java.Expression
import BlockScript.Proofs.Reading
/-!
# Reading expressions of Java

An expression is read from its lexemes operand by operand; each operator is put behind what has
been read before it. Reading finds a tree exactly when the lexemes are those of an ordered tree,
and it finds that tree.
-/
namespace BlockScript.Java

open Reading Expression

abbrev Read (α : Type) (k n : Nat) := Reading Lexeme Unit α k n

variable {ts mid rest : List Lexeme} {e tree : Expression} {as trees : List Expression}

mutual

/-- An operand, and operators with their right operands behind it. -/
def expression (ts : List Lexeme) : Read Expression 1 ts.length :=
  ((operand ts).andThen fun left rest used => operands left rest).weaken
termination_by 8 * ts.length + 3
decreasing_by all_goals omega

def operands (left : Expression) (ts : List Lexeme) : Read Expression 0 ts.length :=
  match ts with
  | .operator o :: rest =>
    ((operand rest).andThen fun right rest' used =>
      operands (left.attach o right) rest').widen
      (by simp only [List.length_cons]; omega) (by simp only [List.length_cons]; omega)
  | ts => .done left ts (Nat.le_refl _)
termination_by 8 * ts.length
decreasing_by all_goals simp only [List.length_cons]; omega

def operand (ts : List Lexeme) : Read Expression 1 ts.length :=
  ((primary ts).andThen fun object rest used => members object rest).weaken
termination_by 8 * ts.length + 2
decreasing_by all_goals omega

def members (object : Expression) (ts : List Lexeme) : Read Expression 0 ts.length :=
  match ts with
  | .dot :: .word name :: rest =>
    (members (.member object name) rest).widen
      (by simp only [List.length_cons]; omega) (by simp only [List.length_cons]; omega)
  | .opening :: rest =>
    ((arguments rest).andThen fun passed rest' used =>
      members (.call object passed) rest').widen
      (by simp only [List.length_cons]; omega) (by simp only [List.length_cons]; omega)
  | ts => .done object ts (Nat.le_refl _)
termination_by 8 * ts.length
decreasing_by all_goals simp only [List.length_cons]; omega

def arguments (ts : List Lexeme) : Read (List Expression) 1 ts.length :=
  match ts with
  | .closing :: rest => .done [] rest (Nat.le_refl _)
  | ts =>
    ((expression ts).andThen fun first rest used =>
      (moreArguments rest).map (first :: ·)).weaken
termination_by 8 * ts.length + 4
decreasing_by all_goals omega

def moreArguments (ts : List Lexeme) : Read (List Expression) 1 ts.length :=
  match ts with
  | .closing :: rest => .done [] rest (Nat.le_refl _)
  | .comma :: rest =>
    ((expression rest).andThen fun next rest' used =>
      (moreArguments rest').map (next :: ·)).widen
      (by simp only [List.length_cons]; omega) (by simp only [List.length_cons]; omega)
  | ts => .failed () ts (Nat.le_refl _)
termination_by 8 * ts.length
decreasing_by all_goals simp only [List.length_cons]; omega

def primary (ts : List Lexeme) : Read Expression 1 ts.length :=
  match ts with
  | .word text :: rest => .done (.word text) rest (Nat.le_refl _)
  | .opening :: rest =>
    ((expression rest).andThen fun inner rest' used =>
      match rest' with
      | .closing :: after => (.done (.group inner) after (Nat.le_refl _) : Read Expression 1 _)
      | rest' => .failed () rest' (Nat.le_refl _)).widen
      (by simp only [List.length_cons]; omega) (by simp only [List.length_cons]; omega)
  | ts => .failed () ts (Nat.le_refl _)
termination_by 8 * ts.length
decreasing_by all_goals simp only [List.length_cons]; omega

end

def read? (ts : List Lexeme) : Option Expression :=
  match (expression ts).outcome with
  | (.ok e, []) => some e
  | _ => none

def EndsOperand (ts : List Lexeme) : Prop := ∀ t ∈ ts.head?, t ≠ .dot ∧ t ≠ .opening

def EndsExpression (ts : List Lexeme) : Prop :=
  EndsOperand ts ∧ ∀ t ∈ ts.head?, ∀ o, t ≠ .operator o

theorem members_returns (h : EndsOperand ts) : (members e ts).Returns e ts := by
  rw [members.eq_def]
  split
  · exact absurd rfl (h .dot rfl).1
  · exact absurd rfl (h .opening rfl).2
  · exact returns_done.mpr ⟨rfl, rfl⟩

theorem operands_returns (h : EndsExpression ts) : (operands e ts).Returns e ts := by
  rw [operands.eq_def]
  split
  · next o rest => exact absurd rfl (h.2 (.operator o) rfl o)
  · exact returns_done.mpr ⟨rfl, rfl⟩

theorem endsExpression_moreLexemes (as : List Expression) (rest : List Lexeme) :
    EndsExpression (moreLexemes as ++ rest) := by
  cases as <;> simp [EndsExpression, EndsOperand, moreLexemes]

/-- The expression is read wherever its lexemes stand: as an operand if it holds together most
tightly, as the beginning of an expression, and behind a looser operator. -/
structure IsRead (e : Expression) : Prop where
  unit : e.tightness = tightest → ∀ {rest tree after}, (members e rest).Returns tree after →
    (operand (e.lexemes ++ rest)).Returns tree after
  whole : ∀ {rest tree after}, EndsOperand rest → (operands e rest).Returns tree after →
    (expression (e.lexemes ++ rest)).Returns tree after
  behind : ∀ {o left rest tree after}, level o < e.tightness → EndsOperand rest →
    (operands (left.attach o e) rest).Returns tree after →
    (operands left (.operator o :: (e.lexemes ++ rest))).Returns tree after

namespace IsRead

theorem of_unit (h : ∀ rest tree after, (members e rest).Returns tree after →
    (operand (e.lexemes ++ rest)).Returns tree after) : IsRead e where
  unit _ _ _ _ hmembers := h _ _ _ hmembers
  whole hends hoperands := by
    rw [expression, returns_weaken]
    exact (h _ _ _ (members_returns hends)).andThen fun _ => hoperands
  behind _ hends hoperands := by
    rw [operands, returns_widen]
    exact (h _ _ _ (members_returns hends)).andThen fun _ => hoperands

theorem returns (h : IsRead e) (hends : EndsExpression rest) :
    (expression (e.lexemes ++ rest)).Returns e rest :=
  h.whole hends.1 (operands_returns hends)

theorem word (text : String) : IsRead (.word text) := by
  refine of_unit fun rest tree after hmembers => ?_
  have hprimary : (primary (Lexeme.word text :: rest)).Returns (.word text) rest := by
    rw [primary]
    exact returns_done.mpr ⟨rfl, rfl⟩
  rw [operand, returns_weaken]
  exact hprimary.andThen fun _ => hmembers

theorem group (h : IsRead e) : IsRead (.group e) := by
  refine of_unit fun rest tree after hmembers => ?_
  have hclosing : EndsExpression (.closing :: rest) := by
    simp [EndsExpression, EndsOperand]
  have hprimary :
      (primary (.opening :: (e.lexemes ++ .closing :: rest))).Returns (.group e) rest := by
    rw [primary, returns_widen]
    exact (h.returns hclosing).andThen fun _ => returns_done.mpr ⟨rfl, rfl⟩
  rw [operand, returns_weaken, lexemes, List.cons_append, List.append_assoc, List.singleton_append]
  exact hprimary.andThen fun _ => hmembers

theorem binary {o : String} {l r : Expression} (hl : IsRead l) (hr : IsRead r)
    (hbefore : level o ≤ l.tightness) (hbehind : level o < r.tightness) :
    IsRead (.binary o l r) where
  unit heq := absurd heq (Nat.ne_of_lt (level_lt_tightest o))
  whole {rest _ _} hends hoperands := by
    have hoperator : EndsOperand (.operator o :: (r.lexemes ++ rest)) := by simp [EndsOperand]
    rw [lexemes, List.append_assoc, List.cons_append]
    refine hl.whole hoperator (hr.behind hbehind hends ?_)
    rwa [attach_of_le hbefore]
  behind {outer left rest _ _} hlooser hends hoperands := by
    have hoperator : EndsOperand (.operator o :: (r.lexemes ++ rest)) := by simp [EndsOperand]
    rw [lexemes, List.append_assoc, List.cons_append]
    refine hl.behind (Nat.lt_of_lt_of_le hlooser hbefore) hoperator (hr.behind hbehind hends ?_)
    rwa [attach_attach hlooser, attach_of_le hbefore]

theorem member (h : IsRead e) (hunit : e.tightness = tightest) (name : String) :
    IsRead (.member e name) := by
  refine of_unit fun rest tree after hmembers => ?_
  rw [lexemes, List.append_assoc]
  refine h.unit hunit ?_
  rw [List.cons_append, List.singleton_append, members, returns_widen]
  exact hmembers

theorem call (h : IsRead e) (hunit : e.tightness = tightest)
    (has : ∀ rest, (arguments (argumentLexemes as ++ rest)).Returns as rest) :
    IsRead (.call e as) := by
  refine of_unit fun rest tree after hmembers => ?_
  rw [lexemes, List.append_assoc]
  refine h.unit hunit ?_
  rw [List.cons_append, members, returns_widen]
  exact (has rest).andThen fun _ => hmembers

end IsRead

theorem moreArguments_returns (h : ∀ a ∈ as, IsRead a) :
    (moreArguments (moreLexemes as ++ rest)).Returns as rest := by
  induction as with
  | nil =>
    rw [moreLexemes, List.singleton_append, moreArguments]
    exact returns_done.mpr ⟨rfl, rfl⟩
  | cons a as ih =>
    obtain ⟨ha, has⟩ := List.forall_mem_cons.mp h
    rw [moreLexemes, List.cons_append, List.append_assoc, moreArguments, returns_widen]
    exact (ha.returns (endsExpression_moreLexemes as rest)).andThen fun _ => (ih has).map _

/-- The lexemes of an expression begin with a word or a parenthesis. -/
theorem lexemes_eq_cons (e : Expression) :
    ∃ t ts, e.lexemes = t :: ts ∧ t ≠ .closing := by
  match e with
  | .word text => exact ⟨_, _, rfl, by simp⟩
  | .group inner => exact ⟨_, _, rfl, by simp⟩
  | .binary o l r | .member l o | .call l as =>
    obtain ⟨t, ts, heq, ht⟩ := lexemes_eq_cons l
    exact ⟨t, _, by rw [lexemes, heq]; rfl, ht⟩

theorem arguments_some (hopen : ∀ after, ts ≠ .closing :: after)
    (hfirst : (expression ts).Returns e mid) (hmore : (moreArguments mid).Returns as rest) :
    (arguments ts).Returns (e :: as) rest := by
  rw [arguments.eq_def]
  split
  · next after => exact absurd rfl (hopen after)
  · rw [returns_weaken]
    exact hfirst.andThen fun _ => hmore.map _

theorem arguments_returns (h : ∀ a ∈ as, IsRead a) :
    (arguments (argumentLexemes as ++ rest)).Returns as rest := by
  cases as with
  | nil =>
    rw [argumentLexemes, List.singleton_append, arguments]
    exact returns_done.mpr ⟨rfl, rfl⟩
  | cons a as =>
    obtain ⟨ha, has⟩ := List.forall_mem_cons.mp h
    obtain ⟨t, ts, heq, ht⟩ := lexemes_eq_cons a
    rw [argumentLexemes, List.append_assoc]
    refine arguments_some (fun after hts => ?_) (ha.returns (endsExpression_moreLexemes as rest))
      (moreArguments_returns has)
    rw [heq] at hts
    exact ht (List.cons.inj hts).1

theorem Expression.Ordered.isRead (h : e.Ordered) : IsRead e := by
  induction h with
  | word => exact .word _
  | group _ ih => exact ih.group
  | binary _ _ hbefore hbehind ihl ihr => exact ihl.binary ihr hbefore hbehind
  | member hunit _ ih => exact ih.member hunit _
  | call hunit _ _ ih ihs => exact ih.call hunit fun _ => arguments_returns ihs

mutual

theorem expression_sound (ts : List Lexeme) :
    (expression ts).Yields fun e rest => e.Ordered ∧ e.lexemes ++ rest = ts := by
  rw [expression, yields_weaken, yields_andThen]
  intro left mid hleft used
  obtain ⟨hordered, -, rfl⟩ := operand_sound ts left mid hleft
  exact operands_sound left mid hordered
termination_by 8 * ts.length + 3

theorem operands_sound (left : Expression) (ts : List Lexeme) (h : left.Ordered) :
    (operands left ts).Yields fun e rest =>
      e.Ordered ∧ e.lexemes ++ rest = left.lexemes ++ ts := by
  rw [operands.eq_def]
  split
  · next o rest =>
    rw [yields_widen, yields_andThen]
    intro right mid hright used
    obtain ⟨hordered, hunit, rfl⟩ := operand_sound rest right mid hright
    have hattached := h.attach hordered (hunit ▸ level_lt_tightest o)
    have hread := operands_sound (left.attach o right) mid hattached
    simpa [lexemes_attach] using hread
  · exact yields_done.mpr ⟨h, rfl⟩
termination_by 8 * ts.length

theorem operand_sound (ts : List Lexeme) :
    (operand ts).Yields fun e rest =>
      e.Ordered ∧ e.tightness = tightest ∧ e.lexemes ++ rest = ts := by
  rw [operand, yields_weaken, yields_andThen]
  intro object mid hobject used
  obtain ⟨hordered, hunit, rfl⟩ := primary_sound ts object mid hobject
  exact members_sound object mid hordered hunit
termination_by 8 * ts.length + 2

theorem members_sound (object : Expression) (ts : List Lexeme) (h : object.Ordered)
    (hunit : object.tightness = tightest) :
    (members object ts).Yields fun e rest =>
      e.Ordered ∧ e.tightness = tightest ∧ e.lexemes ++ rest = object.lexemes ++ ts := by
  rw [members.eq_def]
  split
  · next name rest =>
    rw [yields_widen]
    simpa [lexemes] using members_sound (.member object name) rest (.member hunit h) rfl
  · next rest =>
    rw [yields_widen, yields_andThen]
    intro passed mid hpassed used
    obtain ⟨hordered, rfl⟩ := arguments_sound rest passed mid hpassed
    simpa [lexemes] using members_sound (.call object passed) mid (.call hunit h hordered) rfl
  · exact yields_done.mpr ⟨h, hunit, rfl⟩
termination_by 8 * ts.length

theorem arguments_sound (ts : List Lexeme) :
    (arguments ts).Yields fun as rest =>
      (∀ a ∈ as, a.Ordered) ∧ argumentLexemes as ++ rest = ts := by
  rw [arguments.eq_def]
  split
  · exact yields_done.mpr ⟨by simp, rfl⟩
  · rw [yields_weaken, yields_andThen]
    intro first mid hfirst used
    obtain ⟨hordered, rfl⟩ := expression_sound ts first mid hfirst
    rw [yields_map]
    intro others rest hothers
    obtain ⟨hall, rfl⟩ := moreArguments_sound mid others rest hothers
    exact ⟨List.forall_mem_cons.mpr ⟨hordered, hall⟩, List.append_assoc _ _ _⟩
termination_by 8 * ts.length + 4

theorem moreArguments_sound (ts : List Lexeme) :
    (moreArguments ts).Yields fun as rest =>
      (∀ a ∈ as, a.Ordered) ∧ moreLexemes as ++ rest = ts := by
  rw [moreArguments.eq_def]
  split
  · exact yields_done.mpr ⟨by simp, rfl⟩
  · next rest =>
    rw [yields_widen, yields_andThen]
    intro next mid hnext used
    obtain ⟨hordered, rfl⟩ := expression_sound rest next mid hnext
    rw [yields_map]
    intro others after hothers
    obtain ⟨hall, rfl⟩ := moreArguments_sound mid others after hothers
    exact ⟨List.forall_mem_cons.mpr ⟨hordered, hall⟩, by simp [moreLexemes]⟩
  · exact yields_failed
termination_by 8 * ts.length

theorem primary_sound (ts : List Lexeme) :
    (primary ts).Yields fun e rest =>
      e.Ordered ∧ e.tightness = tightest ∧ e.lexemes ++ rest = ts := by
  rw [primary.eq_def]
  split
  · exact yields_done.mpr ⟨.word, rfl, rfl⟩
  · next rest =>
    rw [yields_widen, yields_andThen]
    intro inner mid hinner used
    obtain ⟨hordered, rfl⟩ := expression_sound rest inner mid hinner
    split
    · next after => exact yields_done.mpr ⟨.group hordered, rfl, by simp [lexemes]⟩
    · exact yields_failed
  · exact yields_failed
termination_by 8 * ts.length

end

/-- The lexemes are read as the one ordered expression that has them. -/
theorem read?_eq_some_iff : read? ts = some e ↔ e.Ordered ∧ e.lexemes = ts := by
  constructor
  · intro h
    unfold read? at h
    split at h
    · next e' heq =>
      cases h
      obtain ⟨hordered, hlexemes⟩ := expression_sound ts e [] heq
      exact ⟨hordered, (List.append_nil _).symm.trans hlexemes⟩
    · cases h
  · rintro ⟨hordered, rfl⟩
    have hends : EndsExpression [] := by simp [EndsExpression, EndsOperand]
    have hread := hordered.isRead.returns hends
    rw [List.append_nil] at hread
    rw [read?, hread]

end BlockScript.Java
