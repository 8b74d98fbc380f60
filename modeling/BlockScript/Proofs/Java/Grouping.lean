import BlockScript.Proofs.Java.Text
import BlockScript.Proofs.Typing.Slots
import BlockScript.Proofs.Typing.Program
import BlockScript.Proofs.Typing.Subexpressions
import Mathlib
/-!
# Grouping in Java

Java reads the text of an expression of a checked program as a tree. That is the grouping of the
expression, unless an operator that asks for both of its operands stands behind a bare one that asks
for one of them: the program groups those two from left to right, and Java groups the second one
first.
-/
namespace BlockScript

/-- The operator asks for both of its operands, and its left operand is an operation without
parentheses that asks for one of its own. -/
def Node.conjoinsDisjunction : Node → Bool
  | .binary op (.binary op' _ _ _) _ _ => conjunctions.contains op && disjunctions.contains op'
  | _ => false

namespace Java

variable {limit : Nat} {node left right : Node} {op op' : String}
  {t l r : StaticType} {slot : Option StaticType}

section Levels

open Rule (Level)

variable {lev lev' : Level}

theorem eq_of_rank_eq (h : lev'.rank = lev.rank) : lev' = lev := by
  cases lev <;> cases lev' <;> first | rfl | cases h

/-- What is tighter in programs is tighter in Java. -/
theorem level_lt_level (hrank : lev'.rank < lev.rank) (hop : op ∈ lev.operators)
    (hop' : op' ∈ lev'.operators) : level (operator op) < level (operator op') := by
  have hall : ∀ op ∈ lev.operators, ∀ op' ∈ lev'.operators,
      level (operator op) < level (operator op') := by
    cases lev <;> cases lev' <;> first | exact absurd hrank (by decide) | decide
  exact hall op hop op' hop'

/-- On one level of programs, if it is not that of comparisons, an operator of Java is tighter than
another only if the one asks for both of its operands and the other for one. -/
theorem level_le_level_iff (hcomparison : lev ≠ .comparison) (hop : op ∈ lev.operators)
    (hop' : op' ∈ lev.operators) : level (operator op) ≤ level (operator op') ↔
      (conjunctions.contains op && disjunctions.contains op') = false := by
  have hall : ∀ op ∈ lev.operators, ∀ op' ∈ lev.operators,
      (level (operator op) ≤ level (operator op') ↔
        (conjunctions.contains op && disjunctions.contains op') = false) := by
    cases lev <;> first | exact absurd rfl hcomparison | decide
  exact hall op hop op' hop'

/-- On different levels of programs, they never are operators of these two kinds. -/
theorem not_conjunction_of_lt (hrank : lev'.rank < lev.rank) (hop' : op' ∈ lev'.operators) :
    (conjunctions.contains op && disjunctions.contains op') = false := by
  have hall : ∀ op' ∈ lev'.operators, disjunctions.contains op' = false := by
    cases lev' <;> first | exact absurd hrank (Nat.not_lt.mpr lev.rank_le) | decide
  rw [hall op' hop', Bool.and_false]

/-- Comparisons compare values that have an order and give truth values, which have none. -/
theorem binaryType_comparison (hop : op ∈ Level.comparison.operators)
    (h : binaryType op l r = .ok t) : l.isOrdered = true ∧ t = .boolean := by
  have hknown : ∀ op ∈ Level.comparison.operators,
      (conjunctions.contains op || disjunctions.contains op) = false ∧
        (orderings.contains op || equalities.contains op) = true := by
    decide
  obtain ⟨hlogical, hcompares⟩ := hknown op hop
  rw [binaryType, if_neg (Bool.eq_false_iff.mp hlogical), if_pos hcompares] at h
  split at h
  · next hordered =>
    cases h
    exact ⟨(Bool.and_eq_true_iff.mp hordered).1, rfl⟩
  · cases h

end Levels

section Order

open Expression (Ordered)

theorem tightness_grouping (h : ∀ op l r t, node ≠ .binary op l r t) :
    (grouping node).tightness = tightest := by
  unfold grouping
  split <;> first | rfl | exact absurd rfl (h _ _ _ _)

/-- Operators of a looser level than an expression was written on are looser than it in Java. -/
theorem level_lt_tightness {lev : Rule.Level} (hop : op ∈ lev.operators)
    (hw : WrittenOperand limit node) (hlimit : limit < lev.rank) :
    level (operator op) < (grouping node).tightness := by
  cases hw with
  | binary known reach first second =>
    rw [grouping]
    exact level_lt_level (Nat.lt_of_le_of_lt reach hlimit) hop known
  | _ =>
    rw [tightness_grouping (by simp)]
    exact level_lt_tightest _

/-- Java takes the whole left operand to an operator, unless the operator asks for both operands and
the left one asks for one of its own. -/
theorem level_le_tightness_iff {lev : Rule.Level} (hop : op ∈ lev.operators)
    (hw : WrittenOperand lev.rank left) (ht : IsTyped (.binary op left right slot)) :
    level (operator op) ≤ (grouping left).tightness ↔
      (Node.binary op left right slot).conjoinsDisjunction = false := by
  cases hw with
  | @binary _ lev' op' _ _ _ known reach _ _ =>
    rw [grouping, Expression.tightness, Node.conjoinsDisjunction]
    by_cases hlev : lev' = lev
    · cases hlev
      refine level_le_level_iff ?_ hop known
      rintro rfl
      obtain ⟨Γ, t, ht⟩ := ht
      cases ht with
      | binary first _ rule =>
        cases first with
        | binary _ _ rule' =>
          have hordered := (binaryType_comparison hop rule).1
          rw [(binaryType_comparison known rule').2] at hordered
          cases hordered
    · have hrank : lev'.rank < lev.rank := Nat.lt_of_le_of_ne reach fun h => hlev (eq_of_rank_eq h)
      exact iff_of_true (level_lt_level hrank hop known).le (not_conjunction_of_lt hrank known)
  | _ =>
    refine iff_of_true ?_ rfl
    rw [tightness_grouping (by simp)]
    exact Nat.le_of_lt (level_lt_tightest _)

theorem ordered_group_iff {x : Expression} : (Expression.group x).Ordered ↔ x.Ordered :=
  ⟨fun | .group h => h, .group⟩

theorem ordered_binary_iff {o : String} {x y : Expression} : (Expression.binary o x y).Ordered ↔
    x.Ordered ∧ y.Ordered ∧ level o ≤ x.tightness ∧ level o < y.tightness := by
  constructor
  · rintro ⟨⟩
    exact ⟨‹_›, ‹_›, ‹_›, ‹_›⟩
  · rintro ⟨hx, hy, hbefore, hbehind⟩
    exact .binary hx hy hbefore hbehind

theorem ordered_call_iff {x : Expression} {as : List Expression} (hx : x.Ordered)
    (hunit : x.tightness = tightest) : (Expression.call x as).Ordered ↔ ∀ a ∈ as, a.Ordered :=
  ⟨fun | .call _ _ h => h, .call hunit hx⟩

theorem ordered_calleeOf (name : String) (f : Option StaticFunction) :
    (calleeOf name f).Ordered ∧ (calleeOf name f).tightness = tightest := by
  unfold calleeOf
  split
  · exact ⟨.member rfl (.member rfl .word), rfl⟩
  · exact ⟨.word, rfl⟩

theorem forall_mem_groupings {P : Expression → Prop} {nodes : List Node} :
    (∀ e ∈ groupings nodes, P e) ↔ ∀ node ∈ nodes, P (grouping node) := by
  induction nodes with
  | nil => simp [groupings]
  | cons node rest ih => simp [groupings, ih]

/-- The grouping of an expression follows the levels of Java exactly if nowhere in it an operator
that asks for both operands stands behind a bare one that asks for one. -/
theorem ordered_grouping_iff (h : CheckedExpression node) :
    (grouping node).Ordered ↔ ∀ n ∈ node.preorder, n.conjoinsDisjunction = false := by
  induction h with
  | literal plain =>
    simpa [grouping, Node.preorder, Node.conjoinsDisjunction] using Ordered.word
  | group inside ih =>
    rw [grouping, ordered_group_iff, ih]
    simp [Node.preorder, Node.conjoinsDisjunction]
  | @binary lev _ _ _ _ known first second typed _ _ ihl ihr =>
    have hpos := lev.two_lt_rank
    have hbefore := level_le_tightness_iff known first typed
    have hbehind := level_lt_tightness known second (by omega)
    rw [grouping, ordered_binary_iff, ihl, ihr, hbefore]
    simp [Node.preorder, or_imp, forall_and, hbehind, and_comm, and_left_comm]
  | access => simpa [grouping, Node.preorder, Node.conjoinsDisjunction] using Ordered.word
  | @call name arguments _ f _ _ _ ih =>
    have hall : (∀ node ∈ arguments, (grouping node).Ordered) ↔
        ∀ node ∈ arguments, ∀ n ∈ node.preorder, n.conjoinsDisjunction = false :=
      forall₂_congr ih
    obtain ⟨hcallee, hunit⟩ := ordered_calleeOf name (some f)
    rw [grouping, ordered_call_iff hcallee hunit, forall_mem_groupings, hall,
      ← forall_mem_preorderAll]
    simp [Node.preorder, Node.conjoinsDisjunction]

section Arguments

variable {nodes : List Node}

abbrev AllOrderable (nodes : List Node) : Prop :=
  ∀ node ∈ nodes, ∃ e : Expression, e.Ordered ∧ e.lexemes = (grouping node).lexemes

theorem exists_ordered_moreArguments (h : AllOrderable nodes) : ∃ as, (∀ a ∈ as, a.Ordered) ∧
    Expression.moreLexemes as = Expression.moreLexemes (groupings nodes) := by
  induction nodes with
  | nil => exact ⟨[], by simp, rfl⟩
  | cons node rest ih =>
    obtain ⟨⟨e, he, hlexemes⟩, hrest⟩ := List.forall_mem_cons.mp h
    obtain ⟨as, has, hmore⟩ := ih hrest
    exact ⟨e :: as, List.forall_mem_cons.mpr ⟨he, has⟩, by
      simp [Expression.moreLexemes, groupings, hlexemes, hmore]⟩

/-- Ordered trees in the place of arguments have the lexemes of the arguments. -/
theorem exists_ordered_arguments (h : AllOrderable nodes) : ∃ as, (∀ a ∈ as, a.Ordered) ∧
    Expression.argumentLexemes as = Expression.argumentLexemes (groupings nodes) := by
  cases nodes with
  | nil => exact ⟨[], by simp, rfl⟩
  | cons node rest =>
    obtain ⟨⟨e, he, hlexemes⟩, hrest⟩ := List.forall_mem_cons.mp h
    obtain ⟨as, has, hmore⟩ := exists_ordered_moreArguments hrest
    exact ⟨e :: as, List.forall_mem_cons.mpr ⟨he, has⟩, by
      simp [Expression.argumentLexemes, groupings, hlexemes, hmore]⟩

end Arguments

/-- Some ordered tree has the lexemes that are written for an expression. -/
theorem exists_ordered (h : CheckedExpression node) :
    ∃ e : Expression, e.Ordered ∧ e.lexemes = (grouping node).lexemes := by
  induction h with
  | literal => exact ⟨_, .word, rfl⟩
  | group _ ih =>
    obtain ⟨e, he, hlexemes⟩ := ih
    exact ⟨.group e, .group he, by simp [Expression.lexemes, grouping, hlexemes]⟩
  | @binary _ op _ _ _ _ _ _ _ _ _ ihl ihr =>
    obtain ⟨x, hx, hxl⟩ := ihl
    obtain ⟨y, hy, hyl⟩ := ihr
    obtain ⟨e, he, hlexemes⟩ := Expression.exists_ordered_between hx hy (operator op)
    exact ⟨e, he, by rw [hlexemes, hxl, hyl, grouping, Expression.lexemes]⟩
  | access => exact ⟨_, .word, rfl⟩
  | @call name _ _ f _ _ _ ih =>
    obtain ⟨hcallee, hunit⟩ := ordered_calleeOf name (some f)
    obtain ⟨as, has, hlexemes⟩ := exists_ordered_arguments ih
    exact ⟨.call _ as, .call hunit hcallee has, by
      rw [grouping, Expression.lexemes, Expression.lexemes, hlexemes]⟩

end Order

/-- The text of an expression of a checked program, as it is put on a page and as Java reads it. -/
theorem reads_expression (h : CheckedExpression node) :
    ∃ s e, (∀ p, writeOn p node = (.ok (), { p with text := p.text ++ s })) ∧
      readExpression? s = some e ∧
      (e = grouping node ↔ ∀ n ∈ node.preorder, n.conjoinsDisjunction = false) := by
  obtain ⟨s, hs, hscans⟩ := emits_expression h
  obtain ⟨e, he, hlexemes⟩ := exists_ordered h
  have hscan : lexemes? s.toList = some (grouping node).lexemes := by
    simpa [lexemes?] using hscans [] (by rintro _ ⟨⟩)
  have hread : readExpression? s = some e := by
    rw [readExpression?, hscan, Option.bind_some]
    exact read?_eq_some_iff.mpr ⟨he, hlexemes⟩
  refine ⟨s, e, fun p => by rw [writeOn, hs p], hread, ?_⟩
  rw [← ordered_grouping_iff h]
  constructor
  · rintro rfl
    exact he
  · intro hordered
    have hgrouping := read?_eq_some_iff.mpr ⟨hordered, rfl⟩
    rw [← hlexemes] at hgrouping
    exact Option.some.inj ((read?_eq_some_iff.mpr ⟨he, rfl⟩).symm.trans hgrouping)

/-- What is written for an expression of a checked program is read by Java as one tree. The tree is
the grouping that the expression has in the program exactly if nowhere in it an operator that asks
for both operands stands behind a bare one that asks for one. -/
theorem checked_program_regroups_iff {text : String} {tree checked : Node} {c : Checker}
    {level : Nat} (hread : readProgram text = .ok tree)
    (hcheck : (Checker.new level).check tree = (.ok checked, c)) :
    ∀ node ∈ checked.preorder, node.isExpression = true →
      ∃ s e, (∀ p, writeOn p node = (.ok (), { p with text := p.text ++ s })) ∧
        readExpression? s = some e ∧
        (e = grouping node ↔ ∀ n ∈ node.preorder, n.conjoinsDisjunction = false) := by
  intro node hmem hexpression
  have hwritten := Grammar.written_of_readProgram hread
  have htyped := programTyped_of_check hwritten hcheck
  exact reads_expression
    (htyped.checkedExpressions (written_of_check hwritten hcheck) node hmem hexpression)

/-- A conjunction before a disjunction is grouped alike. -/
theorem checked_program_regroups_iff_and_or : ∃ tree checked c node s,
    readProgram "DEF main(): Integer DO WHILE TRUE AND FALSE OR FALSE DO END RETURN 0; END" =
      .ok tree ∧
    (Checker.new 0).check tree = (.ok checked, c) ∧ node ∈ checked.preorder ∧
    node.isExpression = true ∧
    (∀ p, writeOn p node = (.ok (), { p with text := p.text ++ s })) ∧
    readExpression? s =
      some (.binary "||" (.binary "&&" (.word "true") (.word "false")) (.word "false")) := by
  have hread : readProgram
      "DEF main(): Integer DO WHILE TRUE AND FALSE OR FALSE DO END RETURN 0; END" =
      .ok (.source [] [.method "main" [] [] (some "Integer") [.whileStmt (.binary "OR"
        (.binary "AND" (.literal (.boolean true) none) (.literal (.boolean false) none) none)
        (.literal (.boolean false) none) none) [], .returnStmt (.literal (.integer 0) none)]
        none]) := by
    cbv
  have hcheck : ((Checker.new 0).check (.source [] [.method "main" [] [] (some "Integer")
      [.whileStmt (.binary "OR" (.binary "AND" (.literal (.boolean true) none)
        (.literal (.boolean false) none) none) (.literal (.boolean false) none) none) [],
        .returnStmt (.literal (.integer 0) none)] none])).1 =
      .ok (.source [] [.method "main" [] [] (some "Integer") [.whileStmt (.binary "OR"
        (.binary "AND" (.literal (.boolean true) (some .boolean))
          (.literal (.boolean false) (some .boolean)) (some .boolean))
        (.literal (.boolean false) (some .boolean)) (some .boolean)) [],
        .returnStmt (.literal (.integer 0) (some .integer))]
        (some ⟨"main", "main", 0, [], .integer⟩)]) := by
    cbv
  have hchecked : (Checker.new 0).check _ = (.ok _, _) := Prod.ext hcheck rfl
  obtain ⟨s, e, hwrite, hreads, hiff⟩ := checked_program_regroups_iff hread hchecked
    (.binary "OR" (.binary "AND" (.literal (.boolean true) (some .boolean))
      (.literal (.boolean false) (some .boolean)) (some .boolean))
      (.literal (.boolean false) (some .boolean)) (some .boolean))
    (by simp [Node.preorder, Node.preorderAll]) rfl
  obtain rfl := hiff.mpr (by simp [Node.preorder, Node.conjoinsDisjunction, conjunctions])
  exact ⟨_, _, _, _, s, hread, hchecked, by simp [Node.preorder, Node.preorderAll], rfl, hwrite,
    hreads⟩

/-- Without parentheses a conjunction behind a disjunction is false in the program and true in
Java. -/
theorem bare_disjunction_regrouped : ∃ tree checked c node,
    readProgram "DEF main(): Integer DO IF TRUE OR TRUE AND FALSE DO RETURN 1; END RETURN 0; END" =
      .ok tree ∧
    (Checker.new 0).check tree = (.ok checked, c) ∧ node ∈ checked.preorder ∧
    node.isExpression = true ∧
    (writeOn ⟨"", 0⟩ node).2.text = "true || true && false" ∧
    readExpression? "true || true && false" =
      some (.binary "||" (.word "true") (.binary "&&" (.word "true") (.word "false"))) ∧
    grouping node =
      .binary "&&" (.binary "||" (.word "true") (.word "true")) (.word "false") := by
  have hread : readProgram
      "DEF main(): Integer DO IF TRUE OR TRUE AND FALSE DO RETURN 1; END RETURN 0; END" =
      .ok (.source [] [.method "main" [] [] (some "Integer") [.ifStmt (.binary "AND" (.binary "OR"
        (.literal (.boolean true) none) (.literal (.boolean true) none) none)
        (.literal (.boolean false) none) none) [.returnStmt (.literal (.integer 1) none)] [],
        .returnStmt (.literal (.integer 0) none)] none]) := by
    cbv
  have hcheck : ((Checker.new 0).check (.source [] [.method "main" [] [] (some "Integer")
      [.ifStmt (.binary "AND" (.binary "OR" (.literal (.boolean true) none)
        (.literal (.boolean true) none) none) (.literal (.boolean false) none) none)
        [.returnStmt (.literal (.integer 1) none)] [],
        .returnStmt (.literal (.integer 0) none)] none])).1 =
      .ok (.source [] [.method "main" [] [] (some "Integer") [.ifStmt (.binary "AND" (.binary "OR"
        (.literal (.boolean true) (some .boolean)) (.literal (.boolean true) (some .boolean))
        (some .boolean)) (.literal (.boolean false) (some .boolean)) (some .boolean))
        [.returnStmt (.literal (.integer 1) (some .integer))] [],
        .returnStmt (.literal (.integer 0) (some .integer))]
        (some ⟨"main", "main", 0, [], .integer⟩)]) := by
    cbv
  have hchecked : (Checker.new 0).check _ = (.ok _, _) := Prod.ext hcheck rfl
  refine ⟨_, _, _, .binary "AND" (.binary "OR" (.literal (.boolean true) (some .boolean))
    (.literal (.boolean true) (some .boolean)) (some .boolean))
    (.literal (.boolean false) (some .boolean)) (some .boolean), hread, hchecked, ?_, rfl, ?_, ?_,
    ?_⟩
  · simp [Node.preorder, Node.preorderAll]
  · cbv
  · cbv
  · cbv

end Java
end BlockScript
