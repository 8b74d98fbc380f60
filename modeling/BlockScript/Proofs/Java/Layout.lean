import BlockScript.Proofs.Java.Printing
/-!
# The layout of Java

Every construct of a program that is written line by line runs from one place of the text to
another: expressions along their line, blocks one level deeper and back, and the whole program from
the first line until every bracket is closed.
-/
namespace BlockScript.Java

variable {node : Node} {nodes : List Node} {opened : List Char}

section Expressions

variable {σ σ' : Place} {w w' : Write Unit} {v v' : Unit → Write Unit} {ts : List (Char × String)}

def Printed (node : Node) : Prop :=
  ∀ σ : Place, σ.Ready → Prints σ (write node) (write node.outline) node.texts ⟨σ.opened, none⟩

theorem texts_of_isAbsent (h : node.isAbsent = true) : node.texts = [] := by
  rw [eq_absent h]
  rfl

/-- An expression, or the word in its place. -/
theorem prints_part (h : node.isAbsent = false → Printed node) (hσ : σ.Ready) :
    Prints σ (if node.isAbsent then put absentWord else write node)
      (if node.isAbsent then put absentWord else write node.outline) node.texts
      ⟨σ.opened, none⟩ := by
  split
  · next habsent =>
    rw [texts_of_isAbsent habsent]
    exact prints_put (goes_word (by decide) hσ) rfl
  · next habsent => exact h (by simpa using habsent) σ hσ

theorem prints_part_then (h : node.isAbsent = false → Printed node) (hσ : σ.Ready)
    (hv : Prints ⟨σ.opened, none⟩ (v ()) (v' ()) ts σ') :
    Prints σ (if node.isAbsent then put absentWord >>= v else write node >>= v)
      (if node.isAbsent then put absentWord >>= v' else write node.outline >>= v')
      (node.texts ++ ts) σ' := by
  have hpart := prints_part h hσ
  split
  · next habsent =>
    rw [if_pos habsent, if_pos habsent] at hpart
    exact hpart.bind hv
  · next habsent =>
    rw [if_neg habsent, if_neg habsent] at hpart
    exact hpart.bind hv

/-- What is written behind a point, if there is something before it. -/
theorem prints_member (h : node.isAbsent = false → Printed node) (hσ : σ.Ready)
    (hw : ∀ σ : Place, σ.Ready → Prints σ w w' ts ⟨σ.opened, none⟩) :
    Prints σ
      (if !node.isAbsent then write node >>= fun _ => put "." >>= fun _ => w else w)
      (if !node.isAbsent then write node.outline >>= fun _ => put "." >>= fun _ => w' else w')
      (node.texts ++ ts) ⟨σ.opened, none⟩ := by
  cases habsent : node.isAbsent with
  | true =>
    rw [texts_of_isAbsent habsent]
    exact hw σ hσ
  | false =>
    have hpoint : Goes ⟨σ.opened, none⟩ "." ⟨σ.opened, none⟩ := goes_inline (by decide)
    exact (h habsent σ hσ).bind (prints_after hpoint rfl (hw _ Place.ready_none))

theorem prints_literal {value : Literal} {type : Option StaticType} (h : InlineLiteral value) :
    Printed (.literal value type) := by
  intro σ hσ
  cases htext : value.text? with
  | none =>
    obtain ⟨s, hs, hword⟩ := h htext
    have houtline : value.outline = value := by
      cases value <;> first | rfl | cases htext
    have htexts : (Node.literal value type).texts = [] := by
      simp [Node.texts, Node.preorder, Node.text?, htext]
    simp only [Node.outline, write, houtline, hs, htexts]
    exact prints_put (goes_word hword hσ) rfl
  | some text =>
    cases value <;> cases htext
    · exact prints_quoted rfl hσ _
    · exact prints_quoted rfl hσ _

mutual

theorem prints_expression (node : Node) (h : InlineExpression node)
    (habsent : node.isAbsent = false) : Printed node := by
  intro σ hσ
  match node with
  | .literal value type => exact prints_literal h σ hσ
  | .group inner type =>
    have hopening : Goes σ "(" ⟨'(' :: σ.opened, none⟩ :=
      Goes.of_ready ⟨by decide, rfl⟩ hσ (by decide)
    have hclosing : Prints ⟨'(' :: σ.opened, none⟩ (put ")") (put ")") [] ⟨σ.opened, none⟩ :=
      prints_put ⟨by decide, rfl⟩ rfl
    simp only [Node.outline, write, Node.isAbsent_outline]
    refine Prints.congr (prints_after hopening rfl
      (prints_part_then (prints_expression inner h) Place.ready_none hclosing)) ?_
    rw [List.append_nil, Node.texts_group]
  | .binary op left right type =>
    obtain ⟨hop, hleft, hright⟩ := h
    have hbetween : Inline (" " ++ operator op ++ " ") :=
      (Inline.append (by decide) hop).append (by decide)
    simp only [Node.outline, write, Node.isAbsent_outline]
    refine Prints.congr (prints_part_then (prints_expression left hleft) hσ
      (prints_after (goes_inline hbetween) rfl
        (prints_part (prints_expression right hright) Place.ready_none))) ?_
    rw [Node.texts_binary]
  | .access receiver name type bound =>
    obtain ⟨hreceiver, v, rfl, hname⟩ := h
    simp only [Node.outline, write, Node.isAbsent_outline, resolved, pure_bind]
    refine Prints.congr (prints_member (prints_expression receiver hreceiver) hσ
      fun σ hσ => prints_put (goes_word hname hσ) rfl) ?_
    rw [List.append_nil, Node.texts_access]
  | .call receiver name arguments type callee =>
    obtain ⟨hreceiver, harguments, f, rfl, hname⟩ := h
    have hopening : ∀ σ : Place, σ.Ready → Goes σ (f.javaName ++ "(") ⟨'(' :: σ.opened, none⟩ :=
      fun σ hσ => (goes_word hname hσ).append ⟨by decide, rfl⟩
    have hclosing : ∀ opened, Prints ⟨'(' :: opened, none⟩ (put ")") (put ")") [] ⟨opened, none⟩ :=
      fun opened => prints_put ⟨by decide, rfl⟩ rfl
    simp only [Node.outline, write, Node.isAbsent_outline, resolved, pure_bind]
    refine Prints.congr (prints_member (prints_expression receiver hreceiver) hσ fun σ hσ =>
      prints_after (hopening σ hσ) rfl
        ((prints_arguments arguments harguments _ true).bind (hclosing _))) ?_
    rw [List.append_nil, Node.texts_call]
  | .source .. | .field .. | .method .. | .exprStmt .. | .declaration .. | .assign .. | .ifStmt ..
  | .forStmt .. | .whileStmt .. | .returnStmt .. => exact h.elim

theorem prints_arguments (nodes : List Node) (h : InlineExpressions nodes) (opened : List Char)
    (first : Bool) :
    Prints ⟨opened, none⟩ (writeArguments first nodes)
      (writeArguments first (Node.outlineAll nodes)) (Node.textsAll nodes) ⟨opened, none⟩ := by
  match nodes with
  | [] =>
    rw [Node.outlineAll, writeArguments]
    exact prints_pure
  | node :: rest =>
    obtain ⟨hnode, hrest⟩ := h
    rw [Node.outlineAll, writeArguments, writeArguments, Node.isAbsent_outline, Node.textsAll_cons]
    have hmore := prints_arguments rest hrest opened false
    cases first with
    | true => exact prints_part_then (prints_expression node hnode) Place.ready_none hmore
    | false =>
      exact prints_after ⟨by decide, rfl⟩ rfl
        (prints_part_then (prints_expression node hnode) Place.ready_none hmore)

end

/-- What a variable is given where it is bound, if anything. -/
theorem prints_initial (h : InlineExpression node) :
    Prints ⟨opened, none⟩
      (if !node.isAbsent then put " = " >>= fun _ => write node >>= fun _ => put ";" else put ";")
      (if !node.isAbsent then put " = " >>= fun _ => write node.outline >>= fun _ => put ";"
        else put ";")
      node.texts ⟨opened, none⟩ := by
  have hend : Prints ⟨opened, none⟩ (put ";") (put ";") [] ⟨opened, none⟩ :=
    prints_put (goes_inline (by decide)) rfl
  cases habsent : node.isAbsent with
  | true =>
    rw [texts_of_isAbsent habsent]
    exact hend
  | false =>
    refine Prints.congr (prints_after (goes_inline (by decide)) rfl
      ((prints_expression node h habsent _ Place.ready_none).bind hend)) ?_
    rw [List.append_nil]

theorem prints_header (h : InlineHeader node) (before : String) (hbefore : Inline before) :
    Prints ⟨opened, none⟩ (writeHeaderPart before node) (writeHeaderPart before node.outline)
      node.texts ⟨opened, none⟩ := by
  match node, h with
  | .absent, _ =>
    rw [Node.outline, writeHeaderPart]
    exact prints_pure
  | .assign receiver value, ⟨hreceiver, hvalue⟩ =>
    simp only [Node.outline, writeHeaderPart, Node.isAbsent_outline, Node.texts_assign]
    refine prints_after (goes_inline hbefore) rfl ?_
    exact prints_part_then (prints_expression receiver hreceiver) Place.ready_none
      (prints_after (goes_inline (by decide)) rfl
        (prints_part (prints_expression value hvalue) Place.ready_none))

end Expressions

section Blocks

variable {σ : Place}

/-- Nodes on lines of their own. -/
theorem prints_lines (h : ∀ n ∈ nodes, Printed n) :
    Prints ⟨opened, none⟩ (writeLines nodes) (writeLines (Node.outlineAll nodes))
      (Node.textsAll nodes) ⟨opened, none⟩ := by
  induction nodes with
  | nil =>
    rw [Node.outlineAll, writeLines]
    exact prints_pure
  | cons node rest ih =>
    obtain ⟨hnode, hrest⟩ := List.forall_mem_cons.mp h
    rw [Node.outlineAll, writeLines, writeLines, Node.textsAll_cons]
    exact prints_line ((hnode _ Place.ready_line).bind (ih hrest))

theorem depth_opening :
    Place.depth ⟨'\x7b' :: opened, none⟩ = Place.depth ⟨opened, none⟩ + 1 := List.count_cons_self

/-- A brace opens, and the page becomes deeper. -/
theorem prints_opening {v v' : Unit → Write Unit} {ts : List (Char × String)} {σ' : Place}
    (hv : Prints ⟨'\x7b' :: opened, none⟩ (v ()) (v' ()) ts σ') :
    Prints ⟨opened, none⟩ (put "\x7b" >>= fun _ => deeper >>= v)
      (put "\x7b" >>= fun _ => deeper >>= v') ts σ' := by
  have hopening : Goes ⟨opened, none⟩ "\x7b" ⟨'\x7b' :: opened, none⟩ := ⟨by decide, rfl⟩
  refine (prints_of_goes (w := put "\x7b" >>= fun _ => deeper) hopening fun t => ?_).bind hv
  rw [depth_opening]
  rfl

/-- The page becomes less deep, and the brace closes on a new line. -/
theorem prints_closing : Prints ⟨'\x7b' :: opened, none⟩
    (shallower >>= fun _ => indentation >>= fun depth => newline depth >>= fun _ => put "\x7d")
    (shallower >>= fun _ => indentation >>= fun depth => newline depth >>= fun _ => put "\x7d")
    [] ⟨opened, none⟩ := by
  have hbrace : Goes ⟨'\x7b' :: opened, some (4 * opened.count '\x7b')⟩ "\x7d" ⟨opened, none⟩ := by
    refine ⟨by decide, ?_⟩
    show (Place.step _ (.plain '\x7d')).bind _ = _
    simp [Place.step, Place.depth, bracket, closeBracket]
  refine prints_of_goes ((goes_line _).append hbrace) fun t => ?_
  -- The page has come back to the level of the brace before the line begins.
  have hdepth : ((Place.depth ⟨opened, none⟩ + 1 : Nat) : Int) - 1 =
      (Place.depth ⟨opened, none⟩ : Int) := by omega
  have hcolumn : (((Place.depth ⟨opened, none⟩ + 1 : Nat) : Int) - 1).toNat =
      opened.count '\x7b' := by
    rw [hdepth, Int.toNat_natCast]
    rfl
  rw [depth_opening, ← String.append_assoc, ← hdepth, ← hcolumn]
  rfl

/-- Statements in braces. -/
theorem prints_block (h : ∀ n ∈ nodes, Printed n) :
    Prints ⟨opened, none⟩ (writeBlock nodes) (writeBlock (Node.outlineAll nodes))
      (Node.textsAll nodes) ⟨opened, none⟩ := by
  cases nodes with
  | nil =>
    rw [Node.outlineAll, writeBlock]
    exact prints_put ⟨by decide, rfl⟩ rfl
  | cons node rest =>
    obtain ⟨hnode, hrest⟩ := List.forall_mem_cons.mp h
    rw [Node.outlineAll, writeBlock, writeBlock, Node.textsAll_cons]
    refine Prints.congr (prints_opening (prints_line
      ((hnode _ Place.ready_line).bind ((prints_lines hrest).bind prints_closing)))) ?_
    rw [List.append_nil]

end Blocks

section Statements

variable {σ σ' : Place} {v v' : Unit → Write Unit} {ts : List (Char × String)}

/-- A condition in parentheses, and what follows it. -/
theorem prints_condition {before : String} (hbefore : Goes σ before ⟨'(' :: σ.opened, none⟩)
    (h : InlineExpression node) (hv : Prints ⟨σ.opened, none⟩ (v ()) (v' ()) ts σ') :
    Prints σ
      (put before >>= fun _ => if node.isAbsent then put absentWord >>= fun _ => put ") " >>= v
        else write node >>= fun _ => put ") " >>= v)
      (put before >>= fun _ => if node.isAbsent then put absentWord >>= fun _ => put ") " >>= v'
        else write node.outline >>= fun _ => put ") " >>= v')
      (node.texts ++ ts) σ' := by
  have hclosing : Goes ⟨'(' :: σ.opened, none⟩ ") " ⟨σ.opened, none⟩ := ⟨by decide, rfl⟩
  exact prints_after hbefore rfl
    (prints_part_then (prints_expression node h) Place.ready_none (prints_after hclosing rfl hv))

/-- A variable with its type and what it is given. -/
theorem prints_variable {x : StaticVariable} (h : InlineExpression node)
    (hx : Word x.type.javaName ∧ Inline x.javaName) (hσ : σ.Ready) :
    Prints σ
      (put (x.type.javaName ++ " " ++ x.javaName) >>= fun _ =>
        if !node.isAbsent then put " = " >>= fun _ => write node >>= fun _ => put ";" else put ";")
      (put (x.type.javaName ++ " " ++ x.javaName) >>= fun _ =>
        if !node.isAbsent then put " = " >>= fun _ => write node.outline >>= fun _ => put ";"
        else put ";")
      node.texts ⟨σ.opened, none⟩ := by
  have hvariable : Goes σ (x.type.javaName ++ " " ++ x.javaName) ⟨σ.opened, none⟩ :=
    ((goes_word hx.1 hσ).append (goes_inline (by decide))).append (goes_inline hx.2)
  exact prints_after hvariable rfl (prints_initial h)

/-- What is written for the statements behind an ELSE, if there are any. -/
theorem prints_else (h : ∀ n ∈ nodes, Printed n) :
    Prints ⟨opened, none⟩
      (if !nodes.isEmpty then put " else " >>= fun _ => writeBlock nodes else pure ())
      (if !nodes.isEmpty then put " else " >>= fun _ => writeBlock (Node.outlineAll nodes)
        else pure ())
      (Node.textsAll nodes) ⟨opened, none⟩ := by
  cases nodes with
  | nil => exact prints_pure
  | cons node rest => exact prints_after (goes_inline (by decide)) rfl (prints_block h)

mutual

theorem prints_statement (node : Node) (h : InLines node) : Printed node := by
  intro σ hσ
  have hend : Prints ⟨σ.opened, none⟩ (put ";") (put ";") [] ⟨σ.opened, none⟩ :=
    prints_put (goes_inline (by decide)) rfl
  match node with
  | .exprStmt expression =>
    simp only [Node.outline, write, Node.isAbsent_outline]
    refine Prints.congr (prints_part_then (prints_expression expression h) hσ hend) ?_
    rw [List.append_nil, Node.texts_exprStmt]
  | .declaration name typeName value bound =>
    obtain ⟨hvalue, x, rfl, hx⟩ := h
    simp only [Node.outline, write, Node.isAbsent_outline, resolved, pure_bind]
    exact prints_variable hvalue hx hσ
  | .field name typeName constant value bound =>
    obtain ⟨hvalue, x, rfl, hx⟩ := h
    have hfinal : Goes σ "final " ⟨σ.opened, none⟩ := goes_word (by decide) hσ
    simp only [Node.outline, write, Node.isAbsent_outline, resolved, pure_bind]
    split
    · exact prints_after hfinal rfl (prints_variable hvalue hx Place.ready_none)
    · exact prints_variable hvalue hx hσ
  | .assign receiver value =>
    obtain ⟨hreceiver, hvalue⟩ := h
    simp only [Node.outline, write, Node.isAbsent_outline]
    refine Prints.congr (prints_part_then (prints_expression receiver hreceiver) hσ
      (prints_after (goes_inline (by decide)) rfl
        (prints_part_then (prints_expression value hvalue) Place.ready_none hend))) ?_
    rw [List.append_nil, Node.texts_assign]
  | .ifStmt condition thens elses =>
    obtain ⟨hcondition, hthens, helses⟩ := h
    have hopening : Goes σ "if (" ⟨'(' :: σ.opened, none⟩ :=
      Goes.of_ready ⟨by decide, rfl⟩ hσ (by decide)
    simp only [Node.outline, write, Node.isAbsent_outline, Node.isEmpty_outlineAll]
    refine Prints.congr (prints_condition hopening hcondition
      ((prints_block (prints_statements thens hthens)).bind
        (prints_else (prints_statements elses helses)))) ?_
    rw [Node.texts_ifStmt, List.append_assoc]
  | .forStmt initialization condition increment statements =>
    obtain ⟨hbefore, hcondition, hafter, hstatements⟩ := h
    have hopening : Goes σ "for (" ⟨'(' :: σ.opened, none⟩ :=
      Goes.of_ready ⟨by decide, rfl⟩ hσ (by decide)
    have hclosing : Goes ⟨'(' :: σ.opened, none⟩ ") " ⟨σ.opened, none⟩ := ⟨by decide, rfl⟩
    have hbetween : ∀ s, Inline s → Goes ⟨'(' :: σ.opened, none⟩ s ⟨'(' :: σ.opened, none⟩ :=
      fun s => goes_inline
    simp only [Node.outline, write, Node.isAbsent_outline]
    refine Prints.congr (prints_after hopening rfl ((prints_header hbefore "" (by decide)).bind
      (prints_after (hbetween "; " (by decide)) rfl
        (prints_part_then (prints_expression condition hcondition) Place.ready_none
          (prints_after (hbetween ";" (by decide)) rfl
            ((prints_header hafter " " (by decide)).bind (prints_after hclosing rfl
              (prints_block (prints_statements statements hstatements))))))))) ?_
    rw [Node.texts_forStmt, List.append_assoc, List.append_assoc]
  | .whileStmt condition statements =>
    obtain ⟨hcondition, hstatements⟩ := h
    have hopening : Goes σ "while (" ⟨'(' :: σ.opened, none⟩ :=
      Goes.of_ready ⟨by decide, rfl⟩ hσ (by decide)
    simp only [Node.outline, write, Node.isAbsent_outline, Node.texts_whileStmt]
    exact prints_condition hopening hcondition
      (prints_block (prints_statements statements hstatements))
  | .returnStmt value =>
    simp only [Node.outline, write, Node.isAbsent_outline]
    refine Prints.congr (prints_after (goes_word (by decide) hσ) rfl
      (prints_part_then (prints_expression value h) Place.ready_none hend)) ?_
    rw [List.append_nil, Node.texts_returnStmt]
  | .method name names types returnType statements callee =>
    obtain ⟨hstatements, hnames, f, rfl, hreturns, hname, htypes⟩ := h
    have hparameters : Inline (parameters f.parameterTypes names) := inline_parameters htypes hnames
    have hhead : Goes σ (f.returnType.javaName ++ " " ++ f.javaName ++ "(" ++
        parameters f.parameterTypes names ++ ") ") ⟨σ.opened, none⟩ := by
      have hnamed : Goes σ (f.returnType.javaName ++ " " ++ f.javaName) ⟨σ.opened, none⟩ :=
        ((goes_word hreturns hσ).append (goes_inline (by decide))).append (goes_inline hname)
      have hopening : Goes ⟨σ.opened, none⟩ "(" ⟨'(' :: σ.opened, none⟩ := ⟨by decide, rfl⟩
      exact ((hnamed.append hopening).append (goes_inline hparameters)).append ⟨by decide, rfl⟩
    simp only [Node.outline, write, resolved, pure_bind]
    exact prints_after hhead rfl (prints_block (prints_statements statements hstatements))
  | .absent | .source .. | .literal .. | .group .. | .binary .. | .access .. | .call .. =>
    exact h.elim

theorem prints_statements (nodes : List Node) (h : AllInLines nodes) : ∀ n ∈ nodes, Printed n := by
  match nodes with
  | [] => exact nofun
  | node :: rest =>
    exact List.forall_mem_cons.mpr ⟨prints_statement node h.1, prints_statements rest h.2⟩

end

end Statements

section Programs

/-- Methods on lines of their own, with an empty line behind each. -/
theorem prints_methods (h : ∀ n ∈ nodes, Printed n) :
    Prints ⟨opened, some 0⟩ (writeMethods nodes) (writeMethods (Node.outlineAll nodes))
      (Node.textsAll nodes) ⟨opened, some 0⟩ := by
  induction nodes with
  | nil =>
    rw [Node.outlineAll, writeMethods]
    exact prints_pure
  | cons node rest ih =>
    obtain ⟨hnode, hrest⟩ := List.forall_mem_cons.mp h
    rw [Node.outlineAll, writeMethods, writeMethods, Node.textsAll_cons]
    exact prints_line ((hnode _ Place.ready_line).bind (prints_emptyLine.bind (ih hrest)))

theorem prints_openClass : Prints ⟨[], some 0⟩ openClass openClass [] ⟨['\x7b'], some 0⟩ := by
  have hgoes : Goes ⟨[], some 0⟩ ("public class Main \x7b" ++ "\n") ⟨['\x7b'], some 0⟩ :=
    ⟨by decide, rfl⟩
  refine prints_of_goes hgoes fun t => ?_
  rw [← String.append_assoc]
  rfl

theorem prints_startMethod :
    Prints ⟨['\x7b'], some 0⟩ startMethod startMethod [] ⟨['\x7b'], some 0⟩ := by
  have hhead : Goes ⟨['\x7b'], some 4⟩ "public static void main(String[] args) \x7b"
      ⟨['\x7b', '\x7b'], none⟩ := ⟨by decide, rfl⟩
  have hbody : Goes ⟨['\x7b', '\x7b'], some 8⟩ "System.exit(new Main().main());"
      ⟨['\x7b', '\x7b'], none⟩ := ⟨by decide, rfl⟩
  have hbrace : Goes ⟨['\x7b', '\x7b'], some 4⟩ "\x7d" ⟨['\x7b'], none⟩ := ⟨by decide, rfl⟩
  have hline : ∀ (σ : Place) n, Goes σ (String.ofList ('\n' :: List.replicate n ' '))
    ⟨σ.opened, some n⟩ := fun σ n => goes_line n
  have hstart := ((hline ⟨['\x7b'], some 0⟩ 4).append hhead).append (hline _ 8)
  have hgoes := (((hstart.append hbody).append (hline _ 4)).append hbrace).append (hline _ 0)
  refine prints_of_goes hgoes fun t => ?_
  simp only [← String.append_assoc]
  rfl

theorem prints_closeClass : Prints ⟨['\x7b'], some 0⟩ closeClass closeClass [] ⟨[], none⟩ := by
  have hgoes : Goes ⟨['\x7b'], some 0⟩ "\x7d" ⟨[], none⟩ := ⟨by decide, rfl⟩
  exact prints_of_goes hgoes fun t => rfl

/-- A program is written from the beginning of a text until nothing is open. -/
theorem prints_program (h : ProgramInLines node) :
    Prints ⟨[], some 0⟩ (write node) (write node.outline) node.texts ⟨[], none⟩ := by
  match node, h with
  | .source fields methods, ⟨hfields, hmethods⟩ =>
    have hrest : Prints ⟨['\x7b'], some 0⟩
        (startMethod >>= fun _ => writeMethods methods >>= fun _ => closeClass)
        (startMethod >>= fun _ => writeMethods (Node.outlineAll methods) >>= fun _ => closeClass)
        (Node.textsAll methods) ⟨[], none⟩ := by
      refine Prints.congr (prints_startMethod.bind
        ((prints_methods (prints_statements methods hmethods)).bind prints_closeClass)) ?_
      rw [List.append_nil, List.nil_append]
    simp only [Node.outline, write, Node.isEmpty_outlineAll, Node.texts_source]
    refine prints_openClass.bind ?_
    cases fields with
    | nil => exact hrest
    | cons field rest =>
      obtain ⟨hfield, hmore⟩ := List.forall_mem_cons.mp (prints_statements _ hfields)
      have hlines : Prints ⟨['\x7b'], some 0⟩ (writeLines (field :: rest))
          (writeLines (Node.outlineAll (field :: rest))) (Node.textsAll (field :: rest))
          ⟨['\x7b'], none⟩ := by
        rw [Node.outlineAll, writeLines, writeLines, Node.textsAll_cons]
        exact prints_line ((hfield _ Place.ready_line).bind (prints_lines hmore))
      exact hlines.bind (prints_emptyLine.bind hrest)

end Programs

end BlockScript.Java
