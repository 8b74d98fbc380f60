import Mathlib.Data.List.Basic
/-!
# Expressions of Java

How the operands of an expression of Java belong together. Every binary operator has a level; an
operator takes to its left what holds together at least as tightly as itself and to its right only
what holds together more tightly. A tree with this order can be built from left to right, one
operator and operand at a time, and its lexemes determine it.
-/
namespace BlockScript.Java

/-- The binary operators by level, from the loosest to the tightest. Longer operators come before
their own beginnings. -/
def levels : List (List String) :=
  [["||"], ["&&"], ["==", "!="], ["<=", ">=", "<", ">"], ["+", "-"], ["*", "/"]]

def level (operator : String) : Nat := levels.findIdx (·.contains operator)

def tightest : Nat := levels.length + 1

theorem level_lt_tightest (operator : String) : level operator < tightest :=
  Nat.lt_succ_of_le List.findIdx_le_length

/-- A piece of the text of an expression; names and literals are words. -/
inductive Lexeme where
  | word (text : String)
  | operator (text : String)
  | opening | closing | comma | dot
deriving DecidableEq, Repr

/-- An expression as far as its grouping goes. -/
inductive Expression where
  | word (text : String)
  | group (inner : Expression)
  | binary (operator : String) (left right : Expression)
  | member (object : Expression) (name : String)
  | call (callee : Expression) (arguments : List Expression)
deriving Repr, Inhabited

namespace Expression

/-- How tightly an expression holds together without parentheses around it. -/
def tightness : Expression → Nat
  | binary operator _ _ => level operator
  | _ => tightest

/-- The tree is grouped by the levels of its operators, and members are taken and calls are made
only of what holds together most tightly. -/
inductive Ordered : Expression → Prop where
  | word {text : String} : Ordered (.word text)
  | group {inner : Expression} (inside : Ordered inner) : Ordered (.group inner)
  | binary {operator : String} {left right : Expression} (first : Ordered left)
      (second : Ordered right) (before : level operator ≤ left.tightness)
      (behind : level operator < right.tightness) : Ordered (.binary operator left right)
  | member {object : Expression} {name : String} (unit : object.tightness = tightest)
      (inside : Ordered object) : Ordered (.member object name)
  | call {callee : Expression} {arguments : List Expression} (unit : callee.tightness = tightest)
      (inside : Ordered callee) (passed : ∀ a ∈ arguments, Ordered a) :
      Ordered (.call callee arguments)

mutual

def lexemes : Expression → List Lexeme
  | word text => [.word text]
  | group inner => .opening :: (lexemes inner ++ [.closing])
  | binary operator left right => lexemes left ++ .operator operator :: lexemes right
  | member object name => lexemes object ++ [.dot, .word name]
  | call callee arguments => lexemes callee ++ .opening :: argumentLexemes arguments

def argumentLexemes : List Expression → List Lexeme
  | [] => [.closing]
  | first :: others => lexemes first ++ moreLexemes others

def moreLexemes : List Expression → List Lexeme
  | [] => [.closing]
  | next :: others => .comma :: (lexemes next ++ moreLexemes others)

end

/-- Puts an operator and its right operand behind an expression. The operator takes the expression
as its left operand, or only the last part of it where that stands behind a looser operator. -/
def attach : Expression → String → Expression → Expression
  | binary first left right, operator, operand =>
    if level first < level operator then binary first left (attach right operator operand)
    else binary operator (binary first left right) operand
  | whole, operator, operand => binary operator whole operand

variable {left right operand : Expression} {operator first : String}

theorem tightness_eq (h : ∀ operator l r, left ≠ .binary operator l r) :
    left.tightness = tightest := by
  cases left with
  | binary operator l r => exact absurd rfl (h operator l r)
  | _ => rfl

theorem attach_of_le (h : level operator ≤ left.tightness) :
    left.attach operator operand = .binary operator left operand := by
  cases left with
  | binary first l r => exact if_neg (Nat.not_lt.mpr h)
  | _ => rfl

/-- What a tighter operator is put behind is only the last operand. -/
theorem attach_attach (h : level first < level operator) :
    (left.attach first right).attach operator operand =
      left.attach first (right.attach operator operand) := by
  induction left, first, right using attach.induct with
  | case1 first right outer l r hlooser ih =>
    simp only [attach, if_pos hlooser, if_pos (Nat.lt_trans hlooser h), ih h]
  | case2 first right outer l r hlooser => simp only [attach, if_neg hlooser, if_pos h]
  | case3 left first right hleft =>
    have hle : level first ≤ left.tightness :=
      tightness_eq hleft ▸ Nat.le_of_lt (level_lt_tightest first)
    rw [attach_of_le hle, attach_of_le hle, attach, if_pos h]

theorem lexemes_attach : (left.attach operator operand).lexemes =
    left.lexemes ++ .operator operator :: operand.lexemes := by
  fun_induction attach left operator operand with
  | case1 operator operand first l r h ih => simp [lexemes, ih]
  | case2 operator operand first l r h => rfl
  | case3 left operator operand h => rfl

theorem tightness_attach {bound : Nat} (hleft : bound < left.tightness)
    (hoperator : bound < level operator) : bound < (left.attach operator operand).tightness := by
  cases left with
  | binary first l r =>
    rw [attach]
    split
    · exact hleft
    · exact hoperator
  | _ => exact hoperator

theorem Ordered.attach (hleft : left.Ordered) (hoperand : operand.Ordered)
    (h : level operator < operand.tightness) : (left.attach operator operand).Ordered := by
  have hle : level operator ≤ tightest := Nat.le_of_lt (level_lt_tightest operator)
  induction hleft with
  | @binary first l r hl hr hbefore hbehind _ ih =>
    rw [Expression.attach]
    split
    · next hlt => exact .binary hl ih hbefore (tightness_attach hbehind hlt)
    · next hge => exact .binary (.binary hl hr hbefore hbehind) hoperand (Nat.not_lt.mp hge) h
  | word => exact .binary .word hoperand hle h
  | group inside => exact .binary (.group inside) hoperand hle h
  | member unit inside => exact .binary (.member unit inside) hoperand hle h
  | call unit inside passed => exact .binary (.call unit inside passed) hoperand hle h

/-- Whatever the levels, some ordered tree has the lexemes of two trees with an operator between
them. -/
theorem exists_ordered_between (hleft : left.Ordered) (hright : right.Ordered)
    (operator : String) : ∃ e : Expression, e.Ordered ∧
      e.lexemes = left.lexemes ++ .operator operator :: right.lexemes := by
  have hunit (h : right.tightness = tightest) : ∃ e : Expression, e.Ordered ∧
      e.lexemes = left.lexemes ++ .operator operator :: right.lexemes :=
    ⟨_, hleft.attach hright (h ▸ level_lt_tightest operator), lexemes_attach⟩
  induction hright with
  | binary first second before behind ih =>
    obtain ⟨e, he, hlexemes⟩ := ih fun h =>
      ⟨_, hleft.attach first (h ▸ level_lt_tightest operator), lexemes_attach⟩
    exact ⟨_, he.attach second behind, by simp [lexemes_attach, hlexemes, lexemes]⟩
  | _ => exact hunit rfl

end Expression
end BlockScript.Java
