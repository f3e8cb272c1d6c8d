import Propositional.Formula.Variables
import Propositional.TruthValue

/-!
# The canonical text of a formula

A connective stands between blanks, and an operand is bracketed exactly if it is
itself a two-place connective.  No bracket is saved by precedence and none is
written around the whole formula.

* `render_bin`, `render_neg` — the text of a compound formula from the texts of
  its operands;
* `toList_render_bin`, `toList_render_neg` — the same for their characters;
* `forall_mem_render` — what holds of the signs and of the names' characters holds of
  all characters of the text.
-/

namespace Propositional.Formula

/-- Atoms and negations stand as an operand without brackets. -/
def isBareOperand : Formula → Bool
  | const _ | var _ | neg _ => true
  | bin _ _ _ => false

/-- The text of an operand, from the text of the formula. -/
def bracket (bare : Bool) (text : String) : String :=
  if bare then text else "(" ++ text ++ ")"

/-- The canonical text. -/
def render : Formula → String
  | const value => (TruthValue.mk value).symbol
  | var name => name
  | neg operand => negationSymbol ++ bracket operand.isBareOperand operand.render
  | bin op left right =>
    bracket left.isBareOperand left.render ++ " " ++ op.symbol ++ " " ++
      bracket right.isBareOperand right.render

/-- The text of a formula where it stands as an operand. -/
def renderOperand (f : Formula) : String := bracket f.isBareOperand f.render

theorem render_neg (f : Formula) : (neg f).render = "~" ++ f.renderOperand := rfl

theorem render_bin (op : Connective) (left right : Formula) :
    (bin op left right).render =
      left.renderOperand ++ " " ++ op.symbol ++ " " ++ right.renderOperand := rfl

/-- Only a two-place connective is not a bare operand. -/
theorem isBareOperand_or_bin (f : Formula) :
    f.isBareOperand = true ∨ ∃ op left right, f = bin op left right := by
  cases f with
  | const value => exact Or.inl rfl
  | var name => exact Or.inl rfl
  | neg operand => exact Or.inl rfl
  | bin op left right => exact Or.inr ⟨op, left, right, rfl⟩

theorem renderOperand_of_bare {f : Formula} (h : f.isBareOperand = true) :
    f.renderOperand = f.render := if_pos h

theorem toList_render_neg (f : Formula) :
    (neg f).render.toList = '~' :: f.renderOperand.toList := by
  rw [render_neg, String.toList_append]
  rfl

theorem toList_render_bin (op : Connective) (left right : Formula) :
    (bin op left right).render.toList =
      left.renderOperand.toList ++
        ' ' :: (op.symbol.toList ++ ' ' :: right.renderOperand.toList) := by
  simp [render_bin, String.toList_append]

/-- A connective stands in brackets as an operand. -/
theorem toList_renderOperand_bin (op : Connective) (left right : Formula) :
    (bin op left right).renderOperand.toList =
      '(' :: ((bin op left right).render.toList ++ [')']) := by
  show ("(" ++ (bin op left right).render ++ ")").toList = _
  simp [String.toList_append]

theorem length_render_neg (f : Formula) :
    (neg f).render.length = f.renderOperand.length + 1 := by
  rw [← String.length_toList, toList_render_neg, List.length_cons, String.length_toList]

theorem length_render_bin (op : Connective) (left right : Formula) :
    (bin op left right).render.length =
      left.renderOperand.length + 1 + op.symbol.length + 1 + right.renderOperand.length := by
  rw [← String.length_toList, toList_render_bin]
  simp only [List.length_append, List.length_cons, String.length_toList]
  omega

theorem length_renderOperand_bin (op : Connective) (left right : Formula) :
    (bin op left right).renderOperand.length = (bin op left right).render.length + 2 := by
  rw [← String.length_toList, toList_renderOperand_bin, List.length_cons, List.length_append,
    String.length_toList]
  rfl

/-- The characters that a text can have besides those of the names. -/
def signs : List Char :=
  ['T', 'F', '~', '(', ')', ' ', '^', 'v', 'x', 'o', 'r', 'N', 'A', 'D', 'O', 'R', 'X', '<', '-',
    '>']

theorem mem_signs_of_symbol {op : Connective} {c : Char} (h : c ∈ op.symbol.toList) :
    c ∈ signs := by
  have hall : op.symbol.toList.all (fun c => signs.contains c) = true := by
    cases op <;> decide
  exact List.contains_iff_mem.mp (List.all_eq_true.mp hall c h)

theorem forall_mem_renderOperand {P : Char → Prop} {f : Formula} (hsigns : ∀ c ∈ signs, P c)
    (h : ∀ c ∈ f.render.toList, P c) : ∀ c ∈ f.renderOperand.toList, P c := by
  rcases f.isBareOperand_or_bin with hbare | ⟨op, left, right, rfl⟩
  · rw [renderOperand_of_bare hbare]
    exact h
  · intro c hc
    rw [toList_renderOperand_bin, List.mem_cons, List.mem_append, List.mem_singleton] at hc
    rcases hc with rfl | hc | rfl
    · exact hsigns _ (by decide)
    · exact h c hc
    · exact hsigns _ (by decide)

/-- What holds of the signs and of the characters of the names that occur holds of all characters
of the text. -/
theorem forall_mem_render {P : Char → Prop} (hsigns : ∀ c ∈ signs, P c) (f : Formula)
    (hnames : ∀ name ∈ f.occurrences, ∀ c ∈ name.toList, P c) : ∀ c ∈ f.render.toList, P c := by
  induction f with
  | const value =>
    intro c hc
    refine hsigns c ?_
    cases value <;> exact List.mem_singleton.mp hc ▸ by decide
  | var name => exact hnames name List.mem_cons_self
  | neg operand ih =>
    intro c hc
    rw [toList_render_neg, List.mem_cons] at hc
    rcases hc with rfl | hc
    · exact hsigns _ (by decide)
    · exact forall_mem_renderOperand hsigns (ih hnames) c hc
  | bin op left right ihl ihr =>
    have hleft := ihl fun name hname => hnames name (List.mem_append_left _ hname)
    have hright := ihr fun name hname => hnames name (List.mem_append_right _ hname)
    have hblank : P ' ' := hsigns _ (by decide)
    intro c hc
    rw [toList_render_bin, List.mem_append, List.mem_cons, List.mem_append, List.mem_cons] at hc
    rcases hc with hc | rfl | hc | rfl | hc
    · exact forall_mem_renderOperand hsigns hleft c hc
    · exact hblank
    · exact hsigns c (mem_signs_of_symbol hc)
    · exact hblank
    · exact forall_mem_renderOperand hsigns hright c hc

end Propositional.Formula
