import Propositional.Connective

/-!
# Formulas

A propositional formula is a truth constant, a variable, a negation, or a
two-place connective between two formulas.  A variable may bear any text as its
name; only the names that are runs of `a` to `z` can also be written in source
text.
-/

namespace Propositional

/-- A propositional formula. -/
inductive Formula where
  | const (value : Bool)
  | var (name : String)
  | neg (operand : Formula)
  | bin (op : Connective) (left right : Formula)
deriving DecidableEq, Repr

namespace Formula

/-- Constants and variables. -/
def isAtom : Formula → Bool
  | const _ | var _ => true
  | neg _ | bin _ _ _ => false

/-- The number of occurrences of subformulas, the formula itself among them. -/
def size : Formula → Nat
  | const _ | var _ => 1
  | neg operand => operand.size + 1
  | bin _ left right => left.size + right.size + 1

/-- The height of the formula as a tree; an atom has height `1`. -/
def height : Formula → Nat
  | const _ | var _ => 1
  | neg operand => operand.height + 1
  | bin _ left right => max left.height right.height + 1

theorem size_pos (f : Formula) : 0 < f.size := by
  cases f <;> simp [size]

theorem height_pos (f : Formula) : 0 < f.height := by
  cases f <;> simp [height]

theorem height_le_size (f : Formula) : f.height ≤ f.size := by
  induction f with
  | const _ => exact Nat.le_refl 1
  | var _ => exact Nat.le_refl 1
  | neg _ ih => exact Nat.succ_le_succ ih
  | bin _ left right ihl ihr =>
    simp only [height, size]
    omega

/-- The nodes of the tree in post-order: both operands before their connective. -/
def postOrder : Formula → List Formula
  | const value => [const value]
  | var name => [var name]
  | neg operand => operand.postOrder ++ [neg operand]
  | bin op left right => left.postOrder ++ right.postOrder ++ [bin op left right]

end Formula

end Propositional
