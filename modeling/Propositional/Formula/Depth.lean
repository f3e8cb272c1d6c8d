import Propositional.Formula.Render

/-!
# How deep the canonical text nests

A bracket around an operand and a negation each count as a level.  A negated
connective takes two of them, a connective as the operand of another one takes
one, and a connective by itself takes none.
-/

namespace Propositional.Formula

/-- The levels of an operand, from those of the formula. -/
def bracketLevels (bare : Bool) (depth : Nat) : Nat := if bare then depth else 1 + depth

/-- How many brackets and negations of the canonical text stand inside each other. -/
def bracketDepth : Formula → Nat
  | const _ | var _ => 0
  | neg operand => 1 + bracketLevels operand.isBareOperand operand.bracketDepth
  | bin _ left right =>
    max (bracketLevels left.isBareOperand left.bracketDepth)
      (bracketLevels right.isBareOperand right.bracketDepth)

/-- As `bracketDepth`, where the formula stands as an operand. -/
def operandDepth (f : Formula) : Nat := bracketLevels f.isBareOperand f.bracketDepth

theorem bracketDepth_neg (f : Formula) : (neg f).bracketDepth = 1 + f.operandDepth := rfl

theorem bracketDepth_bin (op : Connective) (left right : Formula) :
    (bin op left right).bracketDepth = max left.operandDepth right.operandDepth := rfl

theorem operandDepth_of_bare {f : Formula} (h : f.isBareOperand = true) :
    f.operandDepth = f.bracketDepth := if_pos h

theorem operandDepth_bin (op : Connective) (left right : Formula) :
    (bin op left right).operandDepth = 1 + (bin op left right).bracketDepth := rfl

end Propositional.Formula
