import Propositional.Table.Scan

/-!
# Properties decided by all rows

Tautologies, contradictions, satisfiable formulas and equivalent formulas, each
decided by a scan that stops at the first row that settles the question.
-/

namespace Propositional.Formula

/-- Is the formula true under every assignment? -/
def isTautology (f : Formula) (ceiling : Ceiling) : Except Error Bool := do
  let refuted ← f.scan ceiling fun result => !result
  return !refuted

/-- Is the formula true under some assignment? -/
def isSatisfiable (f : Formula) (ceiling : Ceiling) : Except Error Bool :=
  f.scan ceiling fun result => result

/-- Is the formula false under every assignment? -/
def isContradiction (f : Formula) (ceiling : Ceiling) : Except Error Bool := do
  let satisfiable ← f.isSatisfiable ceiling
  return !satisfiable

/-- Do the formulas agree under every assignment of their joint variables? -/
def isEquivalent (f g : Formula) (ceiling : Ceiling) : Except Error Bool :=
  (bin .biconditional f g).isTautology ceiling

end Propositional.Formula
