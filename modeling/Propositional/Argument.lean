import Propositional.Formula.Parse
import Propositional.Formula.Render
import Propositional.Semantics

/-!
# Arguments

An argument is valid if its conclusion is true wherever all of its premises are.

* `conjunctionOf_append_singleton`, `conjunctionOf_cons` — the conjunction groups to the
  right and keeps the order of the premises.
-/

namespace Propositional

/-- Premises and a conclusion. -/
structure Argument where
  premises : List Formula
  conclusion : Formula
deriving DecidableEq, Repr

namespace Argument

/-- The argument that the source texts spell; the first text that spells no formula is the
error, the conclusion last. -/
def parse (premises : List String) (conclusion : String) : Except Error Argument := do
  let premises ← premises.mapM Formula.parse
  let conclusion ← Formula.parse conclusion
  return { premises, conclusion }

/-- The conjunction of the formulas, joined in one pass from the last to the first: every formula
is put in front of what has been joined so far. -/
def conjunctionOf (formulas : List Formula) : Except Error Formula :=
  match formulas.reverse with
  | [] => .error .emptyArgument
  | last :: before => .ok (before.foldl (fun joined f => .bin .and f joined) last)

/-- The conjunction of the premises. -/
def conjunction (argument : Argument) : Except Error Formula :=
  conjunctionOf argument.premises

/-- Does the conclusion follow from the premises? -/
def isValid (argument : Argument) (ceiling : Ceiling) : Except Error Bool := do
  let premise ← argument.conjunction
  (Formula.bin .conditional premise argument.conclusion).isTautology ceiling

/-- The premises, set apart by commas, and the conclusion behind a turnstile. -/
def render (argument : Argument) : String :=
  ", ".intercalate (argument.premises.map Formula.render) ++ " |= " ++ argument.conclusion.render

/-- The formulas before the last are put in front of it, from the right. -/
theorem conjunctionOf_append_singleton (before : List Formula) (last : Formula) :
    conjunctionOf (before ++ [last]) = .ok (before.foldr (.bin .and) last) := by
  simp only [conjunctionOf, List.reverse_append, List.reverse_singleton, List.singleton_append,
    List.foldl_reverse]

/-- The conjunction of two or more formulas joins the first to the conjunction of the others. -/
theorem conjunctionOf_cons (f : Formula) {others : List Formula} (h : others ≠ []) :
    conjunctionOf (f :: others) = (conjunctionOf others).map (.bin .and f) := by
  rw [← List.dropLast_concat_getLast h, ← List.cons_append, conjunctionOf_append_singleton,
    conjunctionOf_append_singleton]
  rfl

/-- One or more formulas have a conjunction. -/
theorem exists_conjunctionOf {formulas : List Formula} (h : formulas ≠ []) :
    ∃ g, conjunctionOf formulas = .ok g := by
  rw [← List.dropLast_concat_getLast h]
  exact ⟨_, conjunctionOf_append_singleton _ _⟩

end Argument

end Propositional
