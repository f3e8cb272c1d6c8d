/-!
# Valuations by recursion

All lists of `n` truth values, those that begin with true first.  This is the
order of the rows of a table, said without counting in binary.

* `mem_valuations` — every list of `n` values is listed.
-/

namespace Propositional.Table

/-- All lists of `n` truth values, true before false. -/
def valuations : Nat → List (List Bool)
  | 0 => [[]]
  | n + 1 => (valuations n).map (true :: ·) ++ (valuations n).map (false :: ·)

/-- Exactly the lists of `n` values are listed. -/
theorem mem_valuations {n : Nat} {values : List Bool} :
    values ∈ valuations n ↔ values.length = n := by
  induction n generalizing values with
  | zero => simp [valuations]
  | succ n ih =>
    cases values with
    | nil => simp [valuations]
    | cons value rest => cases value <;> simp [valuations, ih]

end Propositional.Table
