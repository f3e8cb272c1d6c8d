/-!
# Sets of characters given by ranges

A character property (blank, unprintable, combining) is data: a list of closed
ranges of code points.  Membership is decided by looking through the list.

* `CodePoints.holds_iff` — a character belongs to the set exactly when some listed range
  holds its code point.
-/

namespace Propositional.Text

/-- A set of code points, as closed ranges `(first, last)`. -/
structure CodePoints where
  ranges : List (Nat × Nat)

namespace CodePoints

/-- Does the set hold the character? -/
def holds (set : CodePoints) (c : Char) : Bool :=
  set.ranges.any fun range => range.1 ≤ c.toNat && c.toNat ≤ range.2

/-- Membership is membership of the code point in a listed range. -/
theorem holds_iff (set : CodePoints) (c : Char) :
    set.holds c = true ↔ ∃ range ∈ set.ranges, range.1 ≤ c.toNat ∧ c.toNat ≤ range.2 := by
  simp [holds, List.any_eq_true]

end CodePoints

end Propositional.Text
