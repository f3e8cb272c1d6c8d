/-!
# Truth values

A truth value as it stands in a table: `T` or `F`.

* `symbol_injective` — the symbol tells the value.
-/

namespace Propositional

/-- A single truth value, as a cell of a table shows it. -/
structure TruthValue where
  value : Bool
deriving DecidableEq, Repr

namespace TruthValue

/-- Is the value true? -/
def isTrue (v : TruthValue) : Bool := v.value

/-- Is the value false? -/
def isFalse (v : TruthValue) : Bool := !v.value

/-- `T` or `F`. -/
def symbol (v : TruthValue) : String := if v.value then "T" else "F"

/-- The symbol tells the value. -/
theorem symbol_injective (a b : TruthValue) (h : a.symbol = b.symbol) : a = b := by
  obtain ⟨a⟩ := a
  obtain ⟨b⟩ := b
  revert h
  cases a <;> cases b <;> decide

end TruthValue

end Propositional
