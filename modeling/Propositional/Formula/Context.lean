import Propositional.Formula.Evaluation

/-!
# Contexts

A context is a formula with holes, none or one or many, and all are filled with the
same formula.

* `value_fill_congr` — the value of a filled context depends on no more of the
  filling than its value.
-/

namespace Propositional.Formula

/-- A formula in which some subformulas are left open. -/
inductive Context where
  | hole
  | const (value : Bool)
  | var (name : String)
  | neg (operand : Context)
  | bin (op : Connective) (left right : Context)
deriving DecidableEq, Repr

namespace Context

/-- The formula that has `f` in every hole. -/
def fill (f : Formula) : Context → Formula
  | hole => f
  | const value => .const value
  | var name => .var name
  | neg operand => .neg (operand.fill f)
  | bin op left right => .bin op (left.fill f) (right.fill f)

/-- Fillings of the same value give the same value. -/
theorem value_fill_congr {f g : Formula} {v : String → Bool} (h : f.value v = g.value v)
    (context : Context) : (context.fill f).value v = (context.fill g).value v := by
  induction context with
  | hole => exact h
  | const _ => rfl
  | var _ => rfl
  | neg operand ih => rw [fill, fill, value, value, ih]
  | bin op left right ihl ihr => rw [fill, fill, value, value, ihl, ihr]

end Context

end Propositional.Formula
