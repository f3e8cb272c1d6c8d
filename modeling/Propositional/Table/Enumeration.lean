import Propositional.Assignment
import Propositional.Ceiling

/-!
# Enumeration of assignments

The rows of a table over `n` names are numbered from `0`; the value in column
`j` of row `i` is true exactly if bit `n - 1 - j` of `i` is `0`.  So the first
name alternates slowest, true comes before false, the first row is all true and
the last all false.  Indices are words of 64 bits, which is why `n` may be at
most 63.

* `length_values` — a row has `n` values;
* `Enumeration.take_eq` — the first rows can be had without the others.
-/

namespace Propositional.Table

/-- The number of rows over `n` names. -/
def rowCount (n : UInt64) : UInt64 := 1 <<< n

/-- The value in one column of a row over `n` names. -/
def cell (n row column : UInt64) : Bool := (row >>> (n - 1 - column)) &&& 1 == 0

/-- The values of a row over `n` names. -/
def values (n row : UInt64) : List Bool :=
  (List.range n.toNat).map fun column => cell n row (UInt64.ofNat column)

/-- The values of all rows over `n` names, in order. -/
def allValues (n : UInt64) : List (List Bool) :=
  (List.range (rowCount n).toNat).map fun row => values n (UInt64.ofNat row)

/-- A row has a value for each name. -/
theorem length_values (n row : UInt64) : (values n row).length = n.toNat := by
  simp [values]

end Propositional.Table

namespace Propositional

/-- All assignments over a list of names, which may hold a name more than once: then every
occurrence is a column, and the last one counts. -/
structure Enumeration where
  names : List String
  fits : names.length ≤ Ceiling.hardLimit

namespace Enumeration

theorem fits_of_check {count : Nat} (h : Ceiling.largest.check count = .ok ()) :
    count ≤ Ceiling.hardLimit :=
  Ceiling.limit_largest ▸ (Ceiling.largest.check_eq_ok_iff count).mp h

/-- The enumeration over the names; its rows have to be countable with a word. -/
def ofNames (names : List String) : Except Error Enumeration :=
  match h : Ceiling.largest.check names.length with
  | .ok () => .ok ⟨names, fits_of_check h⟩
  | .error e => .error e

/-- The number of columns, as a word. -/
def width (e : Enumeration) : UInt64 := UInt64.ofNat e.names.length

/-- The number of rows. -/
def size (e : Enumeration) : Nat := (Table.rowCount e.width).toNat

/-- The assignment of a row. -/
def assignment (e : Enumeration) (row : Nat) : Assignment :=
  Assignment.ofList (e.names.zip (Table.values e.width (UInt64.ofNat row)))

/-- The first `count` assignments, or all if there are fewer. -/
def take (e : Enumeration) (count : Nat) : List Assignment :=
  (List.range (min count e.size)).map e.assignment

/-- All assignments in order. -/
def toList (e : Enumeration) : List Assignment := (List.range e.size).map e.assignment

/-- Up to 63 names, which may hold a name more than once, there is an enumeration. -/
theorem ofNames_of_le {names : List String} (h : names.length ≤ Ceiling.hardLimit) :
    ofNames names = .ok ⟨names, h⟩ := by
  have hcheck : Ceiling.largest.check names.length = .ok () := by
    rw [Ceiling.check_eq_ok_iff, Ceiling.limit_largest]
    exact h
  unfold ofNames
  split
  · rfl
  · rename_i e he
    rw [hcheck] at he
    cases he

/-- More names than that are refused, whatever ceiling is set. -/
theorem ofNames_of_lt {names : List String} (h : Ceiling.hardLimit < names.length) :
    ofNames names = .error (.tooManyVariables names.length Ceiling.hardLimit) := by
  have hcheck := Ceiling.largest.check_eq_error names.length (Ceiling.limit_largest ▸ h)
  rw [Ceiling.limit_largest] at hcheck
  unfold ofNames
  split
  · rename_i hok
    rw [hcheck] at hok
    cases hok
  · rename_i e he
    rw [hcheck] at he
    cases he
    rfl

theorem toNat_width (e : Enumeration) : e.width.toNat = e.names.length := by
  have h : e.names.length ≤ 63 := e.fits
  rw [width, UInt64.toNat_ofNat', Nat.mod_eq_of_lt (by omega)]

/-- Taking a number of assignments takes a beginning of all of them. -/
theorem take_eq (e : Enumeration) (count : Nat) : e.take count = e.toList.take count := by
  rw [take, toList, ← List.map_take, List.take_range]

end Enumeration

end Propositional
