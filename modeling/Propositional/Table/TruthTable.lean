import Propositional.Formula.Evaluation
import Propositional.Formula.Render
import Propositional.Table.Enumeration

/-!
# Truth tables

A truth table lists the value of a formula under every assignment of its free
variables.  It is shown as lines of cells, a header first: the variables in
increasing order and then the formula.
-/

namespace Propositional

/-- A row of a truth table. -/
structure TruthTableRow where
  assignment : Assignment
  /-- The values of the variables, column by column. -/
  values : List Bool
  result : Bool

/-- The values of a formula under all assignments of its free variables. -/
structure TruthTable where
  formula : Formula
  /-- The free variables of the formula, in increasing order. -/
  names : List String
  rows : List TruthTableRow

namespace TruthTable

/-- The row for the given values of the variables. -/
def row (f : Formula) (names : List String) (values : List Bool) :
    Except Error TruthTableRow := do
  let assignment := Assignment.ofList (names.zip values)
  let result ← f.evaluate assignment
  return { assignment, values, result }

/-- The table of the formula, unless it has too many variables. -/
def build (f : Formula) (ceiling : Ceiling) : Except Error TruthTable := do
  let names := f.freeVariables
  ceiling.check names.length
  let rows ← (Table.allValues (UInt64.ofNat names.length)).mapM (row f names)
  return { formula := f, names, rows }

/-- The number of rows. -/
def rowCount (table : TruthTable) : Nat := table.rows.length

/-- The values of the formula, row by row. -/
def results (table : TruthTable) : List Bool := table.rows.map TruthTableRow.result

/-- The header: the variables and then the formula. -/
def header (table : TruthTable) : List String := table.names ++ [table.formula.render]

/-- The cells of a row: the values of the variables and then that of the formula. -/
def cells (row : TruthTableRow) : List String :=
  (row.values ++ [row.result]).map fun value => (TruthValue.mk value).symbol

/-- The header and the cells of every row. -/
def records (table : TruthTable) : List (List String) :=
  table.header :: table.rows.map cells

/-- A line of the table as it is shown. -/
def line (cells : List String) : String := " | ".intercalate cells ++ "\n"

/-- The table as it is shown: a line per record, its cells set apart by bars. -/
def render (table : TruthTable) : String := String.join (table.records.map line)

end TruthTable

end Propositional
