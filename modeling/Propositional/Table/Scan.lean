import Propositional.Assignment.Edit
import Propositional.Formula.Evaluation
import Propositional.Table.Enumeration

/-!
# Scanning the rows of a table

A scan evaluates a formula row by row, in the order of its table, and stops at
the first result that passes a test.  No row is stored: one assignment is
rebound from row to row.  So a formula of many variables is decided at once if
an early row decides it.

A scan can note the assignments that it evaluates under.  What it does is the
same whether they are kept or dropped.

* `fst_scanVisits` — keeping a list of the visited assignments does not change
  the answer of a scan.
-/

namespace Propositional

namespace Table

/-- Rebinds one assignment to the values of each row in turn, from `row` on and for at most
`remaining` rows, until `visit` says to stop.  Tells whether it did. -/
@[specialize]
def sweep {m : Type → Type} [Monad m] (names : List String) (visit : Assignment → m Bool) :
    (remaining : Nat) → (row : UInt64) → Assignment → m Bool
  | 0, _, _ => pure false
  | remaining + 1, row, current => do
    let width := UInt64.ofNat names.length
    let current := current.setAll (names.zip (values width row))
    let stopped ← visit current
    if stopped then pure true else sweep names visit remaining (row + 1) current

/-- Sweeps over all rows of the names, from the first. -/
@[specialize]
def sweepAll {m : Type → Type} [Monad m] (names : List String) (visit : Assignment → m Bool) :
    m Bool :=
  sweep names visit (rowCount (UInt64.ofNat names.length)).toNat 0
    (Assignment.ofList (names.map fun name => (name, true)))

end Table

namespace Formula

section Noting

variable {m : Type → Type} [Monad m] [MonadLiftT (Except Error) m]

/-- Evaluates the formula under the assignment, notes that it did, and tests the result. -/
@[specialize]
def testNoting (f : Formula) (stop : Bool → Bool) (note : Assignment → m Unit)
    (a : Assignment) : m Bool := do
  let result ← f.evaluate a
  note a
  return stop result

/-- Does the result of some row pass the test?  The assignments that are evaluated under are noted,
and rows behind the first that passes are not looked at. -/
@[specialize]
def scanNoting (f : Formula) (ceiling : Ceiling) (stop : Bool → Bool)
    (note : Assignment → m Unit) : m Bool := do
  let names := f.freeVariables
  ceiling.check names.length
  Table.sweepAll names (f.testNoting stop note)

end Noting

/-- Drops what is noted. -/
def dropped (_ : Assignment) : Except Error Unit := pure ()

/-- Keeps what is noted behind what has been noted before. -/
def kept (a : Assignment) : StateT (List Assignment) (Except Error) Unit :=
  modify fun visited => visited ++ [a]

/-- Does the result of some row pass the test? -/
def scan (f : Formula) (ceiling : Ceiling) (stop : Bool → Bool) : Except Error Bool :=
  f.scanNoting ceiling stop dropped

/-- The answer of a scan together with the assignments it evaluates under, in order. -/
def scanVisits (f : Formula) (ceiling : Ceiling) (stop : Bool → Bool) :
    Except Error (Bool × List Assignment) :=
  (f.scanNoting ceiling stop kept).run []

/-- Evaluating and testing, where what is noted is dropped. -/
theorem testNoting_dropped (f : Formula) (stop : Bool → Bool) (a : Assignment) :
    f.testNoting stop dropped a = (f.evaluate a).map stop := by
  rw [testNoting]
  cases f.evaluate a <;> rfl

/-- Evaluating and testing, where the assignment is kept. -/
theorem run_testNoting_kept (f : Formula) (stop : Bool → Bool) (a : Assignment)
    (visited : List Assignment) :
    (f.testNoting stop kept a).run visited =
      ((f.evaluate a).map stop).map fun stopped => (stopped, visited ++ [a]) := by
  rw [testNoting]
  cases f.evaluate a <;> rfl

theorem fst_sweep (f : Formula) (stop : Bool → Bool) (names : List String) (remaining : Nat)
    (row : UInt64) (current : Assignment) (visited : List Assignment) :
    ((Table.sweep names (f.testNoting stop kept) remaining row current).run visited).map Prod.fst =
      Table.sweep names (f.testNoting stop dropped) remaining row current := by
  induction remaining generalizing row current visited with
  | zero => rfl
  | succ remaining ih =>
    rw [Table.sweep, Table.sweep, StateT.run_bind, run_testNoting_kept, testNoting_dropped]
    cases f.evaluate _ with
    | error e => rfl
    | ok result =>
      -- Both scans go on exactly if the result does not pass.
      simp only [Except.map, bind, Except.bind]
      cases stop result with
      | true => rfl
      | false => exact ih _ _ _

/-- Keeping a list of the visited assignments does not change the answer. -/
theorem fst_scanVisits (f : Formula) (ceiling : Ceiling) (stop : Bool → Bool) :
    (f.scanVisits ceiling stop).map Prod.fst = f.scan ceiling stop := by
  rw [scanVisits, scan, scanNoting, scanNoting]
  cases hcheck : ceiling.check f.freeVariables.length with
  | error e => rfl
  | ok _ => exact fst_sweep f stop _ _ _ _ _

end Formula

end Propositional
