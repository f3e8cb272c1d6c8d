import Mathlib
import Propositional.Proofs.TruthTables
import Propositional.Formula.Joint
import Propositional.Table.Scan

/-!
# A scan finds what stands in the table

A scan keeps one assignment and rebinds it from row to row.  The rebound assignment
is that of the row: a row writes to every name, and no other name was ever bound.
So a scan tests the assignments of the rows in their order, each once, and gives up
the rows behind the first one that passes.

* `sweepAll_eq_anyM` — a sweep searches the assignments of the enumeration;
* `run_anyM_testNoting_kept` — a search notes the assignments up to the first that passes;
* `scanVisits_eq` — the answer and the assignments of a scan within the ceiling;
* `scan_eq` — the answer alone, by the results of the table;
* `mem_results_listed_iff` — a result stands in the table exactly if the formula takes
  it under some valuation.
-/

namespace Propositional.Table

theorem map_fst_zip_values (e : Enumeration) (row : UInt64) :
    (e.names.zip (values e.width row)).map Prod.fst = e.names := by
  refine List.map_fst_zip ?_
  rw [length_values, e.toNat_width]

theorem bindsOnly_assignment (e : Enumeration) (row : Nat) :
    (e.assignment row).BindsOnly e.names := by
  have honly := Assignment.bindsOnly_ofList (e.names.zip (values e.width (UInt64.ofNat row)))
  rw [map_fst_zip_values] at honly
  exact honly

/-- Whatever an earlier row has bound, rebinding gives the assignment of the row. -/
theorem setAll_values_eq_assignment {e : Enumeration} {current : Assignment} (row : Nat)
    (h : current.BindsOnly e.names) :
    current.setAll (e.names.zip (values e.width (UInt64.ofNat row))) = e.assignment row := by
  rw [Assignment.setAll_eq_insertAll]
  refine Assignment.insertAll_eq_ofList ?_
  rw [map_fst_zip_values]
  exact h

section Sweep

variable {m : Type → Type} [Monad m] {e : Enumeration} (visit : Assignment → m Bool)

/-- One step of a sweep: it tests the assignment of the row, and hands that on as the one to
rebind. -/
theorem sweep_succ (remaining row : Nat) {current : Assignment}
    (h : current.BindsOnly e.names) :
    sweep e.names visit (remaining + 1) (UInt64.ofNat row) current =
      visit (e.assignment row) >>= fun stopped =>
        if stopped then pure true
        else sweep e.names visit remaining (UInt64.ofNat (row + 1)) (e.assignment row) := by
  rw [← setAll_values_eq_assignment row h, UInt64.ofNat_add]
  rfl

/-- A sweep tests the assignments of the rows from `row` on, in order and up to the first that
passes. -/
theorem sweep_eq_anyM (remaining row : Nat) {current : Assignment}
    (h : current.BindsOnly e.names) :
    sweep e.names visit remaining (UInt64.ofNat row) current =
      (List.range' row remaining).anyM fun number => visit (e.assignment number) := by
  -- On the rows left; the assignment that one row hands to the next binds no further name.
  induction remaining generalizing row current with
  | zero => rfl
  | succ remaining ih =>
    have hrest := ih (row + 1) (bindsOnly_assignment e row)
    rw [sweep_succ visit remaining row h, hrest, List.range'_succ, List.anyM_cons]

/-- A sweep over all rows tests the assignments of the enumeration in order, up to the first
that passes. -/
theorem sweepAll_eq_anyM (e : Enumeration) :
    sweepAll e.names visit =
      (List.range e.size).anyM fun number => visit (e.assignment number) := by
  rw [List.range_eq_range']
  exact sweep_eq_anyM visit e.size 0 (Assignment.bindsOnly_ofValuation e.names fun _ => true)

end Sweep

end Propositional.Table

namespace Propositional.TruthTable

/-- The assignments of the rows up to the first that passes, or of all rows if none does. -/
def searched (table : TruthTable) (stop : Bool → Bool) : List Assignment :=
  (table.rows.take (table.rows.findIdx (fun row => stop row.result) + 1)).map
    TruthTableRow.assignment

/-- The assignment of a row of the enumeration is that of the row of the table. -/
theorem assignment_eq_rowAt {f : Formula} (hhard : f.freeVariables.length ≤ Ceiling.hardLimit)
    {number : Nat} (h : number < 2 ^ f.freeVariables.length) :
    Enumeration.assignment ⟨f.freeVariables, hhard⟩ number = (rowAt f number).assignment := by
  let e : Enumeration := ⟨f.freeVariables, hhard⟩
  have hvalues : Table.values e.width (UInt64.ofNat number) =
      Table.bits f.freeVariables.length number := by
    rw [Table.values_eq_bits e.toNat_width_le (by rw [e.toNat_width]; exact h), e.toNat_width]
  rw [Enumeration.assignment, rowAt, hvalues]

/-- The result in a row is the value of the formula in that row. -/
theorem getElem?_results_listed {f : Formula} {number : Nat}
    (h : number < 2 ^ f.freeVariables.length) :
    (listed f).results[number]? = some (rowAt f number).result := by
  rw [results, List.getElem?_map, getElem?_rows_listed h, Option.map_some]

/-- A result stands in the table exactly if the formula has it under some valuation. -/
theorem mem_results_listed_iff {f : Formula} {result : Bool} :
    result ∈ (listed f).results ↔ ∃ v : String → Bool, f.value v = result := by
  constructor
  · intro h
    obtain ⟨row, hrow, hresult⟩ := List.mem_map.mp h
    obtain ⟨number, rfl⟩ := exists_of_mem_rows_listed hrow
    exact ⟨_, hresult⟩
  · rintro ⟨v, rfl⟩
    -- The valuation is looked up in the row of an assignment that has its values.
    obtain ⟨a, ha, hvalue⟩ := Formula.exists_binds_evaluate [f] v
    rw [Formula.jointVariables_singleton] at ha
    have hindex := evaluate_rowIndex ha
    rw [hvalue f List.mem_cons_self] at hindex
    rw [Except.ok.inj hindex]
    exact List.mem_of_getElem? (getElem?_results_listed (rowIndex_lt f.freeVariables a))

end Propositional.TruthTable

namespace Propositional.Formula

/-- A search that notes what it evaluates under notes the assignments in order, up to the first
that passes and that one included. -/
theorem run_anyM_testNoting_kept {f : Formula} {stop : Bool → Bool} {α : Type} {xs : List α}
    {assign : α → Assignment} {passes : α → Bool}
    (h : ∀ x ∈ xs, (f.evaluate (assign x)).map stop = .ok (passes x))
    (visited : List Assignment) :
    (xs.anyM fun x => f.testNoting stop kept (assign x)).run visited =
      .ok (xs.any passes, visited ++ (xs.take (xs.findIdx passes + 1)).map assign) := by
  induction xs generalizing visited with
  | nil => simp [List.anyM, pure, StateT.run, StateT.pure, Except.pure]
  | cons x rest ih =>
    have hrest := ih (fun y hy => h y (List.mem_cons_of_mem x hy)) (visited ++ [assign x])
    have hnote : (f.testNoting stop kept (assign x)).run visited =
        .ok (passes x, visited ++ [assign x]) := by
      rw [run_testNoting_kept, h x List.mem_cons_self]
      rfl
    rw [List.anyM_cons, StateT.run_bind, hnote]
    cases hx : passes x with
    | true => simp [hx, List.findIdx_cons, pure, StateT.run, StateT.pure, Except.pure, bind,
        Except.bind]
    | false =>
      show (rest.anyM fun x => f.testNoting stop kept (assign x)).run (visited ++ [assign x]) = _
      rw [hrest]
      simp [hx, List.findIdx_cons]

/-- A scan within the ceiling searches the rows of the table. -/
theorem scanVisits_eq (f : Formula) {ceiling : Ceiling}
    (h : f.freeVariables.length ≤ ceiling.limit) (stop : Bool → Bool) :
    f.scanVisits ceiling stop =
      .ok ((TruthTable.listed f).results.any stop, (TruthTable.listed f).searched stop) := by
  have hhard : f.freeVariables.length ≤ Ceiling.hardLimit := Nat.le_trans h ceiling.limit_le
  let e : Enumeration := ⟨f.freeVariables, hhard⟩
  let passes : Nat → Bool := fun number => stop (TruthTable.rowAt f number).result
  have hassignment : ∀ number ∈ List.range e.size,
      e.assignment number = (TruthTable.rowAt f number).assignment := by
    intro number hnumber
    rw [e.size_eq, List.mem_range] at hnumber
    exact TruthTable.assignment_eq_rowAt hhard hnumber
  have htest : ∀ number ∈ List.range e.size,
      (f.evaluate (e.assignment number)).map stop = .ok (passes number) := by
    intro number hnumber
    rw [hassignment number hnumber, TruthTable.evaluate_rowAt]
    rfl
  have hsearched : ((List.range e.size).take ((List.range e.size).findIdx passes + 1)).map
      e.assignment = (TruthTable.listed f).searched stop := by
    rw [TruthTable.searched, TruthTable.listed, List.findIdx_map, ← List.map_take, List.map_map,
      ← e.size_eq]
    exact List.map_congr_left fun number hnumber =>
      hassignment number (List.mem_of_mem_take hnumber)
  have hresults : (TruthTable.listed f).results.any stop = (List.range e.size).any passes := by
    rw [TruthTable.results, TruthTable.listed, List.any_map, List.any_map, e.size_eq]
    rfl
  rw [scanVisits, scanNoting, (ceiling.check_eq_ok_iff _).mpr h, hresults, ← hsearched]
  show (Table.sweepAll e.names (f.testNoting stop kept)).run [] = _
  rw [Table.sweepAll_eq_anyM, run_anyM_testNoting_kept htest, List.nil_append]

theorem scanVisits_refused (f : Formula) {ceiling : Ceiling}
    (h : ceiling.limit < f.freeVariables.length) (stop : Bool → Bool) :
    f.scanVisits ceiling stop =
      .error (.tooManyVariables f.freeVariables.length ceiling.limit) := by
  rw [scanVisits, scanNoting, ceiling.check_eq_error _ h]
  rfl

/-- Within the ceiling a scan tells whether some result of the table passes. -/
theorem scan_eq (f : Formula) {ceiling : Ceiling} (h : f.freeVariables.length ≤ ceiling.limit)
    (stop : Bool → Bool) :
    f.scan ceiling stop = .ok ((TruthTable.listed f).results.any stop) := by
  rw [← fst_scanVisits, scanVisits_eq f h]
  rfl

/-- Above the ceiling nothing is scanned. -/
theorem scan_refused (f : Formula) {ceiling : Ceiling}
    (h : ceiling.limit < f.freeVariables.length) (stop : Bool → Bool) :
    f.scan ceiling stop = .error (.tooManyVariables f.freeVariables.length ceiling.limit) := by
  rw [← fst_scanVisits, scanVisits_refused f h]
  rfl

end Propositional.Formula
