import Mathlib
import Propositional.Proofs.Scans
import Propositional.Semantics

/-!
# A scan streams the table

A scan stores no row, and it looks at no row behind the first one that passes.  What it
does look at are rows of the table: it evaluates under the assignments that the table
stores, in the order of the table, and gets the results that stand there.  So the
verdicts that are got by a scan are those that could be read off the table.

* `scanVisits_eq_map_build` — the answer and the assignments of a scan, from the table;
* `scan_streams` — a scan is refused where the table is, and otherwise ends right behind
  the first row that passes.
-/

namespace Propositional.TruthTable

/-- The row with this number is the first whose result passes the test. -/
def FirstPassing (table : TruthTable) (stop : Bool → Bool) (number : Nat) : Prop :=
  (∃ row, table.rows[number]? = some row ∧ stop row.result = true) ∧
    ∀ earlier < number, ∀ row, table.rows[earlier]? = some row → stop row.result = false

variable {table : TruthTable} {stop : Bool → Bool}

theorem findIdx_of_firstPassing {number : Nat} (h : table.FirstPassing stop number) :
    table.rows.findIdx (fun row => stop row.result) = number := by
  obtain ⟨⟨row, hrow, hstop⟩, hearlier⟩ := h
  obtain ⟨hlt, hget⟩ := List.getElem?_eq_some_iff.mp hrow
  refine (List.findIdx_eq hlt).mpr ⟨?_, fun earlier hlt' => ?_⟩
  · rw [hget]
    exact hstop
  · exact hearlier earlier hlt' _ (List.getElem?_eq_getElem (Nat.lt_trans hlt' hlt))

theorem any_results_of_firstPassing {number : Nat} (h : table.FirstPassing stop number) :
    table.results.any stop = true := by
  obtain ⟨⟨row, hrow, hstop⟩, _⟩ := h
  rw [results, List.any_map]
  exact List.any_eq_true.mpr ⟨row, List.mem_of_getElem? hrow, hstop⟩

theorem any_results_of_none (h : ∀ row ∈ table.rows, stop row.result = false) :
    table.results.any stop = false := by
  rw [results, List.any_map, List.any_eq_false]
  intro row hrow
  rw [Function.comp_apply, h row hrow]
  exact Bool.false_ne_true

/-- If no row passes, all rows are searched. -/
theorem searched_of_none (h : ∀ row ∈ table.rows, stop row.result = false) :
    table.searched stop = table.rows.map TruthTableRow.assignment := by
  rw [searched, List.findIdx_eq_length_of_false h, List.take_of_length_le (Nat.le_succ _)]

end Propositional.TruthTable

namespace Propositional.Formula

/-- The answer of a scan and the assignments it evaluates under, from the table. -/
theorem scanVisits_eq_map_build (f : Formula) (ceiling : Ceiling) (stop : Bool → Bool) :
    f.scanVisits ceiling stop =
      (TruthTable.build f ceiling).map fun table =>
        (table.results.any stop, table.searched stop) := by
  by_cases h : f.freeVariables.length ≤ ceiling.limit
  · rw [scanVisits_eq f h, TruthTable.build_eq f h]
    rfl
  · have hlt : ceiling.limit < f.freeVariables.length := Nat.lt_of_not_le h
    rw [scanVisits_refused f hlt, TruthTable.build_refused f hlt]
    rfl

/-- The answer of a scan, from the table. -/
theorem scan_eq_map_build (f : Formula) (ceiling : Ceiling) (stop : Bool → Bool) :
    f.scan ceiling stop =
      (TruthTable.build f ceiling).map fun table => table.results.any stop := by
  rw [← fst_scanVisits, scanVisits_eq_map_build]
  cases TruthTable.build f ceiling <;> rfl

theorem isTautology_eq_map_build (f : Formula) (ceiling : Ceiling) :
    f.isTautology ceiling =
      (TruthTable.build f ceiling).map fun table => table.results.all fun result => result := by
  rw [isTautology, scan_eq_map_build]
  cases TruthTable.build f ceiling with
  | error e => rfl
  | ok table =>
    show Except.ok (!table.results.any fun result => !result) = _
    rw [List.not_any_eq_all_not]
    simp only [Bool.not_not]
    rfl

theorem isContradiction_eq_map_build (f : Formula) (ceiling : Ceiling) :
    f.isContradiction ceiling =
      (TruthTable.build f ceiling).map fun table => table.results.all fun result => !result := by
  rw [isContradiction, isSatisfiable, scan_eq_map_build]
  cases TruthTable.build f ceiling with
  | error e => rfl
  | ok table =>
    show Except.ok (!table.results.any fun result => result) = _
    rw [List.not_any_eq_all_not]
    rfl

/-- What a scan of `f` does where `f` has this table. -/
structure Streams (f : Formula) (ceiling : Ceiling) (stop : Bool → Bool)
    (table : TruthTable) : Prop where
  /-- The result in a row is got by evaluating under the assignment stored in it. -/
  evaluate_row : ∀ row ∈ table.rows, f.evaluate row.assignment = .ok row.result
  /-- Right behind the first row that passes the scan ends, and it has evaluated under the
  assignments of the rows up to that one, in order and once each. -/
  of_firstPassing : ∀ number, table.FirstPassing stop number →
    f.scan ceiling stop = .ok true ∧
      f.scanVisits ceiling stop =
        .ok (true, (table.rows.take (number + 1)).map TruthTableRow.assignment)
  /-- If no row passes, it has evaluated under the assignments of all rows. -/
  of_none : (∀ row ∈ table.rows, stop row.result = false) →
    f.scan ceiling stop = .ok false ∧
      f.scanVisits ceiling stop = .ok (false, table.rows.map TruthTableRow.assignment)

theorem streams_of_build {f : Formula} {ceiling : Ceiling} {table : TruthTable}
    (h : TruthTable.build f ceiling = .ok table) (stop : Bool → Bool) :
    f.Streams ceiling stop table where
  evaluate_row := by
    intro row hrow
    rw [TruthTable.eq_listed_of_build h] at hrow
    obtain ⟨number, rfl⟩ := TruthTable.exists_of_mem_rows_listed hrow
    exact TruthTable.evaluate_rowAt f number
  of_firstPassing := by
    intro number hfirst
    rw [scan_eq_map_build, scanVisits_eq_map_build, h]
    simp only [Except.map, TruthTable.any_results_of_firstPassing hfirst, TruthTable.searched,
      TruthTable.findIdx_of_firstPassing hfirst, and_self]
  of_none := by
    intro hnone
    rw [scan_eq_map_build, scanVisits_eq_map_build, h]
    simp only [Except.map, TruthTable.any_results_of_none hnone,
      TruthTable.searched_of_none hnone, and_self]

/-- A scan is refused exactly where the table is, with the same error.  Otherwise it streams the
rows of the table, and the verdicts are those that could be read off its results. -/
theorem scan_streams (f : Formula) (ceiling : Ceiling) (stop : Bool → Bool) :
    (∀ e, f.scan ceiling stop = .error e ↔ TruthTable.build f ceiling = .error e) ∧
    (f.scanVisits ceiling stop).map Prod.fst = f.scan ceiling stop ∧
    (∀ table, TruthTable.build f ceiling = .ok table → f.Streams ceiling stop table) ∧
    f.isTautology ceiling = ((TruthTable.build f ceiling).map fun table =>
      table.results.all fun result => result) ∧
    f.isSatisfiable ceiling = ((TruthTable.build f ceiling).map fun table =>
      table.results.any fun result => result) ∧
    f.isContradiction ceiling = ((TruthTable.build f ceiling).map fun table =>
      table.results.all fun result => !result) := by
  refine ⟨fun e => ?_, fst_scanVisits f ceiling stop, fun _ h => streams_of_build h stop,
    isTautology_eq_map_build f ceiling, scan_eq_map_build f ceiling _,
    isContradiction_eq_map_build f ceiling⟩
  rw [scan_eq_map_build]
  cases TruthTable.build f ceiling <;> simp [Except.map]

/-- The scan that refutes a conjunction of two variables ends behind the second of four rows. -/
theorem scan_streams_conjunction :
    ∃ table, TruthTable.build (bin .and (.var "p") (.var "q")) ⟨2⟩ = .ok table ∧
      table.FirstPassing (fun result => !result) 1 ∧
      (bin .and (.var "p") (.var "q")).scanVisits ⟨2⟩ (fun result => !result) =
        .ok (true, (table.rows.take 2).map TruthTableRow.assignment) := by
  have hwithin : (bin .and (.var "p") (.var "q")).freeVariables.length ≤ Ceiling.limit ⟨2⟩ := by
    decide
  have hbuild := TruthTable.build_eq _ hwithin
  have hfirst : (TruthTable.listed (bin .and (.var "p") (.var "q"))).FirstPassing
      (fun result => !result) 1 := by
    refine ⟨⟨_, TruthTable.getElem?_rows_listed (by decide), by decide +kernel⟩, ?_⟩
    intro earlier hlt row hrow
    obtain rfl : earlier = 0 := by omega
    rw [TruthTable.getElem?_rows_listed (by decide)] at hrow
    cases hrow
    decide +kernel
  have hstreams := (scan_streams _ ⟨2⟩ fun result => !result).2.2.1 _ hbuild
  exact ⟨_, hbuild, hfirst, (hstreams.of_firstPassing 1 hfirst).2⟩

end Propositional.Formula
