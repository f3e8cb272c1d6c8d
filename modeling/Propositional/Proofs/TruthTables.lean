import Mathlib
import Propositional.Proofs.Rows
import Propositional.Table.TruthTable

/-!
# Truth tables are exact and complete

A formula with too many variables for the ceiling has no table.  Any other has
one: a row binds every variable, so evaluation cannot fail in it.

The rows are all there is to know about the formula.  An assignment from outside
the table, which may bind other names too, gives the variables some values, and
these values are those of one row; the formula looks at nothing else.

* `build_eq` — the table, row by row;
* `evaluate_rowIndex` — the value under an assignment from outside stands in its row;
* `build_exact` — tables are refused above the ceiling only, and below it they
  are exact.
-/

namespace Propositional.TruthTable

/-- The row with the given number, its values read off the bits of the number. -/
def rowAt (f : Formula) (number : Nat) : TruthTableRow where
  assignment :=
    Assignment.ofList (f.freeVariables.zip (Table.bits f.freeVariables.length number))
  values := Table.bits f.freeVariables.length number
  result := f.value fun x =>
    ((Assignment.ofList (f.freeVariables.zip
      (Table.bits f.freeVariables.length number))).get? x).getD false

/-- A row binds the free variables and no other name. -/
theorem isSome_get?_rowAt {f : Formula} {number : Nat} {x : String} :
    ((rowAt f number).assignment.get? x).isSome = true ↔ x ∈ f.freeVariables := by
  have hlength : f.freeVariables.length ≤ (Table.bits f.freeVariables.length number).length :=
    Nat.le_of_eq (Table.length_bits _ _).symm
  rw [rowAt, Assignment.isSome_get?_ofList, List.map_fst_zip hlength]

/-- In a row evaluation does not fail. -/
theorem evaluate_rowAt (f : Formula) (number : Nat) :
    f.evaluate (rowAt f number).assignment = .ok (rowAt f number).result :=
  Formula.evaluate_of_bound f fun _ hx =>
    isSome_get?_rowAt.mpr (Formula.mem_freeVariables.mpr hx)

/-- A row binds the variable of a column to the value in that column. -/
theorem get?_rowAt {f : Formula} {number column : Nat} {name : String}
    (h : f.freeVariables[column]? = some name) :
    (rowAt f number).assignment.get? name = (rowAt f number).values[column]? :=
  Assignment.get?_ofList_zip f.nodup_freeVariables _ h

theorem row_bits (f : Formula) (number : Nat) :
    row f f.freeVariables (Table.bits f.freeVariables.length number) = .ok (rowAt f number) := by
  have hresult := evaluate_rowAt f number
  rw [rowAt] at hresult
  rw [row, hresult]
  rfl

/-- The rows of all numbers, in order. -/
def listed (f : Formula) : TruthTable where
  formula := f
  names := f.freeVariables
  rows := (List.range (2 ^ f.freeVariables.length)).map (rowAt f)

theorem length_rows_listed (f : Formula) :
    (listed f).rows.length = 2 ^ f.freeVariables.length := by
  rw [listed, List.length_map, List.length_range]

theorem getElem?_rows_listed {f : Formula} {number : Nat}
    (h : number < 2 ^ f.freeVariables.length) :
    (listed f).rows[number]? = some (rowAt f number) := by
  rw [listed, List.getElem?_map, List.getElem?_range h, Option.map_some]

theorem exists_of_mem_rows_listed {f : Formula} {row : TruthTableRow}
    (h : row ∈ (listed f).rows) : ∃ number, row = rowAt f number := by
  obtain ⟨number, _, hrow⟩ := List.mem_map.mp h
  exact ⟨number, hrow.symm⟩

/-- The table of a formula within the ceiling, row by row. -/
theorem build_eq (f : Formula) {ceiling : Ceiling}
    (h : f.freeVariables.length ≤ ceiling.limit) : build f ceiling = .ok (listed f) := by
  have hhard : f.freeVariables.length ≤ Ceiling.hardLimit := Nat.le_trans h ceiling.limit_le
  have hwidth : (UInt64.ofNat f.freeVariables.length).toNat = f.freeVariables.length :=
    Enumeration.toNat_width ⟨f.freeVariables, hhard⟩
  have hvalues : Table.allValues (UInt64.ofNat f.freeVariables.length) =
      (List.range (2 ^ f.freeVariables.length)).map (Table.bits f.freeVariables.length) := by
    rw [Table.allValues_eq_map_bits (by rw [hwidth]; exact hhard), hwidth]
  have hrow : row f f.freeVariables ∘ Table.bits f.freeVariables.length =
      fun number => Except.ok (rowAt f number) :=
    funext (row_bits f)
  have hrows : (Table.allValues (UInt64.ofNat f.freeVariables.length)).mapM
      (row f f.freeVariables) =
        Except.ok ((List.range (2 ^ f.freeVariables.length)).map (rowAt f)) := by
    rw [hvalues, List.mapM_map, hrow]
    exact List.mapM_pure
  rw [build, (ceiling.check_eq_ok_iff _).mpr h]
  show Except.bind ((Table.allValues _).mapM _) _ = _
  rw [hrows]
  rfl

/-- The number of the row that an assignment falls into: a name that is not true passes over
the rows of all the columns behind it. -/
def rowIndex (names : List String) (a : Assignment) : Nat :=
  ∑ column : Fin names.length,
    if a.get? names[column] = some true then 0 else 2 ^ (names.length - 1 - column)

theorem rowIndex_eq_index (names : List String) (a : Assignment) :
    rowIndex names a = Table.index (names.map fun name => a.get? name == some true) := by
  induction names with
  | nil => rfl
  | cons name rest ih =>
    have hrest : ∀ column : Fin rest.length,
        (if a.get? (name :: rest)[column.succ] = some true then 0
          else 2 ^ (rest.length + 1 - 1 - column.succ)) =
        if a.get? rest[column] = some true then 0 else 2 ^ (rest.length - 1 - column) := by
      intro column
      have hexponent : rest.length + 1 - 1 - (column + 1) = rest.length - 1 - column := by omega
      rw [Fin.val_succ, hexponent]
      rfl
    rw [List.map_cons, Table.index, ← ih, List.length_map]
    refine (Fin.sum_univ_succ _).trans (congr (congrArg _ ?_) (Finset.sum_congr rfl ?_))
    · exact if_congr beq_iff_eq.symm rfl rfl
    · intro column _
      exact hrest column

theorem rowIndex_lt (names : List String) (a : Assignment) :
    rowIndex names a < 2 ^ names.length := by
  have hlt := Table.index_lt (names.map fun name => a.get? name == some true)
  rw [List.length_map] at hlt
  rw [rowIndex_eq_index]
  exact hlt

/-- In the row of an assignment stand the values that it gives to the names. -/
theorem bits_rowIndex (names : List String) (a : Assignment) :
    Table.bits names.length (rowIndex names a) =
      names.map fun name => a.get? name == some true := by
  have hbits := Table.bits_index (names.map fun name => a.get? name == some true)
  rw [List.length_map] at hbits
  rw [rowIndex_eq_index]
  exact hbits

/-- The value of the formula under an assignment stands in the row of that assignment. -/
theorem evaluate_rowIndex {f : Formula} {a : Assignment}
    (h : ∀ x ∈ f.freeVariables, (a.get? x).isSome = true) :
    f.evaluate a = .ok (rowAt f (rowIndex f.freeVariables a)).result := by
  rw [← evaluate_rowAt]
  refine Formula.evaluate_congr f fun x hx => ?_
  have hmem : x ∈ f.freeVariables := Formula.mem_freeVariables.mpr hx
  obtain ⟨column, hcolumn⟩ := List.mem_iff_getElem?.mp hmem
  obtain ⟨value, hvalue⟩ := Option.isSome_iff_exists.mp (h x hmem)
  have hvalues : (rowAt f (rowIndex f.freeVariables a)).values =
      f.freeVariables.map fun name => a.get? name == some true :=
    bits_rowIndex f.freeVariables a
  rw [get?_rowAt hcolumn, hvalues, List.getElem?_map, hcolumn, Option.map_some, hvalue]
  cases value <;> rfl

/-- What a table of `f` has to hold: the value of `f` under every assignment of its variables,
each in its place, and nothing else. -/
structure Exact (f : Formula) (table : TruthTable) : Prop where
  formula_eq : table.formula = f
  names_eq : table.names = f.freeVariables
  length_rows : table.rows.length = 2 ^ f.freeVariables.length
  length_values : ∀ row ∈ table.rows, row.values.length = f.freeVariables.length
  /-- The value in a column is true exactly if its bit of the number of the row is `0`. -/
  value_eq : ∀ (number : Nat) (row : TruthTableRow), table.rows[number]? = some row →
    ∀ column < f.freeVariables.length,
      row.values[column]? = some (!number.testBit (f.freeVariables.length - 1 - column))
  /-- A row binds the variables and no other name. -/
  bound_iff : ∀ row ∈ table.rows, ∀ x,
    (row.assignment.get? x).isSome = true ↔ x ∈ f.freeVariables
  /-- It binds them to its values. -/
  bound_eq : ∀ row ∈ table.rows, ∀ (column : Nat) (name : String),
    f.freeVariables[column]? = some name → row.assignment.get? name = row.values[column]?
  /-- The rows have the assignments of the enumeration, in its order. -/
  enumerated : (Enumeration.ofNames f.freeVariables).map Enumeration.toList =
    .ok (table.rows.map TruthTableRow.assignment)
  /-- Any assignment that binds the variables falls into a row, and evaluation under it gives
  the result of that row. -/
  complete : ∀ a : Assignment, (∀ x ∈ f.freeVariables, (a.get? x).isSome = true) →
    ∃ row, table.rows[rowIndex f.freeVariables a]? = some row ∧ f.evaluate a = .ok row.result

/-- The rows read off their numbers make an exact table. -/
theorem exact_listed (f : Formula) (hhard : f.freeVariables.length ≤ Ceiling.hardLimit) :
    (listed f).Exact f where
  formula_eq := rfl
  names_eq := rfl
  length_rows := length_rows_listed f
  length_values := by
    intro row hrow
    obtain ⟨number, rfl⟩ := exists_of_mem_rows_listed hrow
    exact Table.length_bits _ _
  value_eq := by
    intro number row hrow column hcolumn
    have hlt : number < 2 ^ f.freeVariables.length := by
      rw [← length_rows_listed]
      exact (List.getElem?_eq_some_iff.mp hrow).1
    rw [getElem?_rows_listed hlt] at hrow
    cases hrow
    exact Table.getElem?_bits number hcolumn
  bound_iff := by
    intro row hrow x
    obtain ⟨number, rfl⟩ := exists_of_mem_rows_listed hrow
    exact isSome_get?_rowAt
  bound_eq := by
    intro row hrow column name hname
    obtain ⟨number, rfl⟩ := exists_of_mem_rows_listed hrow
    exact get?_rowAt hname
  enumerated := by
    have hlist := Enumeration.toList_eq ⟨f.freeVariables, hhard⟩
    rw [Enumeration.ofNames_of_le hhard, Except.map, hlist, listed, List.map_map]
    rfl
  complete := by
    intro a ha
    have hlt := rowIndex_lt f.freeVariables a
    exact ⟨rowAt f (rowIndex f.freeVariables a), getElem?_rows_listed hlt, evaluate_rowIndex ha⟩

/-- Above the ceiling there is no table. -/
theorem build_refused (f : Formula) {ceiling : Ceiling}
    (h : ceiling.limit < f.freeVariables.length) :
    build f ceiling = .error (.tooManyVariables f.freeVariables.length ceiling.limit) := by
  rw [build, ceiling.check_eq_error _ h]
  rfl

/-- There is no other table of a formula than the one that lists its rows. -/
theorem eq_listed_of_build {f : Formula} {ceiling : Ceiling} {table : TruthTable}
    (h : build f ceiling = .ok table) : table = listed f := by
  by_cases hle : f.freeVariables.length ≤ ceiling.limit
  · rw [build_eq f hle] at h
    exact (Except.ok.inj h).symm
  · rw [build_refused f (Nat.lt_of_not_le hle)] at h
    cases h

/-- A table is refused exactly above the ceiling, and no other error occurs; any other table
is exact. -/
theorem build_exact (f : Formula) (ceiling : Ceiling) :
    (∀ e, build f ceiling = .error e ↔
      ceiling.limit < f.freeVariables.length ∧
        e = .tooManyVariables f.freeVariables.length ceiling.limit) ∧
    (f.freeVariables.length ≤ ceiling.limit →
      ∃ table, build f ceiling = .ok table ∧ table.Exact f) := by
  have hbuilt (h : f.freeVariables.length ≤ ceiling.limit) :
      ∃ table, build f ceiling = .ok table ∧ table.Exact f :=
    ⟨listed f, build_eq f h, exact_listed f (Nat.le_trans h ceiling.limit_le)⟩
  refine ⟨fun e => ?_, hbuilt⟩
  by_cases h : f.freeVariables.length ≤ ceiling.limit
  · obtain ⟨table, htable, _⟩ := hbuilt h
    rw [htable]
    constructor
    · intro he
      cases he
    · rintro ⟨hlt, _⟩
      omega
  · have hlt : ceiling.limit < f.freeVariables.length := Nat.lt_of_not_le h
    rw [build_refused f hlt]
    constructor
    · intro he
      cases he
      exact ⟨hlt, rfl⟩
    · rintro ⟨_, rfl⟩
      rfl

/-- A variable that occurs twice counts once: two variables are within a ceiling of two. -/
theorem build_exact_repeated :
    (Formula.bin .conditional (.var "q") (.bin .and (.var "p") (.var "q"))).freeVariables.length ≤
        Ceiling.limit ⟨2⟩ ∧
      ∃ table, build (.bin .conditional (.var "q") (.bin .and (.var "p") (.var "q"))) ⟨2⟩ =
          .ok table ∧
        table.Exact (.bin .conditional (.var "q") (.bin .and (.var "p") (.var "q"))) :=
  ⟨by decide, (build_exact _ ⟨2⟩).2 (by decide)⟩

end Propositional.TruthTable
