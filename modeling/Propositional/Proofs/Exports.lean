import Mathlib
import Propositional.Output.TableBlocks
import Propositional.Proofs.CsvRoundTrip
import Propositional.Proofs.TruthTables
import Propositional.Table.Reading

/-!
# Both exports of a table can be read back

A table is written as comma-separated records, and it is shown as lines of cells.  The
records are read back whatever the names are: a name may hold commas, quotes and line
ends, and the formula in the header holds all names once more.  The shown lines are read
back if the names keep to `a` to `z`, for then no cell holds a bar or a line feed, and
both ways give the same records.

* `records_listed` — the records of a table: a header, and the cells of every row;
* `readShown_render` — the shown table, read back;
* `exports_readable` — the written and the shown table, read back.
-/

namespace Propositional.TruthTable

/-- The records hold the table of `f`: its names and its text in front, then the values and
the result of every row. -/
structure Tabulates (f : Formula) (table : TruthTable) (records : List (List String)) : Prop where
  length_eq : records.length = 1 + 2 ^ f.freeVariables.length
  length_rows : table.rows.length = 2 ^ f.freeVariables.length
  /-- There is a field for every name and one for the formula. -/
  width_eq : ∀ record ∈ records, record.length = f.freeVariables.length + 1
  header_eq : records[0]? = some (f.freeVariables ++ [f.render])
  row_eq : ∀ (number : Nat) (row : TruthTableRow), table.rows[number]? = some row →
    records[number + 1]? = some ((row.values ++ [row.result]).map fun value =>
      if value then "T" else "F")

theorem length_cells (row : TruthTableRow) : (cells row).length = row.values.length + 1 := by
  rw [cells, List.length_map, List.length_append, List.length_singleton]

/-- The records of the table of `f`. -/
theorem records_listed (f : Formula) : Tabulates f (listed f) (listed f).records where
  length_eq := by
    rw [records, List.length_cons, List.length_map, length_rows_listed, Nat.add_comm]
  length_rows := length_rows_listed f
  width_eq := by
    intro record hrecord
    rcases List.mem_cons.mp hrecord with rfl | hrecord
    · rw [header, List.length_append, List.length_singleton]
      rfl
    · obtain ⟨row, hrow, rfl⟩ := List.mem_map.mp hrecord
      obtain ⟨number, rfl⟩ := exists_of_mem_rows_listed hrow
      rw [length_cells, rowAt, Table.length_bits]
  header_eq := rfl
  row_eq := by
    intro number row hrow
    rw [records, List.getElem?_cons_succ, List.getElem?_map, hrow, Option.map_some]
    rfl

theorem records_ne_nil (table : TruthTable) : ∀ record ∈ table.records, record ≠ [] := by
  intro record hrecord
  rcases List.mem_cons.mp hrecord with rfl | hrecord
  · exact List.append_ne_nil_of_right_ne_nil _ (List.cons_ne_nil _ _)
  · obtain ⟨row, _, rfl⟩ := List.mem_map.mp hrecord
    exact mt List.map_eq_nil_iff.mp
      (List.append_ne_nil_of_right_ne_nil _ (List.cons_ne_nil _ _))

/-- The written records of a table are read back, whatever the names are. -/
theorem decode_csv (table : TruthTable) : Csv.decode? table.csv = some table.records :=
  Csv.decode_encode _ table.records_ne_nil

/-- Can the character stand in a cell of a shown table without being taken for a bar or for the
end of the line? -/
def Unmistakable (c : Char) : Prop := c ≠ '|' ∧ c ≠ '\n'

theorem unmistakable_of_isLower {c : Char} (h : c.isLower = true) : Unmistakable c := by
  refine ⟨?_, ?_⟩ <;> rintro rfl <;> cases h

theorem unmistakable_of_mem_signs {c : Char} (h : c ∈ Formula.signs) : Unmistakable c := by
  have hall : Formula.signs.all (fun c => c != '|' && c != '\n') = true := by decide
  simpa [Unmistakable] using List.all_eq_true.mp hall c h

/-- No cell of a table can be mistaken if no name can. -/
theorem unmistakable_cells {f : Formula}
    (h : ∀ name ∈ f.freeVariables, ∀ c ∈ name.toList, Unmistakable c) :
    ∀ record ∈ (listed f).records, ∀ cell ∈ record, ∀ c ∈ cell.toList, Unmistakable c := by
  have hrender := Formula.forall_mem_render (fun _ => unmistakable_of_mem_signs) f fun name hname =>
    h name (Formula.mem_freeVariables.mpr hname)
  intro record hrecord cell hcell
  rcases List.mem_cons.mp hrecord with rfl | hrecord
  · rcases List.mem_append.mp hcell with hcell | hcell
    · exact h cell hcell
    · rw [List.mem_singleton.mp hcell]
      exact hrender
  · obtain ⟨row, _, rfl⟩ := List.mem_map.mp hrecord
    obtain ⟨value, _, rfl⟩ := List.mem_map.mp hcell
    intro c hc
    refine unmistakable_of_mem_signs ?_
    cases value <;> exact List.mem_singleton.mp hc ▸ by decide

/-- The shown table of `f` is read back if no name can be mistaken. -/
theorem readShown_render {f : Formula}
    (h : ∀ name ∈ f.freeVariables, ∀ c ∈ name.toList, Unmistakable c) :
    readShown (listed f).render = (listed f).records := by
  refine readShown_lines (records_ne_nil _) fun record hrecord cell hcell => ?_
  have hcell' := unmistakable_cells h record hrecord cell hcell
  exact ⟨fun hbar => (hcell' _ hbar).1 rfl, fun hend => (hcell' _ hend).2 rfl⟩

/-- A table is written without failure, and its text is read back as its records, whatever the
names are.  If they keep to `a` to `z`, the shown table is read back as the same records. -/
theorem exports_readable {f : Formula} {ceiling : Ceiling} {table : TruthTable}
    (h : build f ceiling = .ok table) :
    ∃ sink text records,
      table.writeCsv (Sink.ofRoom none) = .ok sink ∧
      sink.received = text.toUTF8.data ∧
      Csv.decode? text = some records ∧
      Tabulates f table records ∧
      ((∀ name ∈ f.freeVariables, ∀ c ∈ name.toList, c.isLower = true) →
        readShown table.render = records) := by
  obtain rfl := eq_listed_of_build h
  have hfits : (Sink.ofRoom none).fits
      ((Sink.ofRoom none).received.size + (listed f).csv.utf8ByteSize) = true := rfl
  obtain ⟨sink, hwrite⟩ := writeCsv_of_fits hfits
  have hreceived := received_writeCsv hwrite
  refine ⟨sink, (listed f).csv, (listed f).records, hwrite, ?_, decode_csv _, records_listed f, ?_⟩
  · exact Array.toList_inj.mp (hreceived.trans (List.nil_append _))
  · intro hlower
    exact readShown_render fun name hname c hc => unmistakable_of_isLower (hlower name hname c hc)

/-- Names of separators and quotes are read back from the written table; the shown table of plain
names is read back as well. -/
theorem exports_readable_separators :
    (∃ table sink text records,
      build (.bin .or (.var ",\"") (.neg (.var "\n"))) ⟨2⟩ = .ok table ∧
      table.writeCsv (Sink.ofRoom none) = .ok sink ∧
      sink.received = text.toUTF8.data ∧
      Csv.decode? text = some records ∧
      Tabulates (.bin .or (.var ",\"") (.neg (.var "\n"))) table records) ∧
    (∃ table records,
      build (.bin .xor (.var "v") (.var "xor")) ⟨2⟩ = .ok table ∧
      Tabulates (.bin .xor (.var "v") (.var "xor")) table records ∧
      readShown table.render = records) := by
  constructor
  · have hwithin : (Formula.bin .or (.var ",\"") (.neg (.var "\n"))).freeVariables.length ≤
        Ceiling.limit ⟨2⟩ := by decide
    obtain ⟨sink, text, records, hwrite, hreceived, hdecode, htabulates, _⟩ :=
      exports_readable (build_eq _ hwithin)
    exact ⟨_, sink, text, records, build_eq _ hwithin, hwrite, hreceived, hdecode, htabulates⟩
  · have hwithin : (Formula.bin .xor (.var "v") (.var "xor")).freeVariables.length ≤
        Ceiling.limit ⟨2⟩ := by decide
    have hlower : (Formula.bin .xor (.var "v") (.var "xor")).freeVariables.all
        (fun name => name.toList.all Char.isLower) = true := by decide
    obtain ⟨_, _, records, _, _, _, htabulates, hshown⟩ := exports_readable (build_eq _ hwithin)
    refine ⟨_, records, build_eq _ hwithin, htabulates, hshown fun name hname c hc => ?_⟩
    exact List.all_eq_true.mp (List.all_eq_true.mp hlower name hname) c hc

end Propositional.TruthTable
