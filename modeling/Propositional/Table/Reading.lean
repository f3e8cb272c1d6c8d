import Propositional.Table.TruthTable
import Propositional.Text.Lines

/-!
# Reading a table as it is shown

The lines of a shown table, each cut into cells at the bars.  A bar counts only between
blanks, and blanks that belong to no bar stay in their cell.

* `readShown_lines` — cells without bars and line feeds are read back.
-/

namespace Propositional.TruthTable

/-- What stands between the bars of a line. -/
def cutAtBars : List Char → List (List Char)
  | [] => [[]]
  | ' ' :: '|' :: ' ' :: rest => [] :: cutAtBars rest
  | c :: rest => (cutAtBars rest).modifyHead (c :: ·)

/-- The cells of a shown table, line by line. -/
def readShown (text : String) : List (List String) :=
  (Text.lines text.toList).map fun line => (cutAtBars line).map String.ofList

/-- A character that begins no bar belongs to the first cell. -/
theorem cutAtBars_cons {c : Char} {rest : List Char}
    (h : ∀ more, c :: rest ≠ ' ' :: '|' :: ' ' :: more) :
    cutAtBars (c :: rest) = (cutAtBars rest).modifyHead (c :: ·) := by
  rw [cutAtBars]
  intro more hc hrest
  exact h more (by rw [hc, hrest])

/-- A cell without bars is read up to the bar behind it. -/
theorem cutAtBars_append {cell : List Char} (h : '|' ∉ cell) (rest : List Char) :
    cutAtBars (cell ++ ' ' :: '|' :: ' ' :: rest) = cell :: cutAtBars rest := by
  induction cell with
  | nil => rfl
  | cons c more ih =>
    have hmore : '|' ∉ more := fun hmem => h (List.mem_cons_of_mem c hmem)
    -- The bar would have to be the second character, which is of the cell or the blank behind it.
    have hbar : ∀ other, c :: (more ++ ' ' :: '|' :: ' ' :: rest) ≠ ' ' :: '|' :: ' ' :: other := by
      intro other heq
      have htail := (List.cons.inj heq).2
      cases more with
      | nil => exact absurd (List.cons.inj htail).1 (by decide)
      | cons d _ => exact hmore ((List.cons.inj htail).1 ▸ List.mem_cons_self)
    rw [List.cons_append, cutAtBars_cons hbar, ih hmore, List.modifyHead_cons]

theorem cutAtBars_of_notMem {cell : List Char} (h : '|' ∉ cell) : cutAtBars cell = [cell] := by
  induction cell with
  | nil => rfl
  | cons c more ih =>
    have hmore : '|' ∉ more := fun hmem => h (List.mem_cons_of_mem c hmem)
    have hbar : ∀ other, c :: more ≠ ' ' :: '|' :: ' ' :: other := by
      intro other heq
      exact h (heq ▸ List.mem_cons_of_mem _ List.mem_cons_self)
    rw [cutAtBars_cons hbar, ih hmore, List.modifyHead_cons]

/-- The cells of a line are read back. -/
theorem cutAtBars_intercalate {cells : List (List Char)} (hne : cells ≠ [])
    (h : ∀ cell ∈ cells, '|' ∉ cell) :
    cutAtBars ([' ', '|', ' '].intercalate cells) = cells := by
  induction cells with
  | nil => exact absurd rfl hne
  | cons cell more ih =>
    have hcell := h cell List.mem_cons_self
    cases more with
    | nil => rw [List.intercalate_singleton, cutAtBars_of_notMem hcell]
    | cons next rest =>
      have hrest := ih (List.cons_ne_nil next rest) fun other hother =>
        h other (List.mem_cons_of_mem cell hother)
      rw [List.intercalate_cons_cons, List.append_assoc]
      show cutAtBars (cell ++ ' ' :: '|' :: ' ' ::
        [' ', '|', ' '].intercalate (next :: rest)) = cell :: next :: rest
      rw [cutAtBars_append hcell, hrest]

theorem toList_line (cells : List String) :
    (line cells).toList = [' ', '|', ' '].intercalate (cells.map String.toList) ++ ['\n'] := by
  rw [line, String.toList_append, String.toList_intercalate]
  rfl

theorem notMem_intercalate {c : Char} {bar : List Char} {cells : List (List Char)}
    (hbar : c ∉ bar) (h : ∀ cell ∈ cells, c ∉ cell) : c ∉ bar.intercalate cells := by
  induction cells with
  | nil => exact List.not_mem_nil
  | cons cell more ih =>
    have hcell := h cell List.mem_cons_self
    cases more with
    | nil => rwa [List.intercalate_singleton]
    | cons next rest =>
      have hrest := ih fun other hother => h other (List.mem_cons_of_mem cell hother)
      rw [List.intercalate_cons_cons, List.mem_append, List.mem_append]
      rintro ((hc | hc) | hc)
      · exact hcell hc
      · exact hbar hc
      · exact hrest hc

/-- Lines of cells without bars and line feeds are read back. -/
theorem readShown_lines {records : List (List String)} (hne : ∀ cells ∈ records, cells ≠ [])
    (h : ∀ cells ∈ records, ∀ cell ∈ cells, '|' ∉ cell.toList ∧ '\n' ∉ cell.toList) :
    readShown (String.join (records.map line)) = records := by
  have htext : (String.join (records.map line)).toList =
      (records.map fun cells => [' ', '|', ' '].intercalate (cells.map String.toList)).flatMap
        fun line => line ++ ['\n'] := by
    rw [String.toList_join, List.flatMap_map, List.flatMap_map]
    exact congrArg (records.flatMap ·) (funext toList_line)
  have hlines : ∀ text ∈ records.map fun cells =>
      [' ', '|', ' '].intercalate (cells.map String.toList), '\n' ∉ text := by
    intro text htext
    obtain ⟨cells, hcells, rfl⟩ := List.mem_map.mp htext
    refine notMem_intercalate (by decide) fun cell hcell => ?_
    obtain ⟨name, hname, rfl⟩ := List.mem_map.mp hcell
    exact (h cells hcells name hname).2
  rw [readShown, htext, Text.lines_flatMap hlines, List.map_map]
  refine (List.map_congr_left fun cells hcells => ?_).trans (List.map_id records)
  have hcells' : ∀ cell ∈ cells.map String.toList, '|' ∉ cell := by
    intro cell hcell
    obtain ⟨name, hname, rfl⟩ := List.mem_map.mp hcell
    exact (h cells hcells name hname).1
  have hcut := cutAtBars_intercalate (mt List.map_eq_nil_iff.mp (hne cells hcells)) hcells'
  rw [Function.comp_apply, hcut, List.map_map]
  simp [Function.comp_def, String.ofList_toList]

end Propositional.TruthTable
