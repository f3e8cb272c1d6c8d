import Propositional.Output.Blocks
import Propositional.Output.Csv

/-!
# The blocks of a table

The text of a table goes to its sink byte by byte, but for the doubled quotes in its
fields, which are never cut in two.  So the blocks of a table are full, unless a doubled
quote stands across the end of one: that block is a byte short.

* `Csv.length_of_mem_recordPieces` — which pieces a record has;
* `flatten_blocks_append_leftover` — the blocks and the rest are the text;
* `isPrefix_flatten_take_blocks` — so the first blocks are a beginning of it;
* `length_of_mem_blocks` — a block is at most one byte short;
* `length_of_mem_blocks_of_header` — and full if the header holds no quote;
* `foldlM_writeRecord_of_fits`, `writeCsv_of_fits`, `writeCsv_of_flush_refused` — what
  is written if the blocks have room in the sink.
-/

namespace Propositional

namespace Csv

theorem length_of_mem_singles {chars : List Char} {piece : List UInt8}
    (h : piece ∈ singles chars) : piece.length = 1 := by
  obtain ⟨byte, _, rfl⟩ := List.mem_map.mp h
  rfl

theorem length_of_mem_quotePieces {c : Char} {piece : List UInt8} (h : piece ∈ quotePieces c) :
    piece.length = 1 ∨ piece.length = 2 ∧ c = '"' := by
  unfold quotePieces at h
  split at h
  · rename_i hc
    subst hc
    rw [List.mem_singleton.mp h]
    exact Or.inr (by decide)
  · exact Or.inl (length_of_mem_singles h)

theorem length_of_mem_fieldPieces {field : List Char} {piece : List UInt8}
    (h : piece ∈ fieldPieces field) : piece.length = 1 ∨ piece.length = 2 ∧ '"' ∈ field := by
  unfold fieldPieces at h
  split at h
  · rcases List.mem_append.mp h with h | h
    · rcases List.mem_append.mp h with h | h
      · exact Or.inl (length_of_mem_singles h)
      · obtain ⟨c, hc, hpiece⟩ := List.mem_flatMap.mp h
        rcases length_of_mem_quotePieces hpiece with hlength | ⟨hlength, rfl⟩
        · exact Or.inl hlength
        · exact Or.inr ⟨hlength, hc⟩
    · exact Or.inl (length_of_mem_singles h)
  · exact Or.inl (length_of_mem_singles h)

theorem length_of_mem_fieldsPieces {fields : List (List Char)} {piece : List UInt8}
    (h : piece ∈ fieldsPieces fields) :
    piece.length = 1 ∨ piece.length = 2 ∧ ∃ field ∈ fields, '"' ∈ field := by
  induction fields with
  | nil => exact absurd h List.not_mem_nil
  | cons field more ih =>
    have hhead : piece ∈ fieldPieces field →
        piece.length = 1 ∨ piece.length = 2 ∧ ∃ other ∈ field :: more, '"' ∈ other := by
      intro hpiece
      rcases length_of_mem_fieldPieces hpiece with hlength | ⟨hlength, hquote⟩
      · exact Or.inl hlength
      · exact Or.inr ⟨hlength, field, List.mem_cons_self, hquote⟩
    cases more with
    | nil => exact hhead h
    | cons next rest =>
      rw [fieldsPieces, List.mem_append, List.mem_append] at h
      rcases h with (h | h) | h
      · exact hhead h
      · exact Or.inl (length_of_mem_singles h)
      · rcases ih h with hlength | ⟨hlength, other, hother, hquote⟩
        · exact Or.inl hlength
        · exact Or.inr ⟨hlength, other, List.mem_cons_of_mem _ hother, hquote⟩

/-- The pieces of a record are single bytes, but for the doubled quotes in its fields. -/
theorem length_of_mem_recordPieces {fields : List String} {piece : List UInt8}
    (h : piece ∈ recordPieces fields) :
    piece.length = 1 ∨ piece.length = 2 ∧ ∃ field ∈ fields, '"' ∈ field.toList := by
  rcases List.mem_append.mp h with h | h
  · rcases length_of_mem_fieldsPieces h with hlength | ⟨hlength, chars, hchars, hquote⟩
    · exact Or.inl hlength
    · obtain ⟨field, hfield, rfl⟩ := List.mem_map.mp hchars
      exact Or.inr ⟨hlength, field, hfield, hquote⟩
  · exact Or.inl (length_of_mem_singles h)

end Csv

namespace TruthTable

/-- The pieces in which the text of the table is written. -/
def pieces (table : TruthTable) : List (List UInt8) := table.records.flatMap Csv.recordPieces

/-- The blocks that are handed over before the final flush. -/
def blocks (table : TruthTable) : List (List UInt8) := BlockWriter.blocks [] table.pieces

/-- What is left for the final flush. -/
def leftover (table : TruthTable) : List UInt8 := BlockWriter.remainder [] table.pieces

/-- The bytes of the text of the table. -/
def bytes (table : TruthTable) : List UInt8 := table.csv.toUTF8.data.toList

theorem flatten_pieces (table : TruthTable) : table.pieces.flatten = table.bytes :=
  Csv.flatten_flatMap_recordPieces table.records

theorem flatten_blocks_append_leftover (table : TruthTable) :
    table.blocks.flatten ++ table.leftover = table.bytes := by
  rw [blocks, leftover, BlockWriter.flatten_blocks_append_remainder, List.nil_append,
    flatten_pieces]

/-- Whatever number of blocks is handed over, they are a beginning of the text. -/
theorem isPrefix_flatten_take_blocks (table : TruthTable) (count : Nat) :
    (table.blocks.take count).flatten <+: table.bytes := by
  refine ⟨(table.blocks.drop count).flatten ++ table.leftover, ?_⟩
  rw [← List.append_assoc, ← List.flatten_append, List.take_append_drop,
    flatten_blocks_append_leftover]

theorem length_bytes (table : TruthTable) : table.bytes.length = table.csv.utf8ByteSize := by
  simp [bytes]

/-- The cells of a row hold no quote. -/
theorem quote_notMem_cells {row : TruthTableRow} {cell : String} (h : cell ∈ cells row) :
    '"' ∉ cell.toList := by
  obtain ⟨value, _, rfl⟩ := List.mem_map.mp h
  cases value <;> decide

/-- The pieces of a table are single bytes, but for the doubled quotes in its header. -/
theorem length_of_mem_pieces {table : TruthTable} {piece : List UInt8}
    (h : piece ∈ table.pieces) :
    piece.length = 1 ∨ piece.length = 2 ∧ ∃ field ∈ table.header, '"' ∈ field.toList := by
  obtain ⟨fields, hfields, hpiece⟩ := List.mem_flatMap.mp h
  rcases Csv.length_of_mem_recordPieces hpiece with hlength | ⟨hlength, field, hfield, hquote⟩
  · exact Or.inl hlength
  · rcases List.mem_cons.mp hfields with rfl | hfields
    · exact Or.inr ⟨hlength, field, hfield, hquote⟩
    · obtain ⟨row, _, rfl⟩ := List.mem_map.mp hfields
      exact absurd hquote (quote_notMem_cells hfield)

theorem length_le_of_mem_pieces {table : TruthTable} {piece : List UInt8}
    (h : piece ∈ table.pieces) : piece.length ≤ 2 := by
  rcases length_of_mem_pieces h with hlength | ⟨hlength, _⟩ <;> omega

/-- A block is full, or a byte short where a doubled quote would have been cut in two. -/
theorem length_of_mem_blocks {table : TruthTable} {block : List UInt8}
    (h : block ∈ table.blocks) : block.length = 8192 ∨ block.length = 8191 := by
  have hbounds := BlockWriter.length_of_mem_blocks (by decide)
    (fun piece hpiece => length_le_of_mem_pieces hpiece) (Nat.zero_le _) h
  unfold BlockWriter.blockSize at hbounds
  omega

/-- A table without quotes in its header is handed over in full blocks. -/
theorem length_of_mem_blocks_of_header {table : TruthTable}
    (hheader : ∀ field ∈ table.header, '"' ∉ field.toList) {block : List UInt8}
    (h : block ∈ table.blocks) : block.length = 8192 := by
  refine BlockWriter.length_eq_of_mem_blocks (fun piece hpiece => ?_) h
  rcases length_of_mem_pieces hpiece with hlength | ⟨_, field, hfield, hquote⟩
  · exact hlength
  · exact absurd hquote (hheader field hfield)

/-- The text of a table is not empty: its header has a line end. -/
theorem bytes_ne_nil (table : TruthTable) : table.bytes ≠ [] := by
  have hend : [10] ∈ Csv.singles ['\n'] := by decide
  have hpiece : [10] ∈ table.pieces :=
    List.mem_flatMap.mpr ⟨table.header, List.mem_cons_self, List.mem_append_right _ hend⟩
  rw [← flatten_pieces]
  exact fun hnil => absurd (List.flatten_eq_nil_iff.mp hnil _ hpiece) (List.cons_ne_nil _ _)

/-- The end of the text is left for the final flush. -/
theorem leftover_ne_nil (table : TruthTable) : table.leftover ≠ [] := by
  refine BlockWriter.remainder_ne_nil (fun piece hpiece => ?_) ?_
  · rintro rfl
    rcases length_of_mem_pieces hpiece with hlength | ⟨hlength, _⟩ <;> cases hlength
  · rw [List.nil_append, flatten_pieces]
    exact table.bytes_ne_nil

theorem length_leftover_le (table : TruthTable) :
    table.leftover.length ≤ BlockWriter.blockSize := by
  refine BlockWriter.length_remainder_le (fun piece hpiece => ?_) (Nat.zero_le _)
  exact Nat.le_trans (length_le_of_mem_pieces hpiece) (by decide)

/-- The blocks are not the whole text. -/
theorem length_flatten_blocks_lt (table : TruthTable) :
    table.blocks.flatten.length < table.bytes.length := by
  have hbytes := congrArg List.length table.flatten_blocks_append_leftover
  have hpos := List.length_pos_iff.mpr table.leftover_ne_nil
  rw [List.length_append] at hbytes
  omega

section Full

variable {table : TruthTable} (hfull : ∀ block ∈ table.blocks, block.length = 8192)

include hfull

/-- Full blocks are beginnings of the text. -/
theorem flatten_take_blocks {count : Nat} (hcount : count ≤ table.blocks.length) :
    (table.blocks.take count).flatten = table.bytes.take (8192 * count) := by
  have htake := BlockWriter.flatten_take_blocks hfull hcount
  rw [List.nil_append, flatten_pieces] at htake
  exact htake

/-- Full blocks are as many as go into the text in front of its last byte. -/
theorem length_blocks : table.blocks.length = (table.bytes.length - 1) / 8192 := by
  have hlength := BlockWriter.length_blocks hfull table.leftover_ne_nil table.length_leftover_le
  rw [List.nil_append, flatten_pieces] at hlength
  exact hlength

theorem length_flatten_blocks :
    table.blocks.flatten.length = 8192 * ((table.bytes.length - 1) / 8192) := by
  have hlength := BlockWriter.length_flatten_take hfull (Nat.le_refl _)
  rw [List.take_length, length_blocks hfull] at hlength
  exact hlength

end Full

section Writes

variable {table : TruthTable} {sink : Sink}

/-- If the blocks have room, they are handed over and the rest waits for the flush. -/
theorem foldlM_writeRecord_of_fits
    (h : sink.fits (sink.received.size + table.blocks.flatten.length) = true) :
    table.records.foldlM Csv.writeRecord (.ofSink sink) =
      .ok ⟨sink.append table.blocks.flatten, table.leftover.toArray⟩ := by
  rw [Csv.foldlM_writeRecord]
  exact BlockWriter.pushAll_of_blocks_fit h

/-- Behind the blocks the rest has room exactly if the whole text has. -/
theorem fits_leftover (table : TruthTable) (sink : Sink) :
    (sink.append table.blocks.flatten).fits
      ((sink.append table.blocks.flatten).received.size + table.leftover.length) =
        sink.fits (sink.received.size + table.csv.utf8ByteSize) := by
  rw [Sink.fits_append, Sink.size_received_append, Nat.add_assoc, ← List.length_append,
    flatten_blocks_append_leftover, length_bytes]

/-- A text that has room is written. -/
theorem writeCsv_of_fits (h : sink.fits (sink.received.size + table.csv.utf8ByteSize) = true) :
    ∃ next, table.writeCsv sink = .ok next := by
  have hblocks : sink.fits (sink.received.size + table.blocks.flatten.length) = true := by
    refine Sink.fits_mono ?_ h
    rw [← length_bytes]
    exact Nat.add_le_add_left (Nat.le_of_lt table.length_flatten_blocks_lt) _
  rw [← fits_leftover] at h
  rw [writeCsv, foldlM_writeRecord_of_fits hblocks]
  show ∃ next, BlockWriter.flush _ = _
  rw [BlockWriter.flush, Sink.write?_toArray_of_fits h]
  exact ⟨_, rfl⟩

/-- If the blocks have room and the rest has not, the flush is refused. -/
theorem writeCsv_of_flush_refused
    (hblocks : sink.fits (sink.received.size + table.blocks.flatten.length) = true)
    (h : sink.fits (sink.received.size + table.csv.utf8ByteSize) = false) :
    table.writeCsv sink = .error ⟨.io Sink.refusal, sink.append table.blocks.flatten⟩ := by
  rw [← fits_leftover] at h
  rw [writeCsv, foldlM_writeRecord_of_fits hblocks]
  show BlockWriter.flush _ = _
  rw [BlockWriter.flush, Sink.write?_toArray_refused h]

/-- If a record is refused, no flush is tried. -/
theorem writeCsv_of_foldlM_error {failure : WriteFailure}
    (h : table.records.foldlM Csv.writeRecord (.ofSink sink) = .error failure) :
    table.writeCsv sink = .error failure := by
  rw [writeCsv, h]
  rfl

end Writes

end TruthTable

end Propositional
