import Mathlib.Order.Bounds.Defs
import Propositional.Output.TableBlocks
import Propositional.Proofs.TruthTables

/-!
# Tables written to small sinks

A sink that takes `n` bytes gets the blocks of a table one by one, and then the rest.
It refuses the first of them that would pass `n`, and what it took before stays there:
the text either arrives whole or the failure is reported, with some whole blocks
delivered.  A refusal of a block is told from a refusal of the rest by its error.

* `foldlM_writeRecord_of_lt` — where the records are refused;
* `received_of_writeCsv_error` — what a failure leaves in the sink;
* `writeCsv_refusal_kind` — the kind of the error when the text has no room;
* `writeCsv_allOrReported` — what has been delivered, in any case.
-/

namespace Propositional

/-- A new sink has room for what it takes in all. -/
theorem Sink.fits_ofRoom (n count : Nat) :
    (ofRoom (some n)).fits ((ofRoom (some n)).received.size + count) = decide (count ≤ n) := by
  simp [ofRoom, fits]

theorem Sink.fits_ofRoom_of_le {n count : Nat} (h : count ≤ n) :
    (ofRoom (some n)).fits ((ofRoom (some n)).received.size + count) = true := by
  rw [fits_ofRoom]
  exact decide_eq_true h

theorem Sink.fits_ofRoom_of_lt {n count : Nat} (h : n < count) :
    (ofRoom (some n)).fits ((ofRoom (some n)).received.size + count) = false := by
  rw [fits_ofRoom]
  exact decide_eq_false (Nat.not_le.mpr h)

theorem Sink.toList_received_append_ofRoom (n : Nat) (bytes : List UInt8) :
    ((ofRoom (some n)).append bytes).received.toList = bytes := by
  simp [ofRoom, append]

namespace TruthTable

section Writes

variable {table : TruthTable} {n : Nat}

/-- The records are refused at the first block that does not fit, if there is one. -/
theorem foldlM_writeRecord_of_lt (h : n < table.blocks.flatten.length) :
    ∃ count, count < table.blocks.length ∧
      table.records.foldlM Csv.writeRecord (.ofSink (.ofRoom (some n))) =
        .error ⟨.csv Sink.refusal,
          (Sink.ofRoom (some n)).append (table.blocks.take count).flatten⟩ ∧
      (table.blocks.take count).flatten.length ≤ n ∧
      n < (table.blocks.take (count + 1)).flatten.length := by
  obtain ⟨count, hcount, hpush, hfits, hnext⟩ :=
    BlockWriter.pushAll_refused (Sink.fits_ofRoom_of_le (Nat.zero_le n)) (Sink.fits_ofRoom_of_lt h)
  rw [Sink.fits_ofRoom] at hfits hnext
  refine ⟨count, hcount, ?_, of_decide_eq_true hfits, Nat.lt_of_not_le (of_decide_eq_false hnext)⟩
  rw [Csv.foldlM_writeRecord]
  exact hpush

/-- A text that has no room is refused, by an error that tells where: as a block of its records, or
as the rest. -/
theorem exists_writeCsv_error (h : n < table.csv.utf8ByteSize) :
    ∃ failure, table.writeCsv (.ofRoom (some n)) = .error failure ∧
      (n < table.blocks.flatten.length → failure.error = .csv Sink.refusal) ∧
      (table.blocks.flatten.length ≤ n → failure.error = .io Sink.refusal) := by
  by_cases hblocks : table.blocks.flatten.length ≤ n
  · have hwrite := writeCsv_of_flush_refused (Sink.fits_ofRoom_of_le hblocks)
      (Sink.fits_ofRoom_of_lt h)
    refine ⟨_, hwrite, ?_, fun _ => rfl⟩
    intro hlt
    omega
  · obtain ⟨count, _, hrecords, _, _⟩ := foldlM_writeRecord_of_lt (Nat.lt_of_not_le hblocks)
    refine ⟨_, writeCsv_of_foldlM_error hrecords, fun _ => rfl, ?_⟩
    intro hle
    exact absurd hle hblocks

/-- A failure leaves the blocks in front of the first part that does not fit. -/
theorem received_of_writeCsv_error {failure : WriteFailure}
    (h : table.writeCsv (.ofRoom (some n)) = .error failure) :
    ∃ count ≤ table.blocks.length,
      failure.sink.received.toList = (table.blocks.take count).flatten ∧
      (table.blocks.take count).flatten.length ≤ n ∧
      (count < table.blocks.length → n < (table.blocks.take (count + 1)).flatten.length) := by
  by_cases hblocks : table.blocks.flatten.length ≤ n
  · by_cases hsize : table.csv.utf8ByteSize ≤ n
    · obtain ⟨next, hnext⟩ := writeCsv_of_fits (Sink.fits_ofRoom_of_le hsize)
      rw [hnext] at h
      cases h
    · rw [writeCsv_of_flush_refused (Sink.fits_ofRoom_of_le hblocks)
        (Sink.fits_ofRoom_of_lt (Nat.lt_of_not_le hsize))] at h
      cases h
      refine ⟨table.blocks.length, Nat.le_refl _, ?_, ?_, fun hlt => absurd hlt (Nat.lt_irrefl _)⟩
      · rw [List.take_length, Sink.toList_received_append_ofRoom]
      · rw [List.take_length]
        exact hblocks
  · obtain ⟨count, hcount, hrecords, hfits, hnext⟩ :=
      foldlM_writeRecord_of_lt (Nat.lt_of_not_le hblocks)
    rw [writeCsv_of_foldlM_error hrecords] at h
    cases h
    exact ⟨count, Nat.le_of_lt hcount, Sink.toList_received_append_ofRoom _ _, hfits,
      fun _ => hnext⟩

/-- A failure leaves a beginning of the text. -/
theorem isPrefix_received_of_writeCsv_error {failure : WriteFailure}
    (h : table.writeCsv (.ofRoom (some n)) = .error failure) :
    failure.sink.received.toList <+: table.csv.toUTF8.data.toList := by
  obtain ⟨count, _, hreceived, _⟩ := received_of_writeCsv_error h
  rw [hreceived]
  exact table.isPrefix_flatten_take_blocks count

/-- The records are refused exactly if the blocks have no room. -/
theorem foldlM_writeRecord_eq_error_iff :
    (∃ failure, table.records.foldlM Csv.writeRecord (.ofSink (.ofRoom (some n))) =
      .error failure) ↔ n < table.blocks.flatten.length := by
  constructor
  · rintro ⟨failure, hfailure⟩
    refine Nat.lt_of_not_le fun hle => ?_
    rw [foldlM_writeRecord_of_fits (Sink.fits_ofRoom_of_le hle)] at hfailure
    cases hfailure
  · intro hlt
    obtain ⟨count, _, hrecords, _, _⟩ := foldlM_writeRecord_of_lt hlt
    exact ⟨_, hrecords⟩

end Writes

/-- The kind of the error when the text has no room: a refused block is an error of the records, a
refused rest one of the flush.  The rest is never empty, so both kinds occur as soon as there is a
block. -/
theorem writeCsv_refusal_kind (table : TruthTable) (n : Nat)
    (h : n < table.csv.utf8ByteSize) :
    table.blocks.flatten.length < table.csv.utf8ByteSize ∧
    ((∀ block ∈ table.blocks, block.length = 8192) →
      table.blocks.flatten.length = 8192 * ((table.csv.utf8ByteSize - 1) / 8192)) ∧
    ∃ failure, table.writeCsv (.ofRoom (some n)) = .error failure ∧
      (n < table.blocks.flatten.length → failure.error = .csv "writer full") ∧
      (table.blocks.flatten.length ≤ n → failure.error = .io "writer full") := by
  refine ⟨?_, fun hfull => ?_, exists_writeCsv_error h⟩
  · rw [← length_bytes]
    exact length_flatten_blocks_lt table
  · rw [← length_bytes]
    exact length_flatten_blocks hfull

/-- A short table has no block; whatever room it lacks, the flush is refused. -/
theorem writeCsv_refusal_kind_disjunction :
    33 < (listed (.bin .or (.var "p") (.var "q"))).csv.utf8ByteSize ∧
      ∃ failure, (listed (.bin .or (.var "p") (.var "q"))).writeCsv (.ofRoom (some 33)) =
          .error failure ∧
        failure.error = .io "writer full" := by
  have hsize : 33 < (listed (.bin .or (.var "p") (.var "q"))).csv.utf8ByteSize := by
    decide +kernel
  have hblocks : (listed (.bin .or (.var "p") (.var "q"))).blocks = [] := by decide +kernel
  obtain ⟨_, _, failure, hfailure, _, hflush⟩ := writeCsv_refusal_kind _ 33 hsize
  exact ⟨hsize, failure, hfailure, hflush (by rw [hblocks]; exact Nat.zero_le _)⟩

/-- The error of a table that does not fit need not be one of the records. -/
theorem writeCsv_error_ne_csv :
    build (.bin .or (.var "p") (.var "q")) .standard =
        .ok (listed (.bin .or (.var "p") (.var "q"))) ∧
      10 < (listed (.bin .or (.var "p") (.var "q"))).csv.utf8ByteSize ∧
      (listed (.bin .or (.var "p") (.var "q"))).writeCsv (.ofRoom (some 10)) =
        .error ⟨.io "writer full", .ofRoom (some 10)⟩ ∧
      ∀ reason, Error.io "writer full" ≠ .csv reason := by
  refine ⟨build_eq _ (by decide), by decide +kernel, rfl, ?_⟩
  intro reason heq
  cases heq

/-- What a sink with room for `n` bytes makes of the table, told by the blocks of the table. -/
structure AllOrReported (table : TruthTable) (n : Nat) : Prop where
  ok_iff : (∃ sink, table.writeCsv (.ofRoom (some n)) = .ok sink) ↔ table.csv.utf8ByteSize ≤ n
  /-- After a success the sink holds exactly the text. -/
  received_of_ok : ∀ sink, table.writeCsv (.ofRoom (some n)) = .ok sink →
    sink.received = table.csv.toUTF8.data
  /-- After a failure it holds the blocks in front of the first part that does not fit. -/
  received_of_error : ∀ failure, table.writeCsv (.ofRoom (some n)) = .error failure →
    ∃ count ≤ table.blocks.length,
      failure.sink.received.toList = (table.blocks.take count).flatten ∧
      (table.blocks.take count).flatten.length ≤ n ∧
      (count < table.blocks.length → n < (table.blocks.take (count + 1)).flatten.length)
  /-- They are a beginning of the text. -/
  isPrefix_of_error : ∀ failure, table.writeCsv (.ofRoom (some n)) = .error failure →
    failure.sink.received.toList <+: table.csv.toUTF8.data.toList
  /-- A block is full, or a byte short where a doubled quote would have been cut in two. -/
  length_of_mem : ∀ block ∈ table.blocks, block.length = 8192 ∨ block.length = 8191
  /-- The failing write is a block in front of the final flush exactly if the blocks do not fit. -/
  early_iff : (∃ failure, table.records.foldlM Csv.writeRecord (.ofSink (.ofRoom (some n))) =
    .error failure) ↔ n < table.blocks.flatten.length

/-- The same where every block has 8192 bytes: what has been delivered is counted in blocks. -/
structure ReportedInBlocks (table : TruthTable) (n : Nat) : Prop where
  received_of_error : ∀ failure, table.writeCsv (.ofRoom (some n)) = .error failure →
    ∃ count, IsGreatest {m | 8192 * m ≤ n ∧ 8192 * m < table.csv.utf8ByteSize} count ∧
      failure.sink.received.toList = table.csv.toUTF8.data.toList.take (8192 * count)
  early_iff : (∃ failure, table.records.foldlM Csv.writeRecord (.ofSink (.ofRoom (some n))) =
    .error failure) ↔ n < 8192 * ((table.csv.utf8ByteSize - 1) / 8192)

/-- With full blocks, what has been delivered is told by their number, which is the largest that
leaves a byte of the text for the failing write and has room. -/
theorem reportedInBlocks {table : TruthTable}
    (hfull : ∀ block ∈ table.blocks, block.length = 8192) (n : Nat) :
    ReportedInBlocks table n where
  received_of_error := by
    intro failure hfailure
    obtain ⟨count, hcount, hreceived, hfits, hnext⟩ := received_of_writeCsv_error hfailure
    have hlength : (table.blocks.take count).flatten.length = 8192 * count :=
      BlockWriter.length_flatten_take hfull hcount
    have hblocks := length_blocks hfull
    have hpos := List.length_pos_iff.mpr table.bytes_ne_nil
    rw [length_bytes] at hblocks hpos
    refine ⟨count, ⟨⟨by omega, by omega⟩, ?_⟩, hreceived.trans (flatten_take_blocks hfull hcount)⟩
    rintro m ⟨hm, htext⟩
    by_cases hlt : count < table.blocks.length
    · have hover : (table.blocks.take (count + 1)).flatten.length = 8192 * (count + 1) :=
        BlockWriter.length_flatten_take hfull hlt
      have := hnext hlt
      omega
    · omega
  early_iff := by
    rw [foldlM_writeRecord_eq_error_iff, length_flatten_blocks hfull, length_bytes]

/-- A table is written whole or its failure is reported: it is written exactly if its text has
room, and otherwise the sink is left with the blocks that fit.  The blocks are full at least
where no field of the header holds a quote. -/
theorem writeCsv_allOrReported (table : TruthTable) (n : Nat) :
    AllOrReported table n ∧
    ((∀ block ∈ table.blocks, block.length = 8192) → ReportedInBlocks table n) ∧
    ((∀ field ∈ table.header, '"' ∉ field.toList) →
      ∀ block ∈ table.blocks, block.length = 8192) := by
  refine ⟨⟨?_, ?_, fun _ => received_of_writeCsv_error,
    fun _ => isPrefix_received_of_writeCsv_error, fun _ => length_of_mem_blocks,
    foldlM_writeRecord_eq_error_iff⟩, fun hfull => reportedInBlocks hfull n,
    fun hheader _ => length_of_mem_blocks_of_header hheader⟩
  · constructor
    · rintro ⟨sink, hsink⟩
      refine Nat.le_of_not_lt fun hlt => ?_
      obtain ⟨failure, hfailure, _⟩ := exists_writeCsv_error hlt
      rw [hsink] at hfailure
      cases hfailure
    · intro hle
      exact writeCsv_of_fits (Sink.fits_ofRoom_of_le hle)
  · intro sink hsink
    have hreceived := received_writeCsv hsink
    exact Array.toList_inj.mp hreceived

/-- A name of the given length. -/
def longName (count : Nat) : String := String.ofList (List.replicate count 'a')

theorem eq_of_mem_longName {c : Char} {count : Nat} (h : c ∈ (longName count).toList) :
    c = 'a' := by
  rw [longName, String.toList_ofList] at h
  exact List.eq_of_mem_replicate h

theorem utf8ByteSize_longName (count : Nat) : (longName count).utf8ByteSize = count := by
  rw [longName, ← String.size_toByteArray, String.toByteArray_ofList]
  simp only [List.utf8Encode, List.size_toByteArray, List.length_flatMap,
    String.length_utf8EncodeChar, List.map_replicate, List.sum_replicate]
  exact Nat.mul_one count

/-- The text of the table of a variable that needs no quotes. -/
theorem csv_listed_var {name : String} (h : ∀ c ∈ name.toList, Csv.isSpecial c = false) :
    (listed (.var name)).csv = name ++ "," ++ name ++ "\nT,T\nF,F\n" := by
  have hfield : Csv.fieldChars name.toList = name.toList := by
    rw [Csv.fieldChars, if_neg]
    simpa using h
  have hrows : (listed (.var name)).rows.map cells = [["T", "T"], ["F", "F"]] := by
    simp [listed, rowAt, cells, Table.bits, Formula.freeVariables_var, Formula.value,
      Assignment.get?_ofList, List.range_succ, TruthValue.symbol]
  have hheader : (listed (.var name)).header = [name, name] := rfl
  rw [csv, records, hrows, hheader]
  apply String.toList_inj.mp
  simp [Csv.encode, Csv.record, Csv.fieldsChars, hfield, String.join]
  decide

/-- The table of a long name has two full blocks; a sink with room for one is left with one. -/
theorem writeCsv_allOrReported_longName :
    (∀ block ∈ (listed (.var (longName 9000))).blocks, block.length = 8192) ∧
      (listed (.var (longName 9000))).csv.utf8ByteSize = 18010 ∧
      AllOrReported (listed (.var (longName 9000))) 9000 ∧
      ReportedInBlocks (listed (.var (longName 9000))) 9000 := by
  obtain ⟨hreported, hinBlocks, hheader⟩ :=
    writeCsv_allOrReported (listed (.var (longName 9000))) 9000
  have hfull : ∀ block ∈ (listed (.var (longName 9000))).blocks, block.length = 8192 := by
    refine hheader fun field hfield hquote => ?_
    have hname : field = longName 9000 := by
      rcases List.mem_append.mp hfield with hfield | hfield
      · exact List.mem_singleton.mp hfield
      · exact List.mem_singleton.mp hfield
    exact absurd (eq_of_mem_longName (hname ▸ hquote)) (by decide)
  have hsize : (listed (.var (longName 9000))).csv.utf8ByteSize = 18010 := by
    rw [csv_listed_var fun c hc => eq_of_mem_longName hc ▸ by decide]
    simp only [String.utf8ByteSize_append, utf8ByteSize_longName]
    decide
  exact ⟨hfull, hsize, hreported, hinBlocks hfull⟩

end TruthTable

end Propositional
