import Propositional.Output.BlockWriter
import Propositional.Table.TruthTable

/-!
# Comma-separated records

A record is a line of fields with commas between them.  A field that holds a
comma, a quote or a line end is put in quotes, and its own quotes are doubled.
On its way to a sink a record goes byte by byte, but the two quotes of a doubled
one go together.

* `flatten_recordPieces` — the pieces of a record make up its text;
* `foldlM_writeRecord` — writing records is writing their pieces;
* `received_writeCsv` — if writing a table succeeds, the sink has received all
  of its text.
-/

namespace Propositional

namespace Csv

/-- Does the character force its field into quotes? -/
def isSpecial (c : Char) : Bool := c == ',' || c == '"' || c == '\n' || c == '\r'

/-- A character inside a quoted field. -/
def quoteChar (c : Char) : List Char := if c = '"' then ['"', '"'] else [c]

/-- A field as it is written. -/
def fieldChars (field : List Char) : List Char :=
  if field.any isSpecial then '"' :: field.flatMap quoteChar ++ ['"'] else field

/-- The fields of a record as they are written, without the end of the line. -/
def fieldsChars : List (List Char) → List Char
  | [] => []
  | [field] => fieldChars field
  | field :: next :: rest => fieldChars field ++ ',' :: fieldsChars (next :: rest)

/-- A record as it is written. -/
def record (fields : List String) : String :=
  String.ofList (fieldsChars (fields.map String.toList) ++ ['\n'])

/-- The records as they are written. -/
def encode (records : List (List String)) : String := String.join (records.map record)

/-- The bytes of the characters. -/
def bytes (chars : List Char) : List UInt8 := chars.flatMap String.utf8EncodeChar

/-- The bytes of the characters as pieces of their own. -/
def singles (chars : List Char) : List (List UInt8) := (bytes chars).map fun byte => [byte]

/-- The pieces of a character inside a quoted field. -/
def quotePieces (c : Char) : List (List UInt8) :=
  if c = '"' then [bytes (quoteChar c)] else singles (quoteChar c)

/-- The pieces of a field. -/
def fieldPieces (field : List Char) : List (List UInt8) :=
  if field.any isSpecial then singles ['"'] ++ field.flatMap quotePieces ++ singles ['"']
  else singles field

/-- The pieces of the fields of a record, without the end of the line. -/
def fieldsPieces : List (List Char) → List (List UInt8)
  | [] => []
  | [field] => fieldPieces field
  | field :: next :: rest => fieldPieces field ++ singles [','] ++ fieldsPieces (next :: rest)

/-- The pieces of a record. -/
def recordPieces (fields : List String) : List (List UInt8) :=
  fieldsPieces (fields.map String.toList) ++ singles ['\n']

/-- Writes one record. -/
def writeRecord (writer : BlockWriter) (fields : List String) :
    Except WriteFailure BlockWriter :=
  writer.pushAll (recordPieces fields)

@[simp] theorem bytes_append (chars more : List Char) :
    bytes (chars ++ more) = bytes chars ++ bytes more := by
  simp [bytes]

@[simp] theorem flatten_singles (chars : List Char) : (singles chars).flatten = bytes chars := by
  rw [singles, ← List.flatMap_def]
  exact List.flatMap_singleton' _

@[simp] theorem flatten_quotePieces (c : Char) : (quotePieces c).flatten = bytes (quoteChar c) := by
  unfold quotePieces
  split <;> simp

theorem flatten_flatMap_quotePieces (field : List Char) :
    (field.flatMap quotePieces).flatten = bytes (field.flatMap quoteChar) := by
  induction field with
  | nil => rfl
  | cons c rest ih =>
    rw [List.flatMap_cons, List.flatten_append, flatten_quotePieces, ih, List.flatMap_cons,
      bytes_append]

theorem flatten_fieldPieces (field : List Char) :
    (fieldPieces field).flatten = bytes (fieldChars field) := by
  unfold fieldPieces fieldChars
  split
  · rw [List.flatten_append, List.flatten_append, flatten_singles, flatten_flatMap_quotePieces,
      ← bytes_append, ← bytes_append]
    rfl
  · exact flatten_singles field

theorem flatten_fieldsPieces (fields : List (List Char)) :
    (fieldsPieces fields).flatten = bytes (fieldsChars fields) := by
  induction fields with
  | nil => rfl
  | cons field more ih =>
    cases more with
    | nil => exact flatten_fieldPieces field
    | cons next rest =>
      rw [fieldsPieces, fieldsChars, List.flatten_append, List.flatten_append,
        flatten_fieldPieces, flatten_singles, ih, ← bytes_append, ← bytes_append,
        List.append_assoc, List.singleton_append]

/-- The pieces of a record make up its text. -/
theorem flatten_recordPieces (fields : List String) :
    (recordPieces fields).flatten = (record fields).toUTF8.data.toList := by
  rw [recordPieces, List.flatten_append, flatten_fieldsPieces, flatten_singles, ← bytes_append,
    record, String.toUTF8_eq_toByteArray, String.toByteArray_ofList, List.utf8Encode,
    List.toList_data_toByteArray, bytes]

/-- The pieces of the records make up their text. -/
theorem flatten_flatMap_recordPieces (records : List (List String)) :
    (records.flatMap recordPieces).flatten = (encode records).toUTF8.data.toList := by
  induction records with
  | nil => rfl
  | cons fields rest ih =>
    rw [List.flatMap_cons, List.flatten_append, flatten_recordPieces, ih]
    simp [encode, String.join_cons]

/-- Writing records is writing the pieces of all of them. -/
theorem foldlM_writeRecord (writer : BlockWriter) (records : List (List String)) :
    records.foldlM writeRecord writer = writer.pushAll (records.flatMap recordPieces) := by
  induction records generalizing writer with
  | nil => rfl
  | cons fields rest ih =>
    rw [List.foldlM_cons, List.flatMap_cons, BlockWriter.pushAll, List.foldlM_append]
    exact congrArg (writeRecord writer fields >>= ·) (funext ih)

/-- Records that are taken follow what was taken before. -/
theorem written_foldlM {writer next : BlockWriter} {records : List (List String)}
    (h : records.foldlM writeRecord writer = .ok next) :
    next.written = writer.written ++ (encode records).toUTF8.data.toList := by
  rw [foldlM_writeRecord] at h
  rw [BlockWriter.written_pushAll h, flatten_flatMap_recordPieces]

end Csv

namespace TruthTable

/-- The table as comma-separated records. -/
def csv (table : TruthTable) : String := Csv.encode table.records

/-- Writes the table to the sink, record by record and in blocks. -/
def writeCsv (table : TruthTable) (sink : Sink) : Except WriteFailure Sink := do
  let writer ← table.records.foldlM Csv.writeRecord (BlockWriter.ofSink sink)
  writer.flush

/-- If writing succeeds, the sink has received all of the text. -/
theorem received_writeCsv {table : TruthTable} {sink next : Sink}
    (h : table.writeCsv sink = .ok next) :
    next.received.toList = sink.received.toList ++ table.csv.toUTF8.data.toList := by
  unfold writeCsv at h
  cases hfold : table.records.foldlM Csv.writeRecord (BlockWriter.ofSink sink) with
  | error e =>
    rw [hfold] at h
    cases h
  | ok writer =>
    rw [hfold] at h
    rw [BlockWriter.received_flush h, Csv.written_foldlM hfold]
    simp [BlockWriter.ofSink, BlockWriter.written, csv]

end TruthTable

end Propositional
