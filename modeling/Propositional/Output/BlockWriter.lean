import Propositional.Output.Sink

/-!
# Writing in blocks

Bytes on their way to a sink are gathered in a block of limited size.  They come
in pieces, and a piece is never split: the block is handed over when the next
piece does not fit in it, so a block can be short of its size by less than that
piece.  What is left at the end is handed over by the final flush.  A refusal of
a block is a failure of the record that is being written, a refusal of the rest
a failure of the flush.

The view of a writer is `written`: the bytes its sink has received and then
those that wait.

* `written_push`, `written_pushAll` — pieces that are taken follow the bytes taken
  before, whether or not a block is handed over;
* `received_flush` — a flush that succeeds leaves nothing behind.
-/

namespace Propositional

/-- A sink, and the bytes that wait for it. -/
structure BlockWriter where
  sink : Sink
  pending : Array UInt8

namespace BlockWriter

/-- How many bytes a block has room for. -/
def blockSize : Nat := 8192

/-- A writer for the sink, with nothing waiting. -/
def ofSink (sink : Sink) : BlockWriter := ⟨sink, #[]⟩

/-- Takes one piece, after handing over the block if the piece does not fit in it. -/
def push (writer : BlockWriter) (piece : List UInt8) : Except WriteFailure BlockWriter :=
  if writer.pending.size + piece.length ≤ blockSize then
    .ok { writer with pending := writer.pending ++ piece }
  else
    match writer.sink.write? writer.pending with
    | some sink => .ok ⟨sink, piece.toArray⟩
    | none => .error ⟨.csv Sink.refusal, writer.sink⟩

/-- Takes the pieces one after the other. -/
def pushAll (writer : BlockWriter) (pieces : List (List UInt8)) :
    Except WriteFailure BlockWriter :=
  pieces.foldlM push writer

/-- Hands over what waits. -/
def flush (writer : BlockWriter) : Except WriteFailure Sink :=
  match writer.sink.write? writer.pending with
  | some sink => .ok sink
  | none => .error ⟨.io Sink.refusal, writer.sink⟩

/-- All bytes taken so far: those handed over and those that wait. -/
def written (writer : BlockWriter) : List UInt8 :=
  writer.sink.received.toList ++ writer.pending.toList

/-- A piece that is taken follows the bytes taken before. -/
theorem written_push {writer next : BlockWriter} {piece : List UInt8}
    (h : writer.push piece = .ok next) : next.written = writer.written ++ piece := by
  unfold push at h
  split at h
  · cases h
    simp [written]
  · split at h
    · rename_i sink hwrite
      cases h
      obtain ⟨_, rfl⟩ := (Sink.write?_eq_some_iff _ _ _).mp hwrite
      simp [written]
    · cases h

/-- Pieces that are taken follow the bytes taken before. -/
theorem written_pushAll {writer next : BlockWriter} {pieces : List (List UInt8)}
    (h : writer.pushAll pieces = .ok next) :
    next.written = writer.written ++ pieces.flatten := by
  induction pieces generalizing writer with
  | nil =>
    cases h
    simp
  | cons piece rest ih =>
    rw [pushAll, List.foldlM_cons] at h
    cases hpush : writer.push piece with
    | error e =>
      rw [hpush] at h
      cases h
    | ok middle =>
      rw [hpush] at h
      rw [ih h, written_push hpush, List.append_assoc]
      rfl

/-- A flush that succeeds leaves nothing behind. -/
theorem received_flush {writer : BlockWriter} {sink : Sink} (h : writer.flush = .ok sink) :
    sink.received.toList = writer.written := by
  unfold flush at h
  split at h
  · rename_i next hwrite
    cases h
    obtain ⟨_, rfl⟩ := (Sink.write?_eq_some_iff _ _ _).mp hwrite
    simp [written]
  · cases h

end BlockWriter

end Propositional
