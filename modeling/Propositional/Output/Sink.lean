import Propositional.Error

/-!
# Sinks with little room

A sink takes bytes, perhaps no more than it has room for.  A write that would
pass its room fails whole: nothing of it is taken.

* `Sink.write?_eq_some_iff` — a write succeeds exactly if it fits, and then its bytes
  follow those taken before.
-/

namespace Propositional

/-- Where bytes are written to. -/
structure Sink where
  /-- How many bytes it takes in all; without a number there is no limit. -/
  room : Option Nat
  received : Array UInt8

/-- A failure to write: its cause, and the sink with all that was written before. -/
structure WriteFailure where
  error : Error
  sink : Sink

namespace Sink

/-- A sink that has taken nothing yet. -/
def ofRoom (room : Option Nat) : Sink := ⟨room, #[]⟩

/-- Do this many bytes fit in all? -/
def fits (sink : Sink) (count : Nat) : Bool :=
  match sink.room with
  | none => true
  | some room => count ≤ room

/-- Writes the bytes, unless they do not fit. -/
def write? (sink : Sink) (bytes : Array UInt8) : Option Sink :=
  if sink.fits (sink.received.size + bytes.size) then
    some { sink with received := sink.received ++ bytes }
  else none

theorem fits_mono {sink : Sink} {count more : Nat} (hle : count ≤ more)
    (h : sink.fits more = true) : sink.fits count = true := by
  obtain ⟨room, _⟩ := sink
  cases room with
  | none => rfl
  | some room => exact decide_eq_true (Nat.le_trans hle (of_decide_eq_true h))

theorem write?_of_fits {sink : Sink} {bytes : Array UInt8}
    (h : sink.fits (sink.received.size + bytes.size) = true) :
    sink.write? bytes = some ⟨sink.room, sink.received ++ bytes⟩ := if_pos h

/-- The sink once the bytes have followed those taken before, whether or not they fit. -/
def append (sink : Sink) (bytes : List UInt8) : Sink :=
  { sink with received := sink.received ++ bytes.toArray }

@[simp] theorem append_nil (sink : Sink) : sink.append [] = sink := by
  simp [append]

theorem append_append (sink : Sink) (bytes more : List UInt8) :
    (sink.append bytes).append more = sink.append (bytes ++ more) := by
  simp [append]

theorem fits_append (sink : Sink) (bytes : List UInt8) (count : Nat) :
    (sink.append bytes).fits count = sink.fits count := rfl

theorem size_received_append (sink : Sink) (bytes : List UInt8) :
    (sink.append bytes).received.size = sink.received.size + bytes.length := by
  simp [append]

theorem write?_toArray_of_fits {sink : Sink} {bytes : List UInt8}
    (h : sink.fits (sink.received.size + bytes.length) = true) :
    sink.write? bytes.toArray = some (sink.append bytes) := by
  rw [write?, if_pos (by simpa using h)]
  simp [append]

theorem write?_toArray_refused {sink : Sink} {bytes : List UInt8}
    (h : sink.fits (sink.received.size + bytes.length) = false) :
    sink.write? bytes.toArray = none := by
  rw [write?, if_neg (by simpa using h)]

/-- Why a write is refused. -/
def refusal : String := "writer full"

/-- A write succeeds exactly if it fits, and then its bytes follow those taken before. -/
theorem write?_eq_some_iff (sink next : Sink) (bytes : Array UInt8) :
    sink.write? bytes = some next ↔
      sink.fits (sink.received.size + bytes.size) = true ∧
        next = ⟨sink.room, sink.received ++ bytes⟩ := by
  unfold write?
  split
  · rename_i h
    constructor
    · intro heq
      exact ⟨h, (Option.some.inj heq).symm⟩
    · intro heq
      exact congrArg some heq.2.symm
  · rename_i h
    constructor
    · intro heq
      cases heq
    · intro heq
      exact absurd heq.1 h

end Sink

end Propositional
