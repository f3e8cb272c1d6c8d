import Propositional.Output.BlockWriter

/-!
# The blocks that a writer hands over

Which blocks a writer hands over depends on the pieces alone, not on the sink: the
pieces are gathered until the next one does not fit.  What the sink has room for
decides only how far the writer gets with them.

A block is short of its size by less than the piece that did not fit in it.  So blocks
of single bytes are full, and full blocks can be counted by the bytes of the text.

* `flatten_blocks_append_remainder` — the blocks and what then waits are the bytes
  that were taken;
* `pushAll_of_blocks_fit` — pieces are taken if their blocks have room in the sink;
* `pushAll_refused` — if they have not, the sink is left with the blocks in front of
  the first that does not fit;
* `length_eq_of_mem_blocks` — blocks of single bytes are full;
* `flatten_take_blocks`, `length_blocks` — full blocks are told by the bytes alone.
-/

namespace Propositional.BlockWriter

/-- The blocks that are handed over while the pieces are taken, if `pending` waits in front of
them. -/
def blocks (pending : List UInt8) : List (List UInt8) → List (List UInt8)
  | [] => []
  | piece :: rest =>
    if pending.length + piece.length ≤ blockSize then blocks (pending ++ piece) rest
    else pending :: blocks piece rest

/-- What waits after the pieces have been taken. -/
def remainder (pending : List UInt8) : List (List UInt8) → List UInt8
  | [] => pending
  | piece :: rest =>
    if pending.length + piece.length ≤ blockSize then remainder (pending ++ piece) rest
    else remainder piece rest

theorem blocks_cons_of_le {pending piece : List UInt8} (rest : List (List UInt8))
    (h : pending.length + piece.length ≤ blockSize) :
    blocks pending (piece :: rest) = blocks (pending ++ piece) rest := if_pos h

theorem blocks_cons_of_lt {pending piece : List UInt8} (rest : List (List UInt8))
    (h : blockSize < pending.length + piece.length) :
    blocks pending (piece :: rest) = pending :: blocks piece rest := if_neg (Nat.not_le.mpr h)

theorem remainder_cons_of_le {pending piece : List UInt8} (rest : List (List UInt8))
    (h : pending.length + piece.length ≤ blockSize) :
    remainder pending (piece :: rest) = remainder (pending ++ piece) rest := if_pos h

theorem remainder_cons_of_lt {pending piece : List UInt8} (rest : List (List UInt8))
    (h : blockSize < pending.length + piece.length) :
    remainder pending (piece :: rest) = remainder piece rest := if_neg (Nat.not_le.mpr h)

/-- The blocks and what then waits are the bytes that were taken. -/
theorem flatten_blocks_append_remainder (pending : List UInt8) (pieces : List (List UInt8)) :
    (blocks pending pieces).flatten ++ remainder pending pieces = pending ++ pieces.flatten := by
  induction pieces generalizing pending with
  | nil => simp [blocks, remainder]
  | cons piece rest ih =>
    by_cases h : pending.length + piece.length ≤ blockSize
    · rw [blocks_cons_of_le rest h, remainder_cons_of_le rest h, ih, List.flatten_cons,
        List.append_assoc]
    · have hlt : blockSize < pending.length + piece.length := Nat.lt_of_not_le h
      rw [blocks_cons_of_lt rest hlt, remainder_cons_of_lt rest hlt, List.flatten_cons,
        List.append_assoc, ih, List.flatten_cons]

/-- Something is left for the flush: the last piece always waits. -/
theorem remainder_ne_nil {pending : List UInt8} {pieces : List (List UInt8)}
    (hpieces : ∀ piece ∈ pieces, piece ≠ []) (h : pending ++ pieces.flatten ≠ []) :
    remainder pending pieces ≠ [] := by
  induction pieces generalizing pending with
  | nil => simpa [remainder] using h
  | cons piece rest ih =>
    have hpiece : piece ≠ [] := hpieces piece List.mem_cons_self
    have hrest : ∀ other ∈ rest, other ≠ [] := fun other hother =>
      hpieces other (List.mem_cons_of_mem _ hother)
    by_cases hle : pending.length + piece.length ≤ blockSize
    · rw [remainder_cons_of_le rest hle]
      exact ih hrest (by simp [hpiece])
    · rw [remainder_cons_of_lt rest (Nat.lt_of_not_le hle)]
      exact ih hrest (by simp [hpiece])

/-- No more is left for the flush than a block has room for. -/
theorem length_remainder_le {pending : List UInt8} {pieces : List (List UInt8)}
    (hpieces : ∀ piece ∈ pieces, piece.length ≤ blockSize) (h : pending.length ≤ blockSize) :
    (remainder pending pieces).length ≤ blockSize := by
  induction pieces generalizing pending with
  | nil => exact h
  | cons piece rest ih =>
    have hrest : ∀ other ∈ rest, other.length ≤ blockSize := fun other hother =>
      hpieces other (List.mem_cons_of_mem _ hother)
    by_cases hle : pending.length + piece.length ≤ blockSize
    · rw [remainder_cons_of_le rest hle]
      exact ih hrest (by rwa [List.length_append])
    · rw [remainder_cons_of_lt rest (Nat.lt_of_not_le hle)]
      exact ih hrest (hpieces piece List.mem_cons_self)

/-- A block is short of its size by less than the longest piece. -/
theorem length_of_mem_blocks {longest : Nat} {pending : List UInt8} {pieces : List (List UInt8)}
    (hlongest : longest ≤ blockSize) (hpieces : ∀ piece ∈ pieces, piece.length ≤ longest)
    (h : pending.length ≤ blockSize) {block : List UInt8} (hblock : block ∈ blocks pending pieces) :
    block.length ≤ blockSize ∧ blockSize < block.length + longest := by
  induction pieces generalizing pending with
  | nil => exact absurd hblock List.not_mem_nil
  | cons piece rest ih =>
    have hpiece : piece.length ≤ longest := hpieces piece List.mem_cons_self
    have hrest : ∀ other ∈ rest, other.length ≤ longest := fun other hother =>
      hpieces other (List.mem_cons_of_mem _ hother)
    by_cases hle : pending.length + piece.length ≤ blockSize
    · rw [blocks_cons_of_le rest hle] at hblock
      exact ih hrest (by rwa [List.length_append]) hblock
    · have hlt : blockSize < pending.length + piece.length := Nat.lt_of_not_le hle
      rw [blocks_cons_of_lt rest hlt] at hblock
      rcases List.mem_cons.mp hblock with rfl | hblock
      · exact ⟨h, by omega⟩
      · exact ih hrest (Nat.le_trans hpiece hlongest) hblock

/-- Blocks of single bytes are full. -/
theorem length_eq_of_mem_blocks {pieces : List (List UInt8)}
    (hpieces : ∀ piece ∈ pieces, piece.length = 1) {block : List UInt8}
    (hblock : block ∈ blocks [] pieces) : block.length = blockSize := by
  have hlongest : ∀ piece ∈ pieces, piece.length ≤ 1 := fun piece hpiece =>
    Nat.le_of_eq (hpieces piece hpiece)
  have hbounds := length_of_mem_blocks (by decide) hlongest (Nat.zero_le _) hblock
  omega

/-- Blocks of one length hold that length for each of them. -/
theorem length_flatten_take {size : Nat} {blocks : List (List UInt8)}
    (h : ∀ block ∈ blocks, block.length = size) {count : Nat} (hcount : count ≤ blocks.length) :
    (blocks.take count).flatten.length = size * count := by
  induction blocks generalizing count with
  | nil =>
    obtain rfl : count = 0 := Nat.le_zero.mp hcount
    rfl
  | cons block rest ih =>
    cases count with
    | zero => rfl
    | succ count =>
      have hrest := ih (fun other hother => h other (List.mem_cons_of_mem _ hother))
        (Nat.le_of_succ_le_succ hcount)
      rw [List.take_succ_cons, List.flatten_cons, List.length_append, hrest,
        h block List.mem_cons_self, Nat.mul_succ, Nat.add_comm]

section Full

variable {pending : List UInt8} {pieces : List (List UInt8)}

/-- Full blocks cut a beginning off the bytes that were taken. -/
theorem flatten_take_blocks (hfull : ∀ block ∈ blocks pending pieces, block.length = blockSize)
    {count : Nat} (hcount : count ≤ (blocks pending pieces).length) :
    ((blocks pending pieces).take count).flatten =
      (pending ++ pieces.flatten).take (blockSize * count) := by
  have hlength := length_flatten_take hfull hcount
  have hbytes : pending ++ pieces.flatten = ((blocks pending pieces).take count).flatten ++
      (((blocks pending pieces).drop count).flatten ++ remainder pending pieces) := by
    rw [← flatten_blocks_append_remainder, ← List.append_assoc, ← List.flatten_append,
      List.take_append_drop]
  rw [hbytes, List.take_left' hlength]

/-- Full blocks are as many as go into the bytes in front of the last one. -/
theorem length_blocks (hfull : ∀ block ∈ blocks pending pieces, block.length = blockSize)
    (hrest : remainder pending pieces ≠ [])
    (hshort : (remainder pending pieces).length ≤ blockSize) :
    (blocks pending pieces).length = ((pending ++ pieces.flatten).length - 1) / blockSize := by
  have hblocks := length_flatten_take hfull (Nat.le_refl _)
  have hpos : 0 < (remainder pending pieces).length := List.length_pos_iff.mpr hrest
  rw [List.take_length] at hblocks
  rw [← flatten_blocks_append_remainder, List.length_append, hblocks]
  unfold blockSize at *
  omega

end Full

section Runs

variable {sink : Sink} {pending piece : List UInt8}

/-- A piece that fits in the block waits behind it. -/
theorem push_of_le (sink : Sink) (h : pending.length + piece.length ≤ blockSize) :
    push ⟨sink, pending.toArray⟩ piece = .ok ⟨sink, (pending ++ piece).toArray⟩ := by
  rw [push, if_pos (by simpa using h)]
  simp

/-- A piece that does not fit waits alone, after the block has been handed over. -/
theorem push_of_lt (h : blockSize < pending.length + piece.length)
    (hfits : sink.fits (sink.received.size + pending.length) = true) :
    push ⟨sink, pending.toArray⟩ piece = .ok ⟨sink.append pending, piece.toArray⟩ := by
  rw [push, if_neg (by simpa using h), Sink.write?_toArray_of_fits hfits]

/-- The block may be refused. -/
theorem push_refused (h : blockSize < pending.length + piece.length)
    (hfits : sink.fits (sink.received.size + pending.length) = false) :
    push ⟨sink, pending.toArray⟩ piece = .error ⟨.csv Sink.refusal, sink⟩ := by
  rw [push, if_neg (by simpa using h), Sink.write?_toArray_refused hfits]

theorem pushAll_cons (writer : BlockWriter) (piece : List UInt8) (rest : List (List UInt8)) :
    writer.pushAll (piece :: rest) = writer.push piece >>= fun next => next.pushAll rest := by
  rw [pushAll, List.foldlM_cons]
  rfl

/-- Pieces are taken if their blocks have room in the sink; what waits behind them is not asked
for. -/
theorem pushAll_of_blocks_fit {pieces : List (List UInt8)}
    (h : sink.fits (sink.received.size + (blocks pending pieces).flatten.length) = true) :
    pushAll ⟨sink, pending.toArray⟩ pieces =
      .ok ⟨sink.append (blocks pending pieces).flatten, (remainder pending pieces).toArray⟩ := by
  induction pieces generalizing sink pending with
  | nil => simp [pushAll, blocks, remainder]; rfl
  | cons piece rest ih =>
    rw [pushAll_cons]
    by_cases hle : pending.length + piece.length ≤ blockSize
    · rw [blocks_cons_of_le rest hle] at h ⊢
      rw [remainder_cons_of_le rest hle, push_of_le sink hle]
      exact ih h
    · have hlt : blockSize < pending.length + piece.length := Nat.lt_of_not_le hle
      rw [blocks_cons_of_lt rest hlt, List.flatten_cons, List.length_append] at h
      have hblock : sink.fits (sink.received.size + pending.length) = true :=
        Sink.fits_mono (by omega) h
      have hrest : (sink.append pending).fits
          ((sink.append pending).received.size + (blocks piece rest).flatten.length) = true := by
        rw [Sink.fits_append, Sink.size_received_append, Nat.add_assoc]
        exact h
      rw [push_of_lt hlt hblock, blocks_cons_of_lt rest hlt, remainder_cons_of_lt rest hlt,
        List.flatten_cons, ← Sink.append_append]
      exact ih hrest

/-- If the blocks have not all room, the sink is left with those in front of the first that does
not fit, and the pieces are refused. -/
theorem pushAll_refused {pieces : List (List UInt8)}
    (hsink : sink.fits sink.received.size = true)
    (h : sink.fits (sink.received.size + (blocks pending pieces).flatten.length) = false) :
    ∃ count, count < (blocks pending pieces).length ∧
      pushAll ⟨sink, pending.toArray⟩ pieces =
        .error ⟨.csv Sink.refusal, sink.append ((blocks pending pieces).take count).flatten⟩ ∧
      sink.fits (sink.received.size + ((blocks pending pieces).take count).flatten.length) =
        true ∧
      sink.fits
        (sink.received.size + ((blocks pending pieces).take (count + 1)).flatten.length) =
          false := by
  induction pieces generalizing sink pending with
  | nil =>
    rw [blocks, List.flatten_nil, List.length_nil, Nat.add_zero, hsink] at h
    cases h
  | cons piece rest ih =>
    rw [pushAll_cons]
    by_cases hle : pending.length + piece.length ≤ blockSize
    · rw [blocks_cons_of_le rest hle] at h ⊢
      rw [push_of_le sink hle]
      exact ih hsink h
    · have hlt : blockSize < pending.length + piece.length := Nat.lt_of_not_le hle
      rw [blocks_cons_of_lt rest hlt] at h ⊢
      cases hblock : sink.fits (sink.received.size + pending.length) with
      | false =>
        -- The block that waits is itself the first that does not fit.
        refine ⟨0, Nat.zero_lt_succ _, ?_, ?_, ?_⟩
        · rw [push_refused hlt hblock]
          rfl
        · simpa using hsink
        · simpa using hblock
      | true =>
        have hnext : (sink.append pending).fits (sink.append pending).received.size = true := by
          rw [Sink.fits_append, Sink.size_received_append]
          exact hblock
        rw [List.flatten_cons, List.length_append, ← Nat.add_assoc,
          ← Sink.size_received_append, ← Sink.fits_append sink pending] at h
        obtain ⟨count, hcount, hpush, hfits, hover⟩ := ih hnext h
        rw [Sink.fits_append, Sink.size_received_append, Nat.add_assoc] at hfits hover
        refine ⟨count + 1, Nat.succ_lt_succ hcount, ?_, ?_, ?_⟩
        · rw [push_of_lt hlt hblock, List.take_succ_cons, List.flatten_cons,
            ← Sink.append_append]
          exact hpush
        · rw [List.take_succ_cons, List.flatten_cons, List.length_append]
          exact hfits
        · rw [List.take_succ_cons, List.flatten_cons, List.length_append]
          exact hover

end Runs

end Propositional.BlockWriter
