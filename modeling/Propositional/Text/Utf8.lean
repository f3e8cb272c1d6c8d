/-!
# Reading UTF-8

A strict reader takes only bytes that are the encoding of a text.  A lenient one
reads any bytes from the left in pieces: a piece is a character in its shortest
encoding, or a *maximal invalid part*, the longest run of bytes that begins an
encoding and is cut off by what follows (at least one byte), and U+FFFD is put in
its place.

* `decode?_toUTF8` — every text is read back from its own bytes.
-/

namespace Propositional.Text.Utf8

/-- Is the byte a continuation byte, `80` to `BF`? -/
def isContinuation (b : UInt8) : Bool := 0x80 ≤ b && b ≤ 0xBF

/-- May the byte stand second, after this lead byte?  Overlong forms, surrogates and code
points above U+10FFFF are shut out here. -/
def isSecond (lead b : UInt8) : Bool :=
  if lead = 0xE0 then 0xA0 ≤ b && b ≤ 0xBF
  else if lead = 0xED then 0x80 ≤ b && b ≤ 0x9F
  else if lead = 0xF0 then 0x90 ≤ b && b ≤ 0xBF
  else if lead = 0xF4 then 0x80 ≤ b && b ≤ 0x8F
  else isContinuation b

/-- How many bytes follow the lead byte, and the bits it carries itself; nothing for a byte
that leads no encoding. -/
def lead? (lead : UInt8) : Option (Nat × Nat) :=
  if lead < 0x80 then some (0, lead.toNat)
  else if 0xC2 ≤ lead && lead ≤ 0xDF then some (1, lead.toNat % 32)
  else if 0xE0 ≤ lead && lead ≤ 0xEF then some (2, lead.toNat % 16)
  else if 0xF0 ≤ lead && lead ≤ 0xF4 then some (3, lead.toNat % 8)
  else none

/-- Reads `need` further bytes of one encoding, the next of which has to be `allowed`: the
character, or nothing if the encoding is cut off, and the number of bytes used. -/
def follow : (need : Nat) → (allowed : UInt8 → Bool) → (bits used : Nat) → List UInt8 →
    Option Char × Nat
  | 0, _, bits, used, _ => (some (Char.ofNat bits), used)
  | _ + 1, _, _, used, [] => (none, used)
  | need + 1, allowed, bits, used, b :: rest =>
    if allowed b then follow need isContinuation (bits * 64 + b.toNat % 64) (used + 1) rest
    else (none, used)

/-- The piece that starts with `lead`, and how many of the bytes after it belong to it. -/
def firstPiece (lead : UInt8) (rest : List UInt8) : Option Char × Nat :=
  match lead? lead with
  | none => (none, 0)
  | some (need, bits) => follow need (isSecond lead) bits 0 rest

/-- The pieces after the next `skip` bytes. -/
def piecesAfter : (skip : Nat) → List UInt8 → List (Option Char)
  | _, [] => []
  | skip + 1, _ :: rest => piecesAfter skip rest
  | 0, lead :: rest =>
    (firstPiece lead rest).1 :: piecesAfter (firstPiece lead rest).2 rest

/-- The pieces of the bytes: a character, or nothing for a maximal invalid part. -/
def pieces (bytes : List UInt8) : List (Option Char) := piecesAfter 0 bytes

/-- The text that the bytes encode, if all of them do. -/
def decode? (bytes : ByteArray) : Option String := String.fromUTF8? bytes

/-- The text with U+FFFD for every maximal invalid part. -/
def decodeLenient (bytes : ByteArray) : String :=
  String.ofList ((pieces bytes.data.toList).map fun piece => piece.getD '\uFFFD')

/-- Every text is read back from its own bytes. -/
theorem decode?_toUTF8 (text : String) : decode? text.toUTF8 = some text :=
  dif_pos text.isValidUTF8

end Propositional.Text.Utf8
