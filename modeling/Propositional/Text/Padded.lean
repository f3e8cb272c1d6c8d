/-!
# Padded fields

A text set in a field of a given width.  A precision cuts the text first; the
room that is left is filled on the side away from the alignment, and of an odd
room a centred text has the larger half on its right.

* `Field.length_chars` — a field is as wide as asked, or as its cut text if
  that is wider.
-/

namespace Propositional.Text

/-- Where a text stands in its field. -/
inductive Alignment where
  | left
  | right
  | center
deriving DecidableEq, Repr

/-- How many of `room` fill characters stand in front of the text. -/
def Alignment.before (room : Nat) : Alignment → Nat
  | .left => 0
  | .right => room
  | .center => room / 2

/-- A field: its width in characters, the side of its text and what fills the rest. -/
structure Field where
  width : Nat
  alignment : Alignment
  fill : Char
  precision : Option Nat
deriving Repr

/-- The text cut to the precision, if there is one. -/
def Field.cut (field : Field) (text : List Char) : List Char :=
  match field.precision with
  | none => text
  | some most => text.take most

/-- The characters of the field that holds `text`. -/
def Field.chars (field : Field) (text : List Char) : List Char :=
  let shown := field.cut text
  let room := field.width - shown.length
  let before := field.alignment.before room
  List.replicate before field.fill ++ shown ++ List.replicate (room - before) field.fill

/-- The field that holds `text`. -/
def Field.pad (field : Field) (text : String) : String :=
  String.ofList (field.chars text.toList)

theorem Alignment.before_le (room : Nat) (alignment : Alignment) :
    alignment.before room ≤ room := by
  cases alignment with
  | left => exact Nat.zero_le room
  | right => exact Nat.le_refl room
  | center => exact Nat.div_le_self room 2

/-- A field is as wide as asked, or as its cut text if that is wider. -/
theorem Field.length_chars (field : Field) (text : List Char) :
    (field.chars text).length = max field.width (field.cut text).length := by
  have h := Alignment.before_le (field.width - (field.cut text).length) field.alignment
  simp only [Field.chars, List.length_append, List.length_replicate]
  omega

end Propositional.Text
