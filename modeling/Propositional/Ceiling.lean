import Propositional.Error
import Propositional.Text.Blank
import Propositional.Text.Utf8

/-!
# The ceiling on variables

A table has a row for every assignment of its variables, so their number is
limited: by a ceiling that the user may set, and in any case by what the index
of a row can count.

A setting is a decimal number below `2^64`, with an optional `+` in front and
blanks around it.

* `check_eq_ok_iff` — a count passes exactly if it is within the limit.
-/

namespace Propositional

/-- The largest number of free variables a table may be built for. -/
structure Ceiling where
  maxVariables : Nat
deriving DecidableEq, Repr

namespace Ceiling

/-- The ceiling when nothing is set: `2^20` rows. -/
def standard : Ceiling := ⟨20⟩

/-- Rows are counted with 64 bits, so no more than 63 variables can be tabulated. -/
def hardLimit : Nat := 63

/-- The largest ceiling that can be set.  It leaves only the limit of the rows themselves. -/
def largest : Ceiling := ⟨UInt64.size - 1⟩

/-- The name of the setting. -/
def settingName : String := "RSTRUTH_MAX_VARIABLES"

/-- The ceiling that is enforced. -/
def limit (ceiling : Ceiling) : Nat := min ceiling.maxVariables hardLimit

/-- Refuses a number of variables above the limit. -/
def check (ceiling : Ceiling) (count : Nat) : Except Error Unit :=
  if ceiling.limit < count then .error (.tooManyVariables count ceiling.limit) else .ok ()

/-- The value of a decimal digit. -/
def digitValue (c : Char) : Nat := c.toNat - '0'.toNat

/-- The number that decimal digits write. -/
def ofDigits (digits : List Char) : Nat :=
  digits.foldl (fun n c => n * 10 + digitValue c) 0

/-- The number that a text of one or more digits writes, if a word of 64 bits can hold it. -/
def readDigits? (text : List Char) : Option Nat :=
  if text.isEmpty || !text.all Char.isDigit then none
  else if ofDigits text < UInt64.size then some (ofDigits text)
  else none

/-- As `readDigits?`, after an optional `+`. -/
def readNumber? : List Char → Option Nat
  | '+' :: digits => readDigits? digits
  | digits => readDigits? digits

/-- The ceiling that the text of the setting asks for; blanks around the number do not count. -/
def ofText (text : String) : Except Error Ceiling :=
  match readNumber? (Text.trimBlanks text.toList) with
  | some number => .ok ⟨number⟩
  | none => .error (.invalidSetting settingName text)

/-- The ceiling for the setting as the environment holds it: bytes, or nothing at all.  Bytes
that are no text are refused with the closest text to them. -/
def ofSetting : Option ByteArray → Except Error Ceiling
  | none => .ok standard
  | some bytes =>
    match Text.Utf8.decode? bytes with
    | some text => ofText text
    | none => .error (.invalidSetting settingName (Text.Utf8.decodeLenient bytes))

/-- A setting that is a text is read as that text. -/
theorem ofSetting_toUTF8 (text : String) : ofSetting (some text.toUTF8) = ofText text := by
  rw [ofSetting, Text.Utf8.decode?_toUTF8]

/-- The limit is never above what the index of a row can count. -/
theorem limit_le (ceiling : Ceiling) : ceiling.limit ≤ hardLimit := Nat.min_le_right _ _

theorem limit_largest : largest.limit = hardLimit := by decide

/-- A count passes exactly if it is within the limit. -/
theorem check_eq_ok_iff (ceiling : Ceiling) (count : Nat) :
    ceiling.check count = .ok () ↔ count ≤ ceiling.limit := by
  unfold check
  split
  · rename_i h
    constructor
    · intro h'
      cases h'
    · intro h'
      omega
  · rename_i h
    exact ⟨fun _ => Nat.le_of_not_lt h, fun _ => rfl⟩

/-- A count above the limit is an error that tells both numbers. -/
theorem check_eq_error (ceiling : Ceiling) (count : Nat) (h : ceiling.limit < count) :
    ceiling.check count = .error (.tooManyVariables count ceiling.limit) :=
  if_pos h

end Ceiling

end Propositional
