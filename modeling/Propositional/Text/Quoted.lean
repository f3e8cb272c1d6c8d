import Propositional.Text.Combining
import Propositional.Text.Ignorable
import Propositional.Text.Unprintable

/-!
# Quotation of characters and texts

Error messages show a character between single quotes and a text between double
quotes, so that every character of it can be told: the quote in use and the
backslash take a backslash, four controls have letters, combining, ignorable and
unprintable characters are written by number, and all others stand for
themselves.
-/

namespace Propositional.Text

/-- The number in lowercase hexadecimal, without leading zeros. -/
def hex (n : Nat) : List Char := Nat.toDigits 16 n

/-- A character by its number: `\u{301}`. -/
def byNumber (c : Char) : List Char :=
  "\\u\x7b".toList ++ hex c.toNat ++ "\x7d".toList

/-- How one character is shown between quotes of the given kind. -/
def quoteChar (mark : Char) (c : Char) : List Char :=
  if c = '\x00' then ['\\', '0']
  else if c = '\t' then ['\\', 't']
  else if c = '\n' then ['\\', 'n']
  else if c = '\r' then ['\\', 'r']
  else if c = '\\' || c = mark then ['\\', c]
  else if isCombining c || isIgnorable c || isUnprintable c then byNumber c
  else [c]

/-- A character between single quotes. -/
def quotedChar (c : Char) : String :=
  String.ofList (['\''] ++ quoteChar '\'' c ++ ['\''])

/-- A text between double quotes. -/
def quotedText (text : String) : String :=
  String.ofList (['"'] ++ text.toList.flatMap (quoteChar '"') ++ ['"'])

end Propositional.Text
