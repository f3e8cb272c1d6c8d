import Propositional.Text.Quoted

/-!
# Escaped labels

A label of a drawn graph stands between double quotes and keeps to printable
ASCII: both quotes and the backslash take a backslash, tab, line feed and
carriage return have letters, and everything else outside U+0020 to U+007E is
written by number.
-/

namespace Propositional.Text

/-- How one character is written inside a label. -/
def escapeChar (c : Char) : List Char :=
  if c = '\t' then ['\\', 't']
  else if c = '\n' then ['\\', 'n']
  else if c = '\r' then ['\\', 'r']
  else if c = '\'' || c = '"' || c = '\\' then ['\\', c]
  else if 0x20 ≤ c.toNat && c.toNat ≤ 0x7e then [c]
  else byNumber c

/-- The text as it stands inside the quotes of a label. -/
def escaped (text : String) : String :=
  String.ofList (text.toList.flatMap escapeChar)

end Propositional.Text
