import Propositional.Formula.Parse
import Propositional.Formula.Variables
import Propositional.Text.Utf8

/-!
# Formulas from sources

A source of formula text is a sequence of bytes, at whose end reading may break
off with a fault.  A fault counts before anything is made of the bytes.
-/

namespace Propositional

/-- Bytes to be read, and the reason why reading fails behind them, if it does. -/
structure Source where
  bytes : ByteArray
  fault : Option String

/-- The whole text of the source. -/
def Source.readText (source : Source) : Except Error String :=
  match source.fault with
  | some reason => .error (.io reason)
  | none =>
    match Text.Utf8.decode? source.bytes with
    | some text => .ok text
    | none => .error (.io "stream did not contain valid UTF-8")

/-- A formula read from text, together with the names of its free variables. -/
structure ParsedFormula where
  names : List String
  formula : Formula
deriving DecidableEq, Repr

namespace ParsedFormula

/-- The formula that the text spells. -/
def ofText (text : String) : Except Error ParsedFormula := do
  let formula ← Formula.parse text
  return { names := formula.freeVariables, formula }

/-- The formula that the text of the source spells. -/
def ofSource (source : Source) : Except Error ParsedFormula := do
  let text ← source.readText
  ofText text

end ParsedFormula

end Propositional
