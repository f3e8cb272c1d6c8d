import Propositional.Connective
import Propositional.TruthValue

/-!
# Tokens and lexemes

A token is a word of a source text: a variable, a truth constant, a negation, a
connective, a bracket, or the end of the text.  A lexeme is a token together
with the place where it starts.
-/

namespace Propositional

/-- A word of a source text. -/
inductive Token where
  | var (name : String)
  | const (value : Bool)
  | neg
  | connective (op : Connective)
  | openBracket
  | closeBracket
  /-- The end of the text. -/
  | ending
deriving DecidableEq, Repr

/-- The token as an error message names it. -/
def Token.describe : Token → String
  | var name => "variable `" ++ name ++ "`"
  | const value => "`" ++ (TruthValue.mk value).symbol ++ "`"
  | neg => "`" ++ negationSymbol ++ "`"
  | connective op => "`" ++ op.symbol ++ "`"
  | openBracket => "`(`"
  | closeBracket => "`)`"
  | ending => "end of input"

/-- A token and the number of characters in front of it. -/
structure Lexeme where
  token : Token
  position : Nat
deriving DecidableEq, Repr

end Propositional
