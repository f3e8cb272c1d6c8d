import Propositional.Formula.Basic
import Propositional.Lexeme.Tokenize

/-!
# From lexemes to formulas

Lexemes are read from the left with a stack of what is still open: brackets and
negations whose operand is not complete, and connectives whose right operand is
not complete.  At any time either an operand is wanted, or one is held and may
be followed by a connective, a closing bracket or the end.

A connective that follows an operand first completes every pending connective
that binds at least as tightly, so that tighter connectives take their operands
first and connectives of one level group to the left.

How many brackets and negations may be open at once is a parameter of a step;
a source text is read with `nestingLimit`.
-/

namespace Propositional

/-- How many brackets and negations may be open at once when a source text is read. -/
def nestingLimit : Nat := 256

/-- The complaint about a lexeme in a place where something else is wanted. -/
def Lexeme.unexpected (wanted : String) (lexeme : Lexeme) : Error :=
  .malformed (.expected wanted lexeme.token.describe) lexeme.position

/-- What is found where lexemes are cut short. -/
def Lexeme.missing : Lexeme := ⟨.ending, 0⟩

/-- Something that waits for its operand, or for the right one of its two. -/
inductive Frame where
  | group
  | negation
  | operand (left : Formula) (op : Connective)
deriving DecidableEq, Repr

namespace Frame

/-- Does the frame count as a level of nesting? -/
def nests : Frame → Bool
  | group | negation => true
  | operand _ _ => false

/-- Is the frame a bracket? -/
def isGroup : Frame → Bool
  | group => true
  | negation | operand _ _ => false

end Frame

/-- How far a formula has been read.  The innermost frame comes first. -/
inductive Reading where
  /-- An operand is wanted next. -/
  | wanting (stack : List Frame)
  /-- An operand has been read. -/
  | holding (stack : List Frame) (value : Formula)
  /-- The end has been read. -/
  | finished (value : Formula)
deriving DecidableEq, Repr

namespace Reading

/-- The number of brackets and negations that are open. -/
def nesting (stack : List Frame) : Nat := stack.countP Frame.nests

/-- Completes the negations that wait for `value`. -/
def complete : List Frame → Formula → Reading
  | .negation :: rest, value => complete rest (.neg value)
  | stack, value => .holding stack value

/-- Completes the connectives of at least the given precedence that wait for `value`. -/
def collapse (level : Nat) : List Frame → Formula → List Frame × Formula
  | .operand left op :: rest, value =>
    if level ≤ op.precedence then collapse level rest (.bin op left value)
    else (.operand left op :: rest, value)
  | stack, value => (stack, value)

/-- What the reading asks for next, as an error message names it. -/
def wanted : Reading → String
  | wanting _ => "expression"
  | holding stack _ =>
    if stack.any Frame.isGroup then Token.closeBracket.describe else Token.ending.describe
  | finished _ => Token.ending.describe

/-- The complaint about a lexeme that cannot stand here. -/
def refuse (reading : Reading) (lexeme : Lexeme) : Error := lexeme.unexpected reading.wanted

/-- Opens a bracket or a negation, unless `limit` of them are open. -/
def nest (limit : Nat) (frame : Frame) (stack : List Frame) (position : Nat) :
    Except Error Reading :=
  if nesting stack < limit then .ok (wanting (frame :: stack))
  else .error (.malformed .nestingTooDeep position)

/-- Closes the innermost bracket around `value`, if that is what the stack waits for. -/
def close? (stack : List Frame) (value : Formula) : Option Reading :=
  match collapse 0 stack value with
  | (.group :: rest, value) => some (complete rest value)
  | _ => none

/-- The formula, if nothing is open any more. -/
def finish? (stack : List Frame) (value : Formula) : Option Reading :=
  match collapse 0 stack value with
  | ([], value) => some (finished value)
  | _ => none

/-- Reads one lexeme, with at most `limit` brackets and negations open at once. -/
def step (limit : Nat) (reading : Reading) (lexeme : Lexeme) : Except Error Reading :=
  match reading, lexeme.token with
  | wanting stack, .var name => .ok (complete stack (.var name))
  | wanting stack, .const value => .ok (complete stack (.const value))
  | wanting stack, .neg => nest limit .negation stack lexeme.position
  | wanting stack, .openBracket => nest limit .group stack lexeme.position
  | holding stack value, .connective op =>
    let (rest, left) := collapse op.precedence stack value
    .ok (wanting (.operand left op :: rest))
  | holding stack value, .closeBracket =>
    match close? stack value with
    | some reading => .ok reading
    | none => .error (reading.refuse lexeme)
  | holding stack value, .ending =>
    match finish? stack value with
    | some reading => .ok reading
    | none => .error (reading.refuse lexeme)
  | finished value, _ => .ok (finished value)
  | _, _ => .error (reading.refuse lexeme)

/-- The formula of a finished reading; one that is cut short misses the end. -/
def result : Reading → Except Error Formula
  | finished value => .ok value
  | reading => .error (reading.refuse .missing)

end Reading

namespace Formula

/-- The formula that the lexemes spell. -/
def ofLexemes : List Lexeme → Except Error Formula
  | [] => .error .emptyExpression
  | ⟨.ending, _⟩ :: _ => .error .emptyExpression
  | lexemes => do
    let reading ← lexemes.foldlM (Reading.step nestingLimit) (.wanting [])
    reading.result

/-- The formula that the source text spells. -/
def parse (source : String) : Except Error Formula := do
  let lexemes ← tokenize source
  ofLexemes lexemes

end Formula

end Propositional
