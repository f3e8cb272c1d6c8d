import Propositional.Formula.Parse

/-!
# Recursive descent

A second way of reading lexemes, by the levels of precedence.  At each level a loop
reads operands of the next tighter level and joins them from the left, for as long as
a connective of its own level follows.  Behind the tightest level stand negations, and
behind these atoms and bracketed formulas, which start over at the loosest level.

The number of brackets and negations around a lexeme is handed down from call to call,
and goes up before what a bracket or a negation opens is read.

Every function answers with the lexemes that it has left unread.  These are fewer than
those it was given, which is what lets the recursion end.
-/

namespace Propositional

namespace Descent

/-- A formula, and the lexemes left behind it. -/
structure Answer (bound : Nat) where
  formula : Formula
  rest : List Lexeme
  shorter : rest.length < bound

/-- The same answer where more lexemes were given. -/
def Answer.widen {bound wider : Nat} (answer : Answer bound) (h : bound ≤ wider) : Answer wider :=
  ⟨answer.formula, answer.rest, Nat.lt_of_lt_of_le answer.shorter h⟩

/-- Passes over the token that has to come next. -/
def expect (wanted : Token) : (lexemes : List Lexeme) →
    Except Error {rest : List Lexeme // rest.length < lexemes.length}
  | [] => .error (Lexeme.missing.unexpected wanted.describe)
  | lexeme :: rest =>
    if lexeme.token = wanted then .ok ⟨rest, Nat.lt_succ_self _⟩
    else .error (lexeme.unexpected wanted.describe)

/-- The connective that the lexeme is, if it is one of the level. -/
def operator? (level : Nat) (lexeme : Lexeme) : Option Connective :=
  match lexeme.token with
  | .connective op => if op.precedence = level then some op else none
  | _ => none

/-- The depth inside a bracket or a negation that stands at the given depth. -/
def nest (depth position : Nat) : Except Error Nat :=
  if depth < nestingLimit then .ok (depth + 1)
  else .error (.malformed .nestingTooDeep position)

mutual

/-- Reads a formula whose outermost connectives, if any, are of the level or tighter. -/
def binary (level depth : Nat) (lexemes : List Lexeme) :
    Except Error (Answer lexemes.length) :=
  if level < Connective.levels then do
    let left ← binary (level + 1) depth lexemes
    have hleft : left.rest.length < lexemes.length := left.shorter
    let whole ← chain level depth left.formula left.rest
    return whole.widen hleft
  else negation depth lexemes
termination_by (lexemes.length, Connective.levels - level + 2)

/-- Goes on joining operands to `left` while connectives of the level follow. -/
def chain (level depth : Nat) (left : Formula) (lexemes : List Lexeme) :
    Except Error (Answer (lexemes.length + 1)) :=
  match lexemes with
  | [] => .ok ⟨left, [], Nat.lt_succ_self _⟩
  | lexeme :: rest =>
    match operator? level lexeme with
    | none => .ok ⟨left, lexeme :: rest, Nat.lt_succ_self _⟩
    | some op => do
      let right ← binary (level + 1) depth rest
      have hright : right.rest.length + 1 ≤ rest.length := right.shorter
      let whole ← chain level depth (.bin op left right.formula) right.rest
      return whole.widen (by simp only [List.length_cons]; omega)
termination_by (lexemes.length, 0)

/-- Reads the negations in front of an atom, and the atom. -/
def negation (depth : Nat) (lexemes : List Lexeme) : Except Error (Answer lexemes.length) :=
  match lexemes with
  | ⟨.neg, position⟩ :: rest => do
    let depth ← nest depth position
    let operand ← negation depth rest
    return ⟨.neg operand.formula, operand.rest, Nat.lt_succ_of_lt operand.shorter⟩
  | lexemes => atom depth lexemes
termination_by (lexemes.length, 1)

/-- Reads a variable, a constant or a formula in brackets. -/
def atom (depth : Nat) (lexemes : List Lexeme) : Except Error (Answer lexemes.length) :=
  match lexemes with
  | ⟨.var name, _⟩ :: rest => .ok ⟨.var name, rest, Nat.lt_succ_self _⟩
  | ⟨.const value, _⟩ :: rest => .ok ⟨.const value, rest, Nat.lt_succ_self _⟩
  | ⟨.openBracket, position⟩ :: rest => do
    let depth ← nest depth position
    let inner ← binary 0 depth rest
    let behind ← expect .closeBracket inner.rest
    have hbehind : behind.1.length < inner.rest.length := behind.2
    have hinner : inner.rest.length < rest.length := inner.shorter
    return ⟨inner.formula, behind.1, by simp only [List.length_cons]; omega⟩
  | lexeme :: _ => .error (lexeme.unexpected "expression")
  | [] => .error (Lexeme.missing.unexpected "expression")
termination_by (lexemes.length, 0)

end

/-- The formula that the lexemes spell, read level by level. -/
def ofLexemes : List Lexeme → Except Error Formula
  | [] => .error .emptyExpression
  | ⟨.ending, _⟩ :: _ => .error .emptyExpression
  | lexemes => do
    let whole ← binary 0 0 lexemes
    let _ ← expect .ending whole.rest
    return whole.formula

end Descent

end Propositional
