import Propositional.Formula.Grammar
import Propositional.Formula.Render

/-!
# The lexemes of the canonical text

They are listed by recursion on the formula, each with the position it has when
the text starts at a given one.

* `phrase_lexemes` — their tokens are a phrase for the formula.
-/

namespace Propositional.Formula

/-- The lexemes of an operand, from those of the formula, whose text has the given length. -/
def bracketLexemes (bare : Bool) (length : Nat) (inner : Nat → List Lexeme) (start : Nat) :
    List Lexeme :=
  if bare then inner start
  else ⟨.openBracket, start⟩ :: (inner (start + 1) ++ [⟨.closeBracket, start + 1 + length⟩])

/-- The lexemes of the canonical text when it starts at the position. -/
def lexemes : Formula → Nat → List Lexeme
  | const value, start => [⟨.const value, start⟩]
  | var name, start => [⟨.var name, start⟩]
  | neg operand, start =>
    ⟨.neg, start⟩ ::
      bracketLexemes operand.isBareOperand operand.render.length operand.lexemes (start + 1)
  | bin op left right, start =>
    let middle := start + left.renderOperand.length + 1
    bracketLexemes left.isBareOperand left.render.length left.lexemes start ++
      ⟨.connective op, middle⟩ ::
        bracketLexemes right.isBareOperand right.render.length right.lexemes
          (middle + op.symbol.length + 1)

/-- The lexemes of the formula where it stands as an operand from the position on. -/
def operandLexemes (f : Formula) (start : Nat) : List Lexeme :=
  bracketLexemes f.isBareOperand f.render.length f.lexemes start

theorem lexemes_neg (f : Formula) (start : Nat) :
    (neg f).lexemes start = ⟨.neg, start⟩ :: f.operandLexemes (start + 1) := rfl

theorem lexemes_bin (op : Connective) (left right : Formula) (start : Nat) :
    (bin op left right).lexemes start =
      left.operandLexemes start ++
        ⟨.connective op, start + left.renderOperand.length + 1⟩ ::
          right.operandLexemes
            (start + left.renderOperand.length + 1 + op.symbol.length + 1) := rfl

/-- A formula that needs no brackets as an operand has the same lexemes as one. -/
theorem operandLexemes_of_bare {f : Formula} (h : f.isBareOperand = true) (start : Nat) :
    f.operandLexemes start = f.lexemes start := by
  rw [operandLexemes, bracketLexemes, if_pos h]

theorem operandLexemes_bin (op : Connective) (left right : Formula) (start : Nat) :
    (bin op left right).operandLexemes start =
      ⟨.openBracket, start⟩ :: ((bin op left right).lexemes (start + 1) ++
        [⟨.closeBracket, start + 1 + (bin op left right).render.length⟩]) := rfl

/-- The tokens of operands on both sides of a connective are a phrase of its level. -/
theorem phrase_lexemes_bin {op : Connective} {left right : Formula} (start : Nat)
    (hleft : ∀ start, Phrase Connective.levels ((left.operandLexemes start).map Lexeme.token) left)
    (hright : ∀ start,
      Phrase Connective.levels ((right.operandLexemes start).map Lexeme.token) right) :
    Phrase 0 (((bin op left right).lexemes start).map Lexeme.token) (bin op left right) := by
  have hlevel := op.precedence_lt_levels
  rw [lexemes_bin, List.map_append, List.map_cons]
  have hfirst := (hleft start).weaken (Nat.le_of_lt hlevel) (Nat.le_refl _)
  have hlast := (hright (start + left.renderOperand.length + 1 + op.symbol.length + 1)).weaken
    (Nat.succ_le_of_lt hlevel) (Nat.le_refl _)
  exact (Phrase.chain op hfirst hlast).weaken (Nat.zero_le _) (Nat.le_of_lt hlevel)

/-- The tokens of an operand are a phrase of the tightest level. -/
theorem phrase_operandLexemes (f : Formula) (start : Nat) :
    Phrase Connective.levels ((f.operandLexemes start).map Lexeme.token) f := by
  induction f generalizing start with
  | const value => exact .const value
  | var name => exact .var name
  | neg operand ih => exact .neg (ih (start + 1))
  | bin op left right ihl ihr =>
    rw [operandLexemes_bin, List.map_cons, List.map_append]
    exact .group (phrase_lexemes_bin (start + 1) ihl ihr)

/-- The tokens of the canonical text are a phrase for the formula. -/
theorem phrase_lexemes (f : Formula) (start : Nat) :
    Phrase 0 ((f.lexemes start).map Lexeme.token) f := by
  rcases f.isBareOperand_or_bin with hbare | ⟨op, left, right, rfl⟩
  · rw [← operandLexemes_of_bare hbare]
    exact (phrase_operandLexemes f start).weaken (Nat.zero_le _) (Nat.le_refl _)
  · exact phrase_lexemes_bin start (phrase_operandLexemes left) (phrase_operandLexemes right)

end Propositional.Formula
