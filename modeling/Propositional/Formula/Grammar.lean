import Propositional.Formula.Basic
import Propositional.Lexeme.Token

/-!
# The grammar of formulas

A phrase of level `k` is a chain of operands joined by connectives of
precedence `k` and grouped to the left, each operand a phrase of the next level.
Above the last level of connectives stand atoms, negations and bracketed
formulas.

* `Phrase.weaken` — a phrase is a phrase of every looser level;
* `Phrase.ne_nil` — no phrase is empty;
* `Phrase.ending_not_mem` — the end of a text is not part of one.
-/

namespace Propositional

/-- The tokens are a phrase of the level, and spell the formula. -/
inductive Phrase : Nat → List Token → Formula → Prop where
  | var (name : String) : Phrase Connective.levels [.var name] (.var name)
  | const (value : Bool) : Phrase Connective.levels [.const value] (.const value)
  | neg {tokens : List Token} {f : Formula} (operand : Phrase Connective.levels tokens f) :
      Phrase Connective.levels (.neg :: tokens) (.neg f)
  | group {tokens : List Token} {f : Formula} (inner : Phrase 0 tokens f) :
      Phrase Connective.levels (.openBracket :: (tokens ++ [.closeBracket])) f
  | tighter {level : Nat} {tokens : List Token} {f : Formula} (h : level < Connective.levels)
      (phrase : Phrase (level + 1) tokens f) : Phrase level tokens f
  | chain {lefts rights : List Token} {left right : Formula} (op : Connective)
      (first : Phrase op.precedence lefts left)
      (last : Phrase (op.precedence + 1) rights right) :
      Phrase op.precedence (lefts ++ .connective op :: rights) (.bin op left right)

namespace Phrase

/-- A phrase of some level is a phrase of every looser level. -/
theorem weaken {level looser : Nat} {tokens : List Token} {f : Formula}
    (h : looser ≤ level) (phrase : Phrase level tokens f) (hlevel : level ≤ Connective.levels) :
    Phrase looser tokens f := by
  induction level with
  | zero =>
    have : looser = 0 := Nat.le_zero.mp h
    exact this ▸ phrase
  | succ n ih =>
    by_cases heq : looser = n + 1
    · exact heq ▸ phrase
    · exact ih (by omega) (tighter (by omega) phrase) (by omega)

/-- No phrase is empty. -/
theorem ne_nil {level : Nat} {tokens : List Token} {f : Formula} (phrase : Phrase level tokens f) :
    tokens ≠ [] := by
  induction phrase with
  | var _ => simp
  | const _ => simp
  | neg _ _ => simp
  | group _ _ => simp
  | tighter _ _ ih => exact ih
  | chain _ _ _ _ _ => simp

/-- The end of a text is not part of a phrase. -/
theorem ending_not_mem {level : Nat} {tokens : List Token} {f : Formula}
    (phrase : Phrase level tokens f) : .ending ∉ tokens := by
  induction phrase with
  | var _ => simp
  | const _ => simp
  | neg _ ih => simp [ih]
  | group _ ih => simp [ih]
  | tighter _ _ ih => exact ih
  | chain _ _ _ ihf ihl => simp [ihf, ihl]

end Phrase

end Propositional
