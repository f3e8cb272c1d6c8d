import Propositional.Formula.Grammar
import Propositional.Formula.Parse

/-!
# A formula that is read is spelled by a phrase

What has been read so far is always the tokens of the stack followed by the
tokens of the operand that is held.

* `reads_step` — every step keeps this;
* `phrase_of_finish` — when the end is read, the tokens in front of it are a
  phrase for the formula.
-/

namespace Propositional.Reading

variable {limit : Nat}

/-- May an operand of the level stand on the stack, that is, does nothing on top of it bind at
least as tightly? -/
def Below (level : Nat) : List Frame → Prop
  | .operand _ op :: _ => op.precedence < level
  | .negation :: _ => False
  | _ => True

/-- The tokens that have been read for the frames of a stack. -/
inductive Pending : List Token → List Frame → Prop where
  | nil : Pending [] []
  | group {tokens : List Token} {stack : List Frame} (h : Pending tokens stack) :
      Pending (tokens ++ [.openBracket]) (.group :: stack)
  | negation {tokens : List Token} {stack : List Frame} (h : Pending tokens stack) :
      Pending (tokens ++ [.neg]) (.negation :: stack)
  | operand {tokens lefts : List Token} {stack : List Frame} {left : Formula} (op : Connective)
      (h : Pending tokens stack) (below : Below op.precedence stack)
      (phrase : Phrase op.precedence lefts left) :
      Pending (tokens ++ lefts ++ [.connective op]) (.operand left op :: stack)

/-- The tokens that have been read for a reading. -/
inductive Reads : List Token → Reading → Prop where
  | wanting {tokens : List Token} {stack : List Frame} (h : Pending tokens stack) :
      Reads tokens (.wanting stack)
  | holding {tokens operand : List Token} {stack : List Frame} {value : Formula}
      (h : Pending tokens stack) (below : Below Connective.levels stack)
      (phrase : Phrase Connective.levels operand value) :
      Reads (tokens ++ operand) (.holding stack value)

/-- Completing negations turns an operand into a longer one. -/
theorem reads_complete {tokens operand : List Token} {stack : List Frame} {value : Formula}
    (h : Pending tokens stack) (phrase : Phrase Connective.levels operand value) :
    Reads (tokens ++ operand) (complete stack value) := by
  induction stack generalizing tokens operand value with
  | nil => exact .holding h trivial phrase
  | cons frame rest ih =>
    cases h with
    | group h => exact .holding (.group h) trivial phrase
    | negation h =>
      rw [List.append_assoc]
      exact ih h (.neg phrase)
    | operand op h below hleft =>
      exact .holding (.operand op h below hleft) op.precedence_lt_levels phrase

/-- Completing connectives turns an operand into a phrase of the level asked for. -/
theorem pending_collapse {level tight : Nat} {tokens operand : List Token} {stack : List Frame}
    {value : Formula} (h : Pending tokens stack) (below : Below tight stack)
    (hlevel : level ≤ tight) (htight : tight ≤ Connective.levels)
    (phrase : Phrase tight operand value) :
    ∃ front back, tokens ++ operand = front ++ back ∧
      Pending front (collapse level stack value).1 ∧
      Below level (collapse level stack value).1 ∧
      Phrase level back (collapse level stack value).2 := by
  induction stack generalizing tight tokens operand value with
  | nil => exact ⟨tokens, operand, rfl, h, trivial, phrase.weaken hlevel htight⟩
  | cons frame rest ih =>
    cases h with
    | group h => exact ⟨_, operand, rfl, .group h, trivial, phrase.weaken hlevel htight⟩
    | negation h => exact absurd below id
    | @operand front lefts _ left op h hbelow hleft =>
      have hop : op.precedence < tight := below
      rw [collapse]
      split
      · rename_i hle
        have hright := phrase.weaken (Nat.succ_le_of_lt hop) htight
        have hop5 := op.precedence_lt_levels
        have := ih h hbelow hle (by omega) (Phrase.chain op hleft hright)
        simpa [List.append_assoc] using this
      · rename_i hlt
        exact ⟨_, operand, rfl, .operand op h hbelow hleft, Nat.lt_of_not_le hlt,
          phrase.weaken hlevel htight⟩

/-- Every step adds its token to what has been read. -/
theorem reads_step {tokens : List Token} {reading next : Reading} {lexeme : Lexeme}
    (h : Reads tokens reading) (hstep : step limit reading lexeme = .ok next)
    (hend : lexeme.token ≠ .ending) : Reads (tokens ++ [lexeme.token]) next := by
  obtain ⟨token, position⟩ := lexeme
  cases h with
  | wanting h =>
    cases token with
    | var name => cases hstep; exact reads_complete h (.var name)
    | const value => cases hstep; exact reads_complete h (.const value)
    | neg =>
      simp only [step, nest] at hstep
      split at hstep
      · cases hstep; exact .wanting (.negation h)
      · cases hstep
    | openBracket =>
      simp only [step, nest] at hstep
      split at hstep
      · cases hstep; exact .wanting (.group h)
      · cases hstep
    | connective op => cases hstep
    | closeBracket => cases hstep
    | ending => exact absurd rfl hend
  | @holding front operand stack value h below phrase =>
    cases token with
    | var name => cases hstep
    | const value => cases hstep
    | neg => cases hstep
    | openBracket => cases hstep
    | connective op =>
      obtain ⟨front', back, heq, hfront, hbelow, hback⟩ :=
        pending_collapse h below
          (Nat.le_of_lt op.precedence_lt_levels) (Nat.le_refl _) phrase
      cases hstep
      rw [heq]
      exact .wanting (.operand op hfront hbelow hback)
    | closeBracket =>
      obtain ⟨front', back, heq, hfront, hbelow, hback⟩ :=
        pending_collapse h below (Nat.zero_le Connective.levels) (Nat.le_refl _) phrase
      simp only [step, close?] at hstep
      cases hcollapse : collapse 0 stack value with
      | mk rest whole =>
        rw [hcollapse] at hstep hfront hback
        cases rest with
        | nil => cases hstep
        | cons frame rest =>
          cases hfront with
          | group hfront =>
            cases hstep
            rw [heq]
            simpa [List.append_assoc] using reads_complete hfront (.group hback)
          | negation _ => cases hstep
          | operand _ _ _ _ => cases hstep
    | ending => exact absurd rfl hend

/-- When the end is read, the tokens in front of it are a phrase for the formula. -/
theorem phrase_of_finish {tokens : List Token} {reading : Reading} {position : Nat} {f : Formula}
    (h : Reads tokens reading)
    (hstep : step limit reading ⟨.ending, position⟩ = .ok (.finished f)) :
    Phrase 0 tokens f := by
  cases h with
  | wanting h => cases hstep
  | @holding front operand stack value h below phrase =>
    obtain ⟨front', back, heq, hfront, hbelow, hback⟩ :=
      pending_collapse h below (Nat.zero_le Connective.levels) (Nat.le_refl _) phrase
    simp only [step, finish?] at hstep
    cases hcollapse : collapse 0 stack value with
    | mk rest whole =>
      rw [hcollapse] at hstep hfront hback
      cases rest with
      | nil =>
        cases hfront
        cases hstep
        rw [heq]
        exact hback
      | cons _ _ => cases hstep

/-- The tokens of a text without an end in it are added one after the other. -/
theorem reads_foldlM {tokens : List Token} {reading next : Reading} {lexemes : List Lexeme}
    (h : Reads tokens reading) (hfold : lexemes.foldlM (step limit) reading = .ok next)
    (hend : ∀ l ∈ lexemes, l.token ≠ .ending) :
    Reads (tokens ++ lexemes.map Lexeme.token) next := by
  induction lexemes generalizing tokens reading with
  | nil =>
    cases hfold
    simpa using h
  | cons l rest ih =>
    rw [List.foldlM_cons] at hfold
    cases hstep : step limit reading l with
    | error e => rw [hstep] at hfold; cases hfold
    | ok reading' =>
      rw [hstep] at hfold
      have hread := reads_step h hstep (hend l (by simp))
      have := ih hread hfold fun m hm => hend m (by simp [hm])
      simpa [List.append_assoc] using this

end Propositional.Reading
