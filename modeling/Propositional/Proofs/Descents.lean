import Propositional.Formula.Descent
import Propositional.Proofs.Completeness

/-!
# Descent and stack read alike

Recursive descent keeps what is open in its calls, the stack keeps it in frames.  A call
for an operand answers with a formula and the lexemes behind it; the stack comes to the
same lexemes with the same formula, once the connectives that wait for it are completed.
So both give the same formula, or the same error at the same place.

What ties them together is what a call leaves unread: no connective that the stack would
still complete for the same operand.

* `run_collapse` — completing connectives early makes no difference to what follows;
* `Follows.bind` — one call behind another, and one part of the reading behind another;
* `agrees` — each call and its part of the reading, by induction on what is unread;
* `ofLexemes_eq_descent`, `parse_eq_descent` — so both ways give the same result.
-/

namespace Propositional

namespace Reading

/-- Goes on reading from here, up to the formula. -/
def run (reading : Reading) (lexemes : List Lexeme) : Except Error Formula := do
  let last ← lexemes.foldlM (step nestingLimit) reading
  last.result

theorem run_cons_of_ok {reading next : Reading} {lexeme : Lexeme} {rest : List Lexeme}
    (h : step nestingLimit reading lexeme = .ok next) :
    run reading (lexeme :: rest) = run next rest := by
  rw [run, foldlM_cons_ok h, run]

theorem run_cons_of_error {reading : Reading} {lexeme : Lexeme} {rest : List Lexeme} {e : Error}
    (h : step nestingLimit reading lexeme = .error e) :
    run reading (lexeme :: rest) = .error e := by
  rw [run, foldlM_cons_error h]
  rfl

/-- Behind the end nothing is looked at. -/
theorem run_finished (value : Formula) (lexemes : List Lexeme) :
    run (.finished value) lexemes = .ok value := by
  induction lexemes with
  | nil => rfl
  | cons lexeme rest ih => exact (run_cons_of_ok rfl).trans ih

/-- Completing connectives closes no bracket. -/
theorem any_isGroup_collapse (level : Nat) (stack : List Frame) (value : Formula) :
    (collapse level stack value).1.any Frame.isGroup = stack.any Frame.isGroup := by
  induction stack generalizing value with
  | nil => rfl
  | cons frame rest ih =>
    cases frame with
    | group => rfl
    | negation => rfl
    | operand left op =>
      rw [collapse]
      split
      · exact ih _
      · rfl

/-- What connectives have been completed does not show in a complaint. -/
theorem refuse_collapse (level : Nat) (stack : List Frame) (value : Formula) (lexeme : Lexeme) :
    (holding (collapse level stack value).1 (collapse level stack value).2).refuse lexeme =
      (holding stack value).refuse lexeme := by
  simp only [refuse, wanted, any_isGroup_collapse]

/-- Completing connectives early makes no difference to a lexeme that completes them anyway. -/
theorem step_collapse {level : Nat} {lexeme : Lexeme}
    (h : ∀ op, lexeme.token = .connective op → op.precedence ≤ level) (stack : List Frame)
    (value : Formula) :
    step nestingLimit (.holding (collapse level stack value).1 (collapse level stack value).2)
        lexeme =
      step nestingLimit (.holding stack value) lexeme := by
  obtain ⟨token, position⟩ := lexeme
  have hrefuse := refuse_collapse level stack value
  cases token with
  | connective op => simp only [step, collapse_collapse (h op rfl)]
  | closeBracket =>
    simp only [step, close?, collapse_collapse (Nat.zero_le level), hrefuse]
  | ending => simp only [step, finish?, collapse_collapse (Nat.zero_le level), hrefuse]
  | var name => exact congrArg Except.error (hrefuse _)
  | const value => exact congrArg Except.error (hrefuse _)
  | neg => exact congrArg Except.error (hrefuse _)
  | openBracket => exact congrArg Except.error (hrefuse _)

end Reading

/-- No connective of the level or tighter comes next. -/
def Lexeme.Ends (level : Nat) (lexemes : List Lexeme) : Prop :=
  ∀ lexeme ∈ lexemes.head?, ∀ op, lexeme.token = .connective op → op.precedence < level

/-- At the tightest level nothing is left out. -/
theorem Lexeme.ends_levels (lexemes : List Lexeme) : Ends Connective.levels lexemes :=
  fun _ _ op _ => op.precedence_lt_levels

/-- Completing connectives early makes no difference to what follows, if it completes them
anyway. -/
theorem Reading.run_collapse {level : Nat} {lexemes : List Lexeme}
    (h : Lexeme.Ends (level + 1) lexemes) (stack : List Frame) (value : Formula) :
    run (.holding (collapse level stack value).1 (collapse level stack value).2) lexemes =
      run (.holding stack value) lexemes := by
  cases lexemes with
  | nil => exact congrArg Except.error (refuse_collapse level stack value _)
  | cons lexeme rest =>
    have hstep := step_collapse (fun op hop => Nat.le_of_lt_succ (h lexeme rfl op hop)) stack value
    rw [run, run, List.foldlM_cons, List.foldlM_cons, hstep]

namespace Descent

open Reading (nesting complete collapse Below)

/-- The stack reads the lexemes that the call has taken, and goes on from its answer as from
`next`; and the call has left no connective of the level or tighter. -/
structure Follows (level : Nat) (reading : Reading) (lexemes : List Lexeme) {bound : Nat}
    (call : Except Error (Answer bound)) (next : Formula → Reading) : Prop where
  run_eq : reading.run lexemes = call >>= fun answer => (next answer.formula).run answer.rest
  ends : ∀ answer, call = .ok answer → Lexeme.Ends level answer.rest

section Follows

variable {level tight bound bound' : Nat} {reading : Reading} {lexemes rest : List Lexeme}
  {lexeme : Lexeme} {next next' : Formula → Reading} {stack : List Frame}

/-- A call that takes nothing. -/
theorem follows_ok (answer : Answer bound) (h : Lexeme.Ends level answer.rest) :
    Follows level (next answer.formula) answer.rest (.ok answer) next where
  run_eq := rfl
  ends := by
    intro answer' heq
    cases heq
    exact h

/-- A call that is refused. -/
theorem follows_error {e : Error} (h : reading.run lexemes = .error e) :
    Follows level reading lexemes (.error e : Except Error (Answer bound)) next where
  run_eq := h
  ends := by
    intro answer heq
    cases heq

/-- The reading may get somewhere else first. -/
theorem Follows.of_run_eq {reading' : Reading} {call : Except Error (Answer bound)}
    (h : Follows level reading' rest call next) (hrun : reading.run lexemes = reading'.run rest) :
    Follows level reading lexemes call next :=
  ⟨hrun.trans h.run_eq, h.ends⟩

/-- One call behind another, and one part of the reading behind another. -/
theorem Follows.bind {call : Except Error (Answer bound)}
    {others : Answer bound → Except Error (Answer bound')}
    (first : Follows tight reading lexemes call next)
    (second : ∀ answer, call = .ok answer → Lexeme.Ends tight answer.rest →
      Follows level (next answer.formula) answer.rest (others answer) next') :
    Follows level reading lexemes (call >>= others) next' := by
  cases call with
  | error e => exact follows_error first.run_eq
  | ok answer =>
    have hsecond := second answer rfl (first.ends answer rfl)
    exact ⟨first.run_eq.trans hsecond.run_eq, hsecond.ends⟩

theorem Follows.widen {call : Except Error (Answer bound)}
    (h : Follows level reading lexemes call next) (hle : bound ≤ bound') :
    Follows level reading lexemes (call >>= fun answer => pure (answer.widen hle)) next := by
  refine h.bind fun answer _ hends => ⟨rfl, fun answer' heq => ?_⟩
  cases heq
  exact hends

/-- A bracket or a negation takes the call one level down, unless it is refused for that. -/
theorem follows_nest (frame : Frame) {others : Nat → Except Error (Answer bound)}
    (hnests : frame.nests = true)
    (hstep : Reading.step nestingLimit (.wanting stack) lexeme =
      Reading.nest nestingLimit frame stack lexeme.position)
    (h : Follows level (.wanting (frame :: stack)) rest (others (nesting (frame :: stack))) next) :
    Follows level (.wanting stack) (lexeme :: rest)
      (nest (nesting stack) lexeme.position >>= others) next := by
  rw [nesting, List.countP_cons_of_pos hnests, ← nesting] at h
  by_cases hlt : nesting stack < nestingLimit
  · rw [Reading.nest, if_pos hlt] at hstep
    rw [nest, if_pos hlt]
    exact ⟨(Reading.run_cons_of_ok hstep).trans h.run_eq, h.ends⟩
  · rw [Reading.nest, if_neg hlt] at hstep
    rw [nest, if_neg hlt]
    exact follows_error (Reading.run_cons_of_error hstep)

end Follows

/-- What the calls answer for these lexemes is what the stack makes of them. -/
structure Agrees (lexemes : List Lexeme) : Prop where
  negation : ∀ stack, Follows Connective.levels (.wanting stack) lexemes
    (negation (nesting stack) lexemes) (complete stack)
  binary : ∀ level ≤ Connective.levels, ∀ stack, Below level stack →
    Follows level (.wanting stack) lexemes (binary level (nesting stack) lexemes) (.holding stack)
  chain : ∀ level < Connective.levels, ∀ stack left, Below level stack →
    Lexeme.Ends (level + 1) lexemes →
      Follows level (.holding stack left) lexemes (chain level (nesting stack) left lexemes)
        (.holding stack)

section Expect

variable {reading after : Reading} {wanted : Token} {lexemes : List Lexeme} {stack : List Frame}
  {value : Formula}

/-- Where a call asks for a token behind an operand, the stack goes on with it, or complains in the
same words. -/
theorem run_expect (h : Lexeme.Ends 0 lexemes)
    (hpass : ∀ position, Reading.step nestingLimit reading ⟨wanted, position⟩ = .ok after)
    (hrefuse : ∀ lexeme : Lexeme, lexeme.token ≠ wanted →
      (∀ op, lexeme.token ≠ .connective op) →
        Reading.step nestingLimit reading lexeme = .error (lexeme.unexpected wanted.describe))
    (hmissing : reading.result = .error (Lexeme.missing.unexpected wanted.describe)) :
    reading.run lexemes = expect wanted lexemes >>= fun behind => after.run behind.1 := by
  cases lexemes with
  | nil => exact hmissing
  | cons lexeme rest =>
    by_cases hwanted : lexeme.token = wanted
    · obtain ⟨token, position⟩ := lexeme
      obtain rfl : token = wanted := hwanted
      rw [Reading.run_cons_of_ok (hpass position), expect, if_pos rfl]
      rfl
    · have hstep := hrefuse lexeme hwanted fun op hop =>
        Nat.not_lt_zero _ (h lexeme rfl op hop)
      rw [Reading.run_cons_of_error hstep, expect, if_neg hwanted]
      rfl

theorem run_expect_closeBracket (h : Lexeme.Ends 0 lexemes) :
    (Reading.holding (.group :: stack) value).run lexemes =
      expect .closeBracket lexemes >>= fun behind => (complete stack value).run behind.1 := by
  refine run_expect h (fun position => rfl) ?_ rfl
  rintro ⟨token, position⟩ hne hop
  cases token with
  | closeBracket => exact absurd rfl hne
  | connective op => exact absurd rfl (hop op)
  | _ => rfl

theorem run_expect_ending (h : Lexeme.Ends 0 lexemes) :
    (Reading.holding [] value).run lexemes =
      expect .ending lexemes >>= fun behind => (Reading.finished value).run behind.1 := by
  refine run_expect h (fun position => rfl) ?_ rfl
  rintro ⟨token, position⟩ hne hop
  cases token with
  | ending => exact absurd rfl hne
  | connective op => exact absurd rfl (hop op)
  | _ => rfl

end Expect

theorem operator?_eq_some {level : Nat} {lexeme : Lexeme} {op : Connective}
    (h : operator? level lexeme = some op) :
    lexeme.token = .connective op ∧ op.precedence = level := by
  unfold operator? at h
  split at h
  · rename_i other htoken
    split at h
    · rename_i hlevel
      cases h
      exact ⟨htoken, hlevel⟩
    · cases h
  · cases h

/-- A loop that ends has left no connective of its level. -/
theorem ends_of_operator?_eq_none {level : Nat} {lexeme : Lexeme} {rest : List Lexeme}
    (h : operator? level lexeme = none) (hends : Lexeme.Ends (level + 1) (lexeme :: rest)) :
    Lexeme.Ends level (lexeme :: rest) := by
  intro first hfirst op hop
  cases hfirst
  have hle : op.precedence < level + 1 := hends lexeme rfl op hop
  have hne : op.precedence ≠ level := fun heq => by simp [operator?, hop, heq] at h
  omega

section Step

variable {lexemes : List Lexeme}
  (ih : ∀ rest : List Lexeme, rest.length < lexemes.length → Agrees rest)

include ih

/-- An atom completes the negations in front of it. -/
theorem follows_atom (hneg : ∀ position rest, lexemes ≠ ⟨.neg, position⟩ :: rest)
    (stack : List Frame) :
    Follows Connective.levels (.wanting stack) lexemes (atom (nesting stack) lexemes)
      (complete stack) := by
  cases lexemes with
  | nil =>
    rw [atom]
    exact follows_error rfl
  | cons lexeme rest =>
    obtain ⟨token, position⟩ := lexeme
    cases token with
    | var name =>
      rw [atom]
      exact ⟨Reading.run_cons_of_ok rfl, fun _ _ => Lexeme.ends_levels _⟩
    | const value =>
      rw [atom]
      exact ⟨Reading.run_cons_of_ok rfl, fun _ _ => Lexeme.ends_levels _⟩
    | openBracket =>
      rw [atom]
      refine follows_nest .group rfl rfl ?_
      have hinner := (ih rest (Nat.lt_succ_self _)).binary 0 (Nat.zero_le _) (.group :: stack)
        trivial
      refine hinner.bind fun inner _ hends => ⟨?_, fun _ _ => Lexeme.ends_levels _⟩
      rw [run_expect_closeBracket hends]
      cases expect .closeBracket inner.rest <;> rfl
    | neg => exact absurd rfl (hneg position rest)
    | _ =>
      simp only [atom]
      exact follows_error (Reading.run_cons_of_error rfl)

/-- The stack completes a negation as soon as its operand is complete. -/
theorem follows_negation (stack : List Frame) :
    Follows Connective.levels (.wanting stack) lexemes (negation (nesting stack) lexemes)
      (complete stack) := by
  cases lexemes with
  | nil =>
    simp only [negation]
    exact follows_atom ih (fun _ _ h => by cases h) stack
  | cons lexeme rest =>
    obtain ⟨token, position⟩ := lexeme
    cases token with
    | neg =>
      rw [negation]
      refine follows_nest .negation rfl rfl ?_
      have hoperand := (ih rest (Nat.lt_succ_self _)).negation (.negation :: stack)
      exact hoperand.bind fun operand _ _ => ⟨rfl, fun _ _ => Lexeme.ends_levels _⟩
    | _ =>
      simp only [negation]
      exact follows_atom ih (fun _ _ h => by cases h) stack

/-- One turn of the loop completes the operand that a connective of the level waits for. -/
theorem follows_chain {level : Nat} (hlevel : level < Connective.levels) {stack : List Frame}
    (left : Formula) (hbelow : Below level stack) (hends : Lexeme.Ends (level + 1) lexemes) :
    Follows level (.holding stack left) lexemes (chain level (nesting stack) left lexemes)
      (.holding stack) := by
  cases lexemes with
  | nil =>
    rw [chain]
    exact follows_ok ⟨left, [], _⟩ fun _ h => by cases h
  | cons lexeme rest =>
    rw [chain]
    cases hoperator : operator? level lexeme with
    | none => exact follows_ok ⟨left, lexeme :: rest, _⟩ (ends_of_operator?_eq_none hoperator hends)
    | some op =>
      obtain ⟨htoken, rfl⟩ := operator?_eq_some hoperator
      obtain ⟨token, position⟩ := lexeme
      cases htoken
      have hstep : Reading.step nestingLimit (.holding stack left) ⟨.connective op, position⟩ =
          .ok (.wanting (.operand left op :: stack)) :=
        Reading.step_connective (Reading.collapse_of_below hbelow left)
      have hright := (ih rest (Nat.lt_succ_self _)).binary (op.precedence + 1) hlevel
        (.operand left op :: stack) (Nat.lt_succ_self _)
      refine Follows.of_run_eq ?_ (Reading.run_cons_of_ok hstep)
      refine hright.bind fun right _ hends => ?_
      -- The stack completes the operand only later, at what the call has left unread.
      have hcollapse : collapse op.precedence (.operand left op :: stack) right.formula =
          (stack, .bin op left right.formula) := by
        rw [Reading.collapse, if_pos (Nat.le_refl _), Reading.collapse_of_below hbelow]
      have hrun := Reading.run_collapse hends (.operand left op :: stack) right.formula
      rw [hcollapse] at hrun
      have hchain := (ih right.rest (Nat.lt_succ_of_lt right.shorter)).chain op.precedence hlevel
        stack (.bin op left right.formula) hbelow hends
      exact Follows.of_run_eq (hchain.widen _) hrun.symm

/-- Each level asks the next tighter one for its first operand. -/
theorem follows_binary {level : Nat} (hlevel : level ≤ Connective.levels) {stack : List Frame}
    (hbelow : Below level stack) :
    Follows level (.wanting stack) lexemes (binary level (nesting stack) lexemes)
      (.holding stack) := by
  by_cases hlt : level < Connective.levels
  · rw [binary, if_pos hlt]
    have hleft := follows_binary hlt (Reading.below_weaken (Nat.le_succ level) hbelow)
    refine hleft.bind fun left _ hends => ?_
    have hchain := (ih left.rest left.shorter).chain level hlt stack left.formula hbelow hends
    exact hchain.widen _
  · obtain rfl : level = Connective.levels := Nat.le_antisymm hlevel (Nat.le_of_not_lt hlt)
    rw [binary, if_neg hlt]
    have hnegation := follows_negation ih stack
    rw [funext (Reading.complete_of_below hbelow)] at hnegation
    exact hnegation
termination_by Connective.levels - level

end Step

/-- The calls answer for all lexemes as the stack does, since they answer so for those that are
left when something has been taken. -/
theorem agrees (lexemes : List Lexeme) : Agrees lexemes := by
  induction h : lexemes.length using Nat.strongRecOn generalizing lexemes with
  | ind length ih =>
    subst h
    have ih' : ∀ rest : List Lexeme, rest.length < lexemes.length → Agrees rest :=
      fun rest hlt => ih rest.length hlt rest rfl
    exact ⟨follows_negation ih', fun _ hlevel _ => follows_binary ih' hlevel,
      fun _ hlevel _ left => follows_chain ih' hlevel left⟩

/-- A whole reading is a call for the loosest level, behind which only the end may come. -/
theorem run_wanting_nil (lexemes : List Lexeme) :
    (Reading.wanting []).run lexemes = do
      let whole ← binary 0 0 lexemes
      let _ ← expect .ending whole.rest
      return whole.formula := by
  have hwhole := (agrees lexemes).binary 0 (Nat.zero_le _) [] trivial
  rw [hwhole.run_eq]
  show binary 0 0 lexemes >>= _ = _
  cases hcall : binary 0 0 lexemes with
  | error e => rfl
  | ok whole =>
    show (Reading.holding [] whole.formula).run whole.rest = _
    rw [run_expect_ending (hwhole.ends whole hcall)]
    simp only [Reading.run_finished]
    rfl

end Descent

namespace Formula

/-- Reading lexemes with a stack gives what recursive descent gives: the same formula, or the same
error at the same place. -/
theorem ofLexemes_eq_descent (lexemes : List Lexeme) :
    ofLexemes lexemes = Descent.ofLexemes lexemes := by
  cases lexemes with
  | nil => rfl
  | cons lexeme rest =>
    obtain ⟨token, position⟩ := lexeme
    cases token with
    | ending => rfl
    | _ => exact Descent.run_wanting_nil _

/-- A source text is read as recursive descent over its lexemes reads it. -/
theorem parse_eq_descent (source : String) :
    parse source = tokenize source >>= Descent.ofLexemes := by
  rw [parse, funext ofLexemes_eq_descent]

end Formula

end Propositional
