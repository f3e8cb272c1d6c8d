import Propositional.Proofs.Prefixes

/-!
# The token that a text is refused for

A step looks at the token of a lexeme only, and its place is what an error names.
So reading fails at the first token behind which no text goes on that is read as
a formula, while the tokens in front of it begin one.

* `Reading.step_alike` — what a step does depends on the token alone;
* `Reading.exists_refused` — reading fails at one of the lexemes;
* `Token.Accepted.not_prefix` — no tokens that are read as a formula begin with
  those up to there;
* `parse_refusal` — which token a text is refused for, and what is said of it.
-/

namespace Propositional

namespace Reading

variable {limit : Nat}

/-- What a step does depends on the token alone, and its place is that of the error. -/
theorem step_alike (limit : Nat) (reading : Reading) (token : Token) (place place' : Nat) :
    Alike (step limit reading ⟨token, place⟩) (step limit reading ⟨token, place'⟩) := by
  have hnest (frame : Frame) (stack : List Frame) :
      Alike (nest limit frame stack place) (nest limit frame stack place') := by
    unfold nest
    split
    · exact .ok _
    · exact .malformed _ place place'
  have hrefuse : Alike (.error (reading.refuse ⟨token, place⟩) : Except Error Reading)
      (.error (reading.refuse ⟨token, place'⟩)) := .malformed _ place place'
  cases reading with
  | wanting stack =>
    cases token with
    | var _ => exact .ok _
    | const _ => exact .ok _
    | neg => exact hnest .negation stack
    | openBracket => exact hnest .group stack
    | connective _ => exact hrefuse
    | closeBracket => exact hrefuse
    | ending => exact hrefuse
  | holding stack value =>
    cases token with
    | connective _ => exact .ok _
    | closeBracket =>
      simp only [step]
      cases close? stack value with
      | none => exact hrefuse
      | some next => exact .ok next
    | ending =>
      simp only [step]
      cases finish? stack value with
      | none => exact hrefuse
      | some next => exact .ok next
    | var _ => exact hrefuse
    | const _ => exact hrefuse
    | neg => exact hrefuse
    | openBracket => exact hrefuse
  | finished value => cases token <;> exact .ok _

/-- Lexemes of the same tokens are read alike. -/
theorem foldlM_alike (limit : Nat) {lexemes others : List Lexeme}
    (htokens : lexemes.map Lexeme.token = others.map Lexeme.token) (reading : Reading) :
    Alike (lexemes.foldlM (step limit) reading) (others.foldlM (step limit) reading) := by
  induction lexemes generalizing others reading with
  | nil =>
    obtain rfl := List.map_eq_nil_iff.mp htokens.symm
    exact .ok reading
  | cons lexeme rest ih =>
    obtain ⟨token, place⟩ := lexeme
    obtain ⟨place', rest', rfl, hrest⟩ := Lexeme.exists_cons htokens.symm
    rw [List.foldlM_cons, List.foldlM_cons]
    exact (step_alike limit reading token place place').bind fun next => ih hrest.symm next

/-- Where reading fails, it fails at one of the lexemes. -/
theorem exists_refused {lexemes : List Lexeme} {reading : Reading} {e : Error}
    (h : lexemes.foldlM (step limit) reading = .error e) :
    ∃ before lexeme behind next, lexemes = before ++ lexeme :: behind ∧
      before.foldlM (step limit) reading = .ok next ∧ step limit next lexeme = .error e := by
  induction lexemes generalizing reading with
  | nil => cases h
  | cons lexeme rest ih =>
    cases hstep : step limit reading lexeme with
    | error e' =>
      rw [foldlM_cons_error hstep] at h
      cases h
      exact ⟨[], lexeme, rest, reading, rfl, rfl, hstep⟩
    | ok middle =>
      rw [foldlM_cons_ok hstep] at h
      obtain ⟨before, refused, behind, next, rfl, hfold, hrefused⟩ := ih h
      refine ⟨lexeme :: before, refused, behind, next, rfl, ?_, hrefused⟩
      rw [foldlM_cons_ok hstep]
      exact hfold

/-- When the end is read nothing is missing any more. -/
theorem exists_finished {reading next : Reading} {place : Nat}
    (h : step limit reading ⟨.ending, place⟩ = .ok next) : ∃ value, next = .finished value := by
  cases reading with
  | wanting stack => cases h
  | holding stack value =>
    simp only [step] at h
    split at h
    · rename_i hfinish
      cases h
      unfold finish? at hfinish
      split at hfinish
      · cases hfinish
        exact ⟨_, rfl⟩
      · cases hfinish
    · cases h
  | finished value =>
    cases h
    exact ⟨value, rfl⟩

theorem exists_finished_of_foldlM {lexemes : List Lexeme} {reading next : Reading} {place : Nat}
    (h : (lexemes ++ [(⟨.ending, place⟩ : Lexeme)]).foldlM (step limit) reading = .ok next) :
    ∃ value, next = .finished value := by
  cases hfold : lexemes.foldlM (step limit) reading with
  | error e =>
    rw [foldlM_append_error hfold] at h
    cases h
  | ok middle =>
    rw [foldlM_append_ok hfold] at h
    cases hstep : step limit middle ⟨.ending, place⟩ with
    | error e =>
      rw [foldlM_cons_error hstep] at h
      cases h
    | ok last =>
      rw [foldlM_cons_ok hstep] at h
      cases h
      exact exists_finished hstep

end Reading

/-- No tokens that are read as a formula begin with those that reading fails at. -/
theorem Token.Accepted.not_prefix {tokens : List Token} (h : Accepted tokens)
    {before : List Lexeme} {lexeme : Lexeme} {reading : Reading} {e : Error}
    (hfold : before.foldlM (Reading.step nestingLimit) (.wanting []) = .ok reading)
    (hstep : Reading.step nestingLimit reading lexeme = .error e) :
    ¬ before.map Lexeme.token ++ [lexeme.token] <+: tokens ++ [.ending] := by
  rintro ⟨more, hmore⟩
  obtain ⟨f, hread⟩ := h
  have hfailed : (before ++ [lexeme] ++ more.map (Lexeme.mk · 0)).foldlM
      (Reading.step nestingLimit) (.wanting []) = .error e := by
    rw [List.append_assoc, Reading.foldlM_append_ok hfold]
    exact Reading.foldlM_cons_error hstep
  have htokens : ((tokens ++ [Token.ending]).map (Lexeme.mk · 0)).map Lexeme.token =
      (before ++ [lexeme] ++ more.map (Lexeme.mk · 0)).map Lexeme.token := by
    rw [← hmore]
    simp [Function.comp_def]
  cases hfold' : ((tokens ++ [Token.ending]).map (Lexeme.mk · 0)).foldlM
      (Reading.step nestingLimit) (.wanting []) with
  | ok next =>
    have halike := Reading.foldlM_alike nestingLimit htokens (.wanting [])
    rw [hfold', hfailed] at halike
    cases halike
  | error e' =>
    unfold Formula.ofLexemes at hread
    split at hread
    · cases hread
    · cases hread
    · rw [hfold'] at hread
      cases hread

namespace Formula

/-- Lexemes that are not read as a formula are refused while they are read, since nothing is missing
any more when the end has been read. -/
theorem foldlM_eq_error_of_ofLexemes {front : List Lexeme} (hne : front ≠ [])
    (hending : ∀ l ∈ front, l.token ≠ .ending) {position : Nat} {e : Error}
    (h : ofLexemes (front ++ [⟨.ending, position⟩]) = .error e) :
    (front ++ [(⟨.ending, position⟩ : Lexeme)]).foldlM (Reading.step nestingLimit)
      (.wanting []) = .error e := by
  rw [ofLexemes_eq hne hending] at h
  cases hfold : (front ++ [(⟨.ending, position⟩ : Lexeme)]).foldlM
      (Reading.step nestingLimit) (.wanting []) with
  | error e' =>
    rw [hfold] at h
    cases h
    rfl
  | ok next =>
    obtain ⟨value, rfl⟩ := Reading.exists_finished_of_foldlM hfold
    rw [hfold] at h
    cases h

/-- Lexemes that are not read as a formula are refused for the first of them that no text goes on
from that is read as one. -/
theorem ofLexemes_refusal {front : List Lexeme} (hne : front ≠ [])
    (hending : ∀ l ∈ front, l.token ≠ .ending) {position : Nat} {e : Error}
    (h : ofLexemes (front ++ [⟨.ending, position⟩]) = .error e) :
    ∃ before lexeme behind complaint, front ++ [⟨.ending, position⟩] = before ++ lexeme :: behind ∧
      e = .malformed complaint lexeme.position ∧
      (∃ more, Token.Accepted (before.map Lexeme.token ++ more)) ∧
      (∀ tokens, Token.Accepted tokens →
        ¬ before.map Lexeme.token ++ [lexeme.token] <+: tokens ++ [.ending]) ∧
      complaint.text = Token.refusal nestingLimit (before.map Lexeme.token) lexeme.token := by
  obtain ⟨before, lexeme, behind, reading, heq, hbefore, hstep⟩ :=
    Reading.exists_refused (foldlM_eq_error_of_ofLexemes hne hending h)
  have hends : ∀ l ∈ before, l.token ≠ .ending := by
    have hstarts : before <+: front := by
      refine List.prefix_of_prefix_length_le ⟨lexeme :: behind, heq.symm⟩
        (List.prefix_append front _) ?_
      have hlength := congrArg List.length heq
      simp only [List.length_append, List.length_cons, List.length_nil] at hlength
      omega
    exact fun l hl => hending l (hstarts.subset hl)
  have hreads := Reading.reads_foldlM (.wanting .nil) hbefore hends
  rw [List.nil_append] at hreads
  obtain ⟨complaint, he, htext⟩ := hreads.refusal_of_step hstep
  exact ⟨before, lexeme, behind, complaint, heq, he, Reading.exists_accepted hbefore hends,
    fun tokens htokens => htokens.not_prefix hbefore hstep, htext⟩

/-- A text that is not read as a formula is refused for its first token that no text goes on from
that is read as one, while the tokens in front of it begin such a text. -/
theorem parse_refusal (source : String) (front : List Lexeme)
    (h : tokenize source = .ok (front ++ [⟨.ending, source.length⟩])) :
    (front = [] → ∃ complaint, parse source = .error (.malformed complaint 0) ∧
      complaint.text = "empty expression") ∧
    (front ≠ [] → ∀ e, parse source = .error e → ∃ before lexeme behind complaint,
      front ++ [⟨.ending, source.length⟩] = before ++ lexeme :: behind ∧
      e = .malformed complaint lexeme.position ∧
      (∃ more, Token.Accepted (before.map Lexeme.token ++ more)) ∧
      (∀ tokens, Token.Accepted tokens →
        ¬ before.map Lexeme.token ++ [lexeme.token] <+: tokens ++ [.ending]) ∧
      complaint.text =
        Token.refusal nestingLimit (before.map Lexeme.token) lexeme.token) := by
  rw [parse_eq_of_tokenize h]
  constructor
  · rintro rfl
    exact ⟨.emptyExpression, rfl, rfl⟩
  · intro hne e herror
    obtain ⟨front', heq, hending⟩ := exists_front_of_tokenize h
    obtain rfl := List.append_cancel_right heq
    exact ofLexemes_refusal hne hending herror

/-- A bracket that is not closed is missed at the end of the text, and not where it opens. -/
theorem parse_refusal_unclosed :
    tokenize "~(p -> q" = .ok [⟨.neg, 0⟩, ⟨.openBracket, 1⟩, ⟨.var "p", 2⟩,
        ⟨.connective .conditional, 4⟩, ⟨.var "q", 7⟩, ⟨.ending, 8⟩] ∧
      parse "~(p -> q" = .error (.malformed (.expected "`)`" "end of input") 8) ∧
      ∃ before lexeme behind complaint,
        [⟨.neg, 0⟩, ⟨.openBracket, 1⟩, ⟨.var "p", 2⟩, ⟨.connective .conditional, 4⟩,
          ⟨.var "q", 7⟩, ⟨.ending, 8⟩] = before ++ lexeme :: behind ∧
        Error.malformed (.expected "`)`" "end of input") 8 =
          .malformed complaint lexeme.position ∧
        (∃ more, Token.Accepted (before.map Lexeme.token ++ more)) ∧
        (∀ tokens, Token.Accepted tokens →
          ¬ before.map Lexeme.token ++ [lexeme.token] <+: tokens ++ [.ending]) ∧
        complaint.text =
          Token.refusal nestingLimit (before.map Lexeme.token) lexeme.token := by
  have htokens : tokenize "~(p -> q" = .ok ([⟨.neg, 0⟩, ⟨.openBracket, 1⟩, ⟨.var "p", 2⟩,
      ⟨.connective .conditional, 4⟩, ⟨.var "q", 7⟩] ++ [⟨.ending, "~(p -> q".length⟩]) := by
    rfl
  have herror : parse "~(p -> q" = .error (.malformed (.expected "`)`" "end of input") 8) := by
    rfl
  exact ⟨htokens, herror, (parse_refusal "~(p -> q" _ htokens).2 (by simp) _ herror⟩

end Formula

end Propositional
