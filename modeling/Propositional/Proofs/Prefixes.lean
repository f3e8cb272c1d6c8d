import Propositional.Proofs.Parsing

/-!
# What has been read can be read on

The tokens in front of a place tell what may stand there: an operand at the start
and behind whatever waits for one, otherwise a connective, or what closes the
innermost bracket, or the end if no bracket is open.

* `Reading.Reads.wanted_eq` — a reading asks for what the tokens read so far tell;
* `Reading.exists_accepted` — what has been read is the beginning of a text that
  is read as a formula;
* `Reading.refusal_of_step` — what is said of a token that cannot stand there.
-/

namespace Propositional

namespace Token

/-- Are the tokens, with the end behind them, read as a formula? -/
def Accepted (tokens : List Token) : Prop :=
  ∃ f, Formula.ofLexemes ((tokens ++ [Token.ending]).map (Lexeme.mk · 0)) = .ok f

/-- Is an operand wanted behind the tokens? -/
def wantsOperand (tokens : List Token) : Bool :=
  match tokens.getLast? with
  | none | some .neg | some (.connective _) | some .openBracket => true
  | some (.var _) | some (.const _) | some .closeBracket | some .ending => false

/-- Do the tokens open more brackets than they close? -/
def leavesOpen (tokens : List Token) : Bool :=
  decide (tokens.count .closeBracket < tokens.count .openBracket)

/-- What is wanted behind the tokens, as an error message names it. -/
def wantedBehind (tokens : List Token) : String :=
  if wantsOperand tokens then "expression"
  else if leavesOpen tokens then "`)`"
  else "end of input"

/-- What is said of a token that cannot stand behind the others. -/
def refusal (limit : Nat) (tokens : List Token) (token : Token) : String :=
  if wantsOperand tokens ∧ token.opens ∧ limit ≤ (Encloser.afterAll [] tokens).length then
    "nesting too deep"
  else "expected " ++ wantedBehind tokens ++ ", found " ++ token.describe

end Token

namespace Phrase

/-- No operand is wanted behind a phrase. -/
theorem wantsOperand_append {level : Nat} {tokens : List Token} {f : Formula}
    (phrase : Phrase level tokens f) (front : List Token) :
    Token.wantsOperand (front ++ tokens) = false := by
  induction phrase generalizing front with
  | var name => simp [Token.wantsOperand]
  | const value => simp [Token.wantsOperand]
  | neg operand ih =>
    have hoperand := ih (front ++ [.neg])
    rwa [List.append_assoc] at hoperand
  | group inner _ =>
    rw [← List.cons_append, ← List.append_assoc, Token.wantsOperand, List.getLast?_concat]
  | tighter _ _ ih => exact ih front
  | @chain lefts rights _ _ op _ _ _ ihl =>
    have hlast := ihl (front ++ lefts ++ [.connective op])
    rw [List.append_assoc, List.append_assoc] at hlast
    exact hlast

/-- A phrase closes the brackets that it opens. -/
theorem count_closeBracket {level : Nat} {tokens : List Token} {f : Formula}
    (phrase : Phrase level tokens f) :
    tokens.count .closeBracket = tokens.count .openBracket := by
  induction phrase with
  | var _ => rfl
  | const _ => rfl
  | neg _ ih => simpa using ih
  | group _ ih => simp [ih]
  | tighter _ _ ih => exact ih
  | chain _ _ _ ihf ihl => simp [ihf, ihl]

end Phrase

namespace Reading

variable {limit : Nat}

/-- An operand is wanted behind what waits for one. -/
theorem Pending.wantsOperand {tokens : List Token} {stack : List Frame}
    (h : Pending tokens stack) : Token.wantsOperand tokens = true := by
  cases h <;> simp [Token.wantsOperand]

/-- The brackets that are open are those of the stack. -/
theorem Pending.count_openBracket {tokens : List Token} {stack : List Frame}
    (h : Pending tokens stack) :
    tokens.count .openBracket = tokens.count .closeBracket + stack.countP Frame.isGroup := by
  induction h with
  | nil => rfl
  | group _ ih =>
    simp [List.countP_cons, ih, Frame.isGroup]
    omega
  | negation _ ih => simp [ih, Frame.isGroup]
  | operand op _ _ phrase ih =>
    simp [ih, Frame.isGroup, phrase.count_closeBracket]
    omega

theorem Pending.leavesOpen {tokens : List Token} {stack : List Frame} (h : Pending tokens stack) :
    Token.leavesOpen tokens = stack.any Frame.isGroup := by
  rw [Bool.eq_iff_iff, Token.leavesOpen, decide_eq_true_iff, h.count_openBracket, List.any_eq_true,
    ← List.countP_pos_iff]
  omega

/-- A reading asks for what the tokens read so far tell. -/
theorem Reads.wanted_eq {tokens : List Token} {reading : Reading} (h : Reads tokens reading) :
    reading.wanted = Token.wantedBehind tokens := by
  cases h with
  | wanting h => rw [wanted, Token.wantedBehind, h.wantsOperand, if_pos rfl]
  | @holding front operand stack value h _ phrase =>
    have hopen : Token.leavesOpen (front ++ operand) = stack.any Frame.isGroup := by
      rw [← h.leavesOpen, Token.leavesOpen, Token.leavesOpen, List.count_append, List.count_append,
        phrase.count_closeBracket]
      simp
    rw [wanted, Token.wantedBehind, phrase.wantsOperand_append, hopen]
    rfl

/-- Where an operand may stand no negation waits for it. -/
theorem Pending.settled {tokens : List Token} {stack : List Frame} (h : Pending tokens stack)
    {level : Nat} (hbelow : Below level stack) : Settled stack := by
  induction h generalizing level with
  | nil => rfl
  | group _ _ => rfl
  | negation _ _ => exact absurd hbelow id
  | operand op _ below _ ih => exact ih below

/-- What the stack encloses is what encloses the token behind those read. -/
theorem Pending.enclosers_eq {tokens : List Token} {stack : List Frame}
    (h : Pending tokens stack) : Encloser.afterAll [] tokens = enclosers stack := by
  induction h with
  | nil => rfl
  | group _ ih =>
    rw [Encloser.afterAll_append, ih]
    rfl
  | negation _ ih =>
    rw [Encloser.afterAll_append, ih]
    rfl
  | operand op h below phrase ih =>
    rw [Encloser.afterAll_append, Encloser.afterAll_append, ih, Encloser.afterAll_phrase phrase,
      h.settled below]
    rfl

/-- The brackets that close those of a stack. -/
def closers (stack : List Frame) : List Token :=
  List.replicate (stack.countP Frame.isGroup) .closeBracket

/-- An operand and the closing brackets complete everything that waits on a stack. -/
theorem Pending.exists_phrase {tokens : List Token} {stack : List Frame}
    (h : Pending tokens stack) {level : Nat} {operand : List Token} {value : Formula}
    (phrase : Phrase level operand value) (hlevel : level ≤ Connective.levels)
    (hstack : level = Connective.levels ∨ Below level stack) :
    ∃ f, Phrase 0 (tokens ++ operand ++ closers stack) f := by
  induction h generalizing level operand value with
  | nil =>
    refine ⟨value, ?_⟩
    rw [List.nil_append, closers, List.countP_nil, List.replicate_zero, List.append_nil]
    exact phrase.weaken (Nat.zero_le level) hlevel
  | @group tokens stack _ ih =>
    have hgroup := Phrase.group (phrase.weaken (Nat.zero_le level) hlevel)
    obtain ⟨f, hf⟩ := ih hgroup (Nat.le_refl _) (Or.inl rfl)
    refine ⟨f, ?_⟩
    rw [closers, List.countP_cons_of_pos rfl, List.replicate_succ]
    simpa [closers] using hf
  | @negation tokens stack _ ih =>
    obtain rfl := hstack.resolve_right id
    obtain ⟨f, hf⟩ := ih (.neg phrase) (Nat.le_refl _) (Or.inl rfl)
    refine ⟨f, ?_⟩
    rw [closers, List.countP_cons_of_neg Bool.false_ne_true]
    simpa [closers] using hf
  | @operand tokens lefts stack left op _ below hleft ih =>
    have hop : op.precedence + 1 ≤ level := by
      rcases hstack with rfl | hbelow
      · exact op.precedence_lt_levels
      · exact hbelow
    have hchain := Phrase.chain op hleft (phrase.weaken hop hlevel)
    obtain ⟨f, hf⟩ := ih hchain (Nat.le_of_lt op.precedence_lt_levels) (Or.inr below)
    refine ⟨f, ?_⟩
    rw [closers, List.countP_cons_of_neg Bool.false_ne_true]
    simpa [closers] using hf

/-- What has been read can be completed by tokens that open nothing. -/
theorem Reads.exists_phrase {tokens : List Token} {reading : Reading} (h : Reads tokens reading) :
    ∃ more f, Phrase 0 (tokens ++ more) f ∧ ∀ token ∈ more, token.opens = false := by
  have hclosers (stack : List Frame) : ∀ token ∈ closers stack, token.opens = false := by
    intro token htoken
    rw [(List.mem_replicate.mp htoken).2]
    rfl
  cases h with
  | @wanting _ stack h =>
    obtain ⟨f, hf⟩ := h.exists_phrase (.var "p") (Nat.le_refl _) (Or.inl rfl)
    refine ⟨.var "p" :: closers stack, f, by simpa using hf, ?_⟩
    exact List.forall_mem_cons.mpr ⟨rfl, hclosers stack⟩
  | @holding _ _ stack _ h below phrase =>
    obtain ⟨f, hf⟩ := h.exists_phrase phrase (Nat.le_refl _) (Or.inl rfl)
    exact ⟨closers stack, f, hf, hclosers stack⟩

/-- A step opens nothing inside `limit` others. -/
theorem Reads.nestsWithin_step {tokens : List Token} {reading next : Reading} {lexeme : Lexeme}
    (h : Reads tokens reading) (hnests : Token.NestsWithin limit [] tokens)
    (hstep : step limit reading lexeme = .ok next) :
    Token.NestsWithin limit [] (tokens ++ [lexeme.token]) := by
  obtain ⟨token, place⟩ := lexeme
  refine (Token.nestsWithin_append limit [] tokens [token]).mpr ⟨hnests, fun hopens => ?_, trivial⟩
  have hnest {frame : Frame} {stack : List Frame} (h : Pending tokens stack)
      (hok : nest limit frame stack place = .ok next) :
      (Encloser.afterAll [] tokens).length < limit := by
    rw [h.enclosers_eq]
    by_cases hlt : (enclosers stack).length < limit
    · exact hlt
    · rw [nest_tooDeep (Nat.le_of_not_lt hlt)] at hok
      cases hok
  cases h with
  | wanting h =>
    cases token with
    | neg => exact hnest h hstep
    | openBracket => exact hnest h hstep
    | _ => cases hopens
  | holding _ _ _ =>
    cases token with
    | neg => cases hstep
    | openBracket => cases hstep
    | _ => cases hopens

/-- What is read opens nothing inside `limit` others. -/
theorem Reads.nestsWithin_foldlM {tokens : List Token} {reading next : Reading}
    {lexemes : List Lexeme} (h : Reads tokens reading)
    (hnests : Token.NestsWithin limit [] tokens)
    (hfold : lexemes.foldlM (step limit) reading = .ok next)
    (hend : ∀ l ∈ lexemes, l.token ≠ .ending) :
    Token.NestsWithin limit [] (tokens ++ lexemes.map Lexeme.token) := by
  induction lexemes generalizing tokens reading with
  | nil => simpa using hnests
  | cons l rest ih =>
    rw [List.foldlM_cons] at hfold
    cases hstep : step limit reading l with
    | error e =>
      rw [hstep] at hfold
      cases hfold
    | ok reading' =>
      rw [hstep] at hfold
      have hread := reads_step h hstep (hend l List.mem_cons_self)
      have hrest := ih hread (h.nestsWithin_step hnests hstep) hfold
        fun m hm => hend m (List.mem_cons_of_mem l hm)
      simpa [List.append_assoc] using hrest

/-- What has been read is the beginning of tokens that are read as a formula. -/
theorem exists_accepted {lexemes : List Lexeme} {reading : Reading}
    (hfold : lexemes.foldlM (step nestingLimit) (.wanting []) = .ok reading)
    (hend : ∀ l ∈ lexemes, l.token ≠ .ending) :
    ∃ more, Token.Accepted (lexemes.map Lexeme.token ++ more) := by
  have hreads := reads_foldlM (.wanting .nil) hfold hend
  have hnests := Reads.nestsWithin_foldlM (.wanting .nil) trivial hfold hend
  obtain ⟨more, f, phrase, hmore⟩ := hreads.exists_phrase
  rw [List.nil_append] at phrase hnests
  refine ⟨more, f, ?_⟩
  have hall : Token.NestsWithin nestingLimit [] (lexemes.map Lexeme.token ++ more) :=
    (Token.nestsWithin_append _ _ _ _).mpr ⟨hnests, Token.nestsWithin_of_not_opens _ _ hmore⟩
  have htokens : ((lexemes.map Lexeme.token ++ more).map (Lexeme.mk · 0)).map Lexeme.token =
      lexemes.map Lexeme.token ++ more := by
    simp [Function.comp_def]
  rw [List.map_append]
  exact Formula.ofLexemes_of_phrase (by rw [htokens]; exact phrase) (by rw [htokens]; exact hall)

/-- What a reading says of a token that it refuses. -/
theorem Reads.refusal_of_refuse {tokens : List Token} {reading : Reading}
    (h : Reads tokens reading) (limit : Nat) (lexeme : Lexeme)
    (hnot : Token.wantsOperand tokens = true → lexeme.token.opens = false) :
    ∃ complaint, reading.refuse lexeme = .malformed complaint lexeme.position ∧
      complaint.text = Token.refusal limit tokens lexeme.token := by
  refine ⟨.expected reading.wanted lexeme.token.describe, rfl, ?_⟩
  rw [Token.refusal, if_neg, ← h.wanted_eq]
  · rfl
  · rintro ⟨hwants, hopens, _⟩
    rw [hnot hwants] at hopens
    cases hopens

/-- What is said of a token that cannot stand behind those read. -/
theorem Reads.refusal_of_step {tokens : List Token} {reading : Reading} {lexeme : Lexeme}
    {e : Error} (h : Reads tokens reading) (hstep : step limit reading lexeme = .error e) :
    ∃ complaint, e = .malformed complaint lexeme.position ∧
      complaint.text = Token.refusal limit tokens lexeme.token := by
  obtain ⟨token, place⟩ := lexeme
  have hrefuse (hnot : Token.wantsOperand tokens = true → token.opens = false)
      (he : Except.error (reading.refuse ⟨token, place⟩) = (.error e : Except Error Reading)) :
      ∃ complaint, e = .malformed complaint place ∧
        complaint.text = Token.refusal limit tokens token := by
    obtain ⟨complaint, hcomplaint, htext⟩ := h.refusal_of_refuse limit ⟨token, place⟩ hnot
    exact ⟨complaint, (Except.error.inj he).symm.trans hcomplaint, htext⟩
  cases h with
  | @wanting _ stack h =>
    have hnest {frame : Frame} (hopens : token.opens = true)
        (herror : nest limit frame stack place = .error e) :
        ∃ complaint, e = .malformed complaint place ∧
          complaint.text = Token.refusal limit tokens token := by
      by_cases hlt : (enclosers stack).length < limit
      · rw [nest_ok hlt] at herror
        cases herror
      · have hle := Nat.le_of_not_lt hlt
        rw [nest_tooDeep hle] at herror
        cases herror
        refine ⟨.nestingTooDeep, rfl, ?_⟩
        rw [Token.refusal, if_pos ⟨h.wantsOperand, hopens, by rw [h.enclosers_eq]; exact hle⟩]
        rfl
    cases token with
    | var _ => cases hstep
    | const _ => cases hstep
    | neg => exact hnest rfl hstep
    | openBracket => exact hnest rfl hstep
    | connective _ => exact hrefuse (fun _ => rfl) hstep
    | closeBracket => exact hrefuse (fun _ => rfl) hstep
    | ending => exact hrefuse (fun _ => rfl) hstep
  | @holding front operand stack value _ _ phrase =>
    have hnot : Token.wantsOperand (front ++ operand) = true → token.opens = false := by
      intro hwants
      rw [phrase.wantsOperand_append] at hwants
      cases hwants
    cases token with
    | connective _ => cases hstep
    | closeBracket =>
      simp only [step] at hstep
      split at hstep
      · cases hstep
      · exact hrefuse hnot hstep
    | ending =>
      simp only [step] at hstep
      split at hstep
      · cases hstep
      · exact hrefuse hnot hstep
    | _ => exact hrefuse hnot hstep

end Reading

end Propositional
