import Propositional.Formula.Grammar
import Propositional.Lexeme.Nesting

/-!
# What encloses the tokens of a phrase

* `afterAll_phrase` — behind a phrase only those brackets and negations are left
  that the operand does not complete;
* `nesting_le_iff` — how deep tokens nest, told by what opens too deep;
* `Phrase.nestsWithin_append_iff` — a bracket around a phrase adds a level to it;
* `tooDeep?_append` — the search for a lexeme that opens too deep, in two parts;
* `tooDeep?_eq_none_iff` — it finds nothing exactly if nothing opens too deep.
-/

namespace Propositional

namespace Encloser

/-- What encloses the token behind a sequence of tokens. -/
def afterAll (enclosers : List Encloser) (tokens : List Token) : List Encloser :=
  tokens.foldl after enclosers

theorem afterAll_append (enclosers : List Encloser) (front back : List Token) :
    afterAll enclosers (front ++ back) = afterAll (afterAll enclosers front) back :=
  List.foldl_append

/-- A token that opens nothing lets no more enclose the token behind it. -/
theorem length_after_le_of_not_opens (enclosers : List Encloser) {token : Token}
    (h : token.opens = false) : (after enclosers token).length ≤ enclosers.length := by
  have hsettle := length_settle_le enclosers
  have hdrop := length_settle_le (enclosers.drop 1)
  rw [List.length_drop] at hdrop
  cases token with
  | neg => cases h
  | openBracket => cases h
  | var _ => exact hsettle
  | const _ => exact hsettle
  | closeBracket =>
    rw [after]
    omega
  | connective _ => exact Nat.le_refl _
  | ending => exact Nat.le_refl _

theorem length_after_of_opens (enclosers : List Encloser) {token : Token}
    (h : token.opens = true) : (after enclosers token).length = enclosers.length + 1 := by
  cases token with
  | neg => rfl
  | openBracket => rfl
  | _ => cases h

/-- A token is enclosed by at most one thing more than the token in front of it. -/
theorem length_after_le (enclosers : List Encloser) (token : Token) :
    (after enclosers token).length ≤ enclosers.length + 1 := by
  by_cases hopens : token.opens = true
  · exact Nat.le_of_eq (length_after_of_opens enclosers hopens)
  · exact Nat.le_succ_of_le
      (length_after_le_of_not_opens enclosers (Bool.not_eq_true _ ▸ hopens))

/-- Behind a phrase the negations that waited for it are gone, and nothing else is. -/
theorem afterAll_phrase {level : Nat} {tokens : List Token} {f : Formula}
    (phrase : Phrase level tokens f) (enclosers : List Encloser) :
    afterAll enclosers tokens = settle enclosers := by
  induction phrase generalizing enclosers with
  | var name => rfl
  | const value => rfl
  | neg operand ih => exact ih (negation :: enclosers)
  | group inner ih =>
    show afterAll (bracket :: enclosers) (_ ++ [.closeBracket]) = _
    rw [afterAll_append, ih (bracket :: enclosers)]
    rfl
  | tighter h phrase ih => exact ih enclosers
  | chain op first last ihf ihl =>
    rw [afterAll_append, ihf enclosers]
    exact (ihl (settle enclosers)).trans (settle_settle enclosers)

/-- A bracket under the enclosers keeps what settles above it from what is below. -/
theorem settle_append (enclosers outer : List Encloser) :
    settle (enclosers ++ bracket :: outer) = settle enclosers ++ bracket :: outer := by
  induction enclosers with
  | nil => rfl
  | cons e rest ih =>
    cases e with
    | bracket => rfl
    | negation => exact ih

end Encloser

namespace Token

/-- No bracket or negation opens inside `limit` others, if `enclosers` enclose the first token. -/
def NestsWithin (limit : Nat) (enclosers : List Encloser) : List Token → Prop
  | [] => True
  | token :: rest =>
    (token.opens = true → enclosers.length < limit) ∧
      NestsWithin limit (Encloser.after enclosers token) rest

/-- A token that opens nothing stands at any depth. -/
theorem nestsWithin_cons_of_not_opens {limit : Nat} {enclosers : List Encloser} {token : Token}
    {rest : List Token} (h : token.opens = false) :
    NestsWithin limit enclosers (token :: rest) ↔
      NestsWithin limit (Encloser.after enclosers token) rest := by
  rw [NestsWithin, h]
  exact and_iff_right fun hopens => absurd hopens Bool.false_ne_true

theorem nestsWithin_cons_of_opens {limit : Nat} {enclosers : List Encloser} {token : Token}
    {rest : List Token} (h : token.opens = true) :
    NestsWithin limit enclosers (token :: rest) ↔
      enclosers.length < limit ∧ NestsWithin limit (Encloser.after enclosers token) rest := by
  rw [NestsWithin]
  exact and_congr_left fun _ => forall_prop_of_true h

/-- A token that opens nothing nests within every limit. -/
theorem nestsWithin_singleton (limit : Nat) (enclosers : List Encloser) {token : Token}
    (h : token.opens = false) : NestsWithin limit enclosers [token] :=
  (nestsWithin_cons_of_not_opens h).mpr trivial

theorem nestsWithin_append (limit : Nat) (enclosers : List Encloser) (front back : List Token) :
    NestsWithin limit enclosers (front ++ back) ↔
      NestsWithin limit enclosers front ∧
        NestsWithin limit (Encloser.afterAll enclosers front) back := by
  induction front generalizing enclosers with
  | nil => simp [NestsWithin, Encloser.afterAll]
  | cons token rest ih =>
    simp only [List.cons_append, NestsWithin, ih, and_assoc]
    rfl

theorem nestsWithin_iff (limit : Nat) (enclosers : List Encloser) (tokens : List Token) :
    NestsWithin limit enclosers tokens ↔
      ∀ pair ∈ tokens.zip (depths enclosers tokens), pair.1.opens = true → pair.2 < limit := by
  induction tokens generalizing enclosers with
  | nil => simp [NestsWithin]
  | cons token rest ih => simp [NestsWithin, depths, ih]

theorem nestsBelow_iff (limit : Nat) (tokens : List Token) :
    NestsBelow limit tokens ↔ NestsWithin limit [] tokens :=
  (nestsWithin_iff limit [] tokens).symm

theorem nestsWithin_of_not_opens (limit : Nat) (enclosers : List Encloser) {tokens : List Token}
    (h : ∀ token ∈ tokens, token.opens = false) : NestsWithin limit enclosers tokens := by
  induction tokens generalizing enclosers with
  | nil => trivial
  | cons token rest ih =>
    rw [nestsWithin_cons_of_not_opens (h token List.mem_cons_self)]
    exact ih _ fun other hother => h other (List.mem_cons_of_mem _ hother)

/-- No sequence of tokens nests deeper than it is long. -/
theorem nestsWithin_length (enclosers : List Encloser) (tokens : List Token) :
    NestsWithin (enclosers.length + tokens.length) enclosers tokens := by
  have grow (limit : Nat) (h : enclosers.length + tokens.length ≤ limit) :
      NestsWithin limit enclosers tokens := by
    induction tokens generalizing enclosers with
    | nil => trivial
    | cons token rest ih =>
      have hlength : enclosers.length + rest.length + 1 ≤ limit := h
      refine ⟨fun _ => by omega, ih _ ?_⟩
      have hafter := Encloser.length_after_le enclosers token
      omega
  exact grow _ (Nat.le_refl _)

/-- The greatest of some numbers is within the limit exactly if all of them are. -/
theorem foldl_max_le_iff (numbers : List Nat) (start limit : Nat) :
    numbers.foldl max start ≤ limit ↔ start ≤ limit ∧ ∀ n ∈ numbers, n ≤ limit := by
  induction numbers generalizing start with
  | nil => simp
  | cons n rest ih =>
    rw [List.foldl_cons, ih, List.forall_mem_cons, Nat.max_le, and_assoc]

/-- All tokens and what they open stay within a limit exactly if nothing opens inside `limit`
others. -/
theorem forall_nesting_le_iff {limit : Nat} (tokens : List Token) {enclosers : List Encloser}
    (hlimit : enclosers.length ≤ limit) :
    (∀ n ∈ (tokens.zip (depths enclosers tokens)).map
        (fun pair => if pair.1.opens then pair.2 + 1 else pair.2), n ≤ limit) ↔
      NestsWithin limit enclosers tokens := by
  induction tokens generalizing enclosers with
  | nil => simp [NestsWithin]
  | cons token rest ih =>
    rw [depths, List.zip_cons_cons, List.map_cons, List.forall_mem_cons]
    by_cases hopens : token.opens = true
    · rw [if_pos hopens, nestsWithin_cons_of_opens hopens]
      refine and_congr_right fun hlt => ih ?_
      rw [Encloser.length_after_of_opens enclosers hopens]
      exact hlt
    · rw [if_neg hopens, nestsWithin_cons_of_not_opens (Bool.not_eq_true _ ▸ hopens)]
      have hafter := Encloser.length_after_le_of_not_opens enclosers (Bool.not_eq_true _ ▸ hopens)
      exact (and_iff_right hlimit).trans (ih (Nat.le_trans hafter hlimit))

/-- Tokens nest no deeper than the limit exactly if nothing opens inside `limit` others. -/
theorem nesting_le_iff (limit : Nat) (tokens : List Token) :
    nesting tokens ≤ limit ↔ NestsWithin limit [] tokens := by
  rw [nesting, foldl_max_le_iff, and_iff_right (Nat.zero_le limit)]
  exact forall_nesting_le_iff tokens (Nat.zero_le limit)

end Token

/-- Inside a bracket a phrase nests as deep as by itself, and the bracket and what is around it
add to that. -/
theorem Phrase.nestsWithin_append_iff {level : Nat} {tokens : List Token} {f : Formula}
    (phrase : Phrase level tokens f) (limit : Nat) (enclosers outer : List Encloser) :
    Token.NestsWithin (limit + outer.length + 1) (enclosers ++ .bracket :: outer) tokens ↔
      Token.NestsWithin limit enclosers tokens := by
  have hlength (enclosers : List Encloser) :
      (enclosers ++ Encloser.bracket :: outer).length < limit + outer.length + 1 ↔
        enclosers.length < limit := by
    rw [List.length_append, List.length_cons]
    omega
  induction phrase generalizing enclosers with
  | var name =>
    exact iff_of_true (Token.nestsWithin_singleton _ _ rfl) (Token.nestsWithin_singleton _ _ rfl)
  | const value =>
    exact iff_of_true (Token.nestsWithin_singleton _ _ rfl) (Token.nestsWithin_singleton _ _ rfl)
  | neg operand ih =>
    rw [Token.nestsWithin_cons_of_opens rfl, Token.nestsWithin_cons_of_opens rfl, hlength]
    exact and_congr_right fun _ => ih (.negation :: enclosers)
  | group inner ih =>
    rw [Token.nestsWithin_cons_of_opens rfl, Token.nestsWithin_cons_of_opens rfl, hlength,
      Token.nestsWithin_append, Token.nestsWithin_append,
      and_iff_left (Token.nestsWithin_singleton _ _ rfl),
      and_iff_left (Token.nestsWithin_singleton _ _ rfl)]
    exact and_congr_right fun _ => ih (.bracket :: enclosers)
  | tighter h phrase ih => exact ih enclosers
  | chain op first last ihf ihl =>
    rw [Token.nestsWithin_append, Token.nestsWithin_append, Encloser.afterAll_phrase first,
      Encloser.afterAll_phrase first, Encloser.settle_append,
      Token.nestsWithin_cons_of_not_opens rfl, Token.nestsWithin_cons_of_not_opens rfl]
    exact and_congr (ihf enclosers) (ihl (Encloser.settle enclosers))

namespace Lexeme

theorem tooDeep?_append (limit : Nat) (enclosers : List Encloser) (front back : List Lexeme) :
    tooDeep? limit enclosers (front ++ back) =
      (tooDeep? limit enclosers front).or
        (tooDeep? limit (Encloser.afterAll enclosers (front.map token)) back) := by
  induction front generalizing enclosers with
  | nil => rfl
  | cons lexeme rest ih =>
    rw [List.cons_append, tooDeep?, tooDeep?]
    split
    · rfl
    · exact ih (Encloser.after enclosers lexeme.token)

/-- Nothing is found exactly if no bracket or negation opens inside `limit` others. -/
theorem tooDeep?_eq_none_iff (limit : Nat) (enclosers : List Encloser) (lexemes : List Lexeme) :
    tooDeep? limit enclosers lexemes = none ↔
      Token.NestsWithin limit enclosers (lexemes.map token) := by
  induction lexemes generalizing enclosers with
  | nil => simp [tooDeep?, Token.NestsWithin]
  | cons lexeme rest ih =>
    rw [tooDeep?, List.map_cons, Token.NestsWithin, ← ih]
    split
    · rename_i h
      constructor
      · intro hnone
        cases hnone
      · intro hwithin
        have hlt := hwithin.1 h.1
        omega
    · rename_i h
      constructor
      · intro hrest
        refine ⟨fun hopens => ?_, hrest⟩
        have hle : ¬ limit ≤ enclosers.length := fun hle => h ⟨hopens, hle⟩
        omega
      · intro hwithin
        exact hwithin.2

end Lexeme

end Propositional
