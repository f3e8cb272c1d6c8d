import Propositional.Formula.Rank
import Propositional.Proofs.Bracketing
import Propositional.Proofs.Chains

/-!
# How high a formula is that has been read

The limit on nesting counts brackets and negations.  It bounds the height of what is
read as far as that comes from brackets, negations and the levels of connectives: a
chain of connectives of one level adds a step for each of its links, however long it
is, and nothing counts these.

* `Phrase.rank_le` — the limit bounds the rank, for which a chain is one step;
* `height_of_chainText` — a chain is as high as it is long;
* `height_of_parse` — the height of what has been read.
-/

namespace Propositional

/-- The rank of a phrase that nests within the limit.  What encloses the phrase, and how tight it
is, are taken off the levels that there are for it. -/
theorem Phrase.rank_le {level limit : Nat} {tokens : List Token} {f : Formula}
    (phrase : Phrase level tokens f) {enclosers : List Encloser}
    (hlimit : enclosers.length ≤ limit)
    (hsettled : level = Connective.levels ∨ Encloser.settle enclosers = enclosers)
    (hnests : Token.NestsWithin limit enclosers tokens) :
    f.rank + Connective.levels * enclosers.length + level ≤ Connective.levels * (limit + 1) ∧
      (level < Connective.levels → f.isOfLevel level = false →
        f.rank + Connective.levels * enclosers.length + (level + 1) ≤
          Connective.levels * (limit + 1)) := by
  induction phrase generalizing enclosers with
  | var name =>
    rw [Connective.levels, Formula.rank]
    omega
  | const value =>
    rw [Connective.levels, Formula.rank]
    omega
  | neg operand ih =>
    obtain ⟨hlt, hoperand⟩ := (Token.nestsWithin_cons_of_opens rfl).mp hnests
    have hrank := (@ih (.negation :: enclosers) hlt (Or.inl rfl) hoperand).1
    rw [Connective.levels, List.length_cons] at hrank
    rw [Connective.levels, Formula.rank]
    omega
  | group inner ih =>
    obtain ⟨hlt, hinner⟩ := (Token.nestsWithin_cons_of_opens rfl).mp hnests
    have hinner' := ((Token.nestsWithin_append _ _ _ _).mp hinner).1
    have hrank := (@ih (.bracket :: enclosers) hlt (Or.inr rfl) hinner').1
    rw [Connective.levels, List.length_cons] at hrank
    rw [Connective.levels]
    omega
  | @tighter level tokens f h phrase ih =>
    have hrank := (ih hlimit (Or.inr (hsettled.resolve_left (Nat.ne_of_lt h))) hnests).1
    exact ⟨by omega, fun _ _ => hrank⟩
  | @chain lefts rights left right op first last ihf ihl =>
    have hlevel := op.precedence_lt_levels
    have hsettled' := hsettled.resolve_left (Nat.ne_of_lt hlevel)
    obtain ⟨hfirst, hrest⟩ := (Token.nestsWithin_append _ _ _ _).mp hnests
    rw [Encloser.afterAll_phrase first, hsettled',
      Token.nestsWithin_cons_of_not_opens rfl] at hrest
    obtain ⟨hleft, hloose⟩ := ihf hlimit (Or.inr hsettled') hfirst
    have hright := (ihl hlimit (Or.inr hsettled') hrest).1
    refine ⟨?_, fun _ hnot => ?_⟩
    · rw [Formula.rank]
      by_cases hof : left.isOfLevel op.precedence = true
      · rw [if_pos hof]
        omega
      · have hleft' := hloose hlevel (Bool.eq_false_iff.mpr hof)
        rw [if_neg hof]
        omega
    · rw [Formula.isOfLevel, beq_self_eq_true] at hnot
      cases hnot

namespace Formula

/-- The rank of a formula that has been read, by how deep its text nests. -/
theorem rank_le_of_parse {source : String} {f : Formula} (h : parse source = .ok f) :
    f.rank ≤ Connective.levels * (sourceNesting source + 1) := by
  obtain ⟨front, htokenize, phrase⟩ := exists_phrase_of_parse h
  have hnests := (sourceNesting_le_iff htokenize _).mp (Nat.le_refl (sourceNesting source))
  exact (phrase.rank_le (Nat.zero_le _) (Or.inr rfl) hnests).1

/-- No text that has been read nests deeper than the limit. -/
theorem sourceNesting_le_of_parse {source : String} {f : Formula} (h : parse source = .ok f) :
    sourceNesting source ≤ nestingLimit := by
  obtain ⟨front, htokenize, phrase⟩ := exists_phrase_of_parse h
  rw [parse_eq_of_tokenize htokenize, ofLexemes_eq_ok_iff (ne_ending_of_phrase phrase),
    Token.nestsBelow_iff] at h
  exact (sourceNesting_le_iff htokenize _).mpr h.2

theorem height_chain (n : Nat) : (chain n).height = n + 1 := by
  induction n with
  | zero => rfl
  | succ n ih =>
    rw [chain, height, ih]
    exact congrArg (· + 1) (Nat.max_eq_left (Nat.succ_pos n))

theorem chainLength_chain (n : Nat) : (chain n).chainLength = n := by
  induction n with
  | zero => rfl
  | succ n ih =>
    rw [chain, chainLength, ih]
    cases n <;> rfl

theorem longestChain_chain (n : Nat) : (chain n).longestChain = n := by
  induction n with
  | zero => rfl
  | succ n ih =>
    have htop : (bin .and (chain n) (var "p")).chainLength = n + 1 := chainLength_chain (n + 1)
    rw [chain, longestChain, htop, ih, longestChain]
    omega

/-- Nothing in the text of a chain nests. -/
theorem sourceNesting_chainText (n : Nat) : sourceNesting (chainText n) = 0 := by
  obtain ⟨front, place, htokenize, htokens⟩ := exists_tokenize_chainText n
  refine Nat.le_zero.mp ((sourceNesting_le_iff htokenize 0).mpr ?_)
  rw [htokens]
  exact nestsWithin_chainTokens 0 n

/-- Chains of every length are read, and nothing in their texts nests: the limit bounds no height by
itself. -/
theorem height_of_chainText (n : Nat) :
    parse (chainText n) = .ok (chain n) ∧ sourceNesting (chainText n) = 0 ∧
      (chain n).longestChain = n ∧ (chain n).height = n + 1 :=
  ⟨parse_chainText n, sourceNesting_chainText n, longestChain_chain n, height_chain n⟩

/-- What has been read is no higher than its rank times its longest chain, and its rank is bounded
by how deep the text nests, which the limit bounds.  So the limit bounds the height of what has no
chain of two links and more. -/
theorem height_of_parse (source : String) (f : Formula) (h : parse source = .ok f) :
    f.height ≤ f.longestChain * f.rank + 1 ∧
      f.rank ≤ Connective.levels * (sourceNesting source + 1) ∧
      sourceNesting source ≤ nestingLimit ∧
      (f.longestChain ≤ 1 → f.height ≤ 6 * (nestingLimit + 1)) := by
  have hnesting := sourceNesting_le_of_parse h
  have hrank := rank_le_of_parse h
  refine ⟨f.height_le, hrank, hnesting, fun hchain => ?_⟩
  have hheight : f.height ≤ f.rank + 1 := by
    have hmul := Nat.mul_le_mul_right f.rank hchain
    have hle := f.height_le
    omega
  rw [Connective.levels] at hrank
  omega

/-- Without chains of two links, levels and brackets alone make the height. -/
theorem height_of_parse_bracketed :
    parse "~(p -> q v r) ^ s" = .ok (bin .and (neg (bin .conditional (var "p")
        (bin .or (var "q") (var "r")))) (var "s")) ∧
      (bin .and (neg (bin .conditional (var "p") (bin .or (var "q") (var "r"))))
        (var "s")).longestChain ≤ 1 ∧
      (bin .and (neg (bin .conditional (var "p") (bin .or (var "q") (var "r"))))
        (var "s")).height ≤ 6 * (nestingLimit + 1) := by
  have h : parse "~(p -> q v r) ^ s" = .ok (bin .and (neg (bin .conditional (var "p")
      (bin .or (var "q") (var "r")))) (var "s")) := by rfl
  have hchain : (bin .and (neg (bin .conditional (var "p") (bin .or (var "q") (var "r"))))
      (var "s")).longestChain ≤ 1 := by decide
  exact ⟨h, hchain, (height_of_parse _ _ h).2.2.2 hchain⟩

/-- A chain of 1542 conjunctions is read, and it is higher than six times the levels that may
nest. -/
theorem height_of_parse_chain_gt :
    parse (chainText 1542) = .ok (chain 1542) ∧
      ¬ (chain 1542).height ≤ 6 * (nestingLimit + 1) := by
  obtain ⟨hparse, _, _, hheight⟩ := height_of_chainText 1542
  refine ⟨hparse, ?_⟩
  rw [hheight]
  decide

end Formula

end Propositional
