import Propositional.Formula.Depth
import Propositional.Proofs.Parsing

/-!
# Chains without brackets

A chain of conjunctions needs no brackets in a source text, however long it is,
and every link of it is an operand of the next.

* `parse_chainText` — a chain of every length is read;
* `bracketDepth_chain` — its canonical text nests as deep as it is long.
-/

namespace Propositional

namespace Formula

/-- The chain with the given number of conjunctions. -/
def chain : Nat → Formula
  | 0 => var "p"
  | n + 1 => bin .and (chain n) (var "p")

/-- The links of a chain as they stand in a source text. -/
def links (n : Nat) : List Char := (List.replicate n [' ', '^', ' ', 'p']).flatten

/-- The chain as a source text without brackets. -/
def chainText (n : Nat) : String := String.ofList ('p' :: links n)

/-- The runs of the links. -/
def linkRuns (n : Nat) : List Run :=
  (List.replicate n [.blank ' ' [], .sign '^', .blank ' ' [], .lower 'p' []]).flatten

/-- The tokens of the text of a chain. -/
def chainTokens (n : Nat) : List Token :=
  .var "p" :: (List.replicate n [.connective .and, .var "p"]).flatten

theorem chainTokens_succ (n : Nat) :
    chainTokens (n + 1) = chainTokens n ++ .connective .and :: [.var "p"] := by
  rw [chainTokens, List.replicate_succ', List.flatten_append]
  rfl

/-- No letter goes on into the links. -/
theorem apart_links (front : List Char) (n : Nat) : Run.Apart (front ++ ['p']) (links n) := by
  intro a ha b hb hkind
  rw [List.getLast?_concat] at ha
  cases ha
  cases n with
  | zero => cases hb
  | succ n =>
    cases hb
    cases hkind

/-- Every link makes four runs. -/
theorem ofText_links (n : Nat) : Run.ofText (links n) = linkRuns n := by
  induction n with
  | zero => rfl
  | succ n ih =>
    have happart : Run.Apart [' ', '^', ' ', 'p'] (links n) := apart_links [' ', '^', ' '] n
    have hlinks : links (n + 1) = [' ', '^', ' ', 'p'] ++ links n := rfl
    rw [hlinks, Run.ofText_append happart, ih]
    rfl

/-- Every link is read as its connective and its operand. -/
theorem exists_ofRuns_links (n position : Nat) : ∃ front place,
    Lexeme.ofRuns false position (linkRuns n) = .ok (front ++ [⟨.ending, place⟩]) ∧
      front.map Lexeme.token = (List.replicate n [.connective .and, .var "p"]).flatten := by
  induction n generalizing position with
  | zero => exact ⟨[], position, rfl, rfl⟩
  | succ n ih =>
    obtain ⟨front, place, hread, htokens⟩ := ih (position + 1 + 1 + 1 + 1)
    refine ⟨⟨.connective .and, position + 1⟩ :: ⟨.var "p", position + 1 + 1 + 1⟩ :: front, place,
      ?_, ?_⟩
    · show Except.map _ (Except.map _
        (Lexeme.ofRuns false (position + 1 + 1 + 1 + 1) (linkRuns n))) = _
      rw [hread]
      rfl
    · rw [List.replicate_succ, List.flatten_cons, List.map_cons, List.map_cons, htokens]
      rfl

/-- The text of a chain has the tokens of the chain. -/
theorem exists_tokenize_chainText (n : Nat) : ∃ front place,
    tokenize (chainText n) = .ok (front ++ [⟨.ending, place⟩]) ∧
      front.map Lexeme.token = chainTokens n := by
  have happart : Run.Apart ['p'] (links n) := apart_links [] n
  have htext : 'p' :: links n = ['p'] ++ links n := rfl
  obtain ⟨front, place, hread, htokens⟩ := exists_ofRuns_links n 1
  refine ⟨⟨.var "p", 0⟩ :: front, place, ?_, ?_⟩
  · rw [tokenize, chainText, String.toList_ofList, htext, Run.ofText_append happart, ofText_links]
    show Except.map _ (Lexeme.ofRuns false 1 (linkRuns n)) = _
    rw [hread]
    rfl
  · rw [List.map_cons, htokens]
    rfl

/-- The tokens of a chain are a phrase for it: every link groups to the left. -/
theorem phrase_chainTokens (n : Nat) :
    Phrase Connective.and.precedence (chainTokens n) (chain n) := by
  induction n with
  | zero => exact .tighter (by decide) (.var "p")
  | succ n ih =>
    rw [chainTokens_succ]
    exact .chain .and ih (.var "p")

theorem nestsWithin_chainTokens (limit n : Nat) : Token.NestsWithin limit [] (chainTokens n) := by
  have hopens : ∀ token ∈ chainTokens n, token.opens = false := by
    intro token htoken
    rcases List.mem_cons.mp htoken with rfl | htoken
    · rfl
    · obtain ⟨link, hlink, htoken⟩ := List.mem_flatten.mp htoken
      rw [List.eq_of_mem_replicate hlink] at htoken
      rcases List.mem_cons.mp htoken with rfl | htoken
      · rfl
      · rw [List.mem_singleton.mp htoken]
        rfl
  exact Token.nestsWithin_of_not_opens limit [] hopens

/-- A chain of every length is read from its text without brackets. -/
theorem parse_chainText (n : Nat) : parse (chainText n) = .ok (chain n) := by
  obtain ⟨front, place, htokenize, htokens⟩ := exists_tokenize_chainText n
  have phrase : Phrase 0 (front.map Lexeme.token) (chain n) := by
    rw [htokens]
    exact (phrase_chainTokens n).weaken (Nat.zero_le _) (by decide)
  rw [parse_eq_of_tokenize htokenize]
  exact ofLexemes_of_phrase phrase (htokens ▸ nestsWithin_chainTokens nestingLimit n)

/-- The canonical text of a chain brackets every link but the last. -/
theorem bracketDepth_chain (n : Nat) : (chain (n + 1)).bracketDepth = n := by
  induction n with
  | zero => rfl
  | succ n ih =>
    have hlink : (chain (n + 1)).operandDepth = n + 1 := by
      rw [chain, operandDepth_bin, Nat.add_comm]
      exact congrArg (· + 1) ih
    rw [chain, bracketDepth_bin, hlink]
    exact Nat.max_eq_left (Nat.zero_le _)

end Formula

end Propositional
