import Propositional.Graph.FormulaGraph
import Propositional.Proofs.RoundTrip
import Propositional.Source

/-!
# Brackets and blanks are all that a canonical text changes

Without its brackets and its end a text that is read as a formula is the
variables, constants, negations and connectives of the formula from left to
right.  The canonical text is one of these texts, so it has the same ones in the
same order, whatever brackets and blanks the source had.

* `Phrase.contents_eq` — the tokens of a phrase, brackets apart, are those of the
  formula in order;
* `length_inOrder`, `var_mem_inOrder_iff` — how many there are, and which
  variables;
* `contents_of_parse` — a text and the canonical text of its formula.
-/

namespace Propositional

namespace Token

/-- Is the token neither a bracket nor the end of the text? -/
def isContent : Token → Bool
  | openBracket | closeBracket | ending => false
  | var _ | const _ | neg | connective _ => true

end Token

/-- The tokens of the lexemes, without brackets and the end of the text. -/
def Lexeme.contents (lexemes : List Lexeme) : List Token :=
  (lexemes.map token).filter Token.isContent

namespace Formula

/-- The nodes of the formula from left to right, as tokens. -/
def inOrder : Formula → List Token
  | const value => [.const value]
  | var name => [.var name]
  | neg operand => .neg :: operand.inOrder
  | bin op left right => left.inOrder ++ .connective op :: right.inOrder

/-- There is a token for each occurrence of a subformula. -/
theorem length_inOrder (f : Formula) : f.inOrder.length = f.size := by
  induction f with
  | const _ => rfl
  | var _ => rfl
  | neg _ ih => rw [inOrder, List.length_cons, ih, size]
  | bin _ _ _ ihl ihr =>
    rw [inOrder, List.length_append, List.length_cons, ihl, ihr, size, Nat.add_assoc]

/-- The variables among the tokens are those that occur. -/
theorem var_mem_inOrder_iff {name : String} {f : Formula} :
    .var name ∈ f.inOrder ↔ name ∈ f.occurrences := by
  induction f with
  | const _ => simp [inOrder, occurrences]
  | var _ => simp [inOrder, occurrences]
  | neg _ ih => simp [inOrder, occurrences, ih]
  | bin _ _ _ ihl ihr => simp [inOrder, occurrences, ihl, ihr]

end Formula

/-- The tokens of a phrase, brackets apart, are those of the formula in order. -/
theorem Phrase.contents_eq {level : Nat} {tokens : List Token} {f : Formula}
    (phrase : Phrase level tokens f) : tokens.filter Token.isContent = f.inOrder := by
  induction phrase with
  | var _ => rfl
  | const _ => rfl
  | neg _ ih =>
    rw [List.filter_cons_of_pos rfl, ih]
    rfl
  | group _ ih =>
    rw [List.filter_cons_of_neg Bool.false_ne_true, List.filter_append, ih]
    exact List.append_nil _
  | tighter _ _ ih => exact ih
  | chain _ _ _ ihf ihl =>
    rw [List.filter_append, List.filter_cons_of_pos rfl, ihf, ihl]
    rfl

namespace Lexeme

/-- The end of a text is dropped. -/
theorem contents_append_ending {front : List Lexeme} {f : Formula}
    (phrase : Phrase 0 (front.map token) f) (position : Nat) :
    contents (front ++ [⟨.ending, position⟩]) = f.inOrder := by
  rw [contents, List.map_append, List.filter_append, phrase.contents_eq]
  exact List.append_nil _

theorem var_mem_contents_iff {name : String} {lexemes : List Lexeme} :
    .var name ∈ contents lexemes ↔ .var name ∈ lexemes.map token :=
  List.mem_filter.trans (and_iff_left rfl)

end Lexeme

namespace Formula

/-- A text that is read as a formula and the canonical text of the formula have the same tokens in
the same order, brackets and the end apart.  Their variables are the names that the text is read
with, and there are as many of them as nodes in the graph. -/
theorem contents_of_parse (source : String) (f : Formula) (h : parse source = .ok f) :
    ∃ lexemes rendered, tokenize source = .ok lexemes ∧ tokenize f.render = .ok rendered ∧
      Lexeme.contents rendered = Lexeme.contents lexemes ∧
      (∃ parsed, ParsedFormula.ofText source = .ok parsed ∧ parsed.formula = f ∧
        Names.Ordered parsed.names ∧
        ∀ name, name ∈ parsed.names ↔ .var name ∈ lexemes.map Lexeme.token) ∧
      (FormulaGraph.ofFormula f).nodeCount = (Lexeme.contents lexemes).length := by
  obtain ⟨front, htokens, phrase⟩ := exists_phrase_of_parse h
  have hcontents := Lexeme.contents_append_ending phrase source.length
  have hrendered := tokenize_render (spellable_of_parse h)
  have hparsed : ParsedFormula.ofText source = .ok ⟨f.freeVariables, f⟩ := by
    rw [ParsedFormula.ofText, h]
    rfl
  refine ⟨_, _, htokens, hrendered, ?_, ⟨_, hparsed, rfl, f.ordered_freeVariables, ?_⟩, ?_⟩
  · rw [Lexeme.contents_append_ending (phrase_lexemes f 0), hcontents]
  · intro name
    rw [mem_freeVariables, ← var_mem_inOrder_iff, ← hcontents, Lexeme.var_mem_contents_iff]
  · rw [FormulaGraph.nodeCount_ofFormula, hcontents, length_inOrder]

/-- Brackets that are not needed are left out of the canonical text. -/
theorem contents_of_parse_bracketed :
    parse "((p) ^ ~(xor))" = .ok (bin .and (var "p") (neg (var "xor"))) ∧
      ∃ lexemes rendered, tokenize "((p) ^ ~(xor))" = .ok lexemes ∧
        tokenize (bin .and (var "p") (neg (var "xor"))).render = .ok rendered ∧
        Lexeme.contents rendered = Lexeme.contents lexemes ∧
        (∃ parsed, ParsedFormula.ofText "((p) ^ ~(xor))" = .ok parsed ∧
          parsed.formula = bin .and (var "p") (neg (var "xor")) ∧
          Names.Ordered parsed.names ∧
          ∀ name, name ∈ parsed.names ↔ .var name ∈ lexemes.map Lexeme.token) ∧
        (FormulaGraph.ofFormula (bin .and (var "p") (neg (var "xor")))).nodeCount =
          (Lexeme.contents lexemes).length := by
  have hparse : parse "((p) ^ ~(xor))" = .ok (bin .and (var "p") (neg (var "xor"))) := by
    rfl
  exact ⟨hparse, contents_of_parse _ _ hparse⟩

end Formula

end Propositional
