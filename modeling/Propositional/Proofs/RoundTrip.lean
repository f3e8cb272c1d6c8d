import Propositional.Proofs.CanonicalNesting
import Propositional.Proofs.CanonicalText
import Propositional.Proofs.Chains

/-!
# Reading canonical texts back

The canonical text of a formula is read back as that formula, as long as its
brackets and negations nest within the limit.  Reading may accept a text whose
formula has a canonical text that nests deeper: a chain of connectives needs no
brackets in a source, but its canonical text brackets every link.

* `spellable_of_parse` — what has been read has names that can be written;
* `parse_render` — what a canonical text is read as;
* `parse_render_of_parse` — which formulas that have been read can be read back.
-/

namespace Propositional

/-- A variable of a formula stands among the tokens of its phrase. -/
theorem Phrase.mem_of_occurs {level : Nat} {tokens : List Token} {f : Formula}
    (phrase : Phrase level tokens f) {name : String} (h : name ∈ f.occurrences) :
    .var name ∈ tokens := by
  induction phrase with
  | var other =>
    rw [List.mem_singleton.mp h]
    exact List.mem_cons_self
  | const value => exact absurd h List.not_mem_nil
  | neg operand ih => exact List.mem_cons_of_mem _ (ih h)
  | group inner ih => exact List.mem_cons_of_mem _ (List.mem_append_left _ (ih h))
  | tighter hlevel phrase ih => exact ih h
  | chain op first last ihf ihl =>
    rcases List.mem_append.mp h with h | h
    · exact List.mem_append_left _ (ihf h)
    · exact List.mem_append_right _ (List.mem_cons_of_mem _ (ihl h))

namespace Formula

/-- What has been read has names that can be written. -/
theorem spellable_of_parse {source : String} {f : Formula} (h : parse source = .ok f) :
    f.Spellable := by
  intro name hname
  obtain ⟨front, htokens, phrase⟩ := exists_phrase_of_parse h
  obtain ⟨⟨token, place⟩, hlexeme, htoken⟩ := List.mem_map.mp (phrase.mem_of_occurs hname)
  cases htoken
  exact spellable_of_tokenize htokens (List.mem_append_left _ hlexeme)

/-- A canonical text that does not nest too deep is read back as the formula. -/
theorem parse_render_of_le {f : Formula} (h : f.Spellable)
    (hdepth : f.bracketDepth ≤ nestingLimit) : parse f.render = .ok f := by
  rw [parse_eq_of_tokenize (tokenize_render h)]
  exact ofLexemes_of_phrase (phrase_lexemes f 0)
    ((nestsWithin_lexemes_iff f nestingLimit 0).mpr hdepth)

/-- A canonical text that nests too deep is refused for its first bracket or negation inside too
many others. -/
theorem parse_render_of_lt {f : Formula} (h : f.Spellable)
    (hdepth : nestingLimit < f.bracketDepth) : ∃ complaint position,
      parse f.render = .error (.malformed complaint position) ∧
        complaint.text = "nesting too deep" ∧
        Text.FirstInside nestingLimit f.render.toList position := by
  cases hdeep : Lexeme.tooDeep? nestingLimit [] (f.lexemes 0) with
  | none =>
    have hnests := (Lexeme.tooDeep?_eq_none_iff nestingLimit [] (f.lexemes 0)).mp hdeep
    have hle := (nestsWithin_lexemes_iff f nestingLimit 0).mp hnests
    omega
  | some deep =>
    refine ⟨.nestingTooDeep, deep.position, ?_, rfl, Text.firstInside_of_tooDeep? ?_⟩
    · rw [parse_eq_of_tokenize (tokenize_render h)]
      exact ofLexemes_tooDeep (phrase_lexemes f 0) hdeep
    · rw [tooDeep?_render h, hdeep]
      rfl

/-- The canonical text is read back as the formula if it does not nest too deep; if it does, the
first bracket or negation inside too many others is refused. -/
theorem parse_render (f : Formula) (h : f.Spellable) :
    (f.bracketDepth ≤ nestingLimit → parse f.render = .ok f) ∧
    (nestingLimit < f.bracketDepth → ∃ complaint position,
      parse f.render = .error (.malformed complaint position) ∧
        complaint.text = "nesting too deep" ∧
        Text.FirstInside nestingLimit f.render.toList position) :=
  ⟨parse_render_of_le h, parse_render_of_lt h⟩

/-- Names that are spelled like a connective are read back as names. -/
theorem parse_render_words :
    (bin .or (var "v") (neg (bin .xor (var "xor") (const true)))).Spellable ∧
      parse (bin .or (var "v") (neg (bin .xor (var "xor") (const true)))).render =
        .ok (bin .or (var "v") (neg (bin .xor (var "xor") (const true)))) :=
  ⟨by decide, (parse_render _ (by decide)).1 (by decide)⟩

/-- What has been read can be read back from its canonical text exactly if that does not nest too
deep. -/
theorem parse_render_of_parse (source : String) (f : Formula) (h : parse source = .ok f) :
    (parse f.render = .ok f ↔ f.bracketDepth ≤ nestingLimit) ∧
    (nestingLimit < f.bracketDepth → ∃ complaint position,
      parse f.render = .error (.malformed complaint position) ∧
        complaint.text = "nesting too deep" ∧
        Text.FirstInside nestingLimit f.render.toList position) := by
  have hspellable := spellable_of_parse h
  refine ⟨⟨?_, parse_render_of_le hspellable⟩, parse_render_of_lt hspellable⟩
  intro hread
  by_cases hle : f.bracketDepth ≤ nestingLimit
  · exact hle
  · obtain ⟨complaint, position, herror, _⟩ :=
      parse_render_of_lt hspellable (Nat.lt_of_not_le hle)
    rw [hread] at herror
    cases herror

/-- A chain of few links is read back with a bracket around every link but the last. -/
theorem parse_render_of_parse_chain :
    parse "p ^ q ^ r" = .ok (bin .and (bin .and (var "p") (var "q")) (var "r")) ∧
      parse "(p ^ q) ^ r" = .ok (bin .and (bin .and (var "p") (var "q")) (var "r")) :=
  ⟨rfl, (parse_render_of_parse "p ^ q ^ r" (bin .and (bin .and (var "p") (var "q")) (var "r"))
    rfl).1.mpr (by decide)⟩

/-- A chain of 258 conjunctions is read but cannot be read back: its canonical text nests 257
brackets. -/
theorem parse_render_chain_ne :
    parse (chainText 258) = .ok (chain 258) ∧ parse (chain 258).render ≠ .ok (chain 258) := by
  refine ⟨parse_chainText 258, ?_⟩
  intro hread
  have hdepth : nestingLimit < (chain 258).bracketDepth := by
    rw [bracketDepth_chain]
    decide
  obtain ⟨complaint, position, herror, _⟩ :=
    parse_render_of_lt (spellable_of_parse (parse_chainText 258)) hdepth
  rw [hread] at herror
  cases herror

end Formula

end Propositional
