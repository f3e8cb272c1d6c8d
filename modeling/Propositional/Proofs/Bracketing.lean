import Propositional.Proofs.CanonicalText
import Propositional.Proofs.Parsing

/-!
# Source texts in brackets

A source text in brackets is read as it is by itself, whatever its first and its last
word are: a word `v` or `xor` at an end of the text has no blank beside it there, and
behind a bracket or in front of one it has none either.  Only the limit on nesting
sees the bracket.

* `Lexeme.Scan.exists_closed` — a closing bracket may stand in place of the end;
* `Lexeme.exists_ofRuns_bracketed` — the lexemes of a text in brackets;
* `parse_bracketed` — what texts in brackets are read as, alone, negated and joined.
-/

namespace Propositional

namespace Token

/-- What spells a token in front of runs that no word goes on into spells it in front of others of
that sort. -/
theorem SpelledBy.append {afterBlank : Bool} {word rest : List Run} {token : Token}
    (h : SpelledBy afterBlank rest word token) {more : List Run}
    (hmore : Lexeme.startsBlank more = false) : SpelledBy afterBlank (rest ++ more) word token := by
  have hsame : Lexeme.startsBlank (rest ++ more) = Lexeme.startsBlank rest := by
    cases rest with
    | nil => exact hmore
    | cons run others => cases run <;> rfl
  cases h with
  | word first letters =>
    rw [← hsame]
    exact .word first letters
  | keyword h => exact .keyword h
  | biconditional => exact .biconditional
  | conditional => exact .conditional
  | sign h => exact .sign h

end Token

namespace Lexeme

/-- A closing bracket is read as one whatever stands in front of it. -/
theorem ofRuns_closeBracket (afterBlank : Bool) (position : Nat) (rest : List Run) :
    ofRuns afterBlank position (.sign ')' :: rest) =
      (ofRuns false (position + 1) rest).map (⟨.closeBracket, position⟩ :: ·) := rfl

/-- Runs that are read as lexemes are read as the same tokens, from any position on, where a
closing bracket stands in place of the end. -/
theorem Scan.exists_closed {afterBlank : Bool} {position : Nat} {runs : List Run}
    {result : Except Error (List Lexeme)} (h : Scan afterBlank position runs result)
    (rest : List Run) :
    ∀ front place, result = .ok (front ++ [⟨.ending, place⟩]) → ∀ start, ∃ inner,
      inner.map Lexeme.token = front.map Lexeme.token ∧
        ofRuns afterBlank start (runs ++ .sign ')' :: rest) =
          (ofRuns false (start + (runs.flatMap Run.text).length + 1) rest).map
            (inner ++ ⟨.closeBracket, start + (runs.flatMap Run.text).length⟩ :: ·) := by
  induction h with
  | ending afterBlank position =>
    intro front place hok start
    have hlexemes : [] ++ [⟨.ending, position⟩] = front ++ [⟨.ending, place⟩] :=
      Except.ok.inj hok
    obtain ⟨hfront, _⟩ := List.append_inj' hlexemes rfl
    exact ⟨[], by rw [← hfront], ofRuns_closeBracket afterBlank start rest⟩
  | @blank afterBlank position first more others result _ ih =>
    intro front place hok start
    obtain ⟨inner, htokens, hread⟩ := ih front place hok (start + (more.length + 1))
    refine ⟨inner, htokens, ?_⟩
    rw [List.cons_append, ofRuns, hread, List.flatMap_cons, List.length_append, Run.text,
      List.length_cons, Nat.add_assoc start]
  | @token afterBlank position word others token result spelled _ ih =>
    intro front place hok start
    cases result with
    | error e => cases hok
    | ok tail =>
      have hlexemes : ⟨token, position⟩ :: tail = front ++ [⟨.ending, place⟩] :=
        Except.ok.inj hok
      cases front with
      | nil =>
        obtain ⟨hending, _⟩ := List.cons.inj hlexemes
        exact absurd (congrArg Lexeme.token hending) spelled.ne_ending
      | cons lexeme front =>
        obtain ⟨rfl, rfl⟩ := List.cons.inj hlexemes
        obtain ⟨inner, htokens, hread⟩ :=
          ih front place rfl (start + (word.flatMap Run.text).length)
        refine ⟨⟨token, start⟩ :: inner, by rw [List.map_cons, List.map_cons, htokens], ?_⟩
        have hscan := scan_ofRuns false (start + (word.flatMap Run.text).length)
          (others ++ .sign ')' :: rest)
        have hmore : startsBlank (.sign ')' :: rest) = false := rfl
        rw [List.append_assoc, (Scan.token (spelled.append hmore) hscan).eq_ofRuns, hread,
          List.flatMap_append, List.length_append, Nat.add_assoc start]
        cases ofRuns false _ rest <;> rfl
  | unspelled _ =>
    intro front place hok
    cases hok

/-- A text with lexemes is read as their tokens in brackets, wherever these stand. -/
theorem exists_ofRuns_bracketed {source : String} {front : List Lexeme} {place : Nat}
    (h : tokenize source = .ok (front ++ [⟨.ending, place⟩])) (afterBlank : Bool) (start : Nat)
    (rest : List Char) :
    ∃ bracketed position,
      bracketed.map Lexeme.token = .openBracket :: (front.map Lexeme.token ++ [.closeBracket]) ∧
        ofRuns afterBlank start (Run.ofText ('(' :: (source.toList ++ ')' :: rest))) =
          (ofRuns false position (Run.ofText rest)).map (bracketed ++ ·) := by
  have hclosed : Run.Apart source.toList (')' :: rest) := by
    intro a _ b hb hkind
    cases hb
    exact hkind
  have hruns : Run.ofText (source.toList ++ ')' :: rest) =
      Run.ofText source.toList ++ .sign ')' :: Run.ofText rest := Run.ofText_append hclosed
  have hscan := scan_ofRuns false 0 (Run.ofText source.toList)
  obtain ⟨inner, htokens, hread⟩ := hscan.exists_closed (Run.ofText rest) front place h (start + 1)
  rw [Run.text_ofText, String.length_toList] at hread
  refine ⟨⟨.openBracket, start⟩ :: (inner ++ [⟨.closeBracket, start + 1 + source.length⟩]),
    start + 1 + source.length + 1, ?_, ?_⟩
  · rw [List.map_cons, List.map_append, htokens]
    rfl
  · show (ofRuns false (start + 1) (Run.ofText (source.toList ++ ')' :: rest))).map
      (⟨.openBracket, start⟩ :: ·) = _
    rw [hruns, hread]
    cases ofRuns false _ (Run.ofText rest) with
    | error e => rfl
    | ok others => simp [Except.map]

/-- Every spelling of a connective between blanks is read as that connective. -/
theorem ofRuns_spelling {op : Connective} {spelling : String}
    (h : Connective.ofSymbol? spelling = some op) (start : Nat) (rest : List Char) :
    ofRuns true start (Run.ofText (spelling.toList ++ ' ' :: rest)) =
      (ofRuns false (start + spelling.length) (Run.ofText (' ' :: rest))).map
        (⟨.connective op, start⟩ :: ·) := by
  rcases (Connective.ofSymbol?_eq_some_iff spelling op).mp h with rfl | ⟨rfl, rfl⟩
  · exact ofRuns_symbol op start rest
  · have happart : Run.Apart "XOR".toList (' ' :: rest) := by
      intro a ha b hb hkind
      cases hb
      cases ha
      cases hkind
    rw [Run.ofText_append happart]
    rfl

/-- The blanks around the spelling are skipped. -/
theorem ofRuns_between {op : Connective} {spelling : String}
    (h : Connective.ofSymbol? spelling = some op) (start : Nat) (rest : List Char) :
    ofRuns false start (Run.ofText (' ' :: (spelling.toList ++ ' ' :: '(' :: rest))) =
      (ofRuns true (start + 1 + spelling.length + 1) (Run.ofText ('(' :: rest))).map
        (⟨.connective op, start + 1⟩ :: ·) := by
  have hspelling : ∀ c, (spelling.toList ++ ' ' :: '(' :: rest).head? = some c →
      Kind.ofChar c ≠ .blank := by
    obtain ⟨c, tail, htext, hc⟩ : ∃ c tail, spelling.toList = c :: tail ∧
        Kind.ofChar c ≠ .blank := by
      rcases (Connective.ofSymbol?_eq_some_iff spelling op).mp h with rfl | ⟨rfl, _⟩
      · exact Formula.exists_cons_symbol op
      · exact ⟨'X', ['O', 'R'], rfl, by decide⟩
    rw [htext]
    intro d hd
    cases hd
    exact hc
  have hbracket : ∀ c, ('(' :: rest).head? = some c → Kind.ofChar c ≠ .blank := by
    intro c hc
    cases hc
    decide
  rw [ofRuns_blank start hspelling, ofRuns_spelling h, ofRuns_blank _ hbracket]

/-- The lexemes of a text in brackets, to the end of it. -/
theorem exists_tokenize_group {source : String} {front : List Lexeme} {place : Nat}
    (h : tokenize source = .ok (front ++ [⟨.ending, place⟩])) :
    ∃ lexemes position, tokenize ("(" ++ source ++ ")") = .ok (lexemes ++ [⟨.ending, position⟩]) ∧
      lexemes.map Lexeme.token = .openBracket :: (front.map Lexeme.token ++ [.closeBracket]) := by
  obtain ⟨bracketed, position, htokens, hread⟩ := exists_ofRuns_bracketed h false 0 []
  refine ⟨bracketed, position, ?_, htokens⟩
  rw [tokenize, String.toList_append, String.toList_append, List.append_assoc]
  exact hread

/-- A negation in front of the brackets is one more lexeme. -/
theorem exists_tokenize_neg {source : String} {front : List Lexeme} {place : Nat}
    (h : tokenize source = .ok (front ++ [⟨.ending, place⟩])) :
    ∃ lexemes position, tokenize ("~(" ++ source ++ ")") = .ok (lexemes ++ [⟨.ending, position⟩]) ∧
      lexemes.map Lexeme.token =
        .neg :: .openBracket :: (front.map Lexeme.token ++ [.closeBracket]) := by
  obtain ⟨bracketed, position, htokens, hread⟩ := exists_ofRuns_bracketed h false 1 []
  refine ⟨⟨.neg, 0⟩ :: bracketed, position, ?_, by rw [List.map_cons, htokens]⟩
  rw [tokenize, String.toList_append, String.toList_append, List.append_assoc]
  show (ofRuns false 1 (Run.ofText ('(' :: (source.toList ++ [')'])))).map (⟨.neg, 0⟩ :: ·) = _
  rw [hread]
  rfl

/-- So is a connective between two texts in brackets. -/
theorem exists_tokenize_joined {source other spelling : String} {front front' : List Lexeme}
    {place place' : Nat} {op : Connective}
    (h : tokenize source = .ok (front ++ [⟨.ending, place⟩]))
    (hother : tokenize other = .ok (front' ++ [⟨.ending, place'⟩]))
    (hspelling : Connective.ofSymbol? spelling = some op) :
    ∃ lexemes position, tokenize ("(" ++ source ++ ") " ++ spelling ++ " (" ++ other ++ ")") =
        .ok (lexemes ++ [⟨.ending, position⟩]) ∧
      lexemes.map Lexeme.token = .openBracket :: (front.map Lexeme.token ++ [.closeBracket]) ++
        .connective op :: .openBracket :: (front'.map Lexeme.token ++ [.closeBracket]) := by
  have htext : ("(" ++ source ++ ") " ++ spelling ++ " (" ++ other ++ ")").toList =
      '(' :: (source.toList ++ ')' :: ' ' :: (spelling.toList ++ ' ' :: '(' ::
        (other.toList ++ [')']))) := by
    simp [String.toList_append]
  obtain ⟨first, middle, hfirst, hread⟩ := exists_ofRuns_bracketed h false 0
    (' ' :: (spelling.toList ++ ' ' :: '(' :: (other.toList ++ [')'])))
  obtain ⟨last, position, hlast, hread'⟩ := exists_ofRuns_bracketed hother true
    (middle + 1 + spelling.length + 1) []
  refine ⟨first ++ ⟨.connective op, middle + 1⟩ :: last, position, ?_, ?_⟩
  · rw [tokenize, htext, hread, ofRuns_between hspelling, hread']
    simp [Run.ofText, ofRuns, Except.map]
  · rw [List.map_append, List.map_cons, hfirst, hlast]

end Lexeme

/-- How deep the brackets and negations of a source text stand inside one another. -/
def sourceNesting (source : String) : Nat :=
  match tokenize source with
  | .ok lexemes => Token.nesting (lexemes.map Lexeme.token)
  | .error _ => 0

/-- The end of a text nests nothing. -/
theorem sourceNesting_le_iff {source : String} {front : List Lexeme} {place : Nat}
    (h : tokenize source = .ok (front ++ [⟨.ending, place⟩])) (limit : Nat) :
    sourceNesting source ≤ limit ↔ Token.NestsWithin limit [] (front.map Lexeme.token) := by
  rw [sourceNesting, h]
  show Token.nesting ((front ++ [(⟨.ending, place⟩ : Lexeme)]).map Lexeme.token) ≤ limit ↔ _
  rw [Token.nesting_le_iff, List.map_append, Token.nestsWithin_append]
  exact and_iff_left (Token.nestsWithin_singleton _ _ rfl)

namespace Phrase

variable {level level' : Nat} {tokens others : List Token} {f g : Formula}

/-- Brackets around a phrase inside others nest within the limit if the phrase does so within what
these leave of it. -/
theorem nestsWithin_group_iff (phrase : Phrase level tokens f) (limit : Nat)
    (outer : List Encloser) :
    Token.NestsWithin (limit + outer.length + 1) outer
        (.openBracket :: (tokens ++ [.closeBracket])) ↔ Token.NestsWithin limit [] tokens := by
  have hlt : outer.length < limit + outer.length + 1 := by omega
  rw [Token.nestsWithin_cons_of_opens rfl, Token.nestsWithin_append, and_iff_right hlt,
    and_iff_left (Token.nestsWithin_singleton _ _ rfl)]
  exact phrase.nestsWithin_append_iff limit [] outer

/-- Two phrases in brackets with a connective between them nest within the limit if both do so
within one level less. -/
theorem nestsWithin_groups_iff (first : Phrase level tokens f) (last : Phrase level' others g)
    (op : Connective) (limit : Nat) :
    Token.NestsWithin (limit + 1) [] (.openBracket :: (tokens ++ [.closeBracket]) ++
        .connective op :: .openBracket :: (others ++ [.closeBracket])) ↔
      Token.NestsWithin limit [] tokens ∧ Token.NestsWithin limit [] others := by
  have hbehind : Encloser.afterAll [] (.openBracket :: (tokens ++ [.closeBracket])) = [] := by
    show Encloser.afterAll [.bracket] (tokens ++ [.closeBracket]) = []
    rw [Encloser.afterAll_append, Encloser.afterAll_phrase first]
    rfl
  have hconnective (rest : List Token) : Token.NestsWithin (limit + 1) [] (.connective op :: rest) ↔
      Token.NestsWithin (limit + 1) [] rest := Token.nestsWithin_cons_of_not_opens rfl
  rw [Token.nestsWithin_append, hbehind, hconnective]
  exact and_congr (first.nestsWithin_group_iff limit []) (last.nestsWithin_group_iff limit [])

end Phrase

namespace Formula

/-- The text is read as the formula on the condition, and otherwise refused for its nesting. -/
def ReadIf (condition : Prop) (source : String) (f : Formula) : Prop :=
  (condition → parse source = .ok f) ∧
    (¬ condition → ∃ complaint place, parse source = .error (.malformed complaint place) ∧
      complaint.text = "nesting too deep")

/-- A text whose tokens are a phrase is read on the condition that it nests within the limit. -/
theorem readIf_of_phrase {source : String} {front : List Lexeme} {place : Nat} {f : Formula}
    {condition : Prop} (h : tokenize source = .ok (front ++ [⟨.ending, place⟩]))
    (phrase : Phrase 0 (front.map Lexeme.token) f)
    (hnests : Token.NestsWithin nestingLimit [] (front.map Lexeme.token) ↔ condition) :
    ReadIf condition source f := by
  rw [ReadIf, parse_eq_of_tokenize h]
  refine ⟨fun hcondition => ofLexemes_of_phrase phrase (hnests.mpr hcondition), ?_⟩
  intro hnot
  cases hdeep : Lexeme.tooDeep? nestingLimit [] front with
  | none =>
    have hwithin := (Lexeme.tooDeep?_eq_none_iff nestingLimit [] front).mp hdeep
    exact absurd (hnests.mp hwithin) hnot
  | some deep => exact ⟨_, _, ofLexemes_tooDeep phrase hdeep, rfl⟩

/-- A text that is read as a formula is read as it in brackets, one level deeper. -/
theorem readIf_group {source : String} {f : Formula} (h : parse source = .ok f) :
    ReadIf (sourceNesting source + 1 ≤ nestingLimit) ("(" ++ source ++ ")") f := by
  obtain ⟨front, htokenize, phrase⟩ := exists_phrase_of_parse h
  obtain ⟨lexemes, position, hsource, htokens⟩ := Lexeme.exists_tokenize_group htokenize
  have hnests := phrase.nestsWithin_group_iff 255 []
  rw [← sourceNesting_le_iff htokenize] at hnests
  apply readIf_of_phrase hsource
  · rw [htokens]
    exact (Phrase.group phrase).weaken (Nat.zero_le _) (Nat.le_refl _)
  · rw [htokens]
    exact hnests.trans Nat.succ_le_succ_iff.symm

/-- In brackets behind a negation it is read as the negated formula, two levels deeper. -/
theorem readIf_neg {source : String} {f : Formula} (h : parse source = .ok f) :
    ReadIf (sourceNesting source + 2 ≤ nestingLimit) ("~(" ++ source ++ ")") (.neg f) := by
  obtain ⟨front, htokenize, phrase⟩ := exists_phrase_of_parse h
  obtain ⟨lexemes, position, hsource, htokens⟩ := Lexeme.exists_tokenize_neg htokenize
  have hnests := phrase.nestsWithin_group_iff 254 [.negation]
  rw [← sourceNesting_le_iff htokenize] at hnests
  have hlimit : ([] : List Encloser).length < nestingLimit := Nat.succ_pos 255
  apply readIf_of_phrase hsource
  · rw [htokens]
    exact (Phrase.neg (.group phrase)).weaken (Nat.zero_le _) (Nat.le_refl _)
  · rw [htokens, Token.nestsWithin_cons_of_opens rfl, and_iff_right hlimit]
    exact hnests.trans Nat.add_le_add_iff_right.symm

/-- Two texts in brackets with a connective between them are read as what it joins, one level
deeper. -/
theorem readIf_joined {source other spelling : String} {f g : Formula} {op : Connective}
    (h : parse source = .ok f) (hother : parse other = .ok g)
    (hspelling : Connective.ofSymbol? spelling = some op) :
    ReadIf (sourceNesting source + 1 ≤ nestingLimit ∧ sourceNesting other + 1 ≤ nestingLimit)
      ("(" ++ source ++ ") " ++ spelling ++ " (" ++ other ++ ")") (.bin op f g) := by
  obtain ⟨front, htokenize, phrase⟩ := exists_phrase_of_parse h
  obtain ⟨front', htokenize', phrase'⟩ := exists_phrase_of_parse hother
  obtain ⟨lexemes, position, hsource, htokens⟩ :=
    Lexeme.exists_tokenize_joined htokenize htokenize' hspelling
  have hnests := phrase.nestsWithin_groups_iff phrase' op 255
  rw [← sourceNesting_le_iff htokenize, ← sourceNesting_le_iff htokenize'] at hnests
  have hlevel := op.precedence_lt_levels
  have hleft := (Phrase.group phrase).weaken (Nat.le_of_lt hlevel) (Nat.le_refl _)
  have hright := (Phrase.group phrase').weaken (Nat.succ_le_of_lt hlevel) (Nat.le_refl _)
  apply readIf_of_phrase hsource
  · rw [htokens]
    exact (Phrase.chain op hleft hright).weaken (Nat.zero_le _) (Nat.le_of_lt hlevel)
  · rw [htokens]
    exact hnests.trans (and_congr Nat.succ_le_succ_iff.symm Nat.succ_le_succ_iff.symm)

/-- Texts that are read as formulas are read as the same formulas in brackets, alone, behind a
negation and on both sides of a connective, whatever words they begin and end with, as long as the
brackets and negations keep within the limit; if they do not, that is what is said of the text. -/
theorem parse_bracketed (source other spelling : String) (f g : Formula) (op : Connective)
    (h : parse source = .ok f) (hother : parse other = .ok g)
    (hspelling : Connective.ofSymbol? spelling = some op) :
    ReadIf (sourceNesting source + 1 ≤ nestingLimit) ("(" ++ source ++ ")") f ∧
    ReadIf (sourceNesting source + 1 ≤ nestingLimit ∧ sourceNesting other + 1 ≤ nestingLimit)
      ("(" ++ source ++ ") " ++ spelling ++ " (" ++ other ++ ")") (.bin op f g) ∧
    ReadIf (sourceNesting source + 2 ≤ nestingLimit) ("~(" ++ source ++ ")") (.neg f) :=
  ⟨readIf_group h, readIf_joined h hother hspelling, readIf_neg h⟩

/-- A variable `v` at the end of a text and a variable `xor` at the start of one stay variables in
brackets, with the connective `XOR` between them. -/
theorem parse_bracketed_words :
    parse "p ^ v" = .ok (bin .and (var "p") (var "v")) ∧
      parse "xor -> ~T" = .ok (bin .conditional (var "xor") (neg (const true))) ∧
      Connective.ofSymbol? "XOR" = some .xor ∧
      sourceNesting "p ^ v" = 0 ∧ sourceNesting "xor -> ~T" = 1 ∧
      parse ("(" ++ "p ^ v" ++ ") " ++ "XOR" ++ " (" ++ "xor -> ~T" ++ ")") =
        .ok (bin .xor (bin .and (var "p") (var "v"))
          (bin .conditional (var "xor") (neg (const true)))) := by
  have hfirst : parse "p ^ v" = .ok (bin .and (var "p") (var "v")) := by rfl
  have hlast : parse "xor -> ~T" = .ok (bin .conditional (var "xor") (neg (const true))) := by rfl
  have hspelling : Connective.ofSymbol? "XOR" = some .xor := by decide
  have hnesting : sourceNesting "p ^ v" = 0 ∧ sourceNesting "xor -> ~T" = 1 := ⟨by rfl, by rfl⟩
  refine ⟨hfirst, hlast, hspelling, hnesting.1, hnesting.2, ?_⟩
  refine (parse_bracketed _ _ _ _ _ _ hfirst hlast hspelling).2.1.1 ?_
  rw [hnesting.1, hnesting.2]
  decide

end Formula

end Propositional
