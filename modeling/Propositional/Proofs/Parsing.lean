import Propositional.Proofs.Completeness
import Propositional.Proofs.Lexing

/-!
# What is read as a formula

Lexemes are read as a formula exactly if their tokens are a phrase for it and
nothing in them opens too deep.  The limit on nesting plays no part in what a
phrase means: read with a limit as large as it is long, a phrase gives the one
formula it is for.

* `Phrase.unique` — tokens are a phrase for at most one formula;
* `ofLexemes_eq_ok_iff` — what lexemes are read as;
* `ofLexemes_tooDeep` — a phrase that nests too deep is refused where it does;
* `parse_iff_phrase` — what source texts are read as.
-/

namespace Propositional

namespace Reading

variable {limit : Nat}

/-- Reading a whole phrase leaves nothing open but connectives of the formula. -/
theorem read_whole {lexemes : List Lexeme} {f : Formula}
    (phrase : Phrase 0 (lexemes.map Lexeme.token) f)
    (hnests : Token.NestsWithin limit [] (lexemes.map Lexeme.token)) :
    ∃ stack value, lexemes.foldlM (step limit) (.wanting []) = .ok (.holding stack value) ∧
      collapse 0 stack value = ([], f) :=
  (read_phrase phrase lexemes [] rfl hnests).2 trivial rfl

/-- A step fails with a complaint about tokens. -/
theorem exists_malformed_of_step {reading : Reading} {lexeme : Lexeme} {e : Error}
    (h : step limit reading lexeme = .error e) :
    ∃ complaint position, e = .malformed complaint position := by
  have hnest {frame : Frame} {stack : List Frame}
      (h : nest limit frame stack lexeme.position = .error e) :
      ∃ complaint position, e = .malformed complaint position := by
    unfold nest at h
    split at h
    · cases h
    · cases h
      exact ⟨_, _, rfl⟩
  unfold step at h
  split at h
  · cases h
  · cases h
  · exact hnest h
  · exact hnest h
  · cases h
  · split at h
    · cases h
    · cases h
      exact ⟨_, _, rfl⟩
  · split at h
    · cases h
    · cases h
      exact ⟨_, _, rfl⟩
  · cases h
  · cases h
    exact ⟨_, _, rfl⟩

/-- Reading fails with a complaint about tokens. -/
theorem exists_malformed_of_foldlM {reading : Reading} {lexemes : List Lexeme} {e : Error}
    (h : lexemes.foldlM (step limit) reading = .error e) :
    ∃ complaint position, e = .malformed complaint position := by
  induction lexemes generalizing reading with
  | nil => cases h
  | cons lexeme rest ih =>
    rw [List.foldlM_cons] at h
    cases hstep : step limit reading lexeme with
    | error e' =>
      rw [hstep] at h
      cases h
      exact exists_malformed_of_step hstep
    | ok next =>
      rw [hstep] at h
      exact ih h

end Reading

/-- Tokens are a phrase for at most one formula. -/
theorem Phrase.unique {tokens : List Token} {f g : Formula} (hf : Phrase 0 tokens f)
    (hg : Phrase 0 tokens g) : f = g := by
  let lexemes : List Lexeme := tokens.map fun token => ⟨token, 0⟩
  have htokens : lexemes.map Lexeme.token = tokens := by
    simp [lexemes, Function.comp_def]
  have hnests : Token.NestsWithin tokens.length [] (lexemes.map Lexeme.token) := by
    rw [htokens]
    simpa using Token.nestsWithin_length [] tokens
  obtain ⟨stack, value, hread, hcollapse⟩ := Reading.read_whole (htokens ▸ hf) hnests
  obtain ⟨stack', value', hread', hcollapse'⟩ := Reading.read_whole (htokens ▸ hg) hnests
  rw [hread] at hread'
  cases hread'
  rw [hcollapse] at hcollapse'
  exact (Prod.mk.inj hcollapse').2

namespace Formula

/-- Lexemes in front of the end are read from the start one by one. -/
theorem ofLexemes_eq {front : List Lexeme} (hne : front ≠ [])
    (hending : ∀ l ∈ front, l.token ≠ .ending) (position : Nat) :
    ofLexemes (front ++ [⟨.ending, position⟩]) = (do
      let reading ← (front ++ [(⟨.ending, position⟩ : Lexeme)]).foldlM
        (Reading.step nestingLimit) (.wanting [])
      reading.result) := by
  cases front with
  | nil => exact absurd rfl hne
  | cons lexeme rest =>
    obtain ⟨token, place⟩ := lexeme
    cases token with
    | ending => exact absurd rfl (hending _ List.mem_cons_self)
    | var _ => rfl
    | const _ => rfl
    | neg => rfl
    | connective _ => rfl
    | openBracket => rfl
    | closeBracket => rfl

theorem ne_ending_of_phrase {front : List Lexeme} {f : Formula}
    (phrase : Phrase 0 (front.map Lexeme.token) f) : ∀ l ∈ front, l.token ≠ .ending := by
  intro l hl hending
  exact phrase.ending_not_mem (hending ▸ List.mem_map_of_mem hl)

theorem ofLexemes_eq_of_phrase {front : List Lexeme} {f : Formula}
    (phrase : Phrase 0 (front.map Lexeme.token) f) (position : Nat) :
    ofLexemes (front ++ [⟨.ending, position⟩]) = (do
      let reading ← (front ++ [(⟨.ending, position⟩ : Lexeme)]).foldlM
        (Reading.step nestingLimit) (.wanting [])
      reading.result) := by
  refine ofLexemes_eq ?_ (ne_ending_of_phrase phrase) position
  intro hnil
  subst hnil
  exact phrase.ne_nil rfl

/-- A phrase that does not nest too deep is read as its formula. -/
theorem ofLexemes_of_phrase {front : List Lexeme} {f : Formula} {position : Nat}
    (phrase : Phrase 0 (front.map Lexeme.token) f)
    (hnests : Token.NestsWithin nestingLimit [] (front.map Lexeme.token)) :
    ofLexemes (front ++ [⟨.ending, position⟩]) = .ok f := by
  obtain ⟨stack, value, hread, hcollapse⟩ := Reading.read_whole phrase hnests
  have hfinish : Reading.step nestingLimit (.holding stack value) ⟨.ending, position⟩ =
      .ok (.finished f) := by
    simp only [Reading.step, Reading.finish?, hcollapse]
  rw [ofLexemes_eq_of_phrase phrase, Reading.foldlM_append_ok hread,
    Reading.foldlM_cons_ok hfinish]
  rfl

/-- A phrase that nests too deep is refused at the first lexeme that opens too deep. -/
theorem ofLexemes_tooDeep {front : List Lexeme} {f : Formula} {position : Nat} {deep : Lexeme}
    (phrase : Phrase 0 (front.map Lexeme.token) f)
    (hdeep : Lexeme.tooDeep? nestingLimit [] front = some deep) :
    ofLexemes (front ++ [⟨.ending, position⟩]) =
      .error (.malformed .nestingTooDeep deep.position) := by
  have hread := Reading.read_phrase_tooDeep phrase front [] deep rfl hdeep (Or.inr ⟨trivial, rfl⟩)
  rw [ofLexemes_eq_of_phrase phrase, Reading.foldlM_append_error hread]
  rfl

/-- Lexemes that are read as a formula are a phrase for it. -/
theorem phrase_of_ofLexemes {front : List Lexeme} {f : Formula} {position : Nat}
    (hending : ∀ l ∈ front, l.token ≠ .ending)
    (h : ofLexemes (front ++ [⟨.ending, position⟩]) = .ok f) :
    Phrase 0 (front.map Lexeme.token) f := by
  by_cases hne : front = []
  · subst hne
    cases h
  · rw [ofLexemes_eq hne hending, List.foldlM_append] at h
    cases hread : front.foldlM (Reading.step nestingLimit) (.wanting []) with
    | error e =>
      rw [hread] at h
      cases h
    | ok reading =>
      have hreads := Reading.reads_foldlM (.wanting .nil) hread hending
      rw [hread] at h
      cases hstep : Reading.step nestingLimit reading ⟨.ending, position⟩ with
      | error e => simp [hstep, bind, Except.bind] at h
      | ok next =>
        have hresult : next.result = .ok f := by
          simpa [hstep, bind, Except.bind, pure, Except.pure] using h
        cases next with
        | wanting stack => cases hresult
        | holding stack value => cases hresult
        | finished value =>
          cases hresult
          exact Reading.phrase_of_finish hreads hstep

/-- Lexemes are read as a formula exactly if they are a phrase for it that does not nest too
deep. -/
theorem ofLexemes_eq_ok_iff {front : List Lexeme} {f : Formula} {position : Nat}
    (hending : ∀ l ∈ front, l.token ≠ .ending) :
    ofLexemes (front ++ [⟨.ending, position⟩]) = .ok f ↔
      Phrase 0 (front.map Lexeme.token) f ∧
        Token.NestsBelow nestingLimit (front.map Lexeme.token) := by
  rw [Token.nestsBelow_iff]
  constructor
  · intro h
    have phrase := phrase_of_ofLexemes hending h
    refine ⟨phrase, (Lexeme.tooDeep?_eq_none_iff nestingLimit [] front).mp ?_⟩
    cases hdeep : Lexeme.tooDeep? nestingLimit [] front with
    | none => rfl
    | some deep =>
      rw [ofLexemes_tooDeep phrase hdeep] at h
      cases h
  · rintro ⟨phrase, hnests⟩
    exact ofLexemes_of_phrase phrase hnests

/-- Lexemes that are not read as a formula are refused with a complaint about tokens. -/
theorem exists_malformed_of_ofLexemes {lexemes : List Lexeme} {e : Error}
    (h : ofLexemes lexemes = .error e) :
    ∃ complaint position, e = .malformed complaint position := by
  unfold ofLexemes at h
  split at h
  · cases h
    exact ⟨_, _, rfl⟩
  · cases h
    exact ⟨_, _, rfl⟩
  · cases hread : lexemes.foldlM (Reading.step nestingLimit) (.wanting []) with
    | error e' =>
      rw [hread] at h
      cases h
      exact Reading.exists_malformed_of_foldlM hread
    | ok reading =>
      rw [hread] at h
      cases reading with
      | wanting stack =>
        cases h
        exact ⟨_, _, rfl⟩
      | holding stack value =>
        cases h
        exact ⟨_, _, rfl⟩
      | finished value => cases h

theorem parse_eq_of_tokenize {source : String} {lexemes : List Lexeme}
    (h : tokenize source = .ok lexemes) : parse source = ofLexemes lexemes := by
  rw [parse, h]
  rfl

/-- A text that is read as a formula has lexemes, and their tokens are a phrase for it. -/
theorem exists_phrase_of_parse {source : String} {f : Formula} (h : parse source = .ok f) :
    ∃ front, tokenize source = .ok (front ++ [⟨.ending, source.length⟩]) ∧
      Phrase 0 (front.map Lexeme.token) f := by
  cases htokens : tokenize source with
  | error e =>
    rw [parse, htokens] at h
    cases h
  | ok lexemes =>
    obtain ⟨front, rfl, hending⟩ := exists_front_of_tokenize htokens
    rw [parse_eq_of_tokenize htokens] at h
    exact ⟨front, rfl, phrase_of_ofLexemes hending h⟩

/-- A text is refused for a character exactly if it has no lexemes, and then for that one. -/
theorem parse_lexError_iff (source : String) (e : Error) :
    parse source = .error e ∧ e.isLexError = true ↔ tokenize source = .error e := by
  cases htokens : tokenize source with
  | error e' =>
    have hparse : parse source = .error e' := by
      rw [parse, htokens]
      rfl
    obtain ⟨c, place, rfl⟩ := exists_unrecognized_of_tokenize htokens
    rw [hparse]
    constructor
    · rintro ⟨herror, _⟩
      cases herror
      rfl
    · intro h
      cases h
      exact ⟨rfl, rfl⟩
  | ok lexemes =>
    rw [parse_eq_of_tokenize htokens]
    constructor
    · rintro ⟨herror, hlex⟩
      obtain ⟨complaint, place, rfl⟩ := exists_malformed_of_ofLexemes herror
      cases hlex
    · intro h
      cases h

/-- A text is read as a formula exactly if its tokens are a phrase for it that does not nest too
deep, and no tokens are a phrase for two formulas.  A text without lexemes is refused for its
first character that begins no token, and no other text is refused for a character. -/
theorem parse_iff_phrase (source : String) :
    (∀ e, parse source = .error e ∧ e.isLexError = true ↔ tokenize source = .error e) ∧
    ((∃ e, tokenize source = .error e) ∨
      ∃ front, tokenize source = .ok (front ++ [⟨.ending, source.length⟩]) ∧
        (∀ l ∈ front, l.token ≠ .ending) ∧
        ∀ f, parse source = .ok f ↔
          Phrase 0 (front.map Lexeme.token) f ∧
            Token.NestsBelow nestingLimit (front.map Lexeme.token)) ∧
    ∀ tokens f g, Phrase 0 tokens f → Phrase 0 tokens g → f = g := by
  refine ⟨parse_lexError_iff source, ?_, fun tokens f g => Phrase.unique⟩
  cases htokens : tokenize source with
  | error e => exact Or.inl ⟨e, rfl⟩
  | ok lexemes =>
    obtain ⟨front, rfl, hending⟩ := exists_front_of_tokenize htokens
    refine Or.inr ⟨front, rfl, hending, fun f => ?_⟩
    rw [parse_eq_of_tokenize htokens]
    exact ofLexemes_eq_ok_iff hending

/-- Connectives of one level group to the left, and not to the right, and a text of them is read so.
The other text is refused for its last character, which begins no token. -/
theorem parse_iff_phrase_chain :
    Phrase 0 [.var "p", .connective .and, .var "q", .connective .nand, .var "r"]
        (bin .nand (bin .and (var "p") (var "q")) (var "r")) ∧
      ¬ Phrase 0 [.var "p", .connective .and, .var "q", .connective .nand, .var "r"]
        (bin .and (var "p") (bin .nand (var "q") (var "r"))) ∧
      parse "p ^ q NAND r" = .ok (bin .nand (bin .and (var "p") (var "q")) (var "r")) ∧
      parse "p ^ q -" = .error (.unrecognized '-' 6) := by
  have hleft : Phrase 0 [.var "p", .connective .and, .var "q", .connective .nand, .var "r"]
      (bin .nand (bin .and (var "p") (var "q")) (var "r")) := by
    have hfirst : Phrase 4 [.var "p", .connective .and, .var "q"] (bin .and (var "p") (var "q")) :=
      .chain .and (.tighter (by decide) (.var "p")) (.var "q")
    exact (Phrase.chain .nand hfirst (.var "r")).weaken (Nat.zero_le _) (by decide)
  obtain ⟨_, hread, hunique⟩ := parse_iff_phrase "p ^ q NAND r"
  have htokens : tokenize "p ^ q NAND r" = .ok ([⟨.var "p", 0⟩, ⟨.connective .and, 2⟩,
      ⟨.var "q", 4⟩, ⟨.connective .nand, 6⟩, ⟨.var "r", 11⟩] ++ [⟨.ending, 12⟩]) := by rfl
  have hrefused : tokenize "p ^ q -" = .error (.unrecognized '-' 6) := by rfl
  refine ⟨hleft, fun hright => ?_, ?_, (((parse_iff_phrase "p ^ q -").1 _).mpr hrefused).1⟩
  · cases hunique _ _ _ hleft hright
  · rcases hread with ⟨e, herror⟩ | ⟨front, hfront, -, hparse⟩
    · rw [htokens] at herror
      cases herror
    · rw [htokens] at hfront
      obtain ⟨rfl, -⟩ := List.append_singleton_inj.mp (Except.ok.inj hfront).symm
      exact (hparse _).mpr ⟨hleft, by decide⟩

end Formula

end Propositional
