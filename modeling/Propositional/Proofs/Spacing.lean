import Propositional.Proofs.Refusals
import Propositional.Proofs.Respacing

/-!
# How much blanks matter

Which blanks stand between two words, and how many, makes no difference to what a
text is read as.  Blanks around a whole text can do so: they turn a variable `v` or
`xor` at its start or its end into a connective if there is a blank on the other
side of it already.  No formula begins or ends with a connective, so a text is then
refused, and it is never read as another formula.

* `parse_alike` — texts of the same tokens are read alike;
* `alike_parse_of_squeeze` — so are texts that are equal when squeezed;
* `parse_padded`, `exists_malformed_of_exposed` — what a text with blanks around it
  is read as;
* `parse_spacing` — how much blanks matter.
-/

namespace Propositional

namespace Text

/-- What is read of a word of lowercase letters is the same with blanks around the text, unless
these expose it. -/
theorem ofLowercase_padded {before text behind front word back : List Char}
    (hexposed : ¬ Exposed before text behind) (htext : text = front ++ word ++ back)
    (hrun : WholeRun Char.isLower front word back) :
    Token.ofLowercase (before ++ front) word (back ++ behind) =
      Token.ofLowercase front word back := by
  by_cases hword : word = ['v'] ∨ word = ['x', 'o', 'r']
  · have hsame : Surrounded (before ++ front) (back ++ behind) ↔ Surrounded front back := by
      by_cases hends : (∀ c ∈ front, isBlank c = true) ∨ ∀ c ∈ back, isBlank c = true
      · refine ⟨fun hpadded => ?_, fun h => h.append before behind⟩
        by_cases h : Surrounded front back
        · exact h
        · exact absurd ⟨front, word, back, htext, hrun, hword, hends, hpadded, h⟩ hexposed
      · -- Something stands on both sides, and the nearest characters are what counts.
        have hfront : front ≠ [] := by
          rintro rfl
          exact hends (Or.inl fun c hc => absurd hc List.not_mem_nil)
        have hback : back ≠ [] := by
          rintro rfl
          exact hends (Or.inr fun c hc => absurd hc List.not_mem_nil)
        exact surrounded_append_iff hfront hback before behind
    simp only [Token.ofLowercase, hsame]
  · obtain ⟨hor, hxor⟩ := not_or.mp hword
    simp only [Token.ofLowercase, hor, hxor, and_false, if_false]

end Text

namespace Formula

/-- Lexemes of the same tokens are read alike. -/
theorem ofLexemes_alike {lexemes others : List Lexeme}
    (htokens : lexemes.map Lexeme.token = others.map Lexeme.token) :
    Alike (ofLexemes lexemes) (ofLexemes others) := by
  have hresult (reading : Reading) : Alike reading.result reading.result := by
    cases reading with
    | wanting stack => exact .malformed _ 0 0
    | holding stack value => exact .malformed _ 0 0
    | finished value => exact .ok value
  have hfold := (Reading.foldlM_alike nestingLimit htokens (.wanting [])).bind hresult
  cases lexemes with
  | nil =>
    obtain rfl := List.map_eq_nil_iff.mp htokens.symm
    exact .malformed _ 0 0
  | cons lexeme rest =>
    obtain ⟨token, place⟩ := lexeme
    obtain ⟨place', rest', rfl, hrest⟩ := Lexeme.exists_cons htokens.symm
    cases token with
    | ending => exact .malformed _ 0 0
    | var _ => exact hfold
    | const _ => exact hfold
    | neg => exact hfold
    | connective _ => exact hfold
    | openBracket => exact hfold
    | closeBracket => exact hfold

/-- Texts of the same tokens are read alike. -/
theorem parse_alike {source other : String}
    (h : Alike ((tokenize source).map (Lexeme.viewed id))
      ((tokenize other).map (Lexeme.viewed id))) :
    Alike (parse source) (parse other) :=
  h.bind_of_map fun _ _ htokens => ofLexemes_alike htokens

/-- Texts that are equal when squeezed are read alike. -/
theorem alike_parse_of_squeeze {source other : String}
    (h : Text.squeeze source.toList = Text.squeeze other.toList) :
    Alike (parse source) (parse other) :=
  parse_alike (alike_tokenize h)

/-- A text is read as the same formula with blanks around it, unless these expose a word. -/
theorem parse_padded {source before behind : String} {f : Formula} (h : parse source = .ok f)
    (hbefore : ∀ c ∈ before.toList, Text.isBlank c = true)
    (hbehind : ∀ c ∈ behind.toList, Text.isBlank c = true)
    (hexposed : ¬ Text.Exposed before.toList source.toList behind.toList) :
    parse (before ++ source ++ behind) = .ok f := by
  have htokens := alike_tokenize_padded id hbefore hbehind
    fun front word back htext hrun => (Text.ofLowercase_padded hexposed htext hrun).symm
  have hparse := parse_alike htokens
  rw [h] at hparse
  exact hparse.eq_ok

/-- A text that has lexemes has some with blanks around it. -/
theorem exists_tokenize_padded {source before behind : String} {lexemes : List Lexeme}
    (h : tokenize source = .ok lexemes) (hbefore : ∀ c ∈ before.toList, Text.isBlank c = true)
    (hbehind : ∀ c ∈ behind.toList, Text.isBlank c = true) :
    ∃ others, tokenize (before ++ source ++ behind) = .ok others := by
  have halike : Alike ((tokenize source).map (Lexeme.viewed fun _ => ()))
      ((tokenize (before ++ source ++ behind)).map (Lexeme.viewed fun _ => ())) :=
    alike_tokenize_padded _ hbefore hbehind fun _ _ _ _ _ => rfl
  cases hpadded : tokenize (before ++ source ++ behind) with
  | ok others => exact ⟨others, rfl⟩
  | error e =>
    rw [h, hpadded] at halike
    cases halike

/-- Behind blanks a whole run of lowercase letters is the first token. -/
theorem exists_of_lowercase_first {source : String} {lexemes : List Lexeme}
    (h : tokenize source = .ok lexemes) {front word back : List Char}
    (htext : source.toList = front ++ word ++ back)
    (hrun : Text.WholeRun Char.isLower front word back)
    (hfront : ∀ c ∈ front, Text.isBlank c = true) :
    ∃ behind, lexemes = ⟨Token.ofLowercase front word back, front.length⟩ :: behind := by
  have halone : Text.WholeRun Char.isLower [] word back := by
    refine ⟨hrun.ne_nil, hrun.inside, fun c hc => ?_, hrun.behind⟩
    cases hc
  obtain ⟨run, hkind, rfl, hruns⟩ := Run.ofText_wholeRun Kind.isLower_iff (by decide) halone
  rw [List.nil_append, Run.ofText, List.nil_append] at hruns
  have hskip : tokenize source = Lexeme.ofRuns (front.getLast?.any Text.isBlank) front.length
      (run :: Run.ofText back) := by
    rw [tokenize, htext, List.append_assoc, ← hruns, ← Nat.zero_add front.length]
    exact Lexeme.ofRuns_blanks hfront [] (run.text ++ back) 0
  have hscan := Lexeme.scan_ofRuns (front.getLast?.any Text.isBlank) front.length
    (run :: Run.ofText back)
  rw [← hskip, h] at hscan
  obtain ⟨behind, rfl, _⟩ := hscan.of_lowercase hkind hrun
  exact ⟨behind, rfl⟩

/-- Before blanks a whole run of lowercase letters is the last token. -/
theorem exists_of_lowercase_last {source : String} {lexemes : List Lexeme}
    (h : tokenize source = .ok lexemes) {front word back : List Char}
    (htext : source.toList = front ++ word ++ back)
    (hrun : Text.WholeRun Char.isLower front word back)
    (hback : ∀ c ∈ back, Text.isBlank c = true) :
    ∃ before place, lexemes =
      before ++ [⟨Token.ofLowercase front word back, front.length⟩, ⟨.ending, place⟩] := by
  obtain ⟨before, behind, rfl, hscan⟩ := exists_of_lowercase h htext hrun
  have hskip := Lexeme.ofRuns_blanks hback [] [] (front.length + word.length)
  rw [List.append_nil] at hskip
  have hbehind := hscan.eq_ofRuns.symm.trans hskip
  rw [Run.ofText, Lexeme.ofRuns] at hbehind
  cases hbehind
  exact ⟨before, _, rfl⟩

/-- Lexemes that begin with a connective are not read as a formula. -/
theorem ofLexemes_ne_ok_of_first (op : Connective) (place : Nat) (rest : List Lexeme)
    (f : Formula) : ofLexemes (⟨.connective op, place⟩ :: rest) ≠ .ok f := by
  intro h
  cases h

/-- Lexemes that end with a connective are not read as a formula. -/
theorem parse_ne_ok_of_last {source : String} {before : List Lexeme} {op : Connective}
    {place position : Nat}
    (h : tokenize source = .ok (before ++ [⟨.connective op, place⟩, ⟨.ending, position⟩]))
    (f : Formula) : parse source ≠ .ok f := by
  intro hparse
  obtain ⟨front, htokens, phrase⟩ := exists_phrase_of_parse hparse
  rw [h, List.append_cons] at htokens
  have hfront := (List.append_inj' (Except.ok.inj htokens) rfl).1
  have hwants := phrase.wantsOperand_append []
  rw [← hfront] at hwants
  simp [Token.wantsOperand] at hwants

/-- Blanks around a text that expose a word make it be refused. -/
theorem exists_malformed_of_exposed {source before behind : String} {f : Formula}
    (h : parse source = .ok f) (hbefore : ∀ c ∈ before.toList, Text.isBlank c = true)
    (hbehind : ∀ c ∈ behind.toList, Text.isBlank c = true)
    (hexposed : Text.Exposed before.toList source.toList behind.toList) :
    ∃ complaint place,
      parse (before ++ source ++ behind) = .error (.malformed complaint place) := by
  obtain ⟨_, htokens, _⟩ := exists_phrase_of_parse h
  obtain ⟨lexemes, hpadded⟩ := exists_tokenize_padded htokens hbefore hbehind
  obtain ⟨front, word, back, htext, hrun, hword, hends, hsurrounded, _⟩ := hexposed
  have hrun' := hrun.padded (fun _ => Kind.isLower_eq_false_of_isBlank) hbefore hbehind
  have htext' : (before ++ source ++ behind).toList =
      (before.toList ++ front) ++ word ++ (back ++ behind.toList) := by
    simp only [String.toList_append, htext, List.append_assoc]
  obtain ⟨op, hop⟩ : ∃ op,
      Token.ofLowercase (before.toList ++ front) word (back ++ behind.toList) =
        .connective op := by
    rcases hword with rfl | rfl
    · exact ⟨.or, by simp [Token.ofLowercase, hsurrounded]⟩
    · exact ⟨.xor, by simp [Token.ofLowercase, hsurrounded]⟩
  have hrefused : ∀ g, parse (before ++ source ++ behind) ≠ .ok g := by
    rcases hends with hfront | hback
    · have hblank := List.forall_mem_append.mpr ⟨hbefore, hfront⟩
      obtain ⟨rest, rfl⟩ := exists_of_lowercase_first hpadded htext' hrun' hblank
      rw [parse_eq_of_tokenize hpadded, hop]
      exact ofLexemes_ne_ok_of_first op _ rest
    · have hblank := List.forall_mem_append.mpr ⟨hback, hbehind⟩
      obtain ⟨rest, place, rfl⟩ := exists_of_lowercase_last hpadded htext' hrun' hblank
      rw [hop] at hpadded
      exact parse_ne_ok_of_last hpadded
  cases hparse : parse (before ++ source ++ behind) with
  | ok g => exact absurd hparse (hrefused g)
  | error e =>
    rw [parse_eq_of_tokenize hpadded] at hparse
    obtain ⟨complaint, place, rfl⟩ := exists_malformed_of_ofLexemes hparse
    exact ⟨complaint, place, rfl⟩

/-- Texts that differ in the blanks between their words only are read alike.  With blanks around
it a text is read as the same formula or refused for its tokens, and the latter exactly if the
blanks expose a word `v` or `xor` at its start or its end. -/
theorem parse_spacing :
    (∀ source other : String, Text.squeeze source.toList = Text.squeeze other.toList →
      Alike (parse source) (parse other)) ∧
    ∀ (source before behind : String) (f : Formula), parse source = .ok f →
      (∀ c ∈ before.toList, Text.isBlank c = true) →
      (∀ c ∈ behind.toList, Text.isBlank c = true) →
      (parse (before ++ source ++ behind) = .ok f ∨
        ∃ complaint place,
          parse (before ++ source ++ behind) = .error (.malformed complaint place)) ∧
      ((∃ complaint place,
          parse (before ++ source ++ behind) = .error (.malformed complaint place)) ↔
        Text.Exposed before.toList source.toList behind.toList) := by
  refine ⟨fun source other => alike_parse_of_squeeze, ?_⟩
  intro source before behind f h hbefore hbehind
  by_cases hexposed : Text.Exposed before.toList source.toList behind.toList
  · have hrefused := exists_malformed_of_exposed h hbefore hbehind hexposed
    exact ⟨Or.inr hrefused, iff_of_true hrefused hexposed⟩
  · have hparse := parse_padded h hbefore hbehind hexposed
    refine ⟨Or.inl hparse, iff_of_false ?_ hexposed⟩
    rintro ⟨complaint, place, hrefused⟩
    rw [hparse] at hrefused
    cases hrefused

/-- A line break behind a text turns the variable at its end into a connective, and other blanks
between the words do not matter. -/
theorem parse_spacing_lineBreak :
    Alike (parse "p \t^\u2003v") (parse "p ^ v") ∧
      parse "p ^ v" = .ok (bin .and (var "p") (var "v")) ∧
      Text.Exposed "".toList "p ^ v".toList "\n".toList ∧
      ∃ complaint place,
        parse ("" ++ "p ^ v" ++ "\n") = .error (.malformed complaint place) := by
  have hparse : parse "p ^ v" = .ok (bin .and (var "p") (var "v")) := by rfl
  have hnone : ∀ c ∈ "".toList, Text.isBlank c = true := List.all_eq_true.mp (by decide)
  have hbreak : ∀ c ∈ "\n".toList, Text.isBlank c = true := List.all_eq_true.mp (by decide)
  have hexposed : Text.Exposed "".toList "p ^ v".toList "\n".toList :=
    ⟨"p ^ ".toList, ['v'], [], by decide, by decide, Or.inl rfl, Or.inr hnone, by decide,
      by decide⟩
  have hrefused := (parse_spacing.2 "p ^ v" "" "\n" _ hparse hnone hbreak).2.mpr hexposed
  exact ⟨parse_spacing.1 _ _ (by decide), hparse, hexposed, hrefused⟩

end Formula

end Propositional
