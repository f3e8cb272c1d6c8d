import Propositional.Proofs.Lexing
import Propositional.Proofs.Unreadable

/-!
# The lexemes of a text, said of its characters

A text whose characters can all be read is its words with blanks between them, no
run of letters is cut, and every other text is refused for its first character
that cannot be read.

* `Lexeme.Scan.laid` — the words of the lexemes and blanks are the whole text;
* `scanned_of_tokenize` — what the lexemes of a text are;
* `tokenize_eq_error_iff` — which texts have none, and what they are refused for;
* `tokenize_exact` — both.
-/

namespace Propositional

/-- The words of the lexemes that are read and the blanks between them are the text. -/
theorem Lexeme.Scan.laid {afterBlank : Bool} {position : Nat} {runs : List Run}
    {result : Except Error (List Lexeme)} (h : Scan afterBlank position runs result)
    (hkind : ∀ run ∈ runs, ∀ c ∈ run.text, Kind.ofChar c = run.kind) :
    ∀ lexemes, result = .ok lexemes → ∃ front,
      lexemes = front ++ [⟨.ending, position + (runs.flatMap Run.text).length⟩] ∧
        Laid position (runs.flatMap Run.text) front := by
  induction h with
  | ending _ position =>
    intro lexemes hok
    cases hok
    exact ⟨[], rfl, .nil fun c hc => absurd hc List.not_mem_nil⟩
  | @blank _ position first more rest result others ih =>
    intro lexemes hok
    have hblank : ∀ c ∈ first :: more, Text.isBlank c = true := fun c hc =>
      (Kind.isBlank_iff c).mpr (hkind (.blank first more) List.mem_cons_self c hc)
    obtain ⟨front, rfl, laid⟩ :=
      ih (fun run hrun => hkind run (List.mem_cons_of_mem _ hrun)) lexemes hok
    refine ⟨front, ?_, .blanks hblank laid⟩
    rw [List.flatMap_cons, List.length_append, Run.text, List.length_cons, Nat.add_assoc]
  | @token _ position word rest token result spelled others ih =>
    intro lexemes hok
    cases result with
    | error e => cases hok
    | ok tail =>
      cases hok
      obtain ⟨front, rfl, laid⟩ :=
        ih (fun run hrun => hkind run (List.mem_append_right _ hrun)) tail rfl
      have hspelled := spelled.spelledAs fun run hrun => hkind run (List.mem_append_left _ hrun)
      rw [List.flatMap_append, List.length_append, ← Nat.add_assoc]
      have hnone : ∀ c ∈ ([] : List Char), Text.isBlank c = true :=
        fun c hc => absurd hc List.not_mem_nil
      exact ⟨⟨token, position⟩ :: front, rfl, .cons hnone hspelled laid⟩
  | unspelled _ =>
    intro lexemes hok
    cases hok

/-- What the lexemes of a text are. -/
theorem scanned_of_tokenize {source : String} {lexemes : List Lexeme}
    (h : tokenize source = .ok lexemes) : Lexeme.Scanned source.toList lexemes := by
  have hscan := Lexeme.scan_ofRuns false 0 (Run.ofText source.toList)
  obtain ⟨front, hfront, laid⟩ := hscan.laid (fun _ hrun => Run.kind_of_mem_ofText hrun) lexemes h
  rw [Run.text_ofText, Nat.zero_add] at hfront
  rw [Run.text_ofText] at laid
  -- The end stands behind all words, so no word has its place.
  have hunique {before word back : List Char} (htext : source.toList = before ++ word ++ back)
      (hne : word ≠ []) {a b : Token} (ha : ⟨a, before.length⟩ ∈ lexemes)
      (hb : ⟨b, before.length⟩ ∈ lexemes) : a = b := by
    have hlt : before.length < source.toList.length := by
      have hpos := List.length_pos_iff.mpr hne
      rw [htext, List.length_append, List.length_append]
      omega
    have hmem {c : Token} (hc : ⟨c, before.length⟩ ∈ lexemes) : ⟨c, before.length⟩ ∈ front := by
      rw [hfront] at hc
      rcases List.mem_append.mp hc with hc | hc
      · exact hc
      · have hplace := congrArg Lexeme.position (List.mem_singleton.mp hc)
        exact absurd hplace (Nat.ne_of_lt hlt)
    exact laid.unique (hmem ha) (hmem hb)
  refine ⟨⟨front, hfront, laid.ne_ending, laid⟩, ?_, ?_⟩
  · intro before word back htext hrun token
    obtain ⟨others, behind, hlexemes, _⟩ := exists_of_lowercase h htext hrun
    have hmem : ⟨Token.ofLowercase before word back, before.length⟩ ∈ lexemes := by
      simp [hlexemes]
    constructor
    · intro htoken
      exact hunique htext hrun.ne_nil htoken hmem
    · rintro rfl
      exact hmem
  · intro before word back htext hrun
    obtain ⟨token, hspelled, hmem⟩ := exists_of_uppercase h htext hrun
    refine ⟨token, hspelled, fun other => ?_⟩
    constructor
    · intro hother
      exact hunique htext hrun.ne_nil hother hmem
    · rintro rfl
      exact hmem

/-- A text with lexemes has no character that cannot be read. -/
theorem not_unreadable_of_tokenize {source : String} {lexemes : List Lexeme}
    (h : tokenize source = .ok lexemes) {front back : List Char} {c : Char}
    (htext : source.toList = front ++ c :: back) : ¬ Text.Unreadable front c back := by
  have hclean : Text.Clean source.toList 0 source.toList.length := by
    have houtcome := tokenize_outcome source
    rwa [h] at houtcome
  refine hclean front c back htext (Nat.zero_le _) ?_
  rw [htext, List.length_append, List.length_cons]
  omega

/-- A text without lexemes is refused for its first character that cannot be read. -/
theorem tokenize_eq_error_iff (source : String) (e : Error) :
    tokenize source = .error e ↔
      ∃ front c back, source.toList = front ++ c :: back ∧ Text.Unreadable front c back ∧
        (∀ front' c' back', source.toList = front' ++ c' :: back' →
          Text.Unreadable front' c' back' → front.length ≤ front'.length) ∧
        e = .unrecognized c front.length := by
  have hfirst {e : Error} (h : tokenize source = .error e) :
      ∃ front c back, source.toList = front ++ c :: back ∧ Text.Unreadable front c back ∧
        (∀ front' c' back', source.toList = front' ++ c' :: back' →
          Text.Unreadable front' c' back' → front.length ≤ front'.length) ∧
        e = .unrecognized c front.length := by
    have houtcome := tokenize_outcome source
    rw [h] at houtcome
    obtain ⟨front, c, back, htext, he, hunreadable, hclean⟩ := houtcome
    refine ⟨front, c, back, htext, hunreadable, ?_, he⟩
    intro front' c' back' htext' hunreadable'
    by_cases hlt : front'.length < front.length
    · exact absurd hunreadable' (hclean front' c' back' htext' (Nat.zero_le _) hlt)
    · exact Nat.le_of_not_lt hlt
  refine ⟨hfirst, ?_⟩
  rintro ⟨front, c, back, htext, hunreadable, hleast, rfl⟩
  cases htokens : tokenize source with
  | ok lexemes => exact absurd hunreadable (not_unreadable_of_tokenize htokens htext)
  | error e =>
    obtain ⟨front', c', back', htext', hunreadable', hleast', rfl⟩ := hfirst htokens
    have hlength : front.length = front'.length :=
      Nat.le_antisymm (hleast front' c' back' htext' hunreadable')
        (hleast' front c back htext hunreadable)
    obtain ⟨rfl, hrest⟩ := List.append_inj (htext.symm.trans htext') hlength
    obtain ⟨rfl, _⟩ := List.cons.inj hrest
    rfl

/-- A text falls into the words of its lexemes and blanks, and no run of letters is cut; it is
refused exactly if a character of it cannot be read, and then for the first one. -/
theorem tokenize_exact (source : String) :
    (∀ lexemes, tokenize source = .ok lexemes → Lexeme.Scanned source.toList lexemes) ∧
    ((∃ e, tokenize source = .error e) ↔
      ∃ front c back, source.toList = front ++ c :: back ∧ Text.Unreadable front c back) ∧
    ∀ e, tokenize source = .error e ↔
      ∃ front c back, source.toList = front ++ c :: back ∧ Text.Unreadable front c back ∧
        (∀ front' c' back', source.toList = front' ++ c' :: back' →
          Text.Unreadable front' c' back' → front.length ≤ front'.length) ∧
        e = .unrecognized c front.length := by
  refine ⟨fun lexemes => scanned_of_tokenize, ?_, tokenize_eq_error_iff source⟩
  constructor
  · rintro ⟨e, h⟩
    obtain ⟨front, c, back, htext, hunreadable, _⟩ := (tokenize_eq_error_iff source e).mp h
    exact ⟨front, c, back, htext, hunreadable⟩
  · rintro ⟨front, c, back, htext, hunreadable⟩
    cases h : tokenize source with
    | ok lexemes => exact absurd hunreadable (not_unreadable_of_tokenize h htext)
    | error e => exact ⟨e, rfl⟩

/-- Of two words `v` only the one between blanks is a connective, and letters of different cases
are different words. -/
theorem tokenize_exact_words :
    tokenize "v v pNAND(xor\u2003" =
        .ok [⟨.var "v", 0⟩, ⟨.connective .or, 2⟩, ⟨.var "p", 4⟩, ⟨.connective .nand, 5⟩,
          ⟨.openBracket, 9⟩, ⟨.var "xor", 10⟩, ⟨.ending, 14⟩] ∧
      Lexeme.Scanned "v v pNAND(xor\u2003".toList
        [⟨.var "v", 0⟩, ⟨.connective .or, 2⟩, ⟨.var "p", 4⟩, ⟨.connective .nand, 5⟩,
          ⟨.openBracket, 9⟩, ⟨.var "xor", 10⟩, ⟨.ending, 14⟩] :=
  ⟨by rfl, (tokenize_exact "v v pNAND(xor\u2003").1 _ (by rfl)⟩

end Propositional
