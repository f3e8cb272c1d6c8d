import Propositional.Lexeme.Tokenize

/-!
# How tokens are spelled

When the runs of a text are read from the left, every step either skips blanks,
or takes the runs that spell one token, or stops at a run that begins none.

* `scan_ofRuns` — there are no other steps;
* `Scan.eq_ofRuns` — and they yield nothing else.
-/

namespace Propositional

namespace Token

/-- The runs spell the token where `rest` follows them; `afterBlank` tells whether a blank stands
in front of them. -/
inductive SpelledBy (afterBlank : Bool) (rest : List Run) : List Run → Token → Prop where
  | word (first : Char) (more : List Char) :
      SpelledBy afterBlank rest [.lower first more]
        (ofWord (afterBlank && Lexeme.startsBlank rest) (first :: more))
  | keyword {first : Char} {more : List Char} {token : Token}
      (h : ofKeyword? (first :: more) = some token) :
      SpelledBy afterBlank rest [.upper first more] token
  | biconditional :
      SpelledBy afterBlank rest [.sign '<', .sign '-', .sign '>'] (.connective .biconditional)
  | conditional :
      SpelledBy afterBlank rest [.sign '-', .sign '>'] (.connective .conditional)
  | sign {c : Char} {token : Token} (h : ofSign? c = some token) :
      SpelledBy afterBlank rest [.sign c] token

/-- No token is spelled from the first of the runs on, which begins with the character. -/
inductive Unspelled : List Run → Char → Prop where
  | keyword {first : Char} {more : List Char} {rest : List Run}
      (h : ofKeyword? (first :: more) = none) : Unspelled (.upper first more :: rest) first
  | sign {c : Char} {rest : List Run} (h : ofSign? c = none)
      (hbiconditional : c = '<' → ∀ tail, rest ≠ .sign '-' :: .sign '>' :: tail)
      (hconditional : c = '-' → ∀ tail, rest ≠ .sign '>' :: tail) :
      Unspelled (.sign c :: rest) c

end Token

namespace Lexeme

/-- What reading the runs from a position on yields, step by step. -/
inductive Scan : Bool → Nat → List Run → Except Error (List Lexeme) → Prop where
  | ending (afterBlank : Bool) (position : Nat) :
      Scan afterBlank position [] (.ok [⟨.ending, position⟩])
  | blank {afterBlank : Bool} {position : Nat} {first : Char} {more : List Char}
      {rest : List Run} {result : Except Error (List Lexeme)}
      (others : Scan true (position + (more.length + 1)) rest result) :
      Scan afterBlank position (.blank first more :: rest) result
  | token {afterBlank : Bool} {position : Nat} {word rest : List Run} {token : Token}
      {result : Except Error (List Lexeme)} (h : Token.SpelledBy afterBlank rest word token)
      (others : Scan false (position + (word.flatMap Run.text).length) rest result) :
      Scan afterBlank position (word ++ rest) (result.map (⟨token, position⟩ :: ·))
  | unspelled {afterBlank : Bool} {position : Nat} {runs : List Run} {c : Char}
      (h : Token.Unspelled runs c) :
      Scan afterBlank position runs (.error (.unrecognized c position))

/-- There are no other steps than those of `Scan`. -/
theorem scan_ofRuns (afterBlank : Bool) (position : Nat) (runs : List Run) :
    Scan afterBlank position runs (ofRuns afterBlank position runs) := by
  fun_induction ofRuns afterBlank position runs with
  | case1 afterBlank position => exact .ending afterBlank position
  | case2 afterBlank position first more rest ih => exact .blank ih
  | case3 afterBlank position first more rest token ih =>
    rw [bind_pure_comp]
    refine @Scan.token _ _ [.lower first more] rest _ _ (.word first more) ?_
    simpa [Run.text] using ih
  | case4 afterBlank position first more rest token h ih =>
    rw [bind_pure_comp]
    refine @Scan.token _ _ [.upper first more] rest _ _ (.keyword h) ?_
    simpa [Run.text] using ih
  | case5 afterBlank position first more rest h => exact .unspelled (.keyword h)
  | case6 afterBlank position rest ih =>
    rw [bind_pure_comp]
    exact @Scan.token _ _ [.sign '<', .sign '-', .sign '>'] rest _ _ .biconditional ih
  | case7 afterBlank position rest ih =>
    rw [bind_pure_comp]
    exact @Scan.token _ _ [.sign '-', .sign '>'] rest _ _ .conditional ih
  | case8 afterBlank position c rest hbiconditional hconditional token h ih =>
    rw [bind_pure_comp]
    exact @Scan.token _ _ [.sign c] rest _ _ (.sign h) ih
  | case9 afterBlank position c rest hbiconditional hconditional h =>
    exact .unspelled (.sign h (fun hc tail hrest => hbiconditional tail hrest hc)
      fun hc tail hrest => hconditional tail hrest hc)

/-- The steps yield the lexemes of the runs. -/
theorem Scan.eq_ofRuns {afterBlank : Bool} {position : Nat} {runs : List Run}
    {result : Except Error (List Lexeme)} (h : Scan afterBlank position runs result) :
    ofRuns afterBlank position runs = result := by
  have hmap (lexeme : Lexeme) (others : Except Error (List Lexeme)) :
      (do let others ← others; return lexeme :: others) = others.map (lexeme :: ·) := by
    cases others <;> rfl
  induction h with
  | ending _ _ => rfl
  | blank _ ih => exact ih
  | @token afterBlank position word rest token result spelled _ ih =>
    rw [← ih]
    cases spelled with
    | word first more =>
      rw [List.flatMap_singleton]
      exact hmap _ _
    | @keyword first more _ hword =>
      rw [List.flatMap_singleton, List.singleton_append, ofRuns, hword]
      exact hmap _ _
    | biconditional => exact hmap _ _
    | conditional => exact hmap _ _
    | @sign c _ hc =>
      have hbiconditional : c ≠ '<' := by
        rintro rfl
        cases hc
      have hconditional : c ≠ '-' := by
        rintro rfl
        cases hc
      rw [List.flatMap_singleton, List.singleton_append, ofRuns, hc]
      · exact hmap _ _
      · exact fun _ _ heq => hbiconditional heq
      · exact fun _ _ heq => hconditional heq
  | unspelled h =>
    cases h with
    | keyword hword => rw [ofRuns, hword]
    | sign hc hbiconditional hconditional =>
      rw [ofRuns, hc]
      · exact fun tail hrest heq => hbiconditional heq tail hrest
      · exact fun tail hrest heq => hconditional heq tail hrest

end Lexeme

end Propositional
