import Propositional.Lexeme.Spelling
import Propositional.Names

/-!
# What the lexemes of a source text are

* `exists_front_of_tokenize` — the lexemes end with the end of the text, which
  stands nowhere else;
* `exists_unrecognized_of_tokenize` — a text without lexemes has a character that
  begins no token;
* `spellable_of_tokenize` — every variable bears a name that can be written.
-/

namespace Propositional

namespace Token

theorem ofWord_ne_ending (spaced : Bool) (text : List Char) : ofWord spaced text ≠ .ending := by
  unfold ofWord
  split
  · split <;> simp
  · simp

/-- A run of lowercase letters that is a variable is its name. -/
theorem toList_of_ofWord {spaced : Bool} {text : List Char} {name : String}
    (h : ofWord spaced text = .var name) : name.toList = text := by
  unfold ofWord at h
  split at h
  · split at h
    · cases h
    · cases h
      exact String.toList_ofList
  · cases h
    exact String.toList_ofList

theorem ofKeyword?_ne_ending (text : List Char) : ofKeyword? text ≠ some .ending := by
  unfold ofKeyword?
  split
  · simp
  · split
    · simp
    · cases Connective.ofSymbol? (String.ofList text) <;> simp

theorem ofSign?_ne_ending (c : Char) : ofSign? c ≠ some .ending := by
  unfold ofSign?
  repeat' split
  all_goals simp

/-- No runs spell the end of the text. -/
theorem SpelledBy.ne_ending {afterBlank : Bool} {rest word : List Run} {token : Token}
    (h : SpelledBy afterBlank rest word token) : token ≠ .ending := by
  cases h with
  | word first more => exact ofWord_ne_ending _ _
  | keyword h =>
    intro hending
    exact ofKeyword?_ne_ending _ (hending ▸ h)
  | biconditional => simp
  | conditional => simp
  | sign h =>
    intro hending
    exact ofSign?_ne_ending _ (hending ▸ h)

/-- A variable is spelled by one run of lowercase letters, its name. -/
theorem SpelledBy.eq_of_var {afterBlank : Bool} {rest word : List Run} {name : String}
    (h : SpelledBy afterBlank rest word (.var name)) :
    ∃ first more, word = [.lower first more] ∧ name.toList = first :: more := by
  generalize htoken : Token.var name = token at h
  cases h with
  | word first more => exact ⟨first, more, rfl, toList_of_ofWord htoken.symm⟩
  | keyword h =>
    subst htoken
    unfold ofKeyword? at h
    split at h
    · cases h
    · split at h
      · cases h
      · simp at h
  | biconditional => cases htoken
  | conditional => cases htoken
  | sign h =>
    subst htoken
    unfold ofSign? at h
    repeat' split at h
    all_goals cases h

end Token

namespace Lexeme

/-- The last lexeme is the end of the text and stands behind all characters; no other one is. -/
theorem Scan.exists_front {afterBlank : Bool} {position : Nat} {runs : List Run}
    {result : Except Error (List Lexeme)} (h : Scan afterBlank position runs result) :
    ∀ lexemes, result = .ok lexemes → ∃ front,
      lexemes = front ++ [⟨.ending, position + (runs.flatMap Run.text).length⟩] ∧
        ∀ l ∈ front, l.token ≠ .ending := by
  induction h with
  | ending afterBlank position =>
    intro lexemes hok
    cases hok
    exact ⟨[], rfl, fun l hl => absurd hl List.not_mem_nil⟩
  | @blank afterBlank position first more rest result others ih =>
    intro lexemes hok
    obtain ⟨front, hfront, hending⟩ := ih lexemes hok
    refine ⟨front, ?_, hending⟩
    rw [hfront, List.flatMap_cons, List.length_append, Run.text, List.length_cons, Nat.add_assoc]
  | @token afterBlank position word rest token result hspelled others ih =>
    intro lexemes hok
    cases result with
    | error e => cases hok
    | ok tail =>
      cases hok
      obtain ⟨front, hfront, hending⟩ := ih tail rfl
      refine ⟨⟨token, position⟩ :: front, ?_, ?_⟩
      · rw [hfront, List.flatMap_append, List.length_append, Nat.add_assoc, List.cons_append]
      · intro l hl
        rcases List.mem_cons.mp hl with rfl | hl
        · exact hspelled.ne_ending
        · exact hending l hl
  | unspelled h =>
    intro lexemes hok
    cases hok

/-- Reading fails only with a character that begins no token. -/
theorem Scan.exists_unrecognized {afterBlank : Bool} {position : Nat} {runs : List Run}
    {result : Except Error (List Lexeme)} (h : Scan afterBlank position runs result) :
    ∀ e, result = .error e → ∃ c place, e = .unrecognized c place := by
  induction h with
  | ending afterBlank position =>
    intro e he
    cases he
  | blank others ih => exact ih
  | @token afterBlank position word rest token result hspelled others ih =>
    intro e he
    cases result with
    | ok tail => cases he
    | error e' =>
      cases he
      exact ih _ rfl
  | unspelled h =>
    intro e he
    cases he
    exact ⟨_, _, rfl⟩

/-- Runs of lowercase letters only are read as names that can be written. -/
theorem Scan.spellable {afterBlank : Bool} {position : Nat} {runs : List Run}
    {result : Except Error (List Lexeme)} (h : Scan afterBlank position runs result)
    (hkind : ∀ run ∈ runs, ∀ c ∈ run.text, Kind.ofChar c = run.kind) :
    ∀ lexemes, result = .ok lexemes → ∀ name place, ⟨.var name, place⟩ ∈ lexemes →
      Names.Spellable name := by
  induction h with
  | ending afterBlank position =>
    intro lexemes hok name place hmem
    cases hok
    simp at hmem
  | blank others ih => exact ih fun run hrun => hkind run (List.mem_cons_of_mem _ hrun)
  | @token afterBlank position word rest token result hspelled others ih =>
    intro lexemes hok name place hmem
    cases result with
    | error e => cases hok
    | ok tail =>
      cases hok
      rcases List.mem_cons.mp hmem with heq | hmem
      · cases heq
        obtain ⟨first, more, rfl, hname⟩ := hspelled.eq_of_var
        refine ⟨by simp [hname], fun c hc => Kind.isLower_of_ofChar ?_⟩
        rw [hname] at hc
        exact hkind (.lower first more) (by simp) c hc
      · exact ih (fun run hrun => hkind run (List.mem_append_right _ hrun)) tail rfl name place hmem
  | unspelled h =>
    intro lexemes hok
    cases hok

end Lexeme

/-- The lexemes of a text end with the end of the text, which stands nowhere else. -/
theorem exists_front_of_tokenize {source : String} {lexemes : List Lexeme}
    (h : tokenize source = .ok lexemes) :
    ∃ front, lexemes = front ++ [⟨.ending, source.length⟩] ∧ ∀ l ∈ front, l.token ≠ .ending := by
  have hscan := Lexeme.scan_ofRuns false 0 (Run.ofText source.toList)
  have hfront := hscan.exists_front lexemes h
  rwa [Run.text_ofText, Nat.zero_add, String.length_toList] at hfront

/-- A text without lexemes has a character that begins no token. -/
theorem exists_unrecognized_of_tokenize {source : String} {e : Error}
    (h : tokenize source = .error e) : ∃ c place, e = .unrecognized c place :=
  (Lexeme.scan_ofRuns false 0 (Run.ofText source.toList)).exists_unrecognized e h

/-- Every variable of a text bears a name that can be written. -/
theorem spellable_of_tokenize {source : String} {lexemes : List Lexeme}
    (h : tokenize source = .ok lexemes) {name : String} {place : Nat}
    (hmem : ⟨.var name, place⟩ ∈ lexemes) : Names.Spellable name :=
  (Lexeme.scan_ofRuns false 0 (Run.ofText source.toList)).spellable
    (fun _ hrun => Run.kind_of_mem_ofText hrun) lexemes h name place hmem

end Propositional
