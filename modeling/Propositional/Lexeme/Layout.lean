import Propositional.Lexeme.Token
import Propositional.Names
import Propositional.Text.Words

/-!
# How lexemes lie in a text

A text is made of words and of blanks between them.  Which words there are, and
which characters belong to none, is said here of the characters alone.

* `Lexeme.Laid` — the text is the words of the lexemes with blanks between them;
* `Text.Unreadable` — the character belongs to no word;
* `Lexeme.Scanned` — the lexemes are those of the whole text.
-/

namespace Propositional

namespace Token

/-- The words that are not made of letters. -/
def signs : List (List Char) := [['~'], ['^'], ['('], [')'], ['-', '>'], ['<', '-', '>']]

/-- The words that are made of uppercase letters. -/
def keywords : List String := ["T", "F", "NAND", "NOR", "XNOR", "XOR"]

/-- The word spells the token. -/
inductive SpelledAs : Token → List Char → Prop where
  | var {name : String} (h : Names.Spellable name) : SpelledAs (.var name) name.toList
  | verum : SpelledAs (.const true) ['T']
  | falsum : SpelledAs (.const false) ['F']
  | neg : SpelledAs .neg ['~']
  | connective (op : Connective) : SpelledAs (.connective op) op.symbol.toList
  | uppercaseXor : SpelledAs (.connective .xor) ['X', 'O', 'R']
  | openBracket : SpelledAs .openBracket ['(']
  | closeBracket : SpelledAs .closeBracket [')']

/-- What a whole run of lowercase letters stands for between two texts: two of the connectives if
there are blanks on both sides of it, a variable otherwise. -/
def ofLowercase (front word back : List Char) : Token :=
  if Text.Surrounded front back ∧ word = ['v'] then .connective .or
  else if Text.Surrounded front back ∧ word = ['x', 'o', 'r'] then .connective .xor
  else .var (String.ofList word)

theorem SpelledAs.ne_nil {token : Token} {word : List Char} (h : SpelledAs token word) :
    word ≠ [] := by
  cases h with
  | var h => exact h.1
  | connective op => cases op <;> exact List.cons_ne_nil _ _
  | _ => exact List.cons_ne_nil _ _

theorem SpelledAs.ne_ending {token : Token} {word : List Char} (h : SpelledAs token word) :
    token ≠ .ending := by
  cases h <;> simp

end Token

/-- The character between `front` and `back` belongs to no word of a formula. -/
inductive Text.Unreadable : List Char → Char → List Char → Prop where
  /-- It is neither a blank nor a letter nor part of a sign. -/
  | stray {front : List Char} {c : Char} {back : List Char} (hblank : isBlank c = false)
      (hletter : c.isAlpha = false) (hsign : ∀ sign ∈ Token.signs, ¬ PartOf sign front c back) :
      Unreadable front c back
  /-- It is the first of a run of uppercase letters that is no keyword. -/
  | keyword {front back more rest : List Char} {c : Char} (hback : back = more ++ rest)
      (hrun : WholeRun Char.isUpper front (c :: more) rest)
      (hword : String.ofList (c :: more) ∉ Token.keywords) : Unreadable front c back

namespace Lexeme

/-- The text from the position on is blanks and the words of the lexemes in turn, and blanks. -/
inductive Laid : Nat → List Char → List Lexeme → Prop where
  | nil {position : Nat} {blanks : List Char} (h : ∀ c ∈ blanks, Text.isBlank c = true) :
      Laid position blanks []
  | cons {position : Nat} {blanks word rest : List Char} {token : Token} {others : List Lexeme}
      (h : ∀ c ∈ blanks, Text.isBlank c = true) (spelled : token.SpelledAs word)
      (tail : Laid (position + blanks.length + word.length) rest others) :
      Laid position (blanks ++ (word ++ rest)) (⟨token, position + blanks.length⟩ :: others)

/-- The lexemes are those of the text. -/
structure Scanned (text : List Char) (lexemes : List Lexeme) : Prop where
  /-- The words of the text are those of the lexemes, and the end stands behind them. -/
  laid : ∃ front, lexemes = front ++ [⟨.ending, text.length⟩] ∧
    (∀ l ∈ front, l.token ≠ .ending) ∧ Laid 0 text front
  /-- A run of lowercase letters is one word, and it depends on what is around it which. -/
  lowercase : ∀ front word back, text = front ++ word ++ back →
    Text.WholeRun Char.isLower front word back →
    ∀ token, ⟨token, front.length⟩ ∈ lexemes ↔ token = Token.ofLowercase front word back
  /-- A run of uppercase letters is one word. -/
  uppercase : ∀ front word back, text = front ++ word ++ back →
    Text.WholeRun Char.isUpper front word back →
    ∃ token : Token, token.SpelledAs word ∧
      ∀ other, ⟨other, front.length⟩ ∈ lexemes ↔ other = token

/-- More blanks in front of a text that lexemes are laid in. -/
theorem Laid.blanks {position : Nat} {text : List Char} {lexemes : List Lexeme}
    {blanks : List Char} (h : ∀ c ∈ blanks, Text.isBlank c = true)
    (laid : Laid (position + blanks.length) text lexemes) :
    Laid position (blanks ++ text) lexemes := by
  have hjoined {more : List Char} (hmore : ∀ c ∈ more, Text.isBlank c = true) :
      ∀ c ∈ blanks ++ more, Text.isBlank c = true :=
    List.forall_mem_append.mpr ⟨h, hmore⟩
  cases laid with
  | nil hmore => exact .nil (hjoined hmore)
  | @cons _ more word rest token others hmore spelled tail =>
    have hlength : position + blanks.length + more.length = position + (blanks ++ more).length := by
      rw [List.length_append, Nat.add_assoc]
    rw [hlength] at tail ⊢
    rw [← List.append_assoc]
    exact .cons (hjoined hmore) spelled tail

/-- The end of a text is not one of its words. -/
theorem Laid.ne_ending {start : Nat} {text : List Char} {lexemes : List Lexeme}
    (laid : Laid start text lexemes) : ∀ l ∈ lexemes, l.token ≠ .ending := by
  induction laid with
  | nil _ => exact fun l hl => absurd hl List.not_mem_nil
  | cons _ spelled _ ih =>
    intro l hl
    rcases List.mem_cons.mp hl with rfl | hl
    · exact spelled.ne_ending
    · exact ih l hl

/-- No lexeme stands in front of the position that the text starts at. -/
theorem Laid.le_position {start : Nat} {text : List Char} {lexemes : List Lexeme}
    (laid : Laid start text lexemes) : ∀ l ∈ lexemes, start ≤ l.position := by
  induction laid with
  | nil _ => exact fun l hl => absurd hl List.not_mem_nil
  | cons _ _ _ ih =>
    intro l hl
    rcases List.mem_cons.mp hl with rfl | hl
    · exact Nat.le_add_right _ _
    · have hle := ih l hl
      omega

/-- No two lexemes stand at one place. -/
theorem Laid.unique {start : Nat} {text : List Char} {lexemes : List Lexeme}
    (laid : Laid start text lexemes) {a b : Token} {place : Nat} (ha : ⟨a, place⟩ ∈ lexemes)
    (hb : ⟨b, place⟩ ∈ lexemes) : a = b := by
  induction laid with
  | nil _ => exact absurd ha List.not_mem_nil
  | @cons position blanks word _ _ others _ spelled tail ih =>
    have hpos := List.length_pos_iff.mpr spelled.ne_nil
    have hbehind {c : Token} (hc : ⟨c, place⟩ ∈ others) :
        position + blanks.length + word.length ≤ place := tail.le_position _ hc
    rcases List.mem_cons.mp ha with heq | ha'
    · rcases List.mem_cons.mp hb with heq' | hb'
      · cases heq
        cases heq'
        rfl
      · cases heq
        have hle := hbehind hb'
        omega
    · rcases List.mem_cons.mp hb with heq' | hb'
      · cases heq'
        have hle := hbehind ha'
        omega
      · exact ih ha' hb'

end Lexeme

end Propositional
