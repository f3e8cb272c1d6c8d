import Propositional.Error
import Propositional.Lexeme.Run
import Propositional.Lexeme.Token

/-!
# From text to lexemes

Runs are read from the left.  Blanks separate words.  A run of lowercase letters
is a variable, except that `v` and `xor` with blanks on both sides are
connectives.  A run of uppercase letters has to be one of the keywords.  Signs
are brackets, `~`, `^`, `->` and `<->`.  Anything else is an error at its first
character, and the leftmost error counts.  The last lexeme is the end of the
text.
-/

namespace Propositional

namespace Token

/-- What a run of lowercase letters means; `spaced` tells whether blanks surround it. -/
def ofWord (spaced : Bool) (text : List Char) : Token :=
  match Connective.ofSymbol? (String.ofList text) with
  | some op => if spaced then connective op else var (String.ofList text)
  | none => var (String.ofList text)

/-- What a run of uppercase letters means, if it is a keyword. -/
def ofKeyword? (text : List Char) : Option Token :=
  if text = ['T'] then some (const true)
  else if text = ['F'] then some (const false)
  else (Connective.ofSymbol? (String.ofList text)).map connective

/-- What a sign means that stands for a word by itself. -/
def ofSign? (c : Char) : Option Token :=
  if c = '~' then some neg
  else if c = '^' then some (connective .and)
  else if c = '(' then some openBracket
  else if c = ')' then some closeBracket
  else none

end Token

namespace Lexeme

/-- Does the text go on with a blank? -/
def startsBlank : List Run → Bool
  | .blank _ _ :: _ => true
  | _ => false

/-- The runs of a text start with a blank if its first character is one. -/
theorem startsBlank_ofText (text : List Char) :
    startsBlank (Run.ofText text) = text.head?.any Text.isBlank := by
  cases text with
  | nil => rfl
  | cons c rest =>
    obtain ⟨run, tail, heq, hkind⟩ := Run.exists_kind_ofText_cons c rest
    have hblank : startsBlank (run :: tail) = (run.kind == .blank) := by
      cases run <;> rfl
    rw [heq, hblank, hkind, Bool.eq_iff_iff, beq_iff_eq, ← Kind.isBlank_iff]
    rfl

/-- The lexemes of the runs.  `afterBlank` tells whether a blank stands in front of them and
`position` how many characters do. -/
def ofRuns (afterBlank : Bool) (position : Nat) : List Run → Except Error (List Lexeme)
  | [] => .ok [⟨.ending, position⟩]
  | .blank _ more :: rest => ofRuns true (position + (more.length + 1)) rest
  | .lower first more :: rest => do
    let token := Token.ofWord (afterBlank && startsBlank rest) (first :: more)
    let others ← ofRuns false (position + (more.length + 1)) rest
    return ⟨token, position⟩ :: others
  | .upper first more :: rest =>
    match Token.ofKeyword? (first :: more) with
    | some token => do
      let others ← ofRuns false (position + (more.length + 1)) rest
      return ⟨token, position⟩ :: others
    | none => .error (.unrecognized first position)
  | .sign '<' :: .sign '-' :: .sign '>' :: rest => do
    let others ← ofRuns false (position + 3) rest
    return ⟨.connective .biconditional, position⟩ :: others
  | .sign '-' :: .sign '>' :: rest => do
    let others ← ofRuns false (position + 2) rest
    return ⟨.connective .conditional, position⟩ :: others
  | .sign c :: rest =>
    match Token.ofSign? c with
    | some token => do
      let others ← ofRuns false (position + 1) rest
      return ⟨token, position⟩ :: others
    | none => .error (.unrecognized c position)

end Lexeme

/-- The lexemes of a source text, the end of the text last. -/
def tokenize (source : String) : Except Error (List Lexeme) :=
  Lexeme.ofRuns false 0 (Run.ofText source.toList)

end Propositional
