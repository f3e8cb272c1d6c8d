import Propositional.Text.Quoted

/-!
# What can go wrong

One type holds every cause for which an operation on formulas may fail; the
wording of each cause is in `Error.message`.

Positions count the characters of the source text, from `0`.

* `Alike` — the same value, or the same error at whatever place.
-/

namespace Propositional

/-- What is wrong with a sequence of tokens. -/
inductive Complaint where
  /-- There is no token at all. -/
  | emptyExpression
  /-- A bracket or negation stands inside too many others. -/
  | nestingTooDeep
  /-- One thing was wanted where another was found. -/
  | expected (wanted found : String)
  /-- Any other complaint, in a caller's own words. -/
  | other (text : String)
deriving DecidableEq, Repr

/-- The complaint in words. -/
def Complaint.text : Complaint → String
  | emptyExpression => "empty expression"
  | nestingTooDeep => "nesting too deep"
  | expected wanted found => "expected " ++ wanted ++ ", found " ++ found
  | other text => text

/-- The cause of a failure. -/
inductive Error where
  /-- The source text has a character that begins no token. -/
  | unrecognized (character : Char) (position : Nat)
  /-- The tokens do not form a formula. -/
  | malformed (complaint : Complaint) (position : Nat)
  /-- An assignment does not bind a variable of the evaluated formula. -/
  | unboundVariable (name : String)
  /-- Validity was asked of an argument without premises. -/
  | emptyArgument
  /-- A table would have more variables than the ceiling allows. -/
  | tooManyVariables (count limit : Nat)
  /-- The value of a setting cannot be understood. -/
  | invalidSetting (key value : String)
  /-- Reading a source or completing a write failed. -/
  | io (reason : String)
  /-- Handing a full block of records to a sink failed. -/
  | csv (reason : String)
deriving DecidableEq, Repr

namespace Error

/-- The complaint that there is no token; it stands at the start of the text. -/
def emptyExpression : Error := malformed .emptyExpression 0

/-- The cause in words. -/
def message : Error → String
  | unrecognized character position =>
    "unrecognized character " ++ Text.quotedChar character ++
      " at position " ++ toString position
  | malformed complaint position =>
    "parse error at position " ++ toString position ++ ": " ++ complaint.text
  | unboundVariable name => "unbound variable: " ++ name
  | emptyArgument => "argument has no premises"
  | tooManyVariables count limit =>
    "expression has " ++ toString count ++ " free variables, the limit is " ++ toString limit
  | invalidSetting key value => "invalid value " ++ Text.quotedText value ++ " for " ++ key
  | io reason => "I/O error: " ++ reason
  | csv reason => "CSV error: " ++ reason

/-- Does the error complain about the tokens of a source text? -/
def isParseError : Error → Bool
  | malformed _ _ => true
  | _ => false

/-- Does the error complain about a character of a source text? -/
def isLexError : Error → Bool
  | unrecognized _ _ => true
  | _ => false

end Error

/-- The same value, or the same error at whatever place. -/
inductive Alike {α : Type} : Except Error α → Except Error α → Prop where
  | ok (value : α) : Alike (.ok value) (.ok value)
  | unrecognized (character : Char) (place place' : Nat) :
      Alike (.error (.unrecognized character place)) (.error (.unrecognized character place'))
  | malformed (complaint : Complaint) (place place' : Nat) :
      Alike (.error (.malformed complaint place)) (.error (.malformed complaint place'))

theorem Alike.map {α β : Type} {result other : Except Error α} (h : Alike result other)
    (f : α → β) : Alike (result.map f) (other.map f) := by
  cases h with
  | ok value => exact .ok (f value)
  | unrecognized character place place' => exact .unrecognized character place place'
  | malformed complaint place place' => exact .malformed complaint place place'

/-- A result like a value is that value. -/
theorem Alike.eq_ok {α : Type} {value : α} {other : Except Error α} (h : Alike (.ok value) other) :
    other = .ok value := by
  cases h
  rfl

/-- What follows from results that are alike up to a view is alike if it is so for any two values of
one view. -/
theorem Alike.bind_of_map {α β γ : Type} {result other : Except Error α} {view : α → β}
    (h : Alike (result.map view) (other.map view)) {f g : α → Except Error γ}
    (hnext : ∀ value value', view value = view value' → Alike (f value) (g value')) :
    Alike (result >>= f) (other >>= g) := by
  cases result with
  | error e =>
    cases other with
    | error e' =>
      cases h with
      | unrecognized character place place' => exact .unrecognized character place place'
      | malformed complaint place place' => exact .malformed complaint place place'
    | ok value' => cases h
  | ok value =>
    cases other with
    | error e' => cases h
    | ok value' => exact hnext value value' (Except.ok.inj h.eq_ok).symm

/-- What follows from like results is alike if it is so for every value. -/
theorem Alike.bind {α β : Type} {result other : Except Error α} (h : Alike result other)
    {f g : α → Except Error β} (hnext : ∀ value, Alike (f value) (g value)) :
    Alike (result >>= f) (other >>= g) := by
  refine (h.map id).bind_of_map fun value value' heq => ?_
  obtain rfl : value = value' := heq
  exact hnext value

end Propositional
