import Propositional.Lexeme.Token

/-!
# What encloses a token

A token stands inside the brackets that are open around it and inside the
negations whose operand it belongs to.  A negation encloses the atom or the
bracketed formula behind it, and the negations in between.
-/

namespace Propositional

/-- A bracket or a negation around a token. -/
inductive Encloser where
  | bracket
  | negation
deriving DecidableEq, Repr

namespace Encloser

/-- What is left when an operand is complete: the negations that waited for it are gone. -/
def settle (enclosers : List Encloser) : List Encloser :=
  enclosers.dropWhile (· == negation)

theorem length_settle_le (enclosers : List Encloser) :
    (settle enclosers).length ≤ enclosers.length :=
  (List.dropWhile_sublist _).length_le

theorem settle_settle (enclosers : List Encloser) :
    settle (settle enclosers) = settle enclosers := by
  induction enclosers with
  | nil => rfl
  | cons e rest ih =>
    cases e with
    | bracket => rfl
    | negation => exact ih

/-- What encloses the token behind `token`, if `enclosers` enclose `token`; the innermost comes
first. -/
def after (enclosers : List Encloser) : Token → List Encloser
  | .openBracket => bracket :: enclosers
  | .neg => negation :: enclosers
  | .var _ | .const _ => settle enclosers
  | .closeBracket => settle (enclosers.drop 1)
  | .connective _ | .ending => enclosers

end Encloser

namespace Token

/-- Does the token open a bracket or a negation? -/
def opens : Token → Bool
  | openBracket | neg => true
  | _ => false

/-- How many brackets and negations enclose each token, if `enclosers` enclose the first. -/
def depths (enclosers : List Encloser) : List Token → List Nat
  | [] => []
  | token :: rest => enclosers.length :: depths (Encloser.after enclosers token) rest

/-- No bracket or negation opens inside `limit` others. -/
def NestsBelow (limit : Nat) (tokens : List Token) : Prop :=
  ∀ pair ∈ tokens.zip (depths [] tokens), pair.1.opens = true → pair.2 < limit

instance (limit : Nat) (tokens : List Token) : Decidable (NestsBelow limit tokens) :=
  inferInstanceAs (Decidable
    (∀ pair ∈ tokens.zip (depths [] tokens), pair.1.opens = true → pair.2 < limit))

/-- The largest number of brackets and negations that enclose a token or are it. -/
def nesting (tokens : List Token) : Nat :=
  ((tokens.zip (depths [] tokens)).map fun pair =>
    if pair.1.opens then pair.2 + 1 else pair.2).foldl max 0

end Token

/-- The first lexeme that opens a bracket or a negation inside `limit` others, if `enclosers`
enclose the first of all. -/
def Lexeme.tooDeep? (limit : Nat) (enclosers : List Encloser) : List Lexeme → Option Lexeme
  | [] => none
  | lexeme :: rest =>
    if lexeme.token.opens = true ∧ limit ≤ enclosers.length then some lexeme
    else tooDeep? limit (Encloser.after enclosers lexeme.token) rest

/-- A lexeme that opens nothing is passed over. -/
theorem Lexeme.tooDeep?_cons_of_not_opens {limit : Nat} {enclosers : List Encloser}
    {lexeme : Lexeme} {rest : List Lexeme} (h : lexeme.token.opens = false) :
    tooDeep? limit enclosers (lexeme :: rest) =
      tooDeep? limit (Encloser.after enclosers lexeme.token) rest := by
  rw [tooDeep?, h, if_neg fun hopens => Bool.false_ne_true hopens.1]

/-- A lexeme that opens something opens it too deep or is passed over. -/
theorem Lexeme.tooDeep?_cons_of_opens {limit : Nat} {enclosers : List Encloser}
    {lexeme deep : Lexeme} {rest : List Lexeme} (h : lexeme.token.opens = true)
    (hdeep : tooDeep? limit enclosers (lexeme :: rest) = some deep) :
    (limit ≤ enclosers.length ∧ deep = lexeme) ∨
      (enclosers.length < limit ∧
        tooDeep? limit (Encloser.after enclosers lexeme.token) rest = some deep) := by
  rw [tooDeep?] at hdeep
  by_cases hle : limit ≤ enclosers.length
  · rw [if_pos ⟨h, hle⟩] at hdeep
    exact Or.inl ⟨hle, (Option.some.inj hdeep).symm⟩
  · rw [if_neg fun hboth => hle hboth.2] at hdeep
    exact Or.inr ⟨Nat.lt_of_not_le hle, hdeep⟩

end Propositional
