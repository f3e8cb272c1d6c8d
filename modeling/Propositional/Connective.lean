/-!
# Connectives

The eight two-place connectives of propositional logic: their truth functions,
their spellings, and how tightly they bind when brackets are left out.
Negation is the only one-place connective; it binds tighter than all of these.

* `ofSymbol?_symbol` — every connective is found again under its own symbol;
* `ofSymbol?_eq_some_iff` — and under no other spelling, except exclusive or,
  which also answers to `XOR`.
-/

namespace Propositional

/-- A two-place connective. -/
inductive Connective where
  | and
  | or
  | xor
  | nand
  | nor
  | xnor
  /-- Material implication. -/
  | conditional
  /-- Material equivalence. -/
  | biconditional
deriving DecidableEq, Repr

namespace Connective

/-- Every connective, in the order in which they are listed to a reader. -/
def all : List Connective :=
  [and, or, xor, nand, nor, xnor, conditional, biconditional]

/-- The spelling a formula is rendered with. -/
def symbol : Connective → String
  | and => "^"
  | or => "v"
  | xor => "xor"
  | nand => "NAND"
  | nor => "NOR"
  | xnor => "XNOR"
  | conditional => "->"
  | biconditional => "<->"

/-- Is the connective spelled this way?  Exclusive or has the second spelling `XOR`. -/
def isSpelled (op : Connective) (spelling : String) : Bool :=
  spelling == op.symbol || (op == xor && spelling == "XOR")

/-- The connective with the given spelling. -/
def ofSymbol? (spelling : String) : Option Connective :=
  all.find? (·.isSpelled spelling)

/-- The truth function of the connective. -/
def apply : Connective → Bool → Bool → Bool
  | and, p, q => p && q
  | or, p, q => p || q
  | xor, p, q => p != q
  | nand, p, q => !(p && q)
  | nor, p, q => !(p || q)
  | xnor, p, q => p == q
  | conditional, p, q => !p || q
  | biconditional, p, q => p == q

/-- How tightly the connective binds; `0` binds loosest. -/
def precedence : Connective → Nat
  | biconditional => 0
  | conditional => 1
  | xor | xnor => 2
  | or | nor => 3
  | and | nand => 4

/-- The number of levels of precedence. -/
def levels : Nat := 5

theorem precedence_lt_levels (op : Connective) : op.precedence < levels := by
  cases op <;> decide

/-- Different connectives have different symbols. -/
theorem symbol_injective (a b : Connective) (h : a.symbol = b.symbol) : a = b := by
  revert h
  cases a <;> cases b <;> decide

/-- Every connective is found again under its own symbol. -/
theorem ofSymbol?_symbol (op : Connective) : ofSymbol? op.symbol = some op := by
  cases op <;> decide

/-- A spelling names a connective exactly if it is its symbol, or `XOR` for exclusive or. -/
theorem ofSymbol?_eq_some_iff (spelling : String) (op : Connective) :
    ofSymbol? spelling = some op ↔ spelling = op.symbol ∨ (spelling = "XOR" ∧ op = xor) := by
  constructor
  · intro h
    have spelled := List.find?_some h
    simp only [isSpelled, Bool.or_eq_true, beq_iff_eq, Bool.and_eq_true] at spelled
    rcases spelled with h | ⟨h, h'⟩
    · exact Or.inl h
    · exact Or.inr ⟨h', h⟩
  · rintro (h | ⟨h, rfl⟩)
    · rw [h, ofSymbol?_symbol]
    · subst h
      decide

end Connective

/-- The symbol of negation, the only one-place connective. -/
def negationSymbol : String := "~"

end Propositional
