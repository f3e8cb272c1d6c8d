import Propositional.Formula.Lexemes
import Propositional.Formula.Variables
import Propositional.Lexeme.Tokenize

/-!
# The canonical text as lexemes

A variable named `v` or `xor` never stands between two blanks in a canonical
text, and the connectives of that spelling always do.  So an operand can be read
wherever it stands, unless there are blanks on both sides of it.

* `readAsOperand` — what an operand is read as;
* `tokenize_render` — the lexemes of the canonical text.
-/

namespace Propositional

namespace Run

/-- Does no run of letters go on into the text? -/
def EndsWord (text : List Char) : Prop :=
  ∀ c, text.head? = some c → Kind.ofChar c = .blank ∨ Kind.ofChar c = .sign

theorem endsWord_nil : EndsWord [] := by
  intro c hc
  cases hc

theorem endsWord_cons {c : Char} (h : Kind.ofChar c = .blank ∨ Kind.ofChar c = .sign)
    (rest : List Char) : EndsWord (c :: rest) := by
  intro d hd
  cases hd
  exact h

/-- A text that ends with a letter is apart from one that letters do not go on into. -/
theorem apart_of_endsWord {front back : List Char} (h : EndsWord back)
    (hletter : ∀ a, front.getLast? = some a → Kind.ofChar a = .lower ∨ Kind.ofChar a = .upper) :
    Apart front back := by
  intro a ha b hb hkind
  rcases hletter a ha with hlower | hupper
  · rcases h b hb with hb | hb <;> simp [hkind, hb] at hlower
  · rcases h b hb with hb | hb <;> simp [hkind, hb] at hupper

end Run

namespace Lexeme

/-- A name is read as a variable, unless there are blanks on both sides of it. -/
theorem ofRuns_name {name : String} (hname : Names.Spellable name) {afterBlank : Bool}
    {rest : List Char} (start : Nat) (hends : Run.EndsWord rest)
    (hspaced : (afterBlank && startsBlank (Run.ofText rest)) = false) :
    ofRuns afterBlank start (Run.ofText (name.toList ++ rest)) =
      (ofRuns false (start + name.length) (Run.ofText rest)).map (⟨.var name, start⟩ :: ·) := by
  obtain ⟨hne, hlower⟩ := hname
  obtain ⟨first, more, htext⟩ := List.exists_cons_of_ne_nil hne
  have happart : Run.Apart name.toList rest := by
    refine Run.apart_of_endsWord hends fun a ha => Or.inl ?_
    exact Kind.ofChar_of_isLower (hlower a (List.mem_of_getLast? ha))
  have hword (spaced : Bool) (hfalse : spaced = false) :
      Token.ofWord spaced (first :: more) = .var name := by
    have hback : String.ofList (first :: more) = name := by
      rw [← htext, String.ofList_toList]
    unfold Token.ofWord
    rw [hback, hfalse]
    split <;> rfl
  have hlength : name.length = more.length + 1 := by
    rw [← String.length_toList, htext, List.length_cons]
  rw [Run.ofText_append happart, htext, Run.ofText_lower (htext ▸ hlower), hlength]
  rw [List.singleton_append, ofRuns, bind_pure_comp, hword _ hspaced]
  rfl

/-- A truth constant is read as itself. -/
theorem ofRuns_const (value : Bool) {afterBlank : Bool} {rest : List Char} (start : Nat)
    (hends : Run.EndsWord rest) :
    ofRuns afterBlank start (Run.ofText ((Formula.const value).render.toList ++ rest)) =
      (ofRuns false (start + 1) (Run.ofText rest)).map (⟨.const value, start⟩ :: ·) := by
  have happart : Run.Apart (Formula.const value).render.toList rest := by
    refine Run.apart_of_endsWord hends fun a ha => Or.inr ?_
    cases value <;> cases ha <;> rfl
  rw [Run.ofText_append happart]
  cases value <;> rfl

/-- A blank in front of anything but a blank is skipped. -/
theorem ofRuns_blank {afterBlank : Bool} {rest : List Char} (start : Nat)
    (h : ∀ c, rest.head? = some c → Kind.ofChar c ≠ .blank) :
    ofRuns afterBlank start (Run.ofText (' ' :: rest)) =
      ofRuns true (start + 1) (Run.ofText rest) := by
  have happart : Run.Apart [' '] rest := by
    intro a ha b hb hkind
    cases ha
    exact absurd hkind.symm (h b hb)
  show ofRuns afterBlank start (Run.ofText ([' '] ++ rest)) = _
  rw [Run.ofText_append happart]
  rfl

/-- The symbol of a connective between blanks is read as that connective. -/
theorem ofRuns_symbol (op : Connective) (start : Nat) (rest : List Char) :
    ofRuns true start (Run.ofText (op.symbol.toList ++ ' ' :: rest)) =
      (ofRuns false (start + op.symbol.length) (Run.ofText (' ' :: rest))).map
        (⟨.connective op, start⟩ :: ·) := by
  have happart : Run.Apart op.symbol.toList (' ' :: rest) := by
    intro a ha b hb hkind
    cases hb
    cases op <;> cases ha <;> cases hkind
  have hblank : startsBlank (Run.ofText (' ' :: rest)) = true := startsBlank_ofText (' ' :: rest)
  rw [Run.ofText_append happart]
  -- The two words are connectives because of the blanks, the other symbols by themselves.
  cases op with
  | or =>
    show ofRuns true start (.lower 'v' [] :: Run.ofText (' ' :: rest)) = _
    rw [ofRuns, hblank]
    rfl
  | xor =>
    show ofRuns true start (.lower 'x' ['o', 'r'] :: Run.ofText (' ' :: rest)) = _
    rw [ofRuns, hblank]
    rfl
  | and => rfl
  | nand => rfl
  | nor => rfl
  | xnor => rfl
  | conditional => rfl
  | biconditional => rfl

end Lexeme

namespace Formula

theorem exists_cons_symbol (op : Connective) :
    ∃ c tail, op.symbol.toList = c :: tail ∧ Kind.ofChar c ≠ .blank := by
  cases op <;> exact ⟨_, _, rfl, by decide⟩

/-- An operand does not begin with a blank. -/
theorem exists_cons_renderOperand {f : Formula} (h : f.Spellable) :
    ∃ c tail, f.renderOperand.toList = c :: tail ∧ Kind.ofChar c ≠ .blank := by
  cases f with
  | const value => cases value <;> exact ⟨_, _, rfl, by decide⟩
  | var name =>
    obtain ⟨hne, hlower⟩ := h name List.mem_cons_self
    obtain ⟨first, more, htext⟩ := List.exists_cons_of_ne_nil hne
    refine ⟨first, more, htext, ?_⟩
    rw [Kind.ofChar_of_isLower (hlower first (by rw [htext]; exact List.mem_cons_self))]
    decide
  | neg operand => exact ⟨'~', _, toList_render_neg operand, by decide⟩
  | bin op left right => exact ⟨'(', _, toList_renderOperand_bin op left right, by decide⟩

/-- The text of the formula as an operand is read as its lexemes, unless there are blanks on both
sides of it. -/
def ReadAsOperand (f : Formula) : Prop :=
  ∀ (afterBlank : Bool) (start : Nat) (rest : List Char), Run.EndsWord rest →
    (afterBlank && Lexeme.startsBlank (Run.ofText rest)) = false →
    Lexeme.ofRuns afterBlank start (Run.ofText (f.renderOperand.toList ++ rest)) =
      (Lexeme.ofRuns false (start + f.renderOperand.length) (Run.ofText rest)).map
        (f.operandLexemes start ++ ·)

/-- A connective between operands is read where no blanks stand around the whole. -/
theorem ofRuns_bin {op : Connective} {left right : Formula} (hright : right.Spellable)
    (readLeft : left.ReadAsOperand) (readRight : right.ReadAsOperand) (start : Nat)
    {rest : List Char} (hends : Run.EndsWord rest)
    (hblank : Lexeme.startsBlank (Run.ofText rest) = false) :
    Lexeme.ofRuns false start (Run.ofText ((bin op left right).render.toList ++ rest)) =
      (Lexeme.ofRuns false (start + (bin op left right).render.length) (Run.ofText rest)).map
        ((bin op left right).lexemes start ++ ·) := by
  have hsymbol : ∀ c, (op.symbol.toList ++ ' ' :: (right.renderOperand.toList ++ rest)).head? =
      some c → Kind.ofChar c ≠ .blank := by
    obtain ⟨c, tail, htext, hc⟩ := exists_cons_symbol op
    rw [htext]
    intro d hd
    cases hd
    exact hc
  have hoperand : ∀ c, (right.renderOperand.toList ++ rest).head? = some c →
      Kind.ofChar c ≠ .blank := by
    obtain ⟨c, tail, htext, hc⟩ := exists_cons_renderOperand hright
    rw [htext]
    intro d hd
    cases hd
    exact hc
  have htext : (bin op left right).render.toList ++ rest = left.renderOperand.toList ++
      ' ' :: (op.symbol.toList ++ ' ' :: (right.renderOperand.toList ++ rest)) := by
    rw [toList_render_bin]
    simp
  have hlength : start + (bin op left right).render.length =
      start + left.renderOperand.length + 1 + op.symbol.length + 1 +
        right.renderOperand.length := by
    rw [length_render_bin]
    omega
  rw [htext, readLeft false start _ (Run.endsWord_cons (Or.inl rfl) _) rfl,
    Lexeme.ofRuns_blank _ hsymbol, Lexeme.ofRuns_symbol, Lexeme.ofRuns_blank _ hoperand,
    readRight true _ rest hends hblank, hlength, lexemes_bin]
  cases Lexeme.ofRuns false _ (Run.ofText rest) with
  | error e => rfl
  | ok others => simp [Except.map]

/-- Every operand of names that can be written is read as its lexemes. -/
theorem readAsOperand {f : Formula} (h : f.Spellable) : f.ReadAsOperand := by
  induction f with
  | const value =>
    intro afterBlank start rest hends _
    have hlength : (const value).renderOperand.length = 1 := by
      cases value <;> rfl
    rw [hlength]
    exact Lexeme.ofRuns_const value start hends
  | var name =>
    intro afterBlank start rest hends hspaced
    exact Lexeme.ofRuns_name (h name List.mem_cons_self) start hends hspaced
  | neg operand ih =>
    intro afterBlank start rest hends _
    have htext : (neg operand).renderOperand.toList ++ rest =
        '~' :: (operand.renderOperand.toList ++ rest) := by
      rw [renderOperand_of_bare rfl, toList_render_neg]
      rfl
    have hread := ih h false (start + 1) rest hends rfl
    have hlength : start + (neg operand).renderOperand.length =
        start + 1 + operand.renderOperand.length := by
      rw [renderOperand_of_bare rfl, length_render_neg]
      omega
    rw [htext, hlength, operandLexemes_of_bare rfl, lexemes_neg]
    show (Lexeme.ofRuns false (start + 1) (Run.ofText (_ ++ rest))).map (⟨.neg, start⟩ :: ·) = _
    rw [hread]
    cases Lexeme.ofRuns false _ (Run.ofText rest) <;> rfl
  | bin op left right ihl ihr =>
    intro afterBlank start rest hends _
    obtain ⟨hleft, hright⟩ := spellable_bin_iff.mp h
    have htext : (bin op left right).renderOperand.toList ++ rest =
        '(' :: ((bin op left right).render.toList ++ ')' :: rest) := by
      rw [toList_renderOperand_bin]
      simp
    have hclose : Run.EndsWord (')' :: rest) := Run.endsWord_cons (Or.inr rfl) rest
    have hread := @ofRuns_bin op _ _ hright (ihl hleft) (ihr hright) (start + 1) _ hclose rfl
    have hlength : start + (bin op left right).renderOperand.length =
        start + 1 + (bin op left right).render.length + 1 := by
      rw [length_renderOperand_bin]
      omega
    rw [htext, hlength, operandLexemes_bin]
    show (Lexeme.ofRuns false (start + 1) (Run.ofText (_ ++ ')' :: rest))).map
      (⟨.openBracket, start⟩ :: ·) = _
    rw [hread]
    show (Except.map _ ((Lexeme.ofRuns false _ (Run.ofText rest)).map _)).map _ = _
    cases Lexeme.ofRuns false _ (Run.ofText rest) with
    | error e => rfl
    | ok others => simp [Except.map]

/-- The lexemes of the canonical text. -/
theorem tokenize_render {f : Formula} (h : f.Spellable) :
    tokenize f.render = .ok (f.lexemes 0 ++ [⟨.ending, f.render.length⟩]) := by
  rcases f.isBareOperand_or_bin with hbare | ⟨op, left, right, rfl⟩
  · have hread := readAsOperand h false 0 [] Run.endsWord_nil rfl
    rw [renderOperand_of_bare hbare, operandLexemes_of_bare hbare, List.append_nil] at hread
    rw [tokenize, hread, Nat.zero_add]
    rfl
  · obtain ⟨hleft, hright⟩ := spellable_bin_iff.mp h
    have hread := @ofRuns_bin op _ _ hright (readAsOperand hleft) (readAsOperand hright) 0 _
      Run.endsWord_nil rfl
    rw [List.append_nil] at hread
    rw [tokenize, hread, Nat.zero_add]
    rfl

end Formula

end Propositional
