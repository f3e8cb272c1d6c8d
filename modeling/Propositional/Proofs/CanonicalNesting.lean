import Propositional.Formula.Depth
import Propositional.Formula.Lexemes
import Propositional.Formula.Variables
import Propositional.Proofs.Nesting
import Propositional.Text.Enclosed

/-!
# How deep the canonical text nests

* `tooDeep?_render` — counting on the characters of a canonical text and counting
  on its lexemes find the same bracket or negation;
* `nestsWithin_lexemes_iff` — nothing in it opens too deep exactly if its depth
  is within the limit.
-/

namespace Propositional.Formula

/-- Between operands a symbol changes nothing about what encloses. -/
theorem afterText_symbol (op : Connective) {enclosers : List Encloser}
    (hsettled : Encloser.settle enclosers = enclosers) :
    Encloser.afterText enclosers op.symbol.toList = enclosers := by
  have hword (h : op.symbol.toList.all Char.isAlpha = true) (hne : op.symbol.toList ≠ []) :
      Encloser.afterText enclosers op.symbol.toList = enclosers := by
    rw [Encloser.afterText_letters enclosers hne h, hsettled]
  cases op with
  | and => rfl
  | or => exact hword rfl (List.cons_ne_nil _ _)
  | xor => exact hword rfl (List.cons_ne_nil _ _)
  | nand => exact hword rfl (List.cons_ne_nil _ _)
  | nor => exact hword rfl (List.cons_ne_nil _ _)
  | xnor => exact hword rfl (List.cons_ne_nil _ _)
  | conditional => rfl
  | biconditional => rfl

theorem opens_symbol (op : Connective) : op.symbol.toList.any Text.opens = false := by
  cases op <;> rfl

theorem opens_const (value : Bool) : (const value).render.toList.any Text.opens = false := by
  cases value <;> rfl

theorem all_isAlpha_of_spellable {name : String} (h : Names.Spellable name) :
    name.toList.all Char.isAlpha = true := by
  refine List.all_eq_true.mpr fun c hc => ?_
  show (c.isUpper || c.isLower) = true
  rw [h.2 c hc, Bool.or_true]

theorem opens_of_spellable {name : String} (h : Names.Spellable name) :
    name.toList.any Text.opens = false := by
  refine List.any_eq_false.mpr fun c hc hopens => ?_
  have hlower := h.2 c hc
  have hsign : c = '(' ∨ c = '~' := by simpa [Text.opens] using hopens
  rcases hsign with rfl | rfl <;> cases hlower

/-- The characters of a connective between settled operands. -/
theorem afterText_render_bin {op : Connective} {left right : Formula} {enclosers : List Encloser}
    (hsettled : Encloser.settle enclosers = enclosers)
    (hleft : Encloser.afterText enclosers left.renderOperand.toList = enclosers)
    (hright : Encloser.afterText enclosers right.renderOperand.toList = enclosers) :
    Encloser.afterText enclosers (bin op left right).render.toList = enclosers := by
  have hblank (rest : List Char) :
      Encloser.afterText enclosers (' ' :: rest) = Encloser.afterText enclosers rest := rfl
  rw [toList_render_bin, Encloser.afterText_append, hleft, hblank, Encloser.afterText_append,
    afterText_symbol op hsettled, hblank, hright]

/-- Behind an operand the negations that waited for it are gone, and nothing else is. -/
theorem afterText_renderOperand {f : Formula} (h : f.Spellable) (enclosers : List Encloser) :
    Encloser.afterText enclosers f.renderOperand.toList = Encloser.settle enclosers := by
  induction f generalizing enclosers with
  | const value => cases value <;> rfl
  | var name =>
    have hname := h name List.mem_cons_self
    exact Encloser.afterText_letters enclosers hname.1 (all_isAlpha_of_spellable hname)
  | neg operand ih =>
    rw [renderOperand_of_bare rfl, toList_render_neg]
    exact ih h (.negation :: enclosers)
  | bin op left right ihl ihr =>
    obtain ⟨hleft, hright⟩ := spellable_bin_iff.mp h
    have hinner := @afterText_render_bin op left right (.bracket :: enclosers) rfl
      (ihl hleft _) (ihr hright _)
    rw [toList_renderOperand_bin]
    show Encloser.afterText (.bracket :: enclosers) (_ ++ [')']) = _
    rw [Encloser.afterText_append, hinner]
    rfl

/-- On characters and on lexemes, the search through a connective between operands goes through
the one operand and then the other. -/
theorem tooDeep?_render_bin {op : Connective} {left right : Formula} {limit start : Nat}
    {enclosers : List Encloser} (hsettled : Encloser.settle enclosers = enclosers)
    (hleft : left.Spellable)
    (searchLeft : ∀ start, Text.tooDeep? limit enclosers start left.renderOperand.toList =
      (Lexeme.tooDeep? limit enclosers (left.operandLexemes start)).map Lexeme.position)
    (searchRight : ∀ start, Text.tooDeep? limit enclosers start right.renderOperand.toList =
      (Lexeme.tooDeep? limit enclosers (right.operandLexemes start)).map Lexeme.position) :
    Text.tooDeep? limit enclosers start (bin op left right).render.toList =
      (Lexeme.tooDeep? limit enclosers ((bin op left right).lexemes start)).map
        Lexeme.position := by
  have hafter := (afterText_renderOperand hleft enclosers).trans hsettled
  have hafterAll := (Encloser.afterAll_phrase (phrase_operandLexemes left start) enclosers).trans
    hsettled
  have hblank (start : Nat) (rest : List Char) : Text.tooDeep? limit enclosers start (' ' :: rest) =
      Text.tooDeep? limit enclosers (start + 1) rest := by
    rw [Text.tooDeep?, if_neg fun h => Bool.false_ne_true h.1]
    rfl
  have hsymbol (start : Nat) (rest : List Char) :
      Text.tooDeep? limit enclosers start (op.symbol.toList ++ rest) =
        Text.tooDeep? limit enclosers (start + op.symbol.length) rest := by
    rw [Text.tooDeep?_append, Text.tooDeep?_eq_none _ _ _ (opens_symbol op), Option.none_or,
      afterText_symbol op hsettled, String.length_toList]
  have hconnective (position : Nat) (rest : List Lexeme) :
      Lexeme.tooDeep? limit enclosers (⟨.connective op, position⟩ :: rest) =
        Lexeme.tooDeep? limit enclosers rest :=
    Lexeme.tooDeep?_cons_of_not_opens rfl
  rw [toList_render_bin, Text.tooDeep?_append, hafter, hblank, hsymbol, hblank, searchLeft,
    searchRight, lexemes_bin, Lexeme.tooDeep?_append, hafterAll, hconnective, Option.map_or,
    String.length_toList]

/-- A bracket or negation in front of a text and its lexeme in front of those of the text open too
deep together. -/
theorem tooDeep?_opening {limit start : Nat} {enclosers : List Encloser} {c : Char}
    {token : Token} {text : List Char} {lexemes : List Lexeme} (hchar : Text.opens c = true)
    (htoken : token.opens = true)
    (h : Text.tooDeep? limit (Encloser.afterChar enclosers c) (start + 1) text =
      (Lexeme.tooDeep? limit (Encloser.after enclosers token) lexemes).map Lexeme.position) :
    Text.tooDeep? limit enclosers start (c :: text) =
      (Lexeme.tooDeep? limit enclosers (⟨token, start⟩ :: lexemes)).map Lexeme.position := by
  rw [Text.tooDeep?, Lexeme.tooDeep?]
  by_cases hle : limit ≤ enclosers.length
  · rw [if_pos ⟨hchar, hle⟩, if_pos ⟨htoken, hle⟩]
    rfl
  · rw [if_neg fun h => hle h.2, if_neg fun h => hle h.2]
    exact h

/-- The search through an operand finds the same on its characters and on its lexemes. -/
theorem tooDeep?_renderOperand {f : Formula} (h : f.Spellable) (limit : Nat)
    (enclosers : List Encloser) (start : Nat) :
    Text.tooDeep? limit enclosers start f.renderOperand.toList =
      (Lexeme.tooDeep? limit enclosers (f.operandLexemes start)).map Lexeme.position := by
  induction f generalizing enclosers start with
  | const value =>
    rw [renderOperand_of_bare rfl, Text.tooDeep?_eq_none _ _ _ (opens_const value),
      operandLexemes_of_bare rfl, lexemes, Lexeme.tooDeep?_cons_of_not_opens rfl]
    rfl
  | var name =>
    have hopens := opens_of_spellable (h name List.mem_cons_self)
    rw [renderOperand_of_bare rfl, render, Text.tooDeep?_eq_none _ _ _ hopens,
      operandLexemes_of_bare rfl, lexemes, Lexeme.tooDeep?_cons_of_not_opens rfl]
    rfl
  | neg operand ih =>
    rw [renderOperand_of_bare rfl, toList_render_neg, operandLexemes_of_bare rfl, lexemes_neg]
    exact tooDeep?_opening rfl rfl (ih h (.negation :: enclosers) (start + 1))
  | bin op left right ihl ihr =>
    obtain ⟨hleft, hright⟩ := spellable_bin_iff.mp h
    have hinner := @tooDeep?_render_bin op left right limit (start + 1) (.bracket :: enclosers)
      rfl hleft (ihl hleft _) (ihr hright _)
    have hclose (enclosers : List Encloser) (start : Nat) :
        Text.tooDeep? limit enclosers start [')'] = none :=
      Text.tooDeep?_eq_none _ _ _ rfl
    have hcloseLexeme (enclosers : List Encloser) (position : Nat) :
        Lexeme.tooDeep? limit enclosers [⟨.closeBracket, position⟩] = none :=
      Lexeme.tooDeep?_cons_of_not_opens rfl
    rw [toList_renderOperand_bin, operandLexemes_bin]
    refine tooDeep?_opening rfl rfl ?_
    show Text.tooDeep? limit (.bracket :: enclosers) (start + 1) (_ ++ [')']) =
      (Lexeme.tooDeep? limit (.bracket :: enclosers) (_ ++ [_])).map _
    rw [Text.tooDeep?_append, Lexeme.tooDeep?_append, hclose, hcloseLexeme, Option.or_none,
      Option.or_none, hinner]

/-- The search through a canonical text finds the same on its characters and on its lexemes. -/
theorem tooDeep?_render {f : Formula} (h : f.Spellable) (limit start : Nat) :
    Text.tooDeep? limit [] start f.render.toList =
      (Lexeme.tooDeep? limit [] (f.lexemes start)).map Lexeme.position := by
  rcases f.isBareOperand_or_bin with hbare | ⟨op, left, right, rfl⟩
  · rw [← renderOperand_of_bare hbare, ← operandLexemes_of_bare hbare]
    exact tooDeep?_renderOperand h limit [] start
  · obtain ⟨hleft, hright⟩ := spellable_bin_iff.mp h
    exact tooDeep?_render_bin rfl hleft (tooDeep?_renderOperand hleft limit [])
      (tooDeep?_renderOperand hright limit [])

/-- Nothing in a connective between operands opens too deep exactly if nothing in them does. -/
theorem nestsWithin_lexemes_bin {op : Connective} {left right : Formula} {limit start : Nat}
    {enclosers : List Encloser} (hsettled : Encloser.settle enclosers = enclosers)
    (depthLeft : ∀ start,
      Token.NestsWithin limit enclosers ((left.operandLexemes start).map Lexeme.token) ↔
        enclosers.length + left.operandDepth ≤ limit)
    (depthRight : ∀ start,
      Token.NestsWithin limit enclosers ((right.operandLexemes start).map Lexeme.token) ↔
        enclosers.length + right.operandDepth ≤ limit) :
    Token.NestsWithin limit enclosers (((bin op left right).lexemes start).map Lexeme.token) ↔
      enclosers.length + (bin op left right).bracketDepth ≤ limit := by
  have hafterAll := (Encloser.afterAll_phrase (phrase_operandLexemes left start) enclosers).trans
    hsettled
  rw [lexemes_bin, List.map_append, List.map_cons, Token.nestsWithin_append, hafterAll,
    Token.nestsWithin_cons_of_not_opens rfl]
  show _ ∧ Token.NestsWithin limit enclosers _ ↔ _
  rw [depthLeft, depthRight, bracketDepth_bin]
  omega

/-- Nothing in an operand opens too deep exactly if its depth is within the limit. -/
theorem nestsWithin_operandLexemes_iff (f : Formula) {limit : Nat} {enclosers : List Encloser}
    (hlimit : enclosers.length ≤ limit) (start : Nat) :
    Token.NestsWithin limit enclosers ((f.operandLexemes start).map Lexeme.token) ↔
      enclosers.length + f.operandDepth ≤ limit := by
  induction f generalizing enclosers start with
  | const value =>
    have hnests : Token.NestsWithin limit enclosers [.const value] :=
      (Token.nestsWithin_cons_of_not_opens rfl).mpr trivial
    exact iff_of_true hnests hlimit
  | var name =>
    have hnests : Token.NestsWithin limit enclosers [.var name] :=
      (Token.nestsWithin_cons_of_not_opens rfl).mpr trivial
    exact iff_of_true hnests hlimit
  | neg operand ih =>
    have hinner (hlt : (Encloser.negation :: enclosers).length ≤ limit) := ih hlt (start + 1)
    rw [List.length_cons] at hinner
    rw [operandLexemes_of_bare rfl, lexemes_neg, List.map_cons, operandDepth_of_bare rfl,
      bracketDepth_neg, Token.nestsWithin_cons_of_opens rfl]
    constructor
    · rintro ⟨hlt, hrest⟩
      have hdepth := (hinner hlt).mp hrest
      omega
    · intro hdepth
      have hlt : enclosers.length < limit := by omega
      exact ⟨hlt, (hinner hlt).mpr (by omega)⟩
  | bin op left right ihl ihr =>
    have hinner (hlt : (Encloser.bracket :: enclosers).length ≤ limit) :=
      @nestsWithin_lexemes_bin op left right limit (start + 1) (.bracket :: enclosers) rfl
        (ihl hlt) (ihr hlt)
    rw [List.length_cons] at hinner
    rw [operandLexemes_bin, List.map_cons, List.map_append, operandDepth_bin,
      Token.nestsWithin_cons_of_opens rfl, Token.nestsWithin_append]
    constructor
    · rintro ⟨hlt, hrest, _⟩
      have hdepth := (hinner hlt).mp hrest
      omega
    · intro hdepth
      have hlt : enclosers.length < limit := by omega
      exact ⟨hlt, (hinner hlt).mpr (by omega),
        (Token.nestsWithin_cons_of_not_opens rfl).mpr trivial⟩

/-- Nothing in a canonical text opens too deep exactly if its depth is within the limit. -/
theorem nestsWithin_lexemes_iff (f : Formula) (limit start : Nat) :
    Token.NestsWithin limit [] ((f.lexemes start).map Lexeme.token) ↔ f.bracketDepth ≤ limit := by
  rcases f.isBareOperand_or_bin with hbare | ⟨op, left, right, rfl⟩
  · have hoperand := @nestsWithin_operandLexemes_iff f limit [] (Nat.zero_le limit) start
    rwa [operandLexemes_of_bare hbare, operandDepth_of_bare hbare, List.length_nil,
      Nat.zero_add] at hoperand
  · have hbin := @nestsWithin_lexemes_bin op left right limit start [] rfl
      (nestsWithin_operandLexemes_iff left (Nat.zero_le limit))
      (nestsWithin_operandLexemes_iff right (Nat.zero_le limit))
    rwa [List.length_nil, Nat.zero_add] at hbin

end Propositional.Formula
