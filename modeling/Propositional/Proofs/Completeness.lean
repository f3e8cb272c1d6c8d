import Propositional.Formula.Parse
import Propositional.Proofs.Nesting
import Propositional.Proofs.Soundness

/-!
# A phrase is read as its formula

The lexemes of a phrase are taken apart as its tokens are, and each part is read
on the stack that the parts in front of it leave.

* `read_phrase` — reading a phrase from any stack that it may stand on leaves
  that stack and the formula, once the pending connectives are completed;
* `read_phrase_tooDeep` — unless something in it opens too deep: then reading
  fails at the first lexeme that does.
-/

namespace Propositional

namespace Lexeme

/-- A sequence of lexemes whose tokens begin with one token begins with a lexeme of it. -/
theorem exists_cons {lexemes : List Lexeme} {first : Token} {tokens : List Token}
    (h : lexemes.map token = first :: tokens) :
    ∃ place rest, lexemes = ⟨first, place⟩ :: rest ∧ rest.map token = tokens := by
  obtain ⟨⟨_, place⟩, rest, rfl, hfirst, hrest⟩ := List.map_eq_cons_iff.mp h
  cases hfirst
  exact ⟨place, rest, rfl, hrest⟩

theorem exists_singleton {lexemes : List Lexeme} {only : Token}
    (h : lexemes.map token = [only]) : ∃ place, lexemes = [⟨only, place⟩] := by
  obtain ⟨place, rest, rfl, hrest⟩ := exists_cons h
  cases List.map_eq_nil_iff.mp hrest
  exact ⟨place, rfl⟩

/-- The lexemes of tokens in brackets stand between two brackets. -/
theorem exists_group {lexemes : List Lexeme} {tokens : List Token}
    (h : lexemes.map token = .openBracket :: (tokens ++ [.closeBracket])) :
    ∃ opening middle closing,
      lexemes = ⟨.openBracket, opening⟩ :: (middle ++ [⟨.closeBracket, closing⟩]) ∧
        middle.map token = tokens := by
  obtain ⟨opening, rest, rfl, hrest⟩ := exists_cons h
  obtain ⟨middle, last, rfl, hmiddle, hlast⟩ := List.map_eq_append_iff.mp hrest
  obtain ⟨closing, rfl⟩ := exists_singleton hlast
  exact ⟨opening, middle, closing, rfl, hmiddle⟩

/-- The lexemes of two operands stand on both sides of the connective. -/
theorem exists_operands {lexemes : List Lexeme} {lefts rights : List Token} {op : Connective}
    (h : lexemes.map token = lefts ++ .connective op :: rights) :
    ∃ front place back, lexemes = front ++ ⟨.connective op, place⟩ :: back ∧
      front.map token = lefts ∧ back.map token = rights := by
  obtain ⟨front, rest, rfl, hfront, hrest⟩ := List.map_eq_append_iff.mp h
  obtain ⟨place, back, rfl, hback⟩ := exists_cons hrest
  exact ⟨front, place, back, rfl, hfront, hback⟩

end Lexeme

namespace Reading

variable {limit : Nat}

/-- What the brackets and negations of a stack enclose. -/
def enclosers : List Frame → List Encloser
  | [] => []
  | .group :: rest => .bracket :: enclosers rest
  | .negation :: rest => .negation :: enclosers rest
  | .operand _ _ :: rest => enclosers rest

theorem nesting_eq (stack : List Frame) : nesting stack = (enclosers stack).length := by
  induction stack with
  | nil => rfl
  | cons frame rest ih =>
    cases frame with
    | group =>
      rw [nesting, List.countP_cons_of_pos rfl]
      exact congrArg (· + 1) ih
    | negation =>
      rw [nesting, List.countP_cons_of_pos rfl]
      exact congrArg (· + 1) ih
    | operand _ _ =>
      rw [nesting, List.countP_cons_of_neg Bool.false_ne_true]
      exact ih

/-- No negation waits right below the connectives on top of the stack. -/
def Settled (stack : List Frame) : Prop :=
  Encloser.settle (enclosers stack) = enclosers stack

theorem complete_of_below {level : Nat} {stack : List Frame} (h : Below level stack)
    (value : Formula) : complete stack value = .holding stack value := by
  cases stack with
  | nil => rfl
  | cons frame rest =>
    cases frame with
    | group => rfl
    | negation => exact absurd h id
    | operand _ _ => rfl

theorem collapse_of_below {level : Nat} {stack : List Frame} (h : Below level stack)
    (value : Formula) : collapse level stack value = (stack, value) := by
  cases stack with
  | nil => rfl
  | cons frame rest =>
    cases frame with
    | group => rfl
    | negation => rfl
    | operand left op =>
      have hop : op.precedence < level := h
      rw [collapse, if_neg (Nat.not_le_of_lt hop)]

/-- Completing the tighter connectives first makes no difference. -/
theorem collapse_collapse {loose tight : Nat} (h : loose ≤ tight) (stack : List Frame)
    (value : Formula) :
    collapse loose (collapse tight stack value).1 (collapse tight stack value).2 =
      collapse loose stack value := by
  induction stack generalizing value with
  | nil => rfl
  | cons frame rest ih =>
    cases frame with
    | group => rfl
    | negation => rfl
    | operand left op =>
      by_cases htight : tight ≤ op.precedence
      · have hloose : loose ≤ op.precedence := Nat.le_trans h htight
        rw [collapse, if_pos htight, ih, collapse, if_pos hloose]
      · rw [collapse, if_neg htight]

theorem below_weaken {loose tight : Nat} (h : loose ≤ tight) {stack : List Frame}
    (hbelow : Below loose stack) : Below tight stack := by
  cases stack with
  | nil => trivial
  | cons frame rest =>
    cases frame with
    | group => trivial
    | negation => exact hbelow
    | operand _ op => exact Nat.lt_of_lt_of_le hbelow h

theorem nest_ok {frame : Frame} {stack : List Frame} {position : Nat}
    (h : (enclosers stack).length < limit) :
    nest limit frame stack position = .ok (.wanting (frame :: stack)) := by
  rw [nest, if_pos (by rw [nesting_eq]; exact h)]

theorem nest_tooDeep {frame : Frame} {stack : List Frame} {position : Nat}
    (h : limit ≤ (enclosers stack).length) :
    nest limit frame stack position = .error (.malformed .nestingTooDeep position) := by
  have hnot : ¬ nesting stack < limit := by rw [nesting_eq]; exact Nat.not_lt_of_le h
  rw [nest, if_neg hnot]

/-- A connective takes what has been completed for it as its left operand. -/
theorem step_connective {op : Connective} {stack stack' : List Frame} {value left : Formula}
    {position : Nat} (h : collapse op.precedence stack value = (stack', left)) :
    step limit (.holding stack value) ⟨.connective op, position⟩ =
      .ok (.wanting (.operand left op :: stack')) := by
  simp only [step, h]

theorem foldlM_cons_ok {reading next : Reading} {lexeme : Lexeme} {rest : List Lexeme}
    (h : step limit reading lexeme = .ok next) :
    (lexeme :: rest).foldlM (step limit) reading = rest.foldlM (step limit) next := by
  rw [List.foldlM_cons, h]
  rfl

theorem foldlM_append_ok {reading next : Reading} {front back : List Lexeme}
    (h : front.foldlM (step limit) reading = .ok next) :
    (front ++ back).foldlM (step limit) reading = back.foldlM (step limit) next := by
  rw [List.foldlM_append, h]
  rfl

theorem foldlM_cons_error {reading : Reading} {lexeme : Lexeme} {rest : List Lexeme} {e : Error}
    (h : step limit reading lexeme = .error e) :
    (lexeme :: rest).foldlM (step limit) reading = .error e := by
  rw [List.foldlM_cons, h]
  rfl

theorem foldlM_append_error {reading : Reading} {front back : List Lexeme} {e : Error}
    (h : front.foldlM (step limit) reading = .error e) :
    (front ++ back).foldlM (step limit) reading = .error e := by
  rw [List.foldlM_append, h]
  rfl

/-- Reading a phrase leaves the stack it stands on and its formula. -/
theorem read_phrase {level : Nat} {tokens : List Token} {f : Formula}
    (phrase : Phrase level tokens f) :
    ∀ (lexemes : List Lexeme) (stack : List Frame), lexemes.map Lexeme.token = tokens →
      Token.NestsWithin limit (enclosers stack) tokens →
      (level = Connective.levels →
        lexemes.foldlM (step limit) (.wanting stack) = .ok (complete stack f)) ∧
      (Below level stack → Settled stack → ∃ stack' value,
        lexemes.foldlM (step limit) (.wanting stack) = .ok (.holding stack' value) ∧
          collapse level stack' value = (stack, f)) := by
  have atTop {lexemes : List Lexeme} {stack : List Frame} {g : Formula} (below)
      (h : lexemes.foldlM (step limit) (.wanting stack) = .ok (complete stack g)) :
      ∃ stack' value, lexemes.foldlM (step limit) (.wanting stack) = .ok (.holding stack' value) ∧
        collapse Connective.levels stack' value = (stack, g) :=
    ⟨stack, g, by rw [h, complete_of_below below], collapse_of_below below g⟩
  induction phrase with
  | var name =>
    intro lexemes stack htokens _
    obtain ⟨place, rfl⟩ := Lexeme.exists_singleton htokens
    exact ⟨fun _ => rfl, fun below _ => atTop below rfl⟩
  | const value =>
    intro lexemes stack htokens _
    obtain ⟨place, rfl⟩ := Lexeme.exists_singleton htokens
    exact ⟨fun _ => rfl, fun below _ => atTop below rfl⟩
  | @neg tokens f operand ih =>
    intro lexemes stack htokens hnests
    obtain ⟨place, rest, rfl, hrest⟩ := Lexeme.exists_cons htokens
    obtain ⟨hopen, hnests⟩ := hnests
    have hread : (⟨.neg, place⟩ :: rest).foldlM (step limit) (.wanting stack) =
        .ok (complete stack (.neg f)) := by
      have hnest : step limit (.wanting stack) ⟨.neg, place⟩ =
          .ok (.wanting (.negation :: stack)) := nest_ok (hopen rfl)
      rw [foldlM_cons_ok hnest]
      exact (ih rest (.negation :: stack) hrest hnests).1 rfl
    exact ⟨fun _ => hread, fun below _ => atTop below hread⟩
  | @group tokens f inner ih =>
    intro lexemes stack htokens hnests
    obtain ⟨opening, middle, closing, rfl, hmiddle⟩ := Lexeme.exists_group htokens
    obtain ⟨hopen, hnests⟩ := hnests
    have hinner := ((Token.nestsWithin_append _ _ _ _).mp hnests).1
    obtain ⟨stack', value, hfold, hcollapse⟩ :=
      (ih middle (.group :: stack) hmiddle hinner).2 trivial rfl
    have hread : (⟨.openBracket, opening⟩ :: (middle ++ [⟨.closeBracket, closing⟩])).foldlM
        (step limit) (.wanting stack) = .ok (complete stack f) := by
      have hclose : step limit (.holding stack' value) ⟨.closeBracket, closing⟩ =
          .ok (complete stack f) := by
        simp only [step, close?, hcollapse]
      have hnest : step limit (.wanting stack) ⟨.openBracket, opening⟩ =
          .ok (.wanting (.group :: stack)) := nest_ok (hopen rfl)
      rw [foldlM_cons_ok hnest, foldlM_append_ok hfold, foldlM_cons_ok hclose]
      rfl
    exact ⟨fun _ => hread, fun below _ => atTop below hread⟩
  | @tighter level tokens f h phrase ih =>
    intro lexemes stack htokens hnests
    refine ⟨fun heq => absurd heq (Nat.ne_of_lt h), fun below settled => ?_⟩
    have below' := below_weaken (Nat.le_succ level) below
    obtain ⟨stack', value, hfold, hcollapse⟩ :=
      (ih lexemes stack htokens hnests).2 below' settled
    refine ⟨stack', value, hfold, ?_⟩
    rw [← collapse_collapse (Nat.le_succ level), hcollapse]
    exact collapse_of_below below f
  | @chain lefts rights left right op first last ihf ihl =>
    intro lexemes stack htokens hnests
    refine ⟨fun heq => absurd heq (Nat.ne_of_lt op.precedence_lt_levels),
      fun below settled => ?_⟩
    obtain ⟨front, place, rest, rfl, hfront, hrest⟩ := Lexeme.exists_operands htokens
    obtain ⟨hnf, hnb⟩ := (Token.nestsWithin_append _ _ _ _).mp hnests
    rw [Encloser.afterAll_phrase first, settled] at hnb
    obtain ⟨stack₁, value₁, hfold₁, hcollapse₁⟩ := (ihf front stack hfront hnf).2 below settled
    obtain ⟨stack₂, value₂, hfold₂, hcollapse₂⟩ :=
      (ihl rest (.operand left op :: stack) hrest hnb.2).2 (Nat.lt_succ_self _) settled
    refine ⟨stack₂, value₂, ?_, ?_⟩
    · rw [foldlM_append_ok hfold₁, foldlM_cons_ok (step_connective hcollapse₁)]
      exact hfold₂
    · rw [← collapse_collapse (Nat.le_succ op.precedence), hcollapse₂, collapse,
        if_pos (Nat.le_refl _)]
      exact collapse_of_below below _

/-- Reading a phrase in which something opens too deep fails at the first such lexeme. -/
theorem read_phrase_tooDeep {level : Nat} {tokens : List Token} {f : Formula}
    (phrase : Phrase level tokens f) :
    ∀ (lexemes : List Lexeme) (stack : List Frame) (deep : Lexeme),
      lexemes.map Lexeme.token = tokens →
      Lexeme.tooDeep? limit (enclosers stack) lexemes = some deep →
      level = Connective.levels ∨ (Below level stack ∧ Settled stack) →
      lexemes.foldlM (step limit) (.wanting stack) =
        .error (.malformed .nestingTooDeep deep.position) := by
  induction phrase with
  | var name =>
    intro lexemes stack deep htokens hdeep _
    obtain ⟨place, rfl⟩ := Lexeme.exists_singleton htokens
    cases (Lexeme.tooDeep?_cons_of_not_opens rfl).symm.trans hdeep
  | const value =>
    intro lexemes stack deep htokens hdeep _
    obtain ⟨place, rfl⟩ := Lexeme.exists_singleton htokens
    cases (Lexeme.tooDeep?_cons_of_not_opens rfl).symm.trans hdeep
  | @neg tokens f operand ih =>
    intro lexemes stack deep htokens hdeep _
    obtain ⟨place, rest, rfl, hrest⟩ := Lexeme.exists_cons htokens
    rcases Lexeme.tooDeep?_cons_of_opens rfl hdeep with ⟨hle, rfl⟩ | ⟨hlt, hdeep⟩
    · exact foldlM_cons_error (nest_tooDeep hle)
    · have hnest : step limit (.wanting stack) ⟨.neg, place⟩ =
          .ok (.wanting (.negation :: stack)) := nest_ok hlt
      rw [foldlM_cons_ok hnest]
      exact ih rest (.negation :: stack) deep hrest hdeep (Or.inl rfl)
  | @group tokens f inner ih =>
    intro lexemes stack deep htokens hdeep _
    obtain ⟨opening, middle, closing, rfl, hmiddle⟩ := Lexeme.exists_group htokens
    rcases Lexeme.tooDeep?_cons_of_opens rfl hdeep with ⟨hle, rfl⟩ | ⟨hlt, hdeep⟩
    · exact foldlM_cons_error (nest_tooDeep hle)
    · have hnest : step limit (.wanting stack) ⟨.openBracket, opening⟩ =
          .ok (.wanting (.group :: stack)) := nest_ok hlt
      -- The closing bracket opens nothing, so what opens too deep stands in front of it.
      have hinner : Lexeme.tooDeep? limit (enclosers (.group :: stack)) middle = some deep := by
        have hsplit := Lexeme.tooDeep?_append limit (enclosers (.group :: stack)) middle
          [⟨.closeBracket, closing⟩]
        rw [Lexeme.tooDeep?_cons_of_not_opens rfl, Lexeme.tooDeep?, Option.or_none] at hsplit
        exact hsplit.symm.trans hdeep
      rw [foldlM_cons_ok hnest]
      exact foldlM_append_error
        (ih middle (.group :: stack) deep hmiddle hinner (Or.inr ⟨trivial, rfl⟩))
  | @tighter level tokens f h phrase ih =>
    intro lexemes stack deep htokens hdeep hstack
    obtain ⟨below, settled⟩ := hstack.resolve_left (Nat.ne_of_lt h)
    exact ih lexemes stack deep htokens hdeep
      (Or.inr ⟨below_weaken (Nat.le_succ level) below, settled⟩)
  | @chain lefts rights left right op first last ihf ihl =>
    intro lexemes stack deep htokens hdeep hstack
    obtain ⟨below, settled⟩ := hstack.resolve_left (Nat.ne_of_lt op.precedence_lt_levels)
    obtain ⟨front, place, rest, rfl, hfront, hrest⟩ := Lexeme.exists_operands htokens
    rw [Lexeme.tooDeep?_append, hfront, Encloser.afterAll_phrase first, settled] at hdeep
    cases hleft : Lexeme.tooDeep? limit (enclosers stack) front with
    | some found =>
      rw [hleft] at hdeep
      cases hdeep
      exact foldlM_append_error (ihf front stack deep hfront hleft (Or.inr ⟨below, settled⟩))
    | none =>
      rw [hleft, Option.none_or, Lexeme.tooDeep?_cons_of_not_opens rfl] at hdeep
      have hright : Lexeme.tooDeep? limit (enclosers (.operand left op :: stack)) rest =
          some deep := hdeep
      have hnests := (Lexeme.tooDeep?_eq_none_iff limit (enclosers stack) front).mp hleft
      obtain ⟨stack₁, value₁, hfold₁, hcollapse₁⟩ :=
        (read_phrase first front stack hfront (hfront ▸ hnests)).2 below settled
      rw [foldlM_append_ok hfold₁, foldlM_cons_ok (step_connective hcollapse₁)]
      exact ihl rest (.operand left op :: stack) deep hrest hright
        (Or.inr ⟨Nat.lt_succ_self _, settled⟩)

end Reading

end Propositional
