import Propositional.Argument
import Propositional.Proofs.CanonicalText
import Propositional.Proofs.Parsing
import Propositional.Table.Reading
import Propositional.Text.Words

/-!
# Canonical texts tell what they are of

Different formulas have different canonical texts, however deep these nest: the limit
on nesting stops the reading of a text, but its tokens are a phrase for one formula
only.  No formula has a comma or a bar in its text, so the text of an argument falls
into those of its formulas in one way.

* `eq_of_render_eq` — formulas of one text are equal;
* `render_unambiguous` — so are arguments.
-/

namespace Propositional

namespace Text

/-- A character that is not in what stands in front of it cuts a text in one way. -/
theorem eq_and_eq_of_append_cons {c : Char} {front front' back back' : List Char}
    (h : c ∉ front) (h' : c ∉ front') (heq : front ++ c :: back = front' ++ c :: back') :
    front = front' ∧ back = back' := by
  have hinside {text : List Char} (hc : c ∉ text) : ∀ d ∈ text, (d != c) = true := by
    intro d hd
    exact bne_iff_ne.mpr fun hdc => hc (hdc ▸ hd)
  have hbehind (rest : List Char) : ∀ d ∈ (c :: rest).head?, (d != c) = false := by
    intro d hd
    cases hd
    exact bne_self_eq_false c
  have hfront : front = front' := by
    rw [← takeWhile_append (hinside h) (hbehind back), heq,
      takeWhile_append (hinside h') (hbehind back')]
  subst hfront
  exact ⟨rfl, (List.cons.inj (List.append_cancel_left heq)).2⟩

theorem intercalate_ne_nil {part : List Char} (h : part ≠ []) (bar : List Char)
    (more : List (List Char)) : bar.intercalate (part :: more) ≠ [] := by
  cases more with
  | nil => rwa [List.intercalate_singleton]
  | cons next rest =>
    rw [List.intercalate_cons_cons, List.append_assoc]
    exact List.append_ne_nil_of_left_ne_nil h _

/-- A comma stands behind the first of several parts. -/
theorem intercalate_comma (part next : List Char) (rest : List (List Char)) :
    [',', ' '].intercalate (part :: next :: rest) =
      part ++ ',' :: ' ' :: [',', ' '].intercalate (next :: rest) := by
  rw [List.intercalate_cons_cons, List.append_assoc]
  rfl

/-- What has no comma in it lists no more than one part. -/
theorem ne_intercalate_of_comma_notMem {text : List Char} (h : ',' ∉ text) (part next : List Char)
    (rest : List (List Char)) : text ≠ [',', ' '].intercalate (part :: next :: rest) := by
  rintro rfl
  rw [intercalate_comma] at h
  exact h (List.mem_append_right part List.mem_cons_self)

/-- Parts that are not empty and have no comma in them are told by the text that lists them. -/
theorem eq_of_intercalate_eq {parts others : List (List Char)}
    (h : ∀ part ∈ parts, part ≠ [] ∧ ',' ∉ part) (h' : ∀ part ∈ others, part ≠ [] ∧ ',' ∉ part)
    (heq : [',', ' '].intercalate parts = [',', ' '].intercalate others) : parts = others := by
  induction parts generalizing others with
  | nil =>
    cases others with
    | nil => rfl
    | cons other rest =>
      exact absurd heq.symm (intercalate_ne_nil (h' other List.mem_cons_self).1 _ rest)
  | cons part more ih =>
    obtain ⟨hne, hpart⟩ := h part List.mem_cons_self
    cases others with
    | nil => exact absurd heq (intercalate_ne_nil hne _ more)
    | cons other rest =>
      have hother := (h' other List.mem_cons_self).2
      cases more with
      | nil =>
        rw [List.intercalate_singleton] at heq
        cases rest with
        | nil => rw [heq, List.intercalate_singleton]
        | cons next others => exact absurd heq (ne_intercalate_of_comma_notMem hpart _ _ _)
      | cons next parts =>
        cases rest with
        | nil =>
          rw [List.intercalate_singleton] at heq
          exact absurd heq.symm (ne_intercalate_of_comma_notMem hother _ _ _)
        | cons next' others =>
          rw [intercalate_comma, intercalate_comma] at heq
          obtain ⟨rfl, hback⟩ := eq_and_eq_of_append_cons hpart hother heq
          have hrest := ih (fun p hp => h p (List.mem_cons_of_mem _ hp))
            (fun p hp => h' p (List.mem_cons_of_mem _ hp)) (List.cons.inj hback).2
          rw [hrest]

end Text

namespace Formula

/-- Formulas of one canonical text are equal, however deep it nests. -/
theorem eq_of_render_eq {f g : Formula} (hf : f.Spellable) (hg : g.Spellable)
    (h : f.render = g.render) : f = g := by
  have htokens := tokenize_render hf
  rw [h, tokenize_render hg] at htokens
  have hlexemes : g.lexemes 0 = f.lexemes 0 := (List.append_inj' (Except.ok.inj htokens) rfl).1
  exact Phrase.unique (phrase_lexemes f 0) (hlexemes ▸ phrase_lexemes g 0)

/-- No canonical text is empty. -/
theorem toList_render_ne_nil {f : Formula} (h : f.Spellable) : f.render.toList ≠ [] := by
  cases f with
  | const value => cases value <;> exact List.cons_ne_nil _ _
  | var name => exact (h name List.mem_cons_self).1
  | neg operand =>
    rw [toList_render_neg]
    exact List.cons_ne_nil _ _
  | bin op left right =>
    rw [toList_render_bin]
    exact List.append_ne_nil_of_right_ne_nil _ (List.cons_ne_nil _ _)

/-- No canonical text has a character in it that no name and no sign has. -/
theorem notMem_render {f : Formula} (h : f.Spellable) {c : Char} (hlower : c.isLower = false)
    (hsign : c ∉ signs) : c ∉ f.render.toList := by
  have hsigns : ∀ d ∈ signs, d ≠ c := fun d hd hdc => hsign (hdc ▸ hd)
  have hnames : ∀ name ∈ f.occurrences, ∀ d ∈ name.toList, d ≠ c := by
    rintro name hname d hd rfl
    have hletter := (h name hname).2 d hd
    rw [hlower] at hletter
    cases hletter
  intro hmem
  exact forall_mem_render hsigns f hnames c hmem rfl

/-- Lists of formulas with the same canonical texts are equal. -/
theorem eq_of_map_render_eq {fs gs : List Formula} (hfs : ∀ f ∈ fs, f.Spellable)
    (hgs : ∀ g ∈ gs, g.Spellable)
    (h : (fs.map fun f => f.render.toList) = gs.map fun g => g.render.toList) : fs = gs := by
  induction fs generalizing gs with
  | nil => exact (List.map_eq_nil_iff.mp h.symm).symm
  | cons f rest ih =>
    obtain ⟨g, others, rfl, hg, hothers⟩ := List.map_eq_cons_iff.mp h.symm
    have hfirst := eq_of_render_eq (hfs f List.mem_cons_self) (hgs g List.mem_cons_self)
      (String.toList_inj.mp hg.symm)
    have hrest := ih (fun f hf => hfs f (List.mem_cons_of_mem _ hf))
      (fun g hg => hgs g (List.mem_cons_of_mem _ hg)) hothers.symm
    rw [hfirst, hrest]

end Formula

namespace Argument

/-- Can every name in the argument be written in a source text? -/
def Spellable (argument : Argument) : Prop :=
  (∀ f ∈ argument.premises, f.Spellable) ∧ argument.conclusion.Spellable

instance (argument : Argument) : Decidable argument.Spellable :=
  inferInstanceAs (Decidable (_ ∧ _))

/-- The text of an argument falls into two at its bar. -/
theorem toList_render (argument : Argument) :
    argument.render.toList =
      ([',', ' '].intercalate (argument.premises.map fun f => f.render.toList) ++ [' ']) ++
        '|' :: '=' :: ' ' :: argument.conclusion.render.toList := by
  rw [render, String.toList_append, String.toList_append, String.toList_intercalate, List.map_map,
    List.append_assoc, List.append_assoc]
  rfl

/-- No premise has an empty text, nor one with a comma or a bar in it. -/
theorem Spellable.premise_texts {argument : Argument} (h : argument.Spellable) :
    ∀ part ∈ argument.premises.map fun f => f.render.toList,
      part ≠ [] ∧ ',' ∉ part ∧ '|' ∉ part := by
  intro part hpart
  obtain ⟨f, hf, rfl⟩ := List.mem_map.mp hpart
  have hf := h.1 f hf
  refine ⟨Formula.toList_render_ne_nil hf, ?_, ?_⟩
  · exact Formula.notMem_render hf (by decide) (by decide)
  · exact Formula.notMem_render hf (by decide) (by decide)

/-- No bar stands in front of that of the argument. -/
theorem Spellable.bar_notMem {argument : Argument} (h : argument.Spellable) :
    '|' ∉ [',', ' '].intercalate (argument.premises.map fun f => f.render.toList) ++ [' '] := by
  rw [List.mem_append, not_or]
  refine ⟨TruthTable.notMem_intercalate (by decide) ?_, by decide⟩
  intro part hpart
  exact (h.premise_texts part hpart).2.2

/-- Arguments of one text are equal. -/
theorem eq_of_render_eq {a b : Argument} (ha : a.Spellable) (hb : b.Spellable)
    (h : a.render = b.render) : a = b := by
  have hparts {argument : Argument} (hs : argument.Spellable) :
      ∀ part ∈ argument.premises.map fun f => f.render.toList, part ≠ [] ∧ ',' ∉ part := by
    intro part hpart
    obtain ⟨hne, hcomma, _⟩ := hs.premise_texts part hpart
    exact ⟨hne, hcomma⟩
  have htexts : a.render.toList = b.render.toList := congrArg String.toList h
  rw [toList_render, toList_render] at htexts
  obtain ⟨hfront, hback⟩ := Text.eq_and_eq_of_append_cons ha.bar_notMem hb.bar_notMem htexts
  have hlisted := Text.eq_of_intercalate_eq (hparts ha) (hparts hb)
    (List.append_cancel_right hfront)
  have hpremises := Formula.eq_of_map_render_eq ha.1 hb.1 hlisted
  have hbehind := (List.cons.inj (List.cons.inj hback).2).2
  have hconclusion := Formula.eq_of_render_eq ha.2 hb.2 (String.toList_inj.mp hbehind)
  cases a
  cases b
  rw [Argument.mk.injEq]
  exact ⟨hpremises, hconclusion⟩

/-- Arguments of one text are equal, premise by premise and in the conclusion, and so are formulas
of one canonical text, however deep it nests. -/
theorem render_unambiguous :
    (∀ a b : Argument, a.Spellable → b.Spellable → a.render = b.render → a = b) ∧
    ∀ f g : Formula, f.Spellable → g.Spellable → f.render = g.render → f = g :=
  ⟨fun _ _ => eq_of_render_eq, fun _ _ => Formula.eq_of_render_eq⟩

/-- The text tells the order of the premises, and which words are names. -/
theorem render_unambiguous_words :
    (⟨[.var "v", .neg (.bin .xor (.var "xor") (.const true))], .var "v"⟩ : Argument).Spellable ∧
      (⟨[.neg (.bin .xor (.var "xor") (.const true)), .var "v"].reverse, .var "v"⟩ :
        Argument).Spellable ∧
      (⟨[.var "v", .neg (.bin .xor (.var "xor") (.const true))], .var "v"⟩ : Argument).render =
        (⟨[.neg (.bin .xor (.var "xor") (.const true)), .var "v"].reverse, .var "v"⟩ :
          Argument).render ∧
      (⟨[.var "v", .neg (.bin .xor (.var "xor") (.const true))], .var "v"⟩ : Argument) =
        ⟨[.neg (.bin .xor (.var "xor") (.const true)), .var "v"].reverse, .var "v"⟩ := by
  have ha : (⟨[.var "v", .neg (.bin .xor (.var "xor") (.const true))], .var "v"⟩ :
      Argument).Spellable := by decide
  have hb : (⟨[.neg (.bin .xor (.var "xor") (.const true)), .var "v"].reverse, .var "v"⟩ :
      Argument).Spellable := by decide
  exact ⟨ha, hb, rfl, render_unambiguous.1 _ _ ha hb rfl⟩

end Argument

end Propositional
