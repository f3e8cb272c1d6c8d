import Propositional.Text.Blank

/-!
# Where a word stands in a text

A word, or a single character, is looked at together with the text in front of
it and the text behind it; its place is the length of what stands in front.

* `Surrounded.append`, `surrounded_append_iff` — what is surrounded stays so in a
  larger text, and nothing else becomes so unless it is at an end;
* `WholeRun.padded` — blanks around a text leave its whole runs of letters whole;
* `WholeRun.unique` — at one place there is at most one whole run of a class.
-/

namespace Propositional.Text

/-- `word` stands between `front` and `back` as a whole run of the characters of a class. -/
structure WholeRun (holds : Char → Bool) (front word back : List Char) : Prop where
  ne_nil : word ≠ []
  inside : ∀ c ∈ word, holds c = true
  before : ∀ c ∈ front.getLast?, holds c = false
  behind : ∀ c ∈ back.head?, holds c = false

instance (holds : Char → Bool) (front word back : List Char) :
    Decidable (WholeRun holds front word back) :=
  decidable_of_iff (word ≠ [] ∧ word.all holds = true ∧ front.getLast?.all (!holds ·) = true ∧
      back.head?.all (!holds ·) = true) <| by
    rw [List.all_eq_true, Option.all_eq_true, Option.all_eq_true]
    simp only [Bool.not_eq_true']
    exact ⟨fun ⟨hne, hin, hbefore, hbehind⟩ => ⟨hne, hin, hbefore, hbehind⟩,
      fun h => ⟨h.ne_nil, h.inside, h.before, h.behind⟩⟩

/-- What stands between `front` and `back` has a character on either side, and both are blanks. -/
def Surrounded (front back : List Char) : Prop :=
  front.getLast?.any isBlank = true ∧ back.head?.any isBlank = true

instance (front back : List Char) : Decidable (Surrounded front back) :=
  inferInstanceAs (Decidable (_ ∧ _))

/-- The first or the last word of the text is `v` or `xor`, and blanks surround it where `before`
and `behind` stand around the text, but not in the text itself. -/
def Exposed (before text behind : List Char) : Prop :=
  ∃ front word back, text = front ++ word ++ back ∧ WholeRun Char.isLower front word back ∧
    (word = ['v'] ∨ word = ['x', 'o', 'r']) ∧
    ((∀ c ∈ front, isBlank c = true) ∨ ∀ c ∈ back, isBlank c = true) ∧
    Surrounded (before ++ front) (back ++ behind) ∧ ¬ Surrounded front back

/-- The character between `front` and `back` is part of an occurrence of the word. -/
def PartOf (word front : List Char) (c : Char) (back : List Char) : Prop :=
  ∃ before behind, word = before ++ c :: behind ∧ before <:+ front ∧ behind <+: back

/-- What is surrounded by blanks stays so in a larger text. -/
theorem Surrounded.append {front back : List Char} (h : Surrounded front back)
    (before behind : List Char) : Surrounded (before ++ front) (back ++ behind) := by
  obtain ⟨hfront, hback⟩ := h
  cases back with
  | nil => cases hback
  | cons c rest =>
    refine ⟨?_, hback⟩
    rw [List.getLast?_append]
    cases hlast : front.getLast? with
    | none =>
      rw [hlast] at hfront
      cases hfront
    | some d => rwa [hlast] at hfront

/-- Between two characters nothing further away counts. -/
theorem surrounded_append_iff {front back : List Char} (hfront : front ≠ []) (hback : back ≠ [])
    (before behind : List Char) :
    Surrounded (before ++ front) (back ++ behind) ↔ Surrounded front back := by
  obtain ⟨d, rest, rfl⟩ := List.exists_cons_of_ne_nil hback
  rw [Surrounded, Surrounded, List.getLast?_append, List.getLast?_eq_some_getLast hfront,
    Option.some_or]
  exact Iff.rfl

/-- What stands in front of a character outside a class is told by the class. -/
theorem takeWhile_append {holds : Char → Bool} {word back : List Char}
    (inside : ∀ c ∈ word, holds c = true) (behind : ∀ c ∈ back.head?, holds c = false) :
    (word ++ back).takeWhile holds = word := by
  rw [List.takeWhile_append_of_pos inside]
  cases back with
  | nil => exact List.append_nil word
  | cons c rest =>
    have hc : holds c = false := behind c rfl
    rw [List.takeWhile_cons_of_neg (by rw [hc]; exact Bool.false_ne_true), List.append_nil]

/-- A whole run of a class without blanks is one with blanks around the text as well. -/
theorem WholeRun.padded {holds : Char → Bool} {front word back : List Char}
    (h : WholeRun holds front word back) (hholds : ∀ c, isBlank c = true → holds c = false)
    {before behind : List Char} (hbefore : ∀ c ∈ before, isBlank c = true)
    (hbehind : ∀ c ∈ behind, isBlank c = true) :
    WholeRun holds (before ++ front) word (back ++ behind) := by
  refine ⟨h.ne_nil, h.inside, fun c hc => ?_, fun c hc => ?_⟩
  · rw [List.getLast?_append] at hc
    cases hlast : front.getLast? with
    | none =>
      rw [hlast] at hc
      exact hholds c (hbefore c (List.mem_of_getLast? hc))
    | some d =>
      rw [hlast] at hc
      exact h.before c (hlast ▸ hc)
  · cases back with
    | nil => exact hholds c (hbehind c (List.mem_of_mem_head? hc))
    | cons d rest => exact h.behind c hc

/-- At one place there is at most one whole run of a class. -/
theorem WholeRun.unique {holds : Char → Bool} {front word back front' word' back' : List Char}
    (h : WholeRun holds front word back) (h' : WholeRun holds front' word' back')
    (heq : word ++ back = word' ++ back') : word = word' := by
  rw [← takeWhile_append h.inside h.behind, heq, takeWhile_append h'.inside h'.behind]

end Propositional.Text
