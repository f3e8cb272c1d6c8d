import Propositional.Lexeme.Nesting

/-!
# What encloses a character

The brackets and negations of a text, counted on its characters alone: a bracket
encloses what stands in front of its closing bracket, a negation the word or the
bracketed text behind it.

* `firstInside_of_tooDeep?` — the search for a bracket or negation that stands
  too deep finds the first one.
-/

namespace Propositional

namespace Encloser

/-- What encloses the character behind `c` in a text, if `enclosers` enclose `c`; the innermost
comes first. -/
def afterChar (enclosers : List Encloser) (c : Char) : List Encloser :=
  if c = '(' then bracket :: enclosers
  else if c = '~' then negation :: enclosers
  else if c = ')' then settle (enclosers.drop 1)
  else if c.isAlpha then settle enclosers
  else enclosers

/-- What encloses the character behind a text. -/
def afterText (enclosers : List Encloser) (text : List Char) : List Encloser :=
  text.foldl afterChar enclosers

theorem afterText_append (enclosers : List Encloser) (front back : List Char) :
    afterText enclosers (front ++ back) = afterText (afterText enclosers front) back :=
  List.foldl_append

theorem afterChar_of_isAlpha (enclosers : List Encloser) {c : Char} (h : c.isAlpha = true) :
    afterChar enclosers c = settle enclosers := by
  have hne (d : Char) (hd : d.isAlpha = false) : c ≠ d := by
    intro heq
    rw [heq, hd] at h
    cases h
  rw [afterChar, if_neg (hne '(' rfl), if_neg (hne '~' rfl), if_neg (hne ')' rfl), if_pos h]

/-- Behind a word the negations that waited for it are gone. -/
theorem afterText_letters (enclosers : List Encloser) {text : List Char} (hne : text ≠ [])
    (h : text.all Char.isAlpha = true) : afterText enclosers text = settle enclosers := by
  induction text generalizing enclosers with
  | nil => exact absurd rfl hne
  | cons c rest ih =>
    rw [List.all_cons, Bool.and_eq_true] at h
    have hfirst : afterText enclosers (c :: rest) = afterText (settle enclosers) rest := by
      rw [← afterChar_of_isAlpha enclosers h.1]
      rfl
    rw [hfirst]
    cases rest with
    | nil => rfl
    | cons d more => rw [ih (settle enclosers) (List.cons_ne_nil d more) h.2, settle_settle]

end Encloser

namespace Text

/-- Does the character open a bracket or a negation? -/
def opens (c : Char) : Bool := c == '(' || c == '~'

/-- How many brackets and negations of the text enclose the character at the position. -/
def enclosing (text : List Char) (position : Nat) : Nat :=
  (Encloser.afterText [] (text.take position)).length

/-- At the position stands the first bracket or negation of the text that is inside `limit`
others. -/
def FirstInside (limit : Nat) (text : List Char) (position : Nat) : Prop :=
  (∃ c, text[position]? = some c ∧ opens c = true) ∧ enclosing text position = limit ∧
    ∀ earlier c, earlier < position → text[earlier]? = some c → opens c = true →
      enclosing text earlier < limit

/-- The position of the first bracket or negation inside `limit` or more others, if `enclosers`
enclose the first character, which stands at `start`. -/
def tooDeep? (limit : Nat) (enclosers : List Encloser) (start : Nat) : List Char → Option Nat
  | [] => none
  | c :: rest =>
    if opens c = true ∧ limit ≤ enclosers.length then some start
    else tooDeep? limit (Encloser.afterChar enclosers c) (start + 1) rest

theorem tooDeep?_append (limit : Nat) (enclosers : List Encloser) (start : Nat)
    (front back : List Char) :
    tooDeep? limit enclosers start (front ++ back) =
      (tooDeep? limit enclosers start front).or
        (tooDeep? limit (Encloser.afterText enclosers front) (start + front.length) back) := by
  induction front generalizing enclosers start with
  | nil => rfl
  | cons c rest ih =>
    rw [List.cons_append, tooDeep?, tooDeep?]
    split
    · rfl
    · rw [ih, List.length_cons, Nat.add_assoc, Nat.add_comm 1 rest.length]
      rfl

/-- Nothing is found in a text that opens nothing. -/
theorem tooDeep?_eq_none (limit : Nat) (enclosers : List Encloser) (start : Nat)
    {text : List Char} (h : text.any opens = false) :
    tooDeep? limit enclosers start text = none := by
  induction text generalizing enclosers start with
  | nil => rfl
  | cons c rest ih =>
    rw [List.any_cons, Bool.or_eq_false_iff] at h
    have hc : ¬ (opens c = true ∧ limit ≤ enclosers.length) := by
      rw [h.1]
      exact fun hopens => Bool.false_ne_true hopens.1
    rw [tooDeep?, if_neg hc]
    exact ih _ _ h.2

/-- A character that opens nothing lets no more enclose what is behind it. -/
theorem length_afterChar_le {enclosers : List Encloser} {c : Char} (h : opens c = false) :
    (Encloser.afterChar enclosers c).length ≤ enclosers.length := by
  have hsettle := Encloser.length_settle_le enclosers
  have hdrop := Encloser.length_settle_le (enclosers.drop 1)
  rw [List.length_drop] at hdrop
  have hne : c ≠ '(' ∧ c ≠ '~' := by simpa [opens] using h
  rw [Encloser.afterChar, if_neg hne.1, if_neg hne.2]
  split
  · omega
  · split
    · exact hsettle
    · exact Nat.le_refl _

/-- A character that opens a bracket or a negation encloses what is behind it. -/
theorem length_afterChar_of_opens {enclosers : List Encloser} {c : Char} (h : opens c = true) :
    (Encloser.afterChar enclosers c).length = enclosers.length + 1 := by
  have heq : c = '(' ∨ c = '~' := by simpa [opens] using h
  rcases heq with rfl | rfl <;> rfl

/-- As long as nothing opens too deep, no more than `limit` enclose what comes next. -/
theorem length_afterChar_le_limit {limit : Nat} {enclosers : List Encloser} {c : Char}
    (hlimit : enclosers.length ≤ limit)
    (h : ¬ (opens c = true ∧ limit ≤ enclosers.length)) :
    (Encloser.afterChar enclosers c).length ≤ limit := by
  by_cases hopens : opens c = true
  · have hlength : (Encloser.afterChar enclosers c).length = enclosers.length + 1 :=
      length_afterChar_of_opens hopens
    have hlt : ¬ limit ≤ enclosers.length := fun hle => h ⟨hopens, hle⟩
    omega
  · exact Nat.le_trans (length_afterChar_le (Bool.not_eq_true _ ▸ hopens)) hlimit

/-- What the search finds is a bracket or negation inside `limit` others, and every one in front
of it is inside fewer. -/
theorem exists_of_tooDeep? {limit start place : Nat} {enclosers : List Encloser}
    {text : List Char} (hlimit : enclosers.length ≤ limit)
    (h : tooDeep? limit enclosers start text = some place) :
    ∃ position, place = start + position ∧
      (∃ c, text[position]? = some c ∧ opens c = true) ∧
      (Encloser.afterText enclosers (text.take position)).length = limit ∧
      ∀ earlier c, earlier < position → text[earlier]? = some c → opens c = true →
        (Encloser.afterText enclosers (text.take earlier)).length < limit := by
  induction text generalizing enclosers start with
  | nil => cases h
  | cons c rest ih =>
    rw [tooDeep?] at h
    by_cases hdeep : opens c = true ∧ limit ≤ enclosers.length
    · rw [if_pos hdeep] at h
      cases h
      refine ⟨0, rfl, ⟨c, rfl, hdeep.1⟩, Nat.le_antisymm hlimit hdeep.2, ?_⟩
      intro earlier d hearlier
      exact absurd hearlier (Nat.not_lt_zero earlier)
    · rw [if_neg hdeep] at h
      have hnext := length_afterChar_le_limit hlimit hdeep
      obtain ⟨position, hplace, hat, hinside, hearlier⟩ := ih hnext h
      refine ⟨position + 1, by omega, hat, hinside, ?_⟩
      intro earlier d hlt hget hopens
      cases earlier with
      | zero =>
        cases hget
        have hnot : ¬ limit ≤ enclosers.length := fun hle => hdeep ⟨hopens, hle⟩
        exact Nat.lt_of_not_le hnot
      | succ earlier => exact hearlier earlier d (by omega) hget hopens

/-- The search through a whole text finds the first bracket or negation inside `limit` others. -/
theorem firstInside_of_tooDeep? {limit place : Nat} {text : List Char}
    (h : tooDeep? limit [] 0 text = some place) : FirstInside limit text place := by
  obtain ⟨position, hplace, hfirst⟩ := exists_of_tooDeep? (Nat.zero_le limit) h
  have hposition : place = position := by omega
  exact hposition ▸ hfirst

end Text

end Propositional
