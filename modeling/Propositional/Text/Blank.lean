import Propositional.Text.CodePoints

/-!
# Blanks

The characters of the property `White_Space`: the separators between the words
of a formula, and what is trimmed off the ends of a setting.

* `isBlank_iff` — the blanks, range by range;
* `squeeze_append` — blanks behind blanks at the end of a text make no difference
  once it is squeezed;
* `exists_trimBlanks`, `trimBlanks_append` — what is trimmed off a text are blanks, and all
  blanks around a word are.
-/

namespace Propositional.Text

/-- The property `White_Space`. -/
def whiteSpace : CodePoints where
  ranges :=
  [(0x9, 0xD), (0x20, 0x20), (0x85, 0x85), (0xA0, 0xA0), (0x1680, 0x1680), (0x2000, 0x200A),
   (0x2028, 0x2029), (0x202F, 0x202F), (0x205F, 0x205F), (0x3000, 0x3000)]

/-- Is the character a blank? -/
def isBlank (c : Char) : Bool := whiteSpace.holds c

/-- The text without its leading and trailing blanks. -/
def trimBlanks (text : List Char) : List Char :=
  ((text.dropWhile isBlank).reverse.dropWhile isBlank).reverse

/-- The text with one space in place of every run of blanks. -/
def squeeze : List Char → List Char
  | [] => []
  | c :: rest =>
    -- Of the blanks of a run only the last one leaves its space.
    if isBlank c then
      if rest.head?.any isBlank then squeeze rest else ' ' :: squeeze rest
    else c :: squeeze rest

/-- A character is blank exactly when its code point is in one of these ranges. -/
theorem isBlank_iff (c : Char) :
    isBlank c = true ↔
      (0x9 ≤ c.toNat ∧ c.toNat ≤ 0xD) ∨ c.toNat = 0x20 ∨ c.toNat = 0x85 ∨ c.toNat = 0xA0 ∨
      c.toNat = 0x1680 ∨ (0x2000 ≤ c.toNat ∧ c.toNat ≤ 0x200A) ∨ c.toNat = 0x2028 ∨
      c.toNat = 0x2029 ∨ c.toNat = 0x202F ∨ c.toNat = 0x205F ∨ c.toNat = 0x3000 := by
  simp only [isBlank, CodePoints.holds_iff, whiteSpace, List.mem_cons, List.not_mem_nil, or_false,
    exists_eq_or_imp, exists_eq_left]
  omega

/-- Blanks behind a text that ends with one make no difference. -/
theorem squeeze_append {text blanks : List Char} (hlast : text.getLast?.any isBlank = true)
    (h : ∀ c ∈ blanks, isBlank c = true) : squeeze (text ++ blanks) = squeeze text := by
  have hblanks {c : Char} (hc : isBlank c = true) : squeeze (c :: blanks) = [' '] := by
    induction blanks generalizing c with
    | nil => simp [squeeze, hc]
    | cons d rest ih =>
      have hd : isBlank d = true := h d List.mem_cons_self
      rw [squeeze, if_pos hc, List.head?_cons, Option.any_some, if_pos hd]
      exact ih (fun e he => h e (List.mem_cons_of_mem d he)) hd
  induction text with
  | nil => cases hlast
  | cons c rest ih =>
    cases rest with
    | nil =>
      have hc : isBlank c = true := hlast
      rw [List.singleton_append, hblanks hc]
      simp [squeeze, hc]
    | cons d more =>
      rw [List.getLast?_cons_cons] at hlast
      rw [List.cons_append, squeeze, ih hlast, squeeze]
      rfl

theorem forall_mem_takeWhile_isBlank (text : List Char) :
    ∀ c ∈ text.takeWhile isBlank, isBlank c = true :=
  List.all_eq_true.mp List.all_takeWhile

/-- Nothing but blanks is trimmed off. -/
theorem exists_trimBlanks (text : List Char) :
    ∃ before behind, text = before ++ trimBlanks text ++ behind ∧
      (∀ c ∈ before, isBlank c = true) ∧ ∀ c ∈ behind, isBlank c = true := by
  refine ⟨text.takeWhile isBlank,
    ((text.dropWhile isBlank).reverse.takeWhile isBlank).reverse, ?_,
    forall_mem_takeWhile_isBlank text, fun c hc => ?_⟩
  · rw [trimBlanks, List.append_assoc, ← List.reverse_append, List.takeWhile_append_dropWhile,
      List.reverse_reverse, List.takeWhile_append_dropWhile]
  · exact forall_mem_takeWhile_isBlank _ c (List.mem_reverse.mp hc)

theorem dropWhile_isBlank_append {word behind : List Char} (hword : ∀ c ∈ word, isBlank c = false)
    (hne : word ≠ []) : (word ++ behind).dropWhile isBlank = word ++ behind := by
  obtain ⟨c, rest, rfl⟩ := List.exists_cons_of_ne_nil hne
  rw [List.cons_append, List.dropWhile_cons_of_neg]
  rw [hword c List.mem_cons_self]
  exact Bool.false_ne_true

/-- Around a word all blanks are trimmed off. -/
theorem trimBlanks_append {before word behind : List Char}
    (hbefore : ∀ c ∈ before, isBlank c = true) (hbehind : ∀ c ∈ behind, isBlank c = true)
    (hword : ∀ c ∈ word, isBlank c = false) (hne : word ≠ []) :
    trimBlanks (before ++ word ++ behind) = word := by
  have hreverse : ∀ c ∈ word.reverse, isBlank c = false := fun c hc =>
    hword c (List.mem_reverse.mp hc)
  have hbehind' : ∀ c ∈ behind.reverse, isBlank c = true := fun c hc =>
    hbehind c (List.mem_reverse.mp hc)
  have hend : word.reverse.dropWhile isBlank = word.reverse := by
    have hdrop := @dropWhile_isBlank_append _ [] hreverse (List.reverse_ne_nil_iff.mpr hne)
    rwa [List.append_nil] at hdrop
  rw [trimBlanks, List.append_assoc, List.dropWhile_append_of_pos hbefore,
    dropWhile_isBlank_append hword hne, List.reverse_append,
    List.dropWhile_append_of_pos hbehind', hend, List.reverse_reverse]

end Propositional.Text
