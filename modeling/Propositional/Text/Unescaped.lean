import Propositional.Text.Escaped

/-!
# Reading escaped labels

A label is read up to the quote that closes it.  A backslash begins an escape: a letter
for tab, line feed or carriage return, a quote or backslash that stands for itself, or
the number of a character in braces.  Anything else behind a backslash is refused, and so
is a number that no character has.

* `readLabel_escaped` — an escaped label is read back, whatever stands behind its quote.
-/

namespace Propositional.Text

/-- Where the reader stands in a label. -/
inductive LabelPlace where
  /-- Between characters. -/
  | plain
  /-- Behind a backslash. -/
  | escape
  /-- Behind the letter of a number; the brace must follow. -/
  | opening
  /-- Inside the braces, behind the digits of this number. -/
  | number (value : Nat)
deriving DecidableEq, Repr

/-- The value of a hexadecimal digit. -/
def hexValue? (c : Char) : Option Nat :=
  if '0' ≤ c ∧ c ≤ '9' then some (c.toNat - '0'.toNat)
  else if 'a' ≤ c ∧ c ≤ 'f' then some (10 + (c.toNat - 'a'.toNat))
  else none

/-- Reads a label up to its closing quote, and tells what stands behind that.  `label` is what has
been read of it. -/
def readLabel (place : LabelPlace) (label : List Char) :
    List Char → Option (List Char × List Char)
  | [] => none
  | c :: rest =>
    match place with
    | .plain =>
      if c = '"' then some (label, rest)
      else if c = '\\' then readLabel .escape label rest
      else readLabel .plain (label ++ [c]) rest
    | .escape =>
      if c = 't' then readLabel .plain (label ++ ['\t']) rest
      else if c = 'n' then readLabel .plain (label ++ ['\n']) rest
      else if c = 'r' then readLabel .plain (label ++ ['\r']) rest
      else if c = '\'' || c = '"' || c = '\\' then readLabel .plain (label ++ [c]) rest
      else if c = 'u' then readLabel .opening label rest
      else none
    | .opening => if c = '\x7b' then readLabel (.number 0) label rest else none
    | .number value =>
      if c = '\x7d' then
        if value.isValidChar then readLabel .plain (label ++ [Char.ofNat value]) rest else none
      else
        match hexValue? c with
        | some digit => readLabel (.number (16 * value + digit)) label rest
        | none => none

theorem hexValue?_digitChar {digit : Nat} (h : digit < 16) :
    hexValue? digit.digitChar = some digit := by
  have hall :
      (List.range 16).all (fun digit => hexValue? digit.digitChar == some digit) = true := by
    decide
  exact beq_iff_eq.mp (List.all_eq_true.mp hall digit (List.mem_range.mpr h))

theorem readLabel_digit {digit : Nat} (h : digit < 16) (value : Nat) (label rest : List Char) :
    readLabel (.number value) label (digit.digitChar :: rest) =
      readLabel (.number (16 * value + digit)) label rest := by
  have hbrace : digit.digitChar ≠ '\x7d' := Nat.digitChar_ne _ rfl
  rw [readLabel, if_neg hbrace, hexValue?_digitChar h]

/-- The digits of a number are read as that number. -/
theorem readLabel_hex (n : Nat) (label rest : List Char) :
    readLabel (.number 0) label (hex n ++ rest) = readLabel (.number n) label rest := by
  -- On the number without its last digit.
  induction n using Nat.strongRecOn generalizing rest with
  | ind n ih =>
    by_cases hsmall : n < 16
    · rw [hex, Nat.toDigits_of_lt_base hsmall, List.singleton_append, readLabel_digit hsmall,
        Nat.mul_zero, Nat.zero_add]
    · have hdigits : hex n = hex (n / 16) ++ [(n % 16).digitChar] :=
        Nat.toDigits_of_base_le (by omega) (by omega)
      have hvalue : 16 * (n / 16) + n % 16 = n := by omega
      rw [hdigits, List.append_assoc, ih (n / 16) (by omega), List.singleton_append,
        readLabel_digit (by omega), hvalue]

/-- The ways in which a character is escaped. -/
theorem escapeChar_cases (c : Char) :
    (c = '\t' ∧ escapeChar c = ['\\', 't']) ∨ (c = '\n' ∧ escapeChar c = ['\\', 'n']) ∨
      (c = '\r' ∧ escapeChar c = ['\\', 'r']) ∨
      ((c = '\'' ∨ c = '"' ∨ c = '\\') ∧ escapeChar c = ['\\', c]) ∨
      (c ≠ '\n' ∧ c ≠ '"' ∧ c ≠ '\\' ∧ escapeChar c = [c]) ∨ escapeChar c = byNumber c := by
  by_cases htab : c = '\t'
  · exact Or.inl ⟨htab, if_pos htab⟩
  by_cases hline : c = '\n'
  · exact Or.inr (Or.inl ⟨hline, by rw [hline]; rfl⟩)
  by_cases hreturn : c = '\r'
  · exact Or.inr (Or.inr (Or.inl ⟨hreturn, by rw [hreturn]; rfl⟩))
  refine Or.inr (Or.inr (Or.inr ?_))
  rw [escapeChar, if_neg htab, if_neg hline, if_neg hreturn]
  by_cases hmark : c = '\'' ∨ c = '"' ∨ c = '\\'
  · exact Or.inl ⟨hmark, if_pos (by simpa [or_assoc] using hmark)⟩
  refine Or.inr ?_
  rw [if_neg (by simpa [or_assoc] using hmark)]
  split
  · have hquote : c ≠ '"' := fun h => hmark (Or.inr (Or.inl h))
    have hslash : c ≠ '\\' := fun h => hmark (Or.inr (Or.inr h))
    exact Or.inl ⟨hline, hquote, hslash, rfl⟩
  · exact Or.inr rfl

/-- An escaped character is read as that character. -/
theorem readLabel_escapeChar (c : Char) (label rest : List Char) :
    readLabel .plain label (escapeChar c ++ rest) = readLabel .plain (label ++ [c]) rest := by
  rcases escapeChar_cases c with ⟨rfl, h⟩ | ⟨rfl, h⟩ | ⟨rfl, h⟩ | ⟨hmark, h⟩ |
    ⟨_, hquote, hslash, h⟩ | h
  · rw [h]
    rfl
  · rw [h]
    rfl
  · rw [h]
    rfl
  · rw [h]
    rcases hmark with rfl | rfl | rfl <;> rfl
  · rw [h, List.singleton_append, readLabel, if_neg hquote, if_neg hslash]
  · have hvalid : c.toNat.isValidChar := c.valid
    have hchar : readLabel (.number c.toNat) label ('\x7d' :: rest) =
        readLabel .plain (label ++ [c]) rest := by
      rw [readLabel, if_pos rfl, if_pos hvalid, Char.ofNat_toNat]
    rw [h, byNumber, List.append_assoc, List.append_assoc]
    show readLabel (.number 0) label (hex c.toNat ++ '\x7d' :: rest) = _
    rw [readLabel_hex, hchar]

/-- An escaped label is read back, whatever stands behind its quote. -/
theorem readLabel_escaped (text label rest : List Char) :
    readLabel .plain label (text.flatMap escapeChar ++ '"' :: rest) =
      some (label ++ text, rest) := by
  induction text generalizing label with
  | nil => simp [readLabel]
  | cons c more ih =>
    rw [List.flatMap_cons, List.append_assoc, readLabel_escapeChar, ih, List.append_assoc,
      List.singleton_append]

theorem mem_hex {c : Char} {n : Nat} (h : c ∈ hex n) : ∃ digit < 16, c = digit.digitChar := by
  induction n using Nat.strongRecOn with
  | ind n ih =>
    by_cases hsmall : n < 16
    · rw [hex, Nat.toDigits_of_lt_base hsmall] at h
      exact ⟨n, hsmall, List.mem_singleton.mp h⟩
    · rw [hex, Nat.toDigits_of_base_le (by omega) (by omega), List.mem_append] at h
      rcases h with h | h
      · exact ih (n / 16) (by omega) h
      · exact ⟨n % 16, by omega, List.mem_singleton.mp h⟩

/-- No escaped character holds a line feed. -/
theorem lineFeed_notMem_escapeChar (c : Char) : '\n' ∉ escapeChar c := by
  rcases escapeChar_cases c with ⟨_, h⟩ | ⟨_, h⟩ | ⟨_, h⟩ | ⟨hmark, h⟩ | ⟨hline, _, _, h⟩ | h
  · rw [h]
    decide
  · rw [h]
    decide
  · rw [h]
    decide
  · rw [h]
    rcases hmark with rfl | rfl | rfl <;> decide
  · rw [h]
    exact fun hmem => hline (List.mem_singleton.mp hmem).symm
  · rw [h, byNumber]
    intro hmem
    rcases List.mem_append.mp hmem with hmem | hmem
    · rcases List.mem_append.mp hmem with hmem | hmem
      · exact absurd hmem (by decide)
      · obtain ⟨digit, _, hdigit⟩ := mem_hex hmem
        exact Nat.digitChar_ne '\n' rfl hdigit.symm
    · exact absurd hmem (by decide)

end Propositional.Text
