import Mathlib
import Propositional.Proofs.Rows

/-!
# What a setting is read as

A setting spells a number if it is a run of decimal digits, with blanks around it and perhaps a
sign in front, and a number is taken if a word of 64 bits can hold it.  Digits that lead
with zeros may be of any length, so it is the number that is bounded, not its spelling.

Whatever is taken, no more variables are let through than the index of a row can count.

* `ofDigits_eq` — the number in base ten, digit by digit and by the places of the digits;
* `readDigits?_eq_accumulate?` — no digit can take the number out of its bounds and a later one
  bring it back;
* `ofText_eq_ok_iff` — the settings that are read, and what they are read as;
* `ofSetting_exact` — all that is to be said of a setting that is a text.
-/

namespace Propositional.Ceiling

/-- The characters are the digits of the number in base ten, zeros in front allowed. -/
structure Numeral (digits : List Char) (n : Nat) : Prop where
  ne_nil : digits ≠ []
  isDigit : ∀ c ∈ digits, c.isDigit = true
  value_eq : Nat.ofDigits 10 (digits.map digitValue).reverse = n

/-- The text is a numeral with at most a `+` in front and nothing but blanks around it. -/
def Spells (text : List Char) (n : Nat) : Prop :=
  ∃ before sign digits behind, text = before ++ (sign ++ digits) ++ behind ∧
    (∀ c ∈ before, Text.isBlank c = true) ∧ (∀ c ∈ behind, Text.isBlank c = true) ∧
    (sign = [] ∨ sign = ['+']) ∧ Numeral digits n

/-- Reads on behind the number, digit by digit, and gives up as soon as a character is no digit or
a word of 64 bits cannot hold the number any more. -/
def accumulate? (n : Nat) : List Char → Option Nat
  | [] => some n
  | c :: rest =>
    if c.isDigit ∧ n * 10 + digitValue c < UInt64.size then
      accumulate? (n * 10 + digitValue c) rest
    else none

section Digits

variable {digits : List Char} {n : Nat}

/-- A fold from the left gives the digits the values of their places. -/
theorem ofDigits_eq (digits : List Char) :
    ofDigits digits = Nat.ofDigits 10 (digits.map digitValue).reverse := by
  induction digits using List.reverseRecOn with
  | nil => rfl
  | append_singleton digits c ih =>
    have hstep : ofDigits (digits ++ [c]) = ofDigits digits * 10 + digitValue c := by
      rw [ofDigits, List.foldl_append]
      rfl
    rw [hstep, ih, List.map_append, List.reverse_append, List.map_singleton,
      List.reverse_singleton, List.singleton_append, Nat.ofDigits_cons]
    omega

/-- Further digits do not make the number smaller. -/
theorem le_foldl_digits (digits : List Char) (n : Nat) :
    n ≤ digits.foldl (fun n c => n * 10 + digitValue c) n := by
  induction digits generalizing n with
  | nil => exact Nat.le_refl n
  | cons c rest ih =>
    have hrest := ih (n * 10 + digitValue c)
    rw [List.foldl_cons]
    omega

/-- Checking the number at every digit comes to the same as checking it at the end. -/
theorem accumulate?_eq_some_iff {m : Nat} (hn : n < UInt64.size) :
    accumulate? n digits = some m ↔
      (∀ c ∈ digits, c.isDigit = true) ∧
        digits.foldl (fun n c => n * 10 + digitValue c) n = m ∧ m < UInt64.size := by
  induction digits generalizing n with
  | nil =>
    rw [accumulate?, Option.some.injEq, List.foldl_nil]
    constructor
    · rintro rfl
      exact ⟨fun c hc => absurd hc List.not_mem_nil, rfl, hn⟩
    · rintro ⟨-, rfl, -⟩
      rfl
  | cons c rest ih =>
    rw [accumulate?, List.foldl_cons, List.forall_mem_cons]
    split
    · rename_i hboth
      rw [ih hboth.2, and_iff_right hboth.1]
    · rename_i hnot
      refine iff_of_false (fun h => nomatch h) ?_
      rintro ⟨⟨hc, -⟩, rfl, hlt⟩
      -- Too large a number stays too large.
      have hle := le_foldl_digits rest (n * 10 + digitValue c)
      exact hnot ⟨hc, Nat.lt_of_le_of_lt hle hlt⟩

theorem readDigits?_eq_some_iff :
    readDigits? digits = some n ↔ Numeral digits n ∧ n < UInt64.size := by
  have hcondition : (digits.isEmpty || !digits.all Char.isDigit) = false ↔
      digits ≠ [] ∧ ∀ c ∈ digits, c.isDigit = true := by
    simp
  rw [readDigits?]
  constructor
  · intro h
    split at h
    · cases h
    · rename_i hdigits
      obtain ⟨hne, hall⟩ := hcondition.mp (Bool.eq_false_of_not_eq_true hdigits)
      split at h
      · rename_i hlt
        obtain rfl := Option.some.inj h
        exact ⟨⟨hne, hall, (ofDigits_eq digits).symm⟩, hlt⟩
      · cases h
  · rintro ⟨⟨hne, hall, rfl⟩, hlt⟩
    rw [hcondition.mpr ⟨hne, hall⟩, if_neg Bool.false_ne_true, ofDigits_eq, if_pos hlt]

/-- Reading digit by digit with a check at each of them comes to the same. -/
theorem readDigits?_eq_accumulate? (hne : digits ≠ []) :
    readDigits? digits = accumulate? 0 digits := by
  refine Option.ext fun n => ?_
  rw [readDigits?_eq_some_iff, accumulate?_eq_some_iff (by decide), ← ofDigits, ofDigits_eq]
  constructor
  · rintro ⟨⟨-, hall, hvalue⟩, hlt⟩
    exact ⟨hall, hvalue, hlt⟩
  · rintro ⟨hall, hvalue, hlt⟩
    exact ⟨⟨hne, hall, hvalue⟩, hlt⟩

/-- A number is the value of its own decimal text. -/
theorem numeral_toString (n : Nat) : Numeral (toString n).toList n := by
  rw [Nat.toString_eq_repr, Nat.toList_repr]
  refine ⟨Nat.toDigits_ne_nil, fun c hc => ?_, ?_⟩
  · exact Nat.isDigit_of_mem_toDigits (by decide) (by decide) hc
  · have hfold : ofDigits (Nat.toDigits 10 n) = Nat.ofDigitChars 10 (Nat.toDigits 10 n) 0 := by
      simp only [ofDigits, Nat.ofDigitChars, digitValue, Nat.mul_comm]
    rw [← ofDigits_eq, hfold, Nat.ofDigitChars_ten_toDigits]

end Digits

section Texts

variable {text : List Char} {n : Nat}

theorem readNumber?_eq_some_iff :
    readNumber? text = some n ↔
      ∃ sign digits, text = sign ++ digits ∧ (sign = [] ∨ sign = ['+']) ∧
        Numeral digits n ∧ n < UInt64.size := by
  constructor
  · intro h
    unfold readNumber? at h
    split at h
    · exact ⟨['+'], _, rfl, Or.inr rfl, readDigits?_eq_some_iff.mp h⟩
    · exact ⟨[], _, rfl, Or.inl rfl, readDigits?_eq_some_iff.mp h⟩
  · rintro ⟨sign, digits, rfl, rfl | rfl, hnumeral⟩
    · have hread := readDigits?_eq_some_iff.mpr hnumeral
      rw [List.nil_append]
      unfold readNumber?
      split
      · -- The sign is no digit.
        have hplus := hnumeral.1.isDigit '+' List.mem_cons_self
        exact absurd hplus (by decide)
      · exact hread
    · exact readDigits?_eq_some_iff.mpr hnumeral

theorem isBlank_of_isDigit {c : Char} (h : c.isDigit = true) : Text.isBlank c = false := by
  rw [Bool.eq_false_iff]
  intro hblank
  rw [Char.isDigit, Bool.and_eq_true, decide_eq_true_eq, decide_eq_true_eq, ge_iff_le,
    UInt32.le_iff_toNat_le, UInt32.le_iff_toNat_le] at h
  have hlow : 48 ≤ c.toNat := h.1
  have hhigh : c.toNat ≤ 57 := h.2
  rcases (Text.isBlank_iff c).mp hblank with h | h | h | h | h | h | h | h | h | h | h <;> omega

/-- What is left of a text once its ends are trimmed is read exactly if the text spells a number
of 64 bits. -/
theorem readNumber?_trimBlanks_eq_some_iff :
    readNumber? (Text.trimBlanks text) = some n ↔ Spells text n ∧ n < UInt64.size := by
  rw [readNumber?_eq_some_iff]
  constructor
  · rintro ⟨sign, digits, htrim, hsign, hnumeral, hlt⟩
    obtain ⟨before, behind, htext, hbefore, hbehind⟩ := Text.exists_trimBlanks text
    rw [htrim] at htext
    exact ⟨⟨before, sign, digits, behind, htext, hbefore, hbehind, hsign, hnumeral⟩, hlt⟩
  · rintro ⟨⟨before, sign, digits, behind, rfl, hbefore, hbehind, hsign, hnumeral⟩, hlt⟩
    refine ⟨sign, digits, ?_, hsign, hnumeral, hlt⟩
    refine Text.trimBlanks_append hbefore hbehind (fun c hc => ?_)
      (List.append_ne_nil_of_right_ne_nil sign hnumeral.ne_nil)
    rcases List.mem_append.mp hc with hc | hc
    · rcases hsign with rfl | rfl
      · cases hc
      · rw [List.mem_singleton.mp hc]
        decide
    · exact isBlank_of_isDigit (hnumeral.isDigit c hc)

end Texts

section Settings

variable {text : String}

/-- A setting is read exactly if it spells a number of 64 bits. -/
theorem ofText_eq_ok_iff {ceiling : Ceiling} :
    ofText text = .ok ceiling ↔ Spells text.toList ceiling.maxVariables ∧
      ceiling.maxVariables < UInt64.size := by
  rw [← readNumber?_trimBlanks_eq_some_iff, ofText]
  cases readNumber? (Text.trimBlanks text.toList) with
  | none => exact iff_of_false (fun h => nomatch h) (fun h => nomatch h)
  | some number =>
    rw [Except.ok.injEq, Option.some.injEq]
    constructor
    · rintro rfl
      rfl
    · rintro rfl
      rfl

/-- The error holds the setting as it was found. -/
theorem ofText_eq_error_iff {e : Error} :
    ofText text = .error e ↔
      (∀ n, Spells text.toList n → ¬ n < UInt64.size) ∧ e = .invalidSetting settingName text := by
  have hread (n : Nat) : readNumber? (Text.trimBlanks text.toList) = some n ↔
      Spells text.toList n ∧ n < UInt64.size := readNumber?_trimBlanks_eq_some_iff
  rw [ofText]
  cases hnumber : readNumber? (Text.trimBlanks text.toList) with
  | none =>
    simp only [hnumber, reduceCtorEq, false_iff, not_and] at hread
    constructor
    · intro h
      exact ⟨hread, (Except.error.inj h).symm⟩
    · rintro ⟨-, rfl⟩
      rfl
  | some number =>
    refine iff_of_false (fun h => nomatch h) fun h => ?_
    obtain ⟨hspells, hlt⟩ := (hread number).mp hnumber
    exact h.1 number hspells hlt

end Settings

/-- No number of variables is let through that the index of a row cannot count. -/
structure Safe (ceiling : Ceiling) : Prop where
  check_ok_iff : ∀ count, ceiling.check count = .ok () ↔ count ≤ min ceiling.maxVariables 63
  check_error : ∀ count, ¬ count ≤ min ceiling.maxVariables 63 →
    ceiling.check count = .error (.tooManyVariables count (min ceiling.maxVariables 63))
  /-- The word that counts the rows holds their number. -/
  rowCount_eq : ∀ count, ceiling.check count = .ok () →
    2 ^ count < 2 ^ 64 ∧ (Table.rowCount (UInt64.ofNat count)).toNat = 2 ^ count

theorem safe (ceiling : Ceiling) : Safe ceiling where
  check_ok_iff := ceiling.check_eq_ok_iff
  check_error := fun count h => ceiling.check_eq_error count (Nat.lt_of_not_le h)
  rowCount_eq := by
    intro count h
    have hle : count ≤ 63 :=
      Nat.le_trans ((ceiling.check_eq_ok_iff count).mp h) ceiling.limit_le
    have hword : (UInt64.ofNat count).toNat = count := by
      rw [UInt64.toNat_ofNat', Nat.mod_eq_of_lt (by omega)]
    have hcount := Table.toNat_rowCount (n := UInt64.ofNat count) (by rw [hword]; exact hle)
    rw [hword] at hcount
    exact ⟨Nat.pow_lt_pow_right (by omega) (by omega), hcount⟩

/-- A setting that is a text is read exactly if it spells a number below `2 ^ 64`, and as that
number; the error for any other holds the text as it stands.  So every such number is read from its
own decimal text, with any blanks around it.  It makes no difference whether the number is checked
at every digit or at the end, and what is read lets no more variables through than can be
counted. -/
theorem ofSetting_exact (text : String) :
    (∀ ceiling, ofSetting (some text.toUTF8) = .ok ceiling ↔
      ∃ n, Spells text.toList n ∧ n < 2 ^ 64 ∧ ceiling = ⟨n⟩) ∧
    (∀ e, ofSetting (some text.toUTF8) = .error e ↔
      (∀ n, Spells text.toList n → ¬ n < 2 ^ 64) ∧ e = .invalidSetting settingName text) ∧
    (∀ n before behind, n < 2 ^ 64 → (∀ c ∈ before, Text.isBlank c = true) →
      (∀ c ∈ behind, Text.isBlank c = true) →
      text.toList = before ++ (toString n).toList ++ behind →
        ofSetting (some text.toUTF8) = .ok ⟨n⟩) ∧
    (∀ digits, digits ≠ [] → readDigits? digits = accumulate? 0 digits) ∧
    ∀ ceiling, ofSetting (some text.toUTF8) = .ok ceiling → Safe ceiling := by
  have hok (ceiling : Ceiling) : ofText text = .ok ceiling ↔
      ∃ n, Spells text.toList n ∧ n < 2 ^ 64 ∧ ceiling = ⟨n⟩ := by
    rw [ofText_eq_ok_iff]
    constructor
    · rintro ⟨hspells, hlt⟩
      exact ⟨ceiling.maxVariables, hspells, hlt, rfl⟩
    · rintro ⟨n, hspells, hlt, rfl⟩
      exact ⟨hspells, hlt⟩
  rw [ofSetting_toUTF8]
  refine ⟨hok, fun e => ofText_eq_error_iff, ?_, fun digits => readDigits?_eq_accumulate?,
    fun ceiling _ => safe ceiling⟩
  intro n before behind hlt hbefore hbehind htext
  have hspells : Spells text.toList n :=
    ⟨before, [], (toString n).toList, behind, htext, hbefore, hbehind, Or.inl rfl,
      numeral_toString n⟩
  exact (hok ⟨n⟩).mpr ⟨n, hspells, hlt, rfl⟩

/-- The largest number of 64 bits is read between a tab and a wide space, and lets 63 variables
through; the digits of the next number are refused. -/
theorem ofSetting_exact_largest :
    18446744073709551615 < 2 ^ 64 ∧ Text.isBlank '\t' = true ∧ Text.isBlank '\u3000' = true ∧
      ofSetting (some "\t18446744073709551615\u3000".toUTF8) = .ok ⟨18446744073709551615⟩ ∧
      check ⟨18446744073709551615⟩ 63 = .ok () ∧
      readDigits? ['1', '8', '4', '4', '6', '7', '4', '4', '0', '7', '3', '7', '0', '9', '5', '5',
        '1', '6', '1', '6'] = none := by
  obtain ⟨-, -, hpadded, hdigits, hsafe⟩ := ofSetting_exact "\t18446744073709551615\u3000"
  have htab : ∀ c ∈ ['\t'], Text.isBlank c = true := List.forall_mem_singleton.mpr (by decide)
  have hspace : ∀ c ∈ ['\u3000'], Text.isBlank c = true :=
    List.forall_mem_singleton.mpr (by decide)
  have hread := hpadded 18446744073709551615 ['\t'] ['\u3000'] (by decide) htab hspace
    (by decide +kernel)
  refine ⟨by decide, by decide, by decide, hread, ?_, ?_⟩
  · exact ((hsafe _ hread).check_ok_iff 63).mpr (by decide)
  · rw [hdigits _ (List.cons_ne_nil _ _)]
    decide +kernel

end Propositional.Ceiling
