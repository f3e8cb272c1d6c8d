import Propositional.Text.Blank

/-!
# Runs of like characters

A source text falls into maximal runs: of blanks, of lowercase letters, and of
uppercase letters; every other character stands alone as a sign.  Words are
then read run by run, and what surrounds a word is the run before and after it.

* `text_ofText` — the runs, joined, are the text;
* `ofText_append` — the runs of two texts that no run joins are those of one and
  then the other;
* `exists_of_ofText_eq_append` — where the runs fall into two parts, so does the
  text, and no run joins the parts;
* `kind_of_mem_ofText` — every character of a run is of the kind of the run;
* `separated_ofText` — no two neighbouring runs are of one kind, so no run of
  letters or blanks is cut.
-/

namespace Propositional

/-- What a character may be part of. -/
inductive Kind where
  | blank
  | lower
  | upper
  | sign
deriving DecidableEq, Repr

/-- The kind of a character; letters are those of ASCII. -/
def Kind.ofChar (c : Char) : Kind :=
  if Text.isBlank c then blank
  else if c.isLower then lower
  else if c.isUpper then upper
  else sign

theorem Kind.isLower_of_ofChar {c : Char} (h : Kind.ofChar c = lower) : c.isLower = true := by
  unfold ofChar at h
  split at h
  · cases h
  · split at h
    · assumption
    · split at h <;> cases h

theorem Kind.ofChar_of_isLower {c : Char} (h : c.isLower = true) : Kind.ofChar c = lower := by
  have hnot : Text.isBlank c = false := by
    rw [Bool.eq_false_iff]
    intro hblank
    rw [Text.isBlank_iff] at hblank
    have hrange : 97 ≤ c.toNat ∧ c.toNat ≤ 122 := by
      have hboth : (decide ('a'.val ≤ c.val) && decide (c.val ≤ 'z'.val)) = true := h
      simp only [Bool.and_eq_true, decide_eq_true_eq] at hboth
      exact ⟨UInt32.le_iff_toNat_le.mp hboth.1, UInt32.le_iff_toNat_le.mp hboth.2⟩
    omega
  rw [ofChar, hnot, h]
  rfl

theorem Kind.isUpper_of_ofChar {c : Char} (h : Kind.ofChar c = upper) : c.isUpper = true := by
  unfold ofChar at h
  split at h
  · cases h
  · split at h
    · cases h
    · split at h
      · assumption
      · cases h

theorem Kind.ofChar_of_isUpper {c : Char} (h : c.isUpper = true) : Kind.ofChar c = upper := by
  have hrange : 65 ≤ c.toNat ∧ c.toNat ≤ 90 := by
    have hboth : 'A'.val ≤ c.val ∧ c.val ≤ 'Z'.val := of_decide_eq_true h
    exact ⟨UInt32.le_iff_toNat_le.mp hboth.1, UInt32.le_iff_toNat_le.mp hboth.2⟩
  have hblank : Text.isBlank c = false := by
    rw [Bool.eq_false_iff]
    intro hblank
    rw [Text.isBlank_iff] at hblank
    omega
  have hlower : c.isLower = false := by
    rw [Bool.eq_false_iff]
    intro hlower
    have hboth : (decide ('a'.val ≤ c.val) && decide (c.val ≤ 'z'.val)) = true := hlower
    simp only [Bool.and_eq_true, decide_eq_true_eq] at hboth
    have hle : 97 ≤ c.toNat := UInt32.le_iff_toNat_le.mp hboth.1
    omega
  rw [ofChar, hblank, hlower, h]
  rfl

theorem Kind.isLower_iff (c : Char) : c.isLower = true ↔ Kind.ofChar c = lower :=
  ⟨ofChar_of_isLower, isLower_of_ofChar⟩

theorem Kind.isUpper_iff (c : Char) : c.isUpper = true ↔ Kind.ofChar c = upper :=
  ⟨ofChar_of_isUpper, isUpper_of_ofChar⟩

theorem Kind.isBlank_iff (c : Char) : Text.isBlank c = true ↔ Kind.ofChar c = blank := by
  unfold ofChar
  constructor
  · intro h
    rw [if_pos h]
  · intro h
    by_cases hblank : Text.isBlank c = true
    · exact hblank
    · rw [if_neg hblank] at h
      split at h
      · cases h
      · split at h <;> cases h

theorem Kind.isLower_eq_false_of_isBlank {c : Char} (h : Text.isBlank c = true) :
    c.isLower = false := by
  rw [Bool.eq_false_iff]
  intro hlower
  rw [isBlank_iff, ofChar_of_isLower hlower] at h
  cases h

/-- A maximal run of one kind, given by its first character and the others; a sign is alone. -/
inductive Run where
  | blank (first : Char) (more : List Char)
  | lower (first : Char) (more : List Char)
  | upper (first : Char) (more : List Char)
  | sign (character : Char)
deriving DecidableEq, Repr

namespace Run

/-- The characters of the run. -/
def text : Run → List Char
  | blank first more | lower first more | upper first more => first :: more
  | sign c => [c]

/-- The kind of the characters of the run. -/
def kind : Run → Kind
  | blank _ _ => .blank
  | lower _ _ => .lower
  | upper _ _ => .upper
  | sign _ => .sign

/-- The run that a single character makes. -/
def single (c : Char) : Run :=
  match Kind.ofChar c with
  | .blank => blank c []
  | .lower => lower c []
  | .upper => upper c []
  | .sign => sign c

/-- Sets a character in front of a sequence of runs: it joins the first run if that is of its
kind, unless it is a sign. -/
def cons (c : Char) (runs : List Run) : List Run :=
  match Kind.ofChar c, runs with
  | .blank, blank first more :: rest => blank c (first :: more) :: rest
  | .lower, lower first more :: rest => lower c (first :: more) :: rest
  | .upper, upper first more :: rest => upper c (first :: more) :: rest
  | _, runs => single c :: runs

/-- The runs of a text. -/
def ofText : List Char → List Run
  | [] => []
  | c :: rest => cons c (ofText rest)

/-- Does no run of letters or blanks go on from the one text into the other? -/
def Apart (front back : List Char) : Prop :=
  ∀ a ∈ front.getLast?, ∀ b ∈ back.head?, Kind.ofChar a = Kind.ofChar b → Kind.ofChar a = .sign

/-- Are neighbouring runs of different kinds, signs apart? -/
def Separated : List Run → Prop
  | [] => True
  | [_] => True
  | a :: b :: rest => (a.kind = b.kind → a.kind = .sign) ∧ Separated (b :: rest)

theorem text_single (c : Char) : (single c).text = [c] := by
  unfold single
  split <;> rfl

theorem kind_single (c : Char) : (single c).kind = Kind.ofChar c := by
  unfold single
  split
  all_goals
    rename_i h
    rw [h]
    rfl

theorem text_ne_nil (run : Run) : run.text ≠ [] := by
  cases run <;> exact List.cons_ne_nil _ _

theorem cons_nil (c : Char) : cons c [] = [single c] := by
  unfold cons
  cases Kind.ofChar c <;> rfl

/-- A character set in front is the first character of the joined runs. -/
theorem text_cons (c : Char) (runs : List Run) :
    (cons c runs).flatMap text = c :: runs.flatMap text := by
  unfold cons
  split
  · rfl
  · rfl
  · rfl
  · rw [List.flatMap_cons, text_single]
    rfl

/-- The runs, joined, are the text. -/
theorem text_ofText (chars : List Char) : (ofText chars).flatMap text = chars := by
  induction chars with
  | nil => rfl
  | cons c rest ih => rw [ofText, text_cons, ih]

/-- A character in front either starts a run of its own or lengthens the first one. -/
theorem cons_cases (c : Char) (runs : List Run) :
    (cons c runs = single c :: runs ∧
        ∀ r rest, runs = r :: rest → r.kind = Kind.ofChar c → r.kind = .sign) ∨
      ∃ r rest longer, runs = r :: rest ∧ cons c runs = longer :: rest ∧
        longer.kind = r.kind ∧ r.kind = Kind.ofChar c ∧ longer.text = c :: r.text := by
  unfold cons
  split
  · rename_i first more rest hkind
    exact Or.inr ⟨_, _, _, rfl, rfl, rfl, hkind.symm, rfl⟩
  · rename_i first more rest hkind
    exact Or.inr ⟨_, _, _, rfl, rfl, rfl, hkind.symm, rfl⟩
  · rename_i first more rest hkind
    exact Or.inr ⟨_, _, _, rfl, rfl, rfl, hkind.symm, rfl⟩
  · rename_i runs' hblank hlower hupper
    refine Or.inl ⟨rfl, fun r rest hr hkind => ?_⟩
    subst hr
    cases r with
    | blank first more => exact absurd rfl (hblank first more rest hkind.symm)
    | lower first more => exact absurd rfl (hlower first more rest hkind.symm)
    | upper first more => exact absurd rfl (hupper first more rest hkind.symm)
    | sign _ => rfl

/-- The first run of a text is of the kind of its first character. -/
theorem exists_kind_ofText_cons (c : Char) (rest : List Char) :
    ∃ run tail, ofText (c :: rest) = run :: tail ∧ run.kind = Kind.ofChar c := by
  rw [ofText]
  rcases cons_cases c (ofText rest) with ⟨heq, _⟩ | ⟨r, tail, longer, _, heq, hk, hc, _⟩
  · exact ⟨single c, ofText rest, heq, kind_single c⟩
  · exact ⟨longer, tail, heq, hk.trans hc⟩

/-- Only the first of some runs is touched by a character in front. -/
theorem cons_append (c : Char) {front : List Run} (back : List Run) (hne : front ≠ []) :
    cons c (front ++ back) = cons c front ++ back := by
  cases front with
  | nil => exact absurd rfl hne
  | cons run tail =>
    rw [List.cons_append]
    unfold cons
    cases Kind.ofChar c <;> cases run <;> rfl

/-- A character starts a run of its own in front of a text that it is apart from. -/
theorem cons_ofText_of_apart {c : Char} {back : List Char} (h : Apart [c] back) :
    cons c (ofText back) = single c :: ofText back := by
  cases back with
  | nil =>
    unfold cons
    cases Kind.ofChar c <;> rfl
  | cons d rest =>
    obtain ⟨run, tail, heq, hkind⟩ := exists_kind_ofText_cons d rest
    have hsign : Kind.ofChar c = run.kind → Kind.ofChar c = .sign := by
      rw [hkind]
      exact h c rfl d rfl
    rw [heq]
    unfold cons
    cases hc : Kind.ofChar c <;> cases run <;> simp_all [Run.kind]

/-- The runs of two texts that no run joins are those of the one and then those of the other. -/
theorem ofText_append {front back : List Char} (h : Apart front back) :
    ofText (front ++ back) = ofText front ++ ofText back := by
  induction front with
  | nil => rfl
  | cons c rest ih =>
    cases rest with
    | nil =>
      show cons c (ofText back) = cons c [] ++ ofText back
      rw [cons_ofText_of_apart h, cons_nil]
      rfl
    | cons d more =>
      have hrest : Apart (d :: more) back := by
        intro a ha
        exact h a (by rw [List.getLast?_cons_cons]; exact ha)
      obtain ⟨run, tail, heq, _⟩ := exists_kind_ofText_cons d more
      show cons c (ofText (d :: more ++ back)) = cons c (ofText (d :: more)) ++ ofText back
      rw [ih hrest, cons_append c _ (by rw [heq]; exact List.cons_ne_nil _ _)]

/-- Every character of a run is of the kind of the run. -/
theorem kind_of_mem_ofText {chars : List Char} {run : Run} (hrun : run ∈ ofText chars) :
    ∀ c ∈ run.text, Kind.ofChar c = run.kind := by
  induction chars generalizing run with
  | nil => exact absurd hrun List.not_mem_nil
  | cons d rest ih =>
    rw [ofText] at hrun
    intro c hc
    rcases cons_cases d (ofText rest) with ⟨heq, _⟩ | ⟨r, tail, longer, hr, heq, hk, hd, htext⟩
    · rw [heq] at hrun
      rcases List.mem_cons.mp hrun with rfl | hrun
      · rw [text_single, List.mem_singleton] at hc
        rw [hc, kind_single]
      · exact ih hrun c hc
    · rw [heq] at hrun
      rcases List.mem_cons.mp hrun with rfl | hrun
      · rw [htext] at hc
        rcases List.mem_cons.mp hc with rfl | hc
        · rw [hk, hd]
        · rw [hk]
          exact ih (by rw [hr]; exact List.mem_cons_self) c hc
      · exact ih (by rw [hr]; exact List.mem_cons_of_mem _ hrun) c hc

theorem kind_of_ofText_eq_cons {chars : List Char} {run : Run} {tail : List Run}
    (h : ofText chars = run :: tail) : ∀ c ∈ run.text, Kind.ofChar c = run.kind :=
  kind_of_mem_ofText (h ▸ List.mem_cons_self)

/-- No run of letters or blanks is cut. -/
theorem separated_ofText (chars : List Char) : Separated (ofText chars) := by
  induction chars with
  | nil => trivial
  | cons c rest ih =>
    rw [ofText]
    rcases cons_cases c (ofText rest) with ⟨heq, hkind⟩ | ⟨r, tail, longer, hr, heq, hk, _, _⟩
    · rw [heq]
      cases hrest : ofText rest with
      | nil => trivial
      | cons r tail =>
        refine ⟨fun hsame => ?_, hrest ▸ ih⟩
        rw [kind_single] at hsame
        rw [kind_single, hsame]
        exact hkind r tail hrest hsame.symm
    · rw [heq]
      rw [hr] at ih
      cases tail with
      | nil => trivial
      | cons s more => exact ⟨fun hsame => hk ▸ ih.1 (hk ▸ hsame), ih.2⟩

/-- Apartness looks at the last character of the front text only. -/
theorem Apart.append_left {front back : List Char} (h : Apart front back) (hne : front ≠ [])
    (before : List Char) : Apart (before ++ front) back := by
  intro a ha
  rw [List.getLast?_append, List.getLast?_eq_some_getLast hne, Option.some_or] at ha
  exact h a (by rw [List.getLast?_eq_some_getLast hne]; exact ha)

/-- Apartness looks at the first character of the back text only. -/
theorem Apart.of_append_right {front middle back : List Char} (h : Apart front (middle ++ back))
    (hne : middle ≠ []) : Apart front middle := by
  obtain ⟨d, more, rfl⟩ := List.exists_cons_of_ne_nil hne
  exact h

/-- The first run of a text stands in front of the others. -/
theorem exists_of_ofText_eq_cons {chars : List Char} {run : Run} {tail : List Run}
    (h : ofText chars = run :: tail) :
    ∃ rest, chars = run.text ++ rest ∧ ofText run.text = [run] ∧ ofText rest = tail ∧
      Apart run.text rest := by
  induction chars generalizing run tail with
  | nil => cases h
  | cons c rest ih =>
    rw [ofText] at h
    rcases cons_cases c (ofText rest) with ⟨heq, hapart⟩ | ⟨r, others, longer, hr, heq, _, _, htext⟩
    · rw [heq] at h
      obtain ⟨rfl, rfl⟩ := List.cons.inj h
      refine ⟨rest, by rw [text_single]; rfl, by rw [text_single]; exact cons_nil c, rfl, ?_⟩
      intro a ha b hb hkind
      rw [text_single] at ha
      obtain rfl : c = a := Option.some.inj ha
      cases rest with
      | nil => cases hb
      | cons _ more =>
        cases hb
        obtain ⟨r, tail, hr, hd⟩ := exists_kind_ofText_cons b more
        have hsign := hapart r tail hr (by rw [hd, hkind])
        rw [hkind, ← hd, hsign]
    · rw [heq] at h
      obtain ⟨rfl, rfl⟩ := List.cons.inj h
      obtain ⟨back, rfl, hself, htail, hback⟩ := ih hr
      refine ⟨back, by rw [htext]; rfl, ?_, htail, ?_⟩
      · have hjoined := cons_append c others (List.cons_ne_nil r [])
        rw [List.singleton_append, ← hr, heq] at hjoined
        have hsingle : [longer] = cons c [r] := List.append_cancel_right hjoined
        rw [htext, ofText, hself, hsingle]
      · rw [htext]
        exact hback.append_left (text_ne_nil r) [c]

/-- Where the runs of a text fall into two parts, so does the text. -/
theorem exists_of_ofText_eq_append {chars : List Char} {front back : List Run}
    (h : ofText chars = front ++ back) :
    ∃ before rest, chars = before ++ rest ∧ ofText before = front ∧ ofText rest = back ∧
      Apart before rest := by
  induction front generalizing chars with
  | nil => exact ⟨[], chars, rfl, rfl, h, fun a ha => by cases ha⟩
  | cons run front ih =>
    obtain ⟨rest, rfl, hself, hrest, hrun⟩ := exists_of_ofText_eq_cons h
    obtain ⟨middle, back', rfl, hmiddle, hback, hapart⟩ := ih hrest
    refine ⟨run.text ++ middle, back', by rw [List.append_assoc], ?_, hback, ?_⟩
    · by_cases hne : middle = []
      · subst hne
        cases hmiddle
        rw [List.append_nil, hself]
        rfl
      · rw [ofText_append (hrun.of_append_right hne), hself, hmiddle]
        rfl
    · by_cases hne : middle = []
      · subst hne
        rw [List.append_nil]
        exact hrun
      · exact hapart.append_left hne run.text

/-- Characters of one kind make one run, signs apart. -/
theorem exists_ofText_of_kind {kind : Kind} (hsign : kind ≠ .sign) {chars : List Char}
    (hne : chars ≠ []) (h : ∀ c ∈ chars, Kind.ofChar c = kind) :
    ∃ run, ofText chars = [run] ∧ run.kind = kind ∧ run.text = chars := by
  induction chars with
  | nil => exact absurd rfl hne
  | cons c rest ih =>
    have hc := h c List.mem_cons_self
    by_cases hrest : rest = []
    · subst hrest
      exact ⟨single c, cons_nil c, (kind_single c).trans hc, text_single c⟩
    · obtain ⟨run, hrun, hkind, htext⟩ := ih hrest fun d hd => h d (List.mem_cons_of_mem _ hd)
      rw [ofText, hrun]
      rcases cons_cases c [run] with ⟨_, hapart⟩ | ⟨r, tail, longer, hr, heq, hk, _, hlonger⟩
      · exact absurd (hkind.symm.trans (hapart run [] rfl (hkind.trans hc.symm))) hsign
      · obtain ⟨rfl, rfl⟩ := List.cons.inj hr
        exact ⟨longer, heq, hk.trans hkind, hlonger.trans (congrArg _ htext)⟩

/-- Lowercase letters alone make one run. -/
theorem ofText_lower {first : Char} {more : List Char}
    (h : ∀ c ∈ first :: more, c.isLower = true) : ofText (first :: more) = [lower first more] := by
  obtain ⟨run, hrun, hkind, htext⟩ := exists_ofText_of_kind (by decide)
    (List.cons_ne_nil first more) fun c hc => Kind.ofChar_of_isLower (h c hc)
  cases run with
  | blank _ _ => cases hkind
  | lower _ _ =>
    cases htext
    exact hrun
  | upper _ _ => cases hkind
  | sign _ => cases hkind

end Run

end Propositional
