import Propositional.Proofs.WholeRuns

/-!
# Reading stops at the first character that belongs to no word

What reading passes over is blanks and words, whose characters can all be read,
and where no word begins stands a character that cannot.

* `Token.SpelledBy.readable` — the characters of a word can be read;
* `Token.Unspelled.unreadable` — where no word begins a character cannot;
* `Lexeme.Scan.outcome` — reading gets to the end, or to the first character
  that cannot be read.
-/

namespace Propositional

namespace Text

theorem partOf_singleton {d c : Char} {front back : List Char} :
    PartOf [d] front c back ↔ c = d := by
  constructor
  · rintro ⟨before, behind, heq, _, _⟩
    cases before with
    | nil => exact (List.cons.inj heq).1.symm
    | cons _ more => simp at heq
  · rintro rfl
    exact ⟨[], [], rfl, List.nil_suffix, List.nil_prefix⟩

/-- A word in a text has each of its characters as a part. -/
theorem partOf_append {before behind front back : List Char} {c : Char} :
    PartOf (before ++ c :: behind) (front ++ before) c (behind ++ back) :=
  ⟨before, behind, rfl, List.suffix_append front before, List.prefix_append behind back⟩

/-- A letter is one of either case. -/
theorem isAlpha_eq (c : Char) : c.isAlpha = (c.isUpper || c.isLower) := rfl

/-- None of the characters of `word` between the two texts is unreadable. -/
def Readable (before word rest : List Char) : Prop :=
  ∀ front c back, word = front ++ c :: back → ¬ Unreadable (before ++ front) c (back ++ rest)

/-- No character from `start` up to `stop` is unreadable. -/
def Clean (text : List Char) (start stop : Nat) : Prop :=
  ∀ front c back, text = front ++ c :: back → start ≤ front.length → front.length < stop →
    ¬ Unreadable front c back

theorem Clean.append {text : List Char} {start middle stop : Nat} (h : Clean text start middle)
    (h' : Clean text middle stop) : Clean text start stop := by
  intro front c back htext hstart hstop
  by_cases hmiddle : front.length < middle
  · exact h front c back htext hstart hmiddle
  · exact h' front c back htext (Nat.le_of_not_lt hmiddle) hstop

theorem Readable.clean {before word rest : List Char} (h : Readable before word rest) :
    Clean (before ++ (word ++ rest)) before.length (before ++ word).length := by
  intro front c back htext hstart hstop
  have hbefore : before <+: front :=
    List.prefix_of_prefix_length_le (List.prefix_append before _) ⟨_, htext.symm⟩ hstart
  obtain ⟨middle, rfl⟩ := hbefore
  rw [List.append_assoc] at htext
  have hrest := List.append_cancel_left htext
  have hmiddle : middle ++ [c] <+: word := by
    have hwhole : middle ++ [c] <+: word ++ rest := ⟨back, by rw [hrest, List.append_assoc]; rfl⟩
    refine List.prefix_of_prefix_length_le hwhole (List.prefix_append word rest) ?_
    simp only [List.length_append, List.length_singleton] at hstop ⊢
    omega
  obtain ⟨behind, rfl⟩ := hmiddle
  have hback : back = behind ++ rest := by
    simpa using hrest.symm
  rw [hback]
  exact h middle c behind (by simp)

/-- A blank can be read. -/
theorem readable_blanks {word : List Char} (h : ∀ c ∈ word, isBlank c = true)
    (before rest : List Char) : Readable before word rest := by
  intro front c back hword hunreadable
  have hc : isBlank c = true := h c (by simp [hword])
  cases hunreadable with
  | stray hblank _ _ =>
    rw [hc] at hblank
    cases hblank
  | keyword _ hrun _ =>
    have hupper := hrun.inside c List.mem_cons_self
    rw [Kind.isUpper_iff, (Kind.isBlank_iff c).mp hc] at hupper
    cases hupper

theorem readable_lowercase {word : List Char} (h : ∀ c ∈ word, c.isLower = true)
    (before rest : List Char) : Readable before word rest := by
  intro front c back hword hunreadable
  have hc : c.isLower = true := h c (by simp [hword])
  cases hunreadable with
  | stray _ hletter _ =>
    rw [isAlpha_eq, hc, Bool.or_true] at hletter
    cases hletter
  | keyword _ hrun _ =>
    have hupper := hrun.inside c List.mem_cons_self
    rw [Kind.isUpper_iff, (Kind.isLower_iff c).mp hc] at hupper
    cases hupper

/-- The characters of a sign can be read. -/
theorem readable_sign {word : List Char} (h : word ∈ Token.signs) (before rest : List Char) :
    Readable before word rest := by
  intro front c back hword hunreadable
  have hupper : c.isUpper = false := by
    have hall : ∀ sign ∈ Token.signs, ∀ c ∈ sign, c.isUpper = false := by simp [Token.signs]
    exact hall word h c (by simp [hword])
  cases hunreadable with
  | stray _ _ hsign =>
    refine hsign word h ?_
    rw [hword]
    exact partOf_append
  | keyword _ hrun _ =>
    have hinside := hrun.inside c List.mem_cons_self
    rw [hupper] at hinside
    cases hinside

/-- The characters of a keyword can be read where it is a whole run. -/
theorem readable_keyword {before word rest : List Char}
    (hrun : WholeRun Char.isUpper before word rest) (h : String.ofList word ∈ Token.keywords) :
    Readable before word rest := by
  intro front c back hword hunreadable
  have hc : c.isUpper = true := hrun.inside c (by simp [hword])
  cases hunreadable with
  | stray _ hletter _ =>
    rw [isAlpha_eq, hc, Bool.true_or] at hletter
    cases hletter
  | @keyword _ more _ _ hback hother hnot =>
    -- A whole run cannot begin inside another one, so the two begin at the same place.
    have hnil : front = [] := by
      by_cases hne : front = []
      · exact hne
      · have hlast := List.getLast?_eq_some_getLast hne
        have hmem : front.getLast hne ∈ word := by
          rw [hword]
          exact List.mem_append_left _ (List.getLast_mem hne)
        have hbefore := hother.before (front.getLast hne) (by
          rw [List.getLast?_append, hlast]
          rfl)
        rw [hrun.inside _ hmem] at hbefore
        cases hbefore
    subst hnil
    have hsame : word = c :: more := by
      refine hrun.unique hother ?_
      rw [hword, List.cons_append, ← hback]
      rfl
    rw [hsame] at h
    exact hnot h

end Text

namespace Token

theorem mem_keywords_of_ofKeyword? {word : List Char} {token : Token}
    (hupper : ∀ c ∈ word, c.isUpper = true) (h : ofKeyword? word = some token) :
    String.ofList word ∈ keywords := by
  unfold ofKeyword? at h
  split at h
  · rename_i hword
    rw [hword]
    decide
  · split at h
    · rename_i hword
      rw [hword]
      decide
    · obtain ⟨op, hop, _⟩ := Option.map_eq_some_iff.mp h
      rcases (Connective.ofSymbol?_eq_some_iff _ op).mp hop with hname | ⟨hname, _⟩
      · have hall : op.symbol.toList.all Char.isUpper = true := by
          rw [← hname, String.toList_ofList]
          exact List.all_eq_true.mpr hupper
        rw [hname]
        revert hall
        cases op <;> decide
      · rw [hname]
        decide

theorem not_mem_keywords_of_ofKeyword? {word : List Char} (h : ofKeyword? word = none) :
    String.ofList word ∉ keywords := by
  intro hmem
  have hall : ∀ name ∈ keywords, ofKeyword? name.toList ≠ none := by decide
  exact hall _ hmem (by rw [String.toList_ofList, h])

theorem mem_signs_of_ofSign? {c : Char} {token : Token} (h : ofSign? c = some token) :
    [c] ∈ signs := by
  rcases ofSign?_cases h with ⟨rfl, _⟩ | ⟨rfl, _⟩ | ⟨rfl, _⟩ | ⟨rfl, _⟩ <;> decide

end Token

namespace Lexeme

/-- Reading may come to the place between the two texts: no run goes on over it, and no arrow. -/
structure Boundary (before rest : List Char) : Prop where
  apart : Run.Apart before rest
  dash : '-' ∉ before.getLast?

/-- Behind a word that is no part of a longer one reading comes to the next place. -/
theorem Boundary.next {word rest : List Char} (hne : word ≠ []) (hapart : Run.Apart word rest)
    (hdash : '-' ∉ word.getLast?) (before : List Char) : Boundary (before ++ word) rest := by
  refine ⟨hapart.append_left hne before, ?_⟩
  rwa [List.getLast?_append, List.getLast?_eq_some_getLast hne, Option.some_or,
    ← List.getLast?_eq_some_getLast hne]

end Lexeme

namespace Token

/-- The characters of a word can be read. -/
theorem SpelledBy.readable {afterBlank : Bool} {runs word : List Run} {token : Token}
    (h : SpelledBy afterBlank runs word token)
    (hkind : ∀ run ∈ word, ∀ c ∈ run.text, Kind.ofChar c = run.kind) {before rest : List Char}
    (hbefore : Run.Apart before (word.flatMap Run.text ++ rest))
    (hrest : Run.Apart (word.flatMap Run.text) rest) :
    Text.Readable before (word.flatMap Run.text) rest := by
  cases h with
  | word first more =>
    have hlower := hkind (.lower first more) (List.mem_singleton_self _)
    rw [List.flatMap_singleton]
    exact Text.readable_lowercase (fun c hc => Kind.isLower_of_ofChar (hlower c hc)) before rest
  | @keyword first more _ hword =>
    have hupper := hkind (.upper first more) (List.mem_singleton_self _)
    have hinside : ∀ c ∈ first :: more, c.isUpper = true :=
      fun c hc => Kind.isUpper_of_ofChar (hupper c hc)
    rw [List.flatMap_singleton] at hbefore hrest ⊢
    have hrun := Run.wholeRun_of_apart Kind.isUpper_iff (by decide) (List.cons_ne_nil first more)
      hinside hbefore hrest
    exact Text.readable_keyword hrun (mem_keywords_of_ofKeyword? hinside hword)
  | biconditional => exact Text.readable_sign (by decide) before rest
  | conditional => exact Text.readable_sign (by decide) before rest
  | sign hc =>
    rw [List.flatMap_singleton]
    exact Text.readable_sign (mem_signs_of_ofSign? hc) before rest

/-- No word ends with the first character of an arrow. -/
theorem SpelledBy.dash_not_mem_getLast? {afterBlank : Bool} {runs word : List Run} {token : Token}
    (h : SpelledBy afterBlank runs word token)
    (hkind : ∀ run ∈ word, ∀ c ∈ run.text, Kind.ofChar c = run.kind) :
    '-' ∉ (word.flatMap Run.text).getLast? := by
  have hletters {run : Run} (hrun : ∀ c ∈ run.text, Kind.ofChar c = run.kind)
      (hsign : run.kind ≠ .sign) : '-' ∉ run.text.getLast? := by
    intro hlast
    exact hsign (hrun '-' (List.mem_of_getLast? hlast)).symm
  cases h with
  | word first more =>
    rw [List.flatMap_singleton]
    exact hletters (hkind (.lower first more) (List.mem_singleton_self _)) (by simp [Run.kind])
  | @keyword first more _ _ =>
    rw [List.flatMap_singleton]
    exact hletters (hkind (.upper first more) (List.mem_singleton_self _)) (by simp [Run.kind])
  | biconditional => decide
  | conditional => decide
  | sign hc =>
    rw [List.flatMap_singleton]
    rcases ofSign?_cases hc with ⟨rfl, _⟩ | ⟨rfl, _⟩ | ⟨rfl, _⟩ | ⟨rfl, _⟩ <;> decide

end Token

namespace Text

/-- The parts of the two arrows. -/
theorem partOf_arrow {sign front back : List Char} {c : Char}
    (hsign : sign = ['-', '>'] ∨ sign = ['<', '-', '>']) (h : PartOf sign front c back) :
    (c = '<' ∧ ['-', '>'] <+: back) ∨ (c = '-' ∧ ['>'] <+: back) ∨ '-' ∈ front.getLast? := by
  obtain ⟨before, behind, heq, ⟨others, rfl⟩, hback⟩ := h
  have hlast (more : List Char) (hmore : before = more ++ ['-']) :
      '-' ∈ (others ++ before).getLast? := by
    rw [hmore, ← List.append_assoc, List.getLast?_append]
    rfl
  rcases hsign with rfl | rfl
  · rcases before with _ | ⟨a, _ | ⟨b, more⟩⟩
    · obtain ⟨rfl, rfl⟩ := List.cons.inj heq
      exact Or.inr (Or.inl ⟨rfl, hback⟩)
    · obtain ⟨rfl, _⟩ := List.cons.inj heq
      exact Or.inr (Or.inr (hlast [] rfl))
    · simp at heq
  · rcases before with _ | ⟨a, _ | ⟨b, _ | ⟨d, more⟩⟩⟩
    · obtain ⟨rfl, rfl⟩ := List.cons.inj heq
      exact Or.inl ⟨rfl, hback⟩
    · obtain ⟨rfl, hrest⟩ := List.cons.inj heq
      obtain ⟨rfl, rfl⟩ := List.cons.inj hrest
      exact Or.inr (Or.inl ⟨rfl, hback⟩)
    · obtain ⟨rfl, hrest⟩ := List.cons.inj heq
      obtain ⟨rfl, _⟩ := List.cons.inj hrest
      exact Or.inr (Or.inr (hlast ['<'] rfl))
    · simp at heq

end Text

/-- A sign that spells nothing where it stands is part of no sign that does. -/
theorem Token.not_partOf_of_ofSign? {c : Char} (hword : ofSign? c = none) {before back : List Char}
    (hbiconditional : c = '<' → ∀ tail, Run.ofText back ≠ .sign '-' :: .sign '>' :: tail)
    (hconditional : c = '-' → ∀ tail, Run.ofText back ≠ .sign '>' :: tail)
    (hdash : '-' ∉ before.getLast?) : ∀ sign ∈ signs, ¬ Text.PartOf sign before c back := by
  intro sign hsign hpart
  have harrow (h : sign = ['-', '>'] ∨ sign = ['<', '-', '>']) : False := by
    rcases Text.partOf_arrow h hpart with ⟨rfl, others, rfl⟩ | ⟨rfl, others, rfl⟩ | hlast
    · exact hbiconditional rfl (Run.ofText others) rfl
    · exact hconditional rfl (Run.ofText others) rfl
    · exact hdash hlast
  have hsingle {d : Char} (hd : (ofSign? d).isSome = true) (h : sign = [d]) : False := by
    subst h
    rw [← Text.partOf_singleton.mp hpart, hword] at hd
    cases hd
  simp only [signs, List.mem_cons, List.not_mem_nil, or_false] at hsign
  rcases hsign with h | h | h | h | h | h
  · exact hsingle rfl h
  · exact hsingle rfl h
  · exact hsingle rfl h
  · exact hsingle rfl h
  · exact harrow (Or.inl h)
  · exact harrow (Or.inr h)

/-- Where no word begins stands a character that cannot be read. -/
theorem Token.Unspelled.unreadable {runs : List Run} {c : Char} (h : Unspelled runs c)
    {before rest : List Char} (hruns : Run.ofText rest = runs)
    (boundary : Lexeme.Boundary before rest) :
    ∃ back, rest = c :: back ∧ Text.Unreadable before c back := by
  cases h with
  | @keyword first more tail hword =>
    have hkind := Run.kind_of_ofText_eq_cons hruns
    have hupper : ∀ d ∈ c :: more, d.isUpper = true := fun d hd =>
      Kind.isUpper_of_ofChar (hkind d hd)
    obtain ⟨back, rfl, _, _, hback⟩ := Run.exists_of_ofText_eq_cons hruns
    have hrun := Run.wholeRun_of_apart Kind.isUpper_iff (by decide) (List.cons_ne_nil c more)
      hupper boundary.apart hback
    exact ⟨more ++ back, rfl, .keyword rfl hrun (not_mem_keywords_of_ofKeyword? hword)⟩
  | @sign _ tail hword hbiconditional hconditional =>
    have hkind : Kind.ofChar c = .sign :=
      Run.kind_of_ofText_eq_cons hruns c (List.mem_singleton_self c)
    have hnot {holds : Char → Bool} {kind : Kind}
        (hholds : ∀ c, holds c = true ↔ Kind.ofChar c = kind) (hne : kind ≠ .sign) :
        holds c = false := by
      rw [Bool.eq_false_iff]
      intro hc
      exact hne (((hholds c).mp hc).symm.trans hkind)
    have hletter : c.isAlpha = false := by
      rw [Text.isAlpha_eq, hnot Kind.isUpper_iff (by decide), hnot Kind.isLower_iff (by decide)]
      rfl
    obtain ⟨back, rfl, _, rfl, _⟩ := Run.exists_of_ofText_eq_cons hruns
    exact ⟨back, rfl, .stray (hnot Kind.isBlank_iff (by decide)) hletter
      (not_partOf_of_ofSign? hword hbiconditional hconditional boundary.dash)⟩

namespace Lexeme

/-- Reading a text from `start` on gets to its end over characters that can be read, or stops at
the first that cannot. -/
def Outcome (text : List Char) (start : Nat) : Except Error (List Lexeme) → Prop
  | .ok _ => Text.Clean text start text.length
  | .error e => ∃ front c back, text = front ++ c :: back ∧ e = .unrecognized c front.length ∧
      Text.Unreadable front c back ∧ Text.Clean text start front.length

theorem Outcome.extend {text : List Char} {start middle : Nat}
    {result : Except Error (List Lexeme)} (h : Text.Clean text start middle)
    (outcome : Outcome text middle result) : Outcome text start result := by
  cases result with
  | ok _ => exact h.append outcome
  | error e =>
    obtain ⟨front, c, back, htext, he, hunreadable, hclean⟩ := outcome
    exact ⟨front, c, back, htext, he, hunreadable, h.append hclean⟩

theorem Outcome.map {text : List Char} {start : Nat} {result : Except Error (List Lexeme)}
    (outcome : Outcome text start result) (f : List Lexeme → List Lexeme) :
    Outcome text start (result.map f) := by
  cases result <;> exact outcome

/-- Reading gets to the end of the text, or to the first character that cannot be read. -/
theorem Scan.outcome {afterBlank : Bool} {position : Nat} {runs : List Run}
    {result : Except Error (List Lexeme)} (h : Scan afterBlank position runs result) :
    ∀ before rest, Run.ofText rest = runs → Boundary before rest → position = before.length →
      Outcome (before ++ rest) before.length result := by
  induction h with
  | ending _ _ =>
    intro before rest hruns _ _ front c back _ hstart hstop
    have hrest : rest = [] := by
      rw [← Run.text_ofText rest, hruns]
      rfl
    rw [hrest, List.append_nil] at hstop
    omega
  | @blank _ position first more rest' result others ih =>
    intro before rest hruns boundary hposition
    have hkind := Run.kind_of_ofText_eq_cons hruns
    have hblank : ∀ c ∈ first :: more, Text.isBlank c = true := fun c hc =>
      (Kind.isBlank_iff c).mpr (hkind c hc)
    obtain ⟨back, rfl, _, hback, hapart⟩ := Run.exists_of_ofText_eq_cons hruns
    have hdash : '-' ∉ (first :: more).getLast? := by
      intro hlast
      exact Bool.false_ne_true (hblank '-' (List.mem_of_getLast? hlast))
    have hnext := ih (before ++ first :: more) back hback
      (.next (List.cons_ne_nil first more) hapart hdash before) (by simp [hposition])
    rw [List.append_assoc] at hnext
    exact .extend (Text.readable_blanks hblank before back).clean hnext
  | @token afterBlank position word rest' token result spelled others ih =>
    intro before rest hruns boundary hposition
    obtain ⟨text, back, rfl, htext, hback, hapart⟩ := Run.exists_of_ofText_eq_append hruns
    have hword : word.flatMap Run.text = text := by rw [← htext, Run.text_ofText]
    have hkind : ∀ run ∈ word, ∀ c ∈ run.text, Kind.ofChar c = run.kind := fun run hrun =>
      Run.kind_of_mem_ofText (htext ▸ hrun)
    subst hword
    have hne := (spelled.spelledAs hkind).ne_nil
    have hnext := ih (before ++ word.flatMap Run.text) back hback
      (.next hne hapart (spelled.dash_not_mem_getLast? hkind) before) (by simp [hposition])
    rw [List.append_assoc] at hnext
    exact .map (.extend (spelled.readable hkind boundary.apart hapart).clean hnext) _
  | @unspelled _ position runs c h =>
    intro before rest hruns boundary hposition
    obtain ⟨back, rfl, hunreadable⟩ := h.unreadable hruns boundary
    refine ⟨before, c, back, rfl, hposition ▸ rfl, hunreadable, ?_⟩
    intro front _ _ _ hstart hstop
    omega

end Lexeme

/-- Reading a text gets to its end, or to the first character that cannot be read. -/
theorem tokenize_outcome (source : String) :
    Lexeme.Outcome source.toList 0 (tokenize source) := by
  refine (Lexeme.scan_ofRuns false 0 (Run.ofText source.toList)).outcome [] source.toList rfl
    ⟨?_, ?_⟩ rfl
  · intro a ha
    cases ha
  · intro hdash
    cases hdash

end Propositional
