import Propositional.Proofs.Lexing
import Propositional.Proofs.WholeRuns

/-!
# Texts that differ in their blanks

Two texts whose runs differ in blanks only are read alike: word by word they have
the same tokens, or they are refused for the same character.  Only a run of
lowercase letters asks whether blanks stand on both sides of it, so the tokens of
these runs are all that has to be compared.

* `Run.Respaced` — the runs differ in blanks only;
* `Run.Respaced.alike` — such runs are read alike;
* `alike_tokenize` — texts that are equal when squeezed have the same tokens;
* `alike_tokenize_padded` — blanks around a text leave the tokens of its words as
  they are if they leave those of its lowercase words.
-/

namespace Propositional

/-- What is seen of the tokens of the lexemes. -/
def Lexeme.viewed {β : Type} (view : Token → β) (lexemes : List Lexeme) : List β :=
  lexemes.map fun l => view l.token

theorem Alike.cons {β : Type} {view : Token → β} {result other : Except Error (List Lexeme)}
    (h : Alike (result.map (Lexeme.viewed view)) (other.map (Lexeme.viewed view)))
    {token token' : Token} (hview : view token = view token') (place place' : Nat) :
    Alike ((result.map (⟨token, place⟩ :: ·)).map (Lexeme.viewed view))
      ((other.map (⟨token', place'⟩ :: ·)).map (Lexeme.viewed view)) := by
  have hcons (t : Token) (p : Nat) (r : Except Error (List Lexeme)) :
      (r.map (⟨t, p⟩ :: ·)).map (Lexeme.viewed view) =
        (r.map (Lexeme.viewed view)).map (view t :: ·) := by
    cases r <;> rfl
  rw [hcons, hcons, hview]
  exact h.map _

namespace Run

/-- The run with a single space for blanks. -/
def squeeze : Run → Run
  | blank _ _ => blank ' ' []
  | run => run

theorem startsBlank_map_squeeze (runs : List Run) :
    Lexeme.startsBlank (runs.map squeeze) = Lexeme.startsBlank runs := by
  cases runs with
  | nil => rfl
  | cons run rest => cases run <;> rfl

/-- A blank in front of what is no blank is a run of its own. -/
theorem cons_blank {c : Char} (hc : Kind.ofChar c = .blank) {runs : List Run}
    (h : Lexeme.startsBlank runs = false) : cons c runs = blank c [] :: runs := by
  rcases cons_cases c runs with ⟨heq, _⟩ | ⟨run, rest, _, rfl, _, _, hkind, _⟩
  · rw [heq, single, hc]
  · rw [hc] at hkind
    cases run with
    | blank _ _ => cases h
    | lower _ _ => cases hkind
    | upper _ _ => cases hkind
    | sign _ => cases hkind

/-- A blank in front of blanks makes no difference. -/
theorem map_squeeze_cons_blank {c : Char} (hc : Kind.ofChar c = .blank) (runs : List Run) :
    (cons c runs).map squeeze =
      if Lexeme.startsBlank runs then runs.map squeeze else blank ' ' [] :: runs.map squeeze := by
  cases runs with
  | nil => simp [cons, single, hc, Lexeme.startsBlank, squeeze]
  | cons run rest => cases run <;> simp [cons, single, hc, Lexeme.startsBlank, squeeze]

theorem map_squeeze_cons {c : Char} (hc : Kind.ofChar c ≠ .blank) (runs : List Run) :
    (cons c runs).map squeeze = cons c (runs.map squeeze) := by
  cases runs with
  | nil => cases h : Kind.ofChar c <;> simp_all [cons, single, squeeze]
  | cons run rest => cases h : Kind.ofChar c <;> cases run <;> simp_all [cons, single, squeeze]

/-- The runs of a squeezed text are those of the text, squeezed. -/
theorem ofText_squeeze (text : List Char) :
    ofText (Text.squeeze text) = (ofText text).map squeeze := by
  induction text with
  | nil => rfl
  | cons c rest ih =>
    rw [ofText, Text.squeeze]
    by_cases hblank : Text.isBlank c = true
    · have hstarts := Lexeme.startsBlank_ofText rest
      rw [if_pos hblank, map_squeeze_cons_blank ((Kind.isBlank_iff c).mp hblank), hstarts]
      by_cases hrest : rest.head?.any Text.isBlank = true
      · rw [if_pos hrest, if_pos hrest, ih]
      · rw [if_neg hrest, if_neg hrest, ofText, ih]
        have hnone : Lexeme.startsBlank ((ofText rest).map squeeze) = false := by
          rw [startsBlank_map_squeeze, hstarts]
          exact Bool.eq_false_iff.mpr hrest
        exact cons_blank rfl hnone
    · have hkind : Kind.ofChar c ≠ .blank := fun h => hblank ((Kind.isBlank_iff c).mpr h)
      rw [if_neg hblank, ofText, ih, map_squeeze_cons hkind]

/-- Blanks are one run, if there are any. -/
theorem map_squeeze_blanks {blanks : List Char} (h : ∀ c ∈ blanks, Text.isBlank c = true) :
    (ofText blanks).map squeeze = [] ∨ (ofText blanks).map squeeze = [blank ' ' []] := by
  by_cases hne : blanks = []
  · subst hne
    exact Or.inl rfl
  · obtain ⟨run, hrun, hkind, _⟩ :=
      exists_ofText_of_kind (by decide) hne fun c hc => (Kind.isBlank_iff c).mp (h c hc)
    rw [hrun]
    cases run with
    | blank _ _ => exact Or.inr rfl
    | lower _ _ => cases hkind
    | upper _ _ => cases hkind
    | sign _ => cases hkind

/-- The runs differ in blanks only, and the same is seen of their lowercase words.  The flags
tell whether a blank stands in front of the runs. -/
inductive Respaced {β : Type} (view : Token → β) : Bool → List Run → Bool → List Run → Prop where
  | nil (a b : Bool) : Respaced view a [] b []
  | trailing (a b : Bool) (first : Char) (more : List Char) :
      Respaced view a [] b [blank first more]
  | blank {a b : Bool} {first first' : Char} {more more' : List Char} {rest rest' : List Run}
      (tail : Respaced view true rest true rest') :
      Respaced view a (blank first more :: rest) b (blank first' more' :: rest')
  | lower {a b : Bool} {first : Char} {more : List Char} {rest rest' : List Run}
      (h : view (Token.ofWord (a && Lexeme.startsBlank rest) (first :: more)) =
        view (Token.ofWord (b && Lexeme.startsBlank rest') (first :: more)))
      (tail : Respaced view false rest false rest') :
      Respaced view a (lower first more :: rest) b (lower first more :: rest')
  | upper {a b : Bool} {first : Char} {more : List Char} {rest rest' : List Run}
      (tail : Respaced view false rest false rest') :
      Respaced view a (upper first more :: rest) b (upper first more :: rest')
  | sign {a b : Bool} {c : Char} {rest rest' : List Run}
      (tail : Respaced view false rest false rest') :
      Respaced view a (sign c :: rest) b (sign c :: rest')

variable {β : Type} {view : Token → β}

/-- Runs that are equal when squeezed, a blank at the end apart, differ in blanks only, if the same
is seen of their lowercase words. -/
theorem Respaced.of_squeeze {a b : Bool} {runs others trail : List Run}
    (h : others.map squeeze = runs.map squeeze ++ trail)
    (htrail : trail = [] ∨ trail = [Run.blank ' ' []])
    (hwords : ∀ front first more back, runs = front ++ Run.lower first more :: back →
      view (Token.ofWord (Lexeme.endsBlank a front && Lexeme.startsBlank back) (first :: more)) =
        view (Token.ofWord (Lexeme.endsBlank b front &&
          Lexeme.startsBlank (back.map squeeze ++ trail)) (first :: more))) :
    Respaced view a runs b others := by
  induction runs generalizing a b others with
  | nil =>
    rcases htrail with rfl | rfl
    · obtain rfl := List.map_eq_nil_iff.mp h
      exact .nil a b
    · obtain ⟨run, rest, rfl, hrun, hrest⟩ := List.map_eq_cons_iff.mp h
      obtain rfl := List.map_eq_nil_iff.mp hrest
      cases run with
      | blank first more => exact .trailing a b first more
      | lower _ _ => cases hrun
      | upper _ _ => cases hrun
      | sign _ => cases hrun
  | cons run rest ih =>
    rw [List.map_cons, List.cons_append] at h
    obtain ⟨other, rest', rfl, hrun, hrest⟩ := List.map_eq_cons_iff.mp h
    have htail := ih (a := run.kind == .blank) (b := run.kind == .blank) hrest
      fun front first more back heq => hwords (run :: front) first more back (by rw [heq]; rfl)
    have hword (first : Char) (more : List Char) (heq : run = Run.lower first more) :=
      hwords [] first more rest (by rw [heq]; rfl)
    rw [← hrest, startsBlank_map_squeeze] at hword
    cases run <;> cases other <;> cases hrun
    · exact .blank htail
    · exact .lower (hword _ _ rfl) htail
    · exact .upper htail
    · exact .sign htail

/-- Runs that differ in blanks only spell the same word, if the same is seen of it, and differ in
blanks only behind it. -/
theorem Respaced.exists_spelled {a b : Bool} {word rest others : List Run} {token : Token}
    (spelled : Token.SpelledBy a rest word token) (h : Respaced view a (word ++ rest) b others) :
    ∃ rest' token', others = word ++ rest' ∧ Token.SpelledBy b rest' word token' ∧
      view token = view token' ∧ Respaced view false rest false rest' := by
  cases spelled with
  | word first more =>
    cases h with
    | lower hview tail => exact ⟨_, _, rfl, .word first more, hview, tail⟩
  | keyword hword =>
    cases h with
    | upper tail => exact ⟨_, _, rfl, .keyword hword, rfl, tail⟩
  | biconditional =>
    cases h with
    | sign h =>
      cases h with
      | sign h =>
        cases h with
        | sign tail => exact ⟨_, _, rfl, .biconditional, rfl, tail⟩
  | conditional =>
    cases h with
    | sign h =>
      cases h with
      | sign tail => exact ⟨_, _, rfl, .conditional, rfl, tail⟩
  | sign hc =>
    cases h with
    | sign tail => exact ⟨_, _, rfl, .sign hc, rfl, tail⟩

/-- Where no word can be read, none can be read with other blanks. -/
theorem Respaced.unspelled {a b : Bool} {runs others : List Run} {c : Char}
    (unspelled : Token.Unspelled runs c) (h : Respaced view a runs b others) :
    Token.Unspelled others c := by
  cases unspelled with
  | keyword hword =>
    cases h with
    | upper _ => exact .keyword hword
  | sign hc hbiconditional hconditional =>
    cases h with
    | sign tail =>
      refine .sign hc (fun heq more hmore => ?_) fun heq more hmore => ?_
      · subst hmore
        cases tail with
        | sign tail =>
          cases tail with
          | sign _ => exact hbiconditional heq _ rfl
      · subst hmore
        cases tail with
        | sign _ => exact hconditional heq _ rfl

/-- Runs that differ in blanks only are read alike. -/
theorem Respaced.alike {a : Bool} {position : Nat} {runs : List Run}
    {result : Except Error (List Lexeme)} (scan : Lexeme.Scan a position runs result) :
    ∀ b position' others, Respaced view a runs b others →
      Alike (result.map (Lexeme.viewed view))
        ((Lexeme.ofRuns b position' others).map (Lexeme.viewed view)) := by
  induction scan with
  | ending _ _ =>
    intro b position' others h
    cases h with
    | nil _ _ => exact .ok _
    | trailing _ _ _ _ => exact .ok _
  | blank _ ih =>
    intro b position' others h
    cases h with
    | blank tail => exact ih true _ _ tail
  | @token _ position word rest token result spelled _ ih =>
    intro b position' others h
    obtain ⟨rest', token', rfl, spelled', hview, tail⟩ := h.exists_spelled spelled
    have hrest := Lexeme.scan_ofRuns false (position' + (word.flatMap text).length) rest'
    rw [(Lexeme.Scan.token spelled' hrest).eq_ofRuns]
    exact .cons (ih false _ _ tail) hview position position'
  | @unspelled _ position runs c h =>
    intro b position' others hrespaced
    rw [(Lexeme.Scan.unspelled (hrespaced.unspelled h)).eq_ofRuns]
    exact .unrecognized c position position'

end Run

/-- Blanks behind a text add a run to its runs, or lengthen the last one; the words of the text
are followed by a blank in the runs if they are so in the text. -/
theorem Run.exists_trail {behind : List Char} (hbehind : ∀ c ∈ behind, Text.isBlank c = true)
    (text : List Char) :
    ∃ trail, (trail = [] ∨ trail = [.blank ' ' []]) ∧
      (ofText (text ++ behind)).map squeeze = (ofText text).map squeeze ++ trail ∧
      ∀ front word back, text = front ++ word ++ back →
        Text.WholeRun Char.isLower front word back →
        Lexeme.startsBlank ((ofText back).map squeeze ++ trail) =
          (back ++ behind).head?.any Text.isBlank := by
  by_cases hlast : text.getLast?.any Text.isBlank = true
  · have hsqueeze : (ofText (text ++ behind)).map squeeze = (ofText text).map squeeze ++ [] := by
      rw [← ofText_squeeze, Text.squeeze_append hlast hbehind, ofText_squeeze, List.append_nil]
    refine ⟨[], Or.inl rfl, hsqueeze, fun front word back htext hrun => ?_⟩
    -- The text ends with a blank, so it goes on behind the word.
    have hback : back ≠ [] := by
      rintro rfl
      have hletter := hrun.inside _ (List.getLast_mem hrun.ne_nil)
      rw [htext, List.append_nil, List.getLast?_append,
        List.getLast?_eq_some_getLast hrun.ne_nil, Option.some_or, Option.any_some] at hlast
      rw [Kind.isLower_eq_false_of_isBlank hlast] at hletter
      cases hletter
    obtain ⟨c, rest, rfl⟩ := List.exists_cons_of_ne_nil hback
    rw [List.append_nil, startsBlank_map_squeeze, Lexeme.startsBlank_ofText]
    rfl
  · have hapart : Apart text behind := by
      intro c hc d hd hsame
      have hblank := hbehind d (List.mem_of_mem_head? hd)
      rw [Kind.isBlank_iff, ← hsame, ← Kind.isBlank_iff] at hblank
      have hany : text.getLast?.any Text.isBlank = true := by
        rw [hc]
        exact hblank
      exact absurd hany hlast
    refine ⟨_, map_squeeze_blanks hbehind, ?_, fun front word back _ _ => ?_⟩
    · rw [ofText_append hapart, List.map_append]
    · rw [← List.map_append, startsBlank_map_squeeze, Lexeme.startsBlank_ofText_append]

/-- The runs of a text differ from those of the text with blanks behind it in blanks only, if the
same is seen of the lowercase words. -/
theorem Run.Respaced.of_blanks_behind {β : Type} {view : Token → β} {a b : Bool}
    {text behind : List Char} (hbehind : ∀ c ∈ behind, Text.isBlank c = true)
    (hwords : ∀ front word back, text = front ++ word ++ back →
      Text.WholeRun Char.isLower front word back →
      view (Token.ofWord (Lexeme.endsBlank a (ofText front) &&
          back.head?.any Text.isBlank) word) =
        view (Token.ofWord (Lexeme.endsBlank b (ofText front) &&
          (back ++ behind).head?.any Text.isBlank) word)) :
    Respaced view a (ofText text) b (ofText (text ++ behind)) := by
  obtain ⟨trail, htrail, hsqueeze, hstarts⟩ := exists_trail hbehind text
  refine .of_squeeze hsqueeze htrail fun front first more back hruns => ?_
  obtain ⟨before, rest, htext, rfl, rfl, hrun⟩ :=
    exists_wholeRun Kind.isLower_iff (by decide) hruns rfl
  rw [Lexeme.startsBlank_ofText, hstarts before _ rest htext hrun]
  exact hwords before _ rest htext hrun

/-- Texts that are equal when squeezed have the same tokens, or are refused for the same
character. -/
theorem alike_tokenize {source other : String}
    (h : Text.squeeze source.toList = Text.squeeze other.toList) :
    Alike ((tokenize source).map (Lexeme.viewed id)) ((tokenize other).map (Lexeme.viewed id)) := by
  have hruns : (Run.ofText other.toList).map Run.squeeze =
      (Run.ofText source.toList).map Run.squeeze ++ [] := by
    rw [← Run.ofText_squeeze, ← h, Run.ofText_squeeze, List.append_nil]
  have hscan := Lexeme.scan_ofRuns false 0 (Run.ofText source.toList)
  refine Run.Respaced.alike hscan false 0 _ (.of_squeeze hruns (Or.inl rfl) ?_)
  intro front first more back _
  rw [List.append_nil, Run.startsBlank_map_squeeze]

namespace Lexeme

/-- A blank in front of runs is skipped. -/
theorem ofRuns_cons_blank {c : Char} (hc : Kind.ofChar c = .blank) (afterBlank : Bool)
    (position : Nat) (runs : List Run) :
    ofRuns afterBlank position (Run.cons c runs) = ofRuns true (position + 1) runs := by
  rcases Run.cons_cases c runs with ⟨heq, _⟩ | ⟨run, rest, _, rfl, _, _, hkind, _⟩
  · rw [heq, Run.single, hc]
    rfl
  · rw [hc] at hkind
    cases run with
    | blank first more =>
      have hplace : position + (more.length + 1 + 1) = position + 1 + (more.length + 1) := by omega
      have hjoined : Run.cons c (.blank first more :: rest) = .blank c (first :: more) :: rest := by
        simp only [Run.cons, hc]
      rw [hjoined, ofRuns, ofRuns, List.length_cons, hplace]
    | lower _ _ => cases hkind
    | upper _ _ => cases hkind
    | sign _ => cases hkind

/-- Blanks in front of a text are skipped. -/
theorem ofRuns_blanks {blanks : List Char} (h : ∀ c ∈ blanks, Text.isBlank c = true)
    (front text : List Char) (position : Nat) :
    ofRuns (front.getLast?.any Text.isBlank) position (Run.ofText (blanks ++ text)) =
      ofRuns ((front ++ blanks).getLast?.any Text.isBlank) (position + blanks.length)
        (Run.ofText text) := by
  induction blanks generalizing front position with
  | nil => rw [List.append_nil, List.nil_append, List.length_nil, Nat.add_zero]
  | cons c rest ih =>
    have hc := h c List.mem_cons_self
    have hflag : (front ++ [c]).getLast?.any Text.isBlank = true := by
      rw [List.getLast?_concat]
      exact hc
    have hrest := ih (fun d hd => h d (List.mem_cons_of_mem c hd)) (front ++ [c]) (position + 1)
    rw [hflag, List.append_assoc] at hrest
    rw [List.cons_append, Run.ofText, ofRuns_cons_blank ((Kind.isBlank_iff c).mp hc), hrest,
      List.length_cons, Nat.add_assoc, Nat.add_comm 1]
    rfl

end Lexeme

/-- Blanks around a text leave the tokens of its words as they are, if they leave those of its
lowercase words. -/
theorem alike_tokenize_padded {β : Type} (view : Token → β) {source before behind : String}
    (hbefore : ∀ c ∈ before.toList, Text.isBlank c = true)
    (hbehind : ∀ c ∈ behind.toList, Text.isBlank c = true)
    (hwords : ∀ front word back, source.toList = front ++ word ++ back →
      Text.WholeRun Char.isLower front word back →
      view (Token.ofLowercase front word back) =
        view (Token.ofLowercase (before.toList ++ front) word (back ++ behind.toList))) :
    Alike ((tokenize source).map (Lexeme.viewed view))
      ((tokenize (before ++ source ++ behind)).map (Lexeme.viewed view)) := by
  have hscan := Lexeme.scan_ofRuns false 0 (Run.ofText source.toList)
  have hpadded : tokenize (before ++ source ++ behind) =
      Lexeme.ofRuns (before.toList.getLast?.any Text.isBlank) (0 + before.toList.length)
        (Run.ofText (source.toList ++ behind.toList)) := by
    rw [tokenize, String.toList_append, String.toList_append, List.append_assoc]
    exact Lexeme.ofRuns_blanks hbefore [] _ 0
  rw [hpadded]
  refine Run.Respaced.alike hscan _ _ _ (.of_blanks_behind hbehind ?_)
  intro front word back htext hrun
  rw [Lexeme.endsBlank_ofText, Lexeme.endsBlank_ofText_append,
    Token.ofWord_eq_ofLowercase hrun.inside, Token.ofWord_eq_ofLowercase hrun.inside]
  exact hwords front word back htext hrun

end Propositional
