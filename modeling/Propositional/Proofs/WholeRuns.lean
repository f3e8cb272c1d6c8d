import Propositional.Lexeme.Layout
import Propositional.Lexeme.Spelling

/-!
# Whole runs of letters are read as one word

A run of letters that a text cannot lengthen on either side is one of the runs of
the text, and reading comes to it whatever stands in front.

* `Run.ofText_wholeRun`, `Run.exists_wholeRun` — a whole run in a text is one of its
  runs, and there are no others;
* `Lexeme.Scan.exists_split` — the lexemes of a text from a run of letters on;
* `exists_of_lowercase`, `exists_of_uppercase` — the lexeme of a whole run of
  letters.
-/

namespace Propositional

/-- A whole run of one kind in a text is one of the runs of the text. -/
theorem Run.ofText_wholeRun {holds : Char → Bool} {kind : Kind}
    (hkind : ∀ c, holds c = true ↔ Kind.ofChar c = kind) (hsign : kind ≠ .sign)
    {front word back : List Char} (h : Text.WholeRun holds front word back) :
    ∃ run, run.kind = kind ∧ run.text = word ∧
      ofText (front ++ word ++ back) = ofText front ++ run :: ofText back := by
  obtain ⟨run, hrun, hk, htext⟩ :=
    exists_ofText_of_kind hsign h.ne_nil fun c hc => (hkind c).mp (h.inside c hc)
  have hfront : Apart front word := by
    intro a ha b hb hsame
    have hb' := (hkind b).mp (h.inside b (List.mem_of_mem_head? hb))
    have ha' := (hkind a).mpr (hsame.trans hb')
    rw [h.before a ha] at ha'
    cases ha'
  have hback : Apart word back := by
    intro a ha b hb hsame
    have ha' := (hkind a).mp (h.inside a (List.mem_of_getLast? ha))
    have hb' := (hkind b).mpr (hsame.symm.trans ha')
    rw [h.behind b hb] at hb'
    cases hb'
  have hjoined : ofText (front ++ word) = ofText front ++ [run] := by
    rw [ofText_append hfront, hrun]
  refine ⟨run, hk, htext, ?_⟩
  rw [ofText_append (hback.append_left h.ne_nil front), hjoined, List.append_assoc]
  rfl

/-- Characters of one kind that no run goes on over on either side are a whole run. -/
theorem Run.wholeRun_of_apart {holds : Char → Bool} {kind : Kind}
    (hkind : ∀ c, holds c = true ↔ Kind.ofChar c = kind) (hsign : kind ≠ .sign)
    {front word back : List Char} (hne : word ≠ []) (inside : ∀ c ∈ word, holds c = true)
    (hfront : Apart front (word ++ back)) (hback : Apart word back) :
    Text.WholeRun holds front word back := by
  have hfront' := hfront.of_append_right hne
  have hnot {a b : Char} (ha : Kind.ofChar a = kind) (h : Kind.ofChar a = Kind.ofChar b →
      Kind.ofChar a = .sign) : holds b = false := by
    rw [Bool.eq_false_iff]
    intro hb
    exact hsign (ha ▸ h (ha.trans ((hkind b).mp hb).symm))
  have hhead := List.head?_eq_some_head hne
  have hlast := List.getLast?_eq_some_getLast hne
  refine ⟨hne, inside, fun a ha => ?_, fun b hb => ?_⟩
  · have hk := (hkind _).mp (inside _ (List.head_mem hne))
    refine hnot hk fun hsame => ?_
    rw [hsame]
    exact hfront' a ha _ hhead hsame.symm
  · exact hnot ((hkind _).mp (inside _ (List.getLast_mem hne))) (hback _ hlast b hb)

/-- A run of one kind among the runs of a text is a whole run in the text. -/
theorem Run.exists_wholeRun {holds : Char → Bool} {kind : Kind}
    (hkind : ∀ c, holds c = true ↔ Kind.ofChar c = kind) (hsign : kind ≠ .sign)
    {text : List Char} {front back : List Run} {run : Run}
    (hruns : ofText text = front ++ run :: back) (hrun : run.kind = kind) :
    ∃ before behind, text = before ++ run.text ++ behind ∧ ofText before = front ∧
      ofText behind = back ∧ Text.WholeRun holds before run.text behind := by
  obtain ⟨before, rest, rfl, hbefore, hrest, hfront⟩ := exists_of_ofText_eq_append hruns
  obtain ⟨behind, rfl, _, hbehind, hback⟩ := exists_of_ofText_eq_cons hrest
  have hinside : ∀ c ∈ run.text, holds c = true := by
    intro c hc
    rw [hkind, kind_of_ofText_eq_cons hrest c hc, hrun]
  refine ⟨before, behind, (List.append_assoc _ _ _).symm, hbefore, hbehind, ?_⟩
  exact wholeRun_of_apart hkind hsign run.text_ne_nil hinside hfront hback

namespace Lexeme

/-- Does a blank stand behind the runs?  `afterBlank` tells whether one stands in front of them. -/
def endsBlank : Bool → List Run → Bool
  | afterBlank, [] => afterBlank
  | _, run :: rest => endsBlank (run.kind == .blank) rest

theorem endsBlank_append (afterBlank : Bool) (front back : List Run) :
    endsBlank afterBlank (front ++ back) = endsBlank (endsBlank afterBlank front) back := by
  induction front generalizing afterBlank with
  | nil => rfl
  | cons run rest ih => exact ih (run.kind == .blank)

/-- A blank stands behind the runs of a text if its last character is one. -/
theorem endsBlank_ofText (text : List Char) :
    endsBlank false (Run.ofText text) = text.getLast?.any Text.isBlank := by
  have hblank (c : Char) : (Kind.ofChar c == .blank) = Text.isBlank c := by
    rw [Bool.eq_iff_iff, beq_iff_eq, Kind.isBlank_iff]
  induction text with
  | nil => rfl
  | cons c rest ih =>
    rw [Run.ofText]
    cases rest with
    | nil =>
      show endsBlank false (Run.cons c []) = Text.isBlank c
      rw [Run.cons_nil, endsBlank, Run.kind_single, endsBlank, hblank]
    | cons d more =>
      rw [List.getLast?_cons_cons, ← ih]
      rcases Run.cons_cases c (Run.ofText (d :: more)) with
        ⟨heq, _⟩ | ⟨r, tail, longer, hr, heq, hk, _, _⟩
      · obtain ⟨r, tail, hr, _⟩ := Run.exists_kind_ofText_cons d more
        rw [heq, hr]
        rfl
      · rw [heq, hr, endsBlank, hk]
        rfl

/-- A blank stands behind two texts if it does so behind their runs. -/
theorem endsBlank_ofText_append (front back : List Char) :
    endsBlank (front.getLast?.any Text.isBlank) (Run.ofText back) =
      (front ++ back).getLast?.any Text.isBlank := by
  cases back with
  | nil => rw [List.append_nil, Run.ofText, endsBlank]
  | cons c rest =>
    obtain ⟨run, tail, heq, _⟩ := Run.exists_kind_ofText_cons c rest
    have hback := endsBlank_ofText (c :: rest)
    rw [heq, endsBlank] at hback ⊢
    rw [hback, List.getLast?_append, List.getLast?_cons, Option.some_or]

/-- A blank stands in front of two texts if it does so in front of their runs. -/
theorem startsBlank_ofText_append (front back : List Char) :
    startsBlank (Run.ofText front ++ Run.ofText back) =
      (front ++ back).head?.any Text.isBlank := by
  cases front with
  | nil => exact startsBlank_ofText back
  | cons c rest =>
    obtain ⟨run, tail, heq, _⟩ := Run.exists_kind_ofText_cons c rest
    have hfront := startsBlank_ofText (c :: rest)
    have hrun : startsBlank (run :: tail ++ Run.ofText back) = startsBlank (run :: tail) := by
      cases run <;> rfl
    rw [heq] at hfront ⊢
    rw [hrun, hfront]
    rfl

end Lexeme

namespace Token

/-- The runs that spell one token are one run or signs. -/
theorem SpelledBy.eq_singleton {afterBlank : Bool} {rest word : List Run} {token : Token}
    (h : SpelledBy afterBlank rest word token) {run : Run} (hrun : run ∈ word)
    (hkind : run.kind ≠ .sign) : word = [run] := by
  have hsigns (hall : ∀ other ∈ word, other.kind = .sign) : word = [run] :=
    absurd (hall run hrun) hkind
  cases h with
  | word _ _ => rw [List.mem_singleton.mp hrun]
  | keyword _ => rw [List.mem_singleton.mp hrun]
  | sign _ => rw [List.mem_singleton.mp hrun]
  | biconditional => exact hsigns (by simp [Run.kind])
  | conditional => exact hsigns (by simp [Run.kind])

theorem SpelledBy.endsBlank {afterBlank : Bool} {rest word : List Run} {token : Token}
    (h : SpelledBy afterBlank rest word token) (b : Bool) : Lexeme.endsBlank b word = false := by
  cases h <;> rfl

/-- A lowercase word that names a connective is one of two. -/
theorem eq_of_ofSymbol?_lowercase {word : List Char} (h : ∀ c ∈ word, c.isLower = true)
    {op : Connective} (hop : Connective.ofSymbol? (String.ofList word) = some op) :
    (word = ['v'] ∧ op = .or) ∨ (word = ['x', 'o', 'r'] ∧ op = .xor) := by
  have hword {name : String} (hname : String.ofList word = name) : word = name.toList := by
    rw [← hname, String.toList_ofList]
  have hnot {name : String} (hname : String.ofList word = name)
      (hupper : name.toList.all Char.isLower = false) : False := by
    have hall : name.toList.all Char.isLower = true := by
      rw [← hword hname]
      exact List.all_eq_true.mpr h
    rw [hupper] at hall
    cases hall
  rcases (Connective.ofSymbol?_eq_some_iff _ op).mp hop with hname | ⟨hname, _⟩
  · cases op with
    | or => exact Or.inl ⟨hword hname, rfl⟩
    | xor => exact Or.inr ⟨hword hname, rfl⟩
    | and => exact (hnot hname (by decide)).elim
    | nand => exact (hnot hname (by decide)).elim
    | nor => exact (hnot hname (by decide)).elim
    | xnor => exact (hnot hname (by decide)).elim
    | conditional => exact (hnot hname (by decide)).elim
    | biconditional => exact (hnot hname (by decide)).elim
  · exact (hnot hname (by decide)).elim

/-- What a whole run of lowercase letters is read as, said of the texts around it. -/
theorem ofWord_eq_ofLowercase {word : List Char} (h : ∀ c ∈ word, c.isLower = true)
    (front back : List Char) :
    ofWord (front.getLast?.any Text.isBlank && back.head?.any Text.isBlank) word =
      ofLowercase front word back := by
  have hspaced : (front.getLast?.any Text.isBlank && back.head?.any Text.isBlank) =
      decide (Text.Surrounded front back) := by
    rw [Bool.eq_iff_iff, Bool.and_eq_true, decide_eq_true_iff]
    rfl
  have hor : Connective.ofSymbol? (String.ofList ['v']) = some .or := by decide
  have hxor : Connective.ofSymbol? (String.ofList ['x', 'o', 'r']) = some .xor := by decide
  rw [hspaced, ofWord, ofLowercase]
  by_cases heq : word = ['v'] ∨ word = ['x', 'o', 'r']
  · rcases heq with rfl | rfl
    · rw [hor]
      by_cases h : Text.Surrounded front back <;> simp [h]
    · rw [hxor]
      by_cases h : Text.Surrounded front back <;> simp [h]
  · rw [if_neg fun hboth => heq (Or.inl hboth.2), if_neg fun hboth => heq (Or.inr hboth.2)]
    cases hop : Connective.ofSymbol? (String.ofList word) with
    | none => rfl
    | some op =>
      have hword := eq_of_ofSymbol?_lowercase h hop
      exact absurd (hword.imp And.left And.left) heq

/-- A spelling that names a connective spells it. -/
theorem spelledAs_of_ofSymbol? {word : List Char} {op : Connective}
    (h : Connective.ofSymbol? (String.ofList word) = some op) :
    SpelledAs (.connective op) word := by
  have hword {name : String} (hname : String.ofList word = name) : name.toList = word := by
    rw [← hname, String.toList_ofList]
  rcases (Connective.ofSymbol?_eq_some_iff _ op).mp h with hname | ⟨hname, rfl⟩
  · rw [← hword hname]
    exact .connective op
  · rw [← hword hname]
    exact .uppercaseXor

theorem spelledAs_of_ofKeyword? {word : List Char} {token : Token}
    (h : ofKeyword? word = some token) : SpelledAs token word := by
  unfold ofKeyword? at h
  split at h
  · rename_i hword
    cases h
    rw [hword]
    exact .verum
  · split at h
    · rename_i hword
      cases h
      rw [hword]
      exact .falsum
    · obtain ⟨op, hop, rfl⟩ := Option.map_eq_some_iff.mp h
      exact spelledAs_of_ofSymbol? hop

/-- The four signs that are a word by themselves. -/
theorem ofSign?_cases {c : Char} {token : Token} (h : ofSign? c = some token) :
    (c = '~' ∧ token = .neg) ∨ (c = '^' ∧ token = .connective .and) ∨
      (c = '(' ∧ token = .openBracket) ∨ (c = ')' ∧ token = .closeBracket) := by
  unfold ofSign? at h
  repeat' split at h
  all_goals simp_all

theorem spelledAs_of_ofSign? {c : Char} {token : Token} (h : ofSign? c = some token) :
    SpelledAs token [c] := by
  rcases ofSign?_cases h with ⟨rfl, rfl⟩ | ⟨rfl, rfl⟩ | ⟨rfl, rfl⟩ | ⟨rfl, rfl⟩
  · exact .neg
  · exact .connective .and
  · exact .openBracket
  · exact .closeBracket

theorem spelledAs_ofWord {word : List Char} (hne : word ≠ [])
    (h : ∀ c ∈ word, c.isLower = true) (spaced : Bool) : SpelledAs (ofWord spaced word) word := by
  have hvar : SpelledAs (.var (String.ofList word)) word := by
    have hname : Names.Spellable (String.ofList word) := by
      rw [Names.Spellable, String.toList_ofList]
      exact ⟨hne, h⟩
    have hspelled := SpelledAs.var hname
    rwa [String.toList_ofList] at hspelled
  unfold ofWord
  split
  · rename_i op hop
    split
    · exact spelledAs_of_ofSymbol? hop
    · exact hvar
  · exact hvar

/-- The characters of the runs spell the token. -/
theorem SpelledBy.spelledAs {afterBlank : Bool} {rest word : List Run} {token : Token}
    (h : SpelledBy afterBlank rest word token)
    (hkind : ∀ run ∈ word, ∀ c ∈ run.text, Kind.ofChar c = run.kind) :
    token.SpelledAs (word.flatMap Run.text) := by
  cases h with
  | word first more =>
    have hlower := hkind (.lower first more) (List.mem_singleton_self _)
    rw [List.flatMap_singleton]
    exact spelledAs_ofWord (List.cons_ne_nil first more)
      (fun c hc => Kind.isLower_of_ofChar (hlower c hc)) _
  | keyword hword =>
    rw [List.flatMap_singleton]
    exact spelledAs_of_ofKeyword? hword
  | biconditional => exact .connective .biconditional
  | conditional => exact .connective .conditional
  | sign hc =>
    rw [List.flatMap_singleton]
    exact spelledAs_of_ofSign? hc

/-- A run that is no sign stands behind the runs of a token or is all of them. -/
theorem SpelledBy.append_cases {afterBlank : Bool} {rest word : List Run} {token : Token}
    (h : SpelledBy afterBlank rest word token) {front back : List Run} {run : Run}
    (hruns : word ++ rest = front ++ run :: back) (hkind : run.kind ≠ .sign) :
    (∃ middle, front = word ++ middle ∧ rest = middle ++ run :: back) ∨
      (front = [] ∧ word = [run] ∧ rest = back) := by
  rcases List.append_eq_append_iff.mp hruns with ⟨middle, hfront, hrest⟩ | ⟨others, hword, hback⟩
  · exact Or.inl ⟨middle, hfront, hrest⟩
  · cases others with
    | nil =>
      refine Or.inl ⟨[], ?_, hback.symm⟩
      rw [hword, List.append_nil, List.append_nil]
    | cons other others =>
      obtain ⟨rfl, rfl⟩ := List.cons.inj hback
      have hmem : run ∈ word := by simp [hword]
      have hsingle := h.eq_singleton hmem hkind
      rw [hsingle] at hword
      have hlength := congrArg List.length hword
      simp only [List.length_append, List.length_cons, List.length_nil] at hlength
      have hfront : front = [] := List.length_eq_zero_iff.mp (by omega)
      have hothers : others = [] := List.length_eq_zero_iff.mp (by omega)
      subst hfront hothers
      exact Or.inr ⟨rfl, hsingle, rfl⟩

end Token

namespace Lexeme

/-- The lexemes from a run of letters on are read from there on, whatever stands in front. -/
theorem Scan.exists_split {afterBlank : Bool} {position : Nat} {runs : List Run}
    {result : Except Error (List Lexeme)} (h : Scan afterBlank position runs result) :
    ∀ front run back lexemes, runs = front ++ run :: back → run.kind ≠ .sign →
      result = .ok lexemes →
      ∃ before behind, lexemes = before ++ behind ∧
        Scan (endsBlank afterBlank front) (position + (front.flatMap Run.text).length)
          (run :: back) (.ok behind) := by
  induction h with
  | ending _ _ =>
    intro front run back lexemes hruns
    exact absurd hruns.symm (List.append_ne_nil_of_right_ne_nil front (List.cons_ne_nil run back))
  | @blank _ position first more rest result others ih =>
    intro front run back lexemes hruns hkind hok
    cases front with
    | nil =>
      subst hok
      obtain ⟨rfl, rfl⟩ := List.cons.inj hruns
      exact ⟨[], lexemes, rfl, .blank others⟩
    | cons other front =>
      obtain ⟨rfl, hrest⟩ := List.cons.inj hruns
      obtain ⟨before, behind, hlexemes, hscan⟩ := ih front run back lexemes hrest hkind hok
      refine ⟨before, behind, hlexemes, ?_⟩
      rw [List.flatMap_cons, List.length_append, ← Nat.add_assoc]
      exact hscan
  | @token afterBlank position word rest token result spelled others ih =>
    intro front run back lexemes hruns hkind hok
    cases result with
    | error e => cases hok
    | ok tail =>
      cases hok
      rcases spelled.append_cases hruns hkind with ⟨middle, rfl, hrest⟩ | ⟨rfl, rfl, rfl⟩
      · obtain ⟨before, behind, rfl, hscan⟩ := ih middle run back tail hrest hkind rfl
        refine ⟨⟨token, position⟩ :: before, behind, rfl, ?_⟩
        rw [endsBlank_append, spelled.endsBlank, List.flatMap_append, List.length_append,
          ← Nat.add_assoc]
        exact hscan
      · exact ⟨[], _, rfl, .token spelled others⟩
  | unspelled _ =>
    intro front run back lexemes _ _ hok
    cases hok

/-- A run that is no sign and no blank is read as one token. -/
theorem Scan.of_letters {afterBlank : Bool} {position : Nat} {run : Run} {rest : List Run}
    {lexemes : List Lexeme} (h : Scan afterBlank position (run :: rest) (.ok lexemes))
    (hkind : run.kind = .lower ∨ run.kind = .upper) :
    ∃ token others, lexemes = ⟨token, position⟩ :: others ∧
      Token.SpelledBy afterBlank rest [run] token ∧
      Scan false (position + run.text.length) rest (.ok others) := by
  have hsign : run.kind ≠ .sign := by
    rcases hkind with h | h <;> rw [h] <;> decide
  generalize hruns : run :: rest = runs at h
  generalize hresult : Except.ok lexemes = result at h
  cases h with
  | ending _ _ => cases hruns
  | blank _ =>
    cases hruns
    rcases hkind with h | h <;> cases h
  | unspelled _ => cases hresult
  | @token _ _ word rest' token tail spelled others =>
    cases tail with
    | error e => cases hresult
    | ok tail =>
      cases hresult
      have hfront : word ++ rest' = [] ++ run :: rest := hruns.symm
      rcases spelled.append_cases hfront hsign with
        ⟨middle, hnil, hrest⟩ | ⟨_, rfl, rfl⟩
      · obtain ⟨rfl, rfl⟩ := List.append_eq_nil_iff.mp hnil.symm
        cases spelled
      · rw [List.flatMap_singleton] at others
        exact ⟨token, tail, rfl, spelled, others⟩

end Lexeme

/-- A whole run of lowercase letters is read as one token, which depends on what is around it. -/
theorem Lexeme.Scan.of_lowercase {run : Run} (hkind : run.kind = .lower) {front back : List Char}
    (hrun : Text.WholeRun Char.isLower front run.text back) {position : Nat}
    {lexemes : List Lexeme} (h : Scan (front.getLast?.any Text.isBlank) position
      (run :: Run.ofText back) (.ok lexemes)) :
    ∃ others, lexemes = ⟨Token.ofLowercase front run.text back, position⟩ :: others ∧
      Scan false (position + run.text.length) (Run.ofText back) (.ok others) := by
  obtain ⟨token, others, rfl, spelled, hothers⟩ := h.of_letters (Or.inl hkind)
  refine ⟨others, ?_, hothers⟩
  cases spelled with
  | word first more =>
    rw [← Token.ofWord_eq_ofLowercase hrun.inside, Lexeme.startsBlank_ofText]
    rfl
  | keyword _ => cases hkind
  | sign _ => cases hkind

/-- The lexemes of a text from a whole run of lowercase letters on. -/
theorem exists_of_lowercase {source : String} {lexemes : List Lexeme}
    (h : tokenize source = .ok lexemes) {front word back : List Char}
    (htext : source.toList = front ++ word ++ back)
    (hrun : Text.WholeRun Char.isLower front word back) :
    ∃ before behind,
      lexemes = before ++ ⟨Token.ofLowercase front word back, front.length⟩ :: behind ∧
        Lexeme.Scan false (front.length + word.length) (Run.ofText back) (.ok behind) := by
  obtain ⟨run, hkind, rfl, hruns⟩ := Run.ofText_wholeRun Kind.isLower_iff (by decide) hrun
  have hscan := Lexeme.scan_ofRuns false 0 (Run.ofText source.toList)
  obtain ⟨before, behind, rfl, hsplit⟩ := hscan.exists_split (Run.ofText front) run
    (Run.ofText back) lexemes (htext ▸ hruns) (by rw [hkind]; decide) h
  rw [Run.text_ofText, Nat.zero_add, Lexeme.endsBlank_ofText] at hsplit
  obtain ⟨others, rfl, hothers⟩ := hsplit.of_lowercase hkind hrun
  exact ⟨before, others, rfl, hothers⟩

/-- The lexeme of a whole run of uppercase letters in a text. -/
theorem exists_of_uppercase {source : String} {lexemes : List Lexeme}
    (h : tokenize source = .ok lexemes) {front word back : List Char}
    (htext : source.toList = front ++ word ++ back)
    (hrun : Text.WholeRun Char.isUpper front word back) :
    ∃ token : Token, token.SpelledAs word ∧ ⟨token, front.length⟩ ∈ lexemes := by
  obtain ⟨run, hkind, rfl, hruns⟩ := Run.ofText_wholeRun Kind.isUpper_iff (by decide) hrun
  have hscan := Lexeme.scan_ofRuns false 0 (Run.ofText source.toList)
  obtain ⟨before, behind, rfl, hsplit⟩ := hscan.exists_split (Run.ofText front) run
    (Run.ofText back) lexemes (htext ▸ hruns) (by rw [hkind]; decide) h
  rw [Run.text_ofText, Nat.zero_add] at hsplit
  obtain ⟨token, others, rfl, spelled, _⟩ := hsplit.of_letters (Or.inr hkind)
  refine ⟨token, ?_, List.mem_append_right _ List.mem_cons_self⟩
  cases spelled with
  | word _ _ => cases hkind
  | keyword hword => exact Token.spelledAs_of_ofKeyword? hword
  | sign _ => cases hkind

end Propositional
