import Mathlib
import Propositional.Proofs.Scans
import Propositional.Semantics

/-!
# Verdicts are about all assignments

A formula with too many variables for the ceiling gets no verdict.  Any other gets
the right one: a row that settles the question is found wherever it stands, and an
assignment from outside the table gives the formula the value of some row.

* `Decides` — what it is for an answer to decide a statement under a ceiling;
* `Decides.eq_of_iff` — equivalent statements about equally many variables have
  the same answer, errors included;
* `scan_decides` — a scan decides whether the formula takes a value that passes;
* `verdicts_exact` — tautologies, satisfiable formulas and contradictions are told
  by their values under all assignments of their variables.
-/

namespace Propositional

/-- Under the ceiling, the answer decides a statement about formulas with `count` variables:
above the ceiling it is an error, otherwise it tells whether the statement holds. -/
structure Decides (ceiling : Ceiling) (count : Nat) (statement : Prop)
    (answer : Except Error Bool) : Prop where
  /-- There is an error exactly above the ceiling, and always the same one. -/
  error_iff : ∀ e, answer = .error e ↔
    ceiling.limit < count ∧ e = .tooManyVariables count ceiling.limit
  true_iff : count ≤ ceiling.limit → (answer = .ok true ↔ statement)

namespace Decides

variable {ceiling : Ceiling} {count : Nat} {statement : Prop} {answer : Except Error Bool}

theorem of_cases
    (hrefused : ceiling.limit < count →
      answer = .error (.tooManyVariables count ceiling.limit))
    (hdecided : count ≤ ceiling.limit → ∃ b, answer = .ok b ∧ (b = true ↔ statement)) :
    Decides ceiling count statement answer where
  error_iff := by
    intro e
    by_cases hle : count ≤ ceiling.limit
    · obtain ⟨b, rfl, _⟩ := hdecided hle
      constructor
      · intro he
        cases he
      · rintro ⟨hlt, _⟩
        omega
    · have hlt : ceiling.limit < count := Nat.lt_of_not_le hle
      rw [hrefused hlt]
      constructor
      · intro he
        cases he
        exact ⟨hlt, rfl⟩
      · rintro ⟨_, rfl⟩
        rfl
  true_iff := by
    intro hle
    obtain ⟨b, rfl, hb⟩ := hdecided hle
    rw [← hb, Except.ok.injEq]

theorem eq_error (h : Decides ceiling count statement answer) (hlt : ceiling.limit < count) :
    answer = .error (.tooManyVariables count ceiling.limit) :=
  (h.error_iff _).mpr ⟨hlt, rfl⟩

/-- Within the ceiling there is a verdict, and it is the right one. -/
theorem exists_ok (h : Decides ceiling count statement answer) (hle : count ≤ ceiling.limit) :
    ∃ b, answer = .ok b ∧ (b = true ↔ statement) := by
  cases hanswer : answer with
  | error e =>
    have hlt := ((h.error_iff e).mp hanswer).1
    omega
  | ok b =>
    refine ⟨b, rfl, ?_⟩
    rw [← h.true_iff hle, hanswer, Except.ok.injEq]

theorem false_iff (h : Decides ceiling count statement answer) (hle : count ≤ ceiling.limit) :
    answer = .ok false ↔ ¬ statement := by
  obtain ⟨b, rfl, hb⟩ := h.exists_ok hle
  rw [← hb, Except.ok.injEq, Bool.not_eq_true]

theorem eq_true_iff (h : Decides ceiling count statement answer) :
    answer = .ok true ↔ count ≤ ceiling.limit ∧ statement := by
  by_cases hle : count ≤ ceiling.limit
  · rw [h.true_iff hle, and_iff_right hle]
  · rw [h.eq_error (Nat.lt_of_not_le hle)]
    constructor
    · intro he
      cases he
    · rintro ⟨hle', _⟩
      exact absurd hle' hle

/-- A statement that holds is affirmed, unless there are too many variables. -/
theorem true_or_refused (h : Decides ceiling count statement answer) (hholds : statement) :
    answer = .ok true ∨ answer = .error (.tooManyVariables count ceiling.limit) := by
  by_cases hle : count ≤ ceiling.limit
  · exact Or.inl ((h.true_iff hle).mpr hholds)
  · exact Or.inr (h.eq_error (Nat.lt_of_not_le hle))

theorem congr {other : Prop} (h : Decides ceiling count statement answer)
    (hiff : statement ↔ other) : Decides ceiling count other answer := by
  rw [← propext hiff]
  exact h

/-- Equivalent statements about equally many variables have the same answer. -/
theorem eq_of_iff {count' : Nat} {statement' : Prop} {answer' : Except Error Bool}
    (h : Decides ceiling count statement answer)
    (h' : Decides ceiling count' statement' answer')
    (hcount : count = count') (hiff : statement ↔ statement') : answer = answer' := by
  subst hcount
  by_cases hle : count ≤ ceiling.limit
  · obtain ⟨b, rfl, hb⟩ := h.exists_ok hle
    obtain ⟨b', rfl, hb'⟩ := h'.exists_ok hle
    rw [Bool.eq_iff_iff.mpr (hb.trans (hiff.trans hb'.symm))]
  · have hlt := Nat.lt_of_not_le hle
    rw [h.eq_error hlt, h'.eq_error hlt]

/-- The opposite verdict decides the opposite statement. -/
theorem not (h : Decides ceiling count statement answer) :
    Decides ceiling count (¬ statement) (do let verdict ← answer; return !verdict) := by
  refine of_cases (fun hlt => ?_) fun hle => ?_
  · rw [h.eq_error hlt]
    rfl
  · obtain ⟨b, rfl, hb⟩ := h.exists_ok hle
    refine ⟨!b, rfl, ?_⟩
    rw [← hb]
    cases b <;> decide

end Decides

namespace Formula

/-- A scan decides whether the formula takes a value that passes. -/
theorem scan_decides (f : Formula) (ceiling : Ceiling) (stop : Bool → Bool) :
    Decides ceiling f.freeVariables.length (∃ v : String → Bool, stop (f.value v) = true)
      (f.scan ceiling stop) := by
  refine Decides.of_cases (fun hlt => scan_refused f hlt stop) fun hle => ?_
  refine ⟨_, scan_eq f hle stop, ?_⟩
  rw [List.any_eq_true]
  constructor
  · rintro ⟨result, hresult, hstop⟩
    obtain ⟨v, rfl⟩ := TruthTable.mem_results_listed_iff.mp hresult
    exact ⟨v, hstop⟩
  · rintro ⟨v, hstop⟩
    exact ⟨f.value v, TruthTable.mem_results_listed_iff.mpr ⟨v, rfl⟩, hstop⟩

theorem isSatisfiable_decides (f : Formula) (ceiling : Ceiling) :
    Decides ceiling f.freeVariables.length (∃ v : String → Bool, f.value v = true)
      (f.isSatisfiable ceiling) :=
  scan_decides f ceiling fun result => result

theorem isTautology_decides (f : Formula) (ceiling : Ceiling) :
    Decides ceiling f.freeVariables.length (∀ v : String → Bool, f.value v = true)
      (f.isTautology ceiling) := by
  refine (scan_decides f ceiling fun result => !result).not.congr ?_
  simp only [Bool.not_eq_true', not_exists, Bool.not_eq_false]

theorem isContradiction_decides (f : Formula) (ceiling : Ceiling) :
    Decides ceiling f.freeVariables.length (¬ ∃ v : String → Bool, f.value v = true)
      (f.isContradiction ceiling) :=
  (isSatisfiable_decides f ceiling).not

/-- Each of the three verdicts is refused above the ceiling only, which is at most 63, and tells
the values of the formula under all assignments of its variables, whatever else they bind. -/
theorem verdicts_exact (f : Formula) (ceiling : Ceiling) :
    ceiling.limit = min ceiling.maxVariables 63 ∧
    Decides ceiling f.freeVariables.length
      (∀ a : Assignment, a.Binds f.freeVariables → f.evaluate a = .ok true)
      (f.isTautology ceiling) ∧
    Decides ceiling f.freeVariables.length
      (∃ a : Assignment, a.Binds f.freeVariables ∧ f.evaluate a = .ok true)
      (f.isSatisfiable ceiling) ∧
    Decides ceiling f.freeVariables.length
      (¬ ∃ a : Assignment, a.Binds f.freeVariables ∧ f.evaluate a = .ok true)
      (f.isContradiction ceiling) := by
  have htransfer : ∀ (a : Assignment) (val : Formula → Bool),
      (∀ g ∈ [f], g.evaluate a = .ok (val g)) → (f.evaluate a = .ok true ↔ val f = true) := by
    intro a val hval
    rw [hval f List.mem_cons_self, Except.ok.injEq]
  have hforall := forall_binds_iff [f] (fun val => val f = true) htransfer
  have hexists := exists_binds_iff [f] (fun val => val f = true) htransfer
  rw [jointVariables_singleton] at hforall hexists
  refine ⟨rfl, (isTautology_decides f ceiling).congr hforall.symm,
    (isSatisfiable_decides f ceiling).congr hexists.symm,
    (isContradiction_decides f ceiling).congr (not_congr hexists.symm)⟩

/-- The verdict on two variables, got from four rows, tells the value under every assignment. -/
theorem verdicts_exact_weakening :
    (bin .conditional (.var "p") (.bin .conditional (.var "q") (.var "p"))).isTautology ⟨2⟩ =
        .ok true ∧
      ∀ a : Assignment, a.Binds ["p", "q"] →
        (bin .conditional (.var "p") (.bin .conditional (.var "q") (.var "p"))).evaluate a =
          .ok true :=
  have hverdict : (bin .conditional (.var "p")
      (.bin .conditional (.var "q") (.var "p"))).isTautology ⟨2⟩ = .ok true := by decide +kernel
  ⟨hverdict, ((verdicts_exact _ ⟨2⟩).2.1.true_iff (by decide)).mp hverdict⟩

end Formula

end Propositional
