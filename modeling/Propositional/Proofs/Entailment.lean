import Mathlib
import Propositional.Argument
import Propositional.Proofs.Verdicts

/-!
# Valid arguments are entailments

The conjunction of the premises is true exactly where all of them are, and its
variables are theirs, however they are grouped.  So the verdict on an argument, and
the number of variables it is refused for, depend on nothing but which premises
there are.

* `conjunctionOf_induction` — what holds of single formulas and is kept by one more in
  front holds of all conjunctions;
* `isValid_decides` — an argument is valid exactly if its premises entail its
  conclusion;
* `isValid_exact` — the same of assignments, with both verdicts and both errors.
-/

namespace Propositional.Argument

/-- The conclusion and the premises. -/
def formulas (argument : Argument) : List Formula := argument.conclusion :: argument.premises

/-- The names that occur in the argument, in strictly increasing order. -/
def freeVariables (argument : Argument) : List String :=
  Formula.jointVariables argument.formulas

/-- The variables of an argument are those of its premises and of its conclusion. -/
theorem mem_freeVariables (argument : Argument) {x : String} :
    x ∈ argument.freeVariables ↔
      x ∈ argument.conclusion.freeVariables ∨ ∃ p ∈ argument.premises, x ∈ p.freeVariables := by
  simp only [freeVariables, formulas, Formula.mem_jointVariables, List.exists_mem_cons_iff]

/-- The conclusion is true under every valuation that makes all premises true. -/
def Entails (premises : List Formula) (conclusion : Formula) : Prop :=
  ∀ v : String → Bool, (∀ p ∈ premises, p.value v = true) → conclusion.value v = true

/-- The conjunction of two or more formulas has theirs as its operands. -/
theorem exists_of_conjunctionOf_cons {f next g : Formula} {rest : List Formula}
    (h : conjunctionOf (f :: next :: rest) = .ok g) :
    ∃ others, conjunctionOf (next :: rest) = .ok others ∧ g = .bin .and f others := by
  rw [conjunctionOf_cons f (List.cons_ne_nil next rest)] at h
  cases hothers : conjunctionOf (next :: rest) with
  | error e =>
    rw [hothers] at h
    cases h
  | ok others =>
    rw [hothers] at h
    cases h
    exact ⟨others, rfl, rfl⟩

/-- What holds of single formulas, and of a formula in front of others if it holds of these, holds
of all conjunctions. -/
@[elab_as_elim]
theorem conjunctionOf_induction
    {motive : (premises : List Formula) → (g : Formula) → conjunctionOf premises = .ok g → Prop}
    (single : ∀ f, motive [f] f rfl)
    (cons : ∀ f next rest others (h : conjunctionOf (f :: next :: rest) = .ok (.bin .and f others))
      (hothers : conjunctionOf (next :: rest) = .ok others),
      motive (next :: rest) others hothers →
        motive (f :: next :: rest) (.bin .and f others) h)
    {premises : List Formula} {g : Formula} (h : conjunctionOf premises = .ok g) :
    motive premises g h := by
  cases premises with
  | nil => cases h
  | cons f rest =>
    induction rest generalizing f g with
    | nil =>
      obtain rfl : f = g := Except.ok.inj h
      exact single f
    | cons next rest ih =>
      obtain ⟨others, hothers, rfl⟩ := exists_of_conjunctionOf_cons h
      exact cons f next rest others h hothers (ih next hothers)

/-- The variables of a conjunction are those of the formulas. -/
theorem mem_freeVariables_of_conjunctionOf {premises : List Formula} {g : Formula}
    (h : conjunctionOf premises = .ok g) {x : String} :
    x ∈ g.freeVariables ↔ ∃ p ∈ premises, x ∈ p.freeVariables := by
  induction h using conjunctionOf_induction with
  | single f => simp only [List.mem_singleton, exists_eq_left]
  | cons f next rest others _ _ ih =>
    rw [Formula.mem_freeVariables_bin, ih]
    simp only [List.exists_mem_cons_iff]

/-- A conjunction is true exactly where all the formulas are. -/
theorem value_of_conjunctionOf {premises : List Formula} {g : Formula}
    (h : conjunctionOf premises = .ok g) {v : String → Bool} :
    g.value v = true ↔ ∀ p ∈ premises, p.value v = true := by
  induction h using conjunctionOf_induction with
  | single f => simp only [List.mem_singleton, forall_eq]
  | cons f next rest others _ _ ih =>
    rw [Formula.value_and_iff, ih]
    simp only [List.forall_mem_cons]

/-- An argument is valid if the conditional from the conjunction of its premises to its
conclusion is a tautology. -/
theorem isValid_of_conjunctionOf {premises : List Formula} {g : Formula}
    (h : conjunctionOf premises = .ok g) (q : Formula) (ceiling : Ceiling) :
    isValid ⟨premises, q⟩ ceiling = (Formula.bin .conditional g q).isTautology ceiling := by
  rw [isValid, conjunction, h]
  rfl

/-- Without premises there is no verdict, whatever the conclusion. -/
theorem isValid_nil (q : Formula) (ceiling : Ceiling) :
    isValid ⟨[], q⟩ ceiling = .error .emptyArgument := rfl

/-- A connective between the conjunction of the premises and what has the variables of the
conclusion has the variables of the argument. -/
theorem freeVariables_bin_of_conjunctionOf {premises : List Formula} {g q r : Formula}
    (h : conjunctionOf premises = .ok g) (op : Connective)
    (hr : r.freeVariables = q.freeVariables) :
    (Formula.bin op g r).freeVariables = freeVariables ⟨premises, q⟩ := by
  refine Names.eq_of_mem_iff (Formula.ordered_freeVariables _)
    (Formula.ordered_jointVariables _) fun x => ?_
  rw [Formula.mem_freeVariables_bin, mem_freeVariables_of_conjunctionOf h, hr, or_comm]
  exact (mem_freeVariables ⟨premises, q⟩).symm

/-- An argument with premises is valid exactly if they entail its conclusion. -/
theorem isValid_decides {premises : List Formula} (h : premises ≠ []) (q : Formula)
    (ceiling : Ceiling) :
    Decides ceiling (freeVariables ⟨premises, q⟩).length (Entails premises q)
      (isValid ⟨premises, q⟩ ceiling) := by
  obtain ⟨g, hg⟩ := exists_conjunctionOf h
  rw [isValid_of_conjunctionOf hg, ← freeVariables_bin_of_conjunctionOf hg .conditional rfl]
  refine (Formula.isTautology_decides _ ceiling).congr (forall_congr' fun v => ?_)
  rw [Formula.value_conditional_iff, value_of_conjunctionOf hg]

/-- A conclusion is not entailed exactly if some valuation refutes the argument. -/
theorem not_entails_iff {premises : List Formula} {q : Formula} :
    ¬ Entails premises q ↔
      ∃ v : String → Bool, (∀ p ∈ premises, p.value v = true) ∧ q.value v = false := by
  simp only [Entails, not_forall, exists_prop, Bool.not_eq_true]

section Assignments

variable {argument : Argument} {a : Assignment} {val : Formula → Bool}

/-- Where all formulas have a value, evaluation gives the premises true exactly if they are. -/
theorem evaluate_premises_iff (hval : ∀ f ∈ argument.formulas, f.evaluate a = .ok (val f)) :
    (∀ p ∈ argument.premises, p.evaluate a = .ok true) ↔
      ∀ p ∈ argument.premises, val p = true := by
  refine forall₂_congr fun p hp => ?_
  rw [hval p (List.mem_cons_of_mem _ hp), Except.ok.injEq]

theorem evaluate_conclusion_iff (hval : ∀ f ∈ argument.formulas, f.evaluate a = .ok (val f))
    (b : Bool) : argument.conclusion.evaluate a = .ok b ↔ val argument.conclusion = b := by
  rw [hval argument.conclusion List.mem_cons_self, Except.ok.injEq]

end Assignments

/-- Entailment, said of the assignments that bind the variables of the argument. -/
theorem entails_iff_forall_binds (argument : Argument) :
    Entails argument.premises argument.conclusion ↔
      ∀ a : Assignment, a.Binds argument.freeVariables →
        (∀ p ∈ argument.premises, p.evaluate a = .ok true) →
          argument.conclusion.evaluate a = .ok true := by
  refine (Formula.forall_binds_iff argument.formulas (fun val =>
    (∀ p ∈ argument.premises, val p = true) → val argument.conclusion = true) ?_).symm
  intro a val hval
  rw [evaluate_premises_iff hval, evaluate_conclusion_iff hval]

/-- Refutation, said of the assignments that bind the variables of the argument. -/
theorem not_entails_iff_exists_binds (argument : Argument) :
    ¬ Entails argument.premises argument.conclusion ↔
      ∃ a : Assignment, a.Binds argument.freeVariables ∧
        (∀ p ∈ argument.premises, p.evaluate a = .ok true) ∧
          argument.conclusion.evaluate a = .ok false := by
  refine not_entails_iff.trans (Formula.exists_binds_iff argument.formulas (fun val =>
    (∀ p ∈ argument.premises, val p = true) ∧ val argument.conclusion = false) ?_).symm
  intro a val hval
  rw [evaluate_premises_iff hval, evaluate_conclusion_iff hval]

/-- Without premises the error is that there are none.  With premises, an argument is refused
exactly above the ceiling; otherwise it is valid exactly if the conclusion is true under every
assignment of the variables that makes the premises true, and not valid exactly if it is false
under one of them. -/
theorem isValid_exact (argument : Argument) (ceiling : Ceiling) :
    (argument.premises = [] → argument.isValid ceiling = .error .emptyArgument) ∧
    (argument.premises ≠ [] →
      Decides ceiling argument.freeVariables.length
        (∀ a : Assignment, a.Binds argument.freeVariables →
          (∀ p ∈ argument.premises, p.evaluate a = .ok true) →
            argument.conclusion.evaluate a = .ok true)
        (argument.isValid ceiling) ∧
      (argument.freeVariables.length ≤ ceiling.limit →
        (argument.isValid ceiling = .ok false ↔
          ∃ a : Assignment, a.Binds argument.freeVariables ∧
            (∀ p ∈ argument.premises, p.evaluate a = .ok true) ∧
              argument.conclusion.evaluate a = .ok false))) := by
  refine ⟨fun hnil => ?_, fun hne => ?_⟩
  · obtain ⟨premises, q⟩ := argument
    cases hnil
    exact isValid_nil q ceiling
  · have hdecides := isValid_decides hne argument.conclusion ceiling
    refine ⟨hdecides.congr (entails_iff_forall_binds argument), fun hle => ?_⟩
    exact (hdecides.false_iff hle).trans (not_entails_iff_exists_binds argument)

/-- A conditional and its consequent do not yield the condition; some assignment of the two
variables shows it. -/
theorem isValid_exact_consequent :
    [Formula.bin .conditional (.var "p") (.var "q"), .var "q"] ≠ [] ∧
      isValid ⟨[.bin .conditional (.var "p") (.var "q"), .var "q"], .var "p"⟩ ⟨2⟩ = .ok false ∧
      ∃ a : Assignment, a.Binds ["p", "q"] ∧
        (∀ p ∈ [Formula.bin .conditional (.var "p") (.var "q"), .var "q"],
          p.evaluate a = .ok true) ∧
        (Formula.var "p").evaluate a = .ok false := by
  have hverdict : isValid ⟨[.bin .conditional (.var "p") (.var "q"), .var "q"], .var "p"⟩ ⟨2⟩ =
      .ok false := by decide +kernel
  have hne : [Formula.bin .conditional (.var "p") (.var "q"), .var "q"] ≠ [] :=
    List.cons_ne_nil _ _
  have hexact := (isValid_exact ⟨[.bin .conditional (.var "p") (.var "q"), .var "q"], .var "p"⟩
    ⟨2⟩).2 hne
  exact ⟨hne, hverdict, (hexact.2 (by decide)).mp hverdict⟩

end Propositional.Argument
