import Propositional.Proofs.Entailment

/-!
# The conjunction of the premises

The conjunction is built in one pass from the last premise to the first, so it joins each
premise to the conjunction of those behind it.  The premises stay in their order, which no
truth value shows: it shows in the variable that is missed under an assignment that does
not bind them all.

* `conjunctionOf_eq_error_iff` — the only error;
* `evaluate_of_conjunctionOf` — evaluation goes through the premises in their order;
* `conjunction_exact` — when there is a conjunction, and what it is.
-/

namespace Propositional.Argument

/-- The values of the formulas, evaluated one after the other up to the first error. -/
def evaluateAll (a : Assignment) (formulas : List Formula) : Except Error (List Bool) :=
  formulas.mapM fun f => f.evaluate a

/-- Without formulas there is no conjunction, and that is the only error. -/
theorem conjunctionOf_eq_error_iff {formulas : List Formula} {e : Error} :
    conjunctionOf formulas = .error e ↔ formulas = [] ∧ e = .emptyArgument := by
  cases formulas with
  | nil =>
    constructor
    · intro h
      exact ⟨rfl, (Except.error.inj h).symm⟩
    · rintro ⟨-, rfl⟩
      rfl
  | cons f rest =>
    obtain ⟨g, hg⟩ := exists_conjunctionOf (List.cons_ne_nil f rest)
    simp [hg]

/-- The formula is the first one in the list that cannot be evaluated, and for this error. -/
def FirstFailure (a : Assignment) (formulas : List Formula) (e : Error) : Prop :=
  ∃ before f behind, formulas = before ++ f :: behind ∧
    (∀ g ∈ before, ∃ value, g.evaluate a = .ok value) ∧ f.evaluate a = .error e

section Evaluation

variable {a : Assignment} {f : Formula} {rest : List Formula} {e : Error} {value : Bool}

theorem evaluateAll_cons_of_error (h : f.evaluate a = .error e) :
    evaluateAll a (f :: rest) = .error e := by
  rw [evaluateAll, List.mapM_cons, h]
  rfl

theorem evaluateAll_cons_of_ok (h : f.evaluate a = .ok value) :
    evaluateAll a (f :: rest) = (evaluateAll a rest).map (value :: ·) := by
  rw [evaluateAll, List.mapM_cons, h, ← evaluateAll]
  cases evaluateAll a rest <;> rfl

theorem map_eq_error_iff {α β : Type} {result : Except Error α} (g : α → β) :
    result.map g = .error e ↔ result = .error e := by
  cases result <;> simp [Except.map]

theorem not_firstFailure_nil : ¬ FirstFailure a [] e := by
  rintro ⟨before, f, behind, h, -⟩
  exact List.append_ne_nil_of_right_ne_nil before (List.cons_ne_nil _ _) h.symm

/-- The first failure is that of the head, or else that of what stands behind it. -/
theorem firstFailure_cons_iff :
    FirstFailure a (f :: rest) e ↔
      f.evaluate a = .error e ∨
        (∃ value, f.evaluate a = .ok value) ∧ FirstFailure a rest e := by
  constructor
  · rintro ⟨before, g, behind, hsplit, hbefore, hg⟩
    rcases List.cons_eq_append_iff.mp hsplit with ⟨rfl, h⟩ | ⟨before, rfl, h⟩
    · obtain ⟨rfl, rfl⟩ := List.cons_eq_cons.mp h
      exact Or.inl hg
    · have hrest : ∀ g ∈ before, ∃ value, g.evaluate a = .ok value := fun g hg =>
        hbefore g (List.mem_cons_of_mem f hg)
      exact Or.inr ⟨hbefore f List.mem_cons_self, before, g, behind, h, hrest, hg⟩
  · rintro (hf | ⟨hf, before, g, behind, rfl, hbefore, hg⟩)
    · exact ⟨[], f, rest, rfl, fun g hg => absurd hg List.not_mem_nil, hf⟩
    · exact ⟨f :: before, g, behind, rfl, List.forall_mem_cons.mpr ⟨hf, hbefore⟩, hg⟩

/-- Evaluation one after the other fails exactly for the first formula that cannot be evaluated. -/
theorem evaluateAll_eq_error_iff {formulas : List Formula} :
    evaluateAll a formulas = .error e ↔ FirstFailure a formulas e := by
  induction formulas with
  | nil => exact iff_of_false (fun h => nomatch h) not_firstFailure_nil
  | cons f rest ih =>
    rw [firstFailure_cons_iff]
    cases hf : f.evaluate a with
    | error e' => simp [evaluateAll_cons_of_error hf]
    | ok value => simp [evaluateAll_cons_of_ok hf, map_eq_error_iff, ih]

/-- Evaluation of the conjunction goes through all formulas in their order, and the value is true
exactly if all values are. -/
theorem evaluate_of_conjunctionOf {formulas : List Formula} {g : Formula}
    (h : conjunctionOf formulas = .ok g) :
    g.evaluate a = (evaluateAll a formulas).map fun values => values.all id := by
  induction h using conjunctionOf_induction with
  | single f =>
    cases hf : f.evaluate a with
    | error e =>
      rw [evaluateAll_cons_of_error hf]
      rfl
    | ok value =>
      rw [evaluateAll_cons_of_ok hf]
      exact congrArg Except.ok (Bool.and_true value).symm
  | cons f next rest others _ _ ih =>
    rw [Formula.evaluate, ih]
    cases hf : f.evaluate a with
    | error e =>
      rw [evaluateAll_cons_of_error hf]
      rfl
    | ok value =>
      rw [evaluateAll_cons_of_ok hf]
      cases evaluateAll a (next :: rest) <;> rfl

end Evaluation

/-- What the conjunction of the premises is. -/
structure Conjoins (premises : List Formula) (g : Formula) : Prop where
  /-- A single premise is its own conjunction. -/
  eq_of_single : ∀ p, premises = [p] → g = p
  /-- The first of several premises is joined to the conjunction of the others. -/
  eq_of_cons : ∀ p others, premises = p :: others → others ≠ [] →
    ∃ joined, conjunctionOf others = .ok joined ∧ g = .bin .and p joined
  /-- The variables are those of the premises, -/
  mem_variables : ∀ x, x ∈ g.freeVariables ↔ ∃ p ∈ premises, x ∈ p.freeVariables
  /-- in strictly increasing order. -/
  ordered_variables : Names.Ordered g.freeVariables
  /-- All premises are evaluated, one after the other, and all have to be true. -/
  evaluate_eq : ∀ a : Assignment,
    g.evaluate a = (evaluateAll a premises).map fun values => values.all id
  /-- The error is that of the first premise that cannot be evaluated. -/
  evaluate_error_iff : ∀ (a : Assignment) (e : Error),
    g.evaluate a = .error e ↔ FirstFailure a premises e

theorem conjoins_of_conjunctionOf {premises : List Formula} {g : Formula}
    (h : conjunctionOf premises = .ok g) : Conjoins premises g where
  eq_of_single := by
    rintro p rfl
    exact (Except.ok.inj h).symm
  eq_of_cons := by
    rintro p others rfl hothers
    obtain ⟨next, rest, rfl⟩ := List.exists_cons_of_ne_nil hothers
    exact exists_of_conjunctionOf_cons h
  mem_variables := fun _ => mem_freeVariables_of_conjunctionOf h
  ordered_variables := g.ordered_freeVariables
  evaluate_eq := fun _ => evaluate_of_conjunctionOf h
  evaluate_error_iff := by
    intro a e
    rw [evaluate_of_conjunctionOf h, map_eq_error_iff, evaluateAll_eq_error_iff]

/-- There is a conjunction unless there are no premises, which is the only error.  It joins the
premises in their order, grouped to the right: those before the last are put in front of it one by
one.  Its variables are those of the premises, and its evaluation goes through all of them. -/
theorem conjunction_exact (argument : Argument) :
    (∀ e, argument.conjunction = .error e ↔ argument.premises = [] ∧ e = .emptyArgument) ∧
    (argument.premises ≠ [] →
      ∃ g, argument.conjunction = .ok g ∧ Conjoins argument.premises g) ∧
    ∀ before last, argument.premises = before ++ [last] →
      argument.conjunction = .ok (before.foldr (.bin .and) last) := by
  refine ⟨fun e => conjunctionOf_eq_error_iff, fun h => ?_, fun before last h => ?_⟩
  · obtain ⟨g, hg⟩ := exists_conjunctionOf h
    exact ⟨g, hg, conjoins_of_conjunctionOf hg⟩
  · rw [conjunction, h, conjunctionOf_append_singleton]

/-- Three premises of which the first is false: the last one misses its variable all the same. -/
theorem conjunction_exact_unbound :
    [Formula.const false, .var "p", .var "q"] ≠ [] ∧
      (∃ g, conjunction ⟨[.const false, .var "p", .var "q"], .var "r"⟩ = .ok g ∧
        g.evaluate (.ofList [("p", true)]) = .error (.unboundVariable "q")) ∧
      conjunction ⟨[.const false, .var "p", .var "q"], .var "r"⟩ =
        .ok (.bin .and (.const false) (.bin .and (.var "p") (.var "q"))) := by
  have hne : [Formula.const false, .var "p", .var "q"] ≠ [] := List.cons_ne_nil _ _
  obtain ⟨_, hconjunction, hfold⟩ :=
    conjunction_exact ⟨[.const false, .var "p", .var "q"], .var "r"⟩
  obtain ⟨g, hg, hconjoins⟩ := hconjunction hne
  refine ⟨hne, ⟨g, hg, (hconjoins.evaluate_error_iff _ _).mpr ?_⟩,
    hfold [.const false, .var "p"] (.var "q") rfl⟩
  refine ⟨[.const false, .var "p"], .var "q", [], rfl, fun f hf => ?_, by decide⟩
  rcases List.mem_cons.mp hf with rfl | hf
  · exact ⟨false, rfl⟩
  · rw [List.mem_singleton.mp hf]
    exact ⟨true, by decide⟩

end Propositional.Argument
