import Mathlib.Data.List.Destutter
import Propositional.Formula.Evaluation

/-!
# What evaluation looks at

Both operands of a connective are evaluated, the left one first, whatever the value
of the other is.  So evaluation looks at every variable, and at nothing else, and
the first one from the left that is not bound is the one that is missed.

The variables are gathered in their places one by one.  It comes to the same to sort
the names that occur and to drop every name that repeats the one in front of it; only
because of the sorting does that leave no repetition.

* `freeVariables_eq_destutter` — the variables by sorting;
* `evaluate_eq_error_iff` — which variable is missed;
* `evaluate_exact` — what evaluation looks at, with the variables it looks for.
-/

namespace Propositional

namespace Names

/-- Dropping what repeats the name in front of it keeps every name. -/
theorem mem_destutter'_iff {x first : String} {names : List String} :
    x ∈ names.destutter' (· ≠ ·) first ↔ x ∈ first :: names := by
  induction names generalizing first with
  | nil => rfl
  | cons name rest ih =>
    by_cases h : first ≠ name
    · rw [List.destutter'_cons_pos _ h, List.mem_cons, ih, ← List.mem_cons]
    · obtain rfl : first = name := not_not.mp h
      rw [List.destutter'_cons_neg _ h, ih]
      simp only [List.mem_cons, or_self_left]

/-- Of names in increasing order it leaves them in strictly increasing order. -/
theorem ordered_destutter' {first : String} {names : List String}
    (h : (first :: names).Pairwise (· ≤ ·)) : Ordered (names.destutter' (· ≠ ·) first) := by
  induction names generalizing first with
  | nil => exact List.pairwise_singleton _ _
  | cons name rest ih =>
    obtain ⟨hfirst, hnames⟩ := List.pairwise_cons.mp h
    by_cases hne : first ≠ name
    · rw [List.destutter'_cons_pos _ hne]
      refine List.pairwise_cons.mpr ⟨fun x hx => ?_, ih hnames⟩
      -- What is kept behind `first` is not below `name`, which is above `first`.
      have hlt : first < name :=
        lt_of_not_lt_of_ne (String.not_lt.mpr (hfirst name List.mem_cons_self)) hne.symm
      rcases List.mem_cons.mp (mem_destutter'_iff.mp hx) with rfl | hx
      · exact hlt
      · have hle : name ≤ x := (List.pairwise_cons.mp hnames).1 x hx
        exact String.not_le.mp fun hge => String.not_le.mpr hlt (String.le_trans hle hge)
    · rw [List.destutter'_cons_neg _ hne]
      exact ih (List.pairwise_cons.mpr
        ⟨fun x hx => hfirst x (List.mem_cons_of_mem name hx), (List.pairwise_cons.mp hnames).2⟩)

theorem mem_destutter_iff {x : String} {names : List String} :
    x ∈ names.destutter (· ≠ ·) ↔ x ∈ names := by
  cases names with
  | nil => rfl
  | cons first rest => exact mem_destutter'_iff

theorem ordered_destutter {names : List String} (h : names.Pairwise (· ≤ ·)) :
    Ordered (names.destutter (· ≠ ·)) := by
  cases names with
  | nil => exact List.Pairwise.nil
  | cons first rest => exact ordered_destutter' h

/-- Collecting names comes to the same as sorting them and dropping repetitions that are
adjacent. -/
theorem ofList_eq_destutter (names : List String) :
    ofList names = (names.mergeSort (· ≤ ·)).destutter (· ≠ ·) := by
  have hsorted : (names.mergeSort (· ≤ ·)).Pairwise (· ≤ ·) := pairwise_mergeSort id names
  refine eq_of_mem_iff (ordered_ofList names) (ordered_destutter hsorted) fun x => ?_
  rw [mem_ofList, mem_destutter_iff, List.mem_mergeSort]

end Names

/-- The name is the first one in the list that is not bound. -/
def Assignment.FirstUnbound (a : Assignment) (names : List String) (x : String) : Prop :=
  ∃ before behind, names = before ++ x :: behind ∧ a.Binds before ∧ a.get? x = none

/-- A search from the left finds the first name that is not bound. -/
theorem Assignment.firstUnbound_iff {a : Assignment} {names : List String} {x : String} :
    a.FirstUnbound names x ↔ names.find? (fun y => (a.get? y).isNone) = some x := by
  have hbound (y : String) : (!(a.get? y).isNone) = true ↔ (a.get? y).isSome = true := by
    rw [Option.not_isNone]
  rw [List.find?_eq_some_iff_append]
  constructor
  · rintro ⟨before, behind, hnames, hbefore, hx⟩
    refine ⟨Option.isNone_iff_eq_none.mpr hx, before, behind, hnames, fun y hy => ?_⟩
    exact (hbound y).mpr (hbefore y hy)
  · rintro ⟨hx, before, behind, hnames, hbefore⟩
    refine ⟨before, behind, hnames, fun y hy => ?_, Option.isNone_iff_eq_none.mp hx⟩
    exact (hbound y).mp (hbefore y hy)

namespace Formula

/-- The names that occur are those of the variables among the subformulas. -/
theorem var_mem_postOrder_iff {x : String} {f : Formula} :
    var x ∈ f.postOrder ↔ x ∈ f.occurrences := by
  induction f with
  | const value => simp [postOrder, occurrences]
  | var name => simp [postOrder, occurrences]
  | neg operand ih => simp [postOrder, occurrences, ih]
  | bin op left right ihl ihr => simp [postOrder, occurrences, ihl, ihr]

/-- The free variables are the names that occur, sorted and without those that repeat the name in
front of them. -/
theorem freeVariables_eq_destutter (f : Formula) :
    f.freeVariables = (f.occurrences.mergeSort (· ≤ ·)).destutter (· ≠ ·) :=
  Names.ofList_eq_destutter f.occurrences

/-- All free variables are bound exactly if all names that occur are. -/
theorem binds_freeVariables_iff {a : Assignment} {f : Formula} :
    a.Binds f.freeVariables ↔ ∀ x ∈ f.occurrences, (a.get? x).isSome = true := by
  simp only [Assignment.Binds, mem_freeVariables]

/-- Evaluation fails exactly for the first occurrence of a variable that is not bound. -/
theorem evaluate_eq_error_iff {a : Assignment} {f : Formula} {e : Error} :
    f.evaluate a = .error e ↔
      ∃ x, a.FirstUnbound f.occurrences x ∧ e = .unboundVariable x := by
  constructor
  · intro herror
    cases hfind : f.occurrences.find? (fun y => (a.get? y).isNone) with
    | none =>
      rw [evaluate_of_bound f (bound_of_find?_eq_none hfind)] at herror
      cases herror
    | some x =>
      rw [evaluate_eq_error f hfind] at herror
      exact ⟨x, Assignment.firstUnbound_iff.mpr hfind, (Except.error.inj herror).symm⟩
  · rintro ⟨x, hx, rfl⟩
    exact evaluate_eq_error f (Assignment.firstUnbound_iff.mp hx)

/-- Evaluation succeeds exactly if every free variable is bound, and then with the value that the
bindings give the formula.  Otherwise it misses the first occurrence from the left that is not
bound.  Assignments that agree on the free variables give the same result, and the free variables
are the names of the variables that occur, in strictly increasing order. -/
theorem evaluate_exact (f : Formula) (a : Assignment) :
    ((∃ value, f.evaluate a = .ok value) ↔ a.Binds f.freeVariables) ∧
    (a.Binds f.freeVariables → f.evaluate a = .ok (f.value a.valuation)) ∧
    (∀ e, f.evaluate a = .error e ↔
      ∃ x, a.FirstUnbound f.occurrences x ∧ e = .unboundVariable x) ∧
    (∀ b : Assignment, (∀ x ∈ f.freeVariables, a.get? x = b.get? x) →
      f.evaluate a = f.evaluate b) ∧
    Names.Ordered f.freeVariables ∧
    ∀ x, x ∈ f.freeVariables ↔ var x ∈ f.postOrder := by
  refine ⟨?_, ?_, fun e => evaluate_eq_error_iff, ?_, f.ordered_freeVariables, ?_⟩
  · rw [evaluate_ok_iff, binds_freeVariables_iff]
  · intro hbinds
    exact evaluate_of_bound f (binds_freeVariables_iff.mp hbinds)
  · intro b hagree
    exact evaluate_congr f fun x hx => hagree x (mem_freeVariables.mpr hx)
  · intro x
    rw [mem_freeVariables, var_mem_postOrder_iff]

/-- A conjunction that its left operand decides still misses a variable of the right one, and of
two the left one, whatever else is bound. -/
theorem evaluate_exact_decided :
    (∀ x ∈ (bin .and (const false) (bin .or (var "r") (var "q"))).freeVariables,
        (Assignment.ofList [("p", true)]).get? x = Assignment.empty.get? x) ∧
      (bin .and (const false) (bin .or (var "r") (var "q"))).evaluate (.ofList [("p", true)]) =
        (bin .and (const false) (bin .or (var "r") (var "q"))).evaluate .empty ∧
      (bin .and (const false) (bin .or (var "r") (var "q"))).evaluate (.ofList [("p", true)]) =
        .error (.unboundVariable "r") ∧
      (Assignment.ofList [("q", true), ("r", true)]).Binds
        (bin .and (const false) (bin .or (var "r") (var "q"))).freeVariables ∧
      (bin .and (const false) (bin .or (var "r") (var "q"))).evaluate
        (.ofList [("q", true), ("r", true)]) = .ok false := by
  obtain ⟨_, _, hmissed, hagree, _⟩ := evaluate_exact
    (bin .and (const false) (bin .or (var "r") (var "q"))) (.ofList [("p", true)])
  have hunseen : ∀ x ∈ (bin .and (const false) (bin .or (var "r") (var "q"))).freeVariables,
      (Assignment.ofList [("p", true)]).get? x = Assignment.empty.get? x := by decide
  have hbinds : (Assignment.ofList [("q", true), ("r", true)]).Binds
      (bin .and (const false) (bin .or (var "r") (var "q"))).freeVariables := by decide
  have hfirst : (Assignment.ofList [("p", true)]).FirstUnbound ["r", "q"] "r" :=
    ⟨[], ["q"], rfl, fun x hx => absurd hx List.not_mem_nil, by decide⟩
  exact ⟨hunseen, hagree .empty hunseen, (hmissed _).mpr ⟨"r", hfirst, rfl⟩, hbinds,
    (evaluate_exact _ _).2.1 hbinds⟩

end Formula

end Propositional
