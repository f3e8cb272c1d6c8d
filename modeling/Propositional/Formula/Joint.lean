import Mathlib.Data.List.Basic
import Propositional.Formula.Evaluation

/-!
# Several formulas under one assignment

Formulas that are compared have to be evaluated under one assignment, which binds
the variables of all of them.  Over such assignments the formulas take exactly the
values that they have when every name has a value, so a statement about all
assignments is a statement about all valuations.

* `mem_jointVariables` — the joint variables are those of some formula;
* `evaluate_of_binds` — an assignment of the joint variables gives every formula
  its value;
* `exists_binds_evaluate` — every valuation is that of such an assignment;
* `forall_binds_iff`, `exists_binds_iff` — so what depends on the values of the
  formulas alone may be said of either.
-/

namespace Propositional

namespace Assignment

/-- The assignment that gives each of the names its value and binds no other. -/
def ofValuation (names : List String) (v : String → Bool) : Assignment :=
  ofList (names.map fun x => (x, v x))

/-- Each of the names has its value. -/
theorem get?_ofValuation {names : List String} (v : String → Bool) {x : String}
    (h : x ∈ names) : (ofValuation names v).get? x = some (v x) := by
  rw [ofValuation, get?_ofList, ← List.map_reverse]
  exact List.lookup_graph v (List.mem_reverse.mpr h)

theorem binds_ofValuation (names : List String) (v : String → Bool) :
    (ofValuation names v).Binds names := by
  intro x hx
  rw [get?_ofValuation v hx]
  rfl

theorem bindsOnly_ofValuation (names : List String) (v : String → Bool) :
    (ofValuation names v).BindsOnly names := by
  intro x hx
  have hmem := bindsOnly_ofList _ x hx
  rw [List.map_map] at hmem
  obtain ⟨name, hname, rfl⟩ := List.mem_map.mp hmem
  exact hname

end Assignment

namespace Formula

/-- The names that occur in any of the formulas, in strictly increasing order. -/
def jointVariables (formulas : List Formula) : List String :=
  Names.ofList (formulas.flatMap occurrences)

/-- The joint variables are the free variables of any of the formulas. -/
theorem mem_jointVariables {x : String} {formulas : List Formula} :
    x ∈ jointVariables formulas ↔ ∃ f ∈ formulas, x ∈ f.freeVariables := by
  simp only [jointVariables, Names.mem_ofList, List.mem_flatMap, mem_freeVariables]

/-- The joint variables are listed in strictly increasing order. -/
theorem ordered_jointVariables (formulas : List Formula) :
    Names.Ordered (jointVariables formulas) :=
  Names.ordered_ofList _

theorem nodup_jointVariables (formulas : List Formula) : (jointVariables formulas).Nodup :=
  (ordered_jointVariables formulas).nodup

/-- The joint variables of one formula are its own. -/
theorem jointVariables_singleton (f : Formula) : jointVariables [f] = f.freeVariables := by
  rw [jointVariables, List.flatMap_singleton, freeVariables]

/-- A connective has the joint variables of its operands. -/
theorem freeVariables_bin (op : Connective) (left right : Formula) :
    (bin op left right).freeVariables = jointVariables [left, right] := by
  rw [freeVariables, occurrences, jointVariables, List.flatMap_cons, List.flatMap_singleton]

/-- Formulas that together have the same variables have the same joint variables. -/
theorem jointVariables_eq_of_mem_iff {fs gs : List Formula}
    (h : ∀ x, (∃ f ∈ fs, x ∈ f.freeVariables) ↔ ∃ g ∈ gs, x ∈ g.freeVariables) :
    jointVariables fs = jointVariables gs := by
  refine Names.eq_of_mem_iff (ordered_jointVariables fs) (ordered_jointVariables gs) fun x => ?_
  rw [mem_jointVariables, mem_jointVariables, h]

/-- More formulas have more joint variables. -/
theorem length_jointVariables_le {fs gs : List Formula} (h : fs ⊆ gs) :
    (jointVariables fs).length ≤ (jointVariables gs).length := by
  refine (nodup_jointVariables fs).length_le_of_subset fun x hx => ?_
  obtain ⟨f, hf, hx⟩ := mem_jointVariables.mp hx
  exact mem_jointVariables.mpr ⟨f, h hf, hx⟩

/-- Under an assignment of the joint variables, each of the formulas has its value. -/
theorem evaluate_of_binds {formulas : List Formula} {a : Assignment}
    (ha : a.Binds (jointVariables formulas)) {f : Formula} (hf : f ∈ formulas) :
    f.evaluate a = .ok (f.value a.valuation) := by
  refine evaluate_of_bound f fun x hx => ha x ?_
  exact mem_jointVariables.mpr ⟨f, hf, mem_freeVariables.mpr hx⟩

/-- Every valuation is seen under some assignment of the joint variables. -/
theorem exists_binds_evaluate (formulas : List Formula) (v : String → Bool) :
    ∃ a : Assignment, a.Binds (jointVariables formulas) ∧
      ∀ f ∈ formulas, f.evaluate a = .ok (f.value v) := by
  refine ⟨.ofValuation (jointVariables formulas) v, Assignment.binds_ofValuation _ v, ?_⟩
  intro f hf
  refine evaluate_eq_value f fun x hx => Assignment.get?_ofValuation v ?_
  exact mem_jointVariables.mpr ⟨f, hf, mem_freeVariables.mpr hx⟩

section Transfer

variable {Q : Assignment → Prop} (formulas : List Formula) (P : (Formula → Bool) → Prop)

/-- What is said of the values of the formulas holds under every assignment of their variables
exactly if it holds under every valuation. -/
theorem forall_binds_iff
    (h : ∀ (a : Assignment) (val : Formula → Bool),
      (∀ f ∈ formulas, f.evaluate a = .ok (val f)) → (Q a ↔ P val)) :
    (∀ a : Assignment, a.Binds (jointVariables formulas) → Q a) ↔
      ∀ v : String → Bool, P fun f => f.value v := by
  constructor
  · intro hall v
    obtain ⟨a, ha, hvalues⟩ := exists_binds_evaluate formulas v
    exact (h a _ hvalues).mp (hall a ha)
  · intro hall a ha
    exact (h a _ fun f hf => evaluate_of_binds ha hf).mpr (hall a.valuation)

/-- The same for some assignment and some valuation. -/
theorem exists_binds_iff
    (h : ∀ (a : Assignment) (val : Formula → Bool),
      (∀ f ∈ formulas, f.evaluate a = .ok (val f)) → (Q a ↔ P val)) :
    (∃ a : Assignment, a.Binds (jointVariables formulas) ∧ Q a) ↔
      ∃ v : String → Bool, P fun f => f.value v := by
  constructor
  · rintro ⟨a, ha, hq⟩
    exact ⟨a.valuation, (h a _ fun f hf => evaluate_of_binds ha hf).mp hq⟩
  · rintro ⟨v, hp⟩
    obtain ⟨a, ha, hvalues⟩ := exists_binds_evaluate formulas v
    exact ⟨a, ha, (h a _ hvalues).mpr hp⟩

end Transfer

end Formula

end Propositional
