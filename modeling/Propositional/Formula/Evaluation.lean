import Propositional.Assignment
import Propositional.Formula.Variables

/-!
# Evaluation

A formula is evaluated under an assignment.  Both operands of a connective are
always evaluated, the left one first, so a missing variable is an error even
where the other operand decides the value.

* `evaluate_ok_iff` — evaluation succeeds exactly if every variable is bound;
* `evaluate_congr` — it looks at nothing but the free variables.
-/

namespace Propositional.Formula

/-- The value of the formula under the assignment. -/
def evaluate (a : Assignment) : Formula → Except Error Bool
  | const value => .ok value
  | var name => a.lookup name
  | neg operand => do
    let p ← operand.evaluate a
    return !p
  | bin op left right => do
    let p ← left.evaluate a
    let q ← right.evaluate a
    return op.apply p q

/-- The value of the formula when every name has a value. -/
def value (v : String → Bool) : Formula → Bool
  | const value => value
  | var name => v name
  | neg operand => !operand.value v
  | bin op left right => op.apply (left.value v) (right.value v)

section Value

variable {f g : Formula} {v : String → Bool}

theorem value_neg_iff : (neg f).value v = true ↔ f.value v = false := by
  rw [value, Bool.not_eq_true']

theorem value_and_iff :
    (bin .and f g).value v = true ↔ f.value v = true ∧ g.value v = true := by
  rw [value, Connective.apply, Bool.and_eq_true]

theorem value_conditional_iff :
    (bin .conditional f g).value v = true ↔ (f.value v = true → g.value v = true) := by
  rw [value, Connective.apply]
  cases f.value v <;> simp

theorem value_biconditional_iff :
    (bin .biconditional f g).value v = true ↔ f.value v = g.value v := by
  rw [value, Connective.apply, beq_iff_eq]

end Value

/-- Assignments that agree on the names that occur give the same result, errors included. -/
theorem evaluate_congr {a b : Assignment} (f : Formula)
    (h : ∀ x ∈ f.occurrences, a.get? x = b.get? x) : f.evaluate a = f.evaluate b := by
  induction f with
  | const _ => rfl
  | var name =>
    have hname := h name (by simp [occurrences])
    simp only [evaluate, Assignment.lookup, hname]
  | neg operand ih => rw [evaluate, evaluate, ih h]
  | bin op left right ihl ihr =>
    have hl := ihl fun x hx => h x (List.mem_append_left _ hx)
    have hr := ihr fun x hx => h x (List.mem_append_right _ hx)
    rw [evaluate, evaluate, hl, hr]

/-- Under an assignment that binds every name as `v` does, the formula has its value. -/
theorem evaluate_eq_value {a : Assignment} {v : String → Bool} (f : Formula)
    (h : ∀ x ∈ f.occurrences, a.get? x = some (v x)) : f.evaluate a = .ok (f.value v) := by
  induction f with
  | const _ => rfl
  | var name =>
    have hname := h name (by simp [occurrences])
    simp only [evaluate, Assignment.lookup, hname, value]
  | neg operand ih => rw [evaluate, ih h]; rfl
  | bin op left right ihl ihr =>
    have hl := ihl fun x hx => h x (List.mem_append_left _ hx)
    have hr := ihr fun x hx => h x (List.mem_append_right _ hx)
    rw [evaluate, hl, hr]
    rfl

/-- Under an assignment that binds every name, the formula has the value of its bindings. -/
theorem evaluate_of_bound {a : Assignment} (f : Formula)
    (h : ∀ x ∈ f.occurrences, (a.get? x).isSome = true) :
    f.evaluate a = .ok (f.value fun x => (a.get? x).getD false) := by
  refine evaluate_eq_value f fun x hx => ?_
  obtain ⟨value, hvalue⟩ := Option.isSome_iff_exists.mp (h x hx)
  rw [hvalue, Option.getD_some]

theorem bound_of_find?_eq_none {a : Assignment} {names : List String}
    (h : names.find? (fun x => (a.get? x).isNone) = none) :
    ∀ x ∈ names, (a.get? x).isSome = true := by
  intro x hx
  have hx' := List.find?_eq_none.mp h x hx
  rwa [Bool.not_eq_true, Option.isNone_eq_false_iff] at hx'

/-- If a name is unbound, the first unbound occurrence from the left is the error. -/
theorem evaluate_eq_error {a : Assignment} (f : Formula) {x : String}
    (h : f.occurrences.find? (fun y => (a.get? y).isNone) = some x) :
    f.evaluate a = .error (.unboundVariable x) := by
  induction f with
  | const _ => simp [occurrences] at h
  | var name =>
    simp only [occurrences, List.find?_singleton] at h
    split at h
    · rename_i hnone
      cases h
      simp only [Option.isNone_iff_eq_none] at hnone
      simp only [evaluate, Assignment.lookup, hnone]
    · cases h
  | neg operand ih => rw [evaluate, ih h]; rfl
  | bin op left right ihl ihr =>
    rw [occurrences, List.find?_append] at h
    cases hl : left.occurrences.find? (fun y => (a.get? y).isNone) with
    | some y =>
      rw [hl] at h
      cases h
      rw [evaluate, ihl hl]
      rfl
    | none =>
      rw [hl] at h
      rw [evaluate, evaluate_of_bound left (bound_of_find?_eq_none hl), ihr h]
      rfl

/-- Evaluation succeeds exactly if every name that occurs is bound. -/
theorem evaluate_ok_iff {a : Assignment} (f : Formula) :
    (∃ value, f.evaluate a = .ok value) ↔ ∀ x ∈ f.occurrences, (a.get? x).isSome = true := by
  constructor
  · rintro ⟨value, hvalue⟩ x hx
    cases hfind : f.occurrences.find? (fun y => (a.get? y).isNone) with
    | some y =>
      rw [evaluate_eq_error f hfind] at hvalue
      cases hvalue
    | none => exact bound_of_find?_eq_none hfind x hx
  · intro h
    exact ⟨_, evaluate_of_bound f h⟩

end Propositional.Formula
