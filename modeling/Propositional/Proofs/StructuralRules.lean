import Mathlib
import Propositional.Proofs.Entailment

/-!
# Structural rules of validity

Which premises an argument has settles its answer, not their order or number, and a
premise may be moved over to the conclusion as the condition of a conditional.  These
rules are equations of whole answers: both sides are refused together and for the
same number of variables, although the formulas that are scanned have different
shapes and their rows a different order of events.

Cut and weakening pass from affirmed arguments to another.  Cut leaves variables out,
so it never runs into the ceiling; weakening may bring variables in.

* `isValid_eq_of_iff` — the one reason for every equation: the same variables and the
  same entailment;
* `structuralRules` — all rules for any premises.
-/

namespace Propositional.Argument

variable {premises premises' : List Formula} {l p q r : Formula}

theorem ordered_freeVariables (argument : Argument) : Names.Ordered argument.freeVariables :=
  Formula.ordered_jointVariables argument.formulas

theorem length_freeVariables_le (h : premises ⊆ premises') :
    (freeVariables ⟨premises, q⟩).length ≤ (freeVariables ⟨premises', q⟩).length :=
  Formula.length_jointVariables_le (List.cons_subset_cons q h)

namespace Entails

/-- More premises entail no less. -/
theorem weaken (h : Entails premises q) (hsubset : premises ⊆ premises') :
    Entails premises' q :=
  fun v hv => h v fun p hp => hv p (hsubset hp)

/-- What the premises entail may be left out of them. -/
theorem cut (hl : Entails premises l) (hq : Entails (premises ++ [l]) q) :
    Entails premises q := by
  intro v hv
  refine hq v fun p hp => ?_
  rcases List.mem_append.mp hp with hp | hp
  · exact hv p hp
  · rw [List.mem_singleton.mp hp]
    exact hl v hv

end Entails

theorem entails_congr (h : ∀ x, x ∈ premises' ↔ x ∈ premises) :
    Entails premises' q ↔ Entails premises q :=
  ⟨fun hq => hq.weaken fun x hx => (h x).mp hx, fun hq => hq.weaken fun x hx => (h x).mpr hx⟩

/-- The last premise may become the condition of the conclusion. -/
theorem entails_append_singleton_iff :
    Entails (premises ++ [p]) q ↔ Entails premises (.bin .conditional p q) := by
  constructor
  · intro h v hv
    rw [Formula.value_conditional_iff]
    intro hp
    refine h v fun x hx => ?_
    rcases List.mem_append.mp hx with hx | hx
    · exact hv x hx
    · rw [List.mem_singleton.mp hx]
      exact hp
  · intro h v hv
    have hconditional := h v fun x hx => hv x (List.mem_append_left _ hx)
    rw [Formula.value_conditional_iff] at hconditional
    exact hconditional (hv p (List.mem_append_right _ List.mem_cons_self))

/-- The premises entail the conclusion exactly if their conjunction and its negation are never
true together. -/
theorem entails_iff_of_conjunctionOf {g : Formula} (h : conjunctionOf premises = .ok g) :
    Entails premises q ↔
      ¬ ∃ v : String → Bool, (Formula.bin .and g (.neg q)).value v = true := by
  rw [← not_iff_not, not_not, not_entails_iff]
  refine exists_congr fun v => ?_
  rw [Formula.value_and_iff, Formula.value_neg_iff, value_of_conjunctionOf h]

/-- Arguments with the same variables and the same entailment have the same answer. -/
theorem isValid_eq_of_iff (h : premises ≠ []) (h' : premises' ≠ []) (ceiling : Ceiling)
    (hvariables : ∀ x,
      x ∈ freeVariables ⟨premises, q⟩ ↔ x ∈ freeVariables ⟨premises', r⟩)
    (hentails : Entails premises q ↔ Entails premises' r) :
    isValid ⟨premises, q⟩ ceiling = isValid ⟨premises', r⟩ ceiling := by
  have hcount : freeVariables ⟨premises, q⟩ = freeVariables ⟨premises', r⟩ :=
    Names.eq_of_mem_iff (ordered_freeVariables _) (ordered_freeVariables _) hvariables
  exact (isValid_decides h q ceiling).eq_of_iff (isValid_decides h' r ceiling)
    (congrArg List.length hcount) hentails

/-- Arguments of the same premises, in any order and any number of times, have the same
answer. -/
theorem isValid_congr (h : premises ≠ []) (hmem : ∀ x, x ∈ premises' ↔ x ∈ premises)
    (q : Formula) (ceiling : Ceiling) :
    isValid ⟨premises', q⟩ ceiling = isValid ⟨premises, q⟩ ceiling := by
  have h' : premises' ≠ [] := by
    obtain ⟨x, hx⟩ := List.exists_mem_of_ne_nil premises h
    exact List.ne_nil_of_mem ((hmem x).mpr hx)
  refine isValid_eq_of_iff h' h ceiling (fun x => ?_) (entails_congr hmem)
  simp only [mem_freeVariables, hmem]

/-- The last premise may become the condition of the conclusion, without any change of the
answer. -/
theorem isValid_append_singleton (h : premises ≠ []) (p q : Formula) (ceiling : Ceiling) :
    isValid ⟨premises ++ [p], q⟩ ceiling =
      isValid ⟨premises, .bin .conditional p q⟩ ceiling := by
  have h' : premises ++ [p] ≠ [] := List.append_ne_nil_of_left_ne_nil h [p]
  refine isValid_eq_of_iff h' h ceiling (fun x => ?_) entails_append_singleton_iff
  simp only [mem_freeVariables, Formula.mem_freeVariables_bin, List.mem_append,
    List.mem_singleton, or_and_right, exists_or, exists_eq_left]
  exact or_left_comm.trans (or_comm.trans (or_congr_left or_comm))

/-- Validity is the contradiction of the premises with the negated conclusion, and has the same
answer. -/
theorem isValid_eq_isContradiction {g : Formula} (h : conjunctionOf premises = .ok g)
    (q : Formula) (ceiling : Ceiling) :
    isValid ⟨premises, q⟩ ceiling =
      (Formula.bin .and g (.neg q)).isContradiction ceiling := by
  have hne : premises ≠ [] := by
    rintro rfl
    cases h
  have hcount := freeVariables_bin_of_conjunctionOf h .and (Formula.freeVariables_neg q)
  exact (isValid_decides hne q ceiling).eq_of_iff (Formula.isContradiction_decides _ ceiling)
    (congrArg List.length hcount.symm) (entails_iff_of_conjunctionOf h)

/-- The rules that an argument from the premises can be changed by. -/
structure StructuralRules (ceiling : Ceiling) (premises : List Formula) : Prop where
  /-- The premises may change places. -/
  exchange : ∀ premises' q, premises'.Perm premises →
    isValid ⟨premises', q⟩ ceiling = isValid ⟨premises, q⟩ ceiling
  /-- A premise may be repeated. -/
  repetition : ∀ p q count, p ∈ premises →
    isValid ⟨List.replicate count p ++ premises, q⟩ ceiling = isValid ⟨premises, q⟩ ceiling
  /-- The last premise may become the condition of the conclusion. -/
  deduction : ∀ p q, isValid ⟨premises ++ [p], q⟩ ceiling =
    isValid ⟨premises, .bin .conditional p q⟩ ceiling
  /-- Validity is the contradiction of the premises with the negated conclusion. -/
  refutation : ∀ q, ∃ premise, conjunction ⟨premises, q⟩ = .ok premise ∧
    isValid ⟨premises, q⟩ ceiling =
      (Formula.bin .and premise (.neg q)).isContradiction ceiling
  /-- What follows from the premises may be left out of them. -/
  cut : ∀ l q, isValid ⟨premises, l⟩ ceiling = .ok true →
    isValid ⟨premises ++ [l], q⟩ ceiling = .ok true →
      isValid ⟨premises, q⟩ ceiling = .ok true
  /-- A premise may be added, unless it brings in too many variables. -/
  weakening : ∀ p q, isValid ⟨premises, q⟩ ceiling = .ok true →
    isValid ⟨premises ++ [p], q⟩ ceiling = .ok true ∨
      isValid ⟨premises ++ [p], q⟩ ceiling =
        .error (.tooManyVariables (freeVariables ⟨premises ++ [p], q⟩).length ceiling.limit)

theorem isValid_cut (h : premises ≠ []) {ceiling : Ceiling}
    (hl : isValid ⟨premises, l⟩ ceiling = .ok true)
    (hq : isValid ⟨premises ++ [l], q⟩ ceiling = .ok true) :
    isValid ⟨premises, q⟩ ceiling = .ok true := by
  have h' : premises ++ [l] ≠ [] := List.append_ne_nil_of_left_ne_nil h [l]
  obtain ⟨_, hentailsl⟩ := (isValid_decides h l ceiling).eq_true_iff.mp hl
  obtain ⟨hle, hentailsq⟩ := (isValid_decides h' q ceiling).eq_true_iff.mp hq
  have hfewer := length_freeVariables_le (q := q) (List.subset_append_left premises [l])
  exact (isValid_decides h q ceiling).eq_true_iff.mpr
    ⟨Nat.le_trans hfewer hle, hentailsl.cut hentailsq⟩

theorem isValid_weakening (h : premises ≠ []) {ceiling : Ceiling} (p : Formula)
    (hq : isValid ⟨premises, q⟩ ceiling = .ok true) :
    isValid ⟨premises ++ [p], q⟩ ceiling = .ok true ∨
      isValid ⟨premises ++ [p], q⟩ ceiling =
        .error (.tooManyVariables (freeVariables ⟨premises ++ [p], q⟩).length ceiling.limit) := by
  have h' : premises ++ [p] ≠ [] := List.append_ne_nil_of_left_ne_nil h [p]
  obtain ⟨_, hentails⟩ := (isValid_decides h q ceiling).eq_true_iff.mp hq
  exact (isValid_decides h' q ceiling).true_or_refused
    (hentails.weaken (List.subset_append_left premises [p]))

/-- All rules hold for one or more premises. -/
theorem structuralRules (h : premises ≠ []) (ceiling : Ceiling) :
    StructuralRules ceiling premises where
  exchange := fun _ q hperm => isValid_congr h (fun _ => hperm.mem_iff) q ceiling
  repetition := by
    intro p q count hp
    refine isValid_congr h (fun x => ?_) q ceiling
    rw [List.mem_append, or_iff_right_iff_imp]
    intro hx
    rw [List.eq_of_mem_replicate hx]
    exact hp
  deduction := fun p q => isValid_append_singleton h p q ceiling
  refutation := by
    intro q
    obtain ⟨g, hg⟩ := exists_conjunctionOf h
    exact ⟨g, hg, isValid_eq_isContradiction hg q ceiling⟩
  cut := fun _ _ hl hq => isValid_cut h hl hq
  weakening := fun p _ hq => isValid_weakening h p hq

/-- From a chain of two conditionals, by cut: the first yields what the second needs. -/
theorem structuralRules_chain :
    [Formula.bin .conditional (.var "p") (.var "q"), .bin .conditional (.var "q") (.var "r"),
        .var "p"] ≠ [] ∧
      isValid ⟨[.bin .conditional (.var "p") (.var "q"),
        .bin .conditional (.var "q") (.var "r"), .var "p"], .var "r"⟩ ⟨3⟩ = .ok true :=
  ⟨List.cons_ne_nil _ _, (structuralRules (List.cons_ne_nil _ _) ⟨3⟩).cut (.var "q") (.var "r")
    (by decide +kernel) (by decide +kernel)⟩

end Propositional.Argument
