import Mathlib
import Propositional.Formula.Context
import Propositional.Proofs.StructuralRules

/-!
# Equivalence is equality of values

Two formulas are equivalent if they have the same value under every assignment of
their joint variables.  A formula may lack variables of the other, so a row of the
joint table is a row of each side's own table with some columns left out.  Values
under valuations of all names need no such care, and equality of values is plainly
an equivalence that contexts keep.  Only the number of variables differs from one
pair to the next: transitivity drops those of the middle formula, a context brings
its own.

* `isEquivalent_decides` — formulas are found equivalent exactly if they have the
  same values;
* `equivalent_iff_results` — over the same variables, exactly if their tables have
  the same results;
* `equivalenceLaws` — what the answers for related pairs have to do with each other.
-/

namespace Propositional.Formula

/-- The formulas have the same value under every valuation. -/
def Equivalent (f g : Formula) : Prop := ∀ v : String → Bool, f.value v = g.value v

namespace Equivalent

variable {f g h : Formula}

theorem refl (f : Formula) : Equivalent f f := fun _ => rfl

theorem symm (hfg : Equivalent f g) : Equivalent g f := fun v => (hfg v).symm

theorem trans (hfg : Equivalent f g) (hgh : Equivalent g h) : Equivalent f h :=
  fun v => (hfg v).trans (hgh v)

/-- Contexts keep equivalence. -/
theorem fill (hfg : Equivalent f g) (context : Context) :
    Equivalent (context.fill f) (context.fill g) :=
  fun v => Context.value_fill_congr (hfg v) context

/-- Equivalence is entailment both ways. -/
theorem iff_entails :
    Equivalent f g ↔ Argument.Entails [f] g ∧ Argument.Entails [g] f := by
  simp only [Equivalent, Argument.Entails, List.mem_singleton, forall_eq, ← forall_and]
  refine forall_congr' fun v => ?_
  rw [Bool.eq_iff_iff]
  exact ⟨fun hiff => ⟨hiff.mp, hiff.mpr⟩, fun hboth => ⟨hboth.1, hboth.2⟩⟩

/-- Equivalence, said of the assignments that bind the variables of both formulas. -/
theorem iff_forall_binds :
    Equivalent f g ↔ ∀ a : Assignment, a.Binds (jointVariables [f, g]) →
      ∃ result, f.evaluate a = .ok result ∧ g.evaluate a = .ok result := by
  refine (forall_binds_iff [f, g] (fun val => val f = val g) ?_).symm
  intro a val hval
  have hf := hval f List.mem_cons_self
  have hg := hval g (List.mem_cons_of_mem f List.mem_cons_self)
  constructor
  · rintro ⟨result, hresult, hresult'⟩
    rw [hf] at hresult
    rw [hg] at hresult'
    exact (Except.ok.inj hresult).trans (Except.ok.inj hresult').symm
  · intro heq
    exact ⟨val f, hf, heq ▸ hg⟩

end Equivalent

theorem jointVariables_swap (f g : Formula) : jointVariables [f, g] = jointVariables [g, f] := by
  refine jointVariables_eq_of_mem_iff fun x => ?_
  simp only [List.exists_mem_cons_iff, List.not_mem_nil, false_and, exists_false, or_false]
  exact or_comm

/-- Formulas over the same variables have no others together. -/
theorem jointVariables_of_eq {f g : Formula} (h : f.freeVariables = g.freeVariables) :
    jointVariables [f, g] = f.freeVariables := by
  rw [← jointVariables_singleton]
  refine jointVariables_eq_of_mem_iff fun x => ?_
  simp only [List.exists_mem_cons_iff, List.not_mem_nil, false_and, exists_false, or_false, h,
    or_self]

/-- Formulas are found equivalent exactly if they have the same values. -/
theorem isEquivalent_decides (f g : Formula) (ceiling : Ceiling) :
    Decides ceiling (jointVariables [f, g]).length (Equivalent f g)
      (f.isEquivalent g ceiling) := by
  rw [← freeVariables_bin .biconditional f g]
  refine (isTautology_decides _ ceiling).congr (forall_congr' fun v => ?_)
  exact value_biconditional_iff

theorem isEquivalent_symm (f g : Formula) (ceiling : Ceiling) :
    f.isEquivalent g ceiling = g.isEquivalent f ceiling :=
  (isEquivalent_decides f g ceiling).eq_of_iff (isEquivalent_decides g f ceiling)
    (congrArg List.length (jointVariables_swap f g)) ⟨Equivalent.symm, Equivalent.symm⟩

/-- Formulas over the same variables are equivalent exactly if their tables have the same
results. -/
theorem equivalent_iff_results {f g : Formula} (h : f.freeVariables = g.freeVariables) :
    Equivalent f g ↔ (TruthTable.listed f).results = (TruthTable.listed g).results := by
  constructor
  · intro hfg
    rw [TruthTable.results, TruthTable.results, TruthTable.listed, TruthTable.listed, h,
      List.map_map, List.map_map]
    refine List.map_congr_left fun number _ => ?_
    simp only [Function.comp_apply, TruthTable.rowAt, h]
    exact hfg _
  · intro hresults
    refine Equivalent.iff_forall_binds.mpr fun a ha => ?_
    rw [jointVariables_of_eq h] at ha
    -- The assignment falls into the same row of both tables.
    have hf := TruthTable.evaluate_rowIndex ha
    have hg := TruthTable.evaluate_rowIndex (h ▸ ha)
    have hfrow := TruthTable.getElem?_results_listed (TruthTable.rowIndex_lt f.freeVariables a)
    have hgrow := TruthTable.getElem?_results_listed (TruthTable.rowIndex_lt g.freeVariables a)
    rw [hresults, h, hgrow] at hfrow
    rw [h, ← Option.some.inj hfrow] at hf
    exact ⟨_, hf, hg⟩

/-- Formulas over the same variables are found equivalent exactly if both have a table and the
results of the tables are the same. -/
theorem isEquivalent_iff_tables {f g : Formula} (h : f.freeVariables = g.freeVariables)
    (ceiling : Ceiling) :
    f.isEquivalent g ceiling = .ok true ↔
      ∃ table table', TruthTable.build f ceiling = .ok table ∧
        TruthTable.build g ceiling = .ok table' ∧ table.results = table'.results := by
  rw [(isEquivalent_decides f g ceiling).eq_true_iff, jointVariables_of_eq h,
    equivalent_iff_results h]
  constructor
  · rintro ⟨hle, hresults⟩
    exact ⟨_, _, TruthTable.build_eq f hle, TruthTable.build_eq g (h ▸ hle), hresults⟩
  · rintro ⟨table, table', hf, hg, hresults⟩
    have hle : f.freeVariables.length ≤ ceiling.limit := by
      by_contra hlt
      rw [TruthTable.build_refused f (Nat.lt_of_not_le hlt)] at hf
      cases hf
    rw [TruthTable.build_eq f hle] at hf
    rw [TruthTable.build_eq g (h ▸ hle)] at hg
    cases hf
    cases hg
    exact ⟨hle, hresults⟩

/-- Equivalence is validity both ways: all three are refused together, or the verdict is the
conjunction of the two others. -/
theorem isEquivalent_iff_isValid (f g : Formula) (ceiling : Ceiling) :
    (∃ e, Argument.isValid ⟨[f], g⟩ ceiling = .error e ∧
        Argument.isValid ⟨[g], f⟩ ceiling = .error e ∧ f.isEquivalent g ceiling = .error e) ∨
      ∃ there back, Argument.isValid ⟨[f], g⟩ ceiling = .ok there ∧
        Argument.isValid ⟨[g], f⟩ ceiling = .ok back ∧
        f.isEquivalent g ceiling = .ok (there && back) := by
  have hthere : Decides ceiling (jointVariables [f, g]).length (Argument.Entails [f] g)
      (Argument.isValid ⟨[f], g⟩ ceiling) := by
    rw [jointVariables_swap]
    exact Argument.isValid_decides (List.cons_ne_nil f []) g ceiling
  have hback : Decides ceiling (jointVariables [f, g]).length (Argument.Entails [g] f)
      (Argument.isValid ⟨[g], f⟩ ceiling) :=
    Argument.isValid_decides (List.cons_ne_nil g []) f ceiling
  have hboth := isEquivalent_decides f g ceiling
  by_cases hle : (jointVariables [f, g]).length ≤ ceiling.limit
  · obtain ⟨there, hthere, hthereiff⟩ := hthere.exists_ok hle
    obtain ⟨back, hback, hbackiff⟩ := hback.exists_ok hle
    obtain ⟨both, hboth, hbothiff⟩ := hboth.exists_ok hle
    have hand : both = (there && back) := by
      rw [Bool.eq_iff_iff, hbothiff, Equivalent.iff_entails, Bool.and_eq_true, hthereiff,
        hbackiff]
    exact Or.inr ⟨there, back, hthere, hback, hand ▸ hboth⟩
  · have hlt := Nat.lt_of_not_le hle
    exact Or.inl ⟨_, hthere.eq_error hlt, hback.eq_error hlt, hboth.eq_error hlt⟩

/-- The answers for `f` and `g`, and for pairs that come from them. -/
structure EquivalenceLaws (ceiling : Ceiling) (f g : Formula) : Prop where
  /-- The answer tells whether the formulas have the same value under every assignment. -/
  decides : Decides ceiling (jointVariables [f, g]).length
    (∀ a : Assignment, a.Binds (jointVariables [f, g]) →
      ∃ result, f.evaluate a = .ok result ∧ g.evaluate a = .ok result)
    (f.isEquivalent g ceiling)
  reflexive : f.freeVariables.length ≤ ceiling.limit → f.isEquivalent f ceiling = .ok true
  symmetric : f.isEquivalent g ceiling = g.isEquivalent f ceiling
  /-- The middle formula may have variables that the outer ones lack, and they may have
  more variables together than either has with it. -/
  transitive : ∀ h, f.isEquivalent g ceiling = .ok true → g.isEquivalent h ceiling = .ok true →
    f.isEquivalent h ceiling = .ok true ∨
      f.isEquivalent h ceiling =
        .error (.tooManyVariables (jointVariables [f, h]).length ceiling.limit)
  /-- Equivalence is validity both ways. -/
  validity :
    (∃ e, Argument.isValid ⟨[f], g⟩ ceiling = .error e ∧
        Argument.isValid ⟨[g], f⟩ ceiling = .error e ∧ f.isEquivalent g ceiling = .error e) ∨
      ∃ there back, Argument.isValid ⟨[f], g⟩ ceiling = .ok there ∧
        Argument.isValid ⟨[g], f⟩ ceiling = .ok back ∧
        f.isEquivalent g ceiling = .ok (there && back)
  /-- Over the same variables equivalence is equality of the results in the tables. -/
  tables : f.freeVariables = g.freeVariables →
    (f.isEquivalent g ceiling = .ok true ↔
      ∃ table table', TruthTable.build f ceiling = .ok table ∧
        TruthTable.build g ceiling = .ok table' ∧ table.results = table'.results)
  /-- A context keeps equivalence, unless it brings in too many variables. -/
  congruent : ∀ context : Context, f.isEquivalent g ceiling = .ok true →
    (context.fill f).isEquivalent (context.fill g) ceiling = .ok true ∨
      (context.fill f).isEquivalent (context.fill g) ceiling =
        .error (.tooManyVariables (jointVariables [context.fill f, context.fill g]).length
          ceiling.limit)

/-- The laws hold for all formulas under every ceiling. -/
theorem equivalenceLaws (f g : Formula) (ceiling : Ceiling) : EquivalenceLaws ceiling f g where
  decides := (isEquivalent_decides f g ceiling).congr Equivalent.iff_forall_binds
  reflexive := by
    intro hle
    refine (isEquivalent_decides f f ceiling).eq_true_iff.mpr ⟨?_, Equivalent.refl f⟩
    rw [jointVariables_of_eq rfl]
    exact hle
  symmetric := isEquivalent_symm f g ceiling
  transitive := by
    intro h hfg hgh
    obtain ⟨_, hfg⟩ := (isEquivalent_decides f g ceiling).eq_true_iff.mp hfg
    obtain ⟨_, hgh⟩ := (isEquivalent_decides g h ceiling).eq_true_iff.mp hgh
    exact (isEquivalent_decides f h ceiling).true_or_refused (hfg.trans hgh)
  validity := isEquivalent_iff_isValid f g ceiling
  tables := fun h => isEquivalent_iff_tables h ceiling
  congruent := by
    intro context hfg
    obtain ⟨_, hfg⟩ := (isEquivalent_decides f g ceiling).eq_true_iff.mp hfg
    exact (isEquivalent_decides _ _ ceiling).true_or_refused (hfg.fill context)

/-- Absorption: two variables on one side, one on the other, and still the same result under
every assignment of the two. -/
theorem equivalenceLaws_absorption :
    (var "p").isEquivalent (bin .and (.var "p") (.bin .or (.var "p") (.var "q"))) ⟨2⟩ =
        .ok true ∧
      ∀ a : Assignment, a.Binds ["p", "q"] → ∃ result, (var "p").evaluate a = .ok result ∧
        (bin .and (.var "p") (.bin .or (.var "p") (.var "q"))).evaluate a = .ok result := by
  have hverdict : (var "p").isEquivalent
      (bin .and (.var "p") (.bin .or (.var "p") (.var "q"))) ⟨2⟩ = .ok true := by decide +kernel
  have hlaws := equivalenceLaws (var "p")
    (bin .and (.var "p") (.bin .or (.var "p") (.var "q"))) ⟨2⟩
  exact ⟨hverdict, (hlaws.decides.true_iff (by decide)).mp hverdict⟩

end Propositional.Formula
