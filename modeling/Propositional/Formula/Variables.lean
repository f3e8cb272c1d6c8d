import Propositional.Formula.Basic
import Propositional.Names

/-!
# The variables of a formula

`occurrences` lists the variable leaves from left to right; `freeVariables` is
the set of their names, as a strictly increasing list.

* `mem_freeVariables` — the free variables are the names that occur;
* `ordered_freeVariables` — they are listed in strictly increasing order;
* `mem_freeVariables_bin` — those of a connective are the union of its operands'.
-/

namespace Propositional.Formula

/-- The names at the leaves, from left to right, with repetitions. -/
def occurrences : Formula → List String
  | const _ => []
  | var name => [name]
  | neg operand => operand.occurrences
  | bin _ left right => left.occurrences ++ right.occurrences

/-- Can every name that occurs be written in a source text? -/
def Spellable (f : Formula) : Prop := ∀ name ∈ f.occurrences, Names.Spellable name

instance (f : Formula) : Decidable f.Spellable :=
  decidable_of_iff (f.occurrences.all (fun name => decide (Names.Spellable name)) = true)
    (by simp [Spellable])

/-- The names that occur, in strictly increasing order. -/
def freeVariables (f : Formula) : List String := Names.ofList f.occurrences

/-- The free variables are the names that occur. -/
theorem mem_freeVariables {x : String} {f : Formula} :
    x ∈ f.freeVariables ↔ x ∈ f.occurrences :=
  Names.mem_ofList

/-- The free variables are listed in strictly increasing order. -/
theorem ordered_freeVariables (f : Formula) : Names.Ordered f.freeVariables :=
  Names.ordered_ofList f.occurrences

theorem spellable_bin_iff {op : Connective} {left right : Formula} :
    (bin op left right).Spellable ↔ left.Spellable ∧ right.Spellable := by
  simp only [Spellable, occurrences, List.mem_append, or_imp, forall_and]

theorem nodup_freeVariables (f : Formula) : f.freeVariables.Nodup :=
  f.ordered_freeVariables.nodup

theorem freeVariables_var (name : String) : (var name).freeVariables = [name] := rfl

theorem freeVariables_neg (f : Formula) : (neg f).freeVariables = f.freeVariables := rfl

/-- The free variables of a connective are the union of those of its operands. -/
theorem mem_freeVariables_bin {x : String} {op : Connective} {left right : Formula} :
    x ∈ (bin op left right).freeVariables ↔
      x ∈ left.freeVariables ∨ x ∈ right.freeVariables := by
  simp [mem_freeVariables, occurrences]

end Propositional.Formula
