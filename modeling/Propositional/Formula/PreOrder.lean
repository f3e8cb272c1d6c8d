import Propositional.Formula.Basic

/-!
# The nodes of a formula in pre-order

Every occurrence of a subformula is a node.  In pre-order a connective stands before its
operands and the left operand before the right one, so that a subtree is a run of nodes
that begins with its root and is as long as its size.

* `length_preOrder` — there is a node for each occurrence of a subformula;
* `le_of_mem_numbered` — the numbers of a subtree lie within those of the tree;
* `mem_numbered_operand`, `mem_numbered_left`, `mem_numbered_right` — where the operands
  of a node stand.
-/

namespace Propositional.Formula

/-- The nodes of the tree in pre-order: a connective before its operands. -/
def preOrder : Formula → List Formula
  | const value => [const value]
  | var name => [var name]
  | neg operand => neg operand :: operand.preOrder
  | bin op left right => bin op left right :: (left.preOrder ++ right.preOrder)

theorem length_preOrder (f : Formula) : f.preOrder.length = f.size := by
  induction f with
  | const _ => rfl
  | var _ => rfl
  | neg _ ih => rw [preOrder, List.length_cons, ih, size]
  | bin _ _ _ ihl ihr => rw [preOrder, List.length_cons, List.length_append, ihl, ihr, size]

/-- The nodes with their numbers, counted on from that of the root. -/
def numbered (root : Nat) (f : Formula) : List (Formula × Nat) := f.preOrder.zipIdx root

variable {f g : Formula} {root node : Nat}

theorem mem_numbered_zero : (g, node) ∈ f.numbered 0 ↔ f.preOrder[node]? = some g :=
  List.mk_mem_zipIdx_iff_getElem?

theorem mem_numbered_self (f : Formula) (root : Nat) : (f, root) ∈ f.numbered root := by
  cases f <;> exact List.mem_cons_self

theorem mem_numbered_neg {operand : Formula} :
    (g, node) ∈ (neg operand).numbered root ↔
      (g = neg operand ∧ node = root) ∨ (g, node) ∈ operand.numbered (root + 1) := by
  rw [numbered, preOrder, List.zipIdx_cons, List.mem_cons, Prod.mk.injEq]
  rfl

theorem mem_numbered_bin {op : Connective} {left right : Formula} :
    (g, node) ∈ (bin op left right).numbered root ↔
      (g = bin op left right ∧ node = root) ∨ (g, node) ∈ left.numbered (root + 1) ∨
        (g, node) ∈ right.numbered (root + 1 + left.size) := by
  rw [numbered, preOrder, List.zipIdx_cons, List.mem_cons, Prod.mk.injEq, List.zipIdx_append,
    List.mem_append, length_preOrder]
  rfl

/-- The numbers of a subtree lie within those of the tree. -/
theorem le_of_mem_numbered (h : (g, node) ∈ f.numbered root) :
    root ≤ node ∧ node + g.size ≤ root + f.size := by
  induction f generalizing root with
  | const value =>
    cases List.mem_singleton.mp h
    exact ⟨Nat.le_refl _, Nat.le_refl _⟩
  | var name =>
    cases List.mem_singleton.mp h
    exact ⟨Nat.le_refl _, Nat.le_refl _⟩
  | neg operand ih =>
    rcases mem_numbered_neg.mp h with ⟨rfl, rfl⟩ | h
    · exact ⟨Nat.le_refl _, Nat.le_refl _⟩
    · have hinner := ih h
      rw [size]
      omega
  | bin op left right ihl ihr =>
    rcases mem_numbered_bin.mp h with ⟨rfl, rfl⟩ | h | h
    · exact ⟨Nat.le_refl _, Nat.le_refl _⟩
    · have hinner := ihl h
      rw [size]
      omega
    · have hinner := ihr h
      rw [size]
      omega

theorem lt_of_mem_numbered (h : (g, node) ∈ f.numbered root) : node < root + f.size := by
  have hle := (le_of_mem_numbered h).2
  have hpos := g.size_pos
  omega

/-- No number is given twice. -/
theorem numbered_unique {other : Formula} (h : (g, node) ∈ f.numbered root)
    (h' : (other, node) ∈ f.numbered root) : g = other := by
  have hget := (List.mk_mem_zipIdx_iff_le_and_getElem?_sub.mp h).2
  have hget' := (List.mk_mem_zipIdx_iff_le_and_getElem?_sub.mp h').2
  exact Option.some.inj (hget.symm.trans hget')

/-- Every number in reach is given. -/
theorem exists_mem_numbered (hle : root ≤ node) (hlt : node < root + f.size) :
    ∃ g, (g, node) ∈ f.numbered root := by
  have hindex : node - root < f.preOrder.length := by
    rw [length_preOrder]
    omega
  exact ⟨_, List.mk_mem_zipIdx_iff_le_and_getElem?_sub.mpr
    ⟨hle, List.getElem?_eq_getElem hindex⟩⟩

/-- What holds of the nodes of a formula holds of those of any of its subtrees. -/
theorem mem_numbered_of_mem (h : (g, node) ∈ f.numbered root) {h' : Formula} {inner : Nat}
    (hinner : (h', inner) ∈ g.numbered node) : (h', inner) ∈ f.numbered root := by
  induction f generalizing root with
  | const value =>
    cases List.mem_singleton.mp h
    exact hinner
  | var name =>
    cases List.mem_singleton.mp h
    exact hinner
  | neg operand ih =>
    rcases mem_numbered_neg.mp h with ⟨rfl, rfl⟩ | h
    · exact hinner
    · exact mem_numbered_neg.mpr (Or.inr (ih h))
  | bin op left right ihl ihr =>
    rcases mem_numbered_bin.mp h with ⟨rfl, rfl⟩ | h | h
    · exact hinner
    · exact mem_numbered_bin.mpr (Or.inr (Or.inl (ihl h)))
    · exact mem_numbered_bin.mpr (Or.inr (Or.inr (ihr h)))

theorem mem_numbered_operand {operand : Formula} (h : (neg operand, node) ∈ f.numbered root) :
    (operand, node + 1) ∈ f.numbered root :=
  mem_numbered_of_mem h (mem_numbered_neg.mpr (Or.inr (mem_numbered_self operand _)))

theorem mem_numbered_left {op : Connective} {left right : Formula}
    (h : (bin op left right, node) ∈ f.numbered root) : (left, node + 1) ∈ f.numbered root :=
  mem_numbered_of_mem h (mem_numbered_bin.mpr (Or.inr (Or.inl (mem_numbered_self left _))))

theorem mem_numbered_right {op : Connective} {left right : Formula}
    (h : (bin op left right, node) ∈ f.numbered root) :
    (right, node + 1 + left.size) ∈ f.numbered root :=
  mem_numbered_of_mem h (mem_numbered_bin.mpr (Or.inr (Or.inr (mem_numbered_self right _))))

end Propositional.Formula
