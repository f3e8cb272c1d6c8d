import Propositional.Graph.FormulaGraph

/-!
# Rebuilding a formula from its graph

A graph tells its formula by the edges: a node without edges is a leaf, a node with one
is a negation, and a node with two is a connective.  The labels alone would not do, for a
variable may be named like a connective.  What a leaf was is told by its label only, so
every leaf comes back as a variable.
-/

namespace Propositional

namespace FormulaGraph

/-- The edges from a node, in the order in which they are listed. -/
def outgoing (graph : FormulaGraph) (node : Nat) : List GraphEdge :=
  graph.edges.toList.filter (·.source == node)

/-- The edges to a node. -/
def incoming (graph : FormulaGraph) (node : Nat) : List GraphEdge :=
  graph.edges.toList.filter (·.target == node)

/-- The formula below a node, if it is a tree of at most so many levels. -/
def rebuildFrom (graph : FormulaGraph) : (levels : Nat) → (node : Nat) → Option Formula
  | 0, _ => none
  | levels + 1, node =>
    match graph.labels[node]?, graph.outgoing node with
    | some label, [] => some (.var label)
    | some label, [⟨_, .only, child⟩] =>
      if label = negationSymbol then (graph.rebuildFrom levels child).map .neg else none
    | some label, [⟨_, .left, leftChild⟩, ⟨_, .right, rightChild⟩] => do
      let op ← Connective.ofSymbol? label
      let left ← graph.rebuildFrom levels leftChild
      let right ← graph.rebuildFrom levels rightChild
      return .bin op left right
    | _, _ => none

/-- The formula of the graph; a tree has no more levels than nodes. -/
def rebuild? (graph : FormulaGraph) : Option Formula := graph.rebuildFrom graph.nodeCount 0

end FormulaGraph

namespace Formula

/-- The label of the root. -/
def rootLabel : Formula → String
  | const value => (const value).render
  | var name => name
  | neg _ => negationSymbol
  | bin op _ _ => op.symbol

/-- The formula with every leaf known by its label alone. -/
def leavesAsLabels : Formula → Formula
  | const value => var (const value).render
  | var name => var name
  | neg operand => neg operand.leavesAsLabels
  | bin op left right => bin op left.leavesAsLabels right.leavesAsLabels

/-- No name in `a` to `z` is the label of a truth constant. -/
theorem not_spellable_render_const (value : Bool) : ¬ Names.Spellable (const value).render := by
  cases value <;> decide

/-- With names in `a` to `z` a leaf is known by its label. -/
theorem leavesAsLabels_injective {f g : Formula} (hf : f.Spellable) (hg : g.Spellable)
    (h : f.leavesAsLabels = g.leavesAsLabels) : f = g := by
  induction f generalizing g with
  | const value =>
    cases g with
    | const other =>
      have hsymbol := TruthValue.symbol_injective ⟨value⟩ ⟨other⟩ (Formula.var.inj h)
      exact congrArg const (TruthValue.mk.inj hsymbol)
    | var name =>
      have hname : (const value).render = name := Formula.var.inj h
      exact absurd (hname ▸ hg name List.mem_cons_self) (not_spellable_render_const value)
    | neg _ => cases h
    | bin _ _ _ => cases h
  | var name =>
    cases g with
    | const value =>
      have hname : name = (const value).render := Formula.var.inj h
      exact absurd (hname ▸ hf name List.mem_cons_self) (not_spellable_render_const value)
    | var other => exact h
    | neg _ => cases h
    | bin _ _ _ => cases h
  | neg operand ih =>
    cases g with
    | neg other => exact congrArg neg (ih hf hg (Formula.neg.inj h))
    | const _ => cases h
    | var _ => cases h
    | bin _ _ _ => cases h
  | bin op left right ihl ihr =>
    cases g with
    | bin op' left' right' =>
      obtain ⟨hop, hleft, hright⟩ := Formula.bin.inj h
      obtain ⟨hfl, hfr⟩ := spellable_bin_iff.mp hf
      obtain ⟨hgl, hgr⟩ := spellable_bin_iff.mp hg
      rw [hop, ihl hfl hgl hleft, ihr hfr hgr hright]
    | const _ => cases h
    | var _ => cases h
    | neg _ => cases h

end Formula

end Propositional
