import Mathlib.Logic.Relation
import Propositional.Formula.PreOrder
import Propositional.Graph.Rebuild

/-!
# The graph of a formula is its tree in pre-order

The nodes are numbered in pre-order, so the operand of a negation and the left operand of
a connective come right behind it, and the right operand comes behind the subtree of the
left one.  An edge is listed when the subtree that it leads to is complete.  Nothing about
the formula is lost but the kind of its leaves.

* `labels_insert`, `edges_insert` — what adding a formula appends to a graph;
* `mem_edgesFrom_iff` — the edges of a tree are those of its nodes;
* `outgoing_ofFormula`, `incoming_ofFormula` — the edges at each node;
* `rebuildFrom_ofFormula` — every subtree is rebuilt from the edges at its root;
* `ofFormula_exact` — the graph is the tree in pre-order, and determines it.
-/

namespace Propositional

namespace Formula

/-- The edges from the root to its operands, if the root has this number. -/
def branches (root : Nat) : Formula → List GraphEdge
  | const _ | var _ => []
  | neg _ => [⟨root, .only, root + 1⟩]
  | bin _ left _ => [⟨root, .left, root + 1⟩, ⟨root, .right, root + 1 + left.size⟩]

/-- All edges of the tree, those of the operands before those of their connective. -/
def edgesFrom (root : Nat) : Formula → List GraphEdge
  | const _ | var _ => []
  | neg operand => operand.edgesFrom (root + 1) ++ (neg operand).branches root
  | bin op left right =>
    left.edgesFrom (root + 1) ++ right.edgesFrom (root + 1 + left.size) ++
      (bin op left right).branches root

variable {f g : Formula} {root node : Nat} {edge : GraphEdge}

theorem bounds_of_mem_branches (h : edge ∈ f.branches root) :
    edge.source = root ∧ root < edge.target ∧ edge.target < root + f.size := by
  cases f with
  | const _ => cases h
  | var _ => cases h
  | neg operand =>
    have hpos := operand.size_pos
    obtain rfl := List.mem_singleton.mp h
    refine ⟨rfl, Nat.lt_succ_self _, ?_⟩
    show root + 1 < root + (operand.size + 1)
    omega
  | bin op left right =>
    have hleft := left.size_pos
    have hright := right.size_pos
    rcases List.mem_cons.mp h with rfl | h
    · refine ⟨rfl, Nat.lt_succ_self _, ?_⟩
      show root + 1 < root + (left.size + right.size + 1)
      omega
    · obtain rfl := List.mem_singleton.mp h
      refine ⟨rfl, ?_, ?_⟩
      · show root < root + 1 + left.size
        omega
      · show root + 1 + left.size < root + (left.size + right.size + 1)
        omega

/-- The edges of a tree are those from its nodes to their operands. -/
theorem mem_edgesFrom_iff :
    edge ∈ f.edgesFrom root ↔
      ∃ g, (g, edge.source) ∈ f.numbered root ∧ edge ∈ g.branches edge.source := by
  induction f generalizing root with
  | const value =>
    constructor
    · intro h
      cases h
    · rintro ⟨g, hg, hedge⟩
      cases List.mem_singleton.mp hg
      cases hedge
  | var name =>
    constructor
    · intro h
      cases h
    · rintro ⟨g, hg, hedge⟩
      cases List.mem_singleton.mp hg
      cases hedge
  | neg operand ih =>
    rw [edgesFrom, List.mem_append, ih]
    constructor
    · rintro (⟨g, hg, hedge⟩ | hedge)
      · exact ⟨g, mem_numbered_neg.mpr (Or.inr hg), hedge⟩
      · have hsource := (bounds_of_mem_branches hedge).1
        rw [hsource]
        exact ⟨neg operand, mem_numbered_self _ _, hedge⟩
    · rintro ⟨g, hg, hedge⟩
      rcases mem_numbered_neg.mp hg with ⟨rfl, hsource⟩ | hg
      · exact Or.inr (hsource ▸ hedge)
      · exact Or.inl ⟨g, hg, hedge⟩
  | bin op left right ihl ihr =>
    rw [edgesFrom, List.mem_append, List.mem_append, ihl, ihr]
    constructor
    · rintro ((⟨g, hg, hedge⟩ | ⟨g, hg, hedge⟩) | hedge)
      · exact ⟨g, mem_numbered_bin.mpr (Or.inr (Or.inl hg)), hedge⟩
      · exact ⟨g, mem_numbered_bin.mpr (Or.inr (Or.inr hg)), hedge⟩
      · have hsource := (bounds_of_mem_branches hedge).1
        rw [hsource]
        exact ⟨bin op left right, mem_numbered_self _ _, hedge⟩
    · rintro ⟨g, hg, hedge⟩
      rcases mem_numbered_bin.mp hg with ⟨rfl, hsource⟩ | hg | hg
      · exact Or.inr (hsource ▸ hedge)
      · exact Or.inl (Or.inl ⟨g, hg, hedge⟩)
      · exact Or.inl (Or.inr ⟨g, hg, hedge⟩)

/-- An edge leads from a node of the tree to one with a greater number. -/
theorem bounds_of_mem_edgesFrom (h : edge ∈ f.edgesFrom root) :
    root ≤ edge.source ∧ edge.source < edge.target ∧ edge.target < root + f.size := by
  obtain ⟨g, hg, hedge⟩ := mem_edgesFrom_iff.mp h
  have hnode := le_of_mem_numbered hg
  have hbranch := bounds_of_mem_branches hedge
  omega

theorem filter_source_branches (node : Nat) (f : Formula) :
    (f.branches node).filter (·.source == node) = f.branches node :=
  List.filter_eq_self.mpr fun _ h => beq_iff_eq.mpr (bounds_of_mem_branches h).1

theorem filter_source_branches_of_ne (h : root ≠ node) :
    (f.branches root).filter (·.source == node) = [] :=
  List.filter_eq_nil_iff.mpr fun _ hedge heq =>
    h ((bounds_of_mem_branches hedge).1.symm.trans (beq_iff_eq.mp heq))

/-- No edge of the tree leads from a number outside of it. -/
theorem filter_source_edgesFrom_eq_nil (h : node < root ∨ root + f.size ≤ node) :
    (f.edgesFrom root).filter (·.source == node) = [] := by
  refine List.filter_eq_nil_iff.mpr fun edge hedge heq => ?_
  have hbounds := bounds_of_mem_edgesFrom hedge
  have hsource : edge.source = node := beq_iff_eq.mp heq
  omega

/-- The edges of the tree from one of its nodes lead to the operands of that node. -/
theorem filter_source_edgesFrom (h : (g, node) ∈ f.numbered root) :
    (f.edgesFrom root).filter (·.source == node) = g.branches node := by
  induction f generalizing root with
  | const value =>
    cases List.mem_singleton.mp h
    rfl
  | var name =>
    cases List.mem_singleton.mp h
    rfl
  | neg operand ih =>
    rw [edgesFrom, List.filter_append]
    rcases mem_numbered_neg.mp h with ⟨rfl, rfl⟩ | h
    · rw [filter_source_edgesFrom_eq_nil (Or.inl (Nat.lt_succ_self _)), filter_source_branches,
        List.nil_append]
    · have hle := (le_of_mem_numbered h).1
      rw [ih h, filter_source_branches_of_ne (by omega), List.append_nil]
  | bin op left right ihl ihr =>
    rw [edgesFrom, List.filter_append, List.filter_append]
    rcases mem_numbered_bin.mp h with ⟨rfl, rfl⟩ | h | h
    · rw [filter_source_edgesFrom_eq_nil (by omega), filter_source_edgesFrom_eq_nil (by omega),
        filter_source_branches, List.nil_append, List.nil_append]
    · have hle := (le_of_mem_numbered h).1
      have hlt := lt_of_mem_numbered h
      rw [ihl h, filter_source_edgesFrom_eq_nil (by omega),
        filter_source_branches_of_ne (by omega), List.append_nil, List.append_nil]
    · have hle := (le_of_mem_numbered h).1
      rw [ihr h, filter_source_edgesFrom_eq_nil (by omega),
        filter_source_branches_of_ne (by omega), List.append_nil, List.nil_append]

/-- No edge of the tree leads to its root or to a number outside of it. -/
theorem filter_target_edgesFrom_eq_nil (h : node ≤ root ∨ root + f.size ≤ node) :
    (f.edgesFrom root).filter (·.target == node) = [] := by
  refine List.filter_eq_nil_iff.mpr fun edge hedge heq => ?_
  have hbounds := bounds_of_mem_edgesFrom hedge
  have htarget : edge.target = node := beq_iff_eq.mp heq
  omega

/-- One edge of the tree leads to each of its nodes but the root. -/
theorem filter_target_edgesFrom (hlt : root < node) (hle : node < root + f.size) :
    ∃ edge, (f.edgesFrom root).filter (·.target == node) = [edge] := by
  induction f generalizing root with
  | const value =>
    rw [size] at hle
    omega
  | var name =>
    rw [size] at hle
    omega
  | neg operand ih =>
    rw [size] at hle
    rw [edgesFrom, List.filter_append, branches]
    by_cases hroot : node = root + 1
    · rw [filter_target_edgesFrom_eq_nil (Or.inl (Nat.le_of_eq hroot))]
      exact ⟨⟨root, .only, root + 1⟩, by simp [hroot]⟩
    · obtain ⟨edge, hedge⟩ := @ih (root + 1) (by omega) (by omega)
      exact ⟨edge, by simp [hedge, Ne.symm hroot]⟩
  | bin op left right ihl ihr =>
    have hne := Nat.ne_of_gt left.size_pos
    rw [size] at hle
    rw [edgesFrom, List.filter_append, List.filter_append, branches]
    by_cases hinside : node < root + 1 + left.size
    · rw [filter_target_edgesFrom_eq_nil (f := right) (by omega), List.append_nil]
      by_cases hroot : node = root + 1
      · subst hroot
        rw [filter_target_edgesFrom_eq_nil (Or.inl (Nat.le_refl _))]
        exact ⟨⟨root, .left, root + 1⟩, by simp [hne]⟩
      · obtain ⟨edge, hedge⟩ := @ihl (root + 1) (by omega) (by omega)
        exact ⟨edge, by simp [hedge, Nat.ne_of_gt hinside, Ne.symm hroot]⟩
    · rw [filter_target_edgesFrom_eq_nil (f := left) (by omega), List.nil_append]
      by_cases hroot : node = root + 1 + left.size
      · subst hroot
        rw [filter_target_edgesFrom_eq_nil (Or.inl (Nat.le_refl _))]
        exact ⟨⟨root, .right, root + 1 + left.size⟩, by simp [hne]⟩
      · have hleft : root + 1 ≠ node := by omega
        obtain ⟨edge, hedge⟩ := @ihr (root + 1 + left.size) (by omega) (by omega)
        exact ⟨edge, by simp [hedge, hleft, Ne.symm hroot]⟩

/-- Behind an edge no edge is listed from within the subtree that it leads to. -/
theorem pairwise_edgesFrom (f : Formula) (root : Nat) :
    (f.edgesFrom root).Pairwise fun earlier later =>
      ∀ g, (g, earlier.target) ∈ f.numbered root →
        later.source < earlier.target ∨ earlier.target + g.size ≤ later.source := by
  induction f generalizing root with
  | const _ => exact List.Pairwise.nil
  | var _ => exact List.Pairwise.nil
  | neg operand ih =>
    refine List.pairwise_append.mpr ⟨?_, List.pairwise_singleton _ _, ?_⟩
    · refine (ih (root + 1)).imp_of_mem fun hearlier hlater h g hg => ?_
      have hbounds := bounds_of_mem_edgesFrom hearlier
      rcases mem_numbered_neg.mp hg with ⟨_, hroot⟩ | hg
      · omega
      · exact h g hg
    · intro earlier hearlier later hlater g _
      have hbounds := bounds_of_mem_edgesFrom hearlier
      have hsource := (bounds_of_mem_branches hlater).1
      omega
  | bin op left right ihl ihr =>
    refine List.pairwise_append.mpr ⟨List.pairwise_append.mpr ⟨?_, ?_, ?_⟩, ?_, ?_⟩
    · refine (ihl (root + 1)).imp_of_mem fun hearlier hlater h g hg => ?_
      have hbounds := bounds_of_mem_edgesFrom hearlier
      rcases mem_numbered_bin.mp hg with ⟨_, hroot⟩ | hg | hg
      · omega
      · exact h g hg
      · have hle := (le_of_mem_numbered hg).1
        omega
    · refine (ihr (root + 1 + left.size)).imp_of_mem fun hearlier hlater h g hg => ?_
      have hbounds := bounds_of_mem_edgesFrom hearlier
      rcases mem_numbered_bin.mp hg with ⟨_, hroot⟩ | hg | hg
      · omega
      · have hlt := lt_of_mem_numbered hg
        omega
      · exact h g hg
    · -- The subtree that an edge of the left operand leads to ends before the right operand.
      intro earlier hearlier later hlater g hg
      have hbounds := bounds_of_mem_edgesFrom hearlier
      have hbounds' := bounds_of_mem_edgesFrom hlater
      rcases mem_numbered_bin.mp hg with ⟨_, hroot⟩ | hg | hg
      · omega
      · have hle := (le_of_mem_numbered hg).2
        omega
      · have hle := (le_of_mem_numbered hg).1
        omega
    · refine List.pairwise_pair.mpr fun g _ => Or.inl ?_
      show root < root + 1
      omega
    · intro earlier hearlier later hlater g _
      have hsource := (bounds_of_mem_branches hlater).1
      rcases List.mem_append.mp hearlier with hearlier | hearlier
      · have hbounds := bounds_of_mem_edgesFrom hearlier
        omega
      · have hbounds := bounds_of_mem_edgesFrom hearlier
        omega

end Formula

namespace FormulaGraph

open Formula

/-- A node leads to itself and, along edges, to all nodes of the subtree at it. -/
def Reaches (graph : FormulaGraph) : Nat → Nat → Prop :=
  Relation.ReflTransGen fun source target =>
    ∃ edge ∈ graph.edges.toList, edge.source = source ∧ edge.target = target

/-- Adding a formula appends its labels in pre-order. -/
theorem labels_insert (graph : FormulaGraph) (f : Formula) :
    (graph.insert f).labels.toList = graph.labels.toList ++ f.preOrder.map rootLabel := by
  induction f generalizing graph with
  | const value =>
    rw [insert, addNode, Array.toList_push]
    rfl
  | var name =>
    rw [insert, addNode, Array.toList_push]
    rfl
  | neg operand ih =>
    show ((graph.addNode negationSymbol).insert operand).labels.toList = _
    rw [ih, addNode, Array.toList_push, List.append_assoc]
    rfl
  | bin op left right ihl ihr =>
    show (((graph.addNode op.symbol).insert left).insert right).labels.toList = _
    rw [ihr, ihl, addNode, Array.toList_push, List.append_assoc, List.append_assoc, preOrder,
      List.map_cons, List.map_append]
    rfl

/-- Adding a formula appends its edges, numbered on from the nodes that are there. -/
theorem edges_insert (graph : FormulaGraph) (f : Formula) :
    (graph.insert f).edges.toList = graph.edges.toList ++ f.edgesFrom graph.nodeCount := by
  induction f generalizing graph with
  | const value => exact (List.append_nil _).symm
  | var name => exact (List.append_nil _).symm
  | neg operand ih =>
    have hroot := graph.nodeCount_addNode negationSymbol
    rw [insert, addEdge, Array.toList_push, ih, hroot, List.append_assoc]
    rfl
  | bin op left right ihl ihr =>
    have hroot := graph.nodeCount_addNode op.symbol
    rw [insert, addEdge, addEdge, Array.toList_push, Array.toList_push, ihr, ihl,
      nodeCount_insert, hroot, List.append_assoc, List.append_assoc, List.append_assoc, edgesFrom,
      List.append_assoc]
    rfl

theorem labels_ofFormula (f : Formula) :
    (ofFormula f).labels.toList = f.preOrder.map rootLabel := labels_insert empty f

theorem edges_ofFormula (f : Formula) : (ofFormula f).edges.toList = f.edgesFrom 0 :=
  edges_insert empty f

variable {f g : Formula} {node : Nat}

theorem getElem?_labels_ofFormula (h : (g, node) ∈ f.numbered 0) :
    (ofFormula f).labels[node]? = some g.rootLabel := by
  rw [← Array.getElem?_toList, labels_ofFormula, List.getElem?_map, mem_numbered_zero.mp h,
    Option.map_some]

/-- The edges from a node lead to the operands of its formula. -/
theorem outgoing_ofFormula (h : (g, node) ∈ f.numbered 0) :
    (ofFormula f).outgoing node = g.branches node := by
  rw [outgoing, edges_ofFormula, filter_source_edgesFrom h]

theorem incoming_ofFormula_zero (f : Formula) : (ofFormula f).incoming 0 = [] := by
  rw [incoming, edges_ofFormula, filter_target_edgesFrom_eq_nil (Or.inl (Nat.le_refl 0))]

/-- One edge leads to each node but the root, from a node with a smaller number. -/
theorem incoming_ofFormula (hpos : 0 < node) (hlt : node < (ofFormula f).nodeCount) :
    ∃ edge, (ofFormula f).incoming node = [edge] ∧ edge.source < node := by
  rw [nodeCount_ofFormula] at hlt
  obtain ⟨edge, hedge⟩ := @filter_target_edgesFrom f 0 node hpos (by omega)
  refine ⟨edge, by rw [incoming, edges_ofFormula, hedge], ?_⟩
  obtain ⟨hmem, htarget⟩ := List.mem_filter.mp (hedge ▸ List.mem_singleton_self edge)
  have hbounds := bounds_of_mem_edgesFrom hmem
  have htarget' : edge.target = node := beq_iff_eq.mp htarget
  omega

/-- A node reaches the numbers of its subtree and no others. -/
theorem bounds_of_reaches {inner : Nat} (hnode : (g, node) ∈ f.numbered 0)
    (h : (ofFormula f).Reaches node inner) :
    ∃ g', (g', inner) ∈ f.numbered 0 ∧ node ≤ inner ∧ inner + g'.size ≤ node + g.size := by
  induction h with
  | refl => exact ⟨g, hnode, Nat.le_refl _, Nat.le_refl _⟩
  | tail _ hstep ih =>
    obtain ⟨g', hinner, hle, hsize⟩ := ih
    obtain ⟨edge, hedge, rfl, rfl⟩ := hstep
    rw [edges_ofFormula] at hedge
    obtain ⟨h', hmem, hbranch⟩ := mem_edgesFrom_iff.mp hedge
    obtain rfl := numbered_unique hinner hmem
    cases g' with
    | const _ => cases hbranch
    | var _ => cases hbranch
    | neg operand =>
      have htarget : edge.target = edge.source + 1 :=
        congrArg GraphEdge.target (List.mem_singleton.mp hbranch)
      rw [size] at hsize
      exact ⟨operand, htarget ▸ mem_numbered_operand hmem, by omega, by omega⟩
    | bin op left right =>
      rw [size] at hsize
      rcases List.mem_cons.mp hbranch with hbranch | hbranch
      · have htarget : edge.target = edge.source + 1 := congrArg GraphEdge.target hbranch
        exact ⟨left, htarget ▸ mem_numbered_left hmem, by omega, by omega⟩
      · have htarget : edge.target = edge.source + 1 + left.size :=
          congrArg GraphEdge.target (List.mem_singleton.mp hbranch)
        exact ⟨right, htarget ▸ mem_numbered_right hmem, by omega, by omega⟩

/-- An edge is listed behind all edges of the subtree that it leads to. -/
theorem lt_of_reaches {i j : Nat} {inner edge : GraphEdge}
    (hinner : (ofFormula f).edges[i]? = some inner) (hedge : (ofFormula f).edges[j]? = some edge)
    (h : (ofFormula f).Reaches edge.target inner.source) : i < j := by
  rw [← Array.getElem?_toList, edges_ofFormula] at hinner hedge
  have hbounds := bounds_of_mem_edgesFrom (List.mem_of_getElem? hedge)
  obtain ⟨g, hg⟩ := @exists_mem_numbered f 0 edge.target (Nat.zero_le _) hbounds.2.2
  obtain ⟨g', _, hle, hsize⟩ := bounds_of_reaches hg h
  have hpos := g'.size_pos
  refine Nat.lt_of_not_le fun hnot => ?_
  rcases Nat.lt_or_eq_of_le hnot with hlt | rfl
  · obtain ⟨hj, hgetj⟩ := List.getElem?_eq_some_iff.mp hedge
    obtain ⟨hi, hgeti⟩ := List.getElem?_eq_some_iff.mp hinner
    have hapart := List.pairwise_iff_getElem.mp (pairwise_edgesFrom f 0) j i hj hi hlt
    rw [hgetj, hgeti] at hapart
    rcases hapart g hg with hbefore | hbehind <;> omega
  · have heq : edge = inner := Option.some.inj (hedge.symm.trans hinner)
    subst heq
    omega

/-- A subtree is rebuilt from the edges at its root, if there are levels enough for it. -/
theorem rebuildFrom_ofFormula (levels : Nat) (h : (g, node) ∈ f.numbered 0)
    (hlevels : g.height ≤ levels) :
    (ofFormula f).rebuildFrom levels node = some g.leavesAsLabels := by
  induction levels generalizing g node with
  | zero => exact absurd hlevels (Nat.not_le_of_lt g.height_pos)
  | succ levels ih =>
    rw [rebuildFrom, getElem?_labels_ofFormula h, outgoing_ofFormula h]
    cases g with
    | const value => rfl
    | var name => rfl
    | neg operand =>
      have hoperand := ih (mem_numbered_operand h) (Nat.le_of_succ_le_succ hlevels)
      show (if negationSymbol = negationSymbol then _ else none) = _
      rw [if_pos rfl, hoperand]
      rfl
    | bin op left right =>
      rw [height] at hlevels
      have hleft := ih (mem_numbered_left h) (by omega)
      have hright := ih (mem_numbered_right h) (by omega)
      show (do
        let found ← Connective.ofSymbol? op.symbol
        let leftTree ← (ofFormula f).rebuildFrom levels (node + 1)
        let rightTree ← (ofFormula f).rebuildFrom levels (node + 1 + left.size)
        return Formula.bin found leftTree rightTree) = _
      rw [Connective.ofSymbol?_symbol, hleft, hright]
      rfl

theorem rebuild?_ofFormula (f : Formula) :
    (ofFormula f).rebuild? = some f.leavesAsLabels := by
  refine rebuildFrom_ofFormula _ (mem_numbered_self f 0) ?_
  rw [nodeCount_ofFormula]
  exact f.height_le_size

/-- What it is for a graph to draw the tree of `f` in pre-order. -/
structure Draws (graph : FormulaGraph) (f : Formula) : Prop where
  /-- There is a node for each occurrence of a subformula, labelled with what stands there. -/
  labels_eq : graph.labels.toList = f.preOrder.map rootLabel
  nodeCount_eq : graph.nodeCount = f.size
  outgoing_atom : ∀ node g, f.preOrder[node]? = some g → g.isAtom = true →
    graph.outgoing node = []
  outgoing_neg : ∀ node operand, f.preOrder[node]? = some (.neg operand) →
    graph.outgoing node = [⟨node, .only, node + 1⟩] ∧ f.preOrder[node + 1]? = some operand
  outgoing_bin : ∀ node op left right, f.preOrder[node]? = some (.bin op left right) →
    graph.outgoing node =
        [⟨node, .left, node + 1⟩, ⟨node, .right, node + 1 + left.size⟩] ∧
      f.preOrder[node + 1]? = some left ∧ f.preOrder[node + 1 + left.size]? = some right
  /-- Edges lead from nodes to nodes with greater numbers. -/
  bounds : ∀ edge ∈ graph.edges.toList,
    edge.source < edge.target ∧ edge.target < graph.nodeCount
  /-- No edge leads to the root, and one to every other node. -/
  incoming_root : graph.incoming 0 = []
  incoming : ∀ node, 0 < node → node < graph.nodeCount →
    ∃ edge, graph.incoming node = [edge] ∧ edge.source < node
  /-- An edge is listed behind all edges inside the subtree of its target. -/
  listed : ∀ (i j : Nat) (inner edge : GraphEdge), graph.edges[i]? = some inner →
    graph.edges[j]? = some edge → graph.Reaches edge.target inner.source → i < j

theorem draws_ofFormula (f : Formula) : (ofFormula f).Draws f where
  labels_eq := labels_ofFormula f
  nodeCount_eq := nodeCount_ofFormula f
  outgoing_atom := by
    intro node g hg hatom
    rw [outgoing_ofFormula (mem_numbered_zero.mpr hg)]
    cases g with
    | const _ => rfl
    | var _ => rfl
    | neg _ => cases hatom
    | bin _ _ _ => cases hatom
  outgoing_neg := by
    intro node operand hg
    have hmem := mem_numbered_zero.mpr hg
    exact ⟨outgoing_ofFormula hmem, mem_numbered_zero.mp (mem_numbered_operand hmem)⟩
  outgoing_bin := by
    intro node op left right hg
    have hmem := mem_numbered_zero.mpr hg
    exact ⟨outgoing_ofFormula hmem, mem_numbered_zero.mp (mem_numbered_left hmem),
      mem_numbered_zero.mp (mem_numbered_right hmem)⟩
  bounds := by
    intro edge hedge
    rw [edges_ofFormula] at hedge
    have hbounds := bounds_of_mem_edgesFrom hedge
    rw [nodeCount_ofFormula]
    omega
  incoming_root := incoming_ofFormula_zero f
  incoming := fun _ hpos hlt => incoming_ofFormula hpos hlt
  listed := fun _ _ _ _ hinner hedge h => lt_of_reaches hinner hedge h

/-- The graph of a formula draws its tree in pre-order.  The formula is rebuilt from it, with
every leaf known by its label; so with names in `a` to `z` the graph determines the formula. -/
theorem ofFormula_exact (f : Formula) :
    (ofFormula f).Draws f ∧
    (ofFormula f).rebuild? = some f.leavesAsLabels ∧
    ∀ g : Formula, f.Spellable → g.Spellable → ofFormula f = ofFormula g → f = g := by
  refine ⟨draws_ofFormula f, rebuild?_ofFormula f, fun g hf hg h => ?_⟩
  have hrebuild := rebuild?_ofFormula g
  rw [← h, rebuild?_ofFormula] at hrebuild
  exact leavesAsLabels_injective hf hg (Option.some.inj hrebuild)

/-- A variable named like the connective above it has the same label as the root; the edges tell
them apart, and the formula is determined. -/
theorem ofFormula_exact_homonym :
    (Formula.bin .or (.var "v") (.neg (.var "v"))).preOrder[1]? = some (.var "v") ∧
    (ofFormula (.bin .or (.var "v") (.neg (.var "v")))).outgoing 1 = [] ∧
    ∃ g : Formula, (Formula.bin .or (.var "v") (.neg (.var "v"))).Spellable ∧ g.Spellable ∧
      ofFormula (.bin .or (.var "v") (.neg (.var "v"))) = ofFormula g ∧
      .bin .or (.var "v") (.neg (.var "v")) = g := by
  obtain ⟨hdraws, _, hdetermines⟩ := ofFormula_exact (.bin .or (.var "v") (.neg (.var "v")))
  have hspellable : (Formula.bin .or (.var "v") (.neg (.var "v"))).Spellable := by decide
  exact ⟨rfl, hdraws.outgoing_atom 1 (.var "v") rfl rfl, _, hspellable, hspellable, rfl,
    hdetermines _ hspellable hspellable rfl⟩

end FormulaGraph

end Propositional
