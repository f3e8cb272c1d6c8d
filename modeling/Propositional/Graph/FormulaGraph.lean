import Propositional.Formula.Render

/-!
# The graph of a formula

The tree of a formula, flattened for drawing: a node for every occurrence of a
subformula, numbered in pre-order from the root at `0`, and an edge from every
connective to each of its operands.  Edges are listed when the operands they
lead to are complete.

* `nodeCount_ofFormula` — there is a node for each occurrence of a subformula.
-/

namespace Propositional

/-- Which operand an edge leads to. -/
inductive Branch where
  /-- The operand of a negation. -/
  | only
  | left
  | right
deriving DecidableEq, Repr

/-- The label of the edge. -/
def Branch.label : Branch → String
  | only => ""
  | left => "L"
  | right => "R"

/-- An edge from a connective to one of its operands. -/
structure GraphEdge where
  source : Nat
  branch : Branch
  target : Nat
deriving DecidableEq, Repr

/-- The labels of the nodes, in the order of their numbers, and the edges. -/
structure FormulaGraph where
  labels : Array String
  edges : Array GraphEdge
deriving DecidableEq, Repr

namespace FormulaGraph

def empty : FormulaGraph := ⟨#[], #[]⟩

/-- The number of nodes. -/
def nodeCount (graph : FormulaGraph) : Nat := graph.labels.size

/-- Adds a node; its number is the number of nodes so far. -/
def addNode (graph : FormulaGraph) (label : String) : FormulaGraph :=
  { graph with labels := graph.labels.push label }

/-- Adds an edge. -/
def addEdge (graph : FormulaGraph) (source : Nat) (branch : Branch) (target : Nat) :
    FormulaGraph :=
  { graph with edges := graph.edges.push ⟨source, branch, target⟩ }

/-- Adds the tree of a formula; the number of its root is the number of nodes so far. -/
def insert (graph : FormulaGraph) : Formula → FormulaGraph
  | .const value => graph.addNode (Formula.const value).render
  | .var name => graph.addNode (Formula.var name).render
  | .neg operand =>
    let root := graph.nodeCount
    let graph := graph.addNode negationSymbol
    let child := graph.nodeCount
    (graph.insert operand).addEdge root .only child
  | .bin op left right =>
    let root := graph.nodeCount
    let graph := graph.addNode op.symbol
    let leftChild := graph.nodeCount
    let graph := graph.insert left
    let rightChild := graph.nodeCount
    ((graph.insert right).addEdge root .left leftChild).addEdge root .right rightChild

/-- The graph of the formula. -/
def ofFormula (f : Formula) : FormulaGraph := empty.insert f

theorem nodeCount_addNode (graph : FormulaGraph) (label : String) :
    (graph.addNode label).nodeCount = graph.nodeCount + 1 := by
  simp [addNode, nodeCount]

theorem nodeCount_addEdge (graph : FormulaGraph) (source : Nat) (branch : Branch)
    (target : Nat) : (graph.addEdge source branch target).nodeCount = graph.nodeCount := rfl

theorem nodeCount_insert (graph : FormulaGraph) (f : Formula) :
    (graph.insert f).nodeCount = graph.nodeCount + f.size := by
  induction f generalizing graph with
  | const _ => exact nodeCount_addNode graph _
  | var _ => exact nodeCount_addNode graph _
  | neg operand ih =>
    rw [insert, nodeCount_addEdge, ih, nodeCount_addNode, Formula.size]
    omega
  | bin op left right ihl ihr =>
    rw [insert, nodeCount_addEdge, nodeCount_addEdge, ihr, ihl, nodeCount_addNode, Formula.size]
    omega

/-- There is a node for each occurrence of a subformula. -/
theorem nodeCount_ofFormula (f : Formula) : (ofFormula f).nodeCount = f.size := by
  rw [ofFormula, nodeCount_insert]
  exact Nat.zero_add _

end FormulaGraph

end Propositional
