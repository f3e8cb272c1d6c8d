import Propositional.Graph.FormulaGraph
import Propositional.Output.Sink
import Propositional.Text.Escaped

/-!
# Graphs in the DOT language

A line for every node and then a line for every edge, with their labels escaped,
inside the braces of a directed graph.

* `received_writeDot` — if writing a drawing succeeds, the sink has received all
  of its text.
-/

namespace Propositional.FormulaGraph

/-- The name of the graph. -/
def title : String := "expression"

/-- The name of a node. -/
def nodeName (node : Nat) : String := "n_" ++ toString node

/-- A label as it stands behind a node or an edge. -/
def dotLabel (label : String) : String := "[label=\"" ++ Text.escaped label ++ "\"];\n"

/-- The line of a node. -/
def nodeLine (node : Nat) (label : String) : String :=
  "    " ++ nodeName node ++ dotLabel label

/-- The line of an edge. -/
def edgeLine (edge : GraphEdge) : String :=
  "    " ++ nodeName edge.source ++ " -> " ++ nodeName edge.target ++ dotLabel edge.branch.label

/-- The lines of the drawing. -/
def dotLines (graph : FormulaGraph) : List String :=
  ["digraph " ++ title ++ " \x7b\n"] ++
    graph.labels.toList.mapIdx nodeLine ++
    graph.edges.toList.map edgeLine ++
    ["\x7d\n"]

/-- The drawing. -/
def dot (graph : FormulaGraph) : String := String.join graph.dotLines

/-- Writes one line. -/
def writeLine (sink : Sink) (line : String) : Except WriteFailure Sink :=
  match sink.write? line.toUTF8.data with
  | some next => .ok next
  | none => .error ⟨.io Sink.refusal, sink⟩

/-- Writes the drawing to the sink, line by line. -/
def writeDot (graph : FormulaGraph) (sink : Sink) : Except WriteFailure Sink :=
  graph.dotLines.foldlM writeLine sink

theorem received_writeLine {sink next : Sink} {line : String}
    (h : writeLine sink line = .ok next) : next.received = sink.received ++ line.toUTF8.data := by
  unfold writeLine at h
  split at h
  · rename_i written hwrite
    cases h
    obtain ⟨_, rfl⟩ := (Sink.write?_eq_some_iff _ _ _).mp hwrite
    rfl
  · cases h

theorem received_foldlM {sink next : Sink} {lines : List String}
    (h : lines.foldlM writeLine sink = .ok next) :
    next.received = sink.received ++ (String.join lines).toUTF8.data := by
  induction lines generalizing sink with
  | nil =>
    cases h
    simp
  | cons line rest ih =>
    rw [List.foldlM_cons] at h
    cases hwrite : writeLine sink line with
    | error e =>
      rw [hwrite] at h
      cases h
    | ok middle =>
      rw [hwrite] at h
      rw [ih h, received_writeLine hwrite]
      simp [String.join_cons]

/-- If writing succeeds, the sink has received all of the text. -/
theorem received_writeDot {graph : FormulaGraph} {sink next : Sink}
    (h : graph.writeDot sink = .ok next) :
    next.received = sink.received ++ graph.dot.toUTF8.data :=
  received_foldlM h

end Propositional.FormulaGraph
