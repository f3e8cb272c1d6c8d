import Mathlib
import Propositional.Graph.DotReader

/-!
# What is drawn is read back

In a drawing the label is the only part of a line that is free, and it is escaped: it
holds no line feed, so the lines of the text are those that were written, and no quote
that is not behind a backslash, so a label ends where it was ended.

* `readStatement_nodeText`, `readStatement_edgeText` — a line is read as what it says;
* `readDot_dot` — a graph is read back from its drawing;
* `dot_faithful` — the drawing of a formula is written without failure, and tells the
  labels and edges of its graph.
-/

namespace Propositional.FormulaGraph

/-- The name of a node. -/
def nameText (node : Nat) : List Char := nameOpening ++ Nat.toDigits 10 node

/-- A label in its brackets. -/
def labelText (label : String) : List Char :=
  labelOpening ++ (label.toList.flatMap Text.escapeChar ++ '"' :: labelEnd)

/-- The line of a node, without its line feed. -/
def nodeText (node : Nat) (label : String) : List Char :=
  indentation ++ (nameText node ++ labelText label)

/-- The line of an edge, without its line feed. -/
def edgeText (edge : GraphEdge) : List Char :=
  indentation ++ (nameText edge.source ++
    (arrow ++ (nameText edge.target ++ labelText edge.branch.label)))

theorem toList_nodeName (node : Nat) : (nodeName node).toList = nameText node := by
  rw [nodeName, String.toList_append, Nat.toString_eq_repr, Nat.toList_repr]
  simp [nameText, nameOpening]

theorem toList_dotLabel (label : String) :
    (dotLabel label).toList = labelText label ++ ['\n'] := by
  rw [dotLabel, String.toList_append, String.toList_append, Text.escaped, String.toList_ofList]
  simp [labelText, labelOpening, labelEnd]

theorem toList_nodeLine (node : Nat) (label : String) :
    (nodeLine node label).toList = nodeText node label ++ ['\n'] := by
  rw [nodeLine, String.toList_append, String.toList_append, toList_nodeName, toList_dotLabel]
  simp [nodeText, indentation]

theorem toList_edgeLine (edge : GraphEdge) :
    (edgeLine edge).toList = edgeText edge ++ ['\n'] := by
  rw [edgeLine, String.toList_append, String.toList_append, String.toList_append,
    String.toList_append, toList_nodeName, toList_nodeName, toList_dotLabel]
  simp [edgeText, indentation, arrow]

theorem isPrefixOf?_append (front rest : List Char) :
    front.isPrefixOf? (front ++ rest) = some rest :=
  List.isPrefixOf?_eq_some_iff_append_eq.mpr rfl

/-- The name of a node is read up to the first character that is no digit. -/
theorem readName_nameText (node : Nat) {c : Char} (hc : c.isDigit = false) (rest : List Char) :
    readName (nameText node ++ c :: rest) = some (node, c :: rest) := by
  have hdigits : ∀ d ∈ Nat.toDigits 10 node, d.isDigit = true := fun d hd =>
    Nat.isDigit_of_mem_toDigits (by decide) (by decide) hd
  have hstop : ¬ c.isDigit = true := by
    rw [hc]
    exact Bool.false_ne_true
  have htake : (Nat.toDigits 10 node ++ c :: rest).takeWhile Char.isDigit =
      Nat.toDigits 10 node := by
    rw [List.takeWhile_append_of_pos hdigits, List.takeWhile_cons_of_neg hstop, List.append_nil]
  have hdrop : (Nat.toDigits 10 node ++ c :: rest).dropWhile Char.isDigit = c :: rest := by
    rw [List.dropWhile_append_of_pos hdigits, List.dropWhile_cons_of_neg hstop]
  have hne : (Nat.toDigits 10 node).isEmpty = false :=
    List.isEmpty_eq_false_iff.mpr Nat.toDigits_ne_nil
  simp only [readName, nameText, List.append_assoc, isPrefixOf?_append, Option.bind_eq_bind,
    Option.bind_some, htake, hdrop, hne, Bool.false_eq_true, if_false,
    Nat.ofDigitChars_ten_toDigits]

/-- A label is read back from its brackets. -/
theorem readDotLabel_labelText (label : String) :
    readDotLabel (labelText label) = some label := by
  have hread := Text.readLabel_escaped label.toList [] labelEnd
  rw [List.nil_append] at hread
  simp only [readDotLabel, labelText, isPrefixOf?_append, Option.bind_eq_bind, Option.bind_some,
    hread, if_true, String.ofList_toList]

/-- The line of a node is read as that node. -/
theorem readStatement_nodeText (node : Nat) (label : String) :
    readStatement (nodeText node label) = some (.node node label) := by
  have hname : readName (nameText node ++ labelText label) = some (node, labelText label) :=
    readName_nameText node rfl _
  have harrow : arrow.isPrefixOf? (labelText label) = none := rfl
  simp only [readStatement, nodeText, isPrefixOf?_append, Option.bind_eq_bind, Option.bind_some,
    hname, harrow, readDotLabel_labelText, Option.map_some]

/-- The line of an edge is read as that edge. -/
theorem readStatement_edgeText (edge : GraphEdge) :
    readStatement (edgeText edge) =
      some (.edge edge.source edge.target edge.branch.label) := by
  have hsource (rest : List Char) :
      readName (nameText edge.source ++ (arrow ++ rest)) = some (edge.source, arrow ++ rest) :=
    readName_nameText edge.source rfl _
  have htarget : readName (nameText edge.target ++ labelText edge.branch.label) =
      some (edge.target, labelText edge.branch.label) := readName_nameText edge.target rfl _
  simp only [readStatement, edgeText, isPrefixOf?_append, Option.bind_eq_bind, Option.bind_some,
    hsource, htarget, readDotLabel_labelText, Option.map_some]

theorem readLine_nodeText (graph : FormulaGraph) (label : String) :
    graph.readLine (nodeText graph.nodeCount label) = some (graph.addNode label) := by
  rw [readLine, readStatement_nodeText]
  exact if_pos rfl

theorem readLine_edgeText (graph : FormulaGraph) (edge : GraphEdge) :
    graph.readLine (edgeText edge) =
      some (graph.addEdge edge.source edge.branch edge.target) := by
  rw [readLine, readStatement_edgeText]
  show (Branch.ofLabel? edge.branch.label).map _ = _
  rw [Branch.ofLabel?_label]
  rfl

/-- Lines of nodes that are numbered on add those nodes. -/
theorem foldlM_nodeText (labels : List String) (graph : FormulaGraph) :
    (labels.mapIdx fun i label => nodeText (graph.nodeCount + i) label).foldlM readLine graph =
      some { graph with labels := graph.labels ++ labels.toArray } := by
  induction labels generalizing graph with
  | nil => simp
  | cons label rest ih =>
    have hnumbers : (fun i label => nodeText (graph.nodeCount + (i + 1)) label) =
        fun i other => nodeText ((graph.addNode label).nodeCount + i) other := by
      funext i other
      rw [nodeCount_addNode, Nat.add_assoc, Nat.add_comm 1 i]
    rw [List.mapIdx_cons, List.foldlM_cons, Nat.add_zero, readLine_nodeText, hnumbers]
    show (rest.mapIdx _).foldlM readLine (graph.addNode label) = _
    rw [ih]
    simp [addNode]

/-- Lines of edges add those edges. -/
theorem foldlM_edgeText (edges : List GraphEdge) (graph : FormulaGraph) :
    (edges.map edgeText).foldlM readLine graph =
      some { graph with edges := graph.edges ++ edges.toArray } := by
  induction edges generalizing graph with
  | nil => simp
  | cons edge rest ih =>
    rw [List.map_cons, List.foldlM_cons, readLine_edgeText]
    show (rest.map edgeText).foldlM readLine (graph.addEdge edge.source edge.branch edge.target) = _
    rw [ih]
    simp [addEdge]

/-- The lines of a drawing, without their line feeds. -/
def dotTexts (graph : FormulaGraph) : List (List Char) :=
  ("digraph " ++ title ++ " \x7b").toList ::
    (graph.labels.toList.mapIdx nodeText ++ graph.edges.toList.map edgeText ++ [['\x7d']])

theorem toList_dot (graph : FormulaGraph) :
    graph.dot.toList = graph.dotTexts.flatMap fun line => line ++ ['\n'] := by
  have hopening : ("digraph " ++ title ++ " \x7b\n").toList =
      ("digraph " ++ title ++ " \x7b").toList ++ ['\n'] := by simp
  have hnodes : (graph.labels.toList.mapIdx nodeLine).flatMap String.toList =
      (graph.labels.toList.mapIdx nodeText).flatMap fun line => line ++ ['\n'] := by
    rw [List.mapIdx_eq_zipIdx_map, List.mapIdx_eq_zipIdx_map, List.flatMap_map, List.flatMap_map]
    exact congrArg (graph.labels.toList.zipIdx.flatMap ·)
      (funext fun numbered => toList_nodeLine numbered.2 numbered.1)
  have hedges : (graph.edges.toList.map edgeLine).flatMap String.toList =
      (graph.edges.toList.map edgeText).flatMap fun line => line ++ ['\n'] := by
    rw [List.flatMap_map, List.flatMap_map]
    exact congrArg (graph.edges.toList.flatMap ·) (funext toList_edgeLine)
  rw [dot, String.toList_join, dotLines, List.flatMap_append, List.flatMap_append,
    List.flatMap_append, hnodes, hedges, List.flatMap_singleton, hopening]
  simp [dotTexts]

theorem lineFeed_notMem_nameText (node : Nat) : '\n' ∉ nameText node := by
  intro h
  rcases List.mem_append.mp h with h | h
  · exact absurd h (by decide)
  · exact absurd (Nat.isDigit_of_mem_toDigits (by decide) (by decide) h) (by decide)

theorem lineFeed_notMem_labelText (label : String) : '\n' ∉ labelText label := by
  intro h
  rcases List.mem_append.mp h with h | h
  · exact absurd h (by decide)
  rcases List.mem_append.mp h with h | h
  · obtain ⟨c, _, hc⟩ := List.mem_flatMap.mp h
    exact Text.lineFeed_notMem_escapeChar c hc
  · exact absurd h (by decide)

theorem lineFeed_notMem_nodeText (node : Nat) (label : String) : '\n' ∉ nodeText node label := by
  intro h
  rcases List.mem_append.mp h with h | h
  · exact absurd h (by decide)
  rcases List.mem_append.mp h with h | h
  · exact lineFeed_notMem_nameText node h
  · exact lineFeed_notMem_labelText label h

theorem lineFeed_notMem_edgeText (edge : GraphEdge) : '\n' ∉ edgeText edge := by
  intro h
  rcases List.mem_append.mp h with h | h
  · exact absurd h (by decide)
  rcases List.mem_append.mp h with h | h
  · exact lineFeed_notMem_nameText edge.source h
  rcases List.mem_append.mp h with h | h
  · exact absurd h (by decide)
  rcases List.mem_append.mp h with h | h
  · exact lineFeed_notMem_nameText edge.target h
  · exact lineFeed_notMem_labelText edge.branch.label h

/-- No label breaks a line. -/
theorem lineFeed_notMem_dotTexts (graph : FormulaGraph) :
    ∀ line ∈ graph.dotTexts, '\n' ∉ line := by
  intro line hline
  rcases List.mem_cons.mp hline with rfl | hline
  · simp [title]
  rcases List.mem_append.mp hline with hline | hline
  · rcases List.mem_append.mp hline with hline | hline
    · obtain ⟨node, hnode, rfl⟩ := List.mem_mapIdx.mp hline
      exact lineFeed_notMem_nodeText node _
    · obtain ⟨edge, _, rfl⟩ := List.mem_map.mp hline
      exact lineFeed_notMem_edgeText edge
  · rw [List.mem_singleton.mp hline]
    decide

/-- A graph is read back from its drawing. -/
theorem readDot_dot (graph : FormulaGraph) : readDot graph.dot = some graph := by
  have hlines : Text.lines graph.dot.toList = graph.dotTexts := by
    rw [toList_dot, Text.lines_flatMap graph.lineFeed_notMem_dotTexts]
  have hnodes := foldlM_nodeText graph.labels.toList empty
  have hnumbers : (fun i label => nodeText (empty.nodeCount + i) label) = nodeText := by
    funext i label
    rw [show empty.nodeCount = 0 from rfl, Nat.zero_add]
  rw [hnumbers] at hnodes
  have hbody : (graph.labels.toList.mapIdx nodeText ++
      graph.edges.toList.map edgeText).foldlM readLine empty = some graph := by
    rw [List.foldlM_append, hnodes]
    show (graph.edges.toList.map edgeText).foldlM readLine _ = _
    rw [foldlM_edgeText]
    simp [empty]
  rw [readDot, hlines, dotTexts]
  simp only [List.getLast?_concat, List.dropLast_concat, and_self, if_true]
  exact hbody

theorem writeLine_of_unlimited {sink : Sink} (h : sink.room = none) (line : String) :
    ∃ next, writeLine sink line = .ok next ∧ next.room = none := by
  have hfits : sink.fits (sink.received.size + line.toUTF8.data.size) = true := by
    rw [Sink.fits, h]
  refine ⟨⟨sink.room, sink.received ++ line.toUTF8.data⟩, ?_, h⟩
  rw [writeLine, Sink.write?_of_fits hfits]

/-- A sink without limit takes every drawing. -/
theorem foldlM_writeLine_of_unlimited (lines : List String) {sink : Sink}
    (h : sink.room = none) : ∃ next, lines.foldlM writeLine sink = .ok next := by
  induction lines generalizing sink with
  | nil => exact ⟨sink, rfl⟩
  | cons line rest ih =>
    obtain ⟨middle, hmiddle, hroom⟩ := writeLine_of_unlimited h line
    obtain ⟨next, hnext⟩ := ih hroom
    refine ⟨next, ?_⟩
    rw [List.foldlM_cons, hmiddle]
    exact hnext

/-- The drawing of a formula is written without failure and read back as its graph, whatever the
names are; so two formulas have the same drawing exactly if their graphs have the same labels and
edges. -/
theorem dot_faithful (f g : Formula) :
    (∃ sink, (ofFormula f).writeDot (Sink.ofRoom none) = .ok sink ∧
      sink.received = (ofFormula f).dot.toUTF8.data) ∧
    readDot (ofFormula f).dot = some (ofFormula f) ∧
    ((ofFormula f).dot = (ofFormula g).dot ↔
      (ofFormula f).labels = (ofFormula g).labels ∧
        (ofFormula f).edges = (ofFormula g).edges) := by
  refine ⟨?_, readDot_dot _, ?_, ?_⟩
  · obtain ⟨sink, hwrite⟩ := foldlM_writeLine_of_unlimited (ofFormula f).dotLines
      (show (Sink.ofRoom none).room = none from rfl)
    have hreceived := received_writeDot hwrite
    refine ⟨sink, hwrite, hreceived.trans ?_⟩
    simp [Sink.ofRoom]
  · intro h
    have hgraph : some (ofFormula f) = some (ofFormula g) := by
      rw [← readDot_dot (ofFormula f), h, readDot_dot]
    rw [Option.some.inj hgraph]
    exact ⟨rfl, rfl⟩
  · rintro ⟨hlabels, hedges⟩
    have hgraph : ofFormula f = ofFormula g := by
      cases hf : ofFormula f
      cases hg : ofFormula g
      rw [hf, hg] at hlabels hedges
      rw [FormulaGraph.mk.injEq]
      exact ⟨hlabels, hedges⟩
    rw [hgraph]

end Propositional.FormulaGraph
