import Propositional.Graph.Dot
import Propositional.Text.Lines
import Propositional.Text.Unescaped

/-!
# Reading graphs in the DOT language

A drawing is read line by line: the line that opens the graph, lines of nodes and edges
in any order, and the line that closes it.  The nodes have to be numbered in the order of
their lines.
-/

namespace Propositional

/-- The branch with the given label. -/
def Branch.ofLabel? : String → Option Branch
  | "" => some only
  | "L" => some left
  | "R" => some right
  | _ => none

theorem Branch.ofLabel?_label (branch : Branch) : ofLabel? branch.label = some branch := by
  cases branch <;> rfl

namespace FormulaGraph

/-- What a line inside the braces says. -/
inductive Statement where
  | node (number : Nat) (label : String)
  | edge (source target : Nat) (label : String)
deriving DecidableEq, Repr

/-- What stands in front of a node or edge. -/
def indentation : List Char := [' ', ' ', ' ', ' ']

/-- What stands in front of the number of a node. -/
def nameOpening : List Char := ['n', '_']

/-- What stands between the nodes of an edge. -/
def arrow : List Char := [' ', '-', '>', ' ']

/-- What stands in front of a label. -/
def labelOpening : List Char := ['[', 'l', 'a', 'b', 'e', 'l', '=', '"']

/-- What stands behind the closing quote of a label. -/
def labelEnd : List Char := [']', ';']

/-- Reads the name of a node, and tells what stands behind it. -/
def readName (text : List Char) : Option (Nat × List Char) := do
  let rest ← nameOpening.isPrefixOf? text
  let digits := rest.takeWhile Char.isDigit
  if digits.isEmpty then none
  else some (Nat.ofDigitChars 10 digits 0, rest.dropWhile Char.isDigit)

/-- Reads a label in its brackets, up to the end of the line. -/
def readDotLabel (text : List Char) : Option String := do
  let rest ← labelOpening.isPrefixOf? text
  let read ← Text.readLabel .plain [] rest
  if read.2 = labelEnd then some (String.ofList read.1) else none

/-- Reads a line inside the braces. -/
def readStatement (line : List Char) : Option Statement := do
  let rest ← indentation.isPrefixOf? line
  let source ← readName rest
  match arrow.isPrefixOf? source.2 with
  | none => (readDotLabel source.2).map (.node source.1)
  | some behind => do
    let target ← readName behind
    (readDotLabel target.2).map (.edge source.1 target.1)

/-- Adds what a line says to the graph. -/
def addStatement (graph : FormulaGraph) : Statement → Option FormulaGraph
  | .node number label => if number = graph.nodeCount then some (graph.addNode label) else none
  | .edge source target label =>
    (Branch.ofLabel? label).map fun branch => graph.addEdge source branch target

/-- Reads a line inside the braces into the graph. -/
def readLine (graph : FormulaGraph) (line : List Char) : Option FormulaGraph := do
  graph.addStatement (← readStatement line)

/-- The graph that a text draws. -/
def readDot (text : String) : Option FormulaGraph :=
  match Text.lines text.toList with
  | [] => none
  | opening :: body =>
    if opening = ("digraph " ++ title ++ " \x7b").toList ∧ body.getLast? = some ['\x7d'] then
      body.dropLast.foldlM readLine empty
    else none

end FormulaGraph

end Propositional
