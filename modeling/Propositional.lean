import Propositional.Argument
import Propositional.Assignment
import Propositional.Assignment.Edit
import Propositional.Ceiling
import Propositional.Connective
import Propositional.Error
import Propositional.Formula.Basic
import Propositional.Formula.Evaluation
import Propositional.Formula.Grammar
import Propositional.Formula.Parse
import Propositional.Formula.Descent
import Propositional.Formula.Render
import Propositional.Formula.Variables
import Propositional.Graph.Dot
import Propositional.Graph.FormulaGraph
import Propositional.Lexeme.Nesting
import Propositional.Lexeme.Run
import Propositional.Lexeme.Token
import Propositional.Lexeme.Tokenize
import Propositional.Names
import Propositional.Output.BlockWriter
import Propositional.Output.Csv
import Propositional.Output.CsvReader
import Propositional.Output.Sink
import Propositional.Proofs.Completeness
import Propositional.Proofs.CsvRoundTrip
import Propositional.Proofs.Nesting
import Propositional.Proofs.Rows
import Propositional.Proofs.Soundness
import Propositional.Semantics
import Propositional.Source
import Propositional.Table.Enumeration
import Propositional.Table.Scan
import Propositional.Table.TruthTable
import Propositional.Table.Valuations
import Propositional.Text.Blank
import Propositional.Text.CodePoints
import Propositional.Text.Combining
import Propositional.Text.Escaped
import Propositional.Text.Ignorable
import Propositional.Text.Padded
import Propositional.Text.Quoted
import Propositional.Text.Unprintable
import Propositional.Text.Utf8
import Propositional.TruthValue
import Propositional.Lexeme.Spelling
import Propositional.Proofs.Lexing
import Propositional.Proofs.Parsing
import Propositional.Proofs.Descents
import Propositional.Formula.Depth
import Propositional.Formula.Lexemes
import Propositional.Text.Enclosed
import Propositional.Proofs.CanonicalText
import Propositional.Proofs.CanonicalNesting
import Propositional.Proofs.RoundTrip
import Propositional.Proofs.TruthTables
import Propositional.Formula.Joint
import Propositional.Proofs.Scans
import Propositional.Proofs.Verdicts
import Propositional.Proofs.Entailment
import Propositional.Formula.Context
import Propositional.Proofs.Equivalence
import Propositional.Text.Words
import Propositional.Lexeme.Layout
import Propositional.Proofs.WholeRuns
import Propositional.Proofs.Unreadable
import Propositional.Proofs.Scanning
import Propositional.Proofs.Prefixes
import Propositional.Proofs.Refusals
import Propositional.Proofs.Contents
import Propositional.Proofs.Respacing
import Propositional.Proofs.Spacing
import Propositional.Proofs.Streaming
import Propositional.Proofs.Exports
import Propositional.Formula.PreOrder
import Propositional.Graph.DotReader
import Propositional.Graph.Rebuild
import Propositional.Proofs.DotRoundTrip
import Propositional.Proofs.GraphShape
import Propositional.Output.Blocks
import Propositional.Output.TableBlocks
import Propositional.Proofs.FailedWrites
import Propositional.Proofs.Enumerations
import Propositional.Proofs.Repetitions
import Propositional.Proofs.Evaluations
import Propositional.Proofs.Bracketing
import Propositional.Formula.Rank
import Propositional.Proofs.Heights
import Propositional.Proofs.Unambiguity
import Propositional.Proofs.Conjunctions
import Propositional.Proofs.LastWrites
import Propositional.Proofs.Settings
