import MiniPL.Main
import MiniPL.Syntax.Node
import MiniPL.Proofs.Gaps
import MiniPL.Proofs.Splitting
import MiniPL.Proofs.Grammar
import MiniPL.Proofs.Rules
import MiniPL.Proofs.Expressions
import MiniPL.Proofs.Statements
import MiniPL.Proofs.Sentences
import MiniPL.Proofs.Printing
import MiniPL.Proofs.Recovery
import MiniPL.Proofs.Steps
import MiniPL.Proofs.VariableTypes
import MiniPL.Proofs.Typing
import MiniPL.Proofs.Lines
import MiniPL.Proofs.Building
import MiniPL.Proofs.Pointing
import MiniPL.Proofs.Cutting
import MiniPL.Proofs.Moving
import MiniPL.Proofs.Pieces
import MiniPL.Parser.OnDemand
import MiniPL.Token.Peekable
import MiniPL.Proofs.Relocation
import MiniPL.Proofs.Demand
import MiniPL.Proofs.Streams
import MiniPL.Proofs.Layout
import MiniPL.Proofs.Walking
import MiniPL.Proofs.Progress
import MiniPL.Proofs.Order
import MiniPL.Proofs.Frame
import MiniPL.Proofs.Writing
import MiniPL.Proofs.Words
import MiniPL.Proofs.Reading
import MiniPL.Proofs.Textless
import MiniPL.Proofs.KnownTypes
import MiniPL.Proofs.Headers
import MiniPL.Proofs.Outlines
import MiniPL.Proofs.Endings
import MiniPL.Proofs.Boundaries
import MiniPL.Proofs.Feeding
import MiniPL.Proofs.Unrolling
import MiniPL.Proofs.Tagging
import MiniPL.Proofs.StandIns
import MiniPL.Proofs.HeaderFaults
import MiniPL.Proofs.EvaluationOrder
import MiniPL.Proofs.Failures
import MiniPL.Proofs.Arithmetic
import MiniPL.Proofs.Edits
import MiniPL.Proofs.Suggestions
import MiniPL.Proofs.Conversions
import MiniPL.Proofs.Completeness
import MiniPL.Proofs.Carets
import MiniPL.Proofs.Shifts
import MiniPL.Proofs.Junctions
import MiniPL.Proofs.Nesting
import MiniPL.Proofs.Escapes
