import Readback.Catalogue
import Readback.Decompile
import Readback.Graph.Builder
import Readback.Graph.Outline
import Readback.Json.Writer
import Readback.Lift.Report
import Readback.Proofs.Decompile
import Readback.Proofs.Graph.Built
import Readback.Proofs.Layout.Printable
import Readback.Proofs.Layout.Total
import Readback.Proofs.Lift.Decl
import Readback.Proofs.Lift.Effects
import Readback.Proofs.Lift.Expr
import Readback.Proofs.Lift.Invariant
import Readback.Proofs.Lift.Memo
import Readback.Proofs.Lift.Nesting
import Readback.Proofs.Lift.Node
import Readback.Proofs.Lift.Queue
import Readback.Proofs.Lift.Reach
import Readback.Proofs.Lift.Region
import Readback.Proofs.Lift.Run
import Readback.Proofs.Lift.Sound
import Readback.Proofs.Lift.Structure
import Readback.Proofs.Program.Term
import Readback.Proofs.Reading.Expr
import Readback.Proofs.Reading.Grammar
import Readback.Proofs.Reading.Literal
import Readback.Proofs.Steps
import Readback.Proofs.Typing.Additions
import Readback.Proofs.Typing.Atomicity
import Readback.Proofs.Typing.Construction
import Readback.Proofs.Typing.Frame
import Readback.Proofs.Typing.Grouping
import Readback.Proofs.Typing.Growth
import Readback.Proofs.Data.Interned
import Readback.Proofs.Typing.Changes
import Readback.Proofs.Typing.Representation
import Readback.Proofs.Number.Single
import Readback.Proofs.Typing.Repetition
import Readback.Proofs.Typing.Coherence
import Readback.Proofs.Graph.Types
import Readback.Proofs.Graph.Uses
import Readback.Proofs.Graph.Arena
import Readback.Proofs.Graph.Walk
import Readback.Proofs.Graph.Script
import Readback.Proofs.Lift.Account
import Readback.Proofs.Lift.Termination
import Readback.Proofs.Lift.Symbols
import Readback.Proofs.Program.Roll
import Readback.Proofs.Lift.Roster
import Readback.Proofs.Lift.Enrolment
import Readback.Proofs.Typing.Declaring
import Readback.Proofs.Typing.Containment
import Readback.Proofs.Program.Types
import Readback.Proofs.Typing.Decay
import Readback.Proofs.Graph.Lowered
import Readback.Proofs.Lift.Type
import Readback.Proofs.Lift.Walk
import Readback.Proofs.Lift.Lowering
import Readback.Proofs.Reading.Lexeme
import Readback.Proofs.Reading.Declarator
import Readback.Proofs.Reading.Declaration
import Readback.Proofs.Typing.Signature
import Readback.Proofs.Reading.Header
import Readback.Proofs.Layout.Uncoloured
import Readback.Proofs.Reading.Casts
import Readback.Proofs.Interchange
import Readback.Proofs.Reading.Tokens
import Readback.Proofs.Typing.Canonical
import Readback.Proofs.Layout.Blocks
import Readback.Proofs.Lift.Wrapped
import Readback.Proofs.FunctionOrder
import Readback.Proofs.Reading.Commas
import Readback.Proofs.Typing.Parentheses
import Readback.Proofs.Typing.Promotion
import Readback.Proofs.Reading.IntegerConstant
import Readback.Proofs.Typing.Wrapping
import Readback.Proofs.Reading.TextLiteral
import Readback.Proofs.Lift.Identity
