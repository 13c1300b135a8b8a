import Scriptlet.Console.CommandLine
import Scriptlet.Console.FileTree
import Scriptlet.Console.Highlight
import Scriptlet.Console.Literal
import Scriptlet.Console.Prompt
import Scriptlet.Context
import Scriptlet.Expr.Basic
import Scriptlet.Expr.Shape
import Scriptlet.Function
import Scriptlet.Heap.Basic
import Scriptlet.Heap.Contents
import Scriptlet.Heap.Element
import Scriptlet.Main
import Scriptlet.Proofs.Console.Agreement
import Scriptlet.Proofs.Console.Classification
import Scriptlet.Proofs.Console.Highlight
import Scriptlet.Proofs.Console.Pieces
import Scriptlet.Proofs.Console.ReadBack
import Scriptlet.Proofs.Console.Session
import Scriptlet.Proofs.Context.History
import Scriptlet.Proofs.Each
import Scriptlet.Proofs.Expr.Form
import Scriptlet.Proofs.Expr.Grammar
import Scriptlet.Proofs.Expr.Legible
import Scriptlet.Proofs.Expr.Literals
import Scriptlet.Proofs.Expr.ReadBack
import Scriptlet.Proofs.Expr.Recognition
import Scriptlet.Proofs.Expr.Written
import Scriptlet.Proofs.Function.Enclosed
import Scriptlet.Proofs.Function.Extraction
import Scriptlet.Proofs.Function.Heading
import Scriptlet.Proofs.Function.Listed
import Scriptlet.Proofs.Function.Recognition
import Scriptlet.Proofs.Function.RoundTrip
import Scriptlet.Proofs.Function.WellFormed
import Scriptlet.Proofs.Function.Written
import Scriptlet.Proofs.Heap.Characters
import Scriptlet.Proofs.Heap.Equality
import Scriptlet.Proofs.Heap.Nesting
import Scriptlet.Proofs.Heap.Renaming
import Scriptlet.Proofs.Heap.Sequence
import Scriptlet.Proofs.Heap.Write
import Scriptlet.Proofs.Heap.WrittenOut
import Scriptlet.Proofs.Routine.Arguments
import Scriptlet.Proofs.Routine.Built
import Scriptlet.Proofs.Routine.Descent
import Scriptlet.Proofs.Run.Budget
import Scriptlet.Proofs.Run.Congruence
import Scriptlet.Proofs.Run.Coverage
import Scriptlet.Proofs.Run.Effect
import Scriptlet.Proofs.Run.Growth
import Scriptlet.Proofs.Run.Invariant
import Scriptlet.Proofs.Run.Lookups
import Scriptlet.Proofs.Run.Obedience
import Scriptlet.Proofs.Run.Outcome
import Scriptlet.Proofs.Run.Preservation
import Scriptlet.Proofs.Run.Renaming
import Scriptlet.Proofs.Run.Replay
import Scriptlet.Proofs.Run.Rules
import Scriptlet.Proofs.Run.Settled
import Scriptlet.Proofs.Run.Termination
import Scriptlet.Proofs.Run.Trace
import Scriptlet.Proofs.Statement.Grammar
import Scriptlet.Proofs.Text.Cut
import Scriptlet.Proofs.Text.Token
import Scriptlet.Proofs.Value.Remainder
import Scriptlet.Proofs.World.Coherence
import Scriptlet.Proofs.World.Contexts
import Scriptlet.Proofs.World.Footprint
import Scriptlet.Proofs.World.FreshContext
import Scriptlet.Proofs.World.History
import Scriptlet.Proofs.World.Integers
import Scriptlet.Proofs.World.Invariant
import Scriptlet.Proofs.World.Stateless
import Scriptlet.Run
import Scriptlet.Statement
import Scriptlet.Text.Basic
import Scriptlet.Text.Pattern
import Scriptlet.Text.Quoted
import Scriptlet.Value
import Scriptlet.World
