import Rill.Main
import Rill.Symbol
import Rill.Proofs.Interning
import Rill.Proofs.Declarations
import Rill.Proofs.Source.Place
import Rill.Proofs.Source.Lines
import Rill.Proofs.Source.Underline
import Rill.Proofs.Token.Written
import Rill.Proofs.Token.Scan
import Rill.Proofs.Token.Split
import Rill.Proofs.Token.Segment
import Rill.Proofs.Token.Layout
import Rill.Proofs.Tree.Grammar
import Rill.Proofs.Tree.Terminals
import Rill.Proofs.Tree.Taken
import Rill.Proofs.Tree.Reading
import Rill.Proofs.Tree.Descent
import Rill.Proofs.Tree.Settled
import Rill.Proofs.Tree.Foreseen
import Rill.Proofs.Tree.Unambiguous
import Rill.Proofs.Tree.Node
import Rill.Proofs.Tree.Reparsed
import Rill.Proofs.Tree.Respanned
import Rill.Proofs.Tree.FirstError
import Rill.Proofs.Tree.Meaning
import Rill.Proofs.Tree.Shape
import Rill.Proofs.Tree.Parsed
import Rill.Proofs.Tree.Simplify
import Rill.Proofs.Tree.Folding
import Rill.Proofs.Tree.Constant
import Rill.Proofs.Tree.Retyping
import Rill.Proofs.Tree.NormalForm
import Rill.Proofs.Tree.Bindings
import Rill.Proofs.Tree.Located
import Rill.Proofs.Lir.Machine
import Rill.Proofs.Lir.Graph
import Rill.Proofs.Lir.Cleanup
import Rill.Proofs.Lir.Passes
import Rill.Proofs.Lir.Scoping
import Rill.Proofs.Lir.WellFormed
import Rill.Proofs.Lir.Preservation
import Rill.Proofs.Lir.Typing
import Rill.Proofs.Lir.Checked
import Rill.Proofs.Lir.Acceptance
import Rill.Proofs.Lir.Returns
import Rill.Proofs.Lir.Simplified
import Rill.Proofs.Lir.Landing
import Rill.Proofs.Lir.Tidied
import Rill.Proofs.Lir.Located
import Rill.Proofs.Lir.Calls
import Rill.Proofs.Compile
import Rill.Proofs.Workers
import Rill.Proofs.Report
