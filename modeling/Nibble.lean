import Nibble.Main
import Nibble.Shell.Session
import Nibble.Proofs.Command
import Nibble.Proofs.Encoding
import Nibble.Proofs.Execution
import Nibble.Proofs.Filling
import Nibble.Proofs.Layout
import Nibble.Proofs.Packed
import Nibble.Proofs.Refusal
import Nibble.Proofs.Diagnosis
import Nibble.Proofs.Naming
import Nibble.Proofs.Capacity
import Nibble.Proofs.Interleaving
import Nibble.Proofs.Listed
import Nibble.Proofs.Interpreter
import Nibble.Proofs.Simulation
import Nibble.Proofs.Correctness
import Nibble.Proofs.Loading
import Nibble.Proofs.Running
import Nibble.Proofs.Alignment
import Nibble.Proofs.Outputs
import Nibble.Proofs.Arguments
import Nibble.Proofs.Decoding
import Nibble.Proofs.FirstFailure
import Nibble.Proofs.Reporting
import Nibble.Proofs.Coupling
import Nibble.Proofs.LineEnds
import Nibble.Proofs.Composition
import Nibble.Proofs.History
import Nibble.Proofs.Halting
import Nibble.Proofs.Resumption
import Nibble.Proofs.Unbound
import Nibble.Proofs.Tokens
import Nibble.Proofs.Inlining
import Nibble.Proofs.Console
import Nibble.Proofs.StraightLine
import Nibble.Proofs.Grammar
import Nibble.Proofs.Catalog
import Nibble.Proofs.Shortage
import Nibble.Proofs.Insertion
import Nibble.Proofs.Spacing
import Nibble.Proofs.Renaming
import Nibble.Proofs.Bindings
import Nibble.Proofs.Classification
import Nibble.Proofs.Columns
import Nibble.Proofs.Rows
import Nibble.Proofs.Legibility
