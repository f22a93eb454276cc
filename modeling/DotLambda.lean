import DotLambda.Bindings
import DotLambda.Datum
import DotLambda.Dialogue
import DotLambda.Error
import DotLambda.Eval
import DotLambda.Grammar
import DotLambda.Grammar.Automaton
import DotLambda.Main
import DotLambda.Meaning
import DotLambda.Operator
import DotLambda.Output
import DotLambda.Parse
import DotLambda.Session
import DotLambda.Simplify
import DotLambda.Sorting
import DotLambda.Term
import DotLambda.Term.Form
import DotLambda.Term.Reference
import DotLambda.Text.Decimal
import DotLambda.Text.Digit
import DotLambda.Text.Peeled
import DotLambda.Text.Printable
import DotLambda.Text.Quoted
import DotLambda.Token
import DotLambda.Token.Scan
import DotLambda.Token.Segment
import DotLambda.Proofs.Derivation
import DotLambda.Proofs.Walk
import DotLambda.Proofs.Run
import DotLambda.Proofs.Rearrangement
import DotLambda.Proofs.Recognition
import DotLambda.Proofs.Reading
import DotLambda.Proofs.Refinement
import DotLambda.Proofs.Spelling
import DotLambda.Proofs.Arithmetic
import DotLambda.Proofs.Equations
import DotLambda.Proofs.Formulas
import DotLambda.Proofs.Coverage
import DotLambda.Proofs.Readback
import DotLambda.Proofs.Heap
import DotLambda.Proofs.Frame
import DotLambda.Proofs.Effects
import DotLambda.Proofs.Atomicity
import DotLambda.Proofs.Termination
import DotLambda.Proofs.Twins
import DotLambda.Proofs.Recovery
import DotLambda.Proofs.Parallel
import DotLambda.Proofs.ParallelRules
import DotLambda.Proofs.Knots
import DotLambda.Proofs.ParallelSessions
import DotLambda.Proofs.Renaming
import DotLambda.Proofs.ParallelPhrases
import DotLambda.Proofs.Depth
import DotLambda.Proofs.Replacement
import DotLambda.Proofs.Application
import DotLambda.Proofs.Tracing
import DotLambda.Proofs.Honesty
import DotLambda.Proofs.Preservation
import DotLambda.Proofs.Tags
import DotLambda.Proofs.Wording
import DotLambda.Proofs.Likeness
import DotLambda.Proofs.NormalForm
import DotLambda.Proofs.Idempotence
import DotLambda.Proofs.Tandem
import DotLambda.Proofs.Lockstep
import DotLambda.Proofs.Constancy
import DotLambda.Proofs.Kinship
import DotLambda.Proofs.Building
import DotLambda.Proofs.ConstantFolding
import DotLambda.Proofs.Rendering
import DotLambda.Proofs.Halting
import DotLambda.Proofs.Growth
import DotLambda.Proofs.Silence
import DotLambda.Proofs.Abreast
import DotLambda.Proofs.Trees
import DotLambda.Proofs.Selection
import DotLambda.Proofs.Failures
import DotLambda.Proofs.Residue
import DotLambda.Proofs.Stability
import DotLambda.Proofs.Merging
import DotLambda.Proofs.Relevance
import DotLambda.Proofs.Currying
import DotLambda.Proofs.Independence
import DotLambda.Proofs.Detachment
import DotLambda.Proofs.Lines
import DotLambda.Proofs.Dumping
import DotLambda.Proofs.Balance
import DotLambda.Proofs.Printouts
