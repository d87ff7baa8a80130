import SoundLaw.Articulation
import SoundLaw.Decimal.Basic
import SoundLaw.Decimal.Reading
import SoundLaw.Decimal.Shortest
import SoundLaw.Eval
import SoundLaw.Eval.Assignment
import SoundLaw.Eval.Call
import SoundLaw.Eval.Expression
import SoundLaw.Eval.Hook
import SoundLaw.Eval.Instance
import SoundLaw.Eval.Native
import SoundLaw.Eval.Operation
import SoundLaw.Fault
import SoundLaw.Feature
import SoundLaw.Heap
import SoundLaw.Heap.Liveness
import SoundLaw.Interner
import SoundLaw.Lexeme
import SoundLaw.Lexeme.Scanning
import SoundLaw.Main
import SoundLaw.MajorClasses
import SoundLaw.Matrix
import SoundLaw.Node
import SoundLaw.Node.Parsing
import SoundLaw.Number
import SoundLaw.Operator
import SoundLaw.Position
import SoundLaw.Rule
import SoundLaw.Session
import SoundLaw.Shell
import SoundLaw.Shell.Arguments
import SoundLaw.Table.Loading
import SoundLaw.Table.Registry
import SoundLaw.Table.Transcription
import SoundLaw.Text.Alphanumeric
import SoundLaw.Text.Blank
import SoundLaw.Text.Capital
import SoundLaw.Text.Letter
import SoundLaw.Text.Run
import SoundLaw.Text.Split
import SoundLaw.Token
import SoundLaw.Token.Classification
import SoundLaw.Token.Ordering
import SoundLaw.Value
import SoundLaw.Value.Arithmetic
import SoundLaw.Value.Conversion
import SoundLaw.Value.Phonology
import SoundLaw.Word
import SoundLaw.Proofs.Matrix.Sameness
import SoundLaw.Proofs.Matrix.Built
import SoundLaw.Proofs.Table.Derivations
import SoundLaw.Proofs.Node.Printing
import SoundLaw.Proofs.Table.Registration
import SoundLaw.Proofs.Table.RoundTrip
import SoundLaw.Proofs.Node.Separation
import SoundLaw.Proofs.Node.Brackets
import SoundLaw.Proofs.Node.Leaves
import SoundLaw.Proofs.Eval.Endings
import SoundLaw.Proofs.Eval.FailedAssignment
import SoundLaw.Proofs.Table.Canonical
import SoundLaw.Proofs.Table.Reading
import SoundLaw.Proofs.Rule.Captures
import SoundLaw.Proofs.Rule.Mirror
import SoundLaw.Proofs.Value.Concrete
import SoundLaw.Proofs.Value.Faults
import SoundLaw.Proofs.Node.Faults
import SoundLaw.Proofs.Eval.Congruence
import SoundLaw.Proofs.Eval.Running
import SoundLaw.Proofs.Eval.Faults
import SoundLaw.Proofs.Eval.Changes
import SoundLaw.Proofs.Session.Phases
import SoundLaw.Proofs.Session.Fixed
import SoundLaw.Proofs.Eval.Interruption
import SoundLaw.Proofs.Matrix.Propagation
import SoundLaw.Proofs.Table.Grammar
import SoundLaw.Proofs.Table.Propagation
import SoundLaw.Proofs.Rule.Contexts
import SoundLaw.Proofs.Token.Phonology
import SoundLaw.Proofs.Node.Building
import SoundLaw.Proofs.Node.Grouping
import SoundLaw.Proofs.Node.Phonology
import SoundLaw.Proofs.Eval.Names
import SoundLaw.Proofs.Session.AllPhones
import SoundLaw.Proofs.Matrix.ClosedForm
import SoundLaw.Proofs.Articulation.Listing
import SoundLaw.Proofs.Rule.WriteBack
import SoundLaw.Proofs.Rule.Conservation
import SoundLaw.Proofs.Table.Contrast
import SoundLaw.Proofs.Token.Quoting
import SoundLaw.Proofs.Heap.Liveness
import SoundLaw.Proofs.Value.Paths
import SoundLaw.Proofs.Eval.Reading
import SoundLaw.Proofs.Eval.CompoundAssignment
import SoundLaw.Proofs.Lexeme.Extent
import SoundLaw.Proofs.Lexeme.Lines
import SoundLaw.Proofs.Table.Concatenation
import SoundLaw.Proofs.Token.Features
import SoundLaw.Proofs.Eval.Equality
import SoundLaw.Proofs.Heap.Visibility
import SoundLaw.Proofs.Table.Rows
import SoundLaw.Proofs.Matrix.Union
import SoundLaw.Proofs.Table.Agreement
import SoundLaw.Proofs.Text.Splitting
import SoundLaw.Proofs.Token.Landmarks
import SoundLaw.Proofs.Token.OpenRules
import SoundLaw.Proofs.Interner.TwoWay
import SoundLaw.Proofs.Interner.Callers
