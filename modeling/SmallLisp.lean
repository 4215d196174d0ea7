import SmallLisp.FileTree
import SmallLisp.Main
import SmallLisp.Proofs.Number.Bits
import SmallLisp.Proofs.Number.Integer
import SmallLisp.Proofs.Equality.PartialEquivalence
import SmallLisp.Proofs.Evaluation.Rules
import SmallLisp.Proofs.Evaluation.Soundness
import SmallLisp.Proofs.Evaluation.Performing
import SmallLisp.Proofs.Evaluation.Adequacy
import SmallLisp.Proofs.Evaluation.Steps
import SmallLisp.Proofs.Evaluation.Convention
import SmallLisp.Proofs.Evaluation.Templates
import SmallLisp.Proofs.Positional.Access
import SmallLisp.Proofs.Positional.Natives
import SmallLisp.Proofs.Positional.Forms
import SmallLisp.Proofs.Evaluation.CallSite
import SmallLisp.Proofs.Equality.FiniteMap
import SmallLisp.Proofs.Scope.Computing
import SmallLisp.Proofs.Scope.Frames
import SmallLisp.Proofs.Scope.FrameLaw
import SmallLisp.Proofs.Scope.Reachable
import SmallLisp.Proofs.Scope.Changes
import SmallLisp.Proofs.Scope.Worlds
import SmallLisp.Proofs.Scope.Ancestry
import SmallLisp.Proofs.Reading.Seam
import SmallLisp.Proofs.Reading.Incremental
import SmallLisp.Proofs.Reading.Nested
import SmallLisp.Proofs.Reading.Enclosed
import SmallLisp.Proofs.Reading.Given
import SmallLisp.Proofs.Loading.Call
import SmallLisp.Proofs.Loading.Prelude
import SmallLisp.Proofs.Loading.Faults
import SmallLisp.Proofs.Reading.Spelling
import SmallLisp.Proofs.Equality.Transport
import SmallLisp.Proofs.Printing.Reread
import SmallLisp.Proofs.Printing.RoundTrip
import SmallLisp.Proofs.Scope.Renaming
import SmallLisp.Proofs.Scope.RenamedComputing
import SmallLisp.Proofs.Scope.Mirror
import SmallLisp.Proofs.Scope.MirroredRun
import SmallLisp.Proofs.Loading.Agreement
import SmallLisp.Proofs.Equality.Laws
import SmallLisp.Proofs.Reading.Grammar
import SmallLisp.Proofs.Reading.Atoms
import SmallLisp.Proofs.Loading.Sequence
import SmallLisp.Proofs.Conversation.Course
import SmallLisp.Proofs.Parameters.Binding
import SmallLisp.Proofs.Parameters.Functions
import SmallLisp.Proofs.Reading.Tiling
import SmallLisp.Proofs.Printing.Cycles
import SmallLisp.Proofs.Evaluation.Sequel
import SmallLisp.Proofs.Evaluation.Expansion
import SmallLisp.Proofs.Evaluation.MapForms
import SmallLisp.Proofs.Equality.Assembly
import SmallLisp.Proofs.Number.Count
import SmallLisp.Proofs.Branching.Sources
import SmallLisp.Proofs.Branching.Bodies
import SmallLisp.Proofs.Branching.FirstBranch
import SmallLisp.Proofs.Branching.FirstTruth
import SmallLisp.Proofs.Branching.ShortCircuit
import SmallLisp.Proofs.Reading.Literals
import SmallLisp.Proofs.Reading.Lines
import SmallLisp.Proofs.Evaluation.LetForms
import SmallLisp.Proofs.Evaluation.Failures
import SmallLisp.Proofs.Positional.Slices
import SmallLisp.Proofs.Positional.Lexemes
import SmallLisp.Proofs.Positional.Cursor
import SmallLisp.Proofs.Positional.Atoms
import SmallLisp.Proofs.Positional.Descent
