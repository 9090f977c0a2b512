import UntypedLambda.Main
import UntypedLambda.Term.Alpha
import UntypedLambda.Proofs.Scope.Walks
import UntypedLambda.Proofs.Nameless.Basic
import UntypedLambda.Proofs.Nameless.Form
import UntypedLambda.Proofs.Nameless.Alpha
import UntypedLambda.Proofs.Nameless.Beta
import UntypedLambda.Proofs.Nameless.Substitution
import UntypedLambda.Proofs.Nameless.Renaming
import UntypedLambda.Proofs.Nameless.Standardization
import UntypedLambda.Proofs.Environment.Dependency
import UntypedLambda.Proofs.Environment.Unfolding
import UntypedLambda.Proofs.Environment.Resolution
import UntypedLambda.Proofs.Environment.Hygiene
import UntypedLambda.Proofs.Environment.Replacement
import UntypedLambda.Proofs.Reduction.Leftmost
import UntypedLambda.Proofs.Reduction.Completeness
import UntypedLambda.Proofs.Reduction.Evaluation
import UntypedLambda.Proofs.Reduction.Names
import UntypedLambda.Proofs.Reduction.Counters
import UntypedLambda.Proofs.Reduction.Trace
import UntypedLambda.Proofs.Church.Decoding
import UntypedLambda.Proofs.Church.Arithmetic
import UntypedLambda.Proofs.Grammar.Names
import UntypedLambda.Proofs.Grammar.Lexeme
import UntypedLambda.Proofs.Grammar.Segmentation
import UntypedLambda.Proofs.Grammar.Legality
import UntypedLambda.Proofs.Grammar.Derivation
import UntypedLambda.Proofs.Grammar.RoundTrip
import UntypedLambda.Proofs.Grammar.Separation
import UntypedLambda.Proofs.Grammar.FirstFault
import UntypedLambda.Proofs.Text.Trimming
import UntypedLambda.Proofs.Text.Encoding
import UntypedLambda.Proofs.Session.Line
import UntypedLambda.Proofs.Session.Source
import UntypedLambda.Proofs.Session.Joining
import UntypedLambda.Proofs.Session.Reading
import UntypedLambda.Proofs.Session.WellFormed
import UntypedLambda.Proofs.Session.Locality
import UntypedLambda.Proofs.Session.Definition
import UntypedLambda.Proofs.Session.Order
import UntypedLambda.Proofs.Session.Reports
import UntypedLambda.Proofs.Session.Atomicity
import UntypedLambda.Proofs.Session.Carets
import UntypedLambda.Proofs.Session.FileRun
import UntypedLambda.Proofs.Session.Feedback
import UntypedLambda.Proofs.Shell.Turn
import UntypedLambda.Proofs.Shell.Agreement
import UntypedLambda.Proofs.Shell.Survival
import UntypedLambda.Proofs.Reduction.Checked
import UntypedLambda.Proofs.Grammar.Spacing
import UntypedLambda.Proofs.Session.Routing
import UntypedLambda.Proofs.Shell.Gap
import UntypedLambda.Proofs.Session.Standing
import UntypedLambda.Proofs.Shell.CommandWords
import UntypedLambda.Proofs.Scope.Freshness
import UntypedLambda.Proofs.Scope.Occurrences
import UntypedLambda.Proofs.Environment.Levels
import UntypedLambda.Proofs.Scope.Watched
import UntypedLambda.Proofs.Session.Outline
import UntypedLambda.Proofs.Diagnostic.Braces
import UntypedLambda.Proofs.Diagnostic.Faults
