import Treewalk.Console
import Treewalk.Main
import Treewalk.Session
import Treewalk.Proofs.Parsing.Clean
import Treewalk.Proofs.Parsing.Grammar
import Treewalk.Proofs.Parsing.Soundness
import Treewalk.Proofs.Parsing.Completeness
import Treewalk.Proofs.Parsing.Acceptance
import Treewalk.Proofs.Parsing.Built
import Treewalk.Proofs.Parsing.Locality
import Treewalk.Proofs.Parsing.Bounds
import Treewalk.Proofs.Parsing.Boundaries
import Treewalk.Proofs.Lexing.Grammar
import Treewalk.Proofs.Lexing.Munch
import Treewalk.Proofs.Lexing.Segmentation
import Treewalk.Proofs.Lexing.Lines
import Treewalk.Proofs.Lexing.Rescan
import Treewalk.Proofs.Machine.Built
import Treewalk.Proofs.Parsing.Relabelling
import Treewalk.Proofs.Machine.Fuel
import Treewalk.Proofs.Machine.Returns
import Treewalk.Proofs.Units
import Treewalk.Proofs.Scopes
import Treewalk.Proofs.Machine.Growth
import Treewalk.Proofs.Policy
import Treewalk.Proofs.Parsing.Results
import Treewalk.Proofs.ScopeEffects
import Treewalk.Proofs.Machine.Obedience
import Treewalk.Proofs.Machine.Activity
import Treewalk.Proofs.Session.Reachable
import Treewalk.Proofs.Machine.Errors
import Treewalk.Proofs.Session.Safety
import Treewalk.Proofs.Likeness.Store
import Treewalk.Proofs.Likeness.Run
import Treewalk.Proofs.Likeness.Evaluation
import Treewalk.Proofs.Likeness.Parsing
import Treewalk.Proofs.Likeness.Session
import Treewalk.Proofs.Session.Reset
import Treewalk.Proofs.Session.Layout
import Treewalk.Proofs.Views.Store
import Treewalk.Proofs.Views.Run
import Treewalk.Proofs.Views.Session
import Treewalk.Proofs.WellFormed
import Treewalk.Proofs.Session.ScopeGraph
import Treewalk.Proofs.Tasks
import Treewalk.Proofs.Closed
import Treewalk.Proofs.Locality
import Treewalk.Proofs.Views.Resemblance
import Treewalk.Proofs.ForLoops
import Treewalk.Proofs.Sinks
import Treewalk.Proofs.Parsing.Places
import Treewalk.Proofs.Parsing.Progress
import Treewalk.Proofs.Parsing.Plan
import Treewalk.Proofs.Parsing.ReturnPlaces
import Treewalk.Proofs.Parsing.Attempts
import Treewalk.Proofs.Parsing.Recovery
import Treewalk.Proofs.Lexing.Order
import Treewalk.Proofs.Diagnostics
import Treewalk.Proofs.Session.Provenance
import Treewalk.Proofs.Printing
import Treewalk.Proofs.Strings
import Treewalk.Proofs.Bindings
import Treewalk.Proofs.Grouping
import Treewalk.Proofs.Machine.Recorded
import Treewalk.Proofs.Session.Identity
import Treewalk.Proofs.Texts.Number
import Treewalk.Proofs.Texts.Quoted
import Treewalk.Proofs.Texts.Expr
import Treewalk.Proofs.Lexing.Reading
import Treewalk.Proofs.Texts.ReadBack
import Treewalk.Proofs.Numbers
import Treewalk.Proofs.Lexing.Margins
import Treewalk.Proofs.TypedLines
