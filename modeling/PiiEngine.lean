import PiiEngine.Lib.Collections
import PiiEngine.Lib.Intervals.Sweep
import PiiEngine.Errors
import PiiEngine.Planner.Resolution
import PiiEngine.Config.Policy
import PiiEngine.Planner.Prepare
import PiiEngine.Planner.Transform
import PiiEngine.Planner.Substitution
import PiiEngine.Config.Settings
import PiiEngine.Contracts.Report
import PiiEngine.Contracts.Segments
import PiiEngine.Policy.Model
import PiiEngine.Policy.Prepared
import PiiEngine.Policy.Transformed
import PiiEngine.Policy.Report
import PiiEngine.Policy.Plans
import PiiEngine.Policy.Analysis
import PiiEngine.Policy.Decision
import PiiEngine.Policy.Substitution
import PiiEngine.Controllers.Simulation
import PiiEngine.Controllers.Restoration
import PiiEngine.Controllers.Reversal
import PiiEngine.Lib.Transitions
import PiiEngine.Session
import PiiEngine.Runtime.Cache
import PiiEngine.Runtime.Interleaving
import PiiEngine.Runtime.Messages
import PiiEngine.Policy.McpReroute
import PiiEngine.Lib.Worklist
import PiiEngine.Lib.Json
import PiiEngine.Lib.Windows
import PiiEngine.Ner.Model
import PiiEngine.Ner.Gliner
import PiiEngine.Ner.Tokens
import PiiEngine.Lib.Expiring
import PiiEngine.Runtime.Receipts
import PiiEngine.Ner.Cache
import PiiEngine.Lib.Coroutines
import PiiEngine.Limiter
import PiiEngine.Runtime.Workers
import PiiEngine.Runtime.Capacity
import PiiEngine.Lib.Crashes
import PiiEngine.Lib.Files
import PiiEngine.Bundle.Cache
import PiiEngine.Bundle.Sync
import PiiEngine.Bundle.Verified
import PiiEngine.Bundle.Atomic
import PiiEngine.Planner.Digests
import PiiEngine.Policy.Digests
import PiiEngine.Runtime.Conversation
import PiiEngine.Planner.Containment
import PiiEngine.Policy.Diagnostics
import PiiEngine.Lib.Runs
import PiiEngine.Ner.Labels
import PiiEngine.Ner.Evidence
import PiiEngine.Ner.Local
import PiiEngine.Lib.Best
import PiiEngine.Rules.Context
import PiiEngine.Selection
import PiiEngine.Rules.Model
import PiiEngine.Rules.Threshold
import PiiEngine.Ner.Config
import PiiEngine.Ner.Remote
import PiiEngine.Ner.Assignment
import PiiEngine.Ner.Scanned
import PiiEngine.Ner.Detection
import PiiEngine.Requests.Extraction
import PiiEngine.Policy.Reported
import PiiEngine.Requests.Legacy
import PiiEngine.Requests.Paths
import PiiEngine.Policy.Visual
import PiiEngine.Planner.Completion
import PiiEngine.Policy.Completion
import PiiEngine.Planner.Placeholders
import PiiEngine.Policy.Aggregates
import PiiEngine.Policy.Order
import PiiEngine.Requests.Addresses
import PiiEngine.Requests.Envelope
import PiiEngine.Requests.RoundTrip
import PiiEngine.Requests.Structure
import PiiEngine.Lib.Streams
import PiiEngine.Requests.Admission
import PiiEngine.Policy.Masking
import PiiEngine.Lib.Programs
import PiiEngine.Ner.Budget
import PiiEngine.Lib.Bisect
import PiiEngine.Rules.Lookup
import PiiEngine.Runtime.Issues
import PiiEngine.Bundle.Checksums
import PiiEngine.Lib.Listings
import PiiEngine.Bundle.Exact
import PiiEngine.Config.Override
import PiiEngine.Config.Merge
import PiiEngine.Config.DeepMerge
import PiiEngine.Config.Preview
import PiiEngine.Runtime.Sticky
import PiiEngine.Policy.Recordable
import PiiEngine.Runtime.Recorded
import PiiEngine.Runtime.Phases
import PiiEngine.Controllers.Response
import PiiEngine.Controllers.Acceptance
import PiiEngine.Controllers.Faces
import PiiEngine.Controllers.Presentation
import PiiEngine.Controllers.Answers
import PiiEngine.Lib.Prefixes
import PiiEngine.Requests.Overwrite
import PiiEngine.Requests.Regions
import PiiEngine.Requests.Rebuild
import PiiEngine.Requests.Placement
import PiiEngine.Requests.Reread
import PiiEngine.Lib.JsonText
import PiiEngine.Requests.Nesting
import PiiEngine.Requests.Native
import PiiEngine.Requests.Edits
import PiiEngine.Requests.Replacement
import PiiEngine.Requests.Refill
import PiiEngine.Requests.Soundness
import PiiEngine.Requests.Shape
import PiiEngine.Requests.Reextraction
import PiiEngine.Requests.Lens
import PiiEngine.Requests.Frame
import PiiEngine.Requests.LegacyRebuild
import PiiEngine.Requests.Boundary
import PiiEngine.Requests.TextChecks
import PiiEngine.Requests.Retexts
import PiiEngine.Requests.TextsFit
import PiiEngine.Runtime.LegacyAnalysis
