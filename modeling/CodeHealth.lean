import CodeHealth.Project.Analysis
import CodeHealth.Refactor.Suggest
import CodeHealth.Settings
import CodeHealth.Proofs.Partition.Root
import CodeHealth.Proofs.Partition.Union
import CodeHealth.Proofs.Duplicate.Linking
import CodeHealth.Proofs.Partition.Classes
import CodeHealth.Proofs.Partition.Calls
import CodeHealth.Proofs.Duplicate.Passes
import CodeHealth.Proofs.Duplicate.Block
import CodeHealth.Proofs.Duplicate.Report
import CodeHealth.Proofs.Duplicate.Grouping
import CodeHealth.Proofs.Duplicate.Budget
import CodeHealth.Proofs.Code.Function
import CodeHealth.Proofs.Tree.Parse
import CodeHealth.Proofs.Number.Rounding
import CodeHealth.Proofs.Alignment.Align
import CodeHealth.Proofs.Tally
import CodeHealth.Proofs.Sorting
import CodeHealth.Proofs.Duplicate.Record
import CodeHealth.Proofs.Project.Analysis
import CodeHealth.Project.Schedule
import CodeHealth.Proofs.Project.Schedule
import CodeHealth.Proofs.Issue.Merge
import CodeHealth.Proofs.Issue.Winner
import CodeHealth.Proofs.Detector.Battery
import CodeHealth.Proofs.Detector.Failure
import CodeHealth.Proofs.Detector.Order
import CodeHealth.Proofs.Duplicate.Identity
import CodeHealth.Proofs.Project.Identity
import CodeHealth.Proofs.Project.Order
import CodeHealth.Proofs.Project.Account
import CodeHealth.Proofs.Project.Sharing
import CodeHealth.Proofs.Refactor.Check
import CodeHealth.Proofs.Refactor.Verify
import CodeHealth.Proofs.Alignment.Diagonal
import CodeHealth.Proofs.Refactor.Change
import CodeHealth.Proofs.Refactor.Outcome
import CodeHealth.Proofs.Refactor.Rename
import CodeHealth.Proofs.Refactor.Settings
import CodeHealth.Proofs.Text.Line
import CodeHealth.Proofs.Text.Part
import CodeHealth.Proofs.Pattern.Capture
import CodeHealth.Proofs.Security.Scan
import CodeHealth.Proofs.Security.Mask
import CodeHealth.Proofs.Security.Hit
import CodeHealth.Proofs.Security.Rule
import CodeHealth.Proofs.Refactor.Emptied
import CodeHealth.Proofs.Refactor.Signature
import CodeHealth.Proofs.Refactor.Exposure
import CodeHealth.Proofs.Refactor.Chain
import CodeHealth.Proofs.Refactor.Target
import CodeHealth.Proofs.Security.Secret
import CodeHealth.Proofs.Tree.Spot
import CodeHealth.Proofs.Code.Decision
import CodeHealth.Proofs.Number.Order
import CodeHealth.Proofs.Tally.Overlap
import CodeHealth.Proofs.Duplicate.Comparison
import CodeHealth.Proofs.Duplicate.Words
import CodeHealth.Proofs.Alignment.Ratio
import CodeHealth.Proofs.Alignment.Ties
import CodeHealth.Proofs.Duplicate.Shapes
import CodeHealth.Proofs.Duplicate.ShapeOrder
import CodeHealth.Proofs.Duplicate.Taken
import CodeHealth.Proofs.Duplicate.Calls
import CodeHealth.Proofs.Duplicate.Evidence
import CodeHealth.Proofs.Duplicate.LargerBudget
import CodeHealth.Proofs.Tree.Layout
import CodeHealth.Proofs.Duplicate.Layout
import CodeHealth.Proofs.Duplicate.Tokens
import CodeHealth.Proofs.Tree.Listing
import CodeHealth.Proofs.Tree.Truncation
import CodeHealth.Proofs.Issue.Incremental
import CodeHealth.Proofs.Pattern.Matches
import CodeHealth.Proofs.Security.Placeholder
import CodeHealth.Proofs.Pattern.Lead
import CodeHealth.Proofs.Security.AssignedName
import CodeHealth.Proofs.Security.Credential
import CodeHealth.Proofs.Tree.Enclosing
import CodeHealth.Proofs.Code.Scope
import CodeHealth.Proofs.Code.Method
import CodeHealth.Proofs.Detector.OwnBody
import CodeHealth.Proofs.Code.Parameter
import CodeHealth.Proofs.Tree.Place
import CodeHealth.Proofs.Code.Nesting
import CodeHealth.Proofs.Detector.MagicNumber
import CodeHealth.Proofs.Detector.Unreachable
import CodeHealth.Proofs.Tree.Config
import CodeHealth.Proofs.Tree.Extent
import CodeHealth.Proofs.Refactor.Findings
import CodeHealth.Proofs.Refactor.Fence
import CodeHealth.Proofs.Refactor.Introduced
import CodeHealth.Proofs.Security.Scope
import CodeHealth.Proofs.Refactor.Hint
import CodeHealth.Proofs.Refactor.Suggest
import CodeHealth.Proofs.Project.Exchange
import CodeHealth.Proofs.Record.RoundTrip
