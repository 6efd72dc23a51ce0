import SchemaNormal.Change
import SchemaNormal.Cli.Arguments
import SchemaNormal.Cli.Command
import SchemaNormal.Cli.Disk
import SchemaNormal.Cli.Help
import SchemaNormal.Cli.Plan
import SchemaNormal.Cli.Request
import SchemaNormal.Decimal.Shortest
import SchemaNormal.Event
import SchemaNormal.Failure
import SchemaNormal.Format.Options
import SchemaNormal.Format.Report
import SchemaNormal.Format.Schema
import SchemaNormal.Format.Text
import SchemaNormal.Json.Basic
import SchemaNormal.Json.Fault
import SchemaNormal.Json.Kind
import SchemaNormal.Json.Node
import SchemaNormal.Json.Number
import SchemaNormal.Json.Reader
import SchemaNormal.Json.Record
import SchemaNormal.Json.Scan
import SchemaNormal.Json.Scan.OpenNumber
import SchemaNormal.Json.Scan.OpenString
import SchemaNormal.Json.Writer
import SchemaNormal.Main
import SchemaNormal.Normalize
import SchemaNormal.Options
import SchemaNormal.Pass.DigitPrefix
import SchemaNormal.Pass.Lifting
import SchemaNormal.Pass.Result
import SchemaNormal.Pass.ZeroValue
import SchemaNormal.Schema.Basic
import SchemaNormal.Schema.Edit
import SchemaNormal.Schema.Grouping
import SchemaNormal.Schema.Name
import SchemaNormal.Schema.Scope
import SchemaNormal.Schema.Visit
import SchemaNormal.Session
import SchemaNormal.Text.Hidden
import SchemaNormal.Text.Quoted
import SchemaNormal.Text.Terminal
import SchemaNormal.Proofs.Schema.Members
import SchemaNormal.Proofs.Schema.Nested
import SchemaNormal.Proofs.Lifting.Strip
import SchemaNormal.Proofs.Schema.Grouping
import SchemaNormal.Proofs.Schema.Positions
import SchemaNormal.Proofs.Schema.Agreement
import SchemaNormal.Proofs.Lifting.Walk
import SchemaNormal.Proofs.Lifting.Survival
import SchemaNormal.Proofs.Lifting.Counts
import SchemaNormal.Proofs.Enums.Edit
import SchemaNormal.Proofs.Enums.Passes
import SchemaNormal.Proofs.Normalize.Guarantees
import SchemaNormal.Proofs.Lifting.Clashes
import SchemaNormal.Proofs.Except
import SchemaNormal.Proofs.Json.Spelling
import SchemaNormal.Proofs.Json.Located
import SchemaNormal.Proofs.Json.Scan.Tokens
import SchemaNormal.Proofs.Json.Scan.Values
import SchemaNormal.Proofs.Json.Description
import SchemaNormal.Proofs.Json.Layouts
import SchemaNormal.Proofs.Json.Reading
import SchemaNormal.Proofs.Json.Slots
import SchemaNormal.Proofs.Json.Records
import SchemaNormal.Proofs.Json.Kinds
import SchemaNormal.Proofs.Json.Reordered
import SchemaNormal.Proofs.Format.Described
import SchemaNormal.Proofs.Format.Depth
import SchemaNormal.Proofs.Format.Levels
import SchemaNormal.Proofs.Format.Written
import SchemaNormal.Proofs.Format.Texts
import SchemaNormal.Proofs.Format.Identity
import SchemaNormal.Proofs.Format.RoundTrip
import SchemaNormal.Proofs.Format.Options
import SchemaNormal.Proofs.Format.Picked
import SchemaNormal.Proofs.Format.Changes
import SchemaNormal.Proofs.Format.Report
import SchemaNormal.Proofs.Format.MemberOrder
import SchemaNormal.Proofs.Format.Fits
import SchemaNormal.Proofs.Normalize.Bridge
import SchemaNormal.Proofs.Lifting.Reordering
import SchemaNormal.Proofs.Lifting.Convergence
import SchemaNormal.Proofs.Lifting.Rerun
import SchemaNormal.Proofs.Enums.Lifting
import SchemaNormal.Proofs.Enums.Placed
import SchemaNormal.Proofs.Schema.Chains
import SchemaNormal.Proofs.Enums.Visits
import SchemaNormal.Proofs.Enums.Changes
import SchemaNormal.Proofs.Enums.Idle
import SchemaNormal.Proofs.Enums.Effects
import SchemaNormal.Proofs.Enums.Collisions
import SchemaNormal.Proofs.Normalize.EnumPasses
import SchemaNormal.Proofs.Normalize.Staged
import SchemaNormal.Proofs.Normalize.Stability
import SchemaNormal.Proofs.Normalize.Places
import SchemaNormal.Proofs.Normalize.Paths
import SchemaNormal.Proofs.Normalize.Log
import SchemaNormal.Proofs.Json.Blanks
import SchemaNormal.Proofs.Cli.Disk
import SchemaNormal.Proofs.Cli.Plans
import SchemaNormal.Proofs.Cli.Stages
import SchemaNormal.Proofs.Cli.Failures
import SchemaNormal.Proofs.Cli.Agreement
import SchemaNormal.Proofs.Cli.Ways
import SchemaNormal.Proofs.Cli.Merging
