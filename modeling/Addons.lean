import Addons.Table
import Addons.Number.Double
import Addons.Number.Shortest
import Addons.Json.Basic
import Addons.Json.Reader
import Addons.Json.Writer
import Addons.Text
import Addons.Digest
import Addons.Time.Span
import Addons.Time.Instant
import Addons.Yaml.Cursor
import Addons.Yaml.Token
import Addons.Yaml.Token.Scalar
import Addons.Yaml.Token.Property
import Addons.Yaml.Token.Lexer
import Addons.Yaml.Node
import Addons.Yaml.Node.OfTokens
import Addons.Yaml.Scalar
import Addons.Yaml.Value
import Addons.Yaml.Printer
import Addons.Codec
import Addons.Error
import Addons.Status
import Addons.Manifest.Tracked
import Addons.Manifest.Image
import Addons.Manifest.Patch
import Addons.Manifest.Render
import Addons.Object.TypeRef
import Addons.Object.Metadata
import Addons.Object.Basic
import Addons.Object.Prepare
import Addons.Object.Applied
import Addons.Workload.Shape
import Addons.Workload.Deployment
import Addons.Workload.Health
import Addons.Schema.Basic
import Addons.Schema.Document
import Addons.Store.Session
import Addons.Store.Memory
import Addons.Store.Upsert
import Addons.Resource.Basic
import Addons.Resource.Component
import Addons.Resource.Record
import Addons.Component.Produced
import Addons.Resource.Composite
import Addons.Component.Timeout
import Addons.Component.Bundle
import Addons.Resource.Schema
import Addons.Resource.Definition
import Addons.Composite.Reconcile
import Addons.Composite.Rollup
import Addons.Operator.Install
import Addons.Operator.Publish
import Addons.Operator.Controller
import Addons.Command.Arguments
import Addons.Command.Help
import Addons.Command.LogFilter
import Addons.Operator.Settings
import Addons.Command.Invocation
import Addons.Main
import Addons.Store.Exchange
import Addons.Store.Cluster
import Addons.Source.Domain
import Addons.Source.WebHost
import Addons.Source.Address
import Addons.Source.Fetch
import Addons.Proofs.Table
import Addons.Proofs.Text
import Addons.Proofs.Json.Same
import Addons.Proofs.Store.Runs
import Addons.Proofs.Store.Requests
import Addons.Proofs.Store.Journal
import Addons.Proofs.Object.Identity
import Addons.Proofs.Object.Selecting
import Addons.Proofs.Store.Filed
import Addons.Proofs.Resource.Reading
import Addons.Proofs.Bundle.Entries
import Addons.Proofs.Bundle.Pass
import Addons.Proofs.Bundle.Simulation
import Addons.Proofs.Bundle.Calls
import Addons.Proofs.Bundle.Success
import Addons.Proofs.Bundle.Settled
import Addons.Proofs.Bundle.Convergence
import Addons.Proofs.Bundle.Frame
import Addons.Proofs.Bundle.Strays
import Addons.Proofs.Bundle.Shortcut
import Addons.Proofs.Composite.Owned
import Addons.Proofs.Composite.Pass
import Addons.Proofs.Composite.Convergence
import Addons.Proofs.Json.Subset
import Addons.Proofs.Object.Ordered
import Addons.Proofs.Store.Upserts
import Addons.Proofs.Component.Redeclared
import Addons.Proofs.Component.Rescoped
import Addons.Proofs.Bundle.Progress
import Addons.Proofs.Bundle.Shared
import Addons.Proofs.Operator.BadInput
import Addons.Proofs.Operator.Faults
import Addons.Proofs.Time.Calendar
import Addons.Proofs.Time.Written
import Addons.Proofs.Store.Stamps
import Addons.Proofs.Component.Window
import Addons.Proofs.Operator.Spacing
import Addons.Proofs.Composite.Frame
import Addons.Proofs.Composite.Isolation
import Addons.Proofs.Composite.Idempotence
import Addons.Proofs.Composite.Progress
import Addons.Proofs.Component.Sourced
import Addons.Proofs.Store.Turns
import Addons.Proofs.Store.Races
import Addons.Proofs.Store.Versions
import Addons.Proofs.Composite.Health
import Addons.Proofs.Time.Spans
import Addons.Proofs.Resource.Lasting
import Addons.Proofs.Resource.Stored
import Addons.Proofs.Operator.Validity
import Addons.Proofs.Operator.History
import Addons.Proofs.Manifest.Reread
import Addons.Proofs.Json.Merged
import Addons.Proofs.Manifest.Images
import Addons.Proofs.Store.Contacts
import Addons.Proofs.Store.Deletions
import Addons.Proofs.Bundle.Removing
import Addons.Proofs.Store.Desired
import Addons.Proofs.Manifest.References
import Addons.Proofs.Composite.Severity
import Addons.Proofs.Component.Polls
import Addons.Proofs.Workload.Verdicts
import Addons.Proofs.Workload.Observed
import Addons.Proofs.Component.Overdue
import Addons.Proofs.Object.Prepared
import Addons.Proofs.Composite.Account
import Addons.Proofs.Store.Replay
import Addons.Proofs.Object.Addressed
import Addons.Proofs.Bundle.Roster
import Addons.Proofs.Composite.Listings
