import GeoRisk.Kit.Run
import GeoRisk.Kit.Text
import GeoRisk.Kit.Rounding
import GeoRisk.Kit.Session
import GeoRisk.Kit.Paging
import GeoRisk.Kit.Table
import GeoRisk.Kit.Template
import GeoRisk.Kit.Growth
import GeoRisk.Kit.Mirror
import GeoRisk.Kit.Join
import GeoRisk.Kit.Tiling
import GeoRisk.Kit.Double
import GeoRisk.Kit.Roundoff
import GeoRisk.Text.Unicode
import GeoRisk.Text.Normalise
import GeoRisk.Text.Calendar
import GeoRisk.Text.Format
import GeoRisk.Text.Number
import GeoRisk.Text.MailDate
import GeoRisk.Schema.Taxonomy
import GeoRisk.Schema.Extraction
import GeoRisk.Ingest.Item
import GeoRisk.Ingest.NormalForm
import GeoRisk.Ingest.Identity
import GeoRisk.Processing.Verify
import GeoRisk.Processing.Minimum
import GeoRisk.Processing.Confidence
import GeoRisk.Processing.Consolidate
import GeoRisk.Processing.Extract
import GeoRisk.Processing.Prompts
import GeoRisk.Processing.Provider
import GeoRisk.Processing.Chunk
import GeoRisk.Processing.Cover
import GeoRisk.Processing.Closings
import GeoRisk.Processing.Tail
import GeoRisk.Processing.Cluster
import GeoRisk.Store.Tables
import GeoRisk.Store.Constraints
import GeoRisk.Processing.Merge
import GeoRisk.Processing.Pipeline
import GeoRisk.Processing.Effect
import GeoRisk.Processing.Settled
import GeoRisk.Processing.Shelf
import GeoRisk.Processing.Written
import GeoRisk.Processing.Search
import GeoRisk.Processing.Grounding
import GeoRisk.Review.Decision
import GeoRisk.Review.State
import GeoRisk.Review.Steps
import GeoRisk.Review.Audit
import GeoRisk.Record.Run
import GeoRisk.Record.History
import GeoRisk.Record.Integrity
import GeoRisk.Record.Gate
import GeoRisk.Record.Lowered
import GeoRisk.Record.Additions
import GeoRisk.Record.Note
import GeoRisk.Record.Telemetry
import GeoRisk.Record.Storable
import GeoRisk.Record.Clusters
import GeoRisk.Record.Homes
import GeoRisk.Record.Established
import GeoRisk.Record.Race
import GeoRisk.Record.Overlap
import GeoRisk.Record.Order
import GeoRisk.Record.Facts
import GeoRisk.Record.Assembly
import GeoRisk.Record.Freeze
import GeoRisk.Queue.Pending
import GeoRisk.Queue.Ticks
import GeoRisk.Queue.Budget
import GeoRisk.Queue.Retries
import GeoRisk.Queue.Workers
import GeoRisk.Queue.Drain
import GeoRisk.Evaluation.Dataset
import GeoRisk.Evaluation.Harness
import GeoRisk.Evaluation.History
import GeoRisk.Ingest.Raw
import GeoRisk.Ingest.Batch
import GeoRisk.Ingest.Runner
import GeoRisk.Ingest.Block
import GeoRisk.Ingest.Registry
import GeoRisk.Ingest.Intake
import GeoRisk.System.Steps
import GeoRisk.System.Policy
import GeoRisk.System.Ledger
import GeoRisk.System.History
import GeoRisk.System.Integrity
import GeoRisk.System.Served
import GeoRisk.System.Chunks
import GeoRisk.System.Once
import GeoRisk.System.Releases
import GeoRisk.System.Billing
import GeoRisk.System.Provenance
import GeoRisk.Ingest.Cadence
import GeoRisk.Ingest.Crash
import GeoRisk.Ingest.JsonApi
import GeoRisk.Ingest.Fetch
import GeoRisk.Ingest.Validators
import GeoRisk.Ingest.Redirects
import GeoRisk.Product.Desk
import GeoRisk.Product.Detail
import GeoRisk.Product.Events
import GeoRisk.Product.Locations
import GeoRisk.Product.Briefing
import GeoRisk.Product.Twins
import GeoRisk.Product.Account
import GeoRisk.Product.Repeat
import GeoRisk.Product.Paging
import GeoRisk.Product.Literal
