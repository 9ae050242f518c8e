import AgentHub.Backward
import AgentHub.Budget
import AgentHub.Catalog.Equiv.Identifiers
import AgentHub.Channels.Chrono
import AgentHub.Channels.Equiv.Changes
import AgentHub.Channels.Equiv.Chrono
import AgentHub.Channels.Equiv.Direct
import AgentHub.Channels.Equiv.Entries
import AgentHub.Channels.Equiv.Exclusion
import AgentHub.Channels.Equiv.Horizon
import AgentHub.Channels.Equiv.Lifetime
import AgentHub.Channels.Equiv.Moment
import AgentHub.Channels.Equiv.Separation
import AgentHub.Channels.Equiv.Verdict
import AgentHub.Checks
import AgentHub.Cloud.Auth
import AgentHub.Cloud.BusLog
import AgentHub.Cloud.Dates
import AgentHub.Cloud.Equiv.Acks
import AgentHub.Cloud.Equiv.Auth
import AgentHub.Cloud.Equiv.BusLog
import AgentHub.Cloud.Equiv.Chronology
import AgentHub.Cloud.Equiv.Content
import AgentHub.Cloud.Equiv.Converge
import AgentHub.Cloud.Equiv.Dates
import AgentHub.Cloud.Equiv.History
import AgentHub.Cloud.Equiv.ImportRun
import AgentHub.Cloud.Equiv.Js
import AgentHub.Cloud.Equiv.Mcp
import AgentHub.Cloud.Equiv.Posts
import AgentHub.Cloud.Equiv.Pull
import AgentHub.Cloud.Equiv.Push
import AgentHub.Cloud.Equiv.Schemas
import AgentHub.Cloud.Equiv.Serve
import AgentHub.Cloud.Equiv.Speech
import AgentHub.Cloud.Equiv.Store
import AgentHub.Cloud.History
import AgentHub.Cloud.Import
import AgentHub.Cloud.ImportRun
import AgentHub.Cloud.Js
import AgentHub.Cloud.Mcp
import AgentHub.Cloud.Post
import AgentHub.Cloud.Serve
import AgentHub.Cloud.Store
import AgentHub.Cloud.Validation
import AgentHub.Cloud.Worker
import AgentHub.CloudTokens.Commands
import AgentHub.CloudTokens.Equiv.Commands
import AgentHub.CloudTokens.Equiv.Map
import AgentHub.CloudTokens.Map
import AgentHub.Dedup
import AgentHub.Export.Equiv.Journal
import AgentHub.Export.Equiv.Stream
import AgentHub.Export.Equiv.Union
import AgentHub.Export.Journal
import AgentHub.Export.Stream
import AgentHub.Export.Union
import AgentHub.Firsts
import AgentHub.Framing
import AgentHub.Glob
import AgentHub.Hub.Accept
import AgentHub.Hub.Equiv.Claims
import AgentHub.Hub.Equiv.History
import AgentHub.Hub.Equiv.Inbox
import AgentHub.Hub.Equiv.Markers
import AgentHub.Hub.Equiv.Messages
import AgentHub.Hub.Equiv.Post
import AgentHub.Hub.Equiv.Threads
import AgentHub.Hub.History
import AgentHub.Hub.Markers
import AgentHub.Json.Document
import AgentHub.Json.Equiv.Document
import AgentHub.Json.Equiv.Pretty
import AgentHub.Json.Equiv.RoundTrip
import AgentHub.Json.Equiv.Sorted
import AgentHub.Json.Equiv.Utf8
import AgentHub.Json.Pretty
import AgentHub.Json.Text
import AgentHub.Json.Value
import AgentHub.Keys
import AgentHub.Latest
import AgentHub.Lines
import AgentHub.Loop
import AgentHub.Machine
import AgentHub.Network.Equiv.Completeness
import AgentHub.Network.Equiv.Content
import AgentHub.Network.Equiv.Doors
import AgentHub.Network.Equiv.Exchange
import AgentHub.Network.Equiv.Fleet
import AgentHub.Network.Equiv.Lineage
import AgentHub.Network.Exchange
import AgentHub.Network.Location
import AgentHub.Network.Replication
import AgentHub.Outbox.Bytes
import AgentHub.Outbox.Client
import AgentHub.Outbox.Equiv.Answers
import AgentHub.Outbox.Equiv.Bytes
import AgentHub.Outbox.Equiv.Client
import AgentHub.Outbox.Equiv.Journal
import AgentHub.Outbox.Equiv.Log
import AgentHub.Outbox.Equiv.Steps
import AgentHub.Outbox.Equiv.Store
import AgentHub.Outbox.Equiv.Submit
import AgentHub.Outbox.Equiv.Truncation
import AgentHub.Outbox.Journal
import AgentHub.Outbox.Record
import AgentHub.Outbox.Store
import AgentHub.Outbox.Submit
import AgentHub.Output.Equiv.Minimal
import AgentHub.Output.Equiv.Token
import AgentHub.Output.Minimal
import AgentHub.Output.Token
import AgentHub.Paging
import AgentHub.Postgres.Equiv.Flush
import AgentHub.Postgres.Equiv.Persist
import AgentHub.Postgres.Equiv.Writer
import AgentHub.Postgres.Persist
import AgentHub.Postgres.Writer
import AgentHub.Program
import AgentHub.Resume
import AgentHub.Routes.Candidates
import AgentHub.Routes.Configuration
import AgentHub.Routes.Equiv.Agree
import AgentHub.Routes.Equiv.Auth
import AgentHub.Routes.Equiv.Configuration
import AgentHub.Routes.Equiv.Fingerprint
import AgentHub.Routes.Equiv.Partition
import AgentHub.Routes.Equiv.Plan
import AgentHub.Routes.Equiv.Resolve
import AgentHub.Routes.Equiv.Serial
import AgentHub.Routes.Fingerprint
import AgentHub.Routes.Race
import AgentHub.Routes.Resolve
import AgentHub.Stopping
import AgentHub.Stores.Consistency
import AgentHub.Stores.Equiv.Consistency
import AgentHub.Stores.Equiv.Reconcile
import AgentHub.Stores.Equiv.Retention
import AgentHub.Stores.Reconcile
import AgentHub.Subscriptions.Equiv.Lease
import AgentHub.Subscriptions.Equiv.Store
import AgentHub.Subscriptions.Lease
import AgentHub.Subscriptions.Store
import AgentHub.Sync.Engine
import AgentHub.Sync.Equiv.Entry
import AgentHub.Sync.Equiv.Ingest
import AgentHub.Sync.Equiv.Merge
import AgentHub.Sync.Equiv.Outcome
import AgentHub.Sync.Equiv.Posted
import AgentHub.Sync.Equiv.Presence
import AgentHub.Sync.Equiv.Pull
import AgentHub.Sync.Equiv.Push
import AgentHub.Sync.Ingest
import AgentHub.Sync.Merge
import AgentHub.Sync.Message
import AgentHub.Table
import AgentHub.Tasks.Equiv.Queue
import AgentHub.Tasks.Queue
import AgentHub.Tenure
import AgentHub.Text
import AgentHub.Text.Search
import AgentHub.ToolSchema
import AgentHub.Uri.Equiv.Router
import AgentHub.Uri.Equiv.Url
import AgentHub.Uri.Router
import AgentHub.Uri.Url
import AgentHub.Validation
import AgentHub.Validation.Equiv.Schema
