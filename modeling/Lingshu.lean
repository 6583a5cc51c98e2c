import Lingshu.Interaction.Prog
import Lingshu.Interaction.Run
import Lingshu.Interaction.Proc
import Lingshu.Interaction.Yields
import Lingshu.Json.Value
import Lingshu.Json.RoundTrip
import Lingshu.Ontology.Schema
import Lingshu.Ontology.Graph
import Lingshu.Ontology.Store
import Lingshu.Ontology.Effects
import Lingshu.Ontology.Repository
import Lingshu.Ontology.Service
import Lingshu.Ontology.Calls
import Lingshu.Ontology.Runs
import Lingshu.Ontology.Identity
import Lingshu.Ontology.Versions
import Lingshu.Ontology.Published
import Lingshu.Ontology.Cascade
import Lingshu.Ontology.Replacements
import Lingshu.Ontology.Lifecycle
import Lingshu.Ontology.Commit
import Lingshu.Ontology.Restoration
import Lingshu.Ontology.Flags
import Lingshu.Ontology.Reads
import Lingshu.Ontology.Visibility
import Lingshu.Ontology.DraftLeaks
import Lingshu.Ontology.Current
import Lingshu.Ontology.Properties
import Lingshu.Ontology.Names
import Lingshu.Ontology.Inheritance
import Lingshu.Ontology.Contracts
import Lingshu.Ontology.References
import Lingshu.Ontology.Snapshots
import Lingshu.Ontology.EditLocks
import Lingshu.Ontology.SchemaCache
import Lingshu.Ontology.Cycles
import Lingshu.Ontology.Discards
import Lingshu.Ontology.MappingPages
import Lingshu.Setting.Runs
import Lingshu.Setting.Effects
import Lingshu.Setting.Startup
import Lingshu.Setting.Rules
import Lingshu.Setting.Confinement
import Lingshu.Setting.Restarts
import Lingshu.Setting.Decisions
import Lingshu.Setting.Tokens
import Lingshu.Setting.Admins
import Lingshu.Setting.Removals
import Lingshu.Setting.Rotation
import Lingshu.Setting.Middleware
import Lingshu.Setting.Mediation
import Lingshu.Function.Confirmation
import Lingshu.Function.Requests
import Lingshu.Function.Gate
import Lingshu.Function.WriteBack
import Lingshu.Function.Loading
import Lingshu.Function.Batches
import Lingshu.Function.Binds
import Lingshu.Data.ReadAfterWrite
import Lingshu.Data.Merge
import Lingshu.Data.Backends
import Lingshu.Data.Masking
import Lingshu.Data.Disclosure
import Lingshu.Data.Filtering
import Lingshu.Data.Computed
import Lingshu.Data.Paging
import Lingshu.Copilot.Pairing
import Lingshu.Copilot.Dispatch
import Lingshu.Copilot.PendingWrites
import Lingshu.Copilot.Ownership
import Lingshu.Copilot.Interrupts
import Lingshu.Workflow.Safety
import Lingshu.Workflow.Grammar
import Lingshu.Workflow.Failures
import Lingshu.Workflow.Reports
import Lingshu.Data.RowLock
import Lingshu.Data.Injection
import Lingshu.Data.Recent
import Lingshu.Data.Agreement
import Lingshu.Infra.Rid
import Lingshu.Setting.Revocation
import Lingshu.Setting.Sso
import Lingshu.Copilot.Stream
import Lingshu.Copilot.Shell
import Lingshu.Copilot.Models
import Lingshu.Frontend.Tabs
import Lingshu.Frontend.Layout
import Lingshu.Function.Globals
import Lingshu.Function.Versions
import Lingshu.Ontology.Encoding
import Lingshu.Data.Compaction
import Lingshu.Ontology.FieldDiff
import Lingshu.Data.Codec
import Lingshu.Ontology.SnapshotDiff
import Lingshu.Interaction.Isolation
import Lingshu.Ontology.Tenants
import Lingshu.Ontology.Secluded
import Lingshu.Ontology.Relationships
import Lingshu.Interaction.Typestate
import Lingshu.Ontology.History
import Lingshu.Text.Chunks
import Lingshu.Text.Utf8
import Lingshu.Json.Raw
import Lingshu.Frontend.Sse
import Lingshu.Copilot.Replies
import Lingshu.Frontend.Chat
import Lingshu.Frontend.Conversation
import Lingshu.Interaction.Journal
import Lingshu.Function.Ledger
import Lingshu.Function.Postings
import Lingshu.Function.Accounts
import Lingshu.Function.Bookkeeping
