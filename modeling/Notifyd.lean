import Notifyd.Runs
import Notifyd.Domain
import Notifyd.Store
import Notifyd.Calls
import Notifyd.Pipeline
import Notifyd.Outbox
import Notifyd.Create
import Notifyd.Delivery
import Notifyd.Steps
import Notifyd.Frames
import Notifyd.Terminal
import Notifyd.Ownership
import Notifyd.Routing
import Notifyd.Stranding
import Notifyd.AttemptBudget
import Notifyd.ReplayRace
import Notifyd.Expiring
import Notifyd.Idempotency
import Notifyd.Durability
import Notifyd.Isolation
import Notifyd.Validate
import Notifyd.Batch
import Notifyd.BatchRepeats
import Notifyd.TokenBucket
import Notifyd.RateLimit
import Notifyd.Reservoir
import Notifyd.Numerals
import Notifyd.Uuids
import Notifyd.JsonText
import Notifyd.Calendar
import Notifyd.Ordered
import Notifyd.AuditChain
import Notifyd.AuditRace
import Notifyd.AuditTamper
import Notifyd.Base64
import Notifyd.Cursors
import Notifyd.Reads
import Notifyd.ReadIsolation
import Notifyd.Keyset
import Notifyd.Pagination
import Notifyd.Auth
import Notifyd.Revocation
import Notifyd.Scheduling
import Notifyd.ScheduledRelease
import Notifyd.Envelopes
import Notifyd.Producers
import Notifyd.Retirement
import Notifyd.OutboxClaims
import Notifyd.FeedIsolation
import Notifyd.FeedOrder
import Notifyd.Handling
import Notifyd.ClaimReturn
import Notifyd.DeadLetters
import Notifyd.SideTables
import Notifyd.DeadLetterTable
import Notifyd.AttemptRecords
import Notifyd.CanonicalHash
import Notifyd.FilterClauses
import Notifyd.Presentation
import Notifyd.Redaction
import Notifyd.RetryAfter
import Notifyd.Ssrf
import Notifyd.BruteForce
import Notifyd.DevSeed
import Notifyd.Patterns
import Notifyd.RequiredVars
import Notifyd.Acceptance
import Notifyd.BatchAccounting
import Notifyd.Templates
import Notifyd.ColumnLimits
import Notifyd.BatchItems
import Notifyd.TemplateRetries
import Notifyd.KeyHashes
import Notifyd.ProviderClient
import Notifyd.RetryTiers
import Notifyd.UrlRedaction
import Notifyd.Truncation
import Notifyd.ThrottleLoop
import Notifyd.Clocks
import Notifyd.Recovery
import Notifyd.Deliverable
import Notifyd.Breaker
import Notifyd.Publisher
import Notifyd.Amqp
import Notifyd.Topology
