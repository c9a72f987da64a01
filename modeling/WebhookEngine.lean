import WebhookEngine.Lib.Prog
import WebhookEngine.Lib.Run
import WebhookEngine.Lib.Table
import WebhookEngine.Lib.Keyset
import WebhookEngine.Lib.Encodings
import WebhookEngine.Model.Schema
import WebhookEngine.Model.Postgres
import WebhookEngine.Model.Redis
import WebhookEngine.Model.Queue
import WebhookEngine.Model.Effects
import WebhookEngine.Model.Repo
import WebhookEngine.Model.Worker
import WebhookEngine.Model.Api
import WebhookEngine.Model.System
import WebhookEngine.Model.Listing
import WebhookEngine.Model.Receiver
import WebhookEngine.Proof.Discipline
import WebhookEngine.Proof.Programs
import WebhookEngine.Proof.Tables
import WebhookEngine.Proof.Steps
import WebhookEngine.Proof.Queue
import WebhookEngine.Proof.Sessions
import WebhookEngine.Proof.Commits
import WebhookEngine.Proof.Calls
import WebhookEngine.Proof.History
import WebhookEngine.Proof.Attempts
import WebhookEngine.Proof.AuditLog
import WebhookEngine.Proof.Outcomes
import WebhookEngine.Proof.Delivered
import WebhookEngine.Proof.Requests
import WebhookEngine.Proof.Phases
import WebhookEngine.Proof.Chain
import WebhookEngine.Proof.Stranded
import WebhookEngine.Proof.Sweep
import WebhookEngine.Proof.FastPath
import WebhookEngine.Proof.Idempotency
import WebhookEngine.Proof.Locks
import WebhookEngine.Proof.Breaker
import WebhookEngine.Proof.Probe
import WebhookEngine.Proof.Plain
import WebhookEngine.Proof.Tokens
import WebhookEngine.Proof.LiveJobs
import WebhookEngine.Proof.Intake
import WebhookEngine.Proof.Creation
import WebhookEngine.Proof.Listing
import WebhookEngine.Proof.Walks
import WebhookEngine.Proof.Course
import WebhookEngine.Proof.References
import WebhookEngine.Proof.Turns
import WebhookEngine.Proof.Owners
import WebhookEngine.Proof.Budget
import WebhookEngine.Proof.Exhausted
import WebhookEngine.Proof.Pipeline
import WebhookEngine.Proof.TerminalLock
import WebhookEngine.Proof.Reports
import WebhookEngine.Proof.Delayed
import WebhookEngine.Proof.Healing
import WebhookEngine.Proof.Burst
import WebhookEngine.Proof.Retry
import WebhookEngine.Proof.RetryOnce
import WebhookEngine.Proof.HalfDone
import WebhookEngine.Proof.Handler
import WebhookEngine.Proof.Parked
import WebhookEngine.Proof.Sequel
import WebhookEngine.Proof.Unrecorded
import WebhookEngine.Proof.Emitted
import WebhookEngine.Proof.Verdicts
import WebhookEngine.Proof.Derived
import WebhookEngine.Proof.Schedule
import WebhookEngine.Proof.Signatures
import WebhookEngine.Proof.DlqListing
import WebhookEngine.Proof.BadInput
import WebhookEngine.Proof.Detail
import WebhookEngine.Proof.Memo
import WebhookEngine.Proof.Deadlock
import WebhookEngine.Proof.Chronicle
import WebhookEngine.Proof.Integrity
import WebhookEngine.Proof.Attribution
import WebhookEngine.Proof.Recovery
import WebhookEngine.Proof.Claiming
import WebhookEngine.Proof.Isolation
import WebhookEngine.Proof.Reloads
import WebhookEngine.Proof.Endpoints
import WebhookEngine.Proof.Refusals
import WebhookEngine.Proof.Backpressure
