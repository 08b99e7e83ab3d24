import Callora.Library.AppendLog
import Callora.Library.Breaker
import Callora.Library.Call
import Callora.Library.Custody
import Callora.Library.Handover
import Callora.Library.Journal
import Callora.Library.Machine
import Callora.Library.MachineInt
import Callora.Library.Paging
import Callora.Library.Quota
import Callora.Library.Shared
import Callora.Library.SortedMap
import Callora.Library.Store
import Callora.Library.Timelock
import Callora.Library.TokenBucket
import Callora.Library.Traced
import Callora.Host
import Callora.Settlement.Types
import Callora.Settlement.Payments
import Callora.Settlement.Governance
import Callora.Settlement.Run
import Callora.Settlement.Accounting
import Callora.Settlement.Replay
import Callora.Settlement.Authority
import Callora.Settlement.Principals
import Callora.Settlement.Proposals
import Callora.Settlement.Batch
import Callora.Settlement.Index
import Callora.Settlement.Limits
import Callora.Settlement.Migration
import Callora.Settlement.MigrationLoop
import Callora.Settlement.Events
import Callora.Settlement.Withdrawals
import Callora.Settlement.Redemption
import Callora.Settlement.WindDown
import Callora.Settlement.Offsets
import Callora.Settlement.Archive
import Callora.Settlement.Archival
import Callora.Vault.Types
import Callora.Vault.Funds
import Callora.Vault.Timelock
import Callora.Vault.Run
import Callora.Vault.Slots
import Callora.Vault.Executions
import Callora.Vault.Sequence
import Callora.Vault.Idempotency
import Callora.Vault.Solvency
import Callora.Vault.Surplus
import Callora.Vault.Rescue
import Callora.Vault.Settings
import Callora.Vault.Roles
import Callora.Vault.RateLimit
import Callora.Vault.Admission
import Callora.Vault.ColdStorage
import Callora.Vault.Validators
import Callora.System
import Callora.Payments
import Callora.RevenuePool.Authority
import Callora.RevenuePool.Accounting
import Callora.RevenuePool.Events
import Callora.RevenuePool.Drain
import Callora.RevenuePool.Batches
import Callora.RevenuePool.Chunks
import Callora.RevenuePool.Validation
import Callora.Checkpoint.Types
import Callora.Checkpoint.Records
import Callora.Checkpoint.Governance
import Callora.Checkpoint.Run
import Callora.Checkpoint.History
import Callora.Checkpoint.Batches
import Callora.Checkpoint.Ranges
import Callora.Helpers.SnapshotDiff
import Callora.Helpers.SnapshotHistory
import Callora.Rotation
import Callora.Pausing
import Callora.Deployment.Moves
import Callora.Deployment.Clients
import Callora.Deployment.Conservation
import Callora.Deployment.Outflow
import Callora.Deployment.Backing
