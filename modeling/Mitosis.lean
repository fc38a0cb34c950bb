import Mitosis.Accounting
import Mitosis.Announcer
import Mitosis.Archiving
import Mitosis.AttachmentDownload
import Mitosis.AttachmentFilter
import Mitosis.AttachmentKeys
import Mitosis.AttachmentNames
import Mitosis.Auth
import Mitosis.BatchCancel
import Mitosis.BatchDeletion
import Mitosis.BatchDownload
import Mitosis.Cancel
import Mitosis.Cancellation
import Mitosis.Command
import Mitosis.Commit
import Mitosis.Coordinator
import Mitosis.Credentials
import Mitosis.Custody
import Mitosis.Database
import Mitosis.Deletion
import Mitosis.Dispatcher
import Mitosis.DispatcherMap
import Mitosis.DispatcherRun
import Mitosis.DownloadSets
import Mitosis.Entity
import Mitosis.Exclusive
import Mitosis.ExitStatus
import Mitosis.Filter
import Mitosis.FilterCancel
import Mitosis.Handout
import Mitosis.Heartbeat
import Mitosis.HeartbeatRun
import Mitosis.HttpClient
import Mitosis.Identity
import Mitosis.Labels
import Mitosis.Lib.Alone
import Mitosis.Lib.Chunks
import Mitosis.Lib.Decimal
import Mitosis.Lib.Fallible
import Mitosis.Lib.Hoare
import Mitosis.Lib.Keeps
import Mitosis.Lib.Lines
import Mitosis.Lib.Moments
import Mitosis.Lib.Pool
import Mitosis.Lib.Prog
import Mitosis.Lib.Recorded
import Mitosis.Lib.Refinement
import Mitosis.Lib.Runs
import Mitosis.Lib.Sessions
import Mitosis.Lib.Sweep
import Mitosis.Lib.Table
import Mitosis.Lib.Total
import Mitosis.Lib.Txn
import Mitosis.Lib.UnixPath
import Mitosis.Lib.UrlPath
import Mitosis.Lib.Writers
import Mitosis.Lifecycle
import Mitosis.Listing
import Mitosis.LogWriter
import Mitosis.Lookup
import Mitosis.Numbering
import Mitosis.Ownership
import Mitosis.Pagination
import Mitosis.Proof.Alone
import Mitosis.Proof.ArchivedRows
import Mitosis.Proof.Carried
import Mitosis.Proof.Checked
import Mitosis.Proof.CheckedWorkers
import Mitosis.Proof.Duties
import Mitosis.Proof.Effects
import Mitosis.Proof.Eligible
import Mitosis.Proof.Faultless
import Mitosis.Proof.Fresh
import Mitosis.Proof.Grounded
import Mitosis.Proof.Groups
import Mitosis.Proof.Histories
import Mitosis.Proof.Keyed
import Mitosis.Proof.Keys
import Mitosis.Proof.Ledger
import Mitosis.Proof.Promises
import Mitosis.Proof.Queues
import Mitosis.Proof.Reads
import Mitosis.Proof.Registered
import Mitosis.Proof.Services
import Mitosis.Proof.Signed
import Mitosis.Proof.Sourced
import Mitosis.Proof.Stages
import Mitosis.Proof.Started
import Mitosis.Proof.StorageAlone
import Mitosis.Proof.Submissions
import Mitosis.Proof.TaskEdits
import Mitosis.Proof.TaskHistory
import Mitosis.Proof.TaskMoves
import Mitosis.Proof.TaskRows
import Mitosis.Proof.Tickets
import Mitosis.Proof.Tracked
import Mitosis.Proof.Transactions
import Mitosis.Proof.Transfers
import Mitosis.Proof.Upstream
import Mitosis.Proof.WorkerRows
import Mitosis.Proof.Writes
import Mitosis.Query
import Mitosis.Quota
import Mitosis.QuotaEdits
import Mitosis.Registration
import Mitosis.Registry
import Mitosis.ResourcePaths
import Mitosis.Revocation
import Mitosis.Routing
import Mitosis.Run
import Mitosis.Schema
import Mitosis.Service.Attachments
import Mitosis.Service.Storage
import Mitosis.Service.Task
import Mitosis.Service.Tasks
import Mitosis.Service.Worker
import Mitosis.Storage
import Mitosis.Succession
import Mitosis.TaskEnvironment
import Mitosis.TaskExecutor
import Mitosis.TaskQuery
import Mitosis.TaskStages
import Mitosis.TaskTimeout
import Mitosis.Tasks
import Mitosis.Tenants
import Mitosis.TokenDomains
import Mitosis.UploadLinks
import Mitosis.Watch
import Mitosis.WorkerRoles
