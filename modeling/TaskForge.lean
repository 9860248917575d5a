import TaskForge.Cancellation
import TaskForge.Eligibility
import TaskForge.Capacity
import TaskForge.Wakeups
import TaskForge.SubmitOnce
import TaskForge.Isolation
import TaskForge.TraceHeaders
import TaskForge.ClaimAnswer
import TaskForge.Publishers
import TaskForge.OutboxClaims
import TaskForge.Drains
import TaskForge.Accounting
import TaskForge.Pagination
import TaskForge.Gateway
import TaskForge.Backfill
import TaskForge.RetryDelay
import TaskForge.HandlerFailures
import TaskForge.ResultStorage
import TaskForge.FirstAnswer
import TaskForge.WorkerView
