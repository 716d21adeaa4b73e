import InferQos.Common.Arith
import InferQos.Common.OrdMap
import InferQos.Common.Trace
import InferQos.Common.Ranking
import InferQos.Common.MaxBy
import InferQos.Common.Lanes
import InferQos.Common.StableSort
import InferQos.Common.Gather
import InferQos.Common.Squares
import InferQos.Common.Str
import InferQos.Common.Marks
import InferQos.Common.MultiMap
import InferQos.Common.Settlement
import InferQos.Core
import InferQos.Scheduler.Model
import InferQos.Scheduler.Accounting
import InferQos.Scheduler.Invariant
import InferQos.Common.Service
import InferQos.Scheduler.History
import InferQos.Coordinator.Ledger
import InferQos.Config.Model
import InferQos.Config.Validate
import InferQos.Config.File
import InferQos.Config.Expand
import InferQos.Capacity.Model
import InferQos.Capacity.Ledger
import InferQos.Capacity.Calibration
import InferQos.Proxy.Admission
import InferQos.Proxy.Reserve
import InferQos.Proxy.Keys
import InferQos.Proxy.AllOrNothing
import InferQos.Proxy.Handler
import InferQos.Identity.Certificate
import InferQos.Identity.Precedence
import InferQos.Identity.Replacement
import InferQos.Identity.Fingerprints
import InferQos.Common.RwLock
import InferQos.Identity.Oidc
import InferQos.Identity.KeyCache
import InferQos.Proxy.Shares
import InferQos.Proxy.Borrowing
import InferQos.Proxy.System
import InferQos.Proxy.Linking
import InferQos.Proxy.Conservation
import InferQos.Proxy.PoolLimit
import InferQos.Proxy.Waiting
import InferQos.Scheduler.Turns
import InferQos.Proxy.Undisturbed
import InferQos.Proxy.Placement
import InferQos.Proxy.Routing
import InferQos.Proxy.Rejections
import InferQos.Common.Window
import InferQos.Proxy.Decisions
import InferQos.Proxy.Counters
import InferQos.Proxy.Isolation
import InferQos.Proxy.Iteration
import InferQos.Proxy.Drain
import InferQos.Proxy.ClassBound
import InferQos.Proxy.Reload
import InferQos.Proxy.Provenance
import InferQos.Proxy.Spool
import InferQos.Proxy.Caps
import InferQos.Proxy.Progress
import InferQos.Proxy.Calls
import InferQos.Proxy.Replicas
import InferQos.Proxy.Renewal
import InferQos.Proxy.ResponseHeaders
import InferQos.Scheduler.Fairness
import InferQos.Scheduler.Bypass
import InferQos.Scheduler.Selection
import InferQos.Scheduler.Renormalisation
import InferQos.Scheduler.Weights
import InferQos.Common.WebUrl
import InferQos.Providers.Upstream
import InferQos.Providers.Estimate
import InferQos.Providers.Usage
import InferQos.Providers.External
import InferQos.Proxy.Streaming
import InferQos.Providers.Conformance
import InferQos.Common.Wire
import InferQos.Common.Json
import InferQos.Common.JsonText
import InferQos.Common.Capped
import InferQos.DurableQueue.Model
import InferQos.DurableQueue.RoundTrip
import InferQos.DurableQueue.Settlement
import InferQos.DurableQueue.Memory
import InferQos.Common.PeekLock
import InferQos.DurableQueue.AtLeastOnce
import InferQos.Common.Redis
import InferQos.Common.Lua
import InferQos.Coordinator.Valkey
import InferQos.Coordinator.Values
import InferQos.Coordinator.Retention
import InferQos.Coordinator.Agreement
import InferQos.Simulator.Model
import InferQos.Simulator.Order
import InferQos.Simulator.Jain
import InferQos.Simulator.Peak
import InferQos.Simulator.Range
import InferQos.Simulator.Classes
import InferQos.Simulator.Html
