import Sret.Foundation.Transition
import Sret.Foundation.Tasks
import Sret.Foundation.Text
import Sret.Foundation.Url
import Sret.Foundation.History
import Sret.Foundation.Rotation
import Sret.Foundation.KeyedMap
import Sret.Foundation.MinBy
import Sret.Foundation.Atomic
import Sret.Foundation.Fairness
import Sret.Http
import Sret.Platform
import Sret.Config
import Sret.Target
import Sret.Upstream
import Sret.Router
import Sret.Balancing
import Sret.Cache
import Sret.CacheRuns
import Sret.CacheSpec
import Sret.Ttl
import Sret.Storability
import Sret.Capacity
import Sret.Recency
import Sret.Proxy
import Sret.TargetUrl
import Sret.CacheKey
import Sret.Server
import Sret.Listener
import Sret.System
import Sret.Health
import Sret.Connections
import Sret.Lifecycle
import Sret.CacheIsolation
import Sret.Bookkeeping
import Sret.Resolution
import Sret.Failures
import Sret.Lifetime
import Sret.Replays
import Sret.Confidentiality
import Sret.Freshness
import Sret.Starvation
import Sret.Startup
import Sret.Expiry
import Sret.Refreshing
import Sret.RoutingSpec
import Sret.Availability
import Sret.HostMatching
import Sret.HeaderForwarding
import Sret.LeastConnections
import Sret.ConcurrentSelection
import Sret.ServerCache
import Sret.Progress
import Sret.CheckOrder
import Sret.Provenance
import Sret.Frame
import Sret.Settling
import Sret.Stats
import Sret.Loading
import Sret.ReverseProxy
import Sret.Process
import Sret.Answering
import Sret.CheckTimes
import Sret.TargetLookup
