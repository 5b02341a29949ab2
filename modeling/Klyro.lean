import Klyro.Commands.Draws
import Klyro.Commands.Extreme
import Klyro.Commands.Failed
import Klyro.Commands.PlainPops
import Klyro.Commands.Scans
import Klyro.Commands.Sweep
import Klyro.Commands.Topk
import Klyro.Commands.Unknown
import Klyro.Commands.Unordered
import Klyro.Commands.Windows
import Klyro.Evict.Rounds
import Klyro.Hub.Subscriptions
import Klyro.Hub.Watching
import Klyro.Persist.AssignedIds
import Klyro.Persist.Expiry
import Klyro.Persist.KeyTtl
import Klyro.Persist.LooksLike
import Klyro.Persist.RecordTtl
import Klyro.Persist.RoundTrip
import Klyro.Persist.Truncated
import Klyro.Resp.Accepted
import Klyro.Resp.Multibulk
import Klyro.Resp.Segments
import Klyro.Server.Heeded
import Klyro.Store.Recency
import Klyro.Store.Refine
import Klyro.Trends.NonEmpty
import Klyro.Trends.Ordered
import Klyro.Types.List.Removal
import Klyro.Types.Memory.Added
import Klyro.Types.Memory.Aligned
import Klyro.Types.Memory.Filtered
import Klyro.Types.Memory.Rebuilt
import Klyro.Types.Memory.Searchable
import Klyro.Types.Memory.Sortable
import Klyro.Types.Memory.Tokens
import Klyro.Util.Patterns
import Klyro.Commands.OneLine
import Klyro.Server.Output
import Klyro.Server.Registries
import Klyro.Lib.Utf8
import Klyro.Resp.Reader
import Klyro.Persist.Attempts
import Klyro.Persist.Searches
import Klyro.Lib.Follows
import Klyro.Lib.Mapped
import Klyro.Types.Memory.PlainIndex
import Klyro.Types.Memory.RunsAlike
import Klyro.Persist.Reloaded
import Klyro.Lib.Settled
import Klyro.Types.Memory.Steady
import Klyro.Store.Settled
import Klyro.ByLive.Generic
import Klyro.ByLive.Strings
import Klyro.ByLive.Collections
import Klyro.ByLive.Memories
import Klyro.ByLive.Blocking
import Klyro.ByLive.Served
import Klyro.ByLive.Transcript
import Klyro.Util.Allocator
