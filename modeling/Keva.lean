import Keva.Lib.Decimal
import Keva.Lib.KeyedList
import Keva.Lib.Buckets
import Keva.Lib.Run
import Keva.Lib.Program
import Keva.Common.Types
import Keva.Core.Dict
import Keva.Core.DictTable
import Keva.Core.DictRehash
import Keva.Core.DictMap
import Keva.Core.DictRun
import Keva.Core.Object
import Keva.Core.Database
import Keva.Core.Keyspace
import Keva.Lib.Framing
import Keva.Protocol.RespTypes
import Keva.Protocol.RespParser
import Keva.Protocol.RespRoundTrip
import Keva.Persistence.Rdb
import Keva.Command.Context
import Keva.Command.Handlers.StringCmd
import Keva.Command.Handlers.KeyCmd
import Keva.Command.Handlers.ServerCmd
import Keva.Command.Command
import Keva.Command.Execution
import Keva.Command.Footprint
import Keva.Core.Purge
import Keva.Command.Invisible
import Keva.Command.Replies
import Keva.Command.Validation
import Keva.Server.Events
import Keva.Command.Strings
import Keva.Core.Shown
import Keva.Lib.Int64Exact
import Keva.Command.Ttl
import Keva.Command.Del
import Keva.Command.Counters
import Keva.Command.Deadlines
import Keva.Net.Connection
import Keva.Command.Dispatch
import Keva.Net.TcpServer
import Keva.Net.Registry
import Keva.Net.Stream
import Keva.Net.Closing
import Keva.Net.WriteOnly
import Keva.Lib.LittleEndian
import Keva.Lib.Crc
import Keva.Persistence.RdbSave
import Keva.Persistence.RdbLoad
import Keva.Persistence.RdbFormat
import Keva.Persistence.RdbGrammar
import Keva.Persistence.RdbRoundTrip
import Keva.Persistence.Snapshot
import Keva.Command.Orphans
import Keva.Server.Reachable
import Keva.Command.Isolation
import Keva.Server.Saving
import Keva.Lib.FileSystem
import Keva.Server.SaveFiles
import Keva.Command.Rename
import Keva.Command.SetGrammar
import Keva.Command.Numbers
import Keva.Command.Overlap
import Keva.Lib.Glob
import Keva.Command.Keys
import Keva.Protocol.Resp2
import Keva.Protocol.RespCursor
import Keva.Command.Pipelining
import Keva.Protocol.Reserves
import Keva.Lib.VectorOps
import Keva.Net.Buffers
import Keva.Server.SaveClock
import Keva.Persistence.Stamps
import Keva.Core.Idle
import Keva.Core.DictOwnership
import Keva.Core.DictLoad
import Keva.Core.DictProgress
import Keva.Lib.PowerOfTwo
import Keva.Core.DictLoadFactor
import Keva.Core.DictSample
import Keva.Server.ActiveExpiry
import Keva.Persistence.FdWriter
import Keva.Persistence.RdbStrings
import Keva.Server.SaveFailures
import Keva.Persistence.FaithfulLoad
import Keva.Server.Startup
import Keva.Lib.CrcLinear
import Keva.Persistence.Crc64
import Keva.Command.Bounds
import Keva.Lib.Heap
import Keva.Core.Buffer
import Keva.Core.BufferRun
import Keva.Core.SipHash
import Keva.Lib.SipHash
import Keva.Command.Encodings
import Keva.Command.Lookalike
import Keva.Lib.Weave
import Keva.Server.Background
import Keva.Server.Recovery
import Keva.Server.Reactor
import Keva.Server.Sequential
import Keva.Server.Children
import Keva.Lib.Amortized
import Keva.Core.DictCost
import Keva.Core.BufferCost
import Keva.Net.Compaction
import Keva.Server.Survival
import Keva.Server.Delivery
import Keva.Server.Restart
import Keva.Server.Matching
import Keva.Net.Socket
import Keva.Server.OpenDescriptors
import Keva.Server.Accounting
import Keva.Lib.Pacing
import Keva.Lib.Mailbox
import Keva.Server.Timer
import Keva.Server.Stopping
