import N0DnsResolver.Lib.Checked
import N0DnsResolver.Lib.Awaited
import N0DnsResolver.Lib.Duration
import N0DnsResolver.Lib.LruMap
import N0DnsResolver.Lib.Chase
import N0DnsResolver.Lib.Choice
import N0DnsResolver.Lib.Utf8
import N0DnsResolver.Lib.Machine
import N0DnsResolver.Lib.TtlMap
import N0DnsResolver.Lib.Rounds
import N0DnsResolver.Lib.Fields
import N0DnsResolver.Lib.Comparing
import N0DnsResolver.Lib.Overwrite
import N0DnsResolver.Lib.Timely
import N0DnsResolver.Lib.Backoff
import N0DnsResolver.Lib.Average
import N0DnsResolver.Lib.Framing
import N0DnsResolver.Model.Records
import N0DnsResolver.Model.SimpleDns
import N0DnsResolver.Model.Query
import N0DnsResolver.Model.Answers
import N0DnsResolver.Model.Cache
import N0DnsResolver.Model.SharedCache
import N0DnsResolver.Model.Config
import N0DnsResolver.Model.Lookup
import N0DnsResolver.Model.Follow
import N0DnsResolver.Model.Hosts
import N0DnsResolver.Model.Typed
import N0DnsResolver.Model.Session
import N0DnsResolver.Model.Rtt
import N0DnsResolver.Model.Race
import N0DnsResolver.Model.Transport
import N0DnsResolver.Model.Nameserver
import N0DnsResolver.Model.Pool
import N0DnsResolver.Model.Pooling
import N0DnsResolver.Model.Upstreams
import N0DnsResolver.Model.Ordering
import N0DnsResolver.Model.HostsFile
import N0DnsResolver.Model.ResolvConf
import N0DnsResolver.Model.Deadlines
import N0DnsResolver.Model.Concurrent
import N0DnsResolver.Model.PublicResolvers
import N0DnsResolver.Model.Pacing
import N0DnsResolver.Model.PruneLoop
import N0DnsResolver.Model.Wires
import N0DnsResolver.Model.SearchWalk
import N0DnsResolver.Theory.HeaderReads
import N0DnsResolver.Theory.Loop
import N0DnsResolver.Theory.Precedence
import N0DnsResolver.Theory.Transparency
import N0DnsResolver.Theory.NegativeTtl
import N0DnsResolver.Theory.Repeat
import N0DnsResolver.Theory.Stale
import N0DnsResolver.Theory.Provenance
import N0DnsResolver.Theory.Escalation
import N0DnsResolver.Theory.Healing
import N0DnsResolver.Theory.Acceptance
import N0DnsResolver.Theory.Extraction
import N0DnsResolver.Theory.Targets
import N0DnsResolver.Theory.Chain
import N0DnsResolver.Theory.Cycle
import N0DnsResolver.Theory.AnswerOrder
import N0DnsResolver.Theory.Splits
import N0DnsResolver.Theory.WriteDiscipline
import N0DnsResolver.Theory.UdpAttempt
import N0DnsResolver.Theory.CacheRefinement
import N0DnsResolver.Theory.Localhost
import N0DnsResolver.Theory.PoolExclusive
import N0DnsResolver.Theory.PooledQuery
import N0DnsResolver.Theory.Upstreams
import N0DnsResolver.Theory.Decay
import N0DnsResolver.Theory.SearchList
import N0DnsResolver.Theory.ExtractionSpec
import N0DnsResolver.Theory.SharedCache
import N0DnsResolver.Theory.SizeGuard
import N0DnsResolver.Theory.SocketFilter
import N0DnsResolver.Theory.HostsFile
import N0DnsResolver.Theory.Snapshot
import N0DnsResolver.Theory.SearchNames
import N0DnsResolver.Theory.ResolvConf
import N0DnsResolver.Theory.Availability
import N0DnsResolver.Theory.Concurrent
import N0DnsResolver.Theory.Sequential
import N0DnsResolver.Theory.PublicResolvers
import N0DnsResolver.Theory.Retransmits
import N0DnsResolver.Theory.TcpJoin
import N0DnsResolver.Theory.Pacing
import N0DnsResolver.Theory.PruneLoop
import N0DnsResolver.Theory.Wires
import N0DnsResolver.Theory.SearchWalk
import N0DnsResolver.Theory.LookupDeadlines
