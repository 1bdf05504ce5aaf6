import Libdbos.Kern.EptCoherence
import Libdbos.Kern.EptRefs
import Libdbos.Kern.PostedInterrupts
import Libdbos.Kern.Syscall
import Libdbos.Kern.VcpuCreate
import Libdbos.Kern.EptLocks
import Libdbos.Libdune.IpiQueue
import Libdbos.Libdune.AddressSpace
import Libdbos.Libdune.AddFlags
import Libdbos.Libdune.PageGrowth
import Libdbos.Libdune.PageSearch
import Libdbos.Libdune.CowHandler
import Libdbos.FastSpawn.ConsistentCut
import Libdbos.FastSpawn.FlushBatch
import Libdbos.FastSpawn.FlushGuarantee
import Libdbos.FastSpawn.Handshake
import Libdbos.FastSpawn.LeafLock
import Libdbos.FastSpawn.RefCounts
import Libdbos.FastSpawn.RootChecks
import Libdbos.FastSpawn.Selective
import Libdbos.FastSpawn.ShadowCopy
import Libdbos.FastSpawn.StagedCalls
import Libdbos.Sandbox.Concurrent
import Libdbos.Sandbox.Loader
import Libdbos.Tabby.Eviction
import Libdbos.Tabby.OptimisticReads
import Libdbos.Tabby.PageLatch
import Libdbos.Tabby.AllocGuard
import Libdbos.Tabby.FreeLists
import Libdbos.Tabby.BlockFiles
import Libdbos.Tabby.KeyFold
import Libdbos.Tabby.EvictionClock
import Libdbos.Ufirewall.Monitor
