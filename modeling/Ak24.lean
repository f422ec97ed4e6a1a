import Ak24.Utf8Model
import Ak24.Utf8Validity
import Ak24.ScannerModel
import Ak24.Utf8Boundary
import Ak24.ScannerCursor
import Ak24.ArbuffModel
import Ak24.ArbuffSequential
import Ak24.ArbuffSizing
import Ak24.TicketRing
import Ak24.TicketTrace
import Ak24.ArbuffConcurrent
import Ak24.Records
import Ak24.TcpModel
import Ak24.TcpFraming
import Ak24.FilepathModel
import Ak24.FilepathNormalize
import Ak24.MapModel
import Ak24.MapRefinement
import Ak24.Chains
import Ak24.ThreadPoolModel
import Ak24.ThreadPoolSafety
import Ak24.Regions
import Ak24.ArenaModel
import Ak24.ArenaChain
import Ak24.ArenaLive
import Ak24.ThreadPoolWakeup
import Ak24.ThreadPoolStartup
import Ak24.ModuleUnload
import Ak24.TcpCalls
import Ak24.TcpDescriptor
import Ak24.TcpClientModel
import Ak24.TcpClientProgress
import Ak24.TcpClientLifetime
import Ak24.TcpClientAlive
import Ak24.TcpServerModel
import Ak24.TcpServerAccounting
import Ak24.TcpServerStatistics
import Ak24.TcpDetach
import Ak24.TcpListen
import Ak24.ContextModel
import Ak24.TcpRelease
import Ak24.ContextScoping
import Ak24.InternModel
import Ak24.InternCanonicity
import Ak24.FormsModel
import Ak24.FormsCompatible
import Ak24.AtomBond
import Ak24.FormsAffects
import Ak24.SourcelocModel
import Ak24.SourcelocRefcount
import Ak24.Blocks
import Ak24.BufferModel
import Ak24.BufferRefinement
import Ak24.BufferSplit
import Ak24.BufferOrigin
import Ak24.ArbuffClear
import Ak24.ArbuffSnapshot
import Ak24.ArenaArithmetic
import Ak24.ArenaAligned
import Ak24.ArenaReset
import Ak24.ListModel
import Ak24.ListRefinement
import Ak24.ListGrowth
import Ak24.SignalModel
import Ak24.SignalDeadlock
import Ak24.SignalDispositions
import Ak24.Utf8Iteration
import Ak24.Utf8Grapheme
import Ak24.ScannerSkip
import Ak24.ScannerGroup
import Ak24.ScannerLexeme
import Ak24.ScannerDigits
import Ak24.SourcelocLines
import Ak24.ArenaUndo
import Ak24.SourcelocOrder
import Ak24.SourcelocCounters
import Ak24.SourcelocText
import Ak24.TcpRecvLoop
import Ak24.TcpLoss
import Ak24.TcpRecord
import Ak24.TcpBackpressure
import Ak24.TcpPeerClose
import Ak24.RateWindow
import Ak24.TcpRateLimit
import Ak24.TcpDraining
import Ak24.ThreadPoolOwnership
import Ak24.MapIteration
import Ak24.ModuleRegistry
import Ak24.RegistryConsistency
import Ak24.PathJoin
import Ak24.FilepathCanonical
import Ak24.FilepathJoin
import Ak24.MapTraversal
import Ak24.NeighborLists
import Ak24.AtomModel
import Ak24.AtomSymmetry
import Ak24.GraphLevels
import Ak24.DepthSearch
import Ak24.AtomShells
import Ak24.AtomCluster
import Ak24.FormsAffordances
import Ak24.FormsAttachment
import Ak24.HeapValues
import Ak24.FormsMemory
import Ak24.FormsClone
import Ak24.FormsRefinement
import Ak24.Decimal
import Ak24.RuntimeModel
import Ak24.RuntimeLock
import Ak24.Memories
import Ak24.ArenaMemory
import Ak24.TcpStream
import Ak24.Monitors
import Ak24.BoxModel
import Ak24.MemoryStatistics
import Ak24.KernelShutdown
import Ak24.Holdings
import Ak24.LambdaModel
import Ak24.CjitModel
import Ak24.Dialogs
import Ak24.TcpSockets
import Ak24.TcpConnect
import Ak24.ScannerDocument
import Ak24.LogModel
import Ak24.Footprints
import Ak24.FileLoading
import Ak24.InternLifecycle
import Ak24.RootForms
