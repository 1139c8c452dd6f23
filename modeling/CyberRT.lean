import CyberRT.Base.Proof.HashMap
import CyberRT.Base.Proof.ObjectPool
import CyberRT.Base.Proof.PoolFutures
import CyberRT.Base.Proof.PoolJoin
import CyberRT.Base.Proof.RWLock
import CyberRT.Common.Proof.File
import CyberRT.Common.Proof.GlobalData
import CyberRT.Component.Component
import CyberRT.Croutine.Proof.DataWakeup
import CyberRT.Discovery.Proof.GraphEdges
import CyberRT.Discovery.Proof.SingleValue
import CyberRT.Discovery.Proof.NodeGraph
import CyberRT.Discovery.Proof.Warehouses
import CyberRT.Io.Proof.Poller
import CyberRT.Logger.Proof.Destinations
import CyberRT.Message.MessageTraits
import CyberRT.Node.Proof.ReaderTopology
import CyberRT.Plugin.Proof.FirstDeclared
import CyberRT.Record.Proof.FailingWrites
import CyberRT.Record.Proof.Playback
import CyberRT.Record.Proof.Preload
import CyberRT.Record.Proof.ReadEnds
import CyberRT.Record.Proof.RecorderStart
import CyberRT.Record.Proof.Tools
import CyberRT.Record.Proof.Segments
import CyberRT.Scheduler.Proof.NextRoutine
import CyberRT.Service.Proof.Client
import CyberRT.Service.Proof.Tasks
import CyberRT.Shm.Proof.ArenaRuns
import CyberRT.Shm.Proof.ArenaHeights
import CyberRT.Shm.Proof.ArenaMessage
import CyberRT.Shm.Proof.ArenaSearch
import CyberRT.Shm.Proof.BlockLocks
import CyberRT.Shm.Proof.Notifier
import CyberRT.Task.TaskManager
import CyberRT.Timer.Proof.AddTask
import CyberRT.Timer.Proof.Timer
import CyberRT.Transport.Proof.ArenaReads
import CyberRT.Transport.Proof.HistoryReplay
import CyberRT.Transport.Proof.HybridEnabled
import CyberRT.Transport.Proof.MessageInfo
import CyberRT.Transport.Proof.IntraDelivery
import CyberRT.Transport.Proof.TransmitLocks
import CyberRT.Statistics.RecvCount
import CyberRT.Plugin.Proof.InstalledDirs
import CyberRT.Logger.Proof.HandedOver
import CyberRT.Record.Proof.FlushWakeup
