import Apes.MySort.Bounds
import Apes.MySort.Contract
import Apes.MySort.HeapBalance
import Apes.Ipc.Rounds
import Apes.Ipc.Pipes
import Apes.Ipc.PipesDelivery
import Apes.Ipc.PipesOverrun
import Apes.Ipc.Queues
import Apes.Ipc.QueuesLockstep
import Apes.Ipc.SharedMemory
import Apes.Ipc.SharedMemoryDelivery
import Apes.Ipc.SharedMemoryProgress
import Apes.Ipc.SharedMemoryAcks
import Apes.Ipc.QueuesFailures
import Apes.Ipc.QueuesLifetimes
import Apes.Ipc.QueuesShutdown
import Apes.Ipc.Sockets
import Apes.Ipc.SocketsFraming
import Apes.Ipc.Descriptors
import Apes.Timer.Timer
import Apes.Timer.Unload
import Apes.Animals.NameSort
import Apes.Lib.Census
import Apes.Lib.Ring
import Apes.Animals.Ecosystem
import Apes.Animals.Lists
import Apes.Animals.Nodes
import Apes.Animals.Sets
import Apes.Animals.Load
import Apes.Animals.Unload
import Apes.Animals.StringSort
import Apes.Lib.Tokens
import Apes.Pthread.CpuUsage
import Apes.Pthread.Letters
import Apes.Pthread.ProcStat
import Apes.Lib.Ledger
import Apes.Pthread.Children
import Apes.Pthread.Usr2
import Apes.Pthread.Resources
import Apes.Ipc.Commands
import Apes.Ipc.Conversation
import Apes.Ipc.LogFiles
import Apes.Lib.Interleaving
import Apes.MySort.Interleave
import Apes.Lib.CopyUp
import Apes.Memory.Memcpy
import Apes.MySort.Recursion
import Apes.FileIo.MyFileIo
import Apes.Pthread.Report
import Apes.Timer.Rearm
import Apes.Ipc.PipesShutdown
import Apes.Ipc.SharedMemoryShutdown
import Apes.Ipc.SharedMemoryParts
import Apes.Ipc.SocketsShutdown
import Apes.Kernel.Creds
import Apes.Kernel.CredsDrop
import Apes.Kernel.Rlimits
import Apes.Kernel.RlimitsReadBack
import Apes.Timer.Firings
import Apes.Memory.Overlap
import Apes.Kernel.SessionsMoves
import Apes.Kernel.Sysinfo
import Apes.Pthread.Samples
import Apes.Pthread.ReportCut
import Apes.MySort.Cron
