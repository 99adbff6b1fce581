import Kisscpp.Machine
import Kisscpp.TextLines
import Kisscpp.DecimalText
import Kisscpp.QueueModel
import Kisscpp.QueueNames
import Kisscpp.QueueCalls
import Kisscpp.QueueInvariant
import Kisscpp.QueueSessions
import Kisscpp.QueueBusySecond
import Kisscpp.QueueFifo
import Kisscpp.QueueShelf
import Kisscpp.QueueReopen
import Kisscpp.QueueRecovery
import Kisscpp.QueueWorld
import Kisscpp.QueueShutdownTwice
import Kisscpp.QueueLifetimes
import Kisscpp.QueueCrash
import Kisscpp.PropertyTree
import Kisscpp.PropertyTreeGrafts
import Kisscpp.ConfigMerge
import Kisscpp.MergeFinish
import Kisscpp.Configuration
import Kisscpp.ConfigOverride
import Kisscpp.MergeFrame
import Kisscpp.MergeCopies
import Kisscpp.WhiteListMerge
import Kisscpp.WhiteLists
import Kisscpp.WhiteListUnion
import Kisscpp.WhiteListEntries
import Kisscpp.RequestModel
import Kisscpp.AccessControl
import Kisscpp.Client
import Kisscpp.OrderedMap
import Kisscpp.ErrorState
import Kisscpp.ClientRead
import Kisscpp.ErrorCounts
import Kisscpp.Spellings
import Kisscpp.ErrorSpellings
import Kisscpp.StatsKeeper
import Kisscpp.StatsHistory
import Kisscpp.StatsRounds
import Kisscpp.KeyedLists
import Kisscpp.DelayedQueue
import Kisscpp.DelayedDelivery
import Kisscpp.LevelLists
import Kisscpp.PriorityQueue
import Kisscpp.PriorityLevels
import Kisscpp.PriorityConsumers
import Kisscpp.PriorityIndices
import Kisscpp.LockFile
import Kisscpp.LogStream
import Kisscpp.LogPool
import Kisscpp.Base64
import Kisscpp.Base64Range
import Kisscpp.Base64BiCoder
import Kisscpp.Base64Safety
import Kisscpp.QueueFailures
import Kisscpp.QueuePushFailures
import Kisscpp.QueueSizes
import Kisscpp.QueueClear
import Kisscpp.QueueOwnership
import Kisscpp.QueueNeighbours
import Kisscpp.SafeDelayedQueue
import Kisscpp.DelayedPush
import Kisscpp.MergeBelow
import Kisscpp.IpWhiteList
import Kisscpp.LogSystem
import Kisscpp.StatsAnswers
import Kisscpp.Unwinding
import Kisscpp.Service
import Kisscpp.ClientRun
import Kisscpp.Exchange
import Kisscpp.QueueSolitude
import Kisscpp.SharedQueue
import Kisscpp.PropertyTreeLists
import Kisscpp.Reports
import Kisscpp.DelayedLifetimes
import Kisscpp.PriorityLifetimes
import Kisscpp.RoundRobin
import Kisscpp.ServerLoop
import Kisscpp.LogLevels
import Kisscpp.LevelRequests
import Kisscpp.LogThreads
import Kisscpp.StatsFullReport
import Kisscpp.StatsGathering
import Kisscpp.StatsAtomicRounds
import Kisscpp.RoundTrips
