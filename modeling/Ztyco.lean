import Ztyco.Transition
import Ztyco.Fibers
import Ztyco.EventTable
import Ztyco.EventMoves
import Ztyco.EventContexts
import Ztyco.SafeDispatch
import Ztyco.EventPlacement
import Ztyco.SlotStore
import Ztyco.Tally
import Ztyco.EventLedger
import Ztyco.PendingEvents
import Ztyco.OrderedSet
import Ztyco.Timers
import Ztyco.TimerHistory
import Ztyco.Scheduler
import Ztyco.SchedulerSteps
import Ztyco.TaskConservation
import Ztyco.StopSoundness
import Ztyco.FiberExclusion
import Ztyco.TaskWakeup
import Ztyco.FdManager
import Ztyco.Hooks
import Ztyco.SysNonblock
import Ztyco.FreshSockets
import Ztyco.FdMapOrder
import Ztyco.TableGrowth
import Ztyco.ConfigVar
import Ztyco.ContextSwitch
import Ztyco.FiberExits
import Ztyco.FileLog
import Ztyco.TimerDeadlines
import Ztyco.TimerWakeup
import Ztyco.DoIo
import Ztyco.IoTimeouts
import Ztyco.TimerExpiry
import Ztyco.FiberIds
import Ztyco.FiberReuse
import Ztyco.LogFormatter
import Ztyco.ScopedLocks
import Ztyco.Loggers
import Ztyco.LoggerLocks
import Ztyco.FormatterInheritance
import Ztyco.LogConfig
import Ztyco.ManagedLoggers
import Ztyco.ConfigHistory
import Ztyco.YamlConfig
import Ztyco.Handouts
import Ztyco.Sockets
import Ztyco.DescriptorOwners
import Ztyco.LocalAddress
import Ztyco.TcpServer
import Ztyco.AcceptLoops
import Ztyco.NextTimer
import Ztyco.TimerAnswers
import Ztyco.IdleTimeouts
import Ztyco.Cancellations
import Ztyco.TickleDrain
import Ztyco.IoResults
import Ztyco.UserNonblock
import Ztyco.OptionFailures
import Ztyco.ConnectTimeouts
import Ztyco.Sleeps
import Ztyco.SocketTimeouts
import Ztyco.LogPatterns
import Ztyco.LogSegments
import Ztyco.ConfigFiles
import Ztyco.ConfigStrings
import Ztyco.LexicalCasts
import Ztyco.SchedulerLifecycle
import Ztyco.LogCodec
import Ztyco.AddressOrder
import Ztyco.CommandLines
import Ztyco.HostSplitting
import Ztyco.ResolverResults
import Ztyco.Trimming
import Ztyco.UnixAddresses
import Ztyco.IpPrefixes
import Ztyco.IpText
import Ztyco.ServerBinds
import Ztyco.DirectoryWalks
import Ztyco.TableBounds
import Ztyco.PrefixGuards
import Ztyco.BitCounts
import Ztyco.PrefixLengths
import Ztyco.BoundedBypass
import Ztyco.InterestList
import Ztyco.Shutdown
import Ztyco.AddressTexts
import Ztyco.LogRendering
import Ztyco.Daemon
import Ztyco.Guards
import Ztyco.ThreadStart
import Ztyco.LogDump
import Ztyco.CoreLocks
import Ztyco.SchedulerSwitches
import Ztyco.SocketDurations
import Ztyco.LogLines
import Ztyco.SleepWakeups
import Ztyco.ClientHandoff
import Ztyco.ServerWindDown
