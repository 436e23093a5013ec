import QlTsch.Lib.Prog
import QlTsch.Lib.Pool
import QlTsch.Types
import QlTsch.Lock
import QlTsch.Queue
import QlTsch.Schedule
import QlTsch.Lib.Scan
import QlTsch.SlotOperation
import QlTsch.SlotOutline
import QlTsch.Node
import QlTsch.QLearning
import QlTsch.SlotFrame
import QlTsch.ProcessFrame
import QlTsch.AckedReward
import QlTsch.LockRules
import QlTsch.LockExclusion
import QlTsch.ChannelHopping
import QlTsch.ScheduleView
import QlTsch.ScheduleRefine
import QlTsch.ScheduleInvariant
import QlTsch.ScheduleCalls
import QlTsch.QueueCalls
import QlTsch.LinkCounters
import QlTsch.QlSchedule
import QlTsch.QlRound
import QlTsch.QlInvariant
import QlTsch.ScheduleRepresentation
import QlTsch.CreditedSlot
import QlTsch.Lib.Ledger
import QlTsch.PacketConservation
import QlTsch.ReceptionOpportunity
import QlTsch.LockedCalls
import QlTsch.LinkHandles
import QlTsch.Lib.History
import QlTsch.SlotEvents
import QlTsch.AptTable
import QlTsch.NodeCalls
import QlTsch.CsmaState
import QlTsch.VirtualNeighbors
import QlTsch.BackoffLinks
import QlTsch.Lib.Guarantee
import QlTsch.Lib.Buffer
import QlTsch.UdpPayload
import QlTsch.PacketLedger
import QlTsch.TransmitAttempts
import QlTsch.QueueRules
import QlTsch.FifoRetries
import QlTsch.BackoffRecord
import QlTsch.BackoffWindow
import QlTsch.BurstSlot
import QlTsch.SlotClock
import QlTsch.Lib.DeadReckoning
import QlTsch.NetworkUptime
import QlTsch.Lib.WrapClock
import QlTsch.DeadlineCheck
import QlTsch.LockBalance
import QlTsch.TimeSource
import QlTsch.BackupLink
import QlTsch.AddLinkFailure
import QlTsch.ExplorationDecay
import QlTsch.PacketSelection
import QlTsch.BurstBound
import QlTsch.Lib.AsyncContraction
import QlTsch.QlConvergence
import QlTsch.RadioDuty
import QlTsch.Lib.Network
import QlTsch.PacketCalls
import QlTsch.Network
import QlTsch.AirSender
import QlTsch.Delivery
import QlTsch.Lib.Follower
import QlTsch.TimeSync
import QlTsch.Timetable
import QlTsch.ScheduleTimetable
import QlTsch.RewardDelivery
import QlTsch.QueueRefine
import QlTsch.ScheduleExecution
import QlTsch.VisibleSchedule
