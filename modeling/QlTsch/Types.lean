/-
# `QlTsch.Types` — the data model

The variables of one node, grouped by who writes them.

| record | C file | written by |
| :-- | :-- | :-- |
| `LockVars` | `tsch-slot-operation.c` | the process only |
| `ScheduleVars` | `tsch-schedule.c` | the process only |
| `NodeVars` | `node.c` | the process only |
| `QueueVars` | `tsch-queue.c` | both |
| `SlotVars` | `tsch-slot-operation.c` | the slot interrupt, and `current_link` by the process |

Blocks of the `memb` pools are named by their index, and a pool is the set of
the indices in use.  The contents of a block are kept in a total function, so a
pointer can always be followed: a pointer to a freed block reads what was last
written there.  A neighbor is named by its address, as the neighbor table
identifies its entries.  A linked list and a `ringbufindex` with its array are
lists, the head first.

`memb`, `list`, `ringbufindex`, `nbr-table`, the radio and the timer are not
part of the sources.  What they do beyond this is a field of `Config` where it
is fixed for a build, and an input of the slot operation where it is not.

`Ghost` is not in the sources either.  No modelled function reads it; it
records which packets were handed where, and which link a pointer was chosen
for, so that properties can be stated.
-/
import Mathlib.Data.Finset.Basic
import Mathlib.Algebra.Order.Ring.Rat
import Mathlib.Logic.Function.Basic
import QlTsch.Lib.Pool

namespace QlTsch

open Interleave (AllocPolicy)

/-! ## Constants of `project-conf.h` -/

def broadcastSlotframeLength : Nat := 7
def unicastSlotframeLength : Nat := 15

/-! ## Addresses, links, slotframes -/

/-- `linkaddr_t`: only ever compared. -/
abbrev LinkAddr := Nat

/-- `link_options`, one field a bit. -/
structure LinkOptions where
  tx : Bool
  rx : Bool
  shared : Bool
  timeKeeping : Bool
deriving DecidableEq, Repr

inductive LinkType where
  | normal
  | advertising
  | advertisingOnly
deriving DecidableEq, Repr

/-- `struct tsch_link`.  `serial` is not in the source: it numbers the call
that installed the link, where `handle` is that number cut to 16 bits. -/
structure TschLink where
  handle : Nat
  addr : LinkAddr
  slotframeHandle : Nat
  timeslot : Nat
  channelOffset : Nat
  linkOptions : LinkOptions
  linkType : LinkType
  serial : Nat
deriving DecidableEq, Repr

/-- `struct tsch_slotframe`. -/
structure TschSlotframe where
  handle : Nat
  size : Nat
  linksList : List Nat
deriving DecidableEq, Repr

/-! ## Packets and neighbors -/

/-- The status codes of `mac.h`. -/
inductive MacStatus where
  | ok
  | collision
  | noack
  | deferred
  | err
  | errFatal
deriving DecidableEq, Repr

/-- `struct tsch_packet`.  `uid` is not in the source: it numbers the accepted
packets, where the block of a packet is used again after it is freed. -/
structure TschPacket where
  hasQueuebuf : Bool
  sent : Nat
  ptr : Nat
  ret : MacStatus
  transmissions : Nat
  maxTransmissions : Nat
  framePending : Bool
  uid : Nat
deriving DecidableEq, Repr

/-- `struct tsch_neighbor`.  The width of the two counters is not in the
sources; they are integers here, and the test `> 0` of an unsigned counter is
`≠ 0`. -/
structure TschNeighbor where
  isBroadcast : Bool
  isTimeSource : Bool
  backoffExponent : Nat
  backoffWindow : Nat
  txLinksCount : Int
  dedicatedTxLinksCount : Int
  txRingbuf : List Nat
deriving DecidableEq, Repr

/-! ## What is fixed for a build -/

structure Config where
  tschBroadcastAddress : LinkAddr
  tschEbAddress : LinkAddr
  linkaddrNull : LinkAddr
  linkaddrNodeAddr : LinkAddr
  /-- which free block `memb_alloc` returns -/
  memb : AllocPolicy
  tschScheduleMaxLinks : Nat
  tschScheduleMaxSlotframes : Nat
  queuebufNum : Nat
  /-- how many entries the ring buffers hold -/
  txRingbufCapacity : Nat
  dequeuedRingbufCapacity : Nat
  inputRingbufCapacity : Nat
  /-- where `nbr_table_add_lladdr` puts a new entry among the present ones,
  `none` when it returns NULL -/
  nbrTableAdd : List LinkAddr → LinkAddr → Option Nat
  nbrTableAdd_le : ∀ {ns a i}, nbrTableAdd ns a = some i → i ≤ ns.length
  tschMacMinBe : Nat
  tschMacMaxBe : Nat
  tschBurstMaxLen : Nat
  tschCcaEnabled : Bool
  llsec802154Enabled : Bool
  tschHoppingSequence : Nat → Nat
  tschHoppingSequenceLength : Nat
  /-- `tsch_timing[tsch_ts_timeslot_length]`, in rtimer ticks -/
  tsTimeslotLength : Int
  rtimerGuard : Int
  rtimerBits : Nat
  syncIeBound : Int
  desyncThresholdSlots : Nat
  randomRandMax : Nat

/-! ## The state of a node -/

structure LockVars where
  tschLocked : Bool
  tschLockRequested : Bool
deriving DecidableEq, Repr

structure ScheduleVars where
  linkMemb : Finset Nat
  links : Nat → TschLink
  slotframeMemb : Finset Nat
  slotframes : Nat → TschSlotframe
  slotframeList : List Nat
  currentLinkHandle : Nat

structure QueueVars where
  packetMemb : Finset Nat
  packets : Nat → TschPacket
  tschNeighbors : List LinkAddr
  neighbors : LinkAddr → TschNeighbor
  nBroadcast : Option LinkAddr
  nEb : Option LinkAddr

structure NodeVars where
  sfBroadcast : Option Nat
  sfUnicast : Option Nat
  linksUnicastSf : Nat → Option Nat
  currentAction : Nat
  qValues : Nat → ℚ
  cyclesSinceStart : Nat

/-- What `tsch_rx_slot` learns about a frame it has read: the results of the
parser, of the security layer and of the drift measurement. -/
structure RxFrame where
  frameValid : Bool
  isDataOrBeacon : Bool
  authenticated : Bool
  destinationAddress : LinkAddr
  sourceAddress : LinkAddr
  ackRequired : Bool
  framePending : Bool
  eackBuilt : Bool
  estimatedDrift : Int
deriving DecidableEq, Repr

/-- The locals of `tsch_tx_slot` that live across its yields. -/
structure TxLocals where
  doWaitForAck : Bool
  burstLinkRequested : Bool
deriving DecidableEq, Repr

/-- Where the slot operation resumes.  `asleep` is the yield at the end of its
loop; the others are the yields inside a slot. -/
inductive SlotPc where
  | asleep
  | txBeforeCca (l : TxLocals)
  | txBeforeTx (l : TxLocals)
  | txBeforeAck (l : TxLocals)
  | rxBeforeListen
  | rxBeforeAck (f : RxFrame)
deriving DecidableEq, Repr

structure SlotVars where
  tschIsAssociated : Bool
  tschIsCoordinator : Bool
  tschInSlotOperation : Bool
  pc : SlotPc
  /-- when the timer is armed for the next slot, its target -/
  timer : Option Int
  currentLink : Option Nat
  backupLink : Option Nat
  currentPacket : Option Nat
  currentNeighbor : Option LinkAddr
  burstLinkScheduled : Bool
  tschCurrentBurstCount : Nat
  tschCurrentAsn : Nat
  currentSlotStart : Int
  driftCorrection : Int
  isDriftCorrectionUsed : Bool
  lastSyncAsn : Nat
  tschLastSyncTime : Int
  tschCurrentChannelOffset : Nat
  tschCurrentChannel : Nat
  dequeuedRingbuf : List Nat
  inputRingbuf : List RxFrame
  transStatus : Nat
  aptTable : Nat → Nat

/-- A transmission that the slot operation recorded in `trans_status`. -/
structure TxOutcome where
  /-- of the link it was made through -/
  timeslot : Nat
  status : MacStatus
  /-- the frame went to a neighbor that is not a broadcast one -/
  unicast : Bool
  /-- the radio reported the frame as sent -/
  transmitted : Bool
  /-- a valid acknowledgement was read -/
  acknowledged : Bool
deriving DecidableEq, Repr

/-- A call of `update_q_table` by `scheduler_process`. -/
structure Credit where
  /-- the transmission whose status was read -/
  outcome : Option TxOutcome
  action : Nat
  reward : Int
deriving DecidableEq, Repr

structure Ghost where
  /-- packets accepted so far; their `uid`s are the numbers below -/
  accepted : Nat
  /-- packets the process has taken out of a queue or of the dequeued ring -/
  taken : List Nat
  /-- packets whose sent callback has run, and packets that were freed -/
  called : List Nat
  freed : List Nat
  /-- the `serial`s of the links `current_link` and `backup_link` were chosen for -/
  currentSerial : Option Nat
  backupSerial : Option Nat
  /-- `current_link` was chosen by `tsch_schedule_get_next_active_link`, and
  not kept by a burst -/
  fromSchedule : Bool
  /-- the link block a process is adding or removing -/
  linkInFlux : Option Nat
  /-- the frame of the transmit slot: as in `TxOutcome` -/
  frameUnicast : Bool
  frameTransmitted : Bool
  frameAcknowledged : Bool
  /-- the transmissions recorded in `trans_status`, the last one last -/
  outcomes : List TxOutcome
  /-- the one whose status `scheduler_process` read last -/
  readOutcome : Option TxOutcome
  /-- the action `scheduler_process` has chosen and not yet made the current one -/
  pendingAction : Option Nat
  credits : List Credit
deriving DecidableEq, Repr

structure TschState where
  lock : LockVars
  sched : ScheduleVars
  queue : QueueVars
  node : NodeVars
  slot : SlotVars
  ghost : Ghost

/-! ## Reading and writing blocks -/

namespace ScheduleVars

def setLink (v : ScheduleVars) (p : Nat) (l : TschLink) : ScheduleVars :=
  { v with links := Function.update v.links p l }

def setSlotframe (v : ScheduleVars) (b : Nat) (sf : TschSlotframe) : ScheduleVars :=
  { v with slotframes := Function.update v.slotframes b sf }

theorem setSlotframe_self {v : ScheduleVars} {b : Nat} {sf : TschSlotframe} :
    (v.setSlotframe b sf).slotframes b = sf := by
  simp only [setSlotframe, Function.update_self]

theorem setSlotframe_of_ne {v : ScheduleVars} {b c : Nat} {sf : TschSlotframe} (hc : c ≠ b) :
    (v.setSlotframe b sf).slotframes c = v.slotframes c := by
  simp only [setSlotframe, Function.update_of_ne hc]

/-- Every link of the schedule, slotframe by slotframe. -/
def allLinks (v : ScheduleVars) : List Nat :=
  v.slotframeList.flatMap fun b => (v.slotframes b).linksList

end ScheduleVars

namespace QueueVars

def modifyNeighbor (v : QueueVars) (n : LinkAddr) (f : TschNeighbor → TschNeighbor) : QueueVars :=
  { v with neighbors := Function.update v.neighbors n (f (v.neighbors n)) }

def modifyPacket (v : QueueVars) (p : Nat) (f : TschPacket → TschPacket) : QueueVars :=
  { v with packets := Function.update v.packets p (f (v.packets p)) }

end QueueVars

/-- A transmit slot is in progress. -/
def SlotPc.inTx : SlotPc → Bool
  | .txBeforeCca _ | .txBeforeTx _ | .txBeforeAck _ => true
  | .asleep | .rxBeforeListen | .rxBeforeAck _ => false

end QlTsch
