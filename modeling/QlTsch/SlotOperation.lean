/-
# `QlTsch.SlotOperation` — the slot operation

`tsch-slot-operation.c` from the channel computation down: the protothread
`tsch_slot_operation` with its two sub-protothreads.  One interrupt runs the
protothread from the yield it stopped at (`SlotVars.pc`) to its next yield, so
the unit here is the code between two yields: `slotStep`.

A yield of the source is taken only if the timer could be armed in time.  Here
every yield is taken, and the interrupt that resumes it may come at once; so
each order of events of the source is one of the orders here.

What the radio, the parser, the clocks and `random_rand` answer is the input of
the step.  Where the source follows a NULL `current_link`, `current_packet` or
`current_neighbor` there is no step.

Left out: the log, the statistics, the LEDs, `tsch_schedule_keepalive` and
`tsch_timesync_update`, which nothing modelled reads back.
-/
import QlTsch.Lib.Scan
import QlTsch.Schedule

namespace QlTsch

open Interleave (scan)

variable (cfg : Config)

/-! ## QL-TSCH: the APT table and the transmission status -/

namespace TschState

/-- `reset_apt_table`. -/
def resetAptTable (s : TschState) : TschState :=
  { s with slot := { s.slot with
      aptTable := fun i => if i < unicastSlotframeLength then 0 else s.slot.aptTable i } }

/-- `get_and_reset_Tx_slot_status`. -/
def getAndResetTxSlotStatus (s : TschState) : Nat × TschState :=
  (s.slot.transStatus, { s with
    slot := { s.slot with transStatus := 0 }
    ghost := { s.ghost with readOutcome := s.ghost.outcomes.getLast? } })

end TschState

/-- `get_slot_with_apt_table_min_value`; `rand` is the draw of `random_rand`. -/
def getSlotWithAptTableMinValue (rand : Nat) (aptTable : Nat → Nat) : Nat :=
  scan (fun i min => aptTable i < aptTable min) unicastSlotframeLength
    (rand % unicastSlotframeLength)

/-! ## Channels and timers -/

/-- `tsch_calculate_channel`; the index arithmetic is in `uint16_t`. -/
def tschCalculateChannel (asn channelOffset : Nat) : Nat :=
  let indexOf0 := asn % cfg.tschHoppingSequenceLength
  cfg.tschHoppingSequence ((indexOf0 + channelOffset) % cfg.tschHoppingSequenceLength)

/-- `rtimer_clock_t` arithmetic. -/
def Config.rtimer (x : Int) : Int := x % 2 ^ cfg.rtimerBits

/-- `check_timer_miss`. -/
def checkTimerMiss (refTime offset now : Int) : Bool :=
  let target := cfg.rtimer (refTime + offset)
  let nowHasOverflowed := decide (now < refTime)
  let targetHasOverflowed := decide (target < refTime)
  if nowHasOverflowed = targetHasOverflowed then decide (target ≤ now)
  else nowHasOverflowed

/-- `tsch_schedule_slot_operation`: whether the timer was armed, given what
`RTIMER_NOW` reads and whether `rtimer_set` accepts. -/
def tschScheduleSlotOperation (refTime offset now : Int) (rtimerOk : Bool) : Bool :=
  !checkTimerMiss cfg refTime (cfg.rtimer (offset - cfg.rtimerGuard)) now && rtimerOk

/-! ## The packet for a link -/

/-- The EB part of `get_packet_and_neighbor_for_link`. -/
def getEbPacket (s : TschState) (link : TschLink) : Option Nat × Option LinkAddr :=
  if link.linkType = .advertising ∨ link.linkType = .advertisingOnly then
    (tschQueueGetPacketForNbr s s.queue.nEb link, s.queue.nEb)
  else (none, none)

/-- The data part of `get_packet_and_neighbor_for_link`: the queue of the link's
neighbor, and on a broadcast link any other. -/
def getDataPacket (s : TschState) (link : TschLink) : Option Nat × Option LinkAddr :=
  let n := tschQueueGetNbr s link.addr
  let p := tschQueueGetPacketForNbr s n link
  if p = none ∧ n = s.queue.nBroadcast then
    match tschQueueGetUnicastPacketForAny s link with
    | some (n', p') => (some p', some n')
    | none => (none, n)
  else (p, n)

/-- `get_packet_and_neighbor_for_link`: the packet, and the neighbor written
through the pointer. -/
def getPacketAndNeighborForLink (s : TschState) (link : TschLink) : Option Nat × Option LinkAddr :=
  if link.linkOptions.tx then
    let eb := getEbPacket s link
    if link.linkType ≠ .advertisingOnly ∧ eb.1 = none then getDataPacket s link else eb
  else (none, none)

/-- `update_link_backoff`. -/
def updateLinkBackoff (link : Option Nat) (s : TschState) : TschState :=
  match link with
  | none => s
  | some p =>
      if (s.link p).linkOptions.tx && (s.link p).linkOptions.shared then
        tschQueueUpdateAllBackoffWindows cfg (s.link p).addr s
      else s

/-! ## Single writes of the slot operation -/

namespace TschState

def setPc (pc : SlotPc) (s : TschState) : TschState := { s with slot := { s.slot with pc := pc } }

/-- The timer fired. -/
def disarm (s : TschState) : TschState := { s with slot := { s.slot with timer := none } }

def armTimer (t : Int) (s : TschState) : TschState :=
  { s with slot := { s.slot with timer := some t } }

/-- The slot operation is not skipped. -/
def enterSlot (s : TschState) : TschState :=
  { s with slot := { s.slot with
      tschInSlotOperation := true
      driftCorrection := 0
      isDriftCorrectionUsed := false } }

/-- Back to the yield at the end of the loop. -/
def sleep (s : TschState) : TschState :=
  { s with slot := { s.slot with tschInSlotOperation := false, pc := .asleep } }

def setBurstLinkScheduled (b : Bool) (s : TschState) : TschState :=
  { s with slot := { s.slot with burstLinkScheduled := b } }

/-- A coordinator is always in sync. -/
def keepTime (clockTime : Int) (s : TschState) : TschState :=
  { s with slot := { s.slot with
      lastSyncAsn := s.slot.tschCurrentAsn
      tschLastSyncTime := clockTime } }

/-- `tsch_disassociate`. -/
def disassociate (s : TschState) : TschState :=
  { s with slot := { s.slot with tschIsAssociated := false } }

/-- Take a time correction from the time source. -/
def synchronize (drift clockTime : Int) (s : TschState) : TschState :=
  { s with slot := { s.slot with
      driftCorrection := drift
      isDriftCorrectionUsed := true
      lastSyncAsn := s.slot.tschCurrentAsn
      tschLastSyncTime := clockTime } }

/-- `tsch_packet_set_frame_pending`. -/
def setFramePending (p : Nat) (s : TschState) : TschState :=
  s.modifyPacket p fun e => { e with framePending := true }

/-- A frame for a neighbor is about to be sent. -/
def noteFrame (unicast : Bool) (s : TschState) : TschState :=
  { s with ghost := { s.ghost with
      frameUnicast := unicast, frameTransmitted := false, frameAcknowledged := false } }

def noteTransmitted (b : Bool) (s : TschState) : TschState :=
  { s with ghost := { s.ghost with frameTransmitted := b } }

def noteAcknowledged (b : Bool) (s : TschState) : TschState :=
  { s with ghost := { s.ghost with frameAcknowledged := b } }

/-- `ringbufindex_put(&input_ringbuf)`. -/
def putInput (f : RxFrame) (s : TschState) : TschState :=
  { s with slot := { s.slot with inputRingbuf := s.slot.inputRingbuf ++ [f] } }

/-- `ringbufindex_put(&dequeued_ringbuf)`. -/
def putDequeued (p : Nat) (s : TschState) : TschState :=
  { s with slot := { s.slot with dequeuedRingbuf := s.slot.dequeuedRingbuf ++ [p] } }

end TschState

/-! ## The end of a slot -/

/-- What one round of the catch-up loop gets from outside: the result of
`tsch_timesync_adaptive_compensate`, the timer, and `rtimer_set`. -/
structure LoopInput where
  compensate : Int
  now : Int
  rtimerOk : Bool
deriving DecidableEq, Repr

/-- What one step of the slot operation gets from outside. -/
structure SlotInput where
  packetReady : Bool
  prepareOk : Bool
  channelClear : Bool
  transmitOk : Bool
  /-- what `NETSTACK_RADIO.read` returns -/
  ackLen : Int
  eackParsed : Bool
  eackAuthenticated : Bool
  eackTimeCorrection : Int
  rand : Nat
  received : Option RxFrame
  clockTime : Int
  loop : List LoopInput
deriving DecidableEq, Repr

/-- Repeat the current link for the burst. -/
def replayBurst (s : TschState) : TschState :=
  { s with
    slot := { s.slot with
      backupLink := none
      tschCurrentBurstCount := s.slot.tschCurrentBurstCount + 1 }
    ghost := { s.ghost with backupSerial := none, fromSchedule := false } }

/-- Take the next link from the schedule. -/
def selectLink (s : TschState) : TschState :=
  let r := tschScheduleGetNextActiveLink s s.slot.tschCurrentAsn
  { s with
    slot := { s.slot with
      currentLink := r.currBest
      backupLink := r.currBackup
      tschCurrentBurstCount := if r.currBest.isSome then 0 else s.slot.tschCurrentBurstCount }
    ghost := { s.ghost with
      currentSerial := r.currBest.map fun p => (s.link p).serial
      backupSerial := r.currBackup.map fun p => (s.link p).serial
      fromSchedule := true } }

/-- `timeslot_diff` for the link just selected: 1 if there is none. -/
def timeslotDiff (r : NextLink) : Nat := if r.currBest.isSome then r.timeToCurrBest else 1

/-- `time_to_next_active_slot`. -/
def timeToNextActiveSlot (diff : Nat) (i : LoopInput) (s : TschState) : Int :=
  cfg.rtimer (cfg.rtimer (diff * cfg.tsTimeslotLength + s.slot.driftCorrection) + i.compensate)

/-- Advance the ASN and the slot clock. -/
def advanceClock (diff : Nat) (i : LoopInput) (s : TschState) : TschState :=
  { s with slot := { s.slot with
      tschCurrentAsn := s.slot.tschCurrentAsn + diff
      driftCorrection := 0
      isDriftCorrectionUsed := false
      currentSlotStart :=
        cfg.rtimer (s.slot.currentSlotStart + timeToNextActiveSlot cfg diff i s) } }

/-- Keep the link for the burst or take the next one; with the number of slots
to it. -/
def nextLink (s : TschState) : TschState × Nat :=
  if s.slot.burstLinkScheduled && s.slot.currentLink.isSome then (replayBurst s, 1)
  else (selectLink s, timeslotDiff (tschScheduleGetNextActiveLink s s.slot.tschCurrentAsn))

/-- The body of the catch-up loop, up to the attempt to arm the timer: the new
state, and the offset the timer is to be armed at. -/
def slotEndRound (i : LoopInput) (s : TschState) : TschState × Int :=
  let r := nextLink (updateLinkBackoff cfg s.slot.currentLink s)
  (advanceClock cfg r.2 i r.1, timeToNextActiveSlot cfg r.2 i r.1)

/-- The catch-up loop: rounds until the timer could be armed.  `none` if the
input has no round left. -/
def scheduleNextSlot : List LoopInput → TschState → Option TschState
  | [], _ => none
  | i :: is, s =>
      let r := slotEndRound cfg i s
      if tschScheduleSlotOperation cfg s.slot.currentSlotStart r.2 i.now i.rtimerOk then
        some (r.1.armTimer (cfg.rtimer (s.slot.currentSlotStart + r.2)))
      else scheduleNextSlot is r.1

/-- Out of sync for too long. -/
def desynchronized (s : TschState) : Bool :=
  (s.slot.tschCurrentAsn - s.slot.lastSyncAsn) % 2 ^ 32 > cfg.desyncThresholdSlots

/-- End of slot operation: keep the coordinator's clock, leave the network when
out of sync, else schedule the next slot. -/
def endOfSlot (i : SlotInput) (s : TschState) : Option TschState :=
  if s.slot.tschIsCoordinator then
    (scheduleNextSlot cfg i.loop (s.keepTime i.clockTime)).map TschState.sleep
  else if desynchronized cfg s then some s.disassociate.sleep
  else (scheduleNextSlot cfg i.loop s).map TschState.sleep

/-! ## The transmit slot -/

/-- Record the outcome in the packet and, for a link of slotframe 1, in
`trans_status`. -/
def recordOutcome (p l : Nat) (macTxStatus : MacStatus) (s : TschState) : TschState :=
  let s := s.modifyPacket p fun e =>
    { e with transmissions := (e.transmissions + 1) % 256, ret := macTxStatus }
  if (s.link l).slotframeHandle = 1 then
    { s with
      slot := { s.slot with transStatus := if macTxStatus = .ok then 1 else 2 }
      ghost := { s.ghost with outcomes := s.ghost.outcomes ++
        [⟨(s.link l).timeslot, macTxStatus, s.ghost.frameUnicast, s.ghost.frameTransmitted,
          s.ghost.frameAcknowledged⟩] } }
  else s

/-- Update the neighbor's queue, and put a packet that left it into the
dequeued ring. -/
def dequeueOutcome (n : LinkAddr) (p l : Nat) (macTxStatus : MacStatus) (rand : Nat)
    (s : TschState) : TschState :=
  let r := tschQueuePacketSent cfg n p (s.link l) macTxStatus rand s
  if r.1 then r.2 else r.2.putDequeued p

/-- What the end of a transmit slot writes, the link apart. -/
def finishTx (n : LinkAddr) (p l : Nat) (macTxStatus : MacStatus) (rand : Nat)
    (s : TschState) : TschState :=
  dequeueOutcome cfg n p l macTxStatus rand (recordOutcome p l macTxStatus s)

/-- The end of `tsch_tx_slot`, with the status the slot came to. -/
def txSlotEnd (macTxStatus : MacStatus) (i : SlotInput) (s : TschState) : Option TschState :=
  match s.slot.currentPacket, s.slot.currentNeighbor, s.slot.currentLink with
  | some p, some n, some l => endOfSlot cfg i (finishTx cfg n p l macTxStatus i.rand s)
  | _, _, _ => none

/-- `burst_link_requested`. -/
def burstLinkRequested (n : LinkAddr) (s : TschState) : Bool :=
  !(s.queue.neighbors n).isBroadcast
    && s.slot.tschCurrentBurstCount + 1 < cfg.tschBurstMaxLen
    && tschQueueNbrPacketCount s (some n) > 1

/-- The locals of the transmit slot. -/
def txLocals (n : LinkAddr) (s : TschState) : TxLocals :=
  ⟨!(s.queue.neighbors n).isBroadcast, burstLinkRequested cfg n s⟩

/-- The frame as it is handed to the radio. -/
def prepareFrame (n : LinkAddr) (p : Nat) (s : TschState) : TschState :=
  let s' := s.noteFrame (!(s.queue.neighbors n).isBroadcast)
  if burstLinkRequested cfg n s then s'.setFramePending p else s'

/-- `packet_ready`: an EB needs `tsch_packet_update_eb`. -/
def packetReady (i : SlotInput) (s : TschState) : Bool :=
  if s.slot.currentNeighbor = s.queue.nEb then i.packetReady else true

/-- `tsch_tx_slot` up to its first yield. -/
def txSlotBegin (i : SlotInput) (s : TschState) : Option TschState :=
  if s.slot.dequeuedRingbuf.length < cfg.dequeuedRingbufCapacity then
    match s.slot.currentPacket, s.slot.currentNeighbor with
    | some p, some n =>
        if !(s.queue.packets p).hasQueuebuf then
          txSlotEnd cfg .errFatal i (s.noteFrame (!(s.queue.neighbors n).isBroadcast))
        else
          let s' := prepareFrame cfg n p s
          if packetReady i s && i.prepareOk then
            if cfg.tschCcaEnabled then some (s'.setPc (.txBeforeCca (txLocals cfg n s)))
            else some (s'.setPc (.txBeforeTx (txLocals cfg n s)))
          else txSlotEnd cfg .err i s'
    | _, _ => none
  else endOfSlot cfg i s

/-- `tsch_tx_slot` from the CCA to the yield before the transmission. -/
def txSlotCca (locals : TxLocals) (i : SlotInput) (s : TschState) : Option TschState :=
  if i.channelClear then some (s.setPc (.txBeforeTx locals))
  else txSlotEnd cfg .collision i s

/-- `tsch_tx_slot` from the transmission to the yield before the ACK. -/
def txSlotTransmit (locals : TxLocals) (i : SlotInput) (s : TschState) : Option TschState :=
  let s := s.noteTransmitted i.transmitOk
  if i.transmitOk then
    if locals.doWaitForAck then some (s.setPc (.txBeforeAck locals))
    else txSlotEnd cfg .ok i s
  else txSlotEnd cfg .err i s

/-- `ack_len` once the parsers are through with it. -/
def parsedAckLen (i : SlotInput) : Int :=
  if i.ackLen > 0 then
    if i.eackParsed && (!cfg.llsec802154Enabled || i.eackAuthenticated) then i.ackLen else 0
  else i.ackLen

/-- The source takes every nonzero `ack_len` for an acknowledgement. -/
def ackAccepted (i : SlotInput) : Bool := parsedAckLen cfg i ≠ 0

/-- Whether a valid acknowledgement was read. -/
def ackReceived (i : SlotInput) : Bool :=
  i.ackLen > 0 && i.eackParsed && (!cfg.llsec802154Enabled || i.eackAuthenticated)

theorem ackReceived_eq (i : SlotInput) :
    ackReceived cfg i = (ackAccepted cfg i && decide (i.ackLen > 0)) := by
  by_cases hpos : i.ackLen > 0
  · have hne : i.ackLen ≠ 0 := by omega
    simp only [ackReceived, ackAccepted, parsedAckLen, hpos, decide_true, Bool.true_and,
      Bool.and_true]
    cases i.eackParsed && (!cfg.llsec802154Enabled || i.eackAuthenticated) <;> simp [hne]
  · simp [ackReceived, hpos]

/-- What the source expects of the radio driver: "the radio driver should return 0 if no
valid packets are in the rx buffer", and nothing below. -/
def SlotInput.ReadOk (i : SlotInput) : Prop := 0 ≤ i.ackLen

instance (i : SlotInput) : Decidable i.ReadOk := inferInstanceAs (Decidable (0 ≤ i.ackLen))

/-- A negative `ack_len` passes for an acknowledgement too. -/
theorem ackAccepted_iff (i : SlotInput) :
    ackAccepted cfg i = true ↔ ackReceived cfg i = true ∨ ¬ i.ReadOk := by
  rw [ackReceived_eq, Bool.and_eq_true, decide_eq_true_eq, SlotInput.ReadOk]
  constructor
  · intro h
    by_cases hpos : i.ackLen > 0
    · exact .inl ⟨h, hpos⟩
    · have hlen : parsedAckLen cfg i = i.ackLen := if_neg hpos
      rw [ackAccepted, hlen, decide_eq_true_eq] at h
      exact .inr (by omega)
  · rintro (h | hneg)
    · exact h.1
    · have hlen : parsedAckLen cfg i = i.ackLen := if_neg (by omega)
      rw [ackAccepted, hlen, decide_eq_true_eq]
      omega

theorem ackAccepted_of_received {i : SlotInput} (h : ackReceived cfg i = true) :
    ackAccepted cfg i = true :=
  (ackAccepted_iff cfg i).mpr (.inl h)

theorem ackReceived_of_accepted {i : SlotInput} (hread : i.ReadOk) (h : ackAccepted cfg i = true) :
    ackReceived cfg i = true :=
  ((ackAccepted_iff cfg i).mp h).resolve_right (not_not_intro hread)

/-- The time correction of an ACK, cut to the bound. -/
def boundCorrection (correction : Int) : Int :=
  if correction > cfg.syncIeBound then cfg.syncIeBound
  else if correction < -cfg.syncIeBound then -cfg.syncIeBound
  else correction

/-- What an accepted acknowledgement from `n` changes. -/
def acceptAck (n : LinkAddr) (locals : TxLocals) (i : SlotInput) (s : TschState) : TschState :=
  let s := if i.ackLen > 0 && (s.queue.neighbors n).isTimeSource then
      s.synchronize (boundCorrection cfg i.eackTimeCorrection) i.clockTime
    else s
  if locals.burstLinkRequested then s.setBurstLinkScheduled true else s

/-- `tsch_tx_slot` from the ACK to its end. -/
def txSlotAck (locals : TxLocals) (i : SlotInput) (s : TschState) : Option TschState :=
  let s := s.noteAcknowledged (ackReceived cfg i)
  match s.slot.currentNeighbor with
  | none => none
  | some n =>
      if ackAccepted cfg i then txSlotEnd cfg .ok i (acceptAck cfg n locals i s)
      else txSlotEnd cfg .noack i s

/-! ## The receive slot -/

/-- A frame for this node: addressed to it or broadcast, and not its own. -/
def frameIsForUs (f : RxFrame) : Bool :=
  f.frameValid && f.isDataOrBeacon && (!cfg.llsec802154Enabled || f.authenticated)
    && (f.destinationAddress == cfg.linkaddrNodeAddr || f.destinationAddress == cfg.linkaddrNull)
    && f.sourceAddress != cfg.linkaddrNodeAddr

/-- Take the drift of a frame from the time source. -/
def syncFromFrame (f : RxFrame) (i : SlotInput) (s : TschState) : TschState :=
  match tschQueueGetNbr s f.sourceAddress with
  | none => s
  | some n =>
      if (s.queue.neighbors n).isTimeSource then s.synchronize (-f.estimatedDrift) i.clockTime
      else s

/-- Count a reception in slotframe 1 in the APT table. -/
def countReception (l : Nat) (s : TschState) : TschState :=
  if (s.link l).slotframeHandle = 1 then
    { s with slot := { s.slot with
        aptTable := Function.update s.slot.aptTable (s.link l).timeslot
          ((s.slot.aptTable (s.link l).timeslot + 1) % 256) } }
  else s

/-- The end of `tsch_rx_slot` for a frame that is delivered. -/
def rxSlotDeliver (f : RxFrame) (i : SlotInput) (s : TschState) : Option TschState :=
  match s.slot.currentLink with
  | none => none
  | some l => endOfSlot cfg i ((countReception l (syncFromFrame f i s)).putInput f)

/-- `tsch_rx_slot` up to its first yield. -/
def rxSlotBegin (i : SlotInput) (s : TschState) : Option TschState :=
  if s.slot.inputRingbuf.length < cfg.inputRingbufCapacity then some (s.setPc .rxBeforeListen)
  else endOfSlot cfg i s

/-- `tsch_rx_slot` from the guard time to the yield before the ACK. -/
def rxSlotListen (i : SlotInput) (s : TschState) : Option TschState :=
  match i.received with
  | none => endOfSlot cfg i s
  | some f =>
      if frameIsForUs cfg f then
        if f.ackRequired && f.eackBuilt then some (s.setPc (.rxBeforeAck f))
        else rxSlotDeliver cfg f i s
      else endOfSlot cfg i s

/-- `tsch_rx_slot` from the ACK to its end. -/
def rxSlotAck (f : RxFrame) (i : SlotInput) (s : TschState) : Option TschState :=
  rxSlotDeliver cfg f i (s.setBurstLinkScheduled f.framePending)

/-! ## The start of a slot -/

/-- `current_packet = get_packet_and_neighbor_for_link(current_link, &current_neighbor)`. -/
def getCurrentPacket (l : Nat) (s : TschState) : TschState :=
  let r := getPacketAndNeighborForLink s (s.link l)
  { s with slot := { s.slot with currentPacket := r.1, currentNeighbor := r.2 } }

/-- `do_skip_best_link`, once the packet of the best link is known. -/
def doSkipBestLink (l : Nat) (s : TschState) : Option Nat :=
  if s.slot.currentPacket = none then
    match s.slot.backupLink with
    | some b =>
        if !(s.link l).linkOptions.rx || (s.link b).slotframeHandle < (s.link l).slotframeHandle
        then some b else none
    | none => none
  else none

/-- `current_link = backup_link`. -/
def switchToBackup (b : Nat) (s : TschState) : TschState :=
  { s with
    slot := { s.slot with currentLink := some b }
    ghost := { s.ghost with currentSerial := s.ghost.backupSerial } }

/-- The link the slot runs on and its packet: the best link, or the backup. -/
def chooseLink (l : Nat) (s : TschState) : TschState :=
  let s := getCurrentPacket l s
  match doSkipBestLink l s with
  | none => s
  | some b => getCurrentPacket b (switchToBackup b (updateLinkBackoff cfg (some l) s))

/-- Stick to the channel of a burst, or hop. -/
def setChannel (l : Nat) (s : TschState) : TschState :=
  if s.slot.burstLinkScheduled then s.setBurstLinkScheduled false
  else
    let offset := (s.link l).channelOffset % 256
    { s with slot := { s.slot with
        tschCurrentChannelOffset := offset
        tschCurrentChannel := tschCalculateChannel cfg s.slot.tschCurrentAsn offset } }

/-- A slot on link `l`, its packet known, up to its first yield. -/
def runSlot (l : Nat) (i : SlotInput) (s : TschState) : Option TschState :=
  if s.slot.currentPacket.isSome then txSlotBegin cfg i (setChannel cfg l s)
  else if (s.link l).linkOptions.rx then rxSlotBegin cfg i (setChannel cfg l s)
  else endOfSlot cfg i (s.setBurstLinkScheduled false)

/-- A slot operation that is not skipped, up to its first yield. -/
def beginSlot (l : Nat) (i : SlotInput) (s : TschState) : Option TschState :=
  let s := chooseLink cfg l s.enterSlot
  match s.slot.currentLink with
  | none => none
  | some l => runSlot cfg l i s

/-- The timer of the next slot fires: one round of the loop of
`tsch_slot_operation`, up to its first yield. -/
def wakeUp (i : SlotInput) (s : TschState) : Option TschState :=
  if s.slot.tschIsAssociated then
    match s.slot.currentLink with
    | none => endOfSlot cfg i s.disarm
    | some l =>
        if s.lock.tschLockRequested then endOfSlot cfg i s.disarm else beginSlot cfg l i s.disarm
  else some s.disarm

/-- One interrupt: the slot operation from one yield to the next. -/
def slotStep (i : SlotInput) (s : TschState) : Option TschState :=
  match s.slot.pc with
  | .asleep => if s.slot.timer.isSome then wakeUp cfg i s else none
  | .txBeforeCca locals => txSlotCca cfg locals i s
  | .txBeforeTx locals => txSlotTransmit cfg locals i s
  | .txBeforeAck locals => txSlotAck cfg locals i s
  | .rxBeforeListen => rxSlotListen cfg i s
  | .rxBeforeAck f => rxSlotAck cfg f i s

end QlTsch
