/-
# `QlTsch.Node` — the QL-TSCH application

`node.c`: the Q-table, the exploration policy, the two functions that write the
schedule, and one round of `scheduler_process`.

The Q arithmetic is read as exact rationals.  A draw of `random_rand` is an
argument; the draws of one round of the scheduler are its `Draws`.
-/
import Mathlib.Algebra.Field.Rat
import QlTsch.SlotOperation

namespace QlTsch

open Interleave

variable (cfg : Config)

/-! ## Parameters -/

def rewardSucces : Int := 1
def rewardFailure : Int := 0
def epsilonFixed : ℚ := 1 / 2
def learningRate : ℚ := 1 / 10
def discountFactor : ℚ := 19 / 20

/-! ## The Q-table -/

/-- `initialize_q_values`; `rands i` is the draw for entry `i`. -/
def initializeQValues (val : Bool) (rands : Nat → Nat) (qValues : Nat → ℚ) : Nat → ℚ := fun i =>
  if i < unicastSlotframeLength then
    if val then (rands i : ℚ) / cfg.randomRandMax else 0
  else qValues i

/-- `max_q_value_index`. -/
def maxQValueIndex (rand : Nat) (qValues : Nat → ℚ) : Nat :=
  scan (fun i max => qValues i > qValues max) unicastSlotframeLength
    (rand % unicastSlotframeLength)

/-- `update_q_table`. -/
def updateQTable (rand action : Nat) (reward : Int) (qValues : Nat → ℚ) : Nat → ℚ :=
  let max := maxQValueIndex rand qValues
  let expectedMaxQValue := qValues max + rewardSucces
  Function.update qValues action
    ((1 - learningRate) * qValues action +
      learningRate * (reward + discountFactor * expectedMaxQValue - qValues action))

/-! ## The policy -/

/-- `epsilon_new` of `policy_check`; the float quotient by a zero count is
infinite, so above `epsilon_fixed`. -/
def epsilonNew (cyclesSinceStart : Nat) : ℚ :=
  if cyclesSinceStart = 0 then epsilonFixed
  else if 10000 / (cyclesSinceStart : ℚ) > epsilonFixed then epsilonFixed
  else 10000 / (cyclesSinceStart : ℚ)

/-- `policy_check`: explore. -/
def policyCheck (cyclesSinceStart rand : Nat) : Bool :=
  (rand : ℚ) / cfg.randomRandMax < epsilonNew cyclesSinceStart

/-- The draws of one round of the scheduler: of the scan in `update_q_table`, of
`policy_check`, and of the scan that chooses the action. -/
structure Draws where
  update : Nat
  policy : Nat
  choice : Nat
deriving DecidableEq, Repr

/-- The action a round chooses. -/
def chooseAction (d : Draws) (s : TschState) : Nat :=
  if policyCheck cfg s.node.cyclesSinceStart d.policy then
    getSlotWithAptTableMinValue d.choice s.slot.aptTable
  else maxQValueIndex d.choice s.node.qValues

/-! ## Writing the schedule -/

namespace TschState

def setNode (v : NodeVars) (s : TschState) : TschState := { s with node := v }

def setSfBroadcast (sf : Option Nat) (s : TschState) : TschState :=
  s.setNode { s.node with sfBroadcast := sf }

def setSfUnicast (sf : Option Nat) (s : TschState) : TschState :=
  s.setNode { s.node with sfUnicast := sf }

def setCurrentAction (action : Nat) (s : TschState) : TschState :=
  s.setNode { s.node with currentAction := action }

/-- `links_unicast_sf[i] = l`. -/
def setLinkUnicast (i : Nat) (l : Option Nat) (s : TschState) : TschState :=
  s.setNode { s.node with linksUnicastSf := Function.update s.node.linksUnicastSf i l }

/-- `update_q_table(current_action, reward)`. -/
def creditAction (rand : Nat) (reward : Int) (s : TschState) : TschState :=
  { s with
    node := { s.node with
      qValues := updateQTable rand s.node.currentAction reward s.node.qValues }
    ghost := { s.ghost with
      credits := s.ghost.credits ++ [⟨s.ghost.readOutcome, s.node.currentAction, reward⟩] } }

/-- The action chosen in this round, until it is the current one. -/
def notePending (a : Option Nat) (s : TschState) : TschState :=
  { s with ghost := { s.ghost with pendingAction := a } }

/-- The choice of the action, noted until it is the current one. -/
def pickAction (d : Draws) (s : TschState) : Nat × TschState :=
  (chooseAction cfg d s, s.notePending (some (chooseAction cfg d s)))

/-- `current_action = action; cycles_since_start++`. -/
def finishRound (action : Nat) (s : TschState) : TschState :=
  (s.setNode { s.node with
    currentAction := action
    cyclesSinceStart := (s.node.cyclesSinceStart + 1) % 65536 }).notePending none

end TschState

def txShared : LinkOptions := ⟨true, false, true, false⟩
def rxShared : LinkOptions := ⟨false, true, true, false⟩
def txRxShared : LinkOptions := ⟨true, true, true, false⟩

/-- `links_unicast_sf[timeslot] = tsch_schedule_add_link(sf_unicast, …, timeslot, 0, do_remove)`,
for a normal link to the broadcast address. -/
def assignUnicastLink (linkOptions : LinkOptions) (timeslot : Nat) (doRemove : Bool) :
    Prog TschState Unit := do
  let sf ← Prog.read (fun s => s.node.sfUnicast)
  let l ← tschScheduleAddLink cfg sf linkOptions .normal (some cfg.tschBroadcastAddress)
    timeslot 0 doRemove
  Prog.modify (TschState.setLinkUnicast timeslot l)

/-- `init_tsch_schedule`. -/
def initTschSchedule (fuel : Nat) : Prog TschState Unit := do
  let _ ← tschScheduleRemoveAllSlotframes fuel fuel
  let sfb ← tschScheduleAddSlotframe cfg 0 broadcastSlotframeLength
  Prog.modify (TschState.setSfBroadcast sfb)
  let sfu ← tschScheduleAddSlotframe cfg 1 unicastSlotframeLength
  Prog.modify (TschState.setSfUnicast sfu)
  let sf ← Prog.read (fun s => s.node.sfBroadcast)
  let _ ← tschScheduleAddLink cfg sf txRxShared .advertising (some cfg.tschBroadcastAddress) 0 0
    false
  assignUnicastLink cfg txShared 0 false
  Prog.forEach (List.range' 1 (unicastSlotframeLength - 1)) fun i =>
    assignUnicastLink cfg rxShared i false

/-- `set_up_new_schedule`. -/
def setUpNewSchedule (action : Nat) : Prog TschState Unit := do
  if ← Prog.read (fun s => action != s.node.currentAction) then
    assignUnicastLink cfg txShared action true
    let current ← Prog.read (fun s => s.node.currentAction)
    assignUnicastLink cfg rxShared current true
    Prog.modify (TschState.setCurrentAction action)
  else pure ()

/-! ## The scheduler -/

/-- `while(1) if(p) break;`. -/
def spinUntil (fuel : Nat) (p : Prog TschState Bool) : Prog TschState Unit :=
  Prog.loop fuel (do
    if ← p then pure none else pure (some ())) fun _ => pure ()

/-- The reward for a transmission status. -/
def rewardOf (transmissionStatus : Nat) : Int :=
  if transmissionStatus = 1 then rewardSucces else rewardFailure

/-- The results of the last action: a transmission is credited to the current
action. -/
def settleReward (d : Draws) : Prog TschState Unit := do
  let transmissionStatus ← Prog.update TschState.getAndResetTxSlotStatus
  if transmissionStatus ≠ 0 then
    Prog.modify (TschState.creditAction d.update (rewardOf transmissionStatus))
  else pure ()

/-- What a round does under the lock. -/
def settleAndChoose (d : Draws) : Prog TschState Nat := do
  settleReward d
  Prog.update (TschState.pickAction cfg d)

/-- One round of the loop of `scheduler_process`, from the expiry of its timer. -/
def schedulerRound (fuel : Nat) (d : Draws) : Prog TschState Unit := do
  spinUntil fuel tschGetLock
  let action ← settleAndChoose cfg d
  tschReleaseLock
  -- the new schedule is set up after the lock is released
  setUpNewSchedule cfg action
  Prog.waitFor (fun s => !tschIsLocked s)
  Prog.modify (TschState.finishRound action)

/-! ## Start-up -/

/-- A link block as static memory holds it. -/
def emptyLink : TschLink := ⟨0, 0, 0, 0, 0, ⟨false, false, false, false⟩, .normal, 0⟩

def emptyPacket : TschPacket := ⟨false, 0, 0, .ok, 0, 0, false, 0⟩

/-- The variables of a node that has just run `tsch_queue_init`: the two virtual
neighbors, an empty schedule, not associated. -/
def TschState.boot : TschState where
  lock := ⟨false, false⟩
  sched := ⟨∅, fun _ => emptyLink, ∅, fun _ => ⟨0, 0, []⟩, [], 0⟩
  queue := ⟨∅, fun _ => emptyPacket, [cfg.tschEbAddress, cfg.tschBroadcastAddress],
    newNeighbor cfg, some cfg.tschBroadcastAddress, some cfg.tschEbAddress⟩
  node := ⟨none, none, fun _ => none, 0, fun _ => 0, 0⟩
  slot :=
    { tschIsAssociated := false, tschIsCoordinator := false, tschInSlotOperation := false
      pc := .asleep, timer := none, currentLink := none, backupLink := none
      currentPacket := none, currentNeighbor := none, burstLinkScheduled := false
      tschCurrentBurstCount := 0, tschCurrentAsn := 0, currentSlotStart := 0
      driftCorrection := 0, isDriftCorrectionUsed := false, lastSyncAsn := 0
      tschLastSyncTime := 0, tschCurrentChannelOffset := 0, tschCurrentChannel := 0
      dequeuedRingbuf := [], inputRingbuf := [], transStatus := 0, aptTable := fun _ => 0 }
  ghost :=
    { accepted := 0, taken := [], called := [], freed := []
      currentSerial := none, backupSerial := none, fromSchedule := false, linkInFlux := none
      frameUnicast := false, frameTransmitted := false, frameAcknowledged := false
      outcomes := [], readOutcome := none, pendingAction := none, credits := [] }

/-- A build with a neighbor table of `maxNeighbors` entries, to compute with. -/
def smallBuild (maxNeighbors : Nat) : Config where
  tschBroadcastAddress := 255
  tschEbAddress := 254
  linkaddrNull := 0
  linkaddrNodeAddr := 1
  memb := .firstFree
  tschScheduleMaxLinks := 32
  tschScheduleMaxSlotframes := 4
  queuebufNum := 8
  txRingbufCapacity := 7
  dequeuedRingbufCapacity := 15
  inputRingbufCapacity := 15
  nbrTableAdd := fun ns _ => if ns.length < maxNeighbors then some ns.length else none
  nbrTableAdd_le := by
    intro ns a i h
    split at h
    · cases h
      exact le_rfl
    · cases h
  tschMacMinBe := 1
  tschMacMaxBe := 5
  tschBurstMaxLen := 32
  tschCcaEnabled := false
  llsec802154Enabled := false
  tschHoppingSequence := fun i => if i = 0 then 20 else 25
  tschHoppingSequenceLength := 2
  tsTimeslotLength := 328
  rtimerGuard := 2
  rtimerBits := 32
  syncIeBound := 32
  desyncThresholdSlots := 6000
  randomRandMax := 65535

/-- The node after `init_tsch_schedule`. -/
def TschState.scheduled (fuel : Nat) : TschState :=
  match (initTschSchedule cfg fuel).exec (TschState.boot cfg) with
  | some (_, s) => s
  | none => TschState.boot cfg

/-- Associated as a coordinator, the timer armed for the slot `asn`. -/
def TschState.joined (asn : Nat) (s : TschState) : TschState :=
  { s with slot := { s.slot with
      tschIsAssociated := true, tschIsCoordinator := true, tschCurrentAsn := asn
      timer := some 0 } }

/-- The initial schedule, one slot before the Tx link of the unicast slotframe,
with one packet queued for `addr`. -/
def oneQueued (addr : LinkAddr) : TschState :=
  match (tschQueueAddPacket (smallBuild 8) addr 3 0 0 true).exec
      (((TschState.scheduled (smallBuild 8) 20)).joined 14) with
  | some (_, s) => s
  | none => TschState.boot (smallBuild 8)

/-- A radio that sends, hears nothing, and a timer that is never late. -/
def SlotInput.quiet (now : Int) : SlotInput where
  packetReady := true
  prepareOk := true
  channelClear := true
  transmitOk := true
  ackLen := 0
  eackParsed := false
  eackAuthenticated := false
  eackTimeCorrection := 0
  rand := 0
  received := none
  clockTime := 0
  loop := [⟨0, now, true⟩]

end QlTsch
