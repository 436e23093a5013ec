/-
# `QlTsch.Queue` — neighbors and their packet queues

`tsch-queue.c`.  The first half is what both contexts call and what only reads
or is called from the slot interrupt: plain functions of the state.  The second
half is called from processes: programs, an action wherever the source touches
memory that the slot interrupt also sees.

The sent callback of a packet is a function of the caller of
`tsch_queue_add_packet`; its run is recorded in `Ghost.called`.
-/
import QlTsch.Lock

namespace QlTsch

open Interleave

variable (cfg : Config)

namespace TschState

def modifyNeighbor (n : LinkAddr) (f : TschNeighbor → TschNeighbor) (s : TschState) : TschState :=
  { s with queue := s.queue.modifyNeighbor n f }

def modifyPacket (p : Nat) (f : TschPacket → TschPacket) (s : TschState) : TschState :=
  { s with queue := s.queue.modifyPacket p f }

end TschState

/-! ## Neighbors, read -/

/-- `tsch_queue_get_nbr`. -/
def tschQueueGetNbr (s : TschState) (addr : LinkAddr) : Option LinkAddr :=
  if tschIsLocked s then none
  else if addr ∈ s.queue.tschNeighbors then some addr else none

/-- `tsch_queue_get_time_source`. -/
def tschQueueGetTimeSource (s : TschState) : Option LinkAddr :=
  if tschIsLocked s then none
  else s.queue.tschNeighbors.find? fun n => (s.queue.neighbors n).isTimeSource

/-- `tsch_queue_nbr_packet_count`. -/
def tschQueueNbrPacketCount (s : TschState) : Option LinkAddr → Int
  | some n => (s.queue.neighbors n).txRingbuf.length
  | none => -1

/-- `tsch_queue_is_empty`. -/
def tschQueueIsEmpty (s : TschState) : Option LinkAddr → Bool
  | some n => !tschIsLocked s && (s.queue.neighbors n).txRingbuf.isEmpty
  | none => false

/-! ## Backoff -/

/-- `tsch_queue_backoff_expired`. -/
def tschQueueBackoffExpired (n : TschNeighbor) : Bool := n.backoffWindow == 0

/-- `tsch_queue_backoff_reset`. -/
def tschQueueBackoffReset (n : TschNeighbor) : TschNeighbor :=
  { n with backoffWindow := 0, backoffExponent := cfg.tschMacMinBe }

/-- `tsch_queue_backoff_inc`; `rand` is the draw of `random_rand`. -/
def tschQueueBackoffInc (rand : Nat) (n : TschNeighbor) : TschNeighbor :=
  let be := min (n.backoffExponent + 1) cfg.tschMacMaxBe % 256
  { n with
    backoffExponent := be
    backoffWindow := ((rand >>> 6) % (1 <<< be) % 256 + 1) % 256 }

/-- The test `tsch_queue_update_all_backoff_windows` makes for one neighbor. -/
def backoffWindowCounts (destAddr n : LinkAddr) (e : TschNeighbor) : Bool :=
  e.backoffWindow != 0 &&
    ((e.txLinksCount == 0 && destAddr == cfg.tschBroadcastAddress)
      || (e.txLinksCount != 0 && destAddr == n))

/-- `tsch_queue_update_all_backoff_windows`. -/
def tschQueueUpdateAllBackoffWindows (destAddr : LinkAddr) (s : TschState) : TschState :=
  if tschIsLocked s then s
  else
    { s with queue := { s.queue with
        neighbors := fun n =>
          let e := s.queue.neighbors n
          if n ∈ s.queue.tschNeighbors ∧ backoffWindowCounts cfg destAddr n e then
            { e with backoffWindow := e.backoffWindow - 1 }
          else e } }

/-! ## Choosing a packet -/

/-- `tsch_queue_get_packet_for_nbr`, the link selector disabled. -/
def tschQueueGetPacketForNbr (s : TschState) (n : Option LinkAddr) (link : TschLink) :
    Option Nat :=
  if tschIsLocked s then none
  else
    match n with
    | none => none
    | some n =>
        match (s.queue.neighbors n).txRingbuf.head? with
        | none => none
        | some p =>
            if link.linkOptions.shared && !tschQueueBackoffExpired (s.queue.neighbors n) then none
            else some p

/-- `tsch_queue_get_unicast_packet_for_any`: the neighbor it writes through
its pointer, and the packet. -/
def tschQueueGetUnicastPacketForAny (s : TschState) (link : TschLink) :
    Option (LinkAddr × Nat) :=
  if tschIsLocked s then none
  else
    s.queue.tschNeighbors.findSome? fun n =>
      if !(s.queue.neighbors n).isBroadcast && (s.queue.neighbors n).txLinksCount == 0 then
        (tschQueueGetPacketForNbr s (some n) link).map fun p => (n, p)
      else none

/-! ## After a transmission -/

/-- `tsch_queue_remove_packet_from_queue`: the head, if the lock is free. -/
def tschQueueRemovePacketFromQueue (n : LinkAddr) (s : TschState) : Option Nat × TschState :=
  if tschIsLocked s then (none, s)
  else
    match (s.queue.neighbors n).txRingbuf with
    | [] => (none, s)
    | p :: rest => (some p, s.modifyNeighbor n fun e => { e with txRingbuf := rest })

/-- `tsch_queue_packet_sent`: whether the packet stays in the queue. -/
def tschQueuePacketSent (n : LinkAddr) (p : Nat) (link : TschLink) (macTxStatus : MacStatus)
    (rand : Nat) (s : TschState) : Bool × TschState :=
  let isSharedLink := link.linkOptions.shared
  let isUnicast := !(s.queue.neighbors n).isBroadcast
  if macTxStatus = .ok then
    let s := (tschQueueRemovePacketFromQueue n s).2
    if isUnicast && (isSharedLink || tschQueueIsEmpty s (some n)) then
      (false, s.modifyNeighbor n (tschQueueBackoffReset cfg))
    else (false, s)
  else
    let drop := (s.queue.packets p).transmissions ≥ (s.queue.packets p).maxTransmissions
    let s := if drop then (tschQueueRemovePacketFromQueue n s).2 else s
    -- failures on dedicated links leave the backoff as it is
    if isUnicast && isSharedLink then
      (!drop, s.modifyNeighbor n (tschQueueBackoffInc cfg rand))
    else (!drop, s)

/-! ## Called from processes -/

namespace TschState

/-- A packet the process has taken out of a queue or of the dequeued ring. -/
def noteTaken (p : Option Nat) (s : TschState) : TschState :=
  match p with
  | some p => { s with ghost := { s.ghost with
      taken := s.ghost.taken ++ [(s.queue.packets p).uid] } }
  | none => s

/-- `mac_call_sent_callback`. -/
def callSentCallback (p : Nat) (s : TschState) : TschState :=
  { s with ghost := { s.ghost with called := s.ghost.called ++ [(s.queue.packets p).uid] } }

/-- `tsch_queue_free_packet`. -/
def tschQueueFreePacket (p : Nat) (s : TschState) : TschState :=
  { s with
    queue := { s.queue with packetMemb := s.queue.packetMemb.erase p }
    ghost := { s.ghost with freed := s.ghost.freed ++ [(s.queue.packets p).uid] } }

/-- `nbr_table_add_lladdr` and `nbr_table_lock`: the entry of `addr`, a new one
if the table has none and has room. -/
def nbrTableAddLladdr (addr : LinkAddr) (s : TschState) : Option LinkAddr × TschState :=
  if addr ∈ s.queue.tschNeighbors then (some addr, s)
  else
    match cfg.nbrTableAdd s.queue.tschNeighbors addr with
    | some i => (some addr, { s with queue := { s.queue with
        tschNeighbors := s.queue.tschNeighbors.insertIdx i addr } })
    | none => (none, s)

/-- `nbr_table_remove`. -/
def nbrTableRemove (n : LinkAddr) (s : TschState) : TschState :=
  { s with queue := { s.queue with tschNeighbors := s.queue.tschNeighbors.erase n } }

/-- `memb_alloc(&packet_memb)`. -/
def allocPacket (s : TschState) : Option Nat × TschState :=
  match cfg.memb.pick s.queue.packetMemb cfg.queuebufNum with
  | some p => (some p, { s with queue := { s.queue with
      packetMemb := insert p s.queue.packetMemb } })
  | none => (none, s)

/-- `memb_free(&packet_memb, p)`. -/
def freePacketBlock (p : Nat) (s : TschState) : TschState :=
  { s with queue := { s.queue with packetMemb := s.queue.packetMemb.erase p } }

/-- `n->tx_array[put_index] = p; ringbufindex_put(&n->tx_ringbuf)`: the packet
becomes visible to the slot operation, and counts as accepted. -/
def putPacket (n : LinkAddr) (p : Nat) (s : TschState) : TschState :=
  { (s.modifyPacket p fun e => { e with uid := s.ghost.accepted }).modifyNeighbor n
      (fun e => { e with txRingbuf := e.txRingbuf ++ [p] }) with
    ghost := { s.ghost with accepted := s.ghost.accepted + 1 } }

end TschState

/-- A neighbor entry as `tsch_queue_add_nbr` initialises it. -/
def newNeighbor (addr : LinkAddr) : TschNeighbor :=
  tschQueueBackoffReset cfg
    { isBroadcast := addr == cfg.tschEbAddress || addr == cfg.tschBroadcastAddress
      isTimeSource := false
      backoffExponent := 0
      backoffWindow := 0
      txLinksCount := 0
      dedicatedTxLinksCount := 0
      txRingbuf := [] }

/-- `tsch_queue_add_nbr`. -/
def tschQueueAddNbr (addr : LinkAddr) : Prog TschState (Option LinkAddr) := do
  match ← Prog.read (fun s => tschQueueGetNbr s addr) with
  | some n => pure (some n)
  | none =>
      if ← tschGetLock then
        match ← Prog.update (TschState.nbrTableAddLladdr cfg addr) with
        | some n =>
            Prog.modify (TschState.modifyNeighbor n fun _ => newNeighbor cfg addr)
            tschReleaseLock
            pure (some n)
        | none =>
            tschReleaseLock
            pure none
      else pure none

namespace TschState

/-- `memb_init(&packet_memb)`. -/
def initPacketMemb (s : TschState) : TschState :=
  { s with queue := { s.queue with packetMemb := ∅ } }

def setNEb (n : Option LinkAddr) (s : TschState) : TschState :=
  { s with queue := { s.queue with nEb := n } }

def setNBroadcast (n : Option LinkAddr) (s : TschState) : TschState :=
  { s with queue := { s.queue with nBroadcast := n } }

end TschState

/-- `tsch_queue_init`; what `nbr_table_register` registers is the table of the state. -/
def tschQueueInit : Prog TschState Unit := do
  Prog.modify TschState.initPacketMemb
  -- the virtual EB and broadcast neighbors
  let nEb ← tschQueueAddNbr cfg cfg.tschEbAddress
  Prog.modify (TschState.setNEb nEb)
  let nBroadcast ← tschQueueAddNbr cfg cfg.tschBroadcastAddress
  Prog.modify (TschState.setNBroadcast nBroadcast)

/-- The writes of `tsch_queue_update_time_source`. -/
def switchTimeSource (oldTimeSrc newTimeSrc : Option LinkAddr) : Prog TschState Unit :=
  if newTimeSrc = oldTimeSrc then pure ()
  else do
    match newTimeSrc with
    | some n => Prog.modify (TschState.modifyNeighbor n fun e => { e with isTimeSource := true })
    | none => pure ()
    match oldTimeSrc with
    | some n => Prog.modify (TschState.modifyNeighbor n fun e => { e with isTimeSource := false })
    | none => pure ()

/-- `tsch_queue_update_time_source`, the keepalive timer and the statistics left
out. -/
def tschQueueUpdateTimeSource (newAddr : Option LinkAddr) : Prog TschState Bool := do
  if ← Prog.read tschIsLocked then pure false
  else if ← Prog.read (fun s => s.slot.tschIsCoordinator) then pure false
  else
    let oldTimeSrc ← Prog.read tschQueueGetTimeSource
    match newAddr with
    | none =>
        switchTimeSource oldTimeSrc none
        pure true
    | some addr =>
        -- 0 in case of failure
        match ← tschQueueAddNbr cfg addr with
        | none => pure false
        | some n =>
            switchTimeSource oldTimeSrc (some n)
            pure true

/-- `my_callback_packet_ready` of `node.c`, the link selector disabled. -/
def myCallbackPacketReady : Int := 1

/-- `tsch_queue_add_packet`; `queuebufOk` is whether
`queuebuf_new_from_packetbuf` finds a buffer. -/
def tschQueueAddPacket (addr : LinkAddr) (maxTransmissions sent ptr : Nat) (queuebufOk : Bool) :
    Prog TschState (Option Nat) := do
  if myCallbackPacketReady < 0 then pure none
  else if ← Prog.read tschIsLocked then pure none
  else
    match ← tschQueueAddNbr cfg addr with
    | none => pure none
    | some n =>
        -- put_index = ringbufindex_peek_put(&n->tx_ringbuf)
        if ← Prog.read (fun s => decide
            ((s.queue.neighbors n).txRingbuf.length < cfg.txRingbufCapacity)) then
          match ← Prog.update (TschState.allocPacket cfg) with
          | none => pure none
          | some p =>
              if queuebufOk then
                Prog.modify (TschState.modifyPacket p fun e =>
                  { e with
                    hasQueuebuf := true, sent := sent, ptr := ptr, ret := .deferred
                    transmissions := 0, maxTransmissions := maxTransmissions
                    framePending := false })
                Prog.modify (TschState.putPacket n p)
                pure (some p)
              else
                Prog.modify (TschState.freePacketBlock p)
                pure none
        else pure none

/-- The flush loop's next packet is called back and freed, outside the lock. -/
def finishPacket (p : Nat) : Prog TschState Unit := do
  Prog.modify (TschState.callSentCallback p)
  Prog.modify (TschState.tschQueueFreePacket p)

/-- `tsch_queue_flush_nbr_queue`. -/
def tschQueueFlushNbrQueue (fuel : Nat) (n : LinkAddr) : Prog TschState Unit :=
  Prog.loop fuel
    (Prog.read fun s => if tschQueueIsEmpty s (some n) then none else some ())
    (fun _ => do
      match ← Prog.update (fun s =>
          let r := tschQueueRemovePacketFromQueue n s
          (r.1, r.2.noteTaken r.1)) with
      | none => pure ()
      | some p =>
          Prog.modify (TschState.modifyPacket p fun e => { e with ret := .err })
          finishPacket p)

/-- `tsch_queue_remove_nbr`. -/
def tschQueueRemoveNbr (fuel : Nat) (n : LinkAddr) : Prog TschState Unit := do
  if ← tschGetLock then
    tschReleaseLock
    tschQueueFlushNbrQueue fuel n
    Prog.modify (TschState.nbrTableRemove n)
  else pure ()

/-- `tsch_queue_free_packets_to`. -/
def tschQueueFreePacketsTo (fuel : Nat) (addr : LinkAddr) : Prog TschState Unit := do
  if ← Prog.read tschIsLocked then pure ()
  else
    match ← Prog.read (fun s => tschQueueGetNbr s addr) with
    | some n => tschQueueFlushNbrQueue fuel n
    | none => pure ()

/-- `tsch_queue_reset`. -/
def tschQueueReset (fuel : Nat) : Prog TschState Unit := do
  if ← Prog.read tschIsLocked then pure ()
  else
    let ns ← Prog.read (fun s => s.queue.tschNeighbors)
    Prog.forEach ns fun n => do
      tschQueueFlushNbrQueue fuel n
      Prog.modify (TschState.modifyNeighbor n (tschQueueBackoffReset cfg))

/-- `custom_reset_all_backoff_exponents`. -/
def customResetAllBackoffExponents : Prog TschState Unit := do
  if ← Prog.read tschIsLocked then pure ()
  else
    let ns ← Prog.read (fun s => s.queue.tschNeighbors)
    Prog.forEach ns fun n =>
      Prog.modify (TschState.modifyNeighbor n (tschQueueBackoffReset cfg))

/-- The test of `tsch_queue_free_unused_neighbors`. -/
def neighborUnused (s : TschState) (n : LinkAddr) : Bool :=
  let e := s.queue.neighbors n
  !e.isBroadcast && !e.isTimeSource && e.txLinksCount == 0 && tschQueueIsEmpty s (some n)

/-- `tsch_queue_free_unused_neighbors`.  The walk reads the next entry before it
removes one, so it visits the entries that were there when it began. -/
def tschQueueFreeUnusedNeighbors (fuel : Nat) : Prog TschState Unit := do
  if ← Prog.read tschIsLocked then pure ()
  else
    let ns ← Prog.read (fun s => s.queue.tschNeighbors)
    Prog.forEach ns fun n => do
      if ← Prog.read (fun s => neighborUnused s n) then tschQueueRemoveNbr fuel n
      else pure ()

/-- The consumer of the dequeued ring: one entry is taken, called back and
freed. -/
def takeDequeued : Prog TschState Unit := do
  match ← Prog.update (fun s =>
      match s.slot.dequeuedRingbuf with
      | [] => (none, s)
      | p :: rest =>
          (some p, { s with slot := { s.slot with dequeuedRingbuf := rest } }.noteTaken (some p))) with
  | none => pure ()
  | some p => finishPacket p

end QlTsch
