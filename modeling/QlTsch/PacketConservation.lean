/-
# `QlTsch.PacketConservation` — every packet in one place

A packet that `tsch_queue_add_packet` has accepted waits in a neighbor's queue.  A
transmit slot looks at the head of a queue, yields, and at its end takes it off the
queue and hands it to the consumer of the dequeued ring; the flush loops of
`tsch_queue_free_packets_to` and `tsch_queue_reset` take packets off without the
lock.  The ledger of the node (`TschState.ledger`) is the account of all this, and
each write of the sources is one of the operations of `QlTsch.Lib.Ledger`.

The one operation whose hypothesis is not always met is the end of a transmit slot:
`tsch_queue_packet_sent` takes off the head of the queue, and not the packet it is
given.

* `packets_conserved`: in every run in which no process takes the packet of a
  transmit slot out of the queue while the slot is in progress, the account is
  balanced, and a slot moves the packet it was given, or none.
* `flushed_packet_called_twice`: a flush during a transmit slot.
-/
import QlTsch.QueueRules

namespace QlTsch

open Interleave Interleave.Prog

variable {cfg : Config}

/-! ## The flush loop -/

theorem wp_of_wpg {α : Type} {p : Prog TschState α} {Q : α → TschState → Prop} {s : TschState}
    (h : Wpg (queueCtx cfg) (PacketAct fun _ => True) p Q s) : Wp (packetCtx cfg) p Q s := by
  refine Wpg.wp (C := queueCtx cfg) ?_ ?_ ?_ (fun _ _ _ => trivial) h <;> rfl

theorem wp_tschQueueFlushNbrQueue (fuel : Nat) (n : LinkAddr) {s : TschState} (hi : PacketsHeld s)
    (hb : Between s) :
    Wp (packetCtx cfg) (tschQueueFlushNbrQueue fuel n) (fun _ t => Between t) s := by
  refine Wp.loop (n := 0) (J := fun _ => Between) (fun _ s hi hb => ?_) fuel (fun hl => hl.elim) hi hb
  refine Wp.read hi fun t ht hit => ?_
  have hbt := hb.rely hi ht
  split
  · exact hbt
  · refine ⟨fun hl => hl.elim, Wp.bind (Wp.update hit fun u hu hiu hc => ?_)⟩
    have hbu := hbt.rely hit hu
    have hfree : u.lock.tschLocked = false := by rw [hbu.free]
    cases hq : (u.queue.neighbors n).txRingbuf with
    | nil =>
        have hnone : tschQueueRemovePacketFromQueue n u = (none, u) := by
          simp only [tschQueueRemovePacketFromQueue, tschIsLocked, hfree, hq]
          rfl
        simp only [hnone]
        exact ⟨hiu, hbu⟩
    | cons p rest =>
        obtain ⟨hbal, hhand⟩ := hiu.balanced.takeHead hbu.settled hq
        simp only [removePacketFromQueue_head hfree hq] at hc ⊢
        -- one packet is taken off the queue, and finished
        have hledger : ((u.modifyNeighbor n fun e => { e with txRingbuf := rest }).noteTaken
            (some p)).ledger = u.ledger.takeHead n p rest := by
          have hset := ledger_modifyNeighbor n (fun e => { e with txRingbuf := rest }) u
          exact congrArg (fun L : Ledger LinkAddr Nat => { L with taken := L.taken ++ [L.uid p] }) hset
        have hiv := hiu.act hc rfl rfl (hledger ▸ hbal)
        refine ⟨hiv, Wp.bind (Wp.modify hiv fun v hv hiv' hc => ?_)⟩
        have hmark : (v.modifyPacket p fun e => { e with ret := .err }).ledger = v.ledger :=
          ledger_packet rfl
        have hiw := hiv'.act hc rfl rfl (hmark ▸ hiv'.balanced)
        have hfv : Free v := Free.rely hiv hv hbu.free
        refine ⟨hiw, wp_of_wpg (wpg_finishPacket hiw hfv ?_)⟩
        rw [hmark]
        exact .served (served_rely hiv hv) (hledger ▸ hhand)

theorem wp_tschQueueFreePacketsTo (fuel : Nat) (a : LinkAddr) {s : TschState} (hi : PacketsHeld s)
    (hb : Between s) :
    Wp (packetCtx cfg) (tschQueueFreePacketsTo fuel a) (fun _ t => Between t) s := by
  refine Wp.bind (Wp.read hi fun t ht hit => ?_)
  have hbt := hb.rely hi ht
  split
  · exact hbt
  · refine Wp.bind (Wp.read hit fun u hu hiu => ?_)
    have hbu := hbt.rely hit hu
    split
    · exact wp_tschQueueFlushNbrQueue fuel _ hiu hbu
    · exact hbu

theorem wp_tschQueueReset (fuel : Nat) {s : TschState} (hi : PacketsHeld s) (hb : Between s) :
    Wp (packetCtx cfg) (tschQueueReset cfg fuel) (fun _ t => Between t) s := by
  refine Wp.bind (Wp.read hi fun t ht hit => ?_)
  have hbt := hb.rely hi ht
  split
  · exact hbt
  · refine Wp.bind (Wp.read hit fun u hu hiu => ?_)
    refine Wp.forEach (J := fun _ => Between) (fun n _ s hi hb => ?_) _ hiu (hbt.rely hit hu)
    refine Wp.call (wp_tschQueueFlushNbrQueue fuel n hi hb) hi fun _ v hiv hbv => ?_
    refine Wp.modify hiv fun w hw hiw hc => ?_
    have hbw := hbv.rely hiv hw
    have hledger : (w.modifyNeighbor n (tschQueueBackoffReset cfg)).ledger = w.ledger :=
      ledger_neighbor rfl
    exact ⟨hiw.act hc rfl rfl (hledger ▸ hiw.balanced), hbw.free, hledger ▸ hbw.settled⟩

/-! ## Every interleaving -/

/-- The calls of the process: packets are queued, queues are flushed, the dequeued
ring is served. -/
inductive PacketCall where
  | addPacket (addr : LinkAddr) (maxTransmissions sent ptr : Nat) (queuebufOk : Bool)
  | freePacketsTo (addr : LinkAddr)
  | reset
  | takeDequeued

variable (cfg) in
def makePacketCall (fuel : Nat) : PacketCall → Prog TschState Unit
  | .addPacket addr maxTransmissions sent ptr queuebufOk => do
      let _ ← tschQueueAddPacket cfg addr maxTransmissions sent ptr queuebufOk
      pure ()
  | .freePacketsTo addr => tschQueueFreePacketsTo fuel addr
  | .reset => tschQueueReset cfg fuel
  | .takeDequeued => takeDequeued

theorem wp_makePacketCall (fuel : Nat) (c : PacketCall) {s : TschState} (hi : PacketsHeld s)
    (hb : Between s) : Wp (packetCtx cfg) (makePacketCall cfg fuel c) (fun _ t => Between t) s := by
  cases c with
  | addPacket addr max sent ptr ok =>
      exact Wp.call (wp_of_wpg (wpg_tschQueueAddPacket addr trivial sent ptr ok hi hb)) hi fun _ _ _ hb => hb
  | freePacketsTo addr => exact wp_tschQueueFreePacketsTo fuel addr hi hb
  | reset => exact wp_tschQueueReset fuel hi hb
  | takeDequeued => exact wp_of_wpg (wpg_takeDequeued hi hb)

/-- Where a run may begin: between two calls, no transmit slot in progress, the
account balanced. -/
structure Quiescent (s : TschState) : Prop extends Between s where
  flags : SlotFlags s
  notTx : s.slot.pc.inTx = false
  balanced : s.ledger.Balanced

theorem Quiescent.held {s : TschState} (h : Quiescent s) : PacketsHeld s :=
  ⟨h.flags, fun htx => (by rw [h.notTx] at htx; cases htx), h.balanced⟩

/-- **Packets are conserved.**  For every sequence of calls and every interleaving
with slot interrupts in which no process changes the head of the queue that the
transmit slot in progress sends from:

* every packet accepted so far is in exactly one place, in one neighbor's queue, in
  the dequeued ring, or taken out by the process; no block is in two places, and
  none of them has been freed;
* no packet has been called back or freed twice;
* the next interrupt takes the packet it was given from the head of its queue to
  the dequeued ring, or moves no packet;
* when the calls have returned, what was taken out has been called back and freed. -/
theorem packets_conserved (fuel : Nat) (calls : List PacketCall) {s : TschState} (h : Quiescent s)
    {c : Prog TschState Unit × TschState}
    (hr : Run (fun s s' => ∃ i, slotStep cfg i s = some s') KeepsHead
      (Prog.forEach calls (makePacketCall cfg fuel), s) c) :
    c.2.ledger.Balanced ∧ c.2.ledger.called.Nodup ∧ c.2.ledger.freed.Nodup ∧
      (∀ i s', slotStep cfg i c.2 = some s' → Sent c.2.ledger s') ∧
      (c.1 = .ret () → c.2.ledger.Settled) := by
  have hwp := Wp.forEach (C := packetCtx cfg) (J := fun _ => Between)
    (fun c _ _ hi hb => wp_makePacketCall fuel c hi hb) calls h.held h.toBetween
  obtain ⟨hi, t, hit, hrel, hq⟩ := Wp.run h.held hwp hr
  have hi : PacketsHeld c.2 := hi
  refine ⟨hi.balanced, hi.balanced.called_nodup, hi.balanced.freed_nodup, fun i s' hs => (hi.sent hs).1,
    fun hret => ?_⟩
  rw [hret] at hq
  have hb : Between t := hq
  exact (hb.rely hit hrel).settled

/-- Associated, with one slotframe of one slot and in it a shared Tx link to the
broadcast address. -/
def oneTxLink : TschState :=
  let s := (TschState.boot (smallBuild 8)).joined 0
  let sched : ScheduleVars :=
    { linkMemb := {0}, links := fun _ => ⟨0, 255, 0, 0, 0, txShared, .normal, 0⟩
      slotframeMemb := {0}, slotframes := fun _ => ⟨0, 1, [0]⟩, slotframeList := [0]
      currentLinkHandle := 1 }
  { s with sched := sched }.modifyNeighbor 255 fun e => { e with txLinksCount := 1 }

theorem quiescent_oneTxLink : Quiescent oneTxLink where
  free := rfl
  settled := ⟨rfl, rfl⟩
  flags := ⟨by decide, by decide⟩
  notTx := rfl
  balanced := by
    have hledger : oneTxLink.ledger = ⟨[254, 255], fun _ => [], [], ∅, fun _ => 0, 0, [], [], []⟩ :=
      ledger_neighbor rfl
    rw [hledger]
    exact ⟨by decide, fun _ _ => rfl, List.nodup_nil, fun _ hb => (by cases hb), .refl _,
      List.prefix_refl _, List.prefix_refl _⟩

/-- A broadcast packet is queued, sent and finished. -/
theorem packets_conserved_sent :
    ∃ c : Prog TschState Unit × TschState,
      Run (fun s s' => ∃ i, slotStep (smallBuild 8) i s = some s') KeepsHead
        (Prog.forEach [.addPacket 255 3 0 0 true, .takeDequeued] (makePacketCall (smallBuild 8) 3),
          oneTxLink) c ∧
      c.2.ghost.accepted = 1 ∧ c.2.ghost.called = [0] ∧ c.2.ledger.Balanced ∧ c.2.ledger.Settled := by
  obtain ⟨c, hrun, hc⟩ := exists_run (slotStep (smallBuild 8)) (fun s s' => decide (KeepsHead s s'))
    (fun s s' => ∃ i, slotStep (smallBuild 8) i s = some s') KeepsHead
    (fun i _ _ h => ⟨i, h⟩) (fun _ _ h => of_decide_eq_true h)
    (List.replicate 6 none ++ [some (.quiet 0), some (.quiet 328), some (.quiet 328)] ++
      List.replicate 3 none)
    (Prog.forEach [.addPacket 255 3 0 0 true, .takeDequeued] (makePacketCall (smallBuild 8) 3), oneTxLink)
    (fun c => decide (c.1.result = some () ∧ c.2.ghost.accepted = 1 ∧ c.2.ghost.called = [0]))
    (by decide +kernel)
  obtain ⟨hret, haccepted, hcalled⟩ := of_decide_eq_true hc
  obtain ⟨hbal, -, -, -, hsettled⟩ := packets_conserved 3 _ quiescent_oneTxLink hrun
  exact ⟨c, hrun, haccepted, hcalled, hbal, hsettled (Prog.eq_ret_of_result hret)⟩

/-- Two packets are queued.  While the first is being sent it is flushed; the end of
the slot takes the second off the queue and hands the first to the consumer, who
calls it back and frees it again.  The second is lost. -/
theorem flushed_packet_called_twice :
    ∃ c : Prog TschState Unit × TschState,
      Run (fun s s' => ∃ i, slotStep (smallBuild 8) i s = some s') (fun _ _ => True)
        (Prog.forEach [.addPacket 255 3 0 0 true, .addPacket 255 3 0 0 true, .freePacketsTo 255,
          .takeDequeued] (makePacketCall (smallBuild 8) 3), oneTxLink) c ∧
      c.1 = .ret () ∧ c.2.ghost.accepted = 2 ∧ c.2.ledger.live = [] ∧
      c.2.ghost.called = [0, 0] ∧ c.2.ghost.freed = [0, 0] := by
  obtain ⟨c, hrun, hc⟩ := exists_run (slotStep (smallBuild 8)) (fun _ _ => true)
    (fun s s' => ∃ i, slotStep (smallBuild 8) i s = some s') (fun _ _ => True)
    (fun i _ _ h => ⟨i, h⟩) (fun _ _ _ => trivial)
    (List.replicate 12 none ++ [some (.quiet 0), some (.quiet 328)] ++ List.replicate 4 none ++
      [some (.quiet 328)] ++ List.replicate 7 none)
    (Prog.forEach [.addPacket 255 3 0 0 true, .addPacket 255 3 0 0 true, .freePacketsTo 255,
      .takeDequeued] (makePacketCall (smallBuild 8) 3), oneTxLink)
    (fun c => decide (c.1.result = some () ∧ c.2.ghost.accepted = 2 ∧ c.2.ledger.live = [] ∧
      c.2.ghost.called = [0, 0] ∧ c.2.ghost.freed = [0, 0])) (by decide +kernel)
  obtain ⟨hret, hend⟩ := of_decide_eq_true hc
  exact ⟨c, hrun, Prog.eq_ret_of_result hret, hend⟩

end QlTsch
