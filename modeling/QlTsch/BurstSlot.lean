/-
# `QlTsch.BurstSlot` — the slot a burst promises

A sender with more packets for the receiver sets the frame-pending bit; when the
acknowledgement is in, both keep their link and their channel for one slot more.
Nothing else is kept.  What the sender sends there, and whether the receiver listens, is
decided by the same lookup as in every other slot, from the queues as they are then.

* `burst_slot`: both nodes are in the next slot on the link and the channel of the last.
  There the sender hands the head of the receiver's queue to the radio exactly if that
  queue is the first with a packet waiting (`firstWaiting`), and the receiver listens
  exactly if it has no packet waiting for any neighbor; in both cases the rings need
  room.
* `burst_slot_lost`: a packet to a third node is enqueued at the receiver between the two
  slots.  Both transmit.
-/
import QlTsch.PacketLookup
import QlTsch.ReceptionOpportunity
import QlTsch.ChannelHopping
import QlTsch.BackoffLinks

namespace QlTsch

open Interleave Interleave.Prog

variable {cfg : Config}

/-! ## The end of the slot -/

/-- Link `l` is kept for a burst, on channel `ch`. -/
structure Replays (l ch : Nat) (s : TschState) : Prop where
  scheduled : s.slot.burstLinkScheduled = true
  currentLink : s.slot.currentLink = some l
  backupLink : s.slot.backupLink = none
  channel : s.slot.tschCurrentChannel = ch

/-- A burst has been agreed on in the slot that ends. -/
structure Agreed (l ch : Nat) (s : TschState) : Prop where
  scheduled : s.slot.burstLinkScheduled = true
  currentLink : s.slot.currentLink = some l
  channel : s.slot.tschCurrentChannel = ch

/-- However many deadlines are missed, the link is kept. -/
def replayOutline (cfg : Config) (l ch : Nat) : EndOutline cfg where
  asleep s := s.slot.tschIsAssociated = true → Replays l ch s
  ending := Agreed l ch
  chosen := Replays l ch
  keepTime _ h := ⟨h.scheduled, h.currentLink, h.channel⟩
  backoff _ h := by
    refine ⟨?_, ?_, ?_⟩ <;> rw [updateLinkBackoff_slot]
    · exact h.scheduled
    · exact h.currentLink
    · exact h.channel
  replay h _ _ := ⟨h.scheduled, h.currentLink, rfl, h.channel⟩
  select h hno := by
    rcases hno with hno | hno
    · exact absurd (hno.symm.trans h.scheduled) (by decide)
    · cases hno.symm.trans h.currentLink
  advance _ _ h := ⟨h.scheduled, h.currentLink, h.backupLink, h.channel⟩
  again h := ⟨h.scheduled, h.currentLink, h.channel⟩
  armTimer _ h := ⟨h.scheduled, h.currentLink, h.backupLink, h.channel⟩
  sleep h _ := ⟨h.scheduled, h.currentLink, h.backupLink, h.channel⟩
  disassociate _ ha := by cases ha

theorem scheduleNextSlot_timer {is : List LoopInput} {s s' : TschState}
    (h : scheduleNextSlot cfg is s = some s') : s'.slot.timer.isSome = true := by
  induction h using scheduleNextSlot_induction with
  | armed i is s _ => rfl
  | missed i is s t _ _ ih => exact ih

theorem endOfSlot_timer {i : SlotInput} {s s' : TschState} (h : endOfSlot cfg i s = some s')
    (hassoc : s'.slot.tschIsAssociated = true) : s'.slot.timer.isSome = true := by
  rcases endOfSlot_cases h with ⟨w, t, -, ht, rfl⟩ | ⟨-, -, rfl⟩
  · show t.slot.timer.isSome = true
    exact scheduleNextSlot_timer ht
  · cases hassoc

theorem agreed_sender {i : SlotInput} {s s' : TschState} {loc : TxLocals}
    (hpc : s.slot.pc = .txBeforeAck loc) (hreq : loc.burstLinkRequested = true)
    (hack : ackReceived cfg i = true) (hs : slotStep cfg i s = some s') :
    ∃ l w, s.slot.currentLink = some l ∧ Agreed l s.slot.tschCurrentChannel w ∧
      endOfSlot cfg i w = some s' := by
  simp only [slotStep, hpc, txSlotAck, hack, ackAccepted_of_received cfg hack, if_true] at hs
  split at hs
  · cases hs
  · rename_i n _
    have hset : ∀ w : TschState, (acceptAck cfg n loc i w).slot.burstLinkScheduled = true ∧
        (acceptAck cfg n loc i w).slot.currentLink = w.slot.currentLink ∧
        (acceptAck cfg n loc i w).slot.tschCurrentChannel = w.slot.tschCurrentChannel := by
      intro w
      simp only [acceptAck, hreq, if_true]
      split <;> exact ⟨rfl, rfl, rfl⟩
    obtain ⟨hflag, hlink, hch⟩ := hset (s.noteAcknowledged true)
    simp only [txSlotEnd] at hs
    split at hs
    · rename_i p m l _ _ hl
      obtain ⟨hflag', hlink'⟩ := finishTx_slot m p l i.rand .ok
        (acceptAck cfg n loc i (s.noteAcknowledged true))
      refine ⟨l, _, hlink.symm.trans hl, ⟨?_, ?_, ?_⟩, hs⟩
      · exact hflag'.trans hflag
      · exact hlink'.trans hl
      · exact (finishTx_channel m p l i.rand .ok _).trans hch
    · cases hs

theorem agreed_receiver {i : SlotInput} {s s' : TschState} {f : RxFrame}
    (hpc : s.slot.pc = .rxBeforeAck f) (hpend : f.framePending = true)
    (hs : slotStep cfg i s = some s') :
    ∃ l w, s.slot.currentLink = some l ∧ Agreed l s.slot.tschCurrentChannel w ∧
      endOfSlot cfg i w = some s' := by
  simp only [slotStep, hpc, rxSlotAck, hpend, rxSlotDeliver] at hs
  split at hs
  · cases hs
  · rename_i l hl
    refine ⟨l, _, hl, ?_, hs⟩
    obtain ⟨t, ht⟩ := countReception_spec l (syncFromFrame f i (s.setBurstLinkScheduled true))
    have hsync : Agreed l s.slot.tschCurrentChannel
        (syncFromFrame f i (s.setBurstLinkScheduled true)) := by
      simp only [syncFromFrame]
      split
      · exact ⟨rfl, hl, rfl⟩
      · split <;> exact ⟨rfl, hl, rfl⟩
    rw [ht]
    exact ⟨hsync.scheduled, hsync.currentLink, hsync.channel⟩

/-! ## Between two slots -/

/-- A slot ends in `c` with the interrupt `i`; the next one starts in `d`.  The run before
it is any run from the start of the node; in between only the process makes steps.  The
slot is not skipped: it is the very next one (no deadline is missed), its link has not been
removed, and nobody waits for the lock when it starts. -/
structure NextSlot (cfg : Config) (fuel : Nat) (calls : List NodeCall) (i : SlotInput)
    (c d : Prog TschState Unit × TschState) : Prop where
  run : Run (CsmaStep cfg) (fun _ _ => True)
    (Prog.forEach calls (NodeCall.perform cfg fuel), TschState.boot cfg) c
  between : ∃ s, slotStep cfg i c.2 = some s ∧ Run (fun _ _ => False) (fun _ _ => True) (c.1, s) d
  starts : SlotStarts d.2
  asn : d.2.slot.tschCurrentAsn = c.2.slot.tschCurrentAsn + 1

namespace NextSlot

variable {fuel : Nat} {calls : List NodeCall} {i : SlotInput} {c d : Prog TschState Unit × TschState}

theorem virtualOk (h : NextSlot cfg fuel calls i c d) : VirtualOk cfg d.2 := by
  obtain ⟨s, hs, hr⟩ := h.between
  refine virtual_run fuel calls ((h.run.tail (.irq (.slot hs))).trans ?_)
  exact hr.mono (fun _ _ hno => hno.elim) fun _ _ _ => trivial

/-- A burst agreed on in `c` is there in `d`. -/
theorem replays (h : NextSlot cfg fuel calls i c d) {l ch : Nat} {w s : TschState}
    (hw : Agreed l ch w) (hend : endOfSlot cfg i w = some s)
    (hr : Run (fun _ _ => False) (fun _ _ => True) (c.1, s) d) :
    Replays l ch d.2 ∧ d.2.slot.timer.isSome = true := by
  have hguar : c.1.Guar LeavesSlot := Run.guar (guar_leavesSlot fuel calls) h.run
  have hkept : LeavesSlot s d.2 := Run.within .refl .trans hguar hr
  have hlink := h.starts.link
  have hassoc := h.starts.associated
  rw [hkept.slot] at hassoc
  have hrep : Replays l ch s := (EndOutline.endOfSlot (O := replayOutline cfg l ch) hw hend).1 hassoc
  have hsame : d.2.slot.currentLink = s.slot.currentLink := by
    rcases hkept.currentLink with hsame | hnone
    · exact hsame
    · rw [hnone] at hlink
      cases hlink
  refine ⟨⟨?_, hsame.trans hrep.currentLink, ?_, ?_⟩, ?_⟩ <;> rw [hkept.slot]
  · exact hrep.scheduled
  · exact hrep.backupLink
  · exact hrep.channel
  · exact endOfSlot_timer hend hassoc

end NextSlot

/-! ## The slot of the burst -/

/-- The slot hands the head of the queue of `n` to the radio. -/
def SendsHead (cfg : Config) (i : SlotInput) (s : TschState) (n : LinkAddr) : Prop :=
  ∃ s' p, slotStep cfg i s = some s' ∧ s'.slot.pc.inTx = true ∧ s'.slot.currentPacket = some p ∧
    s'.slot.currentNeighbor = some n ∧ (s.queue.neighbors n).txRingbuf.head? = some p

/-- The slot waits for a frame. -/
def Listens (cfg : Config) (i : SlotInput) (s : TschState) : Prop :=
  ∃ s', slotStep cfg i s = some s' ∧ s'.slot.pc = .rxBeforeListen

/-- There is room in the dequeued ring, and the frame can be prepared. -/
structure CanSend (cfg : Config) (i : SlotInput) (s : TschState) (n : LinkAddr) : Prop where
  room : s.slot.dequeuedRingbuf.length < cfg.dequeuedRingbufCapacity
  queuebuf : ∀ p, (s.queue.neighbors n).txRingbuf.head? = some p →
    (s.queue.packets p).hasQueuebuf = true
  prepared : i.prepareOk = true

/-- The link can receive, and there is room in the input ring. -/
structure CanListen (cfg : Config) (s : TschState) (link : TschLink) : Prop where
  rx : link.linkOptions.rx = true
  room : s.slot.inputRingbuf.length < cfg.inputRingbufCapacity

/-- The slot on link `l`, its packet looked up. -/
def inBurst (l : Nat) (s : TschState) : TschState :=
  (getCurrentPacket l s.disarm.enterSlot).setBurstLinkScheduled false

theorem rxSlotBegin_cases {i : SlotInput} {s s' : TschState} (h : rxSlotBegin cfg i s = some s') :
    (s.slot.inputRingbuf.length < cfg.inputRingbufCapacity ∧ s' = s.setPc .rxBeforeListen) ∨
      s'.slot.pc = .asleep := by
  simp only [rxSlotBegin] at h
  split at h
  · rename_i hroom
    cases h
    exact .inl ⟨hroom, rfl⟩
  · exact .inr (endOfSlot_asleep h)

namespace Replays

section
variable {i : SlotInput} {l ch : Nat} {s : TschState}

theorem step (h : Replays l ch s) (hstart : SlotStarts s) (htimer : s.slot.timer.isSome = true) :
    slotStep cfg i s =
      if (getPacketAndNeighborForLink s (s.link l)).1.isSome then txSlotBegin cfg i (inBurst l s)
      else if (s.link l).linkOptions.rx then rxSlotBegin cfg i (inBurst l s)
      else endOfSlot cfg i (inBurst l s) := by
  have hskip : doSkipBestLink l (getCurrentPacket l s.disarm.enterSlot) = none := by
    have hb : (getCurrentPacket l s.disarm.enterSlot).slot.backupLink = none := h.backupLink
    simp only [doSkipBestLink, hb, ite_self]
  have hl : (getCurrentPacket l s.disarm.enterSlot).slot.currentLink = some l := h.currentLink
  have hch : setChannel cfg l (getCurrentPacket l s.disarm.enterSlot) = inBurst l s := by
    have hb : (getCurrentPacket l s.disarm.enterSlot).slot.burstLinkScheduled = true := h.scheduled
    simp only [setChannel, hb, if_true, inBurst]
  rw [slotStep_starts hstart htimer h.currentLink]
  simp only [beginSlot, chooseLink, hskip, hl, runSlot, hch]
  rfl

/-- Whatever the slot does, it does on the link and the channel of the slot before. -/
theorem on_link (h : Replays l ch s) (hstart : SlotStarts s) (htimer : s.slot.timer.isSome = true)
    {s' : TschState} (hs : slotStep cfg i s = some s') (hpc : s'.slot.pc ≠ .asleep) :
    s'.slot.currentLink = some l ∧ s'.slot.tschCurrentChannel = ch := by
  rw [h.step hstart htimer] at hs
  split at hs
  · rcases txSlotBegin_cases hs with hasleep | ⟨-, hslot⟩
    · exact absurd hasleep hpc
    · rw [hslot]
      exact ⟨h.currentLink, h.channel⟩
  · split at hs
    · rcases rxSlotBegin_cases hs with ⟨-, rfl⟩ | hasleep
      · exact ⟨h.currentLink, h.channel⟩
      · exact absurd hasleep hpc
    · exact absurd (endOfSlot_asleep hs) hpc

variable (hv : VirtualOk cfg s)
include hv

theorem sendsHead_iff (h : Replays l ch s) (hstart : SlotStarts s)
    (htimer : s.slot.timer.isSome = true) {n : LinkAddr} (hn : cfg.isVirtual n = false) :
    SendsHead cfg i s n ↔ firstWaiting cfg s (s.link l) = some n ∧ CanSend cfg i s n := by
  have hch : Chooses s (firstWaiting cfg s (s.link l)) (getPacketAndNeighborForLink s (s.link l)) :=
    getPacketAndNeighbor_chooses hv
  simp only [SendsHead, h.step hstart htimer]
  cases hfirst : firstWaiting cfg s (s.link l) with
  | none =>
      rw [hfirst] at hch
      have hnone : (getPacketAndNeighborForLink s (s.link l)).1 = none := hch
      rw [hnone]
      refine iff_of_false ?_ fun hc => (by cases hc.1)
      rintro ⟨s', p, hs, htx, -⟩
      simp only [Option.isSome_none, Bool.false_eq_true, if_false] at hs
      split at hs
      · rcases rxSlotBegin_cases hs with ⟨-, rfl⟩ | hasleep
        · cases htx
        · rw [hasleep] at htx
          cases htx
      · rw [endOfSlot_asleep hs] at htx
        cases htx
  | some m =>
      rw [hfirst] at hch
      obtain ⟨p, hhead, hr⟩ := hch
      have hp : (inBurst l s).slot.currentPacket = some p := congrArg Prod.fst hr
      have hm : (inBurst l s).slot.currentNeighbor = some m := congrArg Prod.snd hr
      have hkept : ∀ {s'}, txSlotBegin cfg i (inBurst l s) = some s' → s'.slot.pc.inTx = true →
          s'.slot = { (inBurst l s).slot with pc := s'.slot.pc } := by
        intro s' hs htx
        rcases txSlotBegin_cases hs with hasleep | ⟨-, hslot⟩
        · rw [hasleep] at htx
          cases htx
        · exact hslot
      have hsend : (∃ s', txSlotBegin cfg i (inBurst l s) = some s' ∧ s'.slot.pc.inTx = true) ↔
          _ := txSlotBegin_inTx hp hm
      rw [hr]
      simp only [Option.isSome_some, if_true, Option.some.injEq]
      constructor
      · rintro ⟨s', q, hs, htx, hq, hnbr, -⟩
        have hslot := hkept hs htx
        rw [hslot] at hq hnbr
        obtain rfl : n = m := Option.some.inj (hnbr.symm.trans hm)
        obtain ⟨hroom, hqb, -, hprep⟩ := hsend.mp ⟨s', hs, htx⟩
        refine ⟨rfl, hroom, fun p' hp' => ?_, hprep⟩
        obtain rfl : p' = p := Option.some.inj (hp'.symm.trans hhead)
        exact hqb
      · rintro ⟨rfl, hcan⟩
        have hready : packetReady i (inBurst l s) = true := by
          have heb : (inBurst l s).slot.currentNeighbor ≠ (inBurst l s).queue.nEb := by
            rw [hm]
            exact fun heq => hv.not_eb hn heq.symm
          simp only [packetReady, if_neg heb]
        obtain ⟨s', hs, htx⟩ := hsend.mpr ⟨hcan.room, hcan.queuebuf p hhead, hready, hcan.prepared⟩
        have hslot := hkept hs htx
        refine ⟨s', p, hs, htx, ?_, ?_, hhead⟩
        · rw [hslot]
          exact hp
        · rw [hslot]
          exact hm

theorem listens_iff (h : Replays l ch s) (hstart : SlotStarts s)
    (htimer : s.slot.timer.isSome = true) :
    Listens cfg i s ↔ firstWaiting cfg s (s.link l) = none ∧ CanListen cfg s (s.link l) := by
  have hch : Chooses s (firstWaiting cfg s (s.link l)) (getPacketAndNeighborForLink s (s.link l)) :=
    getPacketAndNeighbor_chooses hv
  simp only [Listens, h.step hstart htimer]
  cases hfirst : firstWaiting cfg s (s.link l) with
  | some m =>
      rw [hfirst] at hch
      obtain ⟨p, -, hr⟩ := hch
      rw [hr]
      refine iff_of_false ?_ fun hc => (by cases hc.1)
      rintro ⟨s', hs, hpc⟩
      simp only [Option.isSome_some, if_true] at hs
      rcases txSlotBegin_cases hs with hasleep | ⟨htx, -⟩
      · cases hasleep.symm.trans hpc
      · rw [hpc] at htx
        cases htx
  | none =>
      rw [hfirst] at hch
      have hnone : (getPacketAndNeighborForLink s (s.link l)).1 = none := hch
      simp only [hnone, Option.isSome_none, Bool.false_eq_true, if_false, true_and]
      constructor
      · rintro ⟨s', hs, hpc⟩
        split at hs
        · rename_i hrx
          rcases rxSlotBegin_cases hs with ⟨hroom, -⟩ | hasleep
          · exact ⟨hrx, hroom⟩
          · cases hasleep.symm.trans hpc
        · cases (endOfSlot_asleep hs).symm.trans hpc
      · rintro ⟨hrx, hroom⟩
        have hroom' : (inBurst l s).slot.inputRingbuf.length < cfg.inputRingbufCapacity := hroom
        refine ⟨(inBurst l s).setPc .rxBeforeListen, ?_, rfl⟩
        rw [if_pos hrx]
        simp only [rxSlotBegin, if_pos hroom']

end

end Replays

/-! ## Both ends -/

/-- A burst is agreed on between the sender, in `s`, and the receiver, in `a`, at address
`n`: in one timeslot and on one channel, the sender has sent a unicast frame with its
pending bit set and reads the acknowledgement, and the receiver acknowledges that frame. -/
structure BurstAgreed (cfgS cfgA : Config) (iS : SlotInput) (s a : TschState) (n : LinkAddr) :
    Prop where
  asn : s.slot.tschCurrentAsn = a.slot.tschCurrentAsn
  channel : s.slot.tschCurrentChannel = a.slot.tschCurrentChannel
  receiver : n = cfgA.linkaddrNodeAddr
  unicast : cfgS.isVirtual n = false
  neighbor : s.slot.currentNeighbor = some n
  requested : ∃ loc, s.slot.pc = .txBeforeAck loc ∧ loc.burstLinkRequested = true
  acknowledged : ackReceived cfgS iS = true
  pending : ∃ f, a.slot.pc = .rxBeforeAck f ∧ f.sourceAddress = cfgS.linkaddrNodeAddr ∧
    f.framePending = true

/-- If the slot does anything, it does it on link `l` and channel `ch`. -/
def StaysOn (cfg : Config) (i : SlotInput) (l ch : Nat) (s : TschState) : Prop :=
  ∀ s', slotStep cfg i s = some s' → s'.slot.pc ≠ .asleep →
    s'.slot.currentLink = some l ∧ s'.slot.tschCurrentChannel = ch

/-- **The slot of a burst.**  Once a burst is agreed on, whatever the processes of the two
nodes do until the next slot: there both are in a burst, in the same timeslot, each on its
link of the slot before and on the channel of that slot.  The sender hands the head of the
receiver's queue to the radio exactly if that queue is the first with a packet waiting and
the frame can be sent; the receiver listens exactly if no packet is waiting and it can. -/
theorem burst_slot {cfgS cfgA : Config} {fuelS fuelA : Nat} {callsS callsA : List NodeCall}
    {iS iA : SlotInput} {cS dS cA dA : Prog TschState Unit × TschState} {n : LinkAddr}
    (hS : NextSlot cfgS fuelS callsS iS cS dS) (hA : NextSlot cfgA fuelA callsA iA cA dA)
    (hburst : BurstAgreed cfgS cfgA iS cS.2 cA.2 n) (jS jA : SlotInput) :
    ∃ lS lA, cS.2.slot.currentLink = some lS ∧ cA.2.slot.currentLink = some lA ∧
      dS.2.slot.burstLinkScheduled = true ∧ dA.2.slot.burstLinkScheduled = true ∧
      dS.2.slot.tschCurrentAsn = dA.2.slot.tschCurrentAsn ∧
      StaysOn cfgS jS lS cS.2.slot.tschCurrentChannel dS.2 ∧
      StaysOn cfgA jA lA cS.2.slot.tschCurrentChannel dA.2 ∧
      (SendsHead cfgS jS dS.2 n ↔
        firstWaiting cfgS dS.2 (dS.2.link lS) = some n ∧ CanSend cfgS jS dS.2 n) ∧
      (Listens cfgA jA dA.2 ↔
        firstWaiting cfgA dA.2 (dA.2.link lA) = none ∧ CanListen cfgA dA.2 (dA.2.link lA)) := by
  obtain ⟨loc, hpcS, hreq⟩ := hburst.requested
  obtain ⟨f, hpcA, -, hpend⟩ := hburst.pending
  -- the sender
  obtain ⟨s, hstepS, hrunS⟩ := hS.between
  obtain ⟨lS, wS, hlS, hwS, hendS⟩ := agreed_sender hpcS hreq hburst.acknowledged hstepS
  obtain ⟨hrepS, htimerS⟩ := hS.replays hwS hendS hrunS
  -- the receiver
  obtain ⟨a, hstepA, hrunA⟩ := hA.between
  obtain ⟨lA, wA, hlA, hwA, hendA⟩ := agreed_receiver hpcA hpend hstepA
  obtain ⟨hrepA, htimerA⟩ := hA.replays hwA hendA hrunA
  rw [← hburst.channel] at hrepA
  have hasn : dS.2.slot.tschCurrentAsn = dA.2.slot.tschCurrentAsn := by
    rw [hS.asn, hA.asn, hburst.asn]
  refine ⟨lS, lA, hlS, hlA, hrepS.scheduled, hrepA.scheduled, hasn, ?_, ?_, ?_, ?_⟩
  · intro s' hs' hpc
    exact hrepS.on_link hS.starts htimerS hs' hpc
  · intro s' hs' hpc
    exact hrepA.on_link hA.starts htimerA hs' hpc
  · exact hrepS.sendsHead_iff hS.virtualOk hS.starts htimerS hburst.unicast
  · exact hrepA.listens_iff hA.virtualOk hA.starts htimerA

/-! ## A packet to a third node -/

instance (s : TschState) : Decidable (SlotStarts s) :=
  decidable_of_iff (s.slot.pc = .asleep ∧ s.slot.tschIsAssociated = true ∧
      s.slot.currentLink.isSome = true ∧ s.lock.tschLockRequested = false)
    ⟨fun h => ⟨h.1, h.2.1, h.2.2.1, h.2.2.2⟩,
      fun h => ⟨h.asleep, h.associated, h.link, h.notRequested⟩⟩

/-- The steps `before` the slot ends with input `i`, and `after` it so many steps of the
process. -/
theorem exists_nextSlot (cfg : Config) (fuel : Nat) (calls : List NodeCall) (i : SlotInput)
    (before : List (Option (Option SlotInput))) (after : Nat) (P : TschState → TschState → Bool)
    (h : ((runMoves (csmaMove cfg) (fun _ _ => true) before
        (Prog.forEach calls (NodeCall.perform cfg fuel), TschState.boot cfg)).any fun c =>
      (slotStep cfg i c.2).any fun s =>
      (runMoves (fun (_ : Unit) (_ : TschState) => none) (fun _ _ => true)
        (List.replicate after none) (c.1, s)).any fun d =>
      decide (SlotStarts d.2 ∧ d.2.slot.tschCurrentAsn = c.2.slot.tschCurrentAsn + 1) &&
        P c.2 d.2) = true) :
    ∃ c d, NextSlot cfg fuel calls i c d ∧ P c.2 d.2 = true := by
  obtain ⟨c, hrun, hc⟩ := exists_run (csmaMove cfg) (fun _ _ => true) (CsmaStep cfg)
    (fun _ _ => True) csmaMove_step (fun _ _ _ => trivial) before _ _ h
  obtain ⟨s, hs, hd⟩ := (Option.any_eq_true _ _).mp hc
  obtain ⟨d, hbetween, hP⟩ := exists_run (fun (_ : Unit) (_ : TschState) => none) (fun _ _ => true)
    (fun _ _ => False) (fun _ _ => True) (fun _ _ _ hno => (by cases hno)) (fun _ _ _ => trivial)
    (List.replicate after none) (c.1, s) _ hd
  rw [Bool.and_eq_true, decide_eq_true_eq] at hP
  exact ⟨c, d, ⟨hrun, ⟨s, hs, hbetween⟩, hP.1.1, hP.1.2⟩, hP.2⟩

/-- A node with address `addr`. -/
def nodeBuild (addr : LinkAddr) : Config := { smallBuild 8 with linkaddrNodeAddr := addr }

/-- One slotframe with a Tx, Rx, Shared link to the broadcast address in slot 1, and
packets to these neighbors. -/
def burstCalls (packets : List LinkAddr) : List NodeCall :=
  [.call (.addSlotframe 0 7), .call (.addLink (some 0) txRxShared .normal (some 255) 1 0 false)] ++
    packets.map fun a => .call (.addPacket a 3 0 0 true)

/-- The frame from node 1 to node 2, its pending bit set. -/
def burstFrame : RxFrame := ⟨true, true, true, 2, 1, true, true, true, 0⟩

/-- So many steps of the process, then the node joins and the interrupts come. -/
def burstMoves (steps : Nat) (inputs : List SlotInput) : List (Option (Option SlotInput)) :=
  List.replicate steps none ++ some none :: inputs.map fun i => some (some i)

/-- Slot 1 and the next slot of node 1. -/
def senderSlots (s t : TschState) : Bool :=
  decide (s.slot.tschCurrentAsn = 1 ∧ s.slot.tschCurrentChannel = 25 ∧
    s.slot.currentLink = some 0 ∧ s.slot.currentNeighbor = some 2 ∧
    s.slot.pc = .txBeforeAck ⟨true, true⟩ ∧ firstWaiting (nodeBuild 1) t (t.link 0) = some 2 ∧
    t.slot.dequeuedRingbuf.length < (nodeBuild 1).dequeuedRingbufCapacity ∧
    (t.queue.neighbors 2).txRingbuf.head? = some 1 ∧ (t.queue.packets 1).hasQueuebuf = true ∧
    (slotStep (nodeBuild 1) (.quiet 656) t).any fun s' => decide (s'.slot.pc.inTx = true ∧
      s'.slot.currentPacket = some 1 ∧ s'.slot.currentNeighbor = some 2))

theorem sender_slots :
    ∃ c d, NextSlot (nodeBuild 1) 9 (burstCalls [2, 2])
        { SlotInput.quiet 328 with ackLen := 1, eackParsed := true } c d ∧
      senderSlots c.2 d.2 = true := by
  refine exists_nextSlot _ _ _ _ (burstMoves 45 [.quiet 0, .quiet 328, .quiet 328]) 0 senderSlots ?_
  decide +kernel

/-- Slot 1 and the next slot of node 2, with the neighbor it has a packet for. -/
def receiverSlots (n : Option LinkAddr) (s t : TschState) : Bool :=
  decide (s.slot.tschCurrentAsn = 1 ∧ s.slot.tschCurrentChannel = 25 ∧
    s.slot.currentLink = some 0 ∧ s.slot.pc = .rxBeforeAck burstFrame ∧
    firstWaiting (nodeBuild 2) t (t.link 0) = n ∧ (t.link 0).linkOptions.rx = true ∧
    t.slot.inputRingbuf.length < (nodeBuild 2).inputRingbufCapacity ∧
    (slotStep (nodeBuild 2) (.quiet 656) t).any fun s' => decide (n = some 9 →
      s'.slot.pc.inTx = true ∧ s'.slot.currentPacket = some 0 ∧ s'.slot.currentNeighbor = some 9 ∧
        (t.queue.neighbors 9).txRingbuf.head? = some 0))

theorem receiver_slots (steps : Nat) (n : Option LinkAddr)
    (h : steps = 0 ∧ n = none ∨ steps = 15 ∧ n = some 9) :
    ∃ c d, NextSlot (nodeBuild 2) 9 (burstCalls [9]) (.quiet 328) c d ∧
      receiverSlots n c.2 d.2 = true := by
  refine exists_nextSlot _ _ _ _ (burstMoves 24 [.quiet 0, .quiet 328,
    { SlotInput.quiet 328 with received := some burstFrame }]) steps (receiverSlots n) ?_
  rcases h with ⟨rfl, rfl⟩ | ⟨rfl, rfl⟩ <;> decide +kernel

theorem agreed_slot {s t a b : TschState} {n : Option LinkAddr} (hs : senderSlots s t = true)
    (ha : receiverSlots n a b = true) :
    BurstAgreed (nodeBuild 1) (nodeBuild 2)
      { SlotInput.quiet 328 with ackLen := 1, eackParsed := true } s a 2 := by
  obtain ⟨hasn, hch, -, hn, hpc, -⟩ := of_decide_eq_true hs
  obtain ⟨hasn', hch', -, hpc', -⟩ := of_decide_eq_true ha
  exact ⟨hasn.trans hasn'.symm, hch.trans hch'.symm, rfl, rfl, hn, ⟨_, hpc, rfl⟩, rfl,
    ⟨_, hpc', rfl, rfl⟩⟩

/-- Nothing is enqueued, and both keep to the burst. -/
theorem burst_slot_kept :
    ∃ cS dS cA dA,
      NextSlot (nodeBuild 1) 9 (burstCalls [2, 2])
        { SlotInput.quiet 328 with ackLen := 1, eackParsed := true } cS dS ∧
      NextSlot (nodeBuild 2) 9 (burstCalls [9]) (.quiet 328) cA dA ∧
      SendsHead (nodeBuild 1) (.quiet 656) dS.2 2 ∧ Listens (nodeBuild 2) (.quiet 656) dA.2 := by
  obtain ⟨cS, dS, hS, hs⟩ := sender_slots
  obtain ⟨cA, dA, hA, ha⟩ := receiver_slots 0 none (.inl ⟨rfl, rfl⟩)
  obtain ⟨lS, lA, hlS, hlA, -, -, -, -, -, hsend, hlisten⟩ :=
    burst_slot hS hA (agreed_slot hs ha) (.quiet 656) (.quiet 656)
  obtain ⟨-, -, hlS', -, -, hfirst, hroom, hhead, hqb, -⟩ := of_decide_eq_true hs
  obtain ⟨-, -, hlA', -, hnone, hrx, hroom', -⟩ := of_decide_eq_true ha
  obtain rfl : lS = 0 := Option.some.inj (hlS.symm.trans hlS')
  obtain rfl : lA = 0 := Option.some.inj (hlA.symm.trans hlA')
  refine ⟨cS, dS, cA, dA, hS, hA, hsend.mpr ⟨hfirst, hroom, fun p hp => ?_, rfl⟩,
    hlisten.mpr ⟨hnone, hrx, hroom'⟩⟩
  obtain rfl : p = 1 := Option.some.inj (hp.symm.trans hhead)
  exact hqb

/-- Node 2 enqueues a packet for node 9 between the two slots.  Its lookup finds that one,
and both nodes transmit. -/
theorem burst_slot_lost :
    ∃ cS dS cA dA,
      NextSlot (nodeBuild 1) 9 (burstCalls [2, 2])
        { SlotInput.quiet 328 with ackLen := 1, eackParsed := true } cS dS ∧
      NextSlot (nodeBuild 2) 9 (burstCalls [9]) (.quiet 328) cA dA ∧
      BurstAgreed (nodeBuild 1) (nodeBuild 2)
        { SlotInput.quiet 328 with ackLen := 1, eackParsed := true } cS.2 cA.2 2 ∧
      SendsHead (nodeBuild 1) (.quiet 656) dS.2 2 ∧ SendsHead (nodeBuild 2) (.quiet 656) dA.2 9 ∧
      ¬ Listens (nodeBuild 2) (.quiet 656) dA.2 := by
  obtain ⟨cS, dS, hS, hs⟩ := sender_slots
  obtain ⟨cA, dA, hA, ha⟩ := receiver_slots 15 (some 9) (.inr ⟨rfl, rfl⟩)
  obtain ⟨-, -, -, -, -, -, -, hhead, -, hstepS⟩ := of_decide_eq_true hs
  obtain ⟨-, -, -, -, -, -, -, hstepA⟩ := of_decide_eq_true ha
  obtain ⟨s', hs', hsent⟩ := (Option.any_eq_true _ _).mp hstepS
  obtain ⟨htxS, hpS, hnS⟩ := of_decide_eq_true hsent
  obtain ⟨a', ha', hother⟩ := (Option.any_eq_true _ _).mp hstepA
  obtain ⟨htxA, hpA, hnA, hheadA⟩ := of_decide_eq_true hother rfl
  refine ⟨cS, dS, cA, dA, hS, hA, agreed_slot hs ha, ⟨s', 1, hs', htxS, hpS, hnS, hhead⟩,
    ⟨a', 0, ha', htxA, hpA, hnA, hheadA⟩, ?_⟩
  rintro ⟨t, ht, hpc⟩
  obtain rfl : t = a' := Option.some.inj (ht.symm.trans ha')
  rw [hpc] at htxA
  cases htxA

end QlTsch
