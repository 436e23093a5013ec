/-
# `QlTsch.PacketLedger` — the account of the queues

A packet that `tsch_queue_add_packet` has accepted waits in a neighbor's queue.  A
transmit slot looks at the head of a queue, yields, and at its end takes it off the
queue and hands it to the consumer of the dequeued ring, or counts one more attempt.
The ledger of the node (`TschState.ledger`) is the account of all this, and each write
of the sources is one of the operations of `QlTsch.Lib.Ledger`.

`PacketsHeld` is what every interrupt keeps: the account is balanced, and the packet of
a transmit slot is the head of its neighbor's queue.
-/
import QlTsch.Lib.Ledger
import QlTsch.LockRules

namespace QlTsch

open Interleave Interleave.Prog

variable {cfg : Config}

/-! ## The ledger of a node -/

def TschState.ledger (s : TschState) : Ledger LinkAddr Nat where
  keys := s.queue.tschNeighbors
  queue n := (s.queue.neighbors n).txRingbuf
  outbox := s.slot.dequeuedRingbuf
  memb := s.queue.packetMemb
  uid p := (s.queue.packets p).uid
  accepted := s.ghost.accepted
  taken := s.ghost.taken
  called := s.ghost.called
  freed := s.ghost.freed

theorem ledger_modifyNeighbor (n : LinkAddr) (f : TschNeighbor → TschNeighbor) (s : TschState) :
    (s.modifyNeighbor n f).ledger = { s.ledger with
      queue := Function.update s.ledger.queue n (f (s.queue.neighbors n)).txRingbuf } :=
  Ledger.ext rfl (Function.comp_update TschNeighbor.txRingbuf s.queue.neighbors n _) rfl rfl rfl rfl rfl
    rfl rfl

theorem ledger_modifyPacket (p : Nat) (f : TschPacket → TschPacket) (s : TschState) :
    (s.modifyPacket p f).ledger = { s.ledger with
      uid := Function.update s.ledger.uid p (f (s.queue.packets p)).uid } :=
  Ledger.ext rfl rfl rfl rfl (Function.comp_update TschPacket.uid s.queue.packets p _) rfl rfl rfl rfl

theorem ledger_neighbor {n : LinkAddr} {f : TschNeighbor → TschNeighbor} {s : TschState}
    (hf : (f (s.queue.neighbors n)).txRingbuf = (s.queue.neighbors n).txRingbuf) :
    (s.modifyNeighbor n f).ledger = s.ledger := by
  have hsame : Function.update s.ledger.queue n (s.queue.neighbors n).txRingbuf = s.ledger.queue :=
    Function.update_eq_self n s.ledger.queue
  rw [ledger_modifyNeighbor, hf, hsame]

theorem ledger_packet {p : Nat} {f : TschPacket → TschPacket} {s : TschState}
    (hf : (f (s.queue.packets p)).uid = (s.queue.packets p).uid) :
    (s.modifyPacket p f).ledger = s.ledger := by
  have hsame : Function.update s.ledger.uid p (s.queue.packets p).uid = s.ledger.uid :=
    Function.update_eq_self p s.ledger.uid
  rw [ledger_modifyPacket, hf, hsame]

variable (cfg) in
theorem updateLinkBackoff_ledger (l : Option Nat) (s : TschState) :
    (updateLinkBackoff cfg l s).ledger = s.ledger := by
  obtain ⟨w, hw⟩ := updateLinkBackoff_spec cfg l s
  rw [hw]
  rfl

variable (cfg) in
theorem chooseLink_ledger (l : Nat) (s : TschState) : (chooseLink cfg l s).ledger = s.ledger := by
  simp only [chooseLink]
  split
  · rfl
  · exact updateLinkBackoff_ledger cfg (some l) (getCurrentPacket l s)

/-! ## The end of a transmit slot -/

section Sent
variable {n : LinkAddr} {p : Nat} {rest : List Nat} {s : TschState}
  (hfree : s.lock.tschLocked = false) (hq : (s.queue.neighbors n).txRingbuf = p :: rest)
include hfree hq

theorem removePacketFromQueue_head : tschQueueRemovePacketFromQueue n s =
    (some p, s.modifyNeighbor n fun e => { e with txRingbuf := rest }) := by
  simp only [tschQueueRemovePacketFromQueue, tschIsLocked, hfree, hq]
  rfl

theorem removePacketFromQueue_ledger : (tschQueueRemovePacketFromQueue n s).2.ledger =
    { s.ledger with queue := Function.update s.ledger.queue n rest } := by
  rw [removePacketFromQueue_head hfree hq]
  exact ledger_modifyNeighbor n _ s

variable (cfg) in
theorem packetSent_ledger (link : TschLink) (st : MacStatus) (rand : Nat) :
    ((tschQueuePacketSent cfg n p link st rand s).1 = true ∧
      (tschQueuePacketSent cfg n p link st rand s).2.ledger = s.ledger) ∨
    ((tschQueuePacketSent cfg n p link st rand s).1 = false ∧
      (tschQueuePacketSent cfg n p link st rand s).2.ledger =
        { s.ledger with queue := Function.update s.ledger.queue n rest }) := by
  have hrm := removePacketFromQueue_ledger hfree hq
  simp only [tschQueuePacketSent]
  split
  · refine .inr ?_
    split
    · exact ⟨rfl, (ledger_neighbor rfl).trans hrm⟩
    · exact ⟨rfl, hrm⟩
  · by_cases hdrop : (s.queue.packets p).transmissions ≥ (s.queue.packets p).maxTransmissions
    · refine .inr ?_
      simp only [hdrop, if_true]
      split
      · exact ⟨by simp, (ledger_neighbor rfl).trans hrm⟩
      · exact ⟨by simp, hrm⟩
    · refine .inl ?_
      simp only [hdrop, if_false]
      split
      · exact ⟨by simp, ledger_neighbor rfl⟩
      · exact ⟨by simp, rfl⟩

end Sent

theorem recordOutcome_ledger (p l : Nat) (st : MacStatus) (s : TschState) :
    (recordOutcome p l st s).ledger = s.ledger := by
  have hpacket : ∀ f : TschPacket → TschPacket, (∀ e, (f e).uid = e.uid) →
      (s.modifyPacket p f).ledger = s.ledger := fun f hf => ledger_packet (hf _)
  simp only [recordOutcome]
  split
  · exact hpacket _ fun _ => rfl
  · exact hpacket _ fun _ => rfl

variable (cfg) in
/-- The end of a transmit slot on the head of a queue serves that packet, or moves
nothing. -/
theorem finishTx_ledger {n : LinkAddr} {p : Nat} {rest : List Nat} {s : TschState}
    (hfree : s.lock.tschLocked = false) (hq : s.ledger.queue n = p :: rest) (l : Nat) (st : MacStatus)
    (rand : Nat) : (finishTx cfg n p l st rand s).ledger = s.ledger ∨
      (finishTx cfg n p l st rand s).ledger = s.ledger.serve n p rest := by
  have hrec := recordOutcome_ledger p l st s
  have hfree' : (recordOutcome p l st s).lock.tschLocked = false := by
    rw [lock_of_owned (recordOutcome_owned p l st s)]
    exact hfree
  have hq' : ((recordOutcome p l st s).queue.neighbors n).txRingbuf = p :: rest :=
    (congrArg (fun L : Ledger LinkAddr Nat => L.queue n) hrec).trans hq
  simp only [finishTx, dequeueOutcome]
  rcases packetSent_ledger cfg hfree' hq' ((recordOutcome p l st s).link l) st rand with
    ⟨hin, hl⟩ | ⟨hin, hl⟩
  · rw [if_pos hin]
    exact .inl (hl.trans hrec)
  · rw [if_neg (by rw [hin]; exact Bool.false_ne_true)]
    refine .inr ?_
    have hput : ∀ t : TschState, (t.putDequeued p).ledger =
        { t.ledger with outbox := t.ledger.outbox ++ [p] } := fun _ => rfl
    rw [hput, hl, hrec]
    rfl

/-! ## The slot operation -/

/-- The packet of the slot is the head of its neighbor's queue. -/
def HoldsHead (s : TschState) : Prop :=
  ∃ n p, s.slot.currentNeighbor = some n ∧ s.slot.currentPacket = some p ∧
    (s.queue.neighbors n).txRingbuf.head? = some p

/-- Since the ledger was `L`, the slot has moved the packet it was given from the
head of its queue to the dequeued ring, or nothing. -/
def Sent (L : Ledger LinkAddr Nat) (s : TschState) : Prop :=
  s.ledger = L ∨ ∃ n p rest, s.slot.currentNeighbor = some n ∧ s.slot.currentPacket = some p ∧
    L.queue n = p :: rest ∧ s.ledger = L.serve n p rest

/-- In a transmit slot, before its end. -/
structure Transmits (L : Ledger LinkAddr Nat) (s : TschState) : Prop where
  ledger : s.ledger = L
  head : HoldsHead s
  free : s.lock.tschLocked = false

theorem Transmits.start {L : Ledger LinkAddr Nat} {s : TschState} {l : Nat} (hl : s.ledger = L)
    (hp : (chooseLink cfg l s.disarm.enterSlot).slot.currentPacket.isSome = true) (l' : Nat) :
    Transmits L (setChannel cfg l' (chooseLink cfg l s.disarm.enterSlot)) := by
  obtain ⟨p, hp⟩ := Option.isSome_iff_exists.mp hp
  obtain ⟨hfree, n, hn, -, hhead⟩ := chooseLink_packet hp
  have hfree' : (chooseLink cfg l s.disarm.enterSlot).lock.tschLocked = false := by
    rw [lock_of_owned (chooseLink_owned l s.disarm.enterSlot)]
    exact hfree
  obtain ⟨b, o, c, hc⟩ := setChannel_spec cfg l' (chooseLink cfg l s.disarm.enterSlot)
  rw [hc]
  exact ⟨(chooseLink_ledger cfg l s.disarm.enterSlot).trans hl, ⟨n, p, hn, hp, hhead⟩, hfree'⟩

theorem Transmits.finish {L : Ledger LinkAddr Nat} {s : TschState} {n : LinkAddr} {p l : Nat}
    (h : Transmits L s) (hp : s.slot.currentPacket = some p) (hn : s.slot.currentNeighbor = some n)
    (st : MacStatus) (rand : Nat) : Sent L (finishTx cfg n p l st rand s) := by
  obtain ⟨m, q, hm, hq, hhead⟩ := h.head
  cases hm.symm.trans hn
  cases hq.symm.trans hp
  obtain ⟨rest, hring⟩ := List.head?_eq_some_iff.mp hhead
  have hspec : (finishTx cfg n p l st rand s).slot.currentNeighbor = some n ∧
      (finishTx cfg n p l st rand s).slot.currentPacket = some p := by
    obtain ⟨q, d, hf⟩ := finishTx_spec cfg n p l st rand s
    rw [hf]
    simp only [recordOutcome]
    split <;> exact ⟨hn, hp⟩
  have hqueue : s.ledger.queue n = p :: rest := hring
  rw [h.ledger] at hqueue
  rcases finishTx_ledger cfg h.free hring l st rand with hsame | hserve
  · exact .inl (hsame.trans h.ledger)
  · exact .inr ⟨n, p, rest, hspec.1, hspec.2, hqueue, h.ledger ▸ hserve⟩

/-- The outline, for a slot operation that is resumed with the ledger `L`. -/
def sentOutline (cfg : Config) (L : Ledger LinkAddr Nat) : SlotOutline cfg where
  asleep := Sent L
  starting := Transmits L
  sending _ _ := Transmits L
  listening s := s.ledger = L
  receiving s := s.ledger = L
  ending := Sent L
  chosen := Sent L
  guard s := s.ledger = L
  leave h _ := h
  skip h _ _ _ := h
  startTx _ _ hl _ _ hp := .start hl hp _
  startRx {s l l'} _ _ hl _ _ := by
    obtain ⟨b, o, c, hc⟩ := setChannel_spec cfg l' (chooseLink cfg l s.disarm.enterSlot)
    rw [hc]
    exact (chooseLink_ledger cfg l s.disarm.enterSlot).trans hl
  startIdle {s l} _ _ hl _ := .inl ((chooseLink_ledger cfg l s.disarm.enterSlot).trans hl)
  full h := .inl h.ledger
  frame h _ _ := ⟨h.ledger, h.head, h.free⟩
  framePending p h := ⟨(ledger_packet rfl).trans h.ledger, h.head, h.free⟩
  sendingPc _ h := ⟨h.ledger, h.head, h.free⟩
  transmit _ h := ⟨h.ledger, h.head, h.free⟩
  acknowledge _ h := ⟨h.ledger, h.head, h.free⟩
  syncFromAck _ _ h := ⟨h.ledger, h.head, h.free⟩
  requestBurst h := ⟨h.ledger, h.head, h.free⟩
  finish st rand h hp hn _ _ := h.finish hp hn st rand
  listeningPc _ h := h
  deaf h := .inl h
  receive h := h
  receiveBurst _ h := h
  syncFromFrame _ _ h := h
  deliver {s l} f h _ := by
    obtain ⟨t, ht⟩ := countReception_spec l s
    rw [ht]
    exact .inl h
  keepTime _ h := h
  backoff {s} l h := by
    have hl := updateLinkBackoff_ledger cfg l s
    simp only [Sent, updateLinkBackoff_slot, hl]
    exact h
  replay h _ _ := h
  select h _ := h
  advance _ _ h := h
  again h := h
  armTimer _ h := h
  sleep h := h
  disassociate h := h

/-! ## What every step keeps -/

/-- The account is balanced, and the packet of a transmit slot is the head of its
neighbor's queue. -/
structure PacketsHeld (s : TschState) : Prop where
  flags : SlotFlags s
  head : s.slot.pc.inTx = true → HoldsHead s
  balanced : s.ledger.Balanced

variable (cfg) in
theorem PacketsHeld.holds {s : TschState} (h : PacketsHeld s) :
    (sentOutline cfg s.ledger).Holds s := by
  have htx : s.slot.pc.inTx = true → Transmits s.ledger s := fun hpc => ⟨rfl, h.head hpc, h.flags.tx hpc⟩
  simp only [SlotOutline.Holds, sentOutline]
  split <;> rename_i hpc
  · exact .inl rfl
  · exact htx (by rw [hpc]; rfl)
  · exact htx (by rw [hpc]; rfl)
  · exact htx (by rw [hpc]; rfl)
  · trivial
  · trivial

theorem sent_of_holds {L : Ledger LinkAddr Nat} {s : TschState} (h : (sentOutline cfg L).Holds s) :
    Sent L s ∧ (s.slot.pc.inTx = true → HoldsHead s) := by
  simp only [SlotOutline.Holds, sentOutline] at h
  split at h <;> rename_i hpc
  · exact ⟨h, fun htx => by rw [hpc] at htx; cases htx⟩
  · exact ⟨.inl h.ledger, fun _ => h.head⟩
  · exact ⟨.inl h.ledger, fun _ => h.head⟩
  · exact ⟨.inl h.ledger, fun _ => h.head⟩
  · exact ⟨.inl h, fun htx => by rw [hpc] at htx; cases htx⟩
  · exact ⟨.inl h, fun htx => by rw [hpc] at htx; cases htx⟩

theorem Sent.served {L : Ledger LinkAddr Nat} {s : TschState} (h : Sent L s) (hL : L.Balanced) :
    L.Served s.ledger ∧ s.ledger.Balanced := by
  rcases h with h | ⟨n, p, rest, -, -, hq, h⟩
  · rw [h]
    exact ⟨.refl L, hL⟩
  · rw [h]
    exact ⟨hL.served hq, hL.serve hq⟩

/-- **One interrupt.**  It serves the packet it was given, or moves nothing. -/
theorem PacketsHeld.sent {i : SlotInput} {s s' : TschState} (h : PacketsHeld s)
    (hs : slotStep cfg i s = some s') : Sent s.ledger s' ∧ (s'.slot.pc.inTx = true → HoldsHead s') :=
  sent_of_holds (SlotOutline.step (h.holds cfg) (fun _ => rfl) (fun _ => trivial) hs)

theorem PacketsHeld.step {i : SlotInput} {s s' : TschState} (h : PacketsHeld s)
    (hs : slotStep cfg i s = some s') : PacketsHeld s' := by
  obtain ⟨hsent, hhead⟩ := h.sent hs
  exact ⟨h.flags.step hs, hhead, (hsent.served h.balanced).2⟩

/-- While a transmit slot is in progress, the step leaves the head of the queue of
`current_neighbor` where it is. -/
def KeepsHead (s s' : TschState) : Prop := s.slot.pc.inTx = true → ∀ n ∈ s.slot.currentNeighbor,
  (s'.queue.neighbors n).txRingbuf.head? = (s.queue.neighbors n).txRingbuf.head?

instance (s s' : TschState) : Decidable (KeepsHead s s') :=
  inferInstanceAs (Decidable (s.slot.pc.inTx = true → ∀ n ∈ s.slot.currentNeighbor,
    (s'.queue.neighbors n).txRingbuf.head? = (s.queue.neighbors n).txRingbuf.head?))

theorem PacketsHeld.update {s s' : TschState} (h : PacketsHeld s) (hc : KeepsHead s s')
    (hslot : s'.slot = { s.slot with dequeuedRingbuf := s'.slot.dequeuedRingbuf })
    (hflags : SlotFlags s') (hbal : s'.ledger.Balanced) : PacketsHeld s' := by
  refine ⟨hflags, fun htx => ?_, hbal⟩
  rw [hslot] at htx
  obtain ⟨n, p, hn, hp, hhead⟩ := h.head htx
  rw [HoldsHead, hslot]
  exact ⟨n, p, hn, hp, (hc htx n hn).trans hhead⟩

def packetCtx (cfg : Config) : Ctx TschState where
  irq s s' := ∃ i, slotStep cfg i s = some s'
  cond := KeepsHead
  inv := PacketsHeld
  live := False
  stable _ _ h := fun ⟨_, hi⟩ => h.step hi

theorem lockCtx_packet : LockCtx cfg (packetCtx cfg) where
  irq h := h
  flags h := h.flags
  live h := h.elim
  request h _ := h.update (fun _ _ _ => rfl) rfl ⟨h.flags.inSlot, h.flags.tx⟩ h.balanced
  lock {s} h _ _ hpc := by
    refine h.update (fun _ _ _ => rfl) rfl ⟨h.flags.inSlot, fun htx => ?_⟩ h.balanced
    have htx : s.slot.pc.inTx = true := htx
    rw [hpc] at htx
    cases htx
  unrequest h _ := h.update (fun _ _ _ => rfl) rfl ⟨h.flags.inSlot, h.flags.tx⟩ h.balanced

theorem served_rely {s s' : TschState} (hi : PacketsHeld s) (h : (packetCtx cfg).rely s s') :
    s.ledger.Served s'.ledger :=
  (packetCtx cfg).rely_lift (R := fun a b => a.ledger.Served b.ledger) (fun _ => .refl _)
    (fun h1 h2 => h1.trans h2) (fun hi ⟨_, hs⟩ => ((hi.sent hs).1.served hi.balanced).1) hi h

/-- The lock is free, and stays free. -/
def Free (s : TschState) : Prop := s.lock = ⟨false, false⟩

theorem Free.rely {s s' : TschState} (hi : PacketsHeld s) (h : (packetCtx cfg).rely s s')
    (hf : Free s) : Free s' :=
  (lock_of_owned (lockCtx_packet.owned_rely hi h)).trans hf

/-! ## Writes of a process -/

/-- Between two calls. -/
structure Between (s : TschState) : Prop where
  free : Free s
  settled : s.ledger.Settled

theorem Between.rely {s s' : TschState} (h : Between s) (hi : PacketsHeld s)
    (hr : (packetCtx cfg).rely s s') : Between s' :=
  ⟨h.free.rely hi hr, .served (served_rely hi hr) h.settled⟩

theorem PacketsHeld.act {s s' : TschState} (h : PacketsHeld s) (hc : KeepsHead s s')
    (hslot : s'.slot = { s.slot with dequeuedRingbuf := s'.slot.dequeuedRingbuf })
    (hlock : s'.lock = s.lock) (hbal : s'.ledger.Balanced) : PacketsHeld s' := by
  refine h.update hc hslot ⟨?_, ?_⟩ hbal
  · rw [hslot]
    exact h.flags.inSlot
  · rw [hslot, hlock]
    exact h.flags.tx

end QlTsch
