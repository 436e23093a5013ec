/-
# `QlTsch.TransmitAttempts` — what a slot does to the packets

An interrupt that brings a transmission attempt to its end counts the attempt in the
packet and notes its status; then the packet leaves the head of its queue for the
dequeued ring, if it was delivered or has no attempt left, and otherwise stays
(`finishTx_attempt`).  Every other interrupt leaves packets and queues as they are
(`PacketsHeld.slotEffect`); the frame-pending bit is not looked at.
-/
import QlTsch.PacketLedger
import QlTsch.SlotEvents

namespace QlTsch

variable {cfg : Config}

/-! ## The end of an attempt -/

/-- One more attempt, with its status. -/
def TschPacket.tried (st : MacStatus) (e : TschPacket) : TschPacket :=
  { e with transmissions := (e.transmissions + 1) % 256, ret := st }

/-- After an attempt with this status the packet does not stay in its queue. -/
def TschPacket.LeavesAfter (st : MacStatus) (e : TschPacket) : Prop :=
  st = .ok ∨ e.maxTransmissions ≤ (e.transmissions + 1) % 256

instance (st : MacStatus) (e : TschPacket) : Decidable (e.LeavesAfter st) :=
  inferInstanceAs (Decidable (st = .ok ∨ e.maxTransmissions ≤ (e.transmissions + 1) % 256))

variable (cfg) in
theorem packetSent_packets (n : LinkAddr) (p : Nat) (link : TschLink) (st : MacStatus) (rand : Nat)
    (s : TschState) :
    (tschQueuePacketSent cfg n p link st rand s).2.queue.packets = s.queue.packets := by
  have hrm : (tschQueueRemovePacketFromQueue n s).2.queue.packets = s.queue.packets := by
    simp only [tschQueueRemovePacketFromQueue]
    split
    · rfl
    · split <;> rfl
  simp only [tschQueuePacketSent]
  split
  · split <;> exact hrm
  · split
    · split
      · exact hrm
      · rfl
    · split
      · exact hrm
      · rfl

variable (cfg) in
theorem packetSent_stays (n : LinkAddr) (p : Nat) (link : TschLink) (st : MacStatus) (rand : Nat)
    (s : TschState) : (tschQueuePacketSent cfg n p link st rand s).1 = true ↔
      ¬ (st = .ok ∨ (s.queue.packets p).maxTransmissions ≤ (s.queue.packets p).transmissions) := by
  simp only [tschQueuePacketSent]
  split
  · rename_i hok
    have hleft : ∀ b : Bool, b = false → (b = true ↔ ¬ (st = .ok ∨
        (s.queue.packets p).maxTransmissions ≤ (s.queue.packets p).transmissions)) := by
      rintro _ rfl
      exact iff_of_false Bool.false_ne_true fun h => h (.inl hok)
    split <;> exact hleft _ rfl
  · rename_i hok
    split <;> simp [hok]

variable (cfg) in
/-- **The end of an attempt** on the head of a queue. -/
theorem finishTx_attempt {n : LinkAddr} {p : Nat} {rest : List Nat} {s : TschState}
    (hfree : s.lock.tschLocked = false) (hq : s.ledger.queue n = p :: rest) (l : Nat) (st : MacStatus)
    (rand : Nat) :
    (finishTx cfg n p l st rand s).queue.packets =
        Function.update s.queue.packets p ((s.queue.packets p).tried st) ∧
      (finishTx cfg n p l st rand s).ledger =
        if (s.queue.packets p).LeavesAfter st then s.ledger.serve n p rest else s.ledger := by
  have hrec := recordOutcome_ledger p l st s
  have hpackets : (recordOutcome p l st s).queue.packets =
      Function.update s.queue.packets p ((s.queue.packets p).tried st) := by
    simp only [recordOutcome]
    split <;> rfl
  have hfree' : (recordOutcome p l st s).lock.tschLocked = false := by
    rw [lock_of_owned (recordOutcome_owned p l st s)]
    exact hfree
  have hq' : ((recordOutcome p l st s).queue.neighbors n).txRingbuf = p :: rest :=
    (congrArg (fun L : Interleave.Ledger LinkAddr Nat => L.queue n) hrec).trans hq
  have hstays := packetSent_stays cfg n p ((recordOutcome p l st s).link l) st rand
    (recordOutcome p l st s)
  rw [hpackets, Function.update_self] at hstays
  have hsent := packetSent_packets cfg n p ((recordOutcome p l st s).link l) st rand
    (recordOutcome p l st s)
  simp only [finishTx, dequeueOutcome]
  rcases packetSent_ledger cfg hfree' hq' ((recordOutcome p l st s).link l) st rand with
    ⟨hin, hl⟩ | ⟨hin, hl⟩
  · rw [if_pos hin]
    refine ⟨hsent.trans hpackets, ?_⟩
    rw [if_neg (show ¬ (s.queue.packets p).LeavesAfter st from hstays.mp hin)]
    exact hl.trans hrec
  · rw [if_neg (by rw [hin]; exact Bool.false_ne_true)]
    refine ⟨hsent.trans hpackets, ?_⟩
    have hleaves : (s.queue.packets p).LeavesAfter st := by
      by_contra hno
      exact Bool.false_ne_true (hin.symm.trans (hstays.mpr hno))
    have hput : ∀ t : TschState, (t.putDequeued p).ledger =
        { t.ledger with outbox := t.ledger.outbox ++ [p] } := fun _ => rfl
    rw [if_pos hleaves, hput, hl, hrec]
    rfl

/-! ## One interrupt -/

theorem ledger_of_kept {s s' : TschState} (h : s'.kept = s.kept) : s'.ledger = s.ledger := by
  refine Interleave.Ledger.ext (congrArg (fun k : Kept => k.owned.view.nbrs) h) ?_
    (congrArg Kept.dequeuedRingbuf h) (congrArg (fun k : Kept => k.owned.packetMemb) h) ?_
    (congrArg (fun k : Kept => k.owned.accepted) h) (congrArg (fun k : Kept => k.owned.taken) h)
    (congrArg (fun k : Kept => k.owned.called) h) (congrArg (fun k : Kept => k.owned.freed) h)
  · exact congrArg (fun (k : Kept) n => (k.neighbors n).txRingbuf) h
  · exact congrArg (fun (k : Kept) p => (k.packets p).uid) h

theorem ledger_of_rest {s s' : TschState} (h : s'.rest = s.rest) : s'.ledger = s.ledger := by
  refine Interleave.Ledger.ext (congrArg (fun k : Rest => k.owned.view.nbrs) h)
    (congrArg Rest.txRingbuf h) (congrArg Rest.dequeuedRingbuf h)
    (congrArg (fun k : Rest => k.owned.packetMemb) h) ?_
    (congrArg (fun k : Rest => k.owned.accepted) h) (congrArg (fun k : Rest => k.owned.taken) h)
    (congrArg (fun k : Rest => k.owned.called) h) (congrArg (fun k : Rest => k.owned.freed) h)
  exact congrArg (fun (k : Rest) p => (k.packets p).uid) h

theorem packets_of_rest {s s' : TschState} (h : s'.rest = s.rest) :
    s'.kept.packets = s.kept.packets := by
  funext p
  exact congrArg (fun k : Rest => { k.packets p with framePending := false }) h

/-- What an interrupt with this event does to the packets and the queues. -/
def SlotEvent.Effect (s s' : TschState) : SlotEvent → Prop
  | .attempt n p _ st => ∃ rest, s.ledger.queue n = p :: rest ∧
      s'.kept.packets = Function.update s.kept.packets p ((s.kept.packets p).tried st) ∧
      s'.ledger = if (s.kept.packets p).LeavesAfter st then s.ledger.serve n p rest else s.ledger
  | .quiet | .reception _ _ => s'.kept.packets = s.kept.packets ∧ s'.ledger = s.ledger

theorem attemptEvent_attempt {s : TschState} {st st' : MacStatus} {n : LinkAddr} {p l : Nat}
    (h : attemptEvent st s = .attempt n p l st') :
    s.slot.currentPacket = some p ∧ s.slot.currentNeighbor = some n ∧
      s.slot.currentLink = some l := by
  simp only [attemptEvent] at h
  split at h
  · rename_i hp hn hl
    cases h
    exact ⟨hp, hn, hl⟩
  · cases h

theorem receptionEvent_not_attempt {s : TschState} {f : RxFrame} {n : LinkAddr} {p l : Nat}
    {st : MacStatus} : receptionEvent f s ≠ .attempt n p l st := by
  simp only [receptionEvent]
  split <;> exact fun h => (by cases h)

theorem startEvent_attempt {i : SlotInput} {s : TschState} {n : LinkAddr} {p l : Nat}
    {st : MacStatus} (h : startEvent cfg i s = .attempt n p l st) :
    (s.slot.currentPacket = some p ∧ s.slot.currentNeighbor = some n ∧
      s.slot.currentLink = some l) ∧
      s.slot.dequeuedRingbuf.length < cfg.dequeuedRingbufCapacity := by
  simp only [startEvent] at h
  split at h
  · split at h
    · rename_i hroom
      split at h
      · exact ⟨attemptEvent_attempt h, hroom⟩
      · split at h
        · cases h
        · exact ⟨attemptEvent_attempt h, hroom⟩
    · cases h
  · cases h

/-- An attempt is that of the packet, the neighbor and the link of the slot, one that
starts or a transmit slot in progress. -/
theorem slotEvent_attempt {i : SlotInput} {s : TschState} {n : LinkAddr} {p l : Nat}
    {st : MacStatus} (h : slotEvent cfg i s = .attempt n p l st) :
    ((takeUp cfg s).slot.currentPacket = some p ∧ (takeUp cfg s).slot.currentNeighbor = some n ∧
      (takeUp cfg s).slot.currentLink = some l) ∧
    ((s.slot.currentLink.isSome = true ∧ slotBegins s = true) ∨ s.slot.pc.inTx = true) := by
  have hslot : s.slot.pc.inTx = true → ∀ {st'}, attemptEvent st' s = .attempt n p l st →
      ((takeUp cfg s).slot.currentPacket = some p ∧ (takeUp cfg s).slot.currentNeighbor = some n ∧
        (takeUp cfg s).slot.currentLink = some l) ∧
      ((s.slot.currentLink.isSome = true ∧ slotBegins s = true) ∨ s.slot.pc.inTx = true) := by
    intro htx st' ha
    have hawake : s.slot.pc ≠ .asleep := fun hpc => by
      rw [hpc] at htx
      cases htx
    rw [takeUp_awake hawake]
    exact ⟨attemptEvent_attempt ha, .inr htx⟩
  cases hpc : s.slot.pc with
  | asleep =>
      simp only [slotEvent, hpc] at h
      split at h
      · rename_i hbegins
        rw [Bool.and_eq_true] at hbegins
        exact ⟨(startEvent_attempt h).1, .inl hbegins.symm⟩
      · cases h
  | txBeforeCca loc =>
      simp only [slotEvent, hpc] at h
      rw [← hpc]
      split at h
      · cases h
      · exact hslot (by rw [hpc]; rfl) h
  | txBeforeTx loc =>
      simp only [slotEvent, hpc] at h
      rw [← hpc]
      split at h
      · split at h
        · cases h
        · exact hslot (by rw [hpc]; rfl) h
      · exact hslot (by rw [hpc]; rfl) h
  | txBeforeAck loc =>
      simp only [slotEvent, hpc] at h
      rw [← hpc]
      exact hslot (by rw [hpc]; rfl) h
  | rxBeforeListen =>
      simp only [slotEvent, hpc] at h
      split at h
      · split at h
        · exact absurd h receptionEvent_not_attempt
        · cases h
      · cases h
  | rxBeforeAck f =>
      simp only [slotEvent, hpc] at h
      exact absurd h receptionEvent_not_attempt

theorem PacketsHeld.attempt {i : SlotInput} {s : TschState} (h : PacketsHeld s) {n : LinkAddr}
    {p l : Nat} {st : MacStatus} (he : slotEvent cfg i s = .attempt n p l st) :
    s.lock.tschLocked = false ∧ ∃ rest, s.ledger.queue n = p :: rest := by
  obtain ⟨⟨hp, hn, -⟩, ⟨hlink, hbegins⟩ | htx⟩ := slotEvent_attempt he
  · -- a slot that starts
    obtain ⟨l', hl'⟩ := Option.isSome_iff_exists.mp hlink
    simp only [takeUp, hl', hbegins, if_true] at hp hn
    obtain ⟨hlock, m, hm, -, hhead⟩ := chooseLink_packet hp
    cases hm.symm.trans hn
    have hsame : (chooseLink cfg l' s.disarm.enterSlot).ledger.queue n = s.ledger.queue n :=
      congrArg (fun L : Interleave.Ledger LinkAddr Nat => L.queue n)
        (chooseLink_ledger cfg l' s.disarm.enterSlot)
    exact ⟨hlock, hsame ▸ List.head?_eq_some_iff.mp hhead⟩
  · -- a transmit slot in progress
    have hawake : s.slot.pc ≠ .asleep := fun hpc => by
      rw [hpc] at htx
      cases htx
    rw [takeUp_awake hawake] at hp hn
    obtain ⟨m, q, hm, hq, hhead⟩ := h.head htx
    cases hm.symm.trans hn
    cases hq.symm.trans hp
    exact ⟨h.flags.tx htx, List.head?_eq_some_iff.mp hhead⟩

/-- **One interrupt.** -/
theorem PacketsHeld.slotEffect {i : SlotInput} {s s' : TschState} (h : PacketsHeld s)
    (hs : slotStep cfg i s = some s') : (slotEvent cfg i s).Effect s s' := by
  have hrest := takeUp_rest cfg s
  have hpackets : (takeUp cfg s).kept.packets = s.kept.packets := packets_of_rest hrest
  have hledger : (takeUp cfg s).ledger = s.ledger := ledger_of_rest hrest
  rcases slotStep_event hs with ⟨he, hk⟩ | ⟨w, hk, hend⟩
  · rw [he]
    exact ⟨(congrArg Kept.packets hk).trans hpackets, (ledger_of_kept hk).trans hledger⟩
  · have hwp : w.kept.packets = s.kept.packets := (congrArg Kept.packets hk).trans hpackets
    have hwl : w.ledger = s.ledger := (ledger_of_kept hk).trans hledger
    have hep := packets_of_rest (endOfSlot_rest hend)
    have hel := ledger_of_rest (endOfSlot_rest hend)
    cases he : slotEvent cfg i s with
    | quiet =>
        rw [he] at hep hel
        exact ⟨hep.trans hwp, hel.trans hwl⟩
    | reception l f =>
        rw [he] at hep hel
        obtain ⟨t, ht⟩ := countReception_spec l w
        have happly : (SlotEvent.reception l f).apply cfg i w = (countReception l w).putInput f := rfl
        rw [happly, ht] at hep hel
        exact ⟨hep.trans hwp, hel.trans hwl⟩
    | attempt n p l st =>
        rw [he] at hep hel
        obtain ⟨hlock, rest, hq⟩ := h.attempt he
        have hwlock : w.lock.tschLocked = false := by
          have howned : w.owned = s.owned :=
            (congrArg Kept.owned hk).trans (congrArg Rest.owned hrest)
          rw [lock_of_owned howned]
          exact hlock
        obtain ⟨hfp, hfl⟩ := finishTx_attempt cfg hwlock (hwl ▸ hq) l st i.rand
        have hcore : w.kept.packets p = s.kept.packets p := congrFun hwp p
        have hleaves : (w.queue.packets p).LeavesAfter st ↔ (s.kept.packets p).LeavesAfter st := by
          rw [← hcore]
          rfl
        refine ⟨rest, hq, hep.trans ?_, hel.trans ?_⟩
        · funext q
          show ({ (finishTx cfg n p l st i.rand w).queue.packets q with framePending := false } :
            TschPacket) = _
          rw [hfp, ← hwp]
          by_cases hqp : q = p
          · subst hqp
            rw [Function.update_self, Function.update_self]
            rfl
          · rw [Function.update_of_ne hqp, Function.update_of_ne hqp]
            rfl
        · show (finishTx cfg n p l st i.rand w).ledger = _
          rw [hfl, hwl]
          by_cases hlv : (w.queue.packets p).LeavesAfter st
          · rw [if_pos hlv, if_pos (hleaves.mp hlv)]
          · rw [if_neg hlv, if_neg fun h => hlv (hleaves.mpr h)]

end QlTsch
