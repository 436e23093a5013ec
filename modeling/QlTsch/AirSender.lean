/-
# `QlTsch.AirSender` — what a node puts on the air

Of a run of one node, its processes and slots in any order: a frame goes out for the
packet at the head of a queue, and asks for an acknowledgement exactly if the queue is
that of a real neighbor.  While the node waits for it, the packet stays where it is; so an
attempt that is acknowledged was the last frame.  Packets of one neighbor go out in the
order in which they were accepted, each no more often than its attempts allow
(`SenderInv`).
-/
import QlTsch.Network

namespace QlTsch

open Interleave Interleave.Prog

section
variable {cfg : Config}

/-! ## The transmit slot -/

/-- The locals say whether the neighbor of the slot is a real one. -/
def LocalsKnown (cfg : Config) (loc : TxLocals) (s : TschState) : Prop :=
  ∃ n, s.slot.currentNeighbor = some n ∧ loc.doWaitForAck = !cfg.isVirtual n

def localsOutline (cfg : Config) : SlotOutline cfg where
  asleep _ := True
  starting s := ∀ n, (s.queue.neighbors n).isBroadcast = cfg.isVirtual n
  sending _ := LocalsKnown cfg
  listening _ := True
  receiving _ := True
  ending _ := True
  chosen _ := True
  guard := VirtualOk cfg
  leave _ _ := trivial
  skip _ _ _ _ := trivial
  startTx {s l l'} _ _ hv _ _ _ := by
    have howned : (setChannel cfg l' (chooseLink cfg l s.disarm.enterSlot)).owned = s.owned :=
      (setChannel_owned l' _).trans (chooseLink_owned l s.disarm.enterSlot)
    exact (hv.of_owned howned).isBroadcast
  startRx _ _ _ _ _ := trivial
  startIdle _ _ _ _ := trivial
  full _ := trivial
  frame {s p n} h _ hn := ⟨n, hn, by rw [← h n]; rfl⟩
  framePending _ h := h
  sendingPc _ h := h
  transmit _ h := h
  acknowledge _ h := h
  syncFromAck _ _ h := h
  requestBurst h := h
  finish _ _ _ _ _ _ _ := trivial
  listeningPc _ _ := trivial
  deaf _ := trivial
  receive _ := trivial
  receiveBurst _ _ := trivial
  syncFromFrame _ _ _ := trivial
  deliver _ _ _ := trivial
  keepTime _ _ := trivial
  again _ := trivial
  disassociate _ := trivial
  backoff _ _ := trivial
  replay _ _ _ := trivial
  select _ _ := trivial
  advance _ _ _ := trivial
  armTimer _ _ := trivial
  sleep _ := trivial

/-- A node that waits for an acknowledgement has just sent its frame. -/
theorem slotStep_waits {i : SlotInput} {s s' : TschState} {loc : TxLocals}
    (hs : slotStep cfg i s = some s') (hpc' : s'.slot.pc = .txBeforeAck loc) :
    s.slot.pc = .txBeforeTx loc ∧ loc.doWaitForAck = true ∧
      s' = (s.noteTransmitted i.transmitOk).setPc (.txBeforeAck loc) := by
  have hyields := slotStep_yields hs (by rw [hpc']; exact SlotPc.noConfusion)
  rw [hpc'] at hyields
  cases hpc : s.slot.pc with
  | txBeforeTx l =>
      rw [hpc] at hyields
      cases hyields with
      | sent _ hwait =>
          simp only [slotStep, hpc, txSlotTransmit, hwait, if_true] at hs
          split at hs
          · cases hs
            exact ⟨rfl, hwait, rfl⟩
          · rw [txSlotEnd_asleep hs] at hpc'
            cases hpc'
  | _ =>
      rw [hpc] at hyields
      cases hyields

/-! ## What a step does to the queues -/

/-- A step only takes packets out of the queues, or puts new ones at their end. -/
def QueueFlow (s s' : TschState) : Prop :=
  ∀ n, ∀ p ∈ s'.ledger.queue n,
    (p ∈ s.ledger.queue n ∧ s'.ledger.uid p = s.ledger.uid p) ∨ s'.ledger.uid p = s.ledger.accepted

theorem queueFlow_act {s s' : TschState} (ha : PacketAct (· < 256) s s') : QueueFlow s s' := by
  intro n p hp
  cases ha with
  | keep hqueue hpackets _ =>
      rw [hqueue] at hp
      exact .inl ⟨hp, uid_of_kept (hpackets n p hp)⟩
  | accept m q hqueue _ _ hpackets huid _ _ _ =>
      rw [hqueue] at hp
      by_cases hnm : n = m
      · subst hnm
        rw [Function.update_self] at hp
        rcases List.mem_append.mp hp with hp | hp
        · exact .inl ⟨hp, uid_of_kept (hpackets n p hp)⟩
        · cases List.mem_singleton.mp hp
          exact .inr huid
      · rw [Function.update_of_ne hnm] at hp
        exact .inl ⟨hp, uid_of_kept (hpackets n p hp)⟩

/-- What a process does to the queues is not an attempt, and what it adds is new. -/
theorem queueEvents_act {s s' : TschState} (hbal : s.ledger.Balanced)
    (ha : PacketAct (· < 256) s s') :
    (∀ u, attemptsOf u (queueEvents s s') = []) ∧
      ∀ n, acceptedFor n (queueEvents s s') = [] ∨
        acceptedFor n (queueEvents s s') = [s.ledger.accepted] := by
  cases ha with
  | keep hqueue _ _ =>
      rw [queueEvents_same hqueue]
      exact ⟨fun _ => rfl, fun _ => .inl rfl⟩
  | accept m q hqueue hkey _ _ huid _ _ _ =>
      have hnew : s'.ledger.uid q = s.ledger.accepted := huid
      rw [queueEvents_accept hbal hkey hqueue, hnew]
      refine ⟨fun _ => rfl, fun n => ?_⟩
      rw [acceptedFor_accepted]
      split
      · exact .inr rfl
      · exact .inl rfl

theorem slot_queues {i : SlotInput} {s s' : TschState} (hi : PacketsHeld s)
    (hs : slotStep cfg i s = some s') :
    QueueFlow s s' ∧ (∀ n, acceptedFor n (attemptEvents cfg i s ++ queueEvents s s') = []) ∧
      ∀ u, attemptsOf u (attemptEvents cfg i s ++ queueEvents s s') =
        attemptsOf u (attemptEvents cfg i s) := by
  have heffect := hi.slotEffect hs
  have hsame : ∀ {es : List FifoEvent}, s'.kept.packets = s.kept.packets ∧ s'.ledger = s.ledger →
      (∀ n, acceptedFor n es = []) → QueueFlow s s' ∧
      (∀ n, acceptedFor n (es ++ queueEvents s s') = []) ∧
      ∀ u, attemptsOf u (es ++ queueEvents s s') = attemptsOf u es := by
    rintro es ⟨-, hledger⟩ hes
    rw [queueEvents_same (congrArg Ledger.queue hledger), List.append_nil]
    refine ⟨fun n p hp => ?_, hes, fun _ => rfl⟩
    rw [hledger] at hp ⊢
    exact .inl ⟨hp, rfl⟩
  simp only [attemptEvents]
  cases he : slotEvent cfg i s with
  | quiet =>
      rw [he] at heffect
      exact hsame heffect fun _ => rfl
  | reception l f =>
      rw [he] at heffect
      exact hsame heffect fun _ => rfl
  | attempt n p l st =>
      rw [he] at heffect
      obtain ⟨rest, hq, hpackets, hledger⟩ := heffect
      by_cases hleaves : (s.kept.packets p).LeavesAfter st
      · rw [if_pos hleaves] at hledger
        have hqueue : s'.ledger.queue = Function.update s.ledger.queue n rest := by rw [hledger]; rfl
        rw [queueEvents_serve hi.balanced hq hqueue]
        refine ⟨fun m q hm => ?_, fun m => rfl, fun u => ?_⟩
        swap
        · rw [attemptsOf_append, attemptsOf_left, List.append_nil]
        have huid : s'.ledger.uid q = s.ledger.uid q := by rw [hledger]; rfl
        refine .inl ⟨?_, huid⟩
        rw [hqueue] at hm
        by_cases hmn : m = n
        · subst hmn
          rw [Function.update_self] at hm
          rw [hq]
          exact List.mem_cons_of_mem p hm
        · rwa [Function.update_of_ne hmn] at hm
      · rw [if_neg hleaves] at hledger
        rw [queueEvents_same (congrArg Ledger.queue hledger), List.append_nil]
        refine ⟨fun m q hm => ?_, fun m => rfl, fun _ => rfl⟩
        rw [hledger] at hm ⊢
        exact .inl ⟨hm, rfl⟩

end

/-! ## The invariant of a sender -/

theorem FifoInv.accepted_lt {es : List FifoEvent} {s : TschState} {n : LinkAddr} {u : Nat}
    (h : FifoInv es s) (hu : u ∈ acceptedFor n es) : u < s.ledger.accepted := by
  obtain ⟨a, ha⟩ := mem_acceptedFor.mp hu
  exact h.known n u a ha

/-- The packet of the frame whose acknowledgement is waited for. -/
def waitingUid (s : TschState) : Option Nat :=
  match s.slot.pc with
  | .txBeforeAck _ => s.slot.currentPacket.map s.ledger.uid
  | _ => none

theorem waitingUid_eq_none {s : TschState} (h : ∀ loc, s.slot.pc ≠ .txBeforeAck loc) :
    waitingUid s = none := by
  simp only [waitingUid]

section
variable {ι : Type} {cfg : Config} {h : List (AirEvent ι)} {s s' : TschState}

/-- A frame that was sent: its packet was accepted for its neighbor, and what is queued
there now is this packet, or came later. -/
structure FrameOf (cfg : Config) (h : List (AirEvent ι)) (s : TschState) (f : AirFrame) : Prop where
  unicast : f.unicast = !cfg.isVirtual f.neighbor
  accepted : f.uid ∈ acceptedFor f.neighbor (queueLog h)
  first : ∀ p ∈ s.ledger.queue f.neighbor, f.uid ≤ s.ledger.uid p

theorem FrameOf.step {f : AirFrame} (hf : FrameOf cfg h s f) (hfifo : FifoInv (queueLog h) s)
    (hflow : QueueFlow s s') (es : List (AirEvent ι)) : FrameOf cfg (h ++ es) s' f := by
  refine ⟨hf.unicast, ?_, fun p hp => ?_⟩
  · rw [queueLog_append, acceptedFor_append]
    exact List.mem_append_left _ hf.accepted
  · rcases hflow f.neighbor p hp with ⟨hold, huid⟩ | hnew
    · rw [huid]
      exact hf.first p hold
    · rw [hnew]
      exact (hfifo.accepted_lt hf.accepted).le

structure SenderInv (cfg : Config) (h : List (AirEvent ι)) (s : TschState) : Prop where
  fifo : FifoInv (queueLog h) s
  virtual : VirtualOk cfg s
  locals : (localsOutline cfg).Holds s
  sorted : ∀ n, (acceptedFor n (queueLog h)).Pairwise (· < ·)
  frames : ∀ f ∈ sentLog h, FrameOf cfg h s f
  /-- the packets of a neighbor go out in order -/
  ordered : (sentLog h).Pairwise fun f g => f.neighbor = g.neighbor → f.uid ≤ g.uid
  /-- each frame is one of an attempt that is over, or the one that is waited for -/
  counted : ∀ u, (sentLog h).countP (fun f => f.uid = u) ≤
    (attemptsOf u (queueLog h)).length + if waitingUid s = some u then 1 else 0
  waiting : ∀ loc, s.slot.pc = .txBeforeAck loc → loc.doWaitForAck = true ∧
    ∃ f, airFrame loc s = some f ∧ (sentLog h).getLast? = some f

namespace SenderInv

theorem start (hs : NodeStart cfg s) : SenderInv cfg ([] : List (AirEvent ι)) s where
  fifo := FifoInv.start hs.empty
  virtual := hs.virtual
  locals := by
    simp only [SlotOutline.Holds, hs.asleep]
    trivial
  sorted _ := List.Pairwise.nil
  frames _ hf := by cases hf
  ordered := List.Pairwise.nil
  counted _ := Nat.zero_le _
  waiting loc hpc := by
    rw [hs.asleep] at hpc
    cases hpc

theorem sorted_append (hI : SenderInv cfg h s) {es : List (AirEvent ι)}
    (hnew : ∀ n, acceptedFor n (queueLog es) = [] ∨
      acceptedFor n (queueLog es) = [s.ledger.accepted]) (n : LinkAddr) :
    (acceptedFor n (queueLog (h ++ es))).Pairwise (· < ·) := by
  rw [queueLog_append, acceptedFor_append]
  rcases hnew n with hes | hes
  · rw [hes, List.append_nil]
    exact hI.sorted n
  · rw [hes]
    refine List.pairwise_append.mpr ⟨hI.sorted n, List.pairwise_singleton _ _, ?_⟩
    intro u hu v hv
    cases List.mem_singleton.mp hv
    exact hI.fifo.accepted_lt hu

theorem act (hi : PacketsHeld s) (hI : SenderInv cfg h s) (ha : PacketAct (· < 256) s s')
    (hl : LeavesSlot s s') (hv : KeepsVirtual cfg s s') :
    SenderInv cfg (h ++ processEvents s s') s' := by
  have hpc : s'.slot.pc = s.slot.pc := by rw [hl.slot]
  have hp : s'.slot.currentPacket = s.slot.currentPacket := by rw [hl.slot]
  have hn : s'.slot.currentNeighbor = s.slot.currentNeighbor := by rw [hl.slot]
  have hlog : queueLog (processEvents (ι := ι) s s') = queueEvents s s' := queueLog_queue _
  have hsent : sentLog (h ++ processEvents s s') = sentLog h := by
    rw [sentLog_append, processEvents, sentLog_queue, List.append_nil]
  obtain ⟨hattempts, haccepted⟩ := queueEvents_act hi.balanced ha
  -- the packet of a transmit slot is still the same
  have huid : s.slot.pc.inTx = true → ∀ p, s.slot.currentPacket = some p →
      s'.ledger.uid p = s.ledger.uid p := by
    intro htx p hcur
    obtain ⟨n, q, -, hq, hhead⟩ := hi.head htx
    cases hq.symm.trans hcur
    have hmem : p ∈ s.ledger.queue n := List.mem_of_mem_head? hhead
    cases ha with
    | keep _ hpackets _ => exact uid_of_kept (hpackets n p hmem)
    | accept _ _ _ _ _ hpackets _ _ _ _ => exact uid_of_kept (hpackets n p hmem)
  have hsame : waitingUid s' = waitingUid s := by
    simp only [waitingUid, hpc, hp]
    split
    · rename_i loc hack
      cases hcur : s.slot.currentPacket with
      | none => rfl
      | some p => exact congrArg some (huid (by rw [hack]; rfl) p hcur)
    · rfl
  refine ⟨?_, hv hI.virtual, ?_, hI.sorted_append (hlog ▸ haccepted), fun f hf => ?_,
    hsent ▸ hI.ordered, fun u => ?_, fun loc hack => ?_⟩
  · rw [queueLog_append, hlog]
    exact hI.fifo.act hi.balanced ha
  · have hlocals := hI.locals
    simp only [SlotOutline.Holds, hpc, localsOutline, LocalsKnown, hn] at hlocals ⊢
    exact hlocals
  · rw [hsent] at hf
    exact (hI.frames f hf).step hI.fifo (queueFlow_act ha) _
  · rw [hsent, hsame, queueLog_append, attemptsOf_append, hlog, hattempts u, List.append_nil]
    exact hI.counted u
  · rw [hpc] at hack
    obtain ⟨hwait, f, hf, hlast⟩ := hI.waiting loc hack
    refine ⟨hwait, f, ?_, hsent ▸ hlast⟩
    rw [← hf]
    simp only [airFrame, hn, hp]
    split
    · rename_i n p _ hcur
      have hpacket : (s'.queue.packets p).uid = (s.queue.packets p).uid :=
        huid (by rw [hack]; rfl) p hcur
      rw [hpacket]
    · rfl

theorem airFrame_head (hi : PacketsHeld s) {loc : TxLocals} {f : AirFrame}
    (htx : s.slot.pc.inTx = true) (hf : airFrame loc s = some f) :
    ∃ p rest, s.slot.currentPacket = some p ∧ s.slot.currentNeighbor = some f.neighbor ∧
      s.ledger.queue f.neighbor = p :: rest ∧ f.uid = s.ledger.uid p ∧ f.unicast = loc.doWaitForAck := by
  obtain ⟨n, p, hn, hp, hhead⟩ := hi.head htx
  obtain ⟨rest, hq⟩ := List.head?_eq_some_iff.mp hhead
  simp only [airFrame, hn, hp, Option.some.injEq] at hf
  subst hf
  exact ⟨p, rest, hp, hn, hq, rfl, rfl⟩

theorem head_le (hI : SenderInv cfg h s) {n : LinkAddr} {p q : Nat} {rest : List Nat}
    (hq : s.ledger.queue n = p :: rest) (hmem : q ∈ s.ledger.queue n) :
    s.ledger.uid p ≤ s.ledger.uid q := by
  have hsorted := hI.sorted n
  rw [hI.fifo.order n, hq] at hsorted
  have htail := (List.pairwise_append.mp hsorted).2.1
  rw [hq] at hmem
  rcases List.mem_cons.mp hmem with rfl | hmem
  · exact le_rfl
  · exact ((List.pairwise_cons.mp htail).1 _ (List.mem_map_of_mem hmem)).le

theorem frame (hI : SenderInv cfg h s) (hi : PacketsHeld s) {loc : TxLocals} {f : AirFrame}
    (hpc : s.slot.pc = .txBeforeTx loc) (hf : airFrame loc s = some f) : FrameOf cfg h s f := by
  obtain ⟨p, rest, -, hn, hq, huid, hunicast⟩ := airFrame_head hi (by rw [hpc]; rfl) hf
  refine ⟨?_, ?_, fun q hmem => ?_⟩
  · have hlocals := hI.locals
    simp only [SlotOutline.Holds, hpc, localsOutline, LocalsKnown] at hlocals
    obtain ⟨n, hn', hwait⟩ := hlocals
    cases hn'.symm.trans hn
    exact hunicast.trans hwait
  · rw [hI.fifo.order, huid, hq]
    exact List.mem_append_right _ List.mem_cons_self
  · rw [huid]
    exact hI.head_le hq hmem

end SenderInv

end

/-! ## One slot -/

section
variable {ι : Type} [DecidableEq ι] {cfg : ι → Config} {log : List (ι × AirEvent ι)} {n : ι}
  {i : AirInput ι} {as : List (AirEvent ι)} {s s' : TschState}

/-- A node sends at one yield only. -/
theorem airEvents_sent (h : airEvents cfg log n i s = some as) : queueLog as = [] ∧
    ((∃ loc f, s.slot.pc = .txBeforeTx loc ∧ airFrame loc s = some f ∧ as = [.sent f]) ∨
      (sentLog as = [] ∧ ∀ loc, s.slot.pc ≠ .txBeforeTx loc)) := by
  simp only [airEvents] at h
  split at h
  · rename_i hpc
    cases h
    exact ⟨rfl, .inr ⟨rfl, fun loc hloc => by rw [hpc] at hloc; cases hloc⟩⟩
  · rename_i loc' hpc
    cases h
    exact ⟨rfl, .inr ⟨rfl, fun loc hloc => by rw [hpc] at hloc; cases hloc⟩⟩
  · rename_i loc hpc
    obtain ⟨f, hf, rfl⟩ := Option.map_eq_some_iff.mp h
    exact ⟨rfl, .inl ⟨loc, f, hpc, hf, rfl⟩⟩
  · rename_i loc' hpc
    split at h
    · cases h
    · cases h
      exact ⟨rfl, .inr ⟨rfl, fun loc hloc => by rw [hpc] at hloc; cases hloc⟩⟩
  · rename_i hpc
    have hno : ∀ loc, s.slot.pc ≠ .txBeforeTx loc := fun loc hloc => by rw [hpc] at hloc; cases hloc
    split at h
    · cases h
      exact ⟨rfl, .inr ⟨rfl, hno⟩⟩
    · split at h
      · split at h
        · cases h
          exact ⟨rfl, .inr ⟨rfl, hno⟩⟩
        · cases h
      · cases h
        exact ⟨rfl, .inr ⟨rfl, hno⟩⟩
  · rename_i f hpc
    have hno : ∀ loc, s.slot.pc ≠ .txBeforeTx loc := fun loc hloc => by rw [hpc] at hloc; cases hloc
    cases h
    cases openRead (eventsOf n log) <;> exact ⟨rfl, .inr ⟨rfl, hno⟩⟩

theorem attempt_of_txSlotEnd {cfg : Config} {i : SlotInput} {w : TschState} {st : MacStatus}
    {loc : TxLocals} {f : AirFrame} (hi : PacketsHeld s) (htx : s.slot.pc.inTx = true)
    (hf : airFrame loc s = some f) (he : slotEvent cfg i s = attemptEvent st s) (hw : w.kept = s.kept)
    (hend : txSlotEnd cfg st i w = some s') : attemptEvents cfg i s = [.attempt f.neighbor f.uid st] := by
  obtain ⟨p, rest, hp, hn, -, huid, -⟩ := SenderInv.airFrame_head hi htx hf
  simp only [txSlotEnd] at hend
  split at hend
  · rename_i p' n l hp' hn' hl
    have hl' : s.slot.currentLink = some l := (congrArg Kept.currentLink hw).symm.trans hl
    have hevent : attemptEvent st s = .attempt f.neighbor p l st := by
      simp only [attemptEvent, hp, hn, hl']
    simp only [attemptEvents, he, hevent]
    rw [huid]
    rfl
  · cases hend

theorem slotStep_txBeforeTx {cfg : Config} {i : SlotInput} {loc : TxLocals} {f : AirFrame}
    (hi : PacketsHeld s) (hs : slotStep cfg i s = some s') (hpc : s.slot.pc = .txBeforeTx loc)
    (hf : airFrame loc s = some f) :
    (attemptEvents cfg i s = [] ∧ loc.doWaitForAck = true ∧ waitingUid s' = some f.uid) ∨
      ∃ st, attemptEvents cfg i s = [.attempt f.neighbor f.uid st] ∧
        (st = .ok → loc.doWaitForAck = false) := by
  have htx : s.slot.pc.inTx = true := by rw [hpc]; rfl
  simp only [slotStep, hpc, txSlotTransmit] at hs
  split at hs
  · rename_i hsent
    split at hs
    · rename_i hwait
      obtain ⟨p, rest, hp, -, -, huid, -⟩ := SenderInv.airFrame_head hi htx hf
      cases hs
      refine .inl ⟨?_, hwait, ?_⟩
      · simp only [attemptEvents, slotEvent, hpc, hsent, hwait, if_true]
      · rw [huid]
        show Option.map _ s.slot.currentPacket = _
        rw [hp]
        rfl
    · rename_i hwait
      refine .inr ⟨.ok, ?_, fun _ => Bool.eq_false_iff.mpr hwait⟩
      refine attempt_of_txSlotEnd (w := s.noteTransmitted i.transmitOk) hi htx hf ?_ rfl hs
      simp only [slotEvent, hpc, hsent, if_true, if_neg hwait]
  · rename_i hsent
    refine .inr ⟨.err, ?_, fun h => by cases h⟩
    refine attempt_of_txSlotEnd (w := s.noteTransmitted i.transmitOk) hi htx hf ?_ rfl hs
    simp only [slotEvent, hpc, if_neg hsent]

theorem slotStep_txBeforeAck {cfg : Config} {i : SlotInput} {loc : TxLocals} {f : AirFrame}
    (hi : PacketsHeld s) (hs : slotStep cfg i s = some s') (hpc : s.slot.pc = .txBeforeAck loc)
    (hf : airFrame loc s = some f) :
    attemptEvents cfg i s =
      [.attempt f.neighbor f.uid (if ackAccepted cfg i then .ok else .noack)] := by
  have htx : s.slot.pc.inTx = true := by rw [hpc]; rfl
  have hevent : slotEvent cfg i s = attemptEvent (if ackAccepted cfg i then .ok else .noack) s := by
    simp only [slotEvent, hpc]
  simp only [slotStep, hpc, txSlotAck] at hs
  split at hs
  · cases hs
  · rename_i n _
    split at hs
    · rename_i hack
      rw [if_pos hack] at hevent ⊢
      exact attempt_of_txSlotEnd hi htx hf hevent
        ((acceptAck_kept n loc i (s.noteAcknowledged (ackReceived cfg i))).trans rfl) hs
    · rename_i hack
      rw [if_neg hack] at hevent ⊢
      exact attempt_of_txSlotEnd (w := s.noteAcknowledged (ackReceived cfg i)) hi htx hf hevent rfl hs

theorem sent_balance {h : List (AirEvent ι)} (hi : PacketsHeld s) (hI : SenderInv (cfg n) h s)
    (has : airEvents cfg log n i s = some as) (hs : slotStep (cfg n) i.slot s = some s') (u : Nat) :
    (sentLog as).countP (fun f => f.uid = u) + (if waitingUid s = some u then 1 else 0) ≤
      (attemptsOf u (attemptEvents (cfg n) i.slot s)).length +
        if waitingUid s' = some u then 1 else 0 := by
  obtain ⟨-, ⟨loc, f, hpc, hf, rfl⟩ | ⟨hnone, hno⟩⟩ := airEvents_sent has
  · have hnot : waitingUid s = none := by
      refine waitingUid_eq_none fun loc' h => ?_
      rw [hpc] at h
      cases h
    have hone : sentLog [AirEvent.sent (ι := ι) f] = [f] := rfl
    rw [hone, hnot]
    rcases slotStep_txBeforeTx hi hs hpc hf with ⟨hnil, -, hwaits⟩ | ⟨st, hattempt, -⟩
    · rw [hnil, hwaits]
      simp only [List.countP_singleton, decide_eq_true_eq, Option.some.injEq, reduceCtorEq, if_false]
      omega
    · rw [hattempt, attemptsOf_attempt]
      simp only [List.countP_singleton, decide_eq_true_eq, reduceCtorEq, if_false]
      split <;> simp
  · rw [hnone, List.countP_nil]
    by_cases hwaits : ∃ loc, s.slot.pc = .txBeforeAck loc
    · obtain ⟨loc, hpc⟩ := hwaits
      obtain ⟨-, f, hf, -⟩ := hI.waiting loc hpc
      obtain ⟨p, rest, hp, -, -, huid, -⟩ := SenderInv.airFrame_head hi (by rw [hpc]; rfl) hf
      have hwaiting : waitingUid s = some f.uid := by
        simp only [waitingUid, hpc, hp, Option.map_some, huid]
      rw [slotStep_txBeforeAck hi hs hpc hf, hwaiting, attemptsOf_attempt]
      simp only [Option.some.injEq]
      split <;> simp
    · have hnot : waitingUid s = none := waitingUid_eq_none fun loc hpc => hwaits ⟨loc, hpc⟩
      rw [hnot]
      simp

/-- **A slot.** -/
theorem SenderInv.slot {h : List (AirEvent ι)} (hi : PacketsHeld s) (hi' : PacketsHeld s')
    (hI : SenderInv (cfg n) h s) {es : List (AirEvent ι)}
    (hm : airMove cfg n log i s = some (es, s')) : SenderInv (cfg n) (h ++ es) s' := by
  obtain ⟨hs, as, has, rfl⟩ := airMove_spec hm
  obtain ⟨hqueue, hsent⟩ := airEvents_sent has
  obtain ⟨hflow, haccepted, hattempts⟩ := slot_queues hi hs
  have hlog : queueLog (as ++ deliveries (eventsOf n log ++ as) s s' ++
      (attemptEvents (cfg n) i.slot s ++ queueEvents s s').map .queue) =
      attemptEvents (cfg n) i.slot s ++ queueEvents s s' := by
    rw [queueLog_append, queueLog_append, hqueue, queueLog_deliveries, queueLog_queue,
      List.nil_append, List.nil_append]
  have hframes : sentLog (h ++ (as ++ deliveries (eventsOf n log ++ as) s s' ++
      (attemptEvents (cfg n) i.slot s ++ queueEvents s s').map .queue)) =
      sentLog h ++ sentLog as := by
    rw [sentLog_append, sentLog_append, sentLog_append, sentLog_deliveries, sentLog_queue,
      List.append_nil, List.append_nil]
  have hnew : ∀ f ∈ sentLog as, FrameOf (cfg n) h s f ∧ ∃ p, p ∈ s.ledger.queue f.neighbor ∧
      f.uid = s.ledger.uid p := by
    rcases hsent with ⟨loc, f, hpc, hf, rfl⟩ | ⟨hnone, -⟩
    · intro g hg
      cases List.mem_singleton.mp hg
      obtain ⟨p, rest, -, -, hq, huid, -⟩ := SenderInv.airFrame_head hi (by rw [hpc]; rfl) hf
      exact ⟨hI.frame hi hpc hf, p, by rw [hq]; exact List.mem_cons_self, huid⟩
    · rw [hnone]
      intro g hg
      cases hg
  have hsingle : (sentLog as).Pairwise fun f g => f.neighbor = g.neighbor → f.uid ≤ g.uid := by
    rcases hsent with ⟨loc, f, -, -, rfl⟩ | ⟨hnone, -⟩
    · exact List.pairwise_singleton _ _
    · rw [hnone]
      exact List.Pairwise.nil
  refine ⟨?_, hI.virtual.of_owned (slotStep_owned hs), ?_, hI.sorted_append fun m => .inl ?_,
    fun f hf => ?_, ?_, fun u => ?_, fun loc hpc' => ?_⟩
  · rw [queueLog_append, hlog]
    exact hI.fifo.slot hi hi' hs
  · exact SlotOutline.step hI.locals (fun _ => hI.virtual) (fun _ => trivial) hs
  · rw [hlog]
    exact haccepted m
  · rw [hframes] at hf
    rcases List.mem_append.mp hf with hf | hf
    · exact (hI.frames f hf).step hI.fifo hflow _
    · exact (hnew f hf).1.step hI.fifo hflow _
  · rw [hframes]
    refine List.pairwise_append.mpr ⟨hI.ordered, hsingle, fun f hf g hg hfg => ?_⟩
    obtain ⟨-, p, hp, huid⟩ := hnew g hg
    rw [huid]
    exact (hI.frames f hf).first p (hfg ▸ hp)
  · have hcount := hI.counted u
    have hbalance := sent_balance hi hI has hs u
    rw [hframes, List.countP_append, queueLog_append, hlog, attemptsOf_append, List.length_append,
      hattempts u]
    omega
  · obtain ⟨hpc, hwait, rfl⟩ := slotStep_waits hs hpc'
    rcases hsent with ⟨loc', f, hpc'', hf, rfl⟩ | ⟨-, hno⟩
    · cases hpc.symm.trans hpc''
      refine ⟨hwait, f, hf, ?_⟩
      rw [hframes]
      exact List.getLast?_concat
    · exact absurd hpc (hno loc)

end

end QlTsch
