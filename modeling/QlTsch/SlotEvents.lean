/-
# `QlTsch.SlotEvents` — what one interrupt does

An outline (`QlTsch.SlotOutline`) says what stays true along a slot.  This module
says what happens in it.  One interrupt is three things in a row, the last two not
always there:

* `takeUp` — a slot that starts chooses its link and its packet;
* `slotEvent` — a transmission attempt comes to its end, or a frame is received;
* `endOfSlot` — the next link is chosen.

Everything else an interrupt writes is outside `Kept`: where the protothread
stands, the clock, the channel, the frame-pending bit of the packet, and what has
been noted of the frame (`slotStep_event`).
-/
import QlTsch.SlotFrame

namespace QlTsch

variable {cfg : Config}

/-! ## The parts -/

/-- A slot operation starts at the next interrupt. -/
def slotBegins (s : TschState) : Bool :=
  s.slot.pc = .asleep && s.slot.tschIsAssociated && !s.lock.tschLockRequested

/-- The state in which the interrupt takes up the slot; if the slot starts, its link
and its packet are chosen. -/
def takeUp (cfg : Config) (s : TschState) : TschState :=
  match s.slot.currentLink with
  | some l => if slotBegins s then chooseLink cfg l s.disarm.enterSlot else s
  | none => s

inductive SlotEvent where
  | quiet
  /-- a transmission of packet `p` to `n` through link `l` has come to its end -/
  | attempt (n : LinkAddr) (p l : Nat) (macTxStatus : MacStatus)
  /-- a frame for this node has been received through link `l` -/
  | reception (l : Nat) (f : RxFrame)
deriving DecidableEq, Repr

/-- The attempt of the transmit slot in progress, with the status it has come to. -/
def attemptEvent (macTxStatus : MacStatus) (s : TschState) : SlotEvent :=
  match s.slot.currentPacket, s.slot.currentNeighbor, s.slot.currentLink with
  | some p, some n, some l => .attempt n p l macTxStatus
  | _, _, _ => .quiet

def receptionEvent (f : RxFrame) (s : TschState) : SlotEvent :=
  match s.slot.currentLink with
  | some l => .reception l f
  | none => .quiet

/-- At the start of a slot: a frame that cannot be prepared is an attempt that has
failed already. -/
def startEvent (cfg : Config) (i : SlotInput) (s : TschState) : SlotEvent :=
  match s.slot.currentPacket with
  | some p =>
      if s.slot.dequeuedRingbuf.length < cfg.dequeuedRingbufCapacity then
        if !(s.queue.packets p).hasQueuebuf then attemptEvent .errFatal s
        else if packetReady i s && i.prepareOk then .quiet else attemptEvent .err s
      else .quiet
  | none => .quiet

/-- What the interrupt with input `i` brings to its end. -/
def slotEvent (cfg : Config) (i : SlotInput) (s : TschState) : SlotEvent :=
  match s.slot.pc with
  | .asleep =>
      if slotBegins s && s.slot.currentLink.isSome then startEvent cfg i (takeUp cfg s) else .quiet
  | .txBeforeCca _ => if i.channelClear then .quiet else attemptEvent .collision s
  | .txBeforeTx locals =>
      if i.transmitOk then if locals.doWaitForAck then .quiet else attemptEvent .ok s
      else attemptEvent .err s
  | .txBeforeAck _ => attemptEvent (if ackAccepted cfg i then .ok else .noack) s
  | .rxBeforeListen =>
      match i.received with
      | some f =>
          if frameIsForUs cfg f && !(f.ackRequired && f.eackBuilt) then receptionEvent f s else .quiet
      | none => .quiet
  | .rxBeforeAck f => receptionEvent f s

/-- What the event writes. -/
def SlotEvent.apply (cfg : Config) (i : SlotInput) : SlotEvent → TschState → TschState
  | .quiet, s => s
  | .attempt n p l macTxStatus, s => finishTx cfg n p l macTxStatus i.rand s
  | .reception l f, s => (countReception l s).putInput f

/-! ## What is kept -/

/-- What only the three parts of an interrupt write. -/
@[ext] structure Kept where
  owned : Owned
  neighbors : LinkAddr → TschNeighbor
  packets : Nat → TschPacket
  dequeuedRingbuf : List Nat
  inputRingbuf : List RxFrame
  aptTable : Nat → Nat
  tschCurrentAsn : Nat
  currentLink : Option Nat
  backupLink : Option Nat
  currentPacket : Option Nat
  currentNeighbor : Option LinkAddr

def TschState.kept (s : TschState) : Kept where
  owned := s.owned
  neighbors := s.queue.neighbors
  packets p := { s.queue.packets p with framePending := false }
  dequeuedRingbuf := s.slot.dequeuedRingbuf
  inputRingbuf := s.slot.inputRingbuf
  aptTable := s.slot.aptTable
  tschCurrentAsn := s.slot.tschCurrentAsn
  currentLink := s.slot.currentLink
  backupLink := s.slot.backupLink
  currentPacket := s.slot.currentPacket
  currentNeighbor := s.slot.currentNeighbor

theorem setChannel_kept (l : Nat) (s : TschState) : (setChannel cfg l s).kept = s.kept := by
  obtain ⟨b, o, c, h⟩ := setChannel_spec cfg l s
  rw [h]
  rfl

theorem setFramePending_kept (p : Nat) (s : TschState) : (s.setFramePending p).kept = s.kept := by
  have hpackets : (fun q => { (s.setFramePending p).queue.packets q with framePending := false }) =
      fun q => { s.queue.packets q with framePending := false } := by
    funext q
    by_cases hq : q = p
    · subst hq
      simp only [TschState.setFramePending, TschState.modifyPacket, QueueVars.modifyPacket,
        Function.update_self]
    · simp only [TschState.setFramePending, TschState.modifyPacket, QueueVars.modifyPacket,
        Function.update_of_ne hq]
  ext1
  case packets => exact hpackets
  all_goals rfl

theorem prepareFrame_kept (n : LinkAddr) (p : Nat) (s : TschState) :
    (prepareFrame cfg n p s).kept = s.kept := by
  simp only [prepareFrame]
  split
  · exact setFramePending_kept p _
  · rfl

theorem acceptAck_kept (n : LinkAddr) (loc : TxLocals) (i : SlotInput) (s : TschState) :
    (acceptAck cfg n loc i s).kept = s.kept := by
  simp only [acceptAck]
  split <;> split <;> rfl

theorem syncFromFrame_kept (f : RxFrame) (i : SlotInput) (s : TschState) :
    (syncFromFrame f i s).kept = s.kept := by
  simp only [syncFromFrame]
  split
  · rfl
  · split <;> rfl

theorem attemptEvent_congr {s w : TschState} (st : MacStatus) (h : w.kept = s.kept) :
    attemptEvent st w = attemptEvent st s := by
  have hp : w.slot.currentPacket = s.slot.currentPacket := congrArg Kept.currentPacket h
  have hn : w.slot.currentNeighbor = s.slot.currentNeighbor := congrArg Kept.currentNeighbor h
  have hl : w.slot.currentLink = s.slot.currentLink := congrArg Kept.currentLink h
  simp only [attemptEvent, hp, hn, hl]

theorem receptionEvent_congr {s w : TschState} (f : RxFrame) (h : w.kept = s.kept) :
    receptionEvent f w = receptionEvent f s := by
  have hl : w.slot.currentLink = s.slot.currentLink := congrArg Kept.currentLink h
  simp only [receptionEvent, hl]

/-! ## One interrupt -/

/-- The interrupt ends with event `e` in `s'`, its slot taken up in `u`: it stops at a
yield, or the slot ends. -/
def EndsWith (cfg : Config) (i : SlotInput) (e : SlotEvent) (u s' : TschState) : Prop :=
  (e = .quiet ∧ s'.kept = u.kept) ∨
    ∃ w, w.kept = u.kept ∧ endOfSlot cfg i (e.apply cfg i w) = some s'

/-- The same of an interrupt that has work to do: the yield it stops at is inside the
slot. -/
def StopsWith (cfg : Config) (i : SlotInput) (e : SlotEvent) (u s' : TschState) : Prop :=
  (e = .quiet ∧ s'.kept = u.kept ∧ s'.slot.pc ≠ .asleep) ∨
    ∃ w, w.kept = u.kept ∧ endOfSlot cfg i (e.apply cfg i w) = some s'

namespace StopsWith

theorem endsWith {i : SlotInput} {e : SlotEvent} {u s' : TschState} (h : StopsWith cfg i e u s') :
    EndsWith cfg i e u s' := by
  rcases h with ⟨he, hk, -⟩ | hend
  · exact .inl ⟨he, hk⟩
  · exact .inr hend

theorem txSlotEnd {i : SlotInput} {st : MacStatus} {u w s' : TschState}
    (hk : w.kept = u.kept) (h : txSlotEnd cfg st i w = some s') :
    StopsWith cfg i (attemptEvent st u) u s' := by
  rw [← attemptEvent_congr st hk]
  simp only [QlTsch.txSlotEnd] at h
  split at h
  · rename_i p n l hp hn hl
    have he : attemptEvent st w = .attempt n p l st := by simp only [attemptEvent, hp, hn, hl]
    rw [he]
    exact .inr ⟨w, hk, h⟩
  · cases h

theorem endOfSlot {i : SlotInput} {u w s' : TschState} (hk : w.kept = u.kept)
    (h : endOfSlot cfg i w = some s') : StopsWith cfg i .quiet u s' :=
  .inr ⟨w, hk, h⟩

theorem rxSlotDeliver {i : SlotInput} {f : RxFrame} {u w s' : TschState}
    (hk : w.kept = u.kept) (h : rxSlotDeliver cfg f i w = some s') :
    StopsWith cfg i (receptionEvent f u) u s' := by
  rw [← receptionEvent_congr f hk]
  simp only [QlTsch.rxSlotDeliver] at h
  split at h
  · cases h
  · rename_i l hl
    have he : receptionEvent f w = .reception l f := by simp only [receptionEvent, hl]
    rw [he]
    exact .inr ⟨_, (syncFromFrame_kept f i w).trans hk, h⟩

theorem txSlotBegin {i : SlotInput} {l : Nat} {u s' : TschState}
    (hp : u.slot.currentPacket.isSome = true)
    (h : txSlotBegin cfg i (setChannel cfg l u) = some s') :
    StopsWith cfg i (startEvent cfg i u) u s' := by
  obtain ⟨p, hp⟩ := Option.isSome_iff_exists.mp hp
  obtain ⟨b, o, c, hch⟩ := setChannel_spec cfg l u
  have hk : (setChannel cfg l u).kept = u.kept := setChannel_kept l u
  have hready : packetReady i (setChannel cfg l u) = packetReady i u := by rw [hch]; rfl
  simp only [QlTsch.txSlotBegin, hready] at h
  rw [show (setChannel cfg l u).slot.dequeuedRingbuf = u.slot.dequeuedRingbuf by rw [hch],
    show (setChannel cfg l u).slot.currentPacket = some p by rw [hch]; exact hp,
    show (setChannel cfg l u).queue = u.queue by rw [hch]] at h
  simp only [startEvent, hp]
  split at h
  · rename_i hroom
    rw [if_pos hroom]
    split at h
    · rename_i p' n hp' hn
      cases hp'
      split at h
      · rename_i hqb
        rw [if_pos hqb]
        exact StopsWith.txSlotEnd (w := (setChannel cfg l u).noteFrame _) hk h
      · rename_i hqb
        rw [if_neg hqb]
        have hframe : (prepareFrame cfg n p (setChannel cfg l u)).kept = u.kept :=
          (prepareFrame_kept n p _).trans hk
        split at h
        · rename_i hok
          rw [if_pos hok]
          split at h <;> cases h <;> exact .inl ⟨rfl, hframe, fun hpc => (by cases hpc)⟩
        · rename_i hok
          rw [if_neg hok]
          exact StopsWith.txSlotEnd hframe h
    · cases h
  · rename_i hroom
    rw [if_neg hroom]
    exact StopsWith.endOfSlot hk h

theorem beginSlot {i : SlotInput} {l : Nat} {s s' : TschState}
    (h : beginSlot cfg l i s.disarm = some s') :
    StopsWith cfg i (startEvent cfg i (chooseLink cfg l s.disarm.enterSlot))
      (chooseLink cfg l s.disarm.enterSlot) s' := by
  simp only [QlTsch.beginSlot, runSlot] at h
  split at h
  · cases h
  · rename_i l' _
    split at h
    · rename_i hp
      exact StopsWith.txSlotBegin hp h
    · rename_i hp
      have hquiet : startEvent cfg i (chooseLink cfg l s.disarm.enterSlot) = .quiet := by
        simp only [startEvent, Option.not_isSome_iff_eq_none.mp hp]
      rw [hquiet]
      split at h
      · simp only [rxSlotBegin] at h
        split at h
        · cases h
          exact .inl ⟨rfl, setChannel_kept l' _, fun hpc => (by cases hpc)⟩
        · exact StopsWith.endOfSlot (setChannel_kept l' _) h
      · exact StopsWith.endOfSlot
          (w := (chooseLink cfg l s.disarm.enterSlot).setBurstLinkScheduled false) rfl h

end StopsWith

theorem takeUp_awake {s : TschState} (hpc : s.slot.pc ≠ .asleep) : takeUp cfg s = s := by
  simp only [takeUp, slotBegins, decide_eq_false hpc, Bool.false_and, Bool.false_eq_true, if_false]
  split <;> rfl

/-- **One interrupt** takes up its slot, brings an event to its end and stops at a
yield inside the slot or at its end.  Between slots, outside a network, it does
nothing. -/
theorem slotStep_stops {i : SlotInput} {s s' : TschState} (h : slotStep cfg i s = some s') :
    (s.slot.pc = .asleep ∧ s.slot.tschIsAssociated = false ∧ s' = s.disarm) ∨
      (s.slot.pc = .asleep → s.slot.tschIsAssociated = true) ∧
        StopsWith cfg i (slotEvent cfg i s) (takeUp cfg s) s' := by
  simp only [slotStep] at h
  cases hpc : s.slot.pc with
  | asleep =>
      simp only [slotEvent, hpc] at h ⊢
      split at h
      · simp only [wakeUp] at h
        split at h
        · rename_i hassoc
          refine .inr ⟨fun _ => hassoc, ?_⟩
          cases hl : s.slot.currentLink with
          | none =>
              simp only [takeUp, hl, Option.isSome_none, Bool.and_false, Bool.false_eq_true,
                if_false] at h ⊢
              exact StopsWith.endOfSlot (w := s.disarm) rfl h
          | some l =>
              simp only [hl] at h
              split at h
              · rename_i hreq
                have hno : slotBegins s = false := by
                  simp only [slotBegins, hreq, Bool.not_true, Bool.and_false]
                simp only [takeUp, hl, hno, Bool.false_and, Bool.false_eq_true, if_false]
                exact StopsWith.endOfSlot (w := s.disarm) rfl h
              · rename_i hreq
                have hyes : slotBegins s = true := by
                  simp only [slotBegins, hpc, hassoc, Bool.eq_false_iff.mpr hreq, decide_true,
                    Bool.not_false, Bool.and_self]
                simp only [takeUp, hl, hyes, Option.isSome_some, Bool.and_self, if_true]
                exact StopsWith.beginSlot h
        · rename_i hassoc
          cases h
          exact .inl ⟨trivial, Bool.eq_false_iff.mpr hassoc, rfl⟩
      · cases h
  | txBeforeCca loc =>
      refine .inr ⟨fun hc => (by cases hc), ?_⟩
      rw [takeUp_awake (by rw [hpc]; intro hc; cases hc)]
      simp only [slotEvent, hpc, txSlotCca] at h ⊢
      split at h
      · rename_i hclear
        rw [if_pos hclear]
        cases h
        exact .inl ⟨rfl, rfl, fun hc => (by cases hc)⟩
      · rename_i hclear
        rw [if_neg hclear]
        exact StopsWith.txSlotEnd rfl h
  | txBeforeTx loc =>
      refine .inr ⟨fun hc => (by cases hc), ?_⟩
      rw [takeUp_awake (by rw [hpc]; intro hc; cases hc)]
      simp only [slotEvent, hpc, txSlotTransmit] at h ⊢
      split at h
      · rename_i hsent
        rw [if_pos hsent]
        split at h
        · rename_i hwait
          rw [if_pos hwait]
          cases h
          exact .inl ⟨rfl, rfl, fun hc => (by cases hc)⟩
        · rename_i hwait
          rw [if_neg hwait]
          exact StopsWith.txSlotEnd (w := s.noteTransmitted i.transmitOk) rfl h
      · rename_i hsent
        rw [if_neg hsent]
        exact StopsWith.txSlotEnd (w := s.noteTransmitted i.transmitOk) rfl h
  | txBeforeAck loc =>
      refine .inr ⟨fun hc => (by cases hc), ?_⟩
      rw [takeUp_awake (by rw [hpc]; intro hc; cases hc)]
      simp only [slotEvent, hpc, txSlotAck] at h ⊢
      split at h
      · cases h
      · rename_i n _
        split at h
        · rename_i hack
          rw [if_pos hack]
          exact StopsWith.txSlotEnd
            ((acceptAck_kept n loc i (s.noteAcknowledged (ackReceived cfg i))).trans rfl) h
        · rename_i hack
          rw [if_neg hack]
          exact StopsWith.txSlotEnd (w := s.noteAcknowledged (ackReceived cfg i)) rfl h
  | rxBeforeListen =>
      refine .inr ⟨fun hc => (by cases hc), ?_⟩
      rw [takeUp_awake (by rw [hpc]; intro hc; cases hc)]
      simp only [slotEvent, hpc, rxSlotListen] at h ⊢
      split at h
      · rename_i hf
        simp only [hf]
        exact StopsWith.endOfSlot rfl h
      · rename_i f hf
        simp only [hf]
        split at h
        · rename_i hus
          split at h
          · rename_i hack
            rw [hus, hack, Bool.not_true, Bool.and_false, if_neg Bool.false_ne_true]
            cases h
            exact .inl ⟨rfl, rfl, fun hc => (by cases hc)⟩
          · rename_i hack
            rw [hus, Bool.eq_false_iff.mpr hack, Bool.not_false, Bool.and_self, if_pos rfl]
            exact StopsWith.rxSlotDeliver rfl h
        · rename_i hus
          rw [Bool.eq_false_iff.mpr hus, Bool.false_and, if_neg Bool.false_ne_true]
          exact StopsWith.endOfSlot rfl h
  | rxBeforeAck f =>
      refine .inr ⟨fun hc => (by cases hc), ?_⟩
      rw [takeUp_awake (by rw [hpc]; intro hc; cases hc)]
      simp only [slotEvent, hpc, rxSlotAck] at h ⊢
      exact StopsWith.rxSlotDeliver (w := s.setBurstLinkScheduled f.framePending) rfl h

theorem slotStep_event {i : SlotInput} {s s' : TschState} (h : slotStep cfg i s = some s') :
    EndsWith cfg i (slotEvent cfg i s) (takeUp cfg s) s' := by
  rcases slotStep_stops h with ⟨hpc, hassoc, rfl⟩ | ⟨-, hstop⟩
  · have hno : slotBegins s = false := by
      simp only [slotBegins, hassoc, Bool.and_false, Bool.false_and]
    refine .inl ⟨?_, ?_⟩
    · simp only [slotEvent, hpc, hno, Bool.false_and, Bool.false_eq_true, if_false]
    · simp only [takeUp, hno, Bool.false_eq_true, if_false]
      split <;> rfl
  · exact hstop.endsWith

/-! ## What the choice of a link leaves alone -/

/-- Neither the choice of a link nor that of a packet writes these. -/
@[ext] structure Rest where
  owned : Owned
  packets : Nat → TschPacket
  txRingbuf : LinkAddr → List Nat
  backoffExponent : LinkAddr → Nat
  dequeuedRingbuf : List Nat
  inputRingbuf : List RxFrame
  aptTable : Nat → Nat

def TschState.rest (s : TschState) : Rest where
  owned := s.owned
  packets := s.queue.packets
  txRingbuf n := (s.queue.neighbors n).txRingbuf
  backoffExponent n := (s.queue.neighbors n).backoffExponent
  dequeuedRingbuf := s.slot.dequeuedRingbuf
  inputRingbuf := s.slot.inputRingbuf
  aptTable := s.slot.aptTable

variable (cfg) in
theorem updateLinkBackoff_rest (l : Option Nat) (s : TschState) :
    (updateLinkBackoff cfg l s).rest = s.rest := by
  obtain ⟨w, hw⟩ := updateLinkBackoff_spec cfg l s
  rw [hw]
  rfl

theorem chooseLink_rest (l : Nat) (s : TschState) : (chooseLink cfg l s).rest = s.rest := by
  simp only [chooseLink]
  split
  · rfl
  · exact updateLinkBackoff_rest cfg (some l) (getCurrentPacket l s)

variable (cfg) in
theorem takeUp_rest (s : TschState) : (takeUp cfg s).rest = s.rest := by
  simp only [takeUp]
  split
  · split
    · exact chooseLink_rest _ _
    · rfl
  · rfl

def restOutline (cfg : Config) (r : Rest) : EndOutline cfg where
  asleep s := s.rest = r
  ending s := s.rest = r
  chosen s := s.rest = r
  keepTime _ h := h
  backoff _ h := (updateLinkBackoff_rest _ _ _).trans h
  replay h _ _ := h
  select h _ := h
  advance _ _ h := h
  again h := h
  armTimer _ h := h
  sleep h := h
  disassociate h := h

theorem endOfSlot_rest {i : SlotInput} {s s' : TschState} (h : endOfSlot cfg i s = some s') :
    s'.rest = s.rest :=
  (EndOutline.endOfSlot (O := restOutline cfg s.rest) rfl h).1

/-! ## The input ring -/

/-- The frames that an event puts into the input ring. -/
def SlotEvent.frames : SlotEvent → List RxFrame
  | .reception _ f => [f]
  | .quiet | .attempt _ _ _ _ => []

theorem SlotEvent.apply_ring (e : SlotEvent) (i : SlotInput) (w : TschState) :
    (e.apply cfg i w).slot.inputRingbuf = w.slot.inputRingbuf ++ e.frames := by
  cases e with
  | quiet => exact (List.append_nil _).symm
  | attempt n p l st =>
      obtain ⟨q, d, hq⟩ := finishTx_spec cfg n p l st i.rand w
      simp only [SlotEvent.apply, SlotEvent.frames, hq, List.append_nil, recordOutcome]
      split <;> rfl
  | reception l f =>
      obtain ⟨t, ht⟩ := countReception_spec l w
      simp only [SlotEvent.apply, SlotEvent.frames, ht]
      rfl

/-- **What an interrupt puts into the input ring.** -/
theorem slotStep_ring {i : SlotInput} {s s' : TschState} (h : slotStep cfg i s = some s') :
    s'.slot.inputRingbuf = s.slot.inputRingbuf ++ (slotEvent cfg i s).frames := by
  have htake : (takeUp cfg s).slot.inputRingbuf = s.slot.inputRingbuf :=
    congrArg Rest.inputRingbuf (takeUp_rest cfg s)
  rcases slotStep_event h with ⟨he, hk⟩ | ⟨w, hw, hend⟩
  · have hkept : s'.slot.inputRingbuf = (takeUp cfg s).slot.inputRingbuf :=
      congrArg Kept.inputRingbuf hk
    rw [he, hkept, htake]
    exact (List.append_nil _).symm
  · have hring : s'.slot.inputRingbuf = ((slotEvent cfg i s).apply cfg i w).slot.inputRingbuf :=
      congrArg Rest.inputRingbuf (endOfSlot_rest hend)
    have hkept : w.slot.inputRingbuf = (takeUp cfg s).slot.inputRingbuf :=
      congrArg Kept.inputRingbuf hw
    rw [hring, SlotEvent.apply_ring, hkept, htake]

end QlTsch
