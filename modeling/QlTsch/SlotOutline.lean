/-
# `QlTsch.SlotOutline` — the control flow of the slot operation, once

A slot operation is a chain of small writes; which ones, and in which order,
depends on the schedule, the queues, the radio and the clock.  A `SlotOutline`
is a proof outline for it: an assertion for each stage of a slot, and for each
write that it leads from an assertion to the next.  `SlotOutline.step` puts the
pieces together along every path of `slotStep`: what holds at one yield holds at
the next.

| assertion | where |
| :-- | :-- |
| `asleep` | between two slots |
| `starting` | a packet is chosen, the frame is not prepared |
| `sending b` | in a transmit slot; `b`: the radio has sent the frame |
| `listening` | in a receive slot |
| `receiving` | a frame for this node has been read |
| `ending` | the slot is over, the next link not yet chosen |
| `chosen` | the next link is chosen, the timer not yet armed |

An outline may ask something of the states a slot starts in (`guard`): a proof
about the runs that meet a condition there brings it along.

Every invariant of the interrupt side in this development is an outline; none
of them goes through the branches of `slotStep` again.
-/
import QlTsch.SlotOperation

namespace QlTsch

/-- A slot operation starts at the next interrupt. -/
structure SlotStarts (s : TschState) : Prop where
  asleep : s.slot.pc = .asleep
  associated : s.slot.tschIsAssociated = true
  link : s.slot.currentLink.isSome = true
  notRequested : s.lock.tschLockRequested = false

/-- A proof outline of a slot up to its end: what holds when the node is `asleep` holds, in
one form or another, wherever an interrupt comes to. -/
structure SlotBody (cfg : Config) where
  asleep : TschState → Prop
  starting : TschState → Prop
  sending : Bool → TxLocals → TschState → Prop
  listening : TschState → Prop
  receiving : TschState → Prop
  ending : TschState → Prop
  guard : TschState → Prop := fun _ => True
  /-- whether the radio driver may report an acknowledgement that it did not read -/
  misread : Prop := True
  skip : ∀ {s}, asleep s → s.slot.pc = .asleep → s.slot.tschIsAssociated = true →
    s.slot.currentLink = none ∨ s.lock.tschLockRequested = true → ending s.disarm
  startTx : ∀ {s l l'}, asleep s → SlotStarts s → guard s → s.slot.currentLink = some l →
    (chooseLink cfg l s.disarm.enterSlot).slot.currentLink = some l' →
    (chooseLink cfg l s.disarm.enterSlot).slot.currentPacket.isSome = true →
    starting (setChannel cfg l' (chooseLink cfg l s.disarm.enterSlot))
  startRx : ∀ {s l l'}, asleep s → SlotStarts s → guard s → s.slot.currentLink = some l →
    (chooseLink cfg l s.disarm.enterSlot).slot.currentLink = some l' →
    listening (setChannel cfg l' (chooseLink cfg l s.disarm.enterSlot))
  startIdle : ∀ {s l}, asleep s → SlotStarts s → guard s → s.slot.currentLink = some l →
    ending ((chooseLink cfg l s.disarm.enterSlot).setBurstLinkScheduled false)
  /-- no room in the dequeued ring -/
  full : ∀ {s}, starting s → ending s
  frame : ∀ {s p n}, starting s → s.slot.currentPacket = some p → s.slot.currentNeighbor = some n →
    sending false (txLocals cfg n s) (s.noteFrame !(s.queue.neighbors n).isBroadcast)
  framePending : ∀ {b loc s} p, sending b loc s → sending b loc (s.setFramePending p)
  sendingPc : ∀ {b loc s} pc, sending b loc s → sending b loc (s.setPc pc)
  transmit : ∀ {loc s} b, sending false loc s → sending b loc (s.noteTransmitted b)
  acknowledge : ∀ {loc s} b, sending true loc s → sending true loc (s.noteAcknowledged b)
  syncFromAck : ∀ {loc s} d t, sending true loc s → sending true loc (s.synchronize d t)
  requestBurst : ∀ {loc s}, sending true loc s → sending true loc (s.setBurstLinkScheduled true)
  finish : ∀ {b loc s p n l} st rand, sending b loc s → s.slot.currentPacket = some p →
    s.slot.currentNeighbor = some n → s.slot.currentLink = some l →
    (st = .ok → b = true ∧ (loc.doWaitForAck = true → s.ghost.frameAcknowledged = true ∨ misread)) →
    ending (finishTx cfg n p l st rand s)
  listeningPc : ∀ {s} pc, listening s → listening (s.setPc pc)
  deaf : ∀ {s}, listening s → ending s
  receive : ∀ {s}, listening s → receiving s
  receiveBurst : ∀ {s} b, receiving s → receiving (s.setBurstLinkScheduled b)
  syncFromFrame : ∀ {s} d t, receiving s → receiving (s.synchronize d t)
  deliver : ∀ {s l} f, receiving s → s.slot.currentLink = some l →
    ending ((countReception l s).putInput f)

/-- A proof outline of the end of a slot. -/
structure EndOutline (cfg : Config) where
  asleep : TschState → Prop
  ending : TschState → Prop
  chosen : TschState → Prop
  keepTime : ∀ {s} t, ending s → ending (s.keepTime t)
  backoff : ∀ {s} l, ending s → ending (updateLinkBackoff cfg l s)
  replay : ∀ {s}, ending s → s.slot.burstLinkScheduled = true → s.slot.currentLink.isSome = true →
    chosen (replayBurst s)
  select : ∀ {s}, ending s → s.slot.burstLinkScheduled = false ∨ s.slot.currentLink = none →
    chosen (selectLink s)
  advance : ∀ {s} d i, chosen s → chosen (advanceClock cfg d i s)
  /-- the deadline was missed -/
  again : ∀ {s}, chosen s → ending s
  armTimer : ∀ {s} t, chosen s → chosen (s.armTimer t)
  sleep : ∀ {s}, chosen s → asleep s.sleep
  disassociate : ∀ {s}, ending s → asleep s.disassociate.sleep

/-- A proof outline of the slot operation. -/
structure SlotOutline (cfg : Config) extends EndOutline cfg, SlotBody cfg where
  /-- not associated any more -/
  leave : ∀ {s}, asleep s → s.slot.pc = .asleep → asleep s.disarm

/-! ## The end of a slot -/

/-- The catch-up loop, by its rounds: one that arms the timer, or one that comes too late
and those after it. -/
theorem scheduleNextSlot_induction {cfg : Config}
    {motive : ∀ (is : List LoopInput) (s t : TschState), scheduleNextSlot cfg is s = some t → Prop}
    (armed : ∀ i is s
      (harmed : tschScheduleSlotOperation cfg s.slot.currentSlotStart (slotEndRound cfg i s).2 i.now
        i.rtimerOk = true),
      motive (i :: is) s ((slotEndRound cfg i s).1.armTimer
        (cfg.rtimer (s.slot.currentSlotStart + (slotEndRound cfg i s).2)))
        (by rw [scheduleNextSlot, harmed]; rfl))
    (missed : ∀ i is s t
      (hmissed : tschScheduleSlotOperation cfg s.slot.currentSlotStart (slotEndRound cfg i s).2 i.now
        i.rtimerOk = false)
      (h : scheduleNextSlot cfg is (slotEndRound cfg i s).1 = some t),
      motive is (slotEndRound cfg i s).1 t h → motive (i :: is) s t
        (by rw [scheduleNextSlot, hmissed]; exact h))
    {is : List LoopInput} {s t : TschState} (h : scheduleNextSlot cfg is s = some t) :
    motive is s t h := by
  induction is generalizing s with
  | nil => cases h
  | cons i is ih =>
      cases hok : tschScheduleSlotOperation cfg s.slot.currentSlotStart (slotEndRound cfg i s).2
          i.now i.rtimerOk with
      | true =>
          have ht := h
          simp only [scheduleNextSlot, hok, if_true, Option.some.injEq] at ht
          subst ht
          exact armed i is s hok
      | false =>
          have ht := h
          simp only [scheduleNextSlot, hok, Bool.false_eq_true, if_false] at ht
          exact missed i is s t hok ht (ih ht)

theorem endOfSlot_cases {cfg : Config} {i : SlotInput} {s s' : TschState}
    (h : endOfSlot cfg i s = some s') :
    (∃ w t, (w = s ∨ w = s.keepTime i.clockTime) ∧ scheduleNextSlot cfg i.loop w = some t ∧
      s' = t.sleep) ∨
    (s.slot.tschIsCoordinator = false ∧ desynchronized cfg s = true ∧ s' = s.disassociate.sleep) := by
  simp only [endOfSlot] at h
  split at h
  · obtain ⟨t, ht, rfl⟩ := Option.map_eq_some_iff.mp h
    exact .inl ⟨_, t, .inr rfl, ht, rfl⟩
  · rename_i hcoord
    split at h
    · rename_i hdesync
      exact .inr ⟨Bool.eq_false_iff.mpr hcoord, hdesync, (Option.some.inj h).symm⟩
    · obtain ⟨t, ht, rfl⟩ := Option.map_eq_some_iff.mp h
      exact .inl ⟨s, t, .inl rfl, ht, rfl⟩

namespace EndOutline

variable {cfg : Config} {O : EndOutline cfg}

theorem nextLink {s : TschState} (h : O.ending s) : O.chosen (nextLink s).1 := by
  simp only [QlTsch.nextLink]
  split
  · rename_i hb
    rw [Bool.and_eq_true] at hb
    exact O.replay h hb.1 hb.2
  · rename_i hb
    refine O.select h ?_
    rw [Bool.and_eq_true, not_and_or] at hb
    exact hb.imp Bool.eq_false_iff.mpr (by simp)

theorem scheduleNextSlot {is : List LoopInput} {s s' : TschState} (h : O.ending s)
    (hs : scheduleNextSlot cfg is s = some s') : O.chosen s' := by
  have hround : ∀ i {s}, O.ending s → O.chosen (slotEndRound cfg i s).1 := fun i s h =>
    O.advance _ _ (nextLink (O.backoff _ h))
  induction hs using scheduleNextSlot_induction with
  | armed i is s _ => exact O.armTimer _ (hround i h)
  | missed i is s t _ _ ih => exact ih (O.again (hround i h))

theorem endOfSlot {i : SlotInput} {s s' : TschState} (h : O.ending s)
    (hs : endOfSlot cfg i s = some s') :
    O.asleep s' ∧ s'.slot.pc = .asleep ∧ s'.slot.tschInSlotOperation = false := by
  rcases endOfSlot_cases hs with ⟨w, t, hw, ht, rfl⟩ | ⟨-, -, rfl⟩
  · have hw : O.ending w := by
      rcases hw with rfl | rfl
      · exact h
      · exact O.keepTime _ h
    exact ⟨O.sleep (scheduleNextSlot hw ht), rfl, rfl⟩
  · exact ⟨O.disassociate h, rfl, rfl⟩

end EndOutline

/-! ## A slot up to its end -/

namespace SlotBody

variable {cfg : Config} (B : SlotBody cfg)

/-- At a yield inside the slot. -/
def Inside (s : TschState) : Prop :=
  match s.slot.pc with
  | .asleep => False
  | .txBeforeCca loc | .txBeforeTx loc => B.sending false loc s
  | .txBeforeAck loc => B.sending true loc s
  | .rxBeforeListen | .rxBeforeAck _ => B.listening s

theorem Inside.awake {B : SlotBody cfg} {s : TschState} (h : B.Inside s) : s.slot.pc ≠ .asleep := by
  intro hpc
  simp only [Inside, hpc] at h

/-- What one interrupt comes to: a yield inside the slot, or the end of the slot. -/
inductive Reaches (i : SlotInput) (s' : TschState) : Prop
  | yields : B.Inside s' → Reaches i s'
  | ends {w : TschState} : B.ending w → endOfSlot cfg i w = some s' → Reaches i s'

variable {B}

/-! ### The transmit slot -/

theorem txSlotEnd {b : Bool} {loc : TxLocals} {st : MacStatus} {i : SlotInput} {s s' : TschState}
    (h : B.sending b loc s)
    (hok : st = .ok → b = true ∧
      (loc.doWaitForAck = true → s.ghost.frameAcknowledged = true ∨ B.misread))
    (hs : txSlotEnd cfg st i s = some s') : B.Reaches i s' := by
  simp only [QlTsch.txSlotEnd] at hs
  split at hs
  · rename_i p n l hp hn hl
    exact .ends (B.finish st i.rand h hp hn hl hok) hs
  · cases hs

theorem prepareFrame {s : TschState} {p : Nat} {n : LinkAddr} (h : B.starting s)
    (hp : s.slot.currentPacket = some p) (hn : s.slot.currentNeighbor = some n) :
    B.sending false (txLocals cfg n s) (prepareFrame cfg n p s) := by
  simp only [QlTsch.prepareFrame]
  split
  · exact B.framePending p (B.frame h hp hn)
  · exact B.frame h hp hn

theorem txSlotBegin {i : SlotInput} {s s' : TschState} (h : B.starting s)
    (hs : txSlotBegin cfg i s = some s') : B.Reaches i s' := by
  simp only [QlTsch.txSlotBegin] at hs
  split at hs
  · split at hs
    · rename_i p n hp hn
      split at hs
      · exact txSlotEnd (B.frame h hp hn) (by simp) hs
      · have hready := prepareFrame h hp hn
        split at hs
        · split at hs
          · cases hs
            exact .yields (B.sendingPc _ hready)
          · cases hs
            exact .yields (B.sendingPc _ hready)
        · exact txSlotEnd hready (by simp) hs
    · cases hs
  · exact .ends (B.full h) hs

theorem txSlotCca {loc : TxLocals} {i : SlotInput} {s s' : TschState} (h : B.sending false loc s)
    (hs : txSlotCca cfg loc i s = some s') : B.Reaches i s' := by
  simp only [QlTsch.txSlotCca] at hs
  split at hs
  · cases hs
    exact .yields (B.sendingPc _ h)
  · exact txSlotEnd h (by simp) hs

theorem txSlotTransmit {loc : TxLocals} {i : SlotInput} {s s' : TschState}
    (h : B.sending false loc s) (hs : txSlotTransmit cfg loc i s = some s') : B.Reaches i s' := by
  have h' := B.transmit i.transmitOk h
  simp only [QlTsch.txSlotTransmit] at hs
  split at hs
  · rename_i hok
    rw [hok] at h' hs
    split at hs
    · cases hs
      exact .yields (B.sendingPc _ h')
    · rename_i hwait
      exact txSlotEnd h' (fun _ => ⟨rfl, fun hw => absurd hw hwait⟩) hs
  · exact txSlotEnd h' (by simp) hs

theorem acceptAck {n : LinkAddr} {loc : TxLocals} {i : SlotInput} {s : TschState}
    (h : B.sending true loc s) : B.sending true loc (acceptAck cfg n loc i s) := by
  simp only [QlTsch.acceptAck]
  have hsync : B.sending true loc (if i.ackLen > 0 && (s.queue.neighbors n).isTimeSource then
      s.synchronize (boundCorrection cfg i.eackTimeCorrection) i.clockTime else s) := by
    split
    · exact B.syncFromAck _ _ h
    · exact h
  split
  · exact B.requestBurst hsync
  · exact hsync

theorem txSlotAck {loc : TxLocals} {i : SlotInput} {s s' : TschState} (h : B.sending true loc s)
    (hm : ¬ i.ReadOk → B.misread) (hs : txSlotAck cfg loc i s = some s') : B.Reaches i s' := by
  have h' := B.acknowledge (ackReceived cfg i) h
  simp only [QlTsch.txSlotAck] at hs
  split at hs
  · cases hs
  · rename_i n hn
    split at hs
    · rename_i hack
      refine txSlotEnd (acceptAck h') (fun _ => ⟨rfl, fun _ => ?_⟩) hs
      -- what an acknowledgement changes leaves the evidence alone
      have hghost : (QlTsch.acceptAck cfg n loc i
          (s.noteAcknowledged (ackReceived cfg i))).ghost.frameAcknowledged = ackReceived cfg i := by
        simp only [QlTsch.acceptAck]
        split <;> split <;> rfl
      rw [hghost]
      exact ((ackAccepted_iff cfg i).mp hack).imp_right hm
    · exact txSlotEnd h' (by simp) hs

/-! ### The receive slot -/

theorem rxSlotDeliver {f : RxFrame} {i : SlotInput} {s s' : TschState} (h : B.receiving s)
    (hs : rxSlotDeliver cfg f i s = some s') : B.Reaches i s' := by
  have hsync : B.receiving (QlTsch.syncFromFrame f i s) ∧
      (QlTsch.syncFromFrame f i s).slot.currentLink = s.slot.currentLink := by
    simp only [QlTsch.syncFromFrame]
    split
    · exact ⟨h, rfl⟩
    · split
      · exact ⟨B.syncFromFrame _ _ h, rfl⟩
      · exact ⟨h, rfl⟩
  simp only [QlTsch.rxSlotDeliver] at hs
  split at hs
  · cases hs
  · rename_i l hl
    exact .ends (B.deliver f hsync.1 (hsync.2.trans hl)) hs

theorem rxSlotBegin {i : SlotInput} {s s' : TschState} (h : B.listening s)
    (hs : rxSlotBegin cfg i s = some s') : B.Reaches i s' := by
  simp only [QlTsch.rxSlotBegin] at hs
  split at hs
  · cases hs
    exact .yields (B.listeningPc _ h)
  · exact .ends (B.deaf h) hs

theorem rxSlotListen {i : SlotInput} {s s' : TschState} (h : B.listening s)
    (hs : rxSlotListen cfg i s = some s') : B.Reaches i s' := by
  simp only [QlTsch.rxSlotListen] at hs
  split at hs
  · exact .ends (B.deaf h) hs
  · split at hs
    · split at hs
      · cases hs
        exact .yields (B.listeningPc _ h)
      · exact rxSlotDeliver (B.receive h) hs
    · exact .ends (B.deaf h) hs

/-! ### The start of a slot -/

theorem beginSlot {l : Nat} {i : SlotInput} {s s' : TschState} (h : B.asleep s)
    (hstart : SlotStarts s) (hg : B.guard s) (hl : s.slot.currentLink = some l)
    (hs : beginSlot cfg l i s.disarm = some s') : B.Reaches i s' := by
  simp only [QlTsch.beginSlot, runSlot] at hs
  split at hs
  · cases hs
  · rename_i l' hl'
    split at hs
    · rename_i hp
      exact txSlotBegin (B.startTx h hstart hg hl hl' hp) hs
    · split at hs
      · exact rxSlotBegin (B.startRx h hstart hg hl hl') hs
      · exact .ends (B.startIdle h hstart hg hl) hs

theorem wakeUp {i : SlotInput} {s s' : TschState} (h : B.asleep s) (hpc : s.slot.pc = .asleep)
    (hg : SlotStarts s → B.guard s) (ha : s.slot.tschIsAssociated = true)
    (hs : wakeUp cfg i s = some s') : B.Reaches i s' := by
  simp only [QlTsch.wakeUp, if_pos ha] at hs
  split at hs
  · rename_i hl
    exact .ends (B.skip h hpc ha (.inl hl)) hs
  · rename_i l hl
    split at hs
    · rename_i hr
      exact .ends (B.skip h hpc ha (.inr hr)) hs
    · rename_i hr
      have hstart : SlotStarts s := ⟨hpc, ha, by rw [hl]; rfl, Bool.eq_false_iff.mpr hr⟩
      exact beginSlot h hstart (hg hstart) hl hs

/-- **One interrupt**, up to the end of its slot.  Between two slots, outside a network,
it does nothing. -/
theorem step {i : SlotInput} {s s' : TschState} (hasleep : s.slot.pc = .asleep → B.asleep s)
    (hinside : s.slot.pc ≠ .asleep → B.Inside s) (hg : SlotStarts s → B.guard s)
    (hm : ¬ i.ReadOk → B.misread) (hs : slotStep cfg i s = some s') :
    (s.slot.pc = .asleep ∧ s.slot.tschIsAssociated = false ∧ s' = s.disarm) ∨ B.Reaches i s' := by
  simp only [slotStep] at hs
  cases hpc : s.slot.pc with
  | asleep =>
      simp only [hpc] at hs
      split at hs
      · by_cases ha : s.slot.tschIsAssociated = true
        · exact .inr (wakeUp (hasleep hpc) hpc hg ha hs)
        · simp only [QlTsch.wakeUp, if_neg ha] at hs
          cases hs
          exact .inl ⟨rfl, Bool.eq_false_iff.mpr ha, rfl⟩
      · cases hs
  | txBeforeCca loc =>
      simp only [Inside, hpc] at hinside hs
      exact .inr (txSlotCca (hinside SlotPc.noConfusion) hs)
  | txBeforeTx loc =>
      simp only [Inside, hpc] at hinside hs
      exact .inr (txSlotTransmit (hinside SlotPc.noConfusion) hs)
  | txBeforeAck loc =>
      simp only [Inside, hpc] at hinside hs
      exact .inr (txSlotAck (hinside SlotPc.noConfusion) hm hs)
  | rxBeforeListen =>
      simp only [Inside, hpc] at hinside hs
      exact .inr (rxSlotListen (hinside SlotPc.noConfusion) hs)
  | rxBeforeAck f =>
      simp only [Inside, hpc] at hinside hs
      exact .inr (rxSlotDeliver
        (B.receiveBurst f.framePending (B.receive (hinside SlotPc.noConfusion))) hs)

end SlotBody

/-! ## Slot after slot -/

namespace SlotOutline

variable {cfg : Config} (O : SlotOutline cfg)

/-- What the outline asserts of a state at a yield. -/
def Holds (s : TschState) : Prop :=
  match s.slot.pc with
  | .asleep => O.asleep s
  | .txBeforeCca loc | .txBeforeTx loc => O.sending false loc s
  | .txBeforeAck loc => O.sending true loc s
  | .rxBeforeListen | .rxBeforeAck _ => O.listening s

variable {O}

theorem Holds.asleep {s : TschState} (h : O.Holds s) (hpc : s.slot.pc = .asleep) : O.asleep s := by
  simp only [Holds, hpc] at h
  exact h

theorem holds_iff_inside {s : TschState} (hpc : s.slot.pc ≠ .asleep) :
    O.Holds s ↔ O.toSlotBody.Inside s := by
  simp only [Holds, SlotBody.Inside]
  cases hs : s.slot.pc with
  | asleep => exact absurd hs hpc
  | txBeforeCca loc => exact Iff.rfl
  | txBeforeTx loc => exact Iff.rfl
  | txBeforeAck loc => exact Iff.rfl
  | rxBeforeListen => exact Iff.rfl
  | rxBeforeAck f => exact Iff.rfl

/-- **One interrupt.**  What the outline asserts at a yield it asserts at the
next. -/
theorem step {i : SlotInput} {s s' : TschState} (h : O.Holds s) (hg : SlotStarts s → O.guard s)
    (hm : ¬ i.ReadOk → O.misread) (hs : slotStep cfg i s = some s') : O.Holds s' := by
  have hstep : _ ∨ O.toSlotBody.Reaches i s' :=
    SlotBody.step h.asleep (fun hpc => (holds_iff_inside hpc).mp h) hg hm hs
  have hasleep : ∀ {t : TschState}, t.slot.pc = .asleep → O.asleep t → O.Holds t := by
    intro t hpc ht
    simp only [Holds, hpc]
    exact ht
  rcases hstep with ⟨hpc, -, rfl⟩ | hstep
  · exact hasleep hpc (O.leave (h.asleep hpc) hpc)
  · cases hstep with
    | yields hin => exact (holds_iff_inside hin.awake).mpr hin
    | ends hend hw =>
        obtain ⟨ht, hpc, -⟩ := EndOutline.endOfSlot hend hw
        exact hasleep hpc ht

end SlotOutline

/-! ## From yield to yield -/

section
variable {cfg : Config}

/-- The end of a slot keeps nothing in particular. -/
def anyEnd (cfg : Config) : EndOutline cfg where
  asleep _ := True
  ending _ := True
  chosen _ := True
  keepTime _ h := h
  again h := h
  disassociate h := h
  backoff _ h := h
  replay h _ _ := h
  select h _ := h
  advance _ _ h := h
  armTimer _ h := h
  sleep h := h

theorem endOfSlot_asleep {i : SlotInput} {s s' : TschState} (h : endOfSlot cfg i s = some s') :
    s'.slot.pc = .asleep :=
  (EndOutline.endOfSlot (O := anyEnd cfg) trivial h).2.1

theorem txSlotEnd_asleep {st : MacStatus} {i : SlotInput} {s s' : TschState}
    (h : txSlotEnd cfg st i s = some s') : s'.slot.pc = .asleep := by
  simp only [txSlotEnd] at h
  split at h
  · exact endOfSlot_asleep h
  · cases h

theorem slotStep_starts {s : TschState} (hstart : SlotStarts s) (htimer : s.slot.timer.isSome = true)
    {l : Nat} (hl : s.slot.currentLink = some l) (i : SlotInput) :
    slotStep cfg i s = beginSlot cfg l i s.disarm := by
  simp only [slotStep, hstart.asleep, htimer, if_true, wakeUp, hstart.associated, hl,
    hstart.notRequested, Bool.false_eq_true, if_false]

theorem timer_of_slotStep {i : SlotInput} {s s' : TschState} (hpc : s.slot.pc = .asleep)
    (hs : slotStep cfg i s = some s') : s.slot.timer.isSome = true := by
  simp only [slotStep, hpc] at hs
  split at hs
  · assumption
  · cases hs

/-- From one yield to the next one in the same slot. -/
inductive Yields (i : SlotInput) : SlotPc → SlotPc → Prop
  | cca (loc : TxLocals) : Yields i .asleep (.txBeforeCca loc)
  | noCca (loc : TxLocals) : Yields i .asleep (.txBeforeTx loc)
  | clear (loc : TxLocals) : Yields i (.txBeforeCca loc) (.txBeforeTx loc)
  | sent (loc : TxLocals) : loc.doWaitForAck = true → Yields i (.txBeforeTx loc) (.txBeforeAck loc)
  | listens : Yields i .asleep .rxBeforeListen
  | reads (f : RxFrame) : i.received = some f → Yields i .rxBeforeListen (.rxBeforeAck f)

theorem runSlot_yields {l : Nat} {i : SlotInput} {w s' : TschState}
    (hend : ∀ {w : TschState}, endOfSlot cfg i w ≠ some s')
    (htx : ∀ {st : MacStatus} {w : TschState}, txSlotEnd cfg st i w ≠ some s')
    (h : runSlot cfg l i w = some s') : Yields i .asleep s'.slot.pc := by
  simp only [runSlot] at h
  split at h
  · simp only [txSlotBegin] at h
    split at h
    · split at h
      · split at h
        · exact absurd h htx
        · split at h
          · split at h
            · cases h
              exact .cca _
            · cases h
              exact .noCca _
          · exact absurd h htx
      · cases h
    · exact absurd h hend
  · split at h
    · simp only [rxSlotBegin] at h
      split at h
      · cases h
        exact .listens
      · exact absurd h hend
    · exact absurd h hend

theorem slotStep_yields {i : SlotInput} {s s' : TschState} (hs : slotStep cfg i s = some s')
    (hpc' : s'.slot.pc ≠ .asleep) : Yields i s.slot.pc s'.slot.pc := by
  have hend : ∀ {w : TschState}, endOfSlot cfg i w ≠ some s' := fun h => hpc' (endOfSlot_asleep h)
  have htx : ∀ {st : MacStatus} {w : TschState}, txSlotEnd cfg st i w ≠ some s' :=
    fun h => hpc' (txSlotEnd_asleep h)
  have hrx : ∀ {f : RxFrame} {w : TschState}, rxSlotDeliver cfg f i w ≠ some s' := by
    intro f w h
    simp only [rxSlotDeliver] at h
    split at h
    · cases h
    · exact hend h
  simp only [slotStep] at hs
  cases hpc : s.slot.pc with
  | asleep =>
      simp only [hpc] at hs
      split at hs
      · simp only [wakeUp] at hs
        split at hs
        · split at hs
          · exact absurd hs hend
          · split at hs
            · exact absurd hs hend
            · simp only [beginSlot] at hs
              split at hs
              · cases hs
              · exact runSlot_yields hend htx hs
        · cases hs
          exact absurd hpc hpc'
      · cases hs
  | txBeforeCca loc =>
      simp only [hpc, txSlotCca] at hs
      split at hs
      · cases hs
        exact .clear loc
      · exact absurd hs htx
  | txBeforeTx loc =>
      simp only [hpc, txSlotTransmit] at hs
      split at hs
      · split at hs
        · rename_i hwait
          cases hs
          exact .sent loc hwait
        · exact absurd hs htx
      · exact absurd hs htx
  | txBeforeAck loc =>
      simp only [hpc, txSlotAck] at hs
      split at hs
      · cases hs
      · split at hs <;> exact absurd hs htx
  | rxBeforeListen =>
      simp only [hpc, rxSlotListen] at hs
      split at hs
      · exact absurd hs hend
      · rename_i f hf
        split at hs
        · split at hs
          · cases hs
            exact .reads f hf
          · exact absurd hs hrx
        · exact absurd hs hend
  | rxBeforeAck f =>
      simp only [hpc, rxSlotAck] at hs
      exact absurd hs hrx

end

end QlTsch
