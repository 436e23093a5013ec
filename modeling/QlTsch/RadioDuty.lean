/-
# `QlTsch.RadioDuty` — when the radio is on

The slot operation turns the radio on and off through `tsch_radio_on` and
`tsch_radio_off`.  Each call names its place in the slot; the build constant
`TSCH_RADIO_ON_DURING_TIMESLOT` (`during` below) says at which places the radio
follows.  `radioCalls` lists the calls of one interrupt, on the branches of `slotStep`.

Between two slots the radio ought to be off.  Two paths leave it on:

* with `during`, `tsch_tx_slot` and `tsch_rx_slot` make their last call only if their ring
  buffer had room, but the radio was turned on before they looked;
* without it, a failed CCA goes to the end of the slot, where the call does nothing in
  such a build.

Every other path turns it off.  So the radio is off whenever the node sleeps, over a whole
run, exactly if neither of the two was ever taken (`radio_off_iff`).
-/
import QlTsch.Lib.History
import QlTsch.LockRules
import QlTsch.NodeCalls

namespace QlTsch

open Interleave Interleave.Prog

variable (cfg : Config)

/-! ## The calls -/

/-- `enum tsch_radio_state_on_cmd`. -/
inductive RadioOnCmd where
  | startOfTimeslot
  | withinTimeslot
  | force
deriving DecidableEq, Repr

/-- `enum tsch_radio_state_off_cmd`. -/
inductive RadioOffCmd where
  | endOfTimeslot
  | withinTimeslot
  | force
deriving DecidableEq, Repr

/-- `tsch_radio_on`, as a function of whether the radio is on. -/
def tschRadioOn (during : Bool) (command : RadioOnCmd) (radio : Bool) : Bool :=
  let doIt := match command with
    | .startOfTimeslot => during
    | .withinTimeslot => !during
    | .force => true
  if doIt then true else radio

/-- `tsch_radio_off`. -/
def tschRadioOff (during : Bool) (command : RadioOffCmd) (radio : Bool) : Bool :=
  let doIt := match command with
    | .endOfTimeslot => during
    | .withinTimeslot => !during
    | .force => true
  if doIt then false else radio

inductive RadioCall where
  | on (command : RadioOnCmd)
  | off (command : RadioOffCmd)
deriving DecidableEq, Repr

def RadioCall.perform (during : Bool) (radio : Bool) : RadioCall → Bool
  | .on command => tschRadioOn during command radio
  | .off command => tschRadioOff during command radio

def radioAfter (during : Bool) (calls : List RadioCall) (radio : Bool) : Bool :=
  calls.foldl (RadioCall.perform during) radio

/-! ## The calls of one interrupt -/

/-- `tsch_tx_slot` up to its first yield: no call before the CCA, the last one if the slot
ends here. -/
def txSlotBeginCalls (i : SlotInput) (s : TschState) : List RadioCall :=
  if s.slot.dequeuedRingbuf.length < cfg.dequeuedRingbufCapacity then
    match s.slot.currentPacket with
    | some p =>
        if (s.queue.packets p).hasQueuebuf && (packetReady i s && i.prepareOk) then []
        else [.off .endOfTimeslot]
    | none => []
  else []

/-- An active slot on link `l`, up to its first yield.  `tsch_rx_slot` makes no call before
it listens, and none if it has no room. -/
def runSlotCalls (l : Nat) (i : SlotInput) (s : TschState) : List RadioCall :=
  if s.slot.currentPacket.isSome then .on .startOfTimeslot :: txSlotBeginCalls cfg i s
  else if (s.link l).linkOptions.rx then [.on .startOfTimeslot]
  else []

/-- The state in which a slot that is not skipped decides what to do, and its link. -/
def slotChoice (s : TschState) : Option (Nat × TschState) :=
  if s.slot.pc = .asleep ∧ s.slot.tschIsAssociated ∧ !s.lock.tschLockRequested then
    match s.slot.currentLink with
    | none => none
    | some l =>
        let t := chooseLink cfg l s.disarm.enterSlot
        t.slot.currentLink.map fun l => (l, t)
  else none

/-- `packetSeen` is what `receiving_packet() || pending_packet()` came to in the guard time. -/
def rxSlotListenCalls (packetSeen : Bool) (i : SlotInput) : List RadioCall :=
  match i.received with
  | none =>
      if packetSeen then [.on .withinTimeslot, .off .withinTimeslot, .off .endOfTimeslot]
      else [.on .withinTimeslot, .off .force]
  | some f =>
      if frameIsForUs cfg f && (f.ackRequired && f.eackBuilt) then
        [.on .withinTimeslot, .off .withinTimeslot]
      else [.on .withinTimeslot, .off .withinTimeslot, .off .endOfTimeslot]

/-- The calls of one interrupt, in order. -/
def radioCalls (packetSeen : Bool) (i : SlotInput) (s : TschState) : List RadioCall :=
  match s.slot.pc with
  | .asleep =>
      match slotChoice cfg s with
      | some (l, t) => runSlotCalls cfg l i (setChannel cfg l t)
      | none => []
  | .txBeforeCca _ =>
      if i.channelClear then [.on .withinTimeslot] else [.on .withinTimeslot, .off .endOfTimeslot]
  | .txBeforeTx locals =>
      if i.transmitOk && locals.doWaitForAck then [.off .withinTimeslot]
      else [.off .withinTimeslot, .off .endOfTimeslot]
  | .txBeforeAck _ => [.on .withinTimeslot, .off .withinTimeslot, .off .endOfTimeslot]
  | .rxBeforeListen => rxSlotListenCalls cfg packetSeen i
  | .rxBeforeAck _ => [.off .withinTimeslot, .off .endOfTimeslot]

/-! ## The two paths -/

/-- An active slot finds its ring buffer full. -/
def slotRingFull (l : Nat) (s : TschState) : Bool :=
  if s.slot.currentPacket.isSome then s.slot.dequeuedRingbuf.length ≥ cfg.dequeuedRingbufCapacity
  else (s.link l).linkOptions.rx && s.slot.inputRingbuf.length ≥ cfg.inputRingbufCapacity

/-- The interrupt takes one of the two paths. -/
def leavesRadioOn (during : Bool) (i : SlotInput) (s : TschState) : Bool :=
  match s.slot.pc with
  | .asleep => during && (slotChoice cfg s).any fun r => slotRingFull cfg r.1 r.2
  | .txBeforeCca _ => !during && !i.channelClear
  | _ => false

/-! ## One interrupt -/

/-- Where the slot operation stands, and the radio there: off between slots; within a slot
on or off throughout as the build has it, with the exception of the time between CCA and
transmission. -/
def RadioAt (during : Bool) (pc : SlotPc) (radio : Bool) : Prop :=
  match pc with
  | .asleep => radio = false
  | .txBeforeTx _ => during = true → radio = true
  | _ => radio = during

section
variable {cfg} {during seen radio : Bool} {i : SlotInput} {s s' : TschState} {l : Nat}

theorem radioAfter_append (calls calls' : List RadioCall) :
    radioAfter during (calls ++ calls') radio =
      radioAfter during calls' (radioAfter during calls radio) := List.foldl_append

theorem rxSlotDeliver_asleep {f : RxFrame} (h : rxSlotDeliver cfg f i s = some s') :
    s'.slot.pc = .asleep := by
  simp only [rxSlotDeliver] at h
  split at h
  · cases h
  · exact endOfSlot_asleep h

theorem txSlotBegin_radio (h : txSlotBegin cfg i s = some s') (hr : radio = during)
    (hroom : s.slot.dequeuedRingbuf.length < cfg.dequeuedRingbufCapacity) :
    RadioAt during s'.slot.pc (radioAfter during (txSlotBeginCalls cfg i s) radio) := by
  simp only [txSlotBegin, hroom, if_true] at h
  simp only [txSlotBeginCalls, hroom, if_true]
  split at h
  · rename_i p n hp hn
    simp only [hp]
    split at h
    · rename_i hq
      have hq : (s.queue.packets p).hasQueuebuf = false := by simpa using hq
      rw [txSlotEnd_asleep h]
      simp only [hq, Bool.false_and]
      cases during <;> simp [RadioAt, radioAfter, RadioCall.perform, tschRadioOff, hr]
    · rename_i hq
      have hq : (s.queue.packets p).hasQueuebuf = true := by simpa using hq
      split at h
      · rename_i hready
        simp only [hq, hready, Bool.true_and]
        split at h <;> cases h <;>
          simp [RadioAt, radioAfter, TschState.setPc, hr]
      · rename_i hready
        rw [txSlotEnd_asleep h]
        simp only [hq, hready, Bool.true_and]
        cases during <;> simp [RadioAt, radioAfter, RadioCall.perform, tschRadioOff, hr]
  · cases h

theorem slotStep_choice {t : TschState} (hc : slotChoice cfg s = some (l, t))
    (h : slotStep cfg i s = some s') : runSlot cfg l i t = some s' := by
  simp only [slotChoice] at hc
  split at hc
  · rename_i hstart
    obtain ⟨hpc, hassoc, hreq⟩ := hstart
    simp only [slotStep, hpc] at h
    split at h
    · simp only [wakeUp, hassoc, if_true] at h
      split at hc
      · cases hc
      · rename_i l₀ hl₀
        obtain ⟨l', hl', heq⟩ := Option.map_eq_some_iff.mp hc
        cases heq
        have hreq : s.lock.tschLockRequested = false := by simpa using hreq
        simp only [hl₀, hreq, Bool.false_eq_true, if_false, beginSlot, hl'] at h
        exact h
    · cases h
  · cases hc

theorem slotStep_noChoice (hpc : s.slot.pc = .asleep) (hc : slotChoice cfg s = none)
    (h : slotStep cfg i s = some s') : s'.slot.pc = .asleep := by
  simp only [slotStep, hpc] at h
  split at h
  · simp only [wakeUp] at h
    split at h
    · rename_i hassoc
      split at h
      · exact endOfSlot_asleep h
      · rename_i l₀ hl₀
        split at h
        · exact endOfSlot_asleep h
        · rename_i hreq
          have hreq : s.lock.tschLockRequested = false := by simpa using hreq
          simp only [beginSlot] at h
          split at h
          · cases h
          · rename_i l hl
            simp [slotChoice, hpc, hassoc, hreq, hl₀, hl] at hc
    · cases h
      exact hpc
  · cases h

theorem runSlot_radio {t : TschState} (h : runSlot cfg l i t = some s')
    (hfull : (during && slotRingFull cfg l t) = false) :
    RadioAt during s'.slot.pc
      (radioAfter during (runSlotCalls cfg l i (setChannel cfg l t)) false) := by
  obtain ⟨b, o, c, hch⟩ := setChannel_spec cfg l t
  have hstart : RadioCall.perform during false (.on .startOfTimeslot) = during := by
    cases during <;> rfl
  have hempty : ∀ pc : SlotPc, pc = .asleep → during = false → RadioAt during pc during := by
    intro pc hpc hd
    rw [hpc, hd]
    rfl
  simp only [runSlot] at h
  split at h
  · rename_i hp
    have hp' : (setChannel cfg l t).slot.currentPacket.isSome = true := by rw [hch]; exact hp
    simp only [runSlotCalls, hp', if_true, radioAfter, List.foldl_cons, hstart]
    by_cases hroom : (setChannel cfg l t).slot.dequeuedRingbuf.length < cfg.dequeuedRingbufCapacity
    · exact txSlotBegin_radio h rfl hroom
    · have hd : during = false := by
        have hge : cfg.dequeuedRingbufCapacity ≤ t.slot.dequeuedRingbuf.length := by
          rw [hch] at hroom
          exact not_lt.mp hroom
        simpa [slotRingFull, hp, hge] using hfull
      simp only [txSlotBegin, hroom, if_false] at h
      simp only [txSlotBeginCalls, hroom, if_false]
      exact hempty _ (endOfSlot_asleep h) hd
  · rename_i hp
    have hp' : (setChannel cfg l t).slot.currentPacket.isSome = false := by
      rw [hch]
      exact Bool.eq_false_iff.mpr hp
    have hlink : (setChannel cfg l t).link l = t.link l := by rw [hch]; rfl
    split at h
    · rename_i hrx
      simp only [runSlotCalls, hp', hlink, hrx, Bool.false_eq_true, if_false, if_true, radioAfter,
        List.foldl_cons, List.foldl_nil, hstart]
      simp only [rxSlotBegin] at h
      split at h
      · cases h
        rfl
      · rename_i hroom
        have hd : during = false := by
          have hge : cfg.inputRingbufCapacity ≤ t.slot.inputRingbuf.length := by
            rw [hch] at hroom
            exact not_lt.mp hroom
          simpa [slotRingFull, hp, hrx, hge] using hfull
        exact hempty _ (endOfSlot_asleep h) hd
    · rename_i hrx
      simp only [runSlotCalls, hp', hlink, hrx, Bool.false_eq_true, if_false, radioAfter,
        List.foldl_nil]
      rw [endOfSlot_asleep h]
      rfl

/-- **One interrupt** off the two paths. -/
theorem RadioAt.step (hr : RadioAt during s.slot.pc radio)
    (hl : leavesRadioOn cfg during i s = false) (h : slotStep cfg i s = some s') :
    RadioAt during s'.slot.pc (radioAfter during (radioCalls cfg seen i s) radio) := by
  cases hpc : s.slot.pc with
  | asleep =>
      simp only [RadioAt, hpc] at hr
      subst hr
      simp only [leavesRadioOn, hpc] at hl
      simp only [radioCalls, hpc]
      cases hc : slotChoice cfg s with
      | none =>
          rw [slotStep_noChoice hpc hc h]
          rfl
      | some r =>
          rw [hc] at hl
          exact runSlot_radio (slotStep_choice hc h) hl
  | txBeforeCca locals =>
      simp only [RadioAt, hpc] at hr
      subst hr
      simp only [leavesRadioOn, hpc] at hl
      simp only [slotStep, hpc, txSlotCca] at h
      simp only [radioCalls, hpc]
      split at h
      · rename_i hclear
        cases h
        simp only [hclear, if_true]
        cases radio <;> simp [RadioAt, radioAfter, RadioCall.perform, tschRadioOn, TschState.setPc]
      · rename_i hclear
        have hd : radio = true := by simpa [hclear] using hl
        rw [txSlotEnd_asleep h, hd]
        simp only [hclear]
        rfl
  | txBeforeTx locals =>
      simp only [RadioAt, hpc] at hr
      simp only [slotStep, hpc, txSlotTransmit] at h
      simp only [radioCalls, hpc]
      split at h
      · rename_i hok
        split at h
        · rename_i hwait
          cases h
          simp only [hok, hwait, Bool.and_self, if_true]
          cases during <;> simp_all [RadioAt, radioAfter, RadioCall.perform, tschRadioOff,
            TschState.setPc]
        · rename_i hwait
          rw [txSlotEnd_asleep h]
          simp only [hok, hwait, Bool.and_false]
          cases during <;> rfl
      · rename_i hok
        rw [txSlotEnd_asleep h]
        simp only [hok, Bool.false_and]
        cases during <;> rfl
  | txBeforeAck locals =>
      simp only [slotStep, hpc, txSlotAck] at h
      simp only [radioCalls, hpc]
      split at h
      · cases h
      · split at h <;> rw [txSlotEnd_asleep h] <;> cases during <;> rfl
  | rxBeforeListen =>
      simp only [slotStep, hpc, rxSlotListen] at h
      simp only [radioCalls, hpc, rxSlotListenCalls]
      simp only [RadioAt, hpc] at hr
      subst hr
      cases hreceived : i.received with
      | none =>
          simp only [hreceived] at h
          rw [endOfSlot_asleep h]
          cases seen <;> cases radio <;> rfl
      | some f =>
          simp only [hreceived] at h
          split at h
          · rename_i hus
            split at h
            · rename_i hack
              cases h
              simp only [hus, hack, Bool.and_self, if_true]
              cases radio <;> rfl
            · rename_i hack
              rw [rxSlotDeliver_asleep h]
              simp only [hus, hack, Bool.and_false]
              cases radio <;> rfl
          · rename_i hus
            rw [endOfSlot_asleep h]
            simp only [hus, Bool.false_and]
            cases radio <;> rfl
  | rxBeforeAck f =>
      simp only [slotStep, hpc, rxSlotAck] at h
      simp only [radioCalls, hpc]
      simp only [RadioAt, hpc] at hr
      subst hr
      rw [rxSlotDeliver_asleep h]
      cases radio <;> rfl

/-- **One interrupt on the two paths**: the slot is over, and the radio is on. -/
theorem leavesRadioOn_step (hl : leavesRadioOn cfg during i s = true)
    (h : slotStep cfg i s = some s') :
    s'.slot.pc = .asleep ∧ radioAfter during (radioCalls cfg seen i s) radio = true := by
  cases hpc : s.slot.pc with
  | asleep =>
      simp only [leavesRadioOn, hpc, Bool.and_eq_true, Option.any_eq_true] at hl
      obtain ⟨rfl, ⟨l, t⟩, hc, hfull⟩ := hl
      have hrun := slotStep_choice hc h
      obtain ⟨b, o, c, hch⟩ := setChannel_spec cfg l t
      simp only [radioCalls, hpc, hc]
      simp only [runSlot] at hrun
      simp only [slotRingFull] at hfull
      split at hrun
      · rename_i hp
        have hp' : (setChannel cfg l t).slot.currentPacket.isSome = true := by rw [hch]; exact hp
        have hroom : ¬ (setChannel cfg l t).slot.dequeuedRingbuf.length <
            cfg.dequeuedRingbufCapacity := by
          rw [hch]
          simpa [hp] using hfull
        simp only [txSlotBegin, hroom, if_false] at hrun
        refine ⟨endOfSlot_asleep hrun, ?_⟩
        simp only [runSlotCalls, hp', if_true, txSlotBeginCalls, hroom, if_false]
        rfl
      · rename_i hp
        have hp' : (setChannel cfg l t).slot.currentPacket.isSome = false := by
          rw [hch]
          exact Bool.eq_false_iff.mpr hp
        have hlink : (setChannel cfg l t).link l = t.link l := by rw [hch]; rfl
        obtain ⟨hrx, hroom⟩ : (t.link l).linkOptions.rx = true ∧
            cfg.inputRingbufCapacity ≤ t.slot.inputRingbuf.length := by simpa [hp] using hfull
        have hroom' : ¬ (setChannel cfg l t).slot.inputRingbuf.length < cfg.inputRingbufCapacity := by
          rw [hch]
          exact not_lt.mpr hroom
        simp only [hrx, if_true, rxSlotBegin, hroom', if_false] at hrun
        refine ⟨endOfSlot_asleep hrun, ?_⟩
        simp only [runSlotCalls, hp', hlink, hrx, Bool.false_eq_true, if_false, if_true]
        rfl
  | txBeforeCca locals =>
      simp only [leavesRadioOn, hpc, Bool.and_eq_true, Bool.not_eq_true'] at hl
      obtain ⟨rfl, hclear⟩ := hl
      simp only [slotStep, hpc, txSlotCca, hclear, Bool.false_eq_true, if_false] at h
      refine ⟨txSlotEnd_asleep h, ?_⟩
      simp only [radioCalls, hpc, hclear, Bool.false_eq_true, if_false]
      rfl
  | txBeforeTx _ => simp [leavesRadioOn, hpc] at hl
  | txBeforeAck _ => simp [leavesRadioOn, hpc] at hl
  | rxBeforeListen => simp [leavesRadioOn, hpc] at hl
  | rxBeforeAck _ => simp [leavesRadioOn, hpc] at hl

end

/-! ## Runs -/

/-- What a run shows of an interrupt. -/
structure RadioEvent where
  calls : List RadioCall
  /-- the interrupt took one of the two paths -/
  leavesOn : Bool
  /-- the node sleeps afterwards, until the next slot -/
  asleep : Bool
deriving DecidableEq, Repr

def radioEvent (during seen : Bool) (i : SlotInput) (s s' : TschState) : RadioEvent :=
  ⟨radioCalls cfg seen i s, leavesRadioOn cfg during i s, decide (s'.slot.pc = .asleep)⟩

/-- The slot interrupts, each with its calls. -/
def RadioEnv (during : Bool) (es : List RadioEvent) (s s' : TschState) : Prop :=
  ∃ i seen, slotStep cfg i s = some s' ∧ es = [radioEvent cfg during seen i s s']

/-- The radio after a run that began with the radio off. -/
def radioAfterEvents (during : Bool) (es : List RadioEvent) : Bool :=
  radioAfter during (es.flatMap RadioEvent.calls) false

/-- Whenever the node slept, the radio was off. -/
def OffBetweenSlots (during : Bool) (es : List RadioEvent) : Prop :=
  ∀ before e after, es = before ++ e :: after → e.asleep = true →
    radioAfterEvents during (before ++ [e]) = false

/-- The events so far, and the state they lead to. -/
structure RadioRecord (during : Bool) (es : List RadioEvent) (s : TschState) : Prop where
  now : (∀ e ∈ es, e.leavesOn = false) → RadioAt during s.slot.pc (radioAfterEvents during es)
  slept : (∀ e ∈ es, e.leavesOn = false) → OffBetweenSlots during es
  left : ∀ before e after, es = before ++ e :: after → e.leavesOn = true →
    e.asleep = true ∧ radioAfterEvents during (before ++ [e]) = true

section
variable {cfg} {during : Bool} {es : List RadioEvent} {s s' : TschState}

theorem radioAfterEvents_concat (es : List RadioEvent) (e : RadioEvent) :
    radioAfterEvents during (es ++ [e]) = radioAfter during e.calls (radioAfterEvents during es) := by
  rw [radioAfterEvents, List.flatMap_append, List.flatMap_singleton, radioAfter_append]
  rfl

theorem split_concat_event {es before after : List RadioEvent} {e e' : RadioEvent}
    (h : es ++ [e] = before ++ e' :: after) :
    (es = before ∧ e = e') ∨ ∃ after', es = before ++ e' :: after' := by
  rcases List.eq_nil_or_concat after with rfl | ⟨after, x, rfl⟩
  · obtain ⟨rfl, he⟩ := List.append_inj' h rfl
    exact .inl ⟨rfl, List.singleton_inj.mp he⟩
  · have h : es ++ [e] = (before ++ e' :: after) ++ [x] := by simpa using h
    exact .inr ⟨after, (List.append_inj' h rfl).1⟩

namespace RadioRecord

theorem start (hpc : s.slot.pc = .asleep) : RadioRecord during [] s := by
  refine ⟨fun _ => ?_, fun _ before e after h => ?_, fun before e after h => ?_⟩
  · rw [hpc]
    rfl
  · cases before <;> cases h
  · cases before <;> cases h

theorem samePc (h : RadioRecord during es s) (hpc : s'.slot.pc = s.slot.pc) :
    RadioRecord during es s' :=
  ⟨fun hes => hpc ▸ h.now hes, h.slept, h.left⟩

theorem step {i : SlotInput} {seen : Bool} (h : RadioRecord during es s)
    (hs : slotStep cfg i s = some s') :
    RadioRecord during (es ++ [radioEvent cfg during seen i s s']) s' := by
  have hnow : (∀ e ∈ es ++ [radioEvent cfg during seen i s s'], e.leavesOn = false) →
      RadioAt during s'.slot.pc
        (radioAfterEvents during (es ++ [radioEvent cfg during seen i s s'])) := by
    intro hes
    rw [radioAfterEvents_concat]
    refine (h.now fun e he => hes e (List.mem_append_left _ he)).step ?_ hs
    exact hes _ (List.mem_append_right _ (List.mem_singleton_self _))
  refine ⟨hnow, fun hes before e after hsplit hasleep => ?_, fun before e after hsplit hleft => ?_⟩
  · rcases split_concat_event hsplit with ⟨rfl, rfl⟩ | ⟨after', hsplit⟩
    · have hat := hnow hes
      rw [of_decide_eq_true hasleep] at hat
      exact hat
    · exact h.slept (fun e he => hes e (List.mem_append_left _ he)) before e after' hsplit hasleep
  · rcases split_concat_event hsplit with ⟨rfl, rfl⟩ | ⟨after', hsplit⟩
    · have hboth : s'.slot.pc = .asleep ∧
          radioAfter during (radioCalls cfg seen i s) (radioAfterEvents during es) = true :=
        leavesRadioOn_step hleft hs
      rw [radioAfterEvents_concat]
      exact ⟨decide_eq_true hboth.1, hboth.2⟩
    · exact h.left before e after' hsplit hleft

/-- The radio is off between slots exactly if neither path was taken. -/
theorem off_iff (h : RadioRecord during es s) :
    OffBetweenSlots during es ↔ ∀ e ∈ es, e.leavesOn = false := by
  constructor
  · intro hoff e he
    obtain ⟨before, after, rfl⟩ := List.append_of_mem he
    cases hleft : e.leavesOn with
    | false => rfl
    | true =>
        obtain ⟨hasleep, hon⟩ := h.left before e after rfl hleft
        rw [hoff before e after rfl hasleep] at hon
        cases hon
  · exact h.slept

end RadioRecord

/-- **The radio is off between slots**, in a run of the node from the sleeping state with
anything its processes do, exactly if no interrupt of the run took one of the two paths.
Then it is also, within a slot, on or off throughout as the build has it, but for the time
between CCA and transmission. -/
theorem radio_off_iff (fuel : Nat) (calls : List NodeCall) (hpc : s.slot.pc = .asleep)
    {c : Prog TschState Unit × TschState}
    (hr : History (RadioEnv cfg during) (fun _ _ => [])
      (Prog.forEach calls (NodeCall.perform cfg fuel), s) es c) :
    (OffBetweenSlots during es ↔ ∀ e ∈ es, e.leavesOn = false) ∧
      ((∀ e ∈ es, e.leavesOn = false) →
        RadioAt during c.2.slot.pc (radioAfterEvents during es)) := by
  have hrecord : RadioRecord during es c.2 := by
    refine History.invariant (I := fun _ => True) (fun _ => trivial) (guar_leavesSlot fuel calls)
      (.start hpc) ?_ ?_ hr
    · intro h s s' _ hrec hg
      rw [List.append_nil]
      exact hrec.samePc (by rw [hg.slot])
    · rintro h _ s s' _ hrec ⟨i, seen, hs, rfl⟩
      exact hrec.step hs
  exact ⟨hrecord.off_iff, hrecord.now⟩

end

/-- The interrupts of a run, each with what it shows. -/
def radioStep (during : Bool) (i : SlotInput) (s : TschState) :
    Option (List RadioEvent × TschState) :=
  (slotStep cfg i s).map fun s' => ([radioEvent cfg during false i s s'], s')

theorem radioStep_env {during : Bool} {i : SlotInput} {s s' : TschState} {es : List RadioEvent}
    (h : radioStep cfg during i s = some (es, s')) : RadioEnv cfg during es s s' := by
  obtain ⟨t, hs, heq⟩ := Option.map_eq_some_iff.mp h
  cases heq
  exact ⟨i, false, hs, rfl⟩

theorem radio_off_acknowledged :
    ∃ (es : List RadioEvent) (c : Prog TschState Unit × TschState),
      History (RadioEnv (smallBuild 8) false) (fun _ _ => [])
        (Prog.forEach [] (NodeCall.perform (smallBuild 8) 5), oneQueued 7) es c ∧
      es.length = 4 ∧ OffBetweenSlots false es := by
  obtain ⟨es, c, hr, hc⟩ := History.exists_historyOf (radioStep (smallBuild 8) false)
    (fun _ _ => []) (Prog.forEach [] (NodeCall.perform (smallBuild 8) 5), oneQueued 7)
    (fun _ _ _ _ => radioStep_env _)
    [some (.quiet 0), some (.quiet 328), some (.quiet 328),
      some { SlotInput.quiet 328 with ackLen := 5, eackParsed := true }]
    (fun r => r.1.length == 4 && r.1.all fun e => !e.leavesOn) (by decide +kernel)
  simp only [Bool.and_eq_true, beq_iff_eq, List.all_eq_true, Bool.not_eq_true'] at hc
  exact ⟨es, c, hr, hc.1, (radio_off_iff 5 [] (by decide +kernel) hr).1.mpr hc.2⟩

end QlTsch
