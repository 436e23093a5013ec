/-
# `QlTsch.RewardDelivery` — the rewards of a node and the frames of a network

The chain from a reward to a frame that has arrived has four links, and none of them may be
used twice:

* a reward is applied for a transmission that `trans_status` recorded, and no transmission is
  rewarded twice (`RewardBooks`);
* a transmission that is recorded as a success, of a unicast, is an attempt that the slot
  operation has brought to a good end (`slotStep_recorded`);
* a packet has no attempt after a good one (`FifoInv`);
* a good attempt of a unicast was a frame that another node has acknowledged and taken in
  (`answered_runs`).

So in every run of a network a node has applied `reward_succes` for unicasts at most as often
as frames of it have been acknowledged and taken in (`rewards_backed`).
-/
import QlTsch.AckedReward
import QlTsch.Delivery

namespace QlTsch

open Interleave Interleave.Prog

/-! ## What an interrupt records -/

section
variable {cfg : Config} {i : SlotInput}

/-- Nothing is recorded. -/
structure SameRecord (s s' : TschState) : Prop where
  outcomes : s'.ghost.outcomes = s.ghost.outcomes
  transStatus : s'.slot.transStatus = s.slot.transStatus

namespace SameRecord

variable {s s' t : TschState}

theorem refl (s : TschState) : SameRecord s s := ⟨rfl, rfl⟩

theorem trans (h : SameRecord s s') (h' : SameRecord s' t) : SameRecord s t :=
  ⟨h'.outcomes.trans h.outcomes, h'.transStatus.trans h.transStatus⟩

theorem updateLinkBackoff (l : Option Nat) (s : TschState) :
    SameRecord s (updateLinkBackoff cfg l s) := by
  obtain ⟨w, hw⟩ := updateLinkBackoff_spec cfg l s
  rw [hw]
  exact ⟨rfl, rfl⟩

theorem chooseLink (l : Nat) (s : TschState) : SameRecord s (chooseLink cfg l s) := by
  simp only [QlTsch.chooseLink]
  split
  · exact ⟨rfl, rfl⟩
  · obtain ⟨w, hw⟩ := updateLinkBackoff_spec cfg (some l) (getCurrentPacket l s)
    rw [hw]
    exact ⟨rfl, rfl⟩

theorem setChannel (l : Nat) (s : TschState) : SameRecord s (setChannel cfg l s) := by
  obtain ⟨b, o, c, hc⟩ := setChannel_spec cfg l s
  rw [hc]
  exact ⟨rfl, rfl⟩

variable (cfg) in
/-- The end of a slot, after the record of the transmission. -/
def outline (s : TschState) : EndOutline cfg where
  asleep := SameRecord s
  ending := SameRecord s
  chosen := SameRecord s
  keepTime _ h := h.trans ⟨rfl, rfl⟩
  backoff l h := h.trans (updateLinkBackoff l _)
  replay h _ _ := h.trans ⟨rfl, rfl⟩
  select h _ := h.trans ⟨rfl, rfl⟩
  advance _ _ h := h.trans ⟨rfl, rfl⟩
  again h := h
  armTimer _ h := h.trans ⟨rfl, rfl⟩
  sleep h := h.trans ⟨rfl, rfl⟩
  disassociate h := h.trans ⟨rfl, rfl⟩

theorem endOfSlot (h : endOfSlot cfg i s = some s') : SameRecord s s' :=
  ((outline cfg s).endOfSlot (.refl s) h).1

end SameRecord

theorem SameRecord.rxSlotDeliver {f : RxFrame} {s s' : TschState}
    (h : rxSlotDeliver cfg f i s = some s') : SameRecord s s' := by
  simp only [QlTsch.rxSlotDeliver] at h
  split at h
  · cases h
  · rename_i l _
    have hsync : SameRecord s (syncFromFrame f i s) := by
      simp only [syncFromFrame]
      split
      · exact .refl s
      · split
        · exact ⟨rfl, rfl⟩
        · exact .refl s
    have hput : SameRecord (syncFromFrame f i s)
        ((countReception l (syncFromFrame f i s)).putInput f) := by
      obtain ⟨t, ht⟩ := countReception_spec l (syncFromFrame f i s)
      rw [ht]
      exact ⟨rfl, rfl⟩
    exact (hsync.trans hput).trans (SameRecord.endOfSlot h)

theorem SameRecord.rxSlotBegin {s s' : TschState} (h : rxSlotBegin cfg i s = some s') :
    SameRecord s s' := by
  simp only [QlTsch.rxSlotBegin] at h
  split at h
  · cases h
    exact ⟨rfl, rfl⟩
  · exact SameRecord.endOfSlot h

/-- Nothing is recorded, or one outcome is, of which `P` holds. -/
def OutcomeRecorded (P : TxOutcome → Prop) (s s' : TschState) : Prop :=
  SameRecord s s' ∨ ∃ o, s'.ghost.outcomes = s.ghost.outcomes ++ [o] ∧ s'.slot.transStatus ≠ 0 ∧ P o

namespace OutcomeRecorded

variable {P Q : TxOutcome → Prop} {s s' w : TschState}

theorem after (hw : SameRecord s w) (h : OutcomeRecorded P w s') : OutcomeRecorded P s s' := by
  rcases h with hsame | ⟨o, hout, hstatus, hP⟩
  · exact .inl (hw.trans hsame)
  · exact .inr ⟨o, by rw [hout, hw.outcomes], hstatus, hP⟩

theorem mono (h : OutcomeRecorded P s s') (hPQ : ∀ o, P o → Q o) : OutcomeRecorded Q s s' :=
  h.imp_right fun ⟨o, hout, hstatus, hP⟩ => ⟨o, hout, hstatus, hPQ o hP⟩

theorem txSlotEnd {st : MacStatus} (h : txSlotEnd cfg st i w = some s') :
    OutcomeRecorded (fun o => o.status = st ∧ o.unicast = w.ghost.frameUnicast) w s' := by
  simp only [QlTsch.txSlotEnd] at h
  split at h
  · rename_i p n l _ _ _
    have hfinish : SameRecord (recordOutcome p l st w) (finishTx cfg n p l st i.rand w) := by
      obtain ⟨q, d, hq⟩ := finishTx_spec cfg n p l st i.rand w
      rw [hq]
      exact ⟨rfl, rfl⟩
    have hsame := hfinish.trans (SameRecord.endOfSlot h)
    by_cases hl : ((w.modifyPacket p fun e => { e with
        transmissions := (e.transmissions + 1) % 256, ret := st }).link l).slotframeHandle = 1
    · simp only [recordOutcome, if_pos hl] at hsame
      refine .inr ⟨_, hsame.outcomes, ?_, rfl, rfl⟩
      rw [hsame.transStatus]
      show (if st = .ok then 1 else 2) ≠ 0
      split <;> decide
    · simp only [recordOutcome, if_neg hl] at hsame
      exact .inl ⟨hsame.outcomes, hsame.transStatus⟩
  · cases h

theorem txSlotEnd_bad {st : MacStatus} (hst : st ≠ .ok) (h : QlTsch.txSlotEnd cfg st i w = some s') :
    OutcomeRecorded (fun o => o.status ≠ .ok) w s' :=
  (txSlotEnd h).mono fun _ ho hok => hst (ho.1.symm.trans hok)

theorem txSlotBegin (h : txSlotBegin cfg i w = some s') :
    OutcomeRecorded (fun o => o.status ≠ .ok) w s' := by
  simp only [QlTsch.txSlotBegin] at h
  split at h
  · split at h
    · rename_i p n _ _
      split at h
      · have hnoted : SameRecord w (w.noteFrame (!(w.queue.neighbors n).isBroadcast)) := ⟨rfl, rfl⟩
        exact after hnoted (txSlotEnd_bad (by decide) h)
      · have hready : SameRecord w (prepareFrame cfg n p w) := by
          simp only [prepareFrame]
          split <;> exact ⟨rfl, rfl⟩
        split at h
        · split at h <;> cases h <;> exact .inl (hready.trans ⟨rfl, rfl⟩)
        · exact after hready (txSlotEnd_bad (by decide) h)
    · cases h
  · exact .inl (SameRecord.endOfSlot h)

theorem runSlot {l : Nat} (h : runSlot cfg l i w = some s') :
    OutcomeRecorded (fun o => o.status ≠ .ok) w s' := by
  have hset : SameRecord w (setChannel cfg l w) := .setChannel l w
  simp only [QlTsch.runSlot] at h
  split at h
  · exact after hset (txSlotBegin h)
  · split at h
    · exact .inl (hset.trans (SameRecord.rxSlotBegin h))
    · have hburst : SameRecord w (w.setBurstLinkScheduled false) := ⟨rfl, rfl⟩
      exact .inl (hburst.trans (SameRecord.endOfSlot h))

theorem wakeUp (h : wakeUp cfg i s = some s') : OutcomeRecorded (fun o => o.status ≠ .ok) s s' := by
  have hdisarm : SameRecord s s.disarm := ⟨rfl, rfl⟩
  simp only [QlTsch.wakeUp] at h
  split at h
  · split at h
    · exact .inl (hdisarm.trans (SameRecord.endOfSlot h))
    · split at h
      · exact .inl (hdisarm.trans (SameRecord.endOfSlot h))
      · rename_i l _ _
        have henter : SameRecord s s.disarm.enterSlot := ⟨rfl, rfl⟩
        simp only [beginSlot] at h
        split at h
        · cases h
        · exact after (henter.trans (.chooseLink l _)) (runSlot h)
  · cases h
    exact .inl hdisarm

end OutcomeRecorded

/-- Where a success is recorded: a frame has gone out that nobody acknowledges, or the
acknowledgement has come. -/
def GoodEnd (cfg : Config) (i : SlotInput) (s : TschState) (o : TxOutcome) : Prop :=
  (∃ loc, s.slot.pc = .txBeforeTx loc ∧ loc.doWaitForAck = false ∧
      o.unicast = s.ghost.frameUnicast) ∨
    ∃ loc, s.slot.pc = .txBeforeAck loc ∧ ackAccepted cfg i = true

/-- **What an interrupt records.** -/
theorem slotStep_recorded {s s' : TschState} (hs : slotStep cfg i s = some s') :
    OutcomeRecorded (fun o => o.status = .ok → GoodEnd cfg i s o) s s' := by
  have hbad : OutcomeRecorded (fun o => o.status ≠ .ok) s s' →
      OutcomeRecorded (fun o => o.status = .ok → GoodEnd cfg i s o) s s' := fun h =>
    h.mono fun _ hne hok => absurd hok hne
  simp only [slotStep] at hs
  cases hpc : s.slot.pc with
  | asleep =>
      simp only [hpc] at hs
      split at hs
      · exact hbad (.wakeUp hs)
      · cases hs
  | txBeforeCca loc =>
      simp only [hpc, txSlotCca] at hs
      split at hs
      · cases hs
        exact .inl ⟨rfl, rfl⟩
      · exact hbad (.txSlotEnd_bad (by decide) hs)
  | txBeforeTx loc =>
      simp only [hpc, txSlotTransmit] at hs
      have hsent : SameRecord s (s.noteTransmitted i.transmitOk) := ⟨rfl, rfl⟩
      split at hs
      · split at hs
        · cases hs
          exact .inl ⟨rfl, rfl⟩
        · rename_i hwait
          refine .after hsent ((OutcomeRecorded.txSlotEnd hs).mono fun o ho _ => ?_)
          exact .inl ⟨loc, hpc, Bool.eq_false_iff.mpr hwait, ho.2⟩
      · exact hbad (.after hsent (.txSlotEnd_bad (by decide) hs))
  | txBeforeAck loc =>
      simp only [hpc, txSlotAck] at hs
      have hnoted : SameRecord s (s.noteAcknowledged (ackReceived cfg i)) := ⟨rfl, rfl⟩
      split at hs
      · cases hs
      · rename_i n _
        split at hs
        · rename_i hack
          have haccept : SameRecord (s.noteAcknowledged (ackReceived cfg i))
              (acceptAck cfg n loc i (s.noteAcknowledged (ackReceived cfg i))) := by
            simp only [acceptAck]
            split <;> split <;> exact ⟨rfl, rfl⟩
          exact .after (hnoted.trans haccept)
            ((OutcomeRecorded.txSlotEnd hs).mono fun _ _ _ => .inr ⟨loc, hpc, hack⟩)
        · exact hbad (.after hnoted (.txSlotEnd_bad (by decide) hs))
  | rxBeforeListen =>
      simp only [hpc, rxSlotListen] at hs
      split at hs
      · exact .inl (SameRecord.endOfSlot hs)
      · split at hs
        · split at hs
          · cases hs
            exact .inl ⟨rfl, rfl⟩
          · exact .inl (SameRecord.rxSlotDeliver hs)
        · exact .inl (SameRecord.endOfSlot hs)
  | rxBeforeAck f =>
      simp only [hpc, rxSlotAck] at hs
      have hburst : SameRecord s (s.setBurstLinkScheduled f.framePending) := ⟨rfl, rfl⟩
      exact .inl (hburst.trans (SameRecord.rxSlotDeliver hs))

end

/-! ## No transmission is rewarded twice -/

/-- The transmissions `taken` are some of those recorded, in their order, and the last one is
not among them as long as its status has not been read. -/
def Booked (status : Nat) (outcomes taken : List TxOutcome) : Prop :=
  taken.Sublist (if status = 0 then outcomes else outcomes.dropLast)

section
variable {status : Nat} {outcomes taken : List TxOutcome}

theorem Booked.sublist (h : Booked status outcomes taken) : taken.Sublist outcomes := by
  simp only [Booked] at h
  split at h
  · exact h
  · exact h.trans (List.dropLast_sublist _)

theorem Booked.read (h : Booked status outcomes taken) (hstatus : status ≠ 0) :
    Booked 0 outcomes (taken ++ outcomes.getLast?.toList) := by
  simp only [Booked, if_neg hstatus] at h
  show (taken ++ outcomes.getLast?.toList).Sublist outcomes
  cases hlast : outcomes.getLast? with
  | none =>
      rw [Option.toList_none, List.append_nil]
      exact h.trans (List.dropLast_sublist _)
  | some o =>
      obtain ⟨os, rfl⟩ := List.getLast?_eq_some_iff.mp hlast
      rw [List.dropLast_concat] at h
      exact h.append (.refl _)

theorem Booked.recorded {P : TxOutcome → Prop} {s s' : TschState} (hrec : OutcomeRecorded P s s')
    (h : Booked s.slot.transStatus s.ghost.outcomes taken) :
    Booked s'.slot.transStatus s'.ghost.outcomes taken := by
  rcases hrec with hsame | ⟨o, hout, hstatus, -⟩
  · rw [hsame.outcomes, hsame.transStatus]
    exact h
  · rw [Booked, if_neg hstatus, hout, List.dropLast_concat]
    exact h.sublist

end

/-- The transmissions that `scheduler_process` has rewarded. -/
def rewarded (s : TschState) : List TxOutcome := s.ghost.credits.filterMap Credit.outcome

structure RewardBooks (cfg : Config) (s : TschState) : Prop extends RewardInv cfg s where
  booked : Booked s.slot.transStatus s.ghost.outcomes (rewarded s)

section
variable {cfg : Config} {s s' : TschState}

theorem rewarded_slotStep {i : SlotInput} (hs : slotStep cfg i s = some s') :
    rewarded s' = rewarded s :=
  congrArg (List.filterMap Credit.outcome) (congrArg Owned.credits (slotStep_owned hs))

theorem RewardBooks.interrupt (h : RewardBooks cfg s)
    (hs : ∃ i : SlotInput, i.ReadOk ∧ slotStep cfg i s = some s') : RewardBooks cfg s' := by
  obtain ⟨i, hread, hs⟩ := hs
  refine ⟨h.toRewardInv.traffic (.inl ⟨i, hread, hs⟩), ?_⟩
  rw [rewarded_slotStep hs]
  exact h.booked.recorded (slotStep_recorded hs)

theorem RewardBooks.keep (h : RewardBooks cfg s) (hk : KeepsRecord s s') : RewardBooks cfg s' := by
  have hcredits : s'.ghost.credits = s.ghost.credits := by rw [hk.ghost]
  have hstatus : s'.slot.transStatus = s.slot.transStatus := by rw [hk.slot]
  have hout : s'.ghost.outcomes = s.ghost.outcomes := by rw [hk.ghost]
  refine ⟨⟨?_, ?_⟩, ?_⟩
  · exact holds_rewardOutline_congr h.slot (by rw [hk.slot]) (.inl hstatus) hout (by rw [hk.ghost])
      (by rw [hk.ghost])
  · rw [CreditsEarned, hcredits]
    exact h.credits
  · rw [rewarded, hcredits, hstatus, hout]
    exact h.booked

/-- The context of the proof: the interrupts of a node whose radio driver does what the
code expects of it. -/
def booksCtx (cfg : Config) : Ctx TschState where
  irq s s' := ∃ i : SlotInput, i.ReadOk ∧ slotStep cfg i s = some s'
  cond _ _ := True
  inv := RewardBooks cfg
  live := False
  stable _ _ := RewardBooks.interrupt

theorem books_client {α : Type} {p : Prog TschState α} (hp : LockClient KeepsRecord p)
    (hi : RewardBooks cfg s) : Wp (booksCtx cfg) p (fun _ _ => True) s :=
  Wp.of_guar_inv (by exact id) (fun _ _ h hg _ => RewardBooks.keep h hg)
    (hp.guar (fun _ _ h => h) .refl (fun _ _ => ⟨rfl, rfl, rfl⟩) fun _ _ => ⟨rfl, rfl, rfl⟩) hi

/-- The status that was read is that of a transmission that is not rewarded yet. -/
structure ToReward (status : Nat) (s : TschState) : Prop where
  read : StatusRead status s
  booked : Booked s.slot.transStatus s.ghost.outcomes (rewarded s ++ s.ghost.readOutcome.toList)

theorem ToReward.rely {status : Nat} (hi : RewardBooks cfg s) (h : ToReward status s)
    (hr : (booksCtx cfg).rely s s') : ToReward status s' := by
  refine (booksCtx cfg).rely_lift (R := fun a b => ToReward status a → ToReward status b)
    (fun _ h => h) (fun h1 h2 h => h2 (h1 h)) ?_ hi hr h
  rintro a b - ⟨i, -, hs⟩ ha
  have hread : b.ghost.readOutcome = a.ghost.readOutcome :=
    congrArg Owned.readOutcome (slotStep_owned hs)
  constructor
  · rw [StatusRead, hread]
    exact ha.read
  · rw [rewarded_slotStep hs, hread]
    exact ha.booked.recorded (slotStep_recorded hs)

theorem RewardBooks.credit {status : Nat} (hi : RewardBooks cfg s) (h : ToReward status s)
    (rand : Nat) : RewardBooks cfg (s.creditAction rand (rewardOf status)) := by
  refine ⟨⟨holds_rewardOutline_congr hi.slot rfl (.inl rfl) rfl rfl rfl, ?_⟩, ?_⟩
  · intro c hc hrew
    rcases List.mem_append.mp hc with hc | hc
    · exact hi.credits c hc hrew
    · cases List.mem_singleton.mp hc
      refine h.read ?_
      by_contra hne
      simp [rewardOf, hne, rewardSucces, rewardFailure] at hrew
  · have hnew : rewarded (s.creditAction rand (rewardOf status)) =
        rewarded s ++ s.ghost.readOutcome.toList := by
      show List.filterMap Credit.outcome (s.ghost.credits ++ [_]) = _
      rw [List.filterMap_append]
      cases s.ghost.readOutcome <;> rfl
    rw [hnew]
    exact h.booked

theorem books_settleReward (d : Draws) (hi : RewardBooks cfg s) :
    Wp (booksCtx cfg) (settleReward d) (fun _ _ => True) s := by
  refine Wp.bind (Wp.update hi fun u _ hu _ => ?_)
  have hreset : RewardBooks cfg u.getAndResetTxSlotStatus.2 :=
    ⟨⟨holds_rewardOutline_congr hu.slot rfl (.inr rfl) rfl rfl rfl, hu.credits⟩, hu.booked.sublist⟩
  refine ⟨hreset, ?_⟩
  split
  · rename_i hstatus
    have hread : ToReward u.getAndResetTxSlotStatus.1 u.getAndResetTxSlotStatus.2 :=
      ⟨holds_statusEarned hu.slot, hu.booked.read hstatus⟩
    exact Wp.modify hreset fun v hrel hv _ => ⟨hv.credit (hread.rely hreset hrel) d.update, trivial⟩
  · exact Wp.ret trivial

theorem books_schedulerRound (fuel : Nat) (d : Draws) (hi : RewardBooks cfg s) :
    Wp (booksCtx cfg) (schedulerRound cfg fuel d) (fun _ _ => True) s := by
  have hrecord : ∀ {t t' : TschState}, RewardBooks cfg t → t'.slot = t.slot →
      t'.ghost = { t.ghost with pendingAction := t'.ghost.pendingAction } → RewardBooks cfg t' := by
    intro t t' ht hslot hghost
    refine ⟨⟨?_, ?_⟩, ?_⟩
    · exact holds_rewardOutline_congr ht.slot (by rw [hslot]) (.inl (by rw [hslot]))
        (by rw [hghost]) (by rw [hghost]) (by rw [hghost])
    · rw [CreditsEarned, hghost]
      exact ht.credits
    · rw [rewarded, hslot, hghost]
      exact ht.booked
  refine Wp.call (books_client (LockClient.tschGetLock.spinUntil fuel) hi) hi fun _ t ht _ => ?_
  have hchoose : Wp (booksCtx cfg) (settleAndChoose cfg d) (fun _ _ => True) t :=
    Wp.call (books_settleReward d ht) ht fun _ u hu _ => Wp.update hu fun v _ hv _ =>
      ⟨hrecord hv rfl rfl, trivial⟩
  refine Wp.call hchoose ht fun action u hu _ => ?_
  refine Wp.call (books_client .tschReleaseLock hu) hu fun _ v hv _ => ?_
  have hsetup : LockClient KeepsRecord (setUpNewSchedule cfg action) :=
    queueWrites_keepsRecord.toSchedWrites.setUpNewSchedule
      (fun _ _ _ _ _ _ _ _ => ⟨rfl, rfl, rfl⟩) (fun _ _ _ => ⟨rfl, rfl, rfl⟩)
      (fun _ _ => ⟨rfl, rfl, rfl⟩) action
  refine Wp.call (books_client hsetup hv) hv fun _ w hw _ => ?_
  refine Wp.bind (Wp.waitFor hw fun x _ hx => ⟨fun hl => hl.elim, fun _ => ?_⟩)
  exact Wp.modify hx fun y _ hy _ => ⟨hrecord hy rfl rfl, trivial⟩

theorem books_nodeCall (fuel : Nat) (c : NodeCall) (hi : RewardBooks cfg s) :
    Wp (booksCtx cfg) (c.perform cfg fuel) (fun _ _ => True) s := by
  cases c with
  | schedulerRound d => exact books_schedulerRound fuel d hi
  | call c => exact books_client (NodeCall.keepsRecord fuel (c := .call c) id) hi
  | customResetAllBackoffExponents =>
      exact books_client (NodeCall.keepsRecord fuel (c := .customResetAllBackoffExponents) id) hi
  | takeDequeued => exact books_client (NodeCall.keepsRecord fuel (c := .takeDequeued) id) hi
  | initTschSchedule => exact books_client (NodeCall.keepsRecord fuel (c := .initTschSchedule) id) hi

end

/-! ## The successes and the packets -/

/-- A unicast that counts as a success. -/
def TxOutcome.confirmed (o : TxOutcome) : Bool := o.unicast && decide (o.status = .ok)

/-- What a process leaves to the slot operation of what is recorded of a transmission. -/
structure KeepsOutcomes (s s' : TschState) : Prop where
  transStatus : s'.slot.transStatus = s.slot.transStatus ∨ s'.slot.transStatus = 0
  outcomes : s'.ghost.outcomes = s.ghost.outcomes
  frameTransmitted : s'.ghost.frameTransmitted = s.ghost.frameTransmitted
  frameUnicast : s'.ghost.frameUnicast = s.ghost.frameUnicast

theorem KeepsOutcomes.of_record {s s' : TschState} (h : KeepsRecord s s') : KeepsOutcomes s s' :=
  ⟨.inl (by rw [h.slot]), by rw [h.ghost], by rw [h.ghost], by rw [h.ghost]⟩

theorem guar_keepsOutcomes {cfg : Config} (fuel : Nat) (c : NodeCall) :
    (c.perform cfg fuel).Guar KeepsOutcomes := by
  have hsame : ∀ {s s' : TschState}, s'.slot = s.slot → s'.ghost.outcomes = s.ghost.outcomes →
      s'.ghost.frameTransmitted = s.ghost.frameTransmitted →
      s'.ghost.frameUnicast = s.ghost.frameUnicast → KeepsOutcomes s s' :=
    fun hs ho ht hu => ⟨.inl (by rw [hs]), ho, ht, hu⟩
  have hclient : LockClient KeepsOutcomes (c.perform cfg fuel) := by
    by_cases hc : c.IsRound
    · cases c with
      | schedulerRound d =>
          have W : SchedWrites cfg KeepsOutcomes :=
            queueWrites_keepsRecord.toSchedWrites.mono fun _ _ => .of_record
          exact W.schedulerRound (fun _ _ _ _ _ _ _ _ => hsame rfl rfl rfl rfl)
            (fun _ _ _ => hsame rfl rfl rfl rfl) (fun _ _ => hsame rfl rfl rfl rfl)
            (fun _ => ⟨.inr rfl, rfl, rfl, rfl⟩) (fun _ _ _ => hsame rfl rfl rfl rfl)
            (fun _ _ => hsame rfl rfl rfl rfl) (fun _ _ => hsame rfl rfl rfl rfl) fuel d
      | _ => exact hc.elim
    · exact (c.keepsRecord fuel hc).mono fun _ _ => .of_record
  exact hclient.guar (fun _ _ h => h) (fun _ => hsame rfl rfl rfl rfl)
    (fun _ _ => hsame rfl rfl rfl rfl) fun _ _ => hsame rfl rfl rfl rfl

/-- Each recorded success of a unicast is that of a packet of its own, which a real neighbor
has acknowledged. -/
structure Backed {ι : Type} (cfg : Config) (h : List (AirEvent ι)) (s : TschState) : Prop where
  sender : SenderInv cfg h s
  frame : (rewardOutline cfg).Holds s
  packets : ∃ us : List Nat, us.Nodup ∧ us.length = s.ghost.outcomes.countP TxOutcome.confirmed ∧
    ∀ u ∈ us, ∃ m, cfg.isVirtual m = false ∧ .attempt m u .ok ∈ queueLog h

section
variable {ι : Type} {cfg : Config} {h : List (AirEvent ι)} {s s' : TschState}

theorem Backed.act (hi : PacketsHeld s) (hb : Backed cfg h s) (hp : ProcessStep cfg s s')
    (hk : KeepsOutcomes s s') : Backed cfg (h ++ processEvents s s') s' := by
  obtain ⟨⟨ha, hl⟩, hv⟩ := hp
  obtain ⟨us, hnodup, hlen, hus⟩ := hb.packets
  refine ⟨hb.sender.act hi ha hl hv, ?_, us, hnodup, hk.outcomes ▸ hlen, fun u hu => ?_⟩
  · exact holds_rewardOutline_congr hb.frame (by rw [hl.slot]) hk.transStatus hk.outcomes
      hk.frameTransmitted hk.frameUnicast
  · obtain ⟨m, hm, hok⟩ := hus u hu
    rw [queueLog_append]
    exact ⟨m, hm, List.mem_append_left _ hok⟩

/-- A success of a unicast is recorded at the end of the wait for its acknowledgement. -/
theorem Backed.acknowledged {i : SlotInput} (hb : Backed cfg h s) {o : TxOutcome}
    (hgood : GoodEnd cfg i s o) (hu : o.unicast = true) :
    ∃ loc, s.slot.pc = .txBeforeAck loc ∧ ackAccepted cfg i = true := by
  rcases hgood with ⟨loc, hpc, hwait, huni⟩ | hack
  · exfalso
    have hframe := hb.frame
    simp only [SlotOutline.Holds, hpc, rewardOutline] at hframe
    have hsame := hframe.unicast
    rw [hwait, ← huni, hu] at hsame
    cases hsame
  · exact hack

/-- The packet that is acknowledged has not been acknowledged before. -/
theorem SenderInv.newPacket (hi : PacketsHeld s) (hI : SenderInv cfg h s) {loc : TxLocals}
    (hpc : s.slot.pc = .txBeforeAck loc) {f : AirFrame} (hf : airFrame loc s = some f) (m : LinkAddr) :
    .attempt m f.uid .ok ∉ queueLog h := by
  obtain ⟨p, rest, -, -, hq, huid, -⟩ := airFrame_head hi (by rw [hpc]; rfl) hf
  have hfailed := (hI.fifo.pending f.neighbor p (by rw [hq]; exact List.mem_cons_self)).failed
  intro hok
  refine hfailed ?_
  have hsame : (s.kept.packets p).uid = f.uid := huid.symm
  rw [hsame]
  exact List.mem_filterMap.mpr ⟨_, hok, if_pos rfl⟩

end

theorem Backed.slot {ι : Type} [DecidableEq ι] {cfg : ι → Config} {log : List (ι × AirEvent ι)}
    {n : ι} {i : AirInput ι} {s s' : TschState} {es : List (AirEvent ι)} (hi : PacketsHeld s)
    (hi' : PacketsHeld s') (hread : i.slot.ReadOk) (hb : Backed (cfg n) (eventsOf n log) s)
    (hm : airMove cfg n log i s = some (es, s')) : Backed (cfg n) (eventsOf n log ++ es) s' := by
  obtain ⟨hs, as, has, hes⟩ := airMove_spec hm
  obtain ⟨us, hnodup, hlen, hus⟩ := hb.packets
  have hold : ∀ u ∈ us, ∃ m, (cfg n).isVirtual m = false ∧
      .attempt m u .ok ∈ queueLog (eventsOf n log ++ es) := by
    intro u hu
    obtain ⟨m, hvirtual, hok⟩ := hus u hu
    rw [queueLog_append]
    exact ⟨m, hvirtual, List.mem_append_left _ hok⟩
  refine ⟨hb.sender.slot hi hi' hm, (rewardOutline (cfg n)).step hb.frame (fun _ => trivial)
    (absurd hread) hs, ?_⟩
  rcases slotStep_recorded hs with hsame | ⟨o, hout, -, hgood⟩
  · exact ⟨us, hnodup, by rw [hsame.outcomes, hlen], hold⟩
  · have hcount : s'.ghost.outcomes.countP TxOutcome.confirmed =
        us.length + if o.confirmed then 1 else 0 := by
      rw [hout, List.countP_append, List.countP_singleton, hlen]
    by_cases ho : o.confirmed = true
    · -- one packet more
      rw [TxOutcome.confirmed, Bool.and_eq_true, decide_eq_true_eq] at ho
      obtain ⟨loc, hpc, hack⟩ := hb.acknowledged (hgood ho.2) ho.1
      obtain ⟨hwait, f, hf, -⟩ := hb.sender.waiting loc hpc
      have hattempt := slotStep_txBeforeAck hi hs hpc hf
      rw [if_pos hack] at hattempt
      have hreal : (cfg n).isVirtual f.neighbor = false := by
        obtain ⟨p, rest, -, hn, -⟩ := SenderInv.airFrame_head hi (by rw [hpc]; rfl) hf
        have hlocals := hb.sender.locals
        simp only [SlotOutline.Holds, hpc, localsOutline, LocalsKnown] at hlocals
        obtain ⟨n', hn', hknown⟩ := hlocals
        cases hn'.symm.trans hn
        rw [hwait] at hknown
        simpa using hknown
      refine ⟨us ++ [f.uid], ?_, ?_, fun u hu => ?_⟩
      · refine List.nodup_append.mpr ⟨hnodup, List.nodup_singleton _, ?_⟩
        rintro u hu v hv rfl
        cases List.mem_singleton.mp hv
        obtain ⟨m, -, hok⟩ := hus _ hu
        exact hb.sender.newPacket hi hpc hf m hok
      · have hyes : o.confirmed = true := by
          rw [TxOutcome.confirmed, ho.1, ho.2]
          rfl
        rw [hcount, if_pos hyes, List.length_append]
        rfl
      · rcases List.mem_append.mp hu with hu | hu
        · exact hold u hu
        · cases List.mem_singleton.mp hu
          refine ⟨f.neighbor, hreal, ?_⟩
          rw [queueLog_append, hes, queueLog_append, queueLog_queue, hattempt]
          exact List.mem_append_right _ (List.mem_append_right _ List.mem_cons_self)
    · refine ⟨us, hnodup, ?_, hold⟩
      rw [hcount, if_neg ho, Nat.add_zero]

/-! ## Rewards and deliveries -/

/-- A node that has recorded nothing yet. -/
structure NothingRecorded (s : TschState) : Prop where
  credits : s.ghost.credits = []
  outcomes : s.ghost.outcomes = []
  transStatus : s.slot.transStatus = 0

/-- How often `reward_succes` was applied for a unicast. -/
def confirmedRewards (s : TschState) : Nat :=
  s.ghost.credits.countP fun c => decide (c.reward = rewardSucces) && c.outcome.any TxOutcome.unicast

theorem RewardBooks.confirmedRewards_le {cfg : Config} {s : TschState} (h : RewardBooks cfg s) :
    confirmedRewards s ≤ s.ghost.outcomes.countP TxOutcome.confirmed :=
  calc confirmedRewards s
      ≤ (rewarded s).countP TxOutcome.confirmed := by
        rw [rewarded, List.countP_filterMap]
        refine List.countP_mono_left fun c hc hyes => ?_
        rw [Bool.and_eq_true, decide_eq_true_eq] at hyes
        obtain ⟨o, ho, hd⟩ := h.credits c hc hyes.1
        have huni : o.unicast = true := by simpa [ho] using hyes.2
        simp [ho, TxOutcome.confirmed, huni, hd.ok]
    _ ≤ s.ghost.outcomes.countP TxOutcome.confirmed := h.booked.sublist.countP_le

section
variable {ι : Type} [DecidableEq ι] {cfg : ι → Config} {T : TschNetwork cfg}
  {log : List (ι × AirEvent ι)} {N : ι → Prog TschState Unit × TschState}

theorem rewardBooks_runs (hr : T.Runs log N) {n : ι} (hread : ∀ i, T.driver n i → i.ReadOk)
    (hnew : NothingRecorded (T.state n)) :
    RewardBooks (cfg n) (N n).2 := by
  have hstart : RewardBooks (cfg n) (T.state n) := by
    refine ⟨⟨?_, ?_⟩, ?_⟩
    · simp only [SlotOutline.Holds, (T.start n).asleep]
      intro h1
      rw [hnew.transStatus] at h1
      cases h1
    · simp [CreditsEarned, hnew.credits]
    · rw [rewarded, hnew.credits]
      exact List.nil_sublist _
  have hwp : Wp (booksCtx (cfg n)) (T.boot n).1 (fun _ _ => True) (T.state n) :=
    Wp.forEach (J := fun _ _ => True) (fun c _ _ hi _ => books_nodeCall (T.fuel n) c hi) (T.calls n)
      hstart trivial
  have hw := Wpg.of_guar hwp (guar_leavesSlot (T.fuel n) (T.calls n))
  have hboot : T.boot n = ((T.boot n).1, T.state n) := rfl
  refine (NetHistory.of_wpg (R := fun _ _ => True) hboot ?_ (fun _ _ => trivial) hstart hw trivial
    (fun _ _ _ _ _ _ _ => trivial) (fun _ _ _ _ _ _ _ _ => trivial) hr).1
  rintro log es s s' ⟨i, hd, hm⟩
  exact ⟨i.slot, hread _ hd, (airMove_spec hm).1⟩

theorem backed_runs (hr : T.Runs log N) {n : ι} (hread : ∀ i, T.driver n i → i.ReadOk)
    (hnew : NothingRecorded (T.state n)) :
    Backed (cfg n) (eventsOf n log) (N n).2 := by
  have hkeeps : (T.boot n).1.Guar KeepsOutcomes :=
    Guar.forEach (guar_keepsOutcomes (T.fuel n)) (T.calls n)
  refine (hr.invariant_of n hkeeps (R := Backed (cfg n)) ?_ ?_ ?_).2
  · refine ⟨SenderInv.start (T.start n), ?_, [], List.nodup_nil, ?_, fun u hu => (by cases hu)⟩
    · simp only [SlotOutline.Holds, (T.start n).asleep]
      intro h1
      rw [hnew.transStatus] at h1
      cases h1
    · rw [hnew.outcomes]
      rfl
  · intro h s s' hi hb hp hk
    exact hb.act hi hp hk
  · intro log i es s s' hi hi' hb hd hm
    exact hb.slot hi hi' (hread _ hd) hm

/-- **A reward is backed by a delivery.**  The radio driver of the node never returns a
negative length.  Then as often as the node has applied `reward_succes` for a unicast, so many
packets of it, all different, went out in a frame that a node with the address of the neighbor
has acknowledged and put into its input ring. -/
theorem rewards_backed (hr : T.Runs log N) {n : ι} (hread : ∀ i, T.driver n i → i.ReadOk)
    (hnew : NothingRecorded (T.state n)) :
    ∃ ks : List Nat, confirmedRewards (N n).2 ≤ ks.length ∧
      (ks.map fun k => (sentLog (eventsOf n log))[k]?.map AirFrame.uid).Nodup ∧
      ∀ k ∈ ks, ∃ r f, (sentLog (eventsOf n log))[k]? = some f ∧ f.unicast = true ∧
        ArrivedAt cfg r n k f.neighbor log := by
  have hbacked := backed_runs hr hread hnew
  obtain ⟨us, hnodup, hlen, hus⟩ := hbacked.packets
  have hanswer : ∀ u ∈ us, ∃ k r f, f.uid = u ∧ (sentLog (eventsOf n log))[k]? = some f ∧
      f.unicast = true ∧ ArrivedAt cfg r n k f.neighbor log := by
    intro u hu
    obtain ⟨m, hreal, hok⟩ := hus u hu
    obtain ⟨k, f, hf, hm, huid, hack⟩ := answered_runs hr hread m u hok
    have hframe := hbacked.sender.frames f (List.mem_of_getElem? hf)
    have hunicast : f.unicast = true := by rw [hframe.unicast, hm, hreal, Bool.not_false]
    obtain ⟨r, hacked⟩ := hack hunicast
    exact ⟨k, r, f, huid, hf, hunicast, arrivedAt_of_acked hr hf hunicast hacked⟩
  choose! g hg using hanswer
  refine ⟨us.map g, ?_, ?_, fun k hk => ?_⟩
  · rw [List.length_map, hlen]
    exact (rewardBooks_runs hr hread hnew).confirmedRewards_le
  · have huids : ((us.map g).map fun k => (sentLog (eventsOf n log))[k]?.map AirFrame.uid) =
        us.map some := by
      rw [List.map_map]
      refine List.map_congr_left fun u hu => ?_
      obtain ⟨r, f, huid, hf, -⟩ := hg u hu
      show (sentLog (eventsOf n log))[g u]?.map AirFrame.uid = some u
      rw [hf, Option.map_some, huid]
    rw [huids]
    exact hnodup.map (Option.some_injective Nat)
  · obtain ⟨u, hu, rfl⟩ := List.mem_map.mp hk
    obtain ⟨r, f, -, hrest⟩ := hg u hu
    exact ⟨r, f, hrest⟩

end

/-! ### Two nodes -/

/-- As in `pairNode`, with the link in the slotframe whose transmissions are rewarded. -/
def gradedNode (n : Bool) : TschState :=
  { pairNode n with
    sched := { (pairNode n).sched with
      links := fun _ => ⟨0, 2, 1, 0, 0, ⟨!n, n, false, false⟩, .normal, 0⟩ } }

theorem start_gradedNode (n : Bool) : NodeStart (pairBuild n) (gradedNode n) where
  free := rfl
  settled := ⟨rfl, rfl⟩
  flags := ⟨(start_pairNode n).flags.1, fun h => by cases h⟩
  notTx := rfl
  balanced := (start_pairNode n).balanced
  empty _ := rfl
  virtual := VirtualOk.boot.of_same rfl
  asleep := rfl

/-- Node `1` has one packet for node `2`, and its scheduler goes one round. -/
def gradedNetwork : TschNetwork pairBuild where
  state := gradedNode
  driver _ i := i.ReadOk
  calls n := if n then [] else [.call (.addPacket 2 3 0 0 true), .schedulerRound ⟨0, 0, 0⟩]
  fuel _ := 1
  start := start_gradedNode
  noFlush n c hc := by
    cases n with
    | true => cases hc
    | false =>
        rcases List.mem_cons.mp hc with rfl | hc
        · exact (by decide : 3 < 256)
        · cases List.mem_singleton.mp hc
          trivial

theorem rewards_backed_once : ∃ log N, gradedNetwork.Runs log N ∧
    confirmedRewards (N false).2 = 1 ∧
    ∃ ks : List Nat, confirmedRewards (N false).2 ≤ ks.length ∧
      (ks.map fun k => (sentLog (eventsOf false log))[k]?.map AirFrame.uid).Nodup ∧
      ∀ k ∈ ks, ∃ r f, (sentLog (eventsOf false log))[k]? = some f ∧ f.unicast = true ∧
        ArrivedAt pairBuild r false k f.neighbor log := by
  obtain ⟨log, N, hr, hc⟩ := exists_netHistory airMoveReadOk processEvents gradedNetwork.boot
    (AirStep pairBuild fun _ i => i.ReadOk) (fun _ _ _ _ _ _ => airStep_of_readOk)
    (List.replicate 15 (false, none) ++
      [(false, some ⟨.quiet 0, false, 0⟩), (true, some ⟨.quiet 0, false, 0⟩)] ++
      pairSlot 0 328 true ++ List.replicate 10 (false, none))
    (fun r => decide (confirmedRewards (r.2 false).2 = 1)) (by decide +kernel)
  have hnew : NothingRecorded (gradedNetwork.state false) := ⟨rfl, rfl, rfl⟩
  exact ⟨log, N, hr, of_decide_eq_true hc, rewards_backed hr (fun _ hread => hread) hnew⟩

end QlTsch
