/-
# `QlTsch.AckedReward` — what a success reward stands for

Between the choice of a packet and `trans_status = 1` lie the choice of the
queue, the radio, the wait for an acknowledgement and its parser.  Along all of
them, and whatever else happens to the queues and the schedule meanwhile:

* `trans_status` is `1` only if the transmission it records was reported as sent
  by the radio and, *if the frame was a unicast*, a valid acknowledgement for it
  was read;
* `scheduler_process` applies `reward_succes` only for such a transmission.

The code takes every nonzero result of `NETSTACK_RADIO.read` for an acknowledgement, but
parses only a positive one: the radio driver has to keep to `SlotInput.ReadOk`.

A broadcast frame is not acknowledged (`do_wait_for_ack = !is_broadcast`), and a
link of the unicast slotframe carries broadcast frames too: the QL-TSCH links
have the broadcast address, so their packets come from the broadcast queue
first.  `broadcast_counts_as_success` is such a run.
-/
import QlTsch.ProcessFrame
import QlTsch.SlotFrame

namespace QlTsch

open Interleave Interleave.Prog

variable {cfg : Config}

/-- A transmission that counts as a success, with the evidence for it. -/
structure Delivered (o : TxOutcome) : Prop where
  ok : o.status = .ok
  transmitted : o.transmitted = true
  acknowledged : o.unicast = true → o.acknowledged = true

/-! ## The slot operation -/

/-- A status of success records a delivery. -/
def StatusEarned (s : TschState) : Prop :=
  s.slot.transStatus = 1 → ∃ o, s.ghost.outcomes.getLast? = some o ∧ Delivered o

theorem statusEarned_congr {s s' : TschState} (ht : s'.slot.transStatus = s.slot.transStatus)
    (ho : s'.ghost.outcomes = s.ghost.outcomes) (h : StatusEarned s) : StatusEarned s' := by
  intro h1
  rw [ho]
  exact h (ht ▸ h1)

theorem statusEarned_chooseLink (l : Nat) {s : TschState} (h : StatusEarned s) :
    StatusEarned (chooseLink cfg l s) := by
  simp only [chooseLink]
  split
  · exact h
  · obtain ⟨w, hw⟩ := updateLinkBackoff_spec cfg (some l) (getCurrentPacket l s)
    rw [hw]
    exact h

theorem statusEarned_setChannel (l : Nat) {s : TschState} (h : StatusEarned s) :
    StatusEarned (setChannel cfg l s) := by
  obtain ⟨b, o, c, hc⟩ := setChannel_spec cfg l s
  rw [hc]
  exact h

theorem statusEarned_finishTx {n : LinkAddr} {p l rand : Nat} {st : MacStatus} {s : TschState}
    (h : StatusEarned s)
    (hok : st = .ok → s.ghost.frameTransmitted = true ∧
      (s.ghost.frameUnicast = true → s.ghost.frameAcknowledged = true)) :
    StatusEarned (finishTx cfg n p l st rand s) := by
  have hrec : StatusEarned (recordOutcome p l st s) := by
    simp only [recordOutcome]
    split
    · -- a link of slotframe 1: the new status is of the new outcome
      intro h1
      have hst : st = .ok := by
        by_contra hne
        simp [hne] at h1
      exact ⟨_, List.getLast?_concat, hst, (hok hst).1, (hok hst).2⟩
    · exact h
  obtain ⟨q, d, hq⟩ := finishTx_spec cfg n p l st rand s
  rw [hq]
  exact hrec

/-- In a transmit slot: what the locals say about the frame. -/
structure FrameKnown (b : Bool) (loc : TxLocals) (s : TschState) : Prop where
  status : StatusEarned s
  sent : b = true → s.ghost.frameTransmitted = true
  unicast : loc.doWaitForAck = s.ghost.frameUnicast

def rewardOutline (cfg : Config) : SlotOutline cfg where
  misread := False
  asleep := StatusEarned
  starting := StatusEarned
  sending := FrameKnown
  listening := StatusEarned
  receiving := StatusEarned
  ending := StatusEarned
  chosen := StatusEarned
  leave h _ := h
  skip h _ _ _ := h
  startTx h _ _ _ _ _ := statusEarned_setChannel _ (statusEarned_chooseLink _ h)
  startRx h _ _ _ _ := statusEarned_setChannel _ (statusEarned_chooseLink _ h)
  startIdle h _ _ _ := statusEarned_chooseLink _ h
  full h := h
  frame h _ _ := ⟨h, fun hb => absurd hb (by simp), rfl⟩
  framePending _ h := ⟨h.1, h.2, h.3⟩
  sendingPc _ h := ⟨h.1, h.2, h.3⟩
  transmit _ h := ⟨h.1, fun hb => hb, h.3⟩
  acknowledge _ h := ⟨h.1, h.2, h.3⟩
  syncFromAck _ _ h := ⟨h.1, h.2, h.3⟩
  requestBurst h := ⟨h.1, h.2, h.3⟩
  finish st rand h _ _ _ hok := by
    refine statusEarned_finishTx h.status fun hst => ⟨h.sent (hok hst).1, fun hu => ?_⟩
    exact ((hok hst).2 (h.unicast.trans hu)).resolve_right id
  listeningPc _ h := h
  deaf h := h
  receive h := h
  receiveBurst _ h := h
  syncFromFrame _ _ h := h
  deliver {s l} _ h _ := by
    obtain ⟨t, ht⟩ := countReception_spec l s
    rw [ht]
    exact h
  keepTime _ h := h
  again h := h
  disassociate h := h
  backoff l h := by
    obtain ⟨w, hw⟩ := updateLinkBackoff_spec cfg l _
    rw [hw]
    exact h
  replay h _ _ := h
  select h _ := h
  advance _ _ h := h
  armTimer _ h := h
  sleep h := h

/-! ## The environment, and the invariant -/

/-- Interrupts of a node whose radio driver does what the code expects of it, and anything
at all that may happen to the queues and to the schedule. -/
def AnyTraffic (cfg : Config) (s s' : TschState) : Prop :=
  (∃ i : SlotInput, i.ReadOk ∧ slotStep cfg i s = some s') ∨
    ∃ q v, s' = { s with queue := q, sched := v }

/-- A reward of success has been earned. -/
def CreditsEarned (s : TschState) : Prop :=
  ∀ c ∈ s.ghost.credits, c.reward = rewardSucces → ∃ o, c.outcome = some o ∧ Delivered o

structure RewardInv (cfg : Config) (s : TschState) : Prop where
  slot : (rewardOutline cfg).Holds s
  credits : CreditsEarned s

theorem holds_rewardOutline_congr {s s' : TschState} (h : (rewardOutline cfg).Holds s)
    (hpc : s'.slot.pc = s.slot.pc)
    (ht : s'.slot.transStatus = s.slot.transStatus ∨ s'.slot.transStatus = 0)
    (ho : s'.ghost.outcomes = s.ghost.outcomes)
    (hf : s'.ghost.frameTransmitted = s.ghost.frameTransmitted)
    (hu : s'.ghost.frameUnicast = s.ghost.frameUnicast) : (rewardOutline cfg).Holds s' := by
  have hstatus : StatusEarned s → StatusEarned s' := by
    intro hs h1
    rcases ht with ht | ht
    · exact statusEarned_congr ht ho hs h1
    · rw [ht] at h1
      exact absurd h1 (by decide)
  have hframe : ∀ b loc, FrameKnown b loc s → FrameKnown b loc s' := fun b loc hk =>
    ⟨hstatus hk.1, fun hb => hf.trans (hk.2 hb), hk.3.trans hu.symm⟩
  simp only [SlotOutline.Holds, hpc] at h ⊢
  split at h
  · exact hstatus h
  · exact hframe _ _ h
  · exact hframe _ _ h
  · exact hframe _ _ h
  · exact hstatus h
  · exact hstatus h

theorem RewardInv.traffic {s s' : TschState} (h : RewardInv cfg s) (hs : AnyTraffic cfg s s') :
    RewardInv cfg s' := by
  rcases hs with ⟨i, hread, hi⟩ | ⟨q, v, rfl⟩
  · refine ⟨(rewardOutline cfg).step h.slot (fun _ => trivial) (absurd hread) hi, ?_⟩
    have hcred : s'.ghost.credits = s.ghost.credits := congrArg Owned.credits (slotStep_owned hi)
    simp only [CreditsEarned, hcred]
    exact h.credits
  · exact ⟨holds_rewardOutline_congr h.slot rfl (.inl rfl) rfl rfl rfl, h.credits⟩

/-- The context of the proof: partial correctness under any traffic. -/
def rewardCtx (cfg : Config) : Ctx TschState where
  irq := AnyTraffic cfg
  cond _ _ := True
  inv := RewardInv cfg
  live := False
  stable _ _ := RewardInv.traffic

theorem RewardInv.sched {s s' : TschState} (h : RewardInv cfg s) (hg : SchedGuar s s') :
    RewardInv cfg s' := by
  obtain ⟨hslot, hghost⟩ := hg
  constructor
  · rcases hslot with hslot | hslot <;>
      exact holds_rewardOutline_congr h.slot (by rw [hslot]) (.inl (by rw [hslot]))
        (by rw [hghost]) (by rw [hghost]) (by rw [hghost])
  · have hcred : s'.ghost.credits = s.ghost.credits := by rw [hghost]
    simp only [CreditsEarned, hcred]
    exact h.credits

theorem wp_of_client {α : Type} {p : Prog TschState α} (hp : LockClient SchedAct p)
    {s : TschState} (hi : RewardInv cfg s) : Wp (rewardCtx cfg) p (fun _ _ => True) s :=
  Wp.of_guar_inv (by exact id) (fun _ _ h hg _ => RewardInv.sched h hg) hp.schedGuar hi

/-! ## A round of the scheduler -/

/-- The status read is the status of the outcome that was read with it. -/
def StatusRead (status : Nat) (s : TschState) : Prop :=
  status = 1 → ∃ o, s.ghost.readOutcome = some o ∧ Delivered o

theorem StatusRead.rely {status : Nat} {s s' : TschState} (hi : RewardInv cfg s)
    (h : StatusRead status s) (hr : (rewardCtx cfg).rely s s') : StatusRead status s' := by
  have hread : s'.ghost.readOutcome = s.ghost.readOutcome :=
    (rewardCtx cfg).rely_lift (R := fun a b => b.ghost.readOutcome = a.ghost.readOutcome)
      (fun _ => rfl) (fun h1 h2 => h2.trans h1) (fun _ hs => by
        rcases hs with ⟨i, -, hi⟩ | ⟨q, v, rfl⟩
        · exact congrArg Owned.readOutcome (slotStep_owned hi)
        · rfl) hi hr
  simp only [StatusRead, hread]
  exact h

theorem holds_statusEarned {s : TschState} (h : (rewardOutline cfg).Holds s) : StatusEarned s := by
  simp only [SlotOutline.Holds, rewardOutline] at h
  split at h
  · exact h
  · exact h.status
  · exact h.status
  · exact h.status
  · exact h
  · exact h

theorem wp_settleReward (d : Draws) {s : TschState} (hi : RewardInv cfg s) :
    Wp (rewardCtx cfg) (settleReward d) (fun _ _ => True) s := by
  refine Wp.bind (Wp.update hi fun u _ hu _ => ?_)
  have hreset : RewardInv cfg u.getAndResetTxSlotStatus.2 :=
    ⟨holds_rewardOutline_congr hu.slot rfl (.inr rfl) rfl rfl rfl, hu.credits⟩
  have hread : StatusRead u.getAndResetTxSlotStatus.1 u.getAndResetTxSlotStatus.2 :=
    holds_statusEarned hu.slot
  refine ⟨hreset, ?_⟩
  split
  · refine Wp.modify hreset fun v hrel hv _ => ⟨?_, trivial⟩
    refine ⟨holds_rewardOutline_congr hv.slot rfl (.inl rfl) rfl rfl rfl, ?_⟩
    intro c hc hrew
    rcases List.mem_append.mp hc with hc | hc
    · exact hv.credits c hc hrew
    · -- the new credit
      rw [List.mem_singleton] at hc
      subst hc
      refine hread.rely hreset hrel ?_
      by_contra hne
      simp [rewardOf, hne, rewardSucces, rewardFailure] at hrew
  · exact Wp.ret trivial

theorem wp_schedulerRound (fuel : Nat) (d : Draws) {s : TschState} (hi : RewardInv cfg s) :
    Wp (rewardCtx cfg) (schedulerRound cfg fuel d) (fun _ _ => True) s := by
  refine Wp.call (wp_of_client (LockClient.tschGetLock.spinUntil fuel) hi) hi
    fun _ t ht _ => ?_
  have hchoose : Wp (rewardCtx cfg) (settleAndChoose cfg d) (fun _ _ => True) t :=
    Wp.call (wp_settleReward d ht) ht fun _ u hu _ => Wp.update hu fun v _ hv _ =>
      ⟨⟨holds_rewardOutline_congr hv.slot rfl (.inl rfl) rfl rfl rfl, hv.credits⟩, trivial⟩
  refine Wp.call hchoose ht fun action u hu _ => ?_
  refine Wp.call (wp_of_client .tschReleaseLock hu) hu fun _ v hv _ => ?_
  refine Wp.call (wp_of_client (client_setUpNewSchedule action) hv) hv fun _ w hw _ => ?_
  refine Wp.bind (Wp.waitFor hw fun x _ hx => ⟨fun hl => hl.elim, fun _ => ?_⟩)
  exact Wp.modify hx fun y _ hy _ =>
    ⟨⟨holds_rewardOutline_congr hy.slot rfl (.inl rfl) rfl rfl rfl, hy.credits⟩, trivial⟩

end QlTsch
