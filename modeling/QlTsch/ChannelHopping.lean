/-
# `QlTsch.ChannelHopping` — the channel of a slot

A slot on a link from the schedule hops: its channel is the entry of the hopping
sequence at ASN plus channel offset.  A slot that repeats the link of a burst
keeps the channel.  Which of the two a slot does is decided by
`burst_link_scheduled`, a flag that the previous slot left behind, while which
link it runs on is decided by `current_link`; the law holds as long as the two
agree (`BurstAgrees`).

They agree at the end of every slot, because the flag is followed only together
with a link.  They come apart when a process removes the link of a burst: then
`current_link` is NULL, the flag stays, and the next slot from the schedule takes
the flag for its own.

* `hopping_law`: the law, in every run in which no process step sets
  `current_link` to NULL while `burst_link_scheduled` is set.
* `stale_burst_keeps_channel`: a run with such a step.
-/
import QlTsch.ProcessFrame
import QlTsch.SlotFrame
import QlTsch.LockRules

namespace QlTsch

open Interleave Interleave.Prog

variable {cfg : Config}

/-! ## Flag and link -/

/-- Between slots: the burst flag is set exactly when `current_link` was kept
for the burst, and then it has no backup. -/
structure BurstAgrees (s : TschState) : Prop where
  kept : s.slot.burstLinkScheduled = true →
    s.slot.currentLink.isSome = true ∧ s.ghost.fromSchedule = false
  flagged : s.slot.currentLink.isSome = true → s.ghost.fromSchedule = false →
    s.slot.burstLinkScheduled = true ∧ s.slot.backupLink = none

variable (cfg) in
theorem chooseLink_burst (l : Nat) (s : TschState) :
    (chooseLink cfg l s).slot.burstLinkScheduled = s.slot.burstLinkScheduled ∧
      (chooseLink cfg l s).slot.tschCurrentAsn = s.slot.tschCurrentAsn ∧
      (chooseLink cfg l s).slot.tschCurrentChannel = s.slot.tschCurrentChannel := by
  simp only [chooseLink]
  split
  · exact ⟨rfl, rfl, rfl⟩
  · have h := updateLinkBackoff_slot cfg (some l) (getCurrentPacket l s)
    exact ⟨congrArg (·.burstLinkScheduled) h, congrArg (·.tschCurrentAsn) h,
      congrArg (·.tschCurrentChannel) h⟩

theorem setChannel_burst (l : Nat) (s : TschState) :
    (setChannel cfg l s).slot.burstLinkScheduled = false := by
  simp only [setChannel]
  split
  · rfl
  · rename_i h
    exact Bool.eq_false_iff.mpr h

theorem finishTx_slot (n : LinkAddr) (p l rand : Nat) (st : MacStatus) (s : TschState) :
    (finishTx cfg n p l st rand s).slot.burstLinkScheduled = s.slot.burstLinkScheduled ∧
      (finishTx cfg n p l st rand s).slot.currentLink = s.slot.currentLink := by
  obtain ⟨q, d, hq⟩ := finishTx_spec cfg n p l st rand s
  rw [hq]
  simp only [recordOutcome]
  split <;> exact ⟨rfl, rfl⟩

theorem finishTx_channel (n : LinkAddr) (p l rand : Nat) (st : MacStatus) (s : TschState) :
    (finishTx cfg n p l st rand s).slot.tschCurrentChannel = s.slot.tschCurrentChannel := by
  obtain ⟨q, d, hq⟩ := finishTx_spec cfg n p l st rand s
  rw [hq]
  simp only [recordOutcome]
  split <;> rfl

/-- At the end of a slot a set flag has its link; the choice of the next link
makes the two agree. -/
def burstOutline (cfg : Config) : SlotOutline cfg where
  asleep s := s.slot.tschIsAssociated = true → BurstAgrees s
  starting s := s.slot.burstLinkScheduled = false
  sending _ _ _ := True
  listening s := s.slot.burstLinkScheduled = false
  receiving _ := True
  ending s := s.slot.burstLinkScheduled = true → s.slot.currentLink.isSome = true
  chosen := BurstAgrees
  leave h _ ha := ⟨(h ha).1, (h ha).2⟩
  skip h _ ha _ hb := ((h ha).kept hb).1
  startTx _ _ _ _ _ _ := setChannel_burst _ _
  startRx _ _ _ _ _ := setChannel_burst _ _
  startIdle _ _ _ _ hb := absurd hb (by simp [TschState.setBurstLinkScheduled])
  full h hb := absurd (h.symm.trans hb) (by decide)
  frame _ _ _ := trivial
  framePending _ h := h
  sendingPc _ h := h
  transmit _ h := h
  acknowledge _ h := h
  syncFromAck _ _ h := h
  requestBurst h := h
  finish _ _ _ _ _ hl _ _ := by
    rw [(finishTx_slot _ _ _ _ _ _).2, hl]
    rfl
  listeningPc _ h := h
  deaf h hb := absurd (h.symm.trans hb) (by decide)
  receive _ := trivial
  receiveBurst _ h := h
  syncFromFrame _ _ h := h
  deliver {s l} f _ hl _ := by
    obtain ⟨t, ht⟩ := countReception_spec l s
    have hlink : ((countReception l s).putInput f).slot.currentLink = some l := by
      rw [ht]
      exact hl
    rw [hlink]
    rfl
  keepTime _ h := h
  backoff l h := by
    rw [updateLinkBackoff_slot]
    exact h
  replay _ hb hl := ⟨fun _ => ⟨hl, rfl⟩, fun _ _ => ⟨hb, rfl⟩⟩
  select {s} h hnext := by
    have hb : s.slot.burstLinkScheduled = false := by
      rcases hnext with hb | hl
      · exact hb
      · by_contra hb
        have := h (Bool.not_eq_false _ ▸ hb)
        rw [hl] at this
        cases this
    exact ⟨fun hb' => absurd (hb.symm.trans hb') (by decide), fun _ hf => by cases hf⟩
  advance _ _ h := ⟨h.1, h.2⟩
  again h hb := (h.kept hb).1
  armTimer _ h := ⟨h.1, h.2⟩
  sleep h _ := ⟨h.1, h.2⟩
  disassociate _ ha := by cases ha

/-! ## Processes -/

/-- The step does not take the link of a burst away. -/
def KeepsBurstLink (s s' : TschState) : Prop :=
  s.slot.burstLinkScheduled = true → s.slot.currentLink.isSome = true →
    s'.slot.currentLink.isSome = true

def hoppingCtx (cfg : Config) : Ctx TschState where
  irq s s' := ∃ i, slotStep cfg i s = some s'
  cond := KeepsBurstLink
  inv s := (burstOutline cfg).Holds s
  live := False
  stable _ _ h := fun ⟨_, hi⟩ => (burstOutline cfg).step h (fun _ => trivial) (fun _ => trivial) hi

theorem holds_burst_sched {s s' : TschState} (h : (burstOutline cfg).Holds s)
    (hg : SchedGuar s s') (hkeep : KeepsBurstLink s s') : (burstOutline cfg).Holds s' := by
  obtain ⟨hslot, hghost⟩ := hg
  have hfrom : s'.ghost.fromSchedule = s.ghost.fromSchedule := by rw [hghost]
  rcases hslot with hslot | hslot
  · have hagree : BurstAgrees s → BurstAgrees s' := fun ha => by
      constructor
      · rw [hslot, hfrom]
        exact ha.kept
      · rw [hslot, hfrom]
        exact ha.flagged
    simp only [SlotOutline.Holds, hslot, burstOutline] at h ⊢
    split at h <;> first | exact h | exact fun ha => hagree (h ha)
  · -- `current_link` is set to NULL: then no burst was scheduled
    have hnone : s'.slot.currentLink.isSome = false := by rw [hslot]; rfl
    have hagree : BurstAgrees s → BurstAgrees s' := fun ha => by
      refine ⟨fun hb => ?_, fun hl => absurd (hnone.symm.trans hl) (by decide)⟩
      have hb' : s.slot.burstLinkScheduled = true := by rw [hslot] at hb; exact hb
      have := hkeep hb' (ha.kept hb').1
      exact absurd (hnone.symm.trans this) (by decide)
    simp only [SlotOutline.Holds, hslot, burstOutline] at h ⊢
    split at h <;> first | exact h | exact fun ha => hagree (h ha)

/-! ## The channel through a slot -/

/-- After its start a slot leaves the channel alone, and up to its end the link: `on` is what
is said about it. -/
def channelOutline (cfg : Config) (ch : Nat) (on : Option Nat → Prop) : SlotOutline cfg where
  guard _ := False
  asleep s := s.slot.tschCurrentChannel = ch
  starting s := s.slot.tschCurrentChannel = ch ∧ on s.slot.currentLink
  sending _ _ s := s.slot.tschCurrentChannel = ch ∧ on s.slot.currentLink
  listening s := s.slot.tschCurrentChannel = ch ∧ on s.slot.currentLink
  receiving s := s.slot.tschCurrentChannel = ch ∧ on s.slot.currentLink
  ending s := s.slot.tschCurrentChannel = ch
  chosen s := s.slot.tschCurrentChannel = ch
  leave h _ := h
  skip h _ _ _ := h
  startTx _ _ hg _ _ _ := hg.elim
  startRx _ _ hg _ _ := hg.elim
  startIdle _ _ hg _ := hg.elim
  full h := h.1
  frame h _ _ := h
  framePending _ h := h
  sendingPc _ h := h
  transmit _ h := h
  acknowledge _ h := h
  syncFromAck _ _ h := h
  requestBurst h := h
  finish _ _ h _ _ _ _ := (finishTx_channel _ _ _ _ _ _).trans h.1
  listeningPc _ h := h
  deaf h := h.1
  receive h := h
  receiveBurst _ h := h
  syncFromFrame _ _ h := h
  deliver {s l} _ h _ := by
    obtain ⟨t, ht⟩ := countReception_spec l s
    rw [ht]
    exact h.1
  keepTime _ h := h
  backoff l h := by
    rw [updateLinkBackoff_slot]
    exact h
  replay h _ _ := h
  select h _ := h
  advance _ _ h := h
  again h := h
  armTimer _ h := h
  sleep h := h
  disassociate h := h

theorem slotStep_keepsChannel {i : SlotInput} {s s' : TschState} (hno : ¬ SlotStarts s)
    (hs : slotStep cfg i s = some s') : s'.slot.tschCurrentChannel = s.slot.tschCurrentChannel := by
  have hholds : ∀ u, (channelOutline cfg s.slot.tschCurrentChannel fun _ => True).Holds u ↔
      u.slot.tschCurrentChannel = s.slot.tschCurrentChannel := by
    intro u
    simp only [SlotOutline.Holds, channelOutline, and_true]
    split <;> rfl
  exact (hholds s').mp (SlotOutline.step ((hholds s).mpr rfl) hno (fun _ => trivial) hs)

/-- **The channel of an active slot.** -/
theorem slotStep_setsChannel {i : SlotInput} {s s' : TschState} (hstart : SlotStarts s) {l l' : Nat}
    (hl : s.slot.currentLink = some l) {t : TschState} (ht : t = chooseLink cfg l s.disarm.enterSlot)
    (hl' : t.slot.currentLink = some l')
    (hactive : t.slot.currentPacket.isSome = true ∨ (t.link l').linkOptions.rx = true)
    (hs : slotStep cfg i s = some s') :
    s'.slot.tschCurrentChannel = (setChannel cfg l' t).slot.tschCurrentChannel ∧
      (s'.slot.pc ≠ .asleep → s'.slot.currentLink = some l') := by
  let O := channelOutline cfg (setChannel cfg l' t).slot.tschCurrentChannel (· = some l')
  have hset : O.starting (setChannel cfg l' t) := by
    obtain ⟨b, o, c, hc⟩ := setChannel_spec cfg l' t
    refine ⟨rfl, ?_⟩
    rw [hc]
    exact hl'
  have hreach : O.toSlotBody.Reaches i s' := by
    rw [slotStep_starts hstart (timer_of_slotStep hstart.asleep hs) hl] at hs
    simp only [beginSlot, ← ht, hl', runSlot] at hs
    split at hs
    · exact O.toSlotBody.txSlotBegin hset hs
    · rename_i hp
      rw [if_pos (hactive.resolve_left hp)] at hs
      exact O.toSlotBody.rxSlotBegin hset hs
  cases hreach with
  | yields hin =>
      have hpc := hin.awake
      have hon : s'.slot.tschCurrentChannel = (setChannel cfg l' t).slot.tschCurrentChannel ∧
          s'.slot.currentLink = some l' := by
        simp only [SlotBody.Inside] at hin
        split at hin
        · exact hin.elim
        · exact hin
        · exact hin
        · exact hin
        · exact hin
        · exact hin
      exact ⟨hon.1, fun _ => hon.2⟩
  | ends hend hw =>
      obtain ⟨hch, hasleep, -⟩ := O.toEndOutline.endOfSlot hend hw
      exact ⟨hch, fun hpc => absurd hasleep hpc⟩

/-! ## The law -/

theorem tschCalculateChannel_eq (asn offset : Nat) :
    tschCalculateChannel cfg asn offset =
      cfg.tschHoppingSequence ((asn + offset) % cfg.tschHoppingSequenceLength) := by
  simp only [tschCalculateChannel, Nat.mod_add_mod]

theorem setChannel_hops {l : Nat} {s : TschState} (h : s.slot.burstLinkScheduled = false)
    (hoff : (s.link l).channelOffset < 256) :
    (setChannel cfg l s).slot.tschCurrentChannel = cfg.tschHoppingSequence
      ((s.slot.tschCurrentAsn + (s.link l).channelOffset) % cfg.tschHoppingSequenceLength) := by
  simp only [setChannel, h, Bool.false_eq_true, if_false, Nat.mod_eq_of_lt hoff,
    tschCalculateChannel_eq]

theorem chooseLink_alone {l : Nat} {s : TschState} (hl : s.slot.currentLink = some l)
    (hb : s.slot.backupLink = none) : (chooseLink cfg l s).slot.currentLink = some l := by
  have hskip : doSkipBestLink l (getCurrentPacket l s) = none := by
    have hb' : (getCurrentPacket l s).slot.backupLink = none := hb
    simp only [doSkipBestLink, hb', ite_self]
  simp only [chooseLink, hskip]
  exact hl

theorem setChannel_keeps {l : Nat} {s : TschState} (h : s.slot.burstLinkScheduled = true) :
    (setChannel cfg l s).slot.tschCurrentChannel = s.slot.tschCurrentChannel := by
  simp only [setChannel, h, if_true]
  rfl

/-- The interrupts of a slot in progress. -/
def DuringSlot (cfg : Config) (s s' : TschState) : Prop :=
  s.slot.pc ≠ .asleep ∧ ∃ i, slotStep cfg i s = some s'

theorem duringSlot_channel {α : Type} {p : Prog TschState α} (hp : p.Guar SchedGuar) {s : TschState}
    {d : Prog TschState α × TschState} (hr : Run (DuringSlot cfg) (fun _ _ => True) (p, s) d) :
    d.2.slot.tschCurrentChannel = s.slot.tschCurrentChannel := by
  refine Run.keeps (R := fun u => u.slot.tschCurrentChannel = s.slot.tschCurrentChannel) ?_ ?_ hp
    rfl hr
  · rintro u u' hu ⟨hpc, i, hi⟩
    exact (slotStep_keepsChannel (fun hstart => hpc hstart.asleep) hi).trans hu
  · rintro u u' hu ⟨hslot, -⟩
    rcases hslot with hslot | hslot <;> rw [hslot] <;> exact hu

/-- **The hopping law.**  In every run of a schedule program under slot
interrupts in which no process step takes the link of a burst away: a slot that
starts (at `c`) on the link `l'`, the best link or its backup, with a packet or listening,
is executed (from its first step to `s'` on, at any `d` up to its end) on the channel of its
ASN and offset if the link is from the schedule, and on the channel of the slot before if the
link was kept by a burst. -/
theorem hopping_law {α : Type} {p : Prog TschState α} (hp : p.Guar SchedGuar) {s : TschState}
    (hpc : s.slot.pc = .asleep) (hflag : s.slot.burstLinkScheduled = false)
    (hlink : s.slot.currentLink = none ∨ s.ghost.fromSchedule = true)
    {c : Prog TschState α × TschState}
    (hr : Run (fun s s' => ∃ i, slotStep cfg i s = some s') KeepsBurstLink (p, s) c)
    (hstart : SlotStarts c.2) {l l' : Nat} (hl : c.2.slot.currentLink = some l) {t : TschState}
    (ht : t = chooseLink cfg l c.2.disarm.enterSlot) (hl' : t.slot.currentLink = some l')
    (hactive : t.slot.currentPacket.isSome = true ∨ (c.2.link l').linkOptions.rx = true)
    {i : SlotInput} {s' : TschState} (hs : slotStep cfg i c.2 = some s')
    {d : Prog TschState α × TschState}
    (hd : Run (DuringSlot cfg) (fun _ _ => True) (c.1, s') d) :
    (s'.slot.pc ≠ .asleep → s'.slot.currentLink = some l') ∧
      (c.2.ghost.fromSchedule = true → (c.2.link l').channelOffset < 256 →
        d.2.slot.tschCurrentChannel = cfg.tschHoppingSequence
          ((c.2.slot.tschCurrentAsn + (c.2.link l').channelOffset) %
            cfg.tschHoppingSequenceLength)) ∧
      (c.2.ghost.fromSchedule = false → l' = l ∧
        d.2.slot.tschCurrentChannel = c.2.slot.tschCurrentChannel) := by
  have hi : (burstOutline cfg).Holds s := by
    simp only [SlotOutline.Holds, hpc, burstOutline]
    intro _
    refine ⟨fun hb => absurd (hflag.symm.trans hb) (by decide), fun hsome hfrom => ?_⟩
    rcases hlink with hnone | hsched
    · rw [hnone] at hsome
      cases hsome
    · exact absurd (hsched.symm.trans hfrom) (by decide)
  have hwp : Wp (hoppingCtx cfg) p (fun _ _ => True) s :=
    Wp.of_guar_inv (by exact id) (fun _ _ h hg hc => holds_burst_sched h hg hc) hp hi
  have hinv : (burstOutline cfg).Holds c.2 := (Wp.run hi hwp hr).1
  simp only [SlotOutline.Holds, hstart.asleep, burstOutline] at hinv
  have hagree := hinv hstart.associated
  obtain ⟨hburst, hasn, hchan⟩ := chooseLink_burst cfg l c.2.disarm.enterSlot
  have hsched : t.link = c.2.link := by
    funext q
    rw [ht]
    exact congrArg (fun v : ScheduleVars => v.links q) (sched_of_owned (chooseLink_owned l _))
  rw [← ht] at hburst hasn hchan
  -- what the first step sets stays to the end of the slot
  obtain ⟨hfirst, hon⟩ := slotStep_setsChannel hstart hl ht hl' (hsched ▸ hactive) hs
  have hstays := (duringSlot_channel (Run.guar hp hr) hd).trans hfirst
  refine ⟨hon, ?_, ?_⟩
  · intro hfrom hoff
    have hclear : c.2.slot.burstLinkScheduled = false := by
      by_contra hb
      exact absurd (hfrom.symm.trans (hagree.kept (Bool.not_eq_false _ ▸ hb)).2) (by decide)
    rw [hstays, setChannel_hops (hburst.trans hclear) (by rw [hsched]; exact hoff), hasn, hsched]
    rfl
  · intro hfrom
    obtain ⟨hset, hbackup⟩ := hagree.flagged hstart.link hfrom
    have hsame : t.slot.currentLink = some l := by
      rw [ht]
      exact chooseLink_alone hl hbackup
    refine ⟨Option.some.inj (hl'.symm.trans hsame), ?_⟩
    rw [hstays, setChannel_keeps (hburst.trans hset), hchan]
    rfl

/-! ## A burst whose link is removed -/

/-- A frame with its pending bit set, to be acknowledged. -/
def pendingFrame : RxFrame := ⟨true, true, true, 1, 9, true, true, true, 0⟩

/-- The Rx link of slot 1 receives `pendingFrame`: a burst is scheduled. -/
def burstInputs : List (Option SlotInput) :=
  [some (.quiet 0), some (.quiet 328),
    some { SlotInput.quiet 328 with received := some pendingFrame }, some (.quiet 328)]

/-- The links of slots 1 and 3 are removed. -/
def removeTwo : Prog TschState Unit := do
  let _ ← tschScheduleRemoveLinkByTimeslot (some 1) 1 0
  let _ ← tschScheduleRemoveLinkByTimeslot (some 1) 3 0

theorem guar_removeTwo : removeTwo.Guar SchedGuar :=
  have W : SchedWrites (smallBuild 8) SchedAct := schedWrites_schedAct (smallBuild 8)
  Guar.bind (W.removeLinkByTimeslot _ _ _).schedGuar fun _ =>
    Guar.bind (W.removeLinkByTimeslot _ _ _).schedGuar fun _ => trivial

/-- The slot of a burst, repeated on the channel of the slot before. -/
theorem hopping_law_burst :
    ∃ (c : Prog TschState Unit × TschState) (s' : TschState),
      Run (fun s s' => ∃ i, slotStep (smallBuild 8) i s = some s') KeepsBurstLink
        (removeTwo, (TschState.scheduled (smallBuild 8) 20).joined 0) c ∧
      SlotStarts c.2 ∧ c.2.ghost.fromSchedule = false ∧
      slotStep (smallBuild 8) (.quiet 328) c.2 = some s' ∧ s'.slot.currentLink = some 2 ∧
      s'.slot.tschCurrentChannel = c.2.slot.tschCurrentChannel := by
  obtain ⟨c, hrun, hc⟩ := exists_run (slotStep (smallBuild 8)) (fun _ _ => false)
    (fun s s' => ∃ i, slotStep (smallBuild 8) i s = some s') KeepsBurstLink
    (fun i _ _ h => ⟨i, h⟩) (fun _ _ h => by cases h) burstInputs
    ((removeTwo, (TschState.scheduled (smallBuild 8) 20).joined 0))
    (fun c => decide (c.2.slot.pc = .asleep ∧ c.2.slot.tschIsAssociated = true ∧
      c.2.slot.currentLink = some 2 ∧ c.2.lock.tschLockRequested = false ∧
      c.2.ghost.fromSchedule = false ∧ (c.2.link 2).linkOptions.rx = true ∧
      (chooseLink (smallBuild 8) 2 c.2.disarm.enterSlot).slot.currentLink = some 2 ∧
      (slotStep (smallBuild 8) (.quiet 328) c.2).any
        (fun s' => decide (s'.slot.pc = .rxBeforeListen)) = true))
    (by decide +kernel)
  obtain ⟨hpc, hassoc, hlink, hreq, hfrom, hrx, hlink', hstep⟩ := of_decide_eq_true hc
  obtain ⟨s', hs, hlistens⟩ := Option.any_eq_true _ _ |>.mp hstep
  have hpc' : s'.slot.pc = .rxBeforeListen := of_decide_eq_true hlistens
  have hstart : SlotStarts c.2 := ⟨hpc, hassoc, by rw [hlink]; rfl, hreq⟩
  obtain ⟨hon, -, hkept⟩ := hopping_law guar_removeTwo (by decide +kernel) (by decide +kernel)
    (.inl (by decide +kernel)) hrun hstart hlink rfl hlink' (.inr hrx) hs .refl
  exact ⟨c, s', hrun, hstart, hfrom, hs, hon (by rw [hpc']; exact SlotPc.noConfusion), (hkept hfrom).2⟩

/-- The burst link is removed, its slot is skipped, and the next slot from the
schedule, on link 5 with ASN 4 and channel offset 0, keeps the channel of the
burst. -/
theorem stale_burst_keeps_channel :
    ∃ (c : Prog TschState Unit × TschState) (s' : TschState),
      Run (fun s s' => ∃ i, slotStep (smallBuild 8) i s = some s') (fun _ _ => True)
        (removeTwo, (TschState.scheduled (smallBuild 8) 20).joined 0) c ∧
      SlotStarts c.2 ∧ c.2.ghost.fromSchedule = true ∧ c.2.slot.tschCurrentAsn = 4 ∧
      (c.2.link 5).channelOffset = 0 ∧ slotStep (smallBuild 8) (.quiet 656) c.2 = some s' ∧
      s'.slot.pc = .rxBeforeListen ∧ s'.slot.currentLink = some 5 ∧
      s'.slot.tschCurrentChannel ≠
        (smallBuild 8).tschHoppingSequence ((4 + 0) % (smallBuild 8).tschHoppingSequenceLength) := by
  obtain ⟨c, hrun, hc⟩ := exists_run (slotStep (smallBuild 8)) (fun _ _ => true)
    (fun s s' => ∃ i, slotStep (smallBuild 8) i s = some s') (fun _ _ => True)
    (fun i _ _ h => ⟨i, h⟩) (fun _ _ _ => trivial)
    (burstInputs ++ List.replicate 57 none ++ [some (.quiet 656)])
    ((removeTwo, (TschState.scheduled (smallBuild 8) 20).joined 0))
    (fun c => decide ((c.2.slot.pc = .asleep ∧ c.2.slot.tschIsAssociated = true ∧
      c.2.slot.currentLink = some 5 ∧ c.2.lock.tschLockRequested = false) ∧
      c.2.ghost.fromSchedule = true ∧ c.2.slot.tschCurrentAsn = 4 ∧ (c.2.link 5).channelOffset = 0 ∧
      (slotStep (smallBuild 8) (.quiet 656) c.2).any (fun s' => decide (
        s'.slot.pc = .rxBeforeListen ∧ s'.slot.currentLink = some 5 ∧ s'.slot.tschCurrentChannel ≠
        (smallBuild 8).tschHoppingSequence ((4 + 0) % (smallBuild 8).tschHoppingSequenceLength))) =
          true))
    (by decide +kernel)
  obtain ⟨⟨hpc, hassoc, hlink, hreq⟩, hfrom, hasn, hoff, hstep⟩ := of_decide_eq_true hc
  obtain ⟨s', hs, hlistens⟩ := Option.any_eq_true _ _ |>.mp hstep
  have hstart : SlotStarts c.2 := ⟨hpc, hassoc, by rw [hlink]; rfl, hreq⟩
  exact ⟨c, s', hrun, hstart, hfrom, hasn, hoff, hs, of_decide_eq_true hlistens⟩

end QlTsch
