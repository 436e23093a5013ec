/-
# `QlTsch.LinkPointers` — which links the slot operation follows

`current_link` and `backup_link` are taken from the schedule at the end of one
slot and followed in the next.  In between a process may take the lock and remove
a link; its block goes back to the pool and comes out again as another link.
`tsch_schedule_remove_link` sets `current_link` to NULL if it is the link that
goes.  It does not look at `backup_link`, and between its test and its write a slot
may start, which then goes on without a link.

`Denotes` says that a pointer is the link it was taken as.  The writes of the
schedule programs keep it, except those that begin a removal, and there only for
the link that goes.

* `links_not_dangling`: in every run in which no removal finds its link in
  `backup_link`, and none clears `current_link` under a slot in progress, the slot
  operation only acts through links that are installed, and are the ones it selected.
* `backup_link_dangles`: a removal of the backup link, and a slot that switches
  to it.
* `current_link_cleared`: a removal of the next link, and a slot that starts between
  the test and the write.
-/
import QlTsch.ScheduleCalls

namespace QlTsch

open Interleave Interleave.Prog ScheduleVars

variable {cfg : Config}

/-! ## Links that are there -/

/-- The block is a link of the schedule, nobody is at work on it, and it is the
link that the pointer was taken as. -/
structure Denotes (s : TschState) (p : Nat) (serial : Option Nat) : Prop where
  installed : p ∈ s.sched.allLinks
  allocated : p ∈ s.sched.linkMemb
  settled : s.ghost.linkInFlux ≠ some p
  selected : serial = some (s.link p).serial

namespace Denotes

variable {s s' : TschState} {p q : Nat} {serial : Option Nat}

theorem congr (h : Denotes s p serial) (hsched : s'.sched = s.sched)
    (hflux : s'.ghost.linkInFlux = s.ghost.linkInFlux) : Denotes s' p serial := by
  refine ⟨hsched ▸ h.installed, hsched ▸ h.allocated, hflux ▸ h.settled, ?_⟩
  rw [h.selected]
  simp only [TschState.link, hsched]

theorem of_owned (h : Denotes s p serial) (ho : s'.owned = s.owned) : Denotes s' p serial :=
  h.congr (sched_of_owned ho) (congrArg Owned.linkInFlux ho)

theorem ne_of_flux (h : Denotes s p serial) (hq : s.ghost.linkInFlux = some q) : p ≠ q :=
  fun hpq => h.settled (hpq ▸ hq)

theorem allocLink (h : Denotes s p serial) : Denotes (s.allocLink cfg).2 p serial := by
  simp only [TschState.allocLink]
  split
  · rename_i q hq
    have hne : p ≠ q := fun hpq => cfg.memb.pick_fresh hq (hpq ▸ h.allocated)
    refine ⟨h.installed, Finset.mem_insert_of_mem h.allocated, ?_, h.selected⟩
    exact fun hflux => hne (Option.some.inj hflux).symm
  · exact h

theorem listAddLink (h : Denotes s p serial) (b q : Nat) : Denotes (s.listAddLink b q) p serial := by
  refine ⟨mem_allLinks_setSlotframe h.installed fun _ hp => ?_, h.allocated, h.settled, h.selected⟩
  exact List.mem_append_left _ hp

theorem initLink (h : Denotes s p serial) (hq : s.ghost.linkInFlux = some q) (b : Nat)
    (o : LinkOptions) (ty : LinkType) (a : LinkAddr) (ts off : Nat) :
    Denotes (s.initLink b q o ty a ts off) p serial := by
  refine ⟨h.installed, h.allocated, fun hflux => (by cases hflux), ?_⟩
  rw [h.selected]
  simp only [TschState.initLink, TschState.setLinkInFlux, TschState.setSched, TschState.link, setLink,
    Function.update_of_ne (h.ne_of_flux hq)]

theorem setLinkInFlux (h : Denotes s p serial) (hne : p ≠ q) :
    Denotes (s.setLinkInFlux (some q)) p serial :=
  ⟨h.installed, h.allocated, fun hflux => hne (Option.some.inj hflux).symm, h.selected⟩

theorem testCurrentLink (h : Denotes s p serial) (hne : s.slot.currentLink ≠ some q → p ≠ q) :
    Denotes (s.testCurrentLink q).2 p serial := by
  simp only [TschState.testCurrentLink]
  split
  · exact h
  · rename_i hcur
    exact h.setLinkInFlux (hne hcur)

theorem clearCurrentLink (h : Denotes s p serial) (hne : p ≠ q) :
    Denotes (s.clearCurrentLink q) p serial :=
  (h.setLinkInFlux hne).congr rfl rfl

theorem listRemoveLink (h : Denotes s p serial) (hne : p ≠ q) (b : Nat) :
    Denotes (s.listRemoveLink b q) p serial := by
  refine ⟨mem_allLinks_setSlotframe h.installed fun _ hp => ?_, h.allocated, h.settled, h.selected⟩
  exact (List.mem_erase_of_ne hne).mpr hp

theorem freeLink (h : Denotes s p serial) (hne : p ≠ q) : Denotes (s.freeLink q) p serial :=
  ⟨h.installed, Finset.mem_erase.mpr ⟨hne, h.allocated⟩, fun hflux => (by cases hflux), h.selected⟩

theorem initSlotframe (h : Denotes s p serial) {b : Nat} (hb : b ∉ s.sched.slotframeList)
    (handle size : Nat) : Denotes (s.initSlotframe b handle size) p serial := by
  refine ⟨mem_allLinks_setSlotframe h.installed fun hmem _ => ?_, h.allocated, h.settled, h.selected⟩
  exact absurd hmem hb

theorem listAddSlotframe (h : Denotes s p serial) (b : Nat) :
    Denotes (s.listAddSlotframe b) p serial := by
  obtain ⟨c, hc, hp⟩ := mem_allLinks.mp h.installed
  exact ⟨mem_allLinks.mpr ⟨c, List.mem_append_left _ hc, hp⟩, h.allocated, h.settled, h.selected⟩

theorem listRemoveSlotframe (h : Denotes s p serial) {b : Nat}
    (hb : (s.slotframe b).linksList = []) : Denotes (s.listRemoveSlotframe b) p serial := by
  obtain ⟨c, hc, hp⟩ := mem_allLinks.mp h.installed
  have hcb : c ≠ b := by
    rintro rfl
    have hnil : (s.sched.slotframes c).linksList = [] := hb
    rw [hnil] at hp
    cases hp
  exact ⟨mem_allLinks.mpr ⟨c, (List.mem_erase_of_ne hcb).mpr hc, hp⟩, h.allocated, h.settled,
    h.selected⟩

end Denotes

/-! ## Links that are selected -/

/-- Both links of a selection satisfy `P`. -/
def NextLink.Within (P : Nat → Prop) (acc : NextLink) : Prop :=
  ∀ q, acc.currBest = some q ∨ acc.currBackup = some q → P q

theorem newBest_within {P : Nat → Prop} {s : TschState} {best p q : Nat} (hb : P best) (hp : P p)
    (h : newBest s best p = some q) : P q := by
  simp only [newBest] at h
  split at h
  · split at h
    · split at h
      · exact Option.some.inj h ▸ hp
      · cases h
    · rw [← Option.some.inj h]
      simp only [defaultTschLinkComparator]
      split
      · exact hb
      · split
        · split
          · exact hb
          · exact hp
        · exact hb
  · split at h
    · exact Option.some.inj h ▸ hp
    · cases h

theorem offerBackup_within {P : Nat → Prop} {s : TschState} {sel backup : Option Nat} {p q : Nat}
    (hp : P p) (hb : ∀ r, backup = some r → P r) (h : offerBackup s sel p backup = some q) : P q := by
  simp only [offerBackup] at h
  split at h
  · split at h
    · exact Option.some.inj h ▸ hp
    · split at h
      · exact Option.some.inj h ▸ hp
      · exact hb q h
  · exact hb q h

theorem considerLink_within {P : Nat → Prop} (s : TschState) (size timeslot : Nat) {acc : NextLink}
    {p : Nat} (h : acc.Within P) (hp : P p) : (considerLink s size timeslot acc p).Within P := by
  have hone : ∀ t, NextLink.Within P ⟨t, some p, none⟩ := fun t q hq => by
    rcases hq with hq | hq
    · exact Option.some.inj hq ▸ hp
    · cases hq
  simp only [considerLink]
  split
  · exact hone _
  · rename_i best hbest
    have hPb : P best := h best (.inl hbest)
    split
    · exact hone _
    · split
      · intro q hq
        rcases hq with hq | hq
        · cases hsel : newBest s best p with
          | none =>
              rw [hsel] at hq
              exact Option.some.inj hq ▸ hPb
          | some r =>
              rw [hsel] at hq
              exact Option.some.inj hq ▸ newBest_within hPb hp hsel
        · exact offerBackup_within hPb
            (fun r hr => offerBackup_within hp (fun r hr => h r (.inr hr)) hr) hq
      · exact h

theorem nextActiveLink_within {P : Nat → Prop} {s : TschState} (asn : Nat)
    (h : s.lock.tschLocked = false → ∀ p ∈ s.sched.allLinks, P p) :
    (tschScheduleGetNextActiveLink s asn).Within P := by
  have hnone : NextLink.Within P ⟨0, none, none⟩ := fun q hq => by rcases hq with hq | hq <;> cases hq
  simp only [tschScheduleGetNextActiveLink]
  split
  · exact hnone
  · rename_i hlock
    have hall := h (Bool.eq_false_iff.mpr hlock)
    refine List.foldlRecOn (motive := NextLink.Within P) _ _ hnone ?_
    intro acc hacc b hb
    refine List.foldlRecOn (motive := NextLink.Within P) _ _ hacc ?_
    intro acc hacc p hp
    exact considerLink_within s _ _ hacc (hall p (mem_allLinks.mpr ⟨b, hb, hp⟩))

/-! ## The slot operation -/

/-- Outside the lock the pool and the schedule agree, and nobody is at work on a
link. -/
def Settled (s : TschState) : Prop := s.lock.tschLocked = false →
  (∀ p ∈ s.sched.allLinks, p ∈ s.sched.linkMemb) ∧ s.ghost.linkInFlux = none

theorem Settled.of_owned {s s' : TschState} (h : Settled s) (ho : s'.owned = s.owned) :
    Settled s' := by
  have hflux : s'.ghost.linkInFlux = s.ghost.linkInFlux := congrArg Owned.linkInFlux ho
  rw [Settled, lock_of_owned ho, sched_of_owned ho, hflux]
  exact h

/-- `current_link` denotes its link. -/
structure CurrentHeld (s : TschState) : Prop where
  settled : Settled s
  current : ∀ p, s.slot.currentLink = some p → Denotes s p s.ghost.currentSerial

/-- `backup_link` denotes its link. -/
def BackupHeld (s : TschState) : Prop :=
  ∀ p, s.slot.backupLink = some p → Denotes s p s.ghost.backupSerial

theorem CurrentHeld.congr {s s' : TschState} (h : CurrentHeld s) (ho : s'.owned = s.owned)
    (hl : s'.slot.currentLink = s.slot.currentLink)
    (hs : s'.ghost.currentSerial = s.ghost.currentSerial) : CurrentHeld s' := by
  refine ⟨h.settled.of_owned ho, ?_⟩
  intro p hp
  rw [hs]
  exact (h.current p (hl ▸ hp)).of_owned ho

theorem BackupHeld.congr {s s' : TschState} (h : BackupHeld s) (ho : s'.owned = s.owned)
    (hl : s'.slot.backupLink = s.slot.backupLink)
    (hs : s'.ghost.backupSerial = s.ghost.backupSerial) : BackupHeld s' := fun p hp => by
  rw [hs]
  exact (h p (hl ▸ hp)).of_owned ho

theorem doSkipBestLink_some {l b : Nat} {s : TschState} (h : doSkipBestLink l s = some b) :
    s.slot.backupLink = some b ∧ ((s.link l).linkOptions.rx = false ∨
      (s.link b).slotframeHandle < (s.link l).slotframeHandle) := by
  simp only [doSkipBestLink] at h
  split at h
  · split at h
    · rename_i c hc
      split at h
      · rename_i hskip
        rw [Option.some.inj h] at hc hskip
        simp only [Bool.or_eq_true, Bool.not_eq_true', decide_eq_true_eq] at hskip
        exact ⟨hc, hskip⟩
      · cases h
    · cases h
  · cases h

variable (cfg) in
theorem chooseLink_link (l : Nat) (s : TschState) :
    ((chooseLink cfg l s).slot.currentLink = s.slot.currentLink ∧
      (chooseLink cfg l s).ghost.currentSerial = s.ghost.currentSerial) ∨
    ∃ b, doSkipBestLink l (getCurrentPacket l s) = some b ∧ s.slot.backupLink = some b ∧
      (chooseLink cfg l s).slot.currentLink = some b ∧
      (chooseLink cfg l s).ghost.currentSerial = s.ghost.backupSerial := by
  simp only [chooseLink]
  cases hskip : doSkipBestLink l (getCurrentPacket l s) with
  | none => exact .inl ⟨rfl, rfl⟩
  | some b =>
      refine .inr ⟨b, rfl, (doSkipBestLink_some hskip).1, rfl, ?_⟩
      have hghost := updateLinkBackoff_ghost cfg (some l) (getCurrentPacket l s)
      exact congrArg Ghost.backupSerial hghost

theorem CurrentHeld.chooseLink {s : TschState} (h : CurrentHeld s) (hb : BackupHeld s) (l : Nat) :
    CurrentHeld (chooseLink cfg l s) := by
  have ho : (QlTsch.chooseLink cfg l s).owned = s.owned := chooseLink_owned l s
  rcases chooseLink_link cfg l s with ⟨hl, hs⟩ | ⟨b, -, hbackup, hl, hs⟩
  · exact h.congr ho hl hs
  · refine ⟨h.settled.of_owned ho, ?_⟩
    intro p hp
    rw [hs]
    exact (hb p (hbackup.trans (hl ▸ hp))).of_owned ho

variable (cfg) in
theorem finishTx_link (n : LinkAddr) (p l rand : Nat) (st : MacStatus) (s : TschState) :
    (finishTx cfg n p l st rand s).slot.currentLink = s.slot.currentLink ∧
      (finishTx cfg n p l st rand s).ghost.currentSerial = s.ghost.currentSerial := by
  obtain ⟨q, d, hq⟩ := finishTx_spec cfg n p l st rand s
  rw [hq]
  simp only [recordOutcome]
  split <;> exact ⟨rfl, rfl⟩

theorem Settled.selectLink {s : TschState} (h : Settled s) :
    CurrentHeld (selectLink s) ∧ BackupHeld (selectLink s) := by
  have hsel : (tschScheduleGetNextActiveLink s s.slot.tschCurrentAsn).Within
      fun q => Denotes s q (some (s.link q).serial) :=
    nextActiveLink_within _ fun hlock p hp => by
      obtain ⟨hmemb, hflux⟩ := h hlock
      exact ⟨hp, hmemb p hp, by rw [hflux]; exact Option.some_ne_none p |>.symm, rfl⟩
  refine ⟨⟨h, fun p hp => ?_⟩, fun p hp => ?_⟩
  · have hserial : (QlTsch.selectLink s).ghost.currentSerial = some (s.link p).serial := by
      have hp : (tschScheduleGetNextActiveLink s s.slot.tschCurrentAsn).currBest = some p := hp
      simp only [QlTsch.selectLink, hp, Option.map_some]
    rw [hserial]
    exact (hsel p (.inl hp)).congr rfl rfl
  · have hserial : (QlTsch.selectLink s).ghost.backupSerial = some (s.link p).serial := by
      have hp : (tschScheduleGetNextActiveLink s s.slot.tschCurrentAsn).currBackup = some p := hp
      simp only [QlTsch.selectLink, hp, Option.map_some]
    rw [hserial]
    exact (hsel p (.inr hp)).congr rfl rfl

/-- In a slot `current_link` is not NULL. -/
structure RunsOnLink (s : TschState) : Prop where
  held : CurrentHeld s
  link : s.slot.currentLink.isSome = true

theorem RunsOnLink.congr {s s' : TschState} (h : RunsOnLink s) (ho : s'.owned = s.owned)
    (hl : s'.slot.currentLink = s.slot.currentLink)
    (hs : s'.ghost.currentSerial = s.ghost.currentSerial) : RunsOnLink s' :=
  ⟨h.held.congr ho hl hs, hl ▸ h.link⟩

theorem CurrentHeld.enter {s : TschState} (h : CurrentHeld s) (hb : BackupHeld s) (l : Nat) :
    CurrentHeld (QlTsch.chooseLink cfg l s.disarm.enterSlot) := by
  have hs : CurrentHeld s.disarm.enterSlot := h.congr rfl rfl rfl
  have hbs : BackupHeld s.disarm.enterSlot := hb.congr rfl rfl rfl
  exact hs.chooseLink hbs l

theorem CurrentHeld.start {s : TschState} {l l' : Nat} (h : CurrentHeld s) (hb : BackupHeld s)
    (hl' : (QlTsch.chooseLink cfg l s.disarm.enterSlot).slot.currentLink = some l') :
    RunsOnLink (setChannel cfg l' (QlTsch.chooseLink cfg l s.disarm.enterSlot)) := by
  have hrun : RunsOnLink (QlTsch.chooseLink cfg l s.disarm.enterSlot) :=
    ⟨h.enter hb l, by rw [hl']; rfl⟩
  obtain ⟨b, o, c, hc⟩ := setChannel_spec cfg l' (QlTsch.chooseLink cfg l s.disarm.enterSlot)
  rw [hc]
  exact hrun.congr rfl rfl rfl

def linksOutline (cfg : Config) : SlotOutline cfg where
  asleep s := CurrentHeld s ∧ (s.slot.tschIsAssociated = true → BackupHeld s)
  starting := RunsOnLink
  sending _ _ := RunsOnLink
  listening := RunsOnLink
  receiving := RunsOnLink
  ending := CurrentHeld
  chosen s := CurrentHeld s ∧ BackupHeld s
  leave h _ := ⟨h.1.congr rfl rfl rfl, fun ha => (h.2 ha).congr rfl rfl rfl⟩
  skip h _ _ _ := h.1.congr rfl rfl rfl
  startTx h hs _ _ hl' _ := h.1.start (h.2 hs.associated) hl'
  startRx h hs _ _ hl' := h.1.start (h.2 hs.associated) hl'
  startIdle {_ l} h hs _ _ := (h.1.enter (h.2 hs.associated) l).congr rfl rfl rfl
  full h := h.held
  frame h _ _ := h.congr rfl rfl rfl
  framePending _ h := h.congr rfl rfl rfl
  sendingPc _ h := h.congr rfl rfl rfl
  transmit _ h := h.congr rfl rfl rfl
  acknowledge _ h := h.congr rfl rfl rfl
  syncFromAck _ _ h := h.congr rfl rfl rfl
  requestBurst h := h.congr rfl rfl rfl
  finish st rand h _ _ _ _ := by
    obtain ⟨hl, hs⟩ := finishTx_link cfg _ _ _ rand st _
    exact h.held.congr (finishTx_owned _ _ _ st rand _) hl hs
  listeningPc _ h := h.congr rfl rfl rfl
  deaf h := h.held
  receive h := h
  receiveBurst _ h := h.congr rfl rfl rfl
  syncFromFrame _ _ h := h.congr rfl rfl rfl
  deliver {s l} f h _ := by
    obtain ⟨t, ht⟩ := countReception_spec l s
    rw [ht]
    exact h.held.congr rfl rfl rfl
  keepTime _ h := h.congr rfl rfl rfl
  backoff l h := h.congr (updateLinkBackoff_owned cfg l _)
    (by rw [updateLinkBackoff_slot]) (by rw [updateLinkBackoff_ghost])
  replay h _ _ := ⟨h.congr rfl rfl rfl, fun p hp => by cases hp⟩
  select h _ := h.settled.selectLink
  advance _ _ h := ⟨h.1.congr rfl rfl rfl, h.2.congr rfl rfl rfl⟩
  again h := h.1
  armTimer _ h := ⟨h.1.congr rfl rfl rfl, h.2.congr rfl rfl rfl⟩
  sleep h := ⟨h.1.congr rfl rfl rfl, fun _ => h.2.congr rfl rfl rfl⟩
  disassociate h := ⟨h.congr rfl rfl rfl, fun ha => by cases ha⟩

/-! ## Processes -/

/-- Every pointer the slot operation will follow denotes its link. -/
structure LinksHeld (s : TschState) : Prop where
  flags : SlotFlags s
  current : CurrentHeld s
  /-- `backup_link` is followed at the start of a slot only -/
  backup : s.slot.pc = .asleep → s.slot.tschIsAssociated = true → BackupHeld s
  inSlot : s.slot.pc ≠ .asleep → s.slot.currentLink.isSome = true

theorem holds_linksOutline {s : TschState} (hf : SlotFlags s) :
    (linksOutline cfg).Holds s ↔ LinksHeld s := by
  simp only [SlotOutline.Holds, linksOutline]
  constructor
  · intro h
    split at h
    · rename_i hpc
      exact ⟨hf, h.1, fun _ => h.2, fun hne => absurd hpc hne⟩
    all_goals
      rename_i hpc
      exact ⟨hf, h.held, fun hasleep => (by rw [hpc] at hasleep; cases hasleep), fun _ => h.link⟩
  · intro h
    split
    · rename_i hpc
      exact ⟨h.current, h.backup hpc⟩
    all_goals
      rename_i hpc
      exact ⟨h.current, h.inSlot (by rw [hpc]; exact SlotPc.noConfusion)⟩

theorem LinksHeld.step {i : SlotInput} {s s' : TschState} (h : LinksHeld s)
    (hs : slotStep cfg i s = some s') : LinksHeld s' :=
  (holds_linksOutline (h.flags.step hs)).mp
    ((linksOutline cfg).step ((holds_linksOutline h.flags).mpr h) (fun _ => trivial)
      (fun _ => trivial) hs)

theorem LinksHeld.update {s s' : TschState} (h : LinksHeld s) (hslot : s'.slot = s.slot)
    (hc : s'.ghost.currentSerial = s.ghost.currentSerial)
    (hb : s'.ghost.backupSerial = s.ghost.backupSerial) (hflags : SlotFlags s')
    (hsettled : Settled s') (hden : ∀ {p serial}, Denotes s p serial → Denotes s' p serial) :
    LinksHeld s' := by
  refine ⟨hflags, ⟨hsettled, ?_⟩, ?_, ?_⟩
  · rw [hslot, hc]
    exact fun p hp => hden (h.current.current p hp)
  · rw [hslot, BackupHeld, hslot, hb]
    exact fun hpc ha p hp => hden (h.backup hpc ha p hp)
  · rw [hslot]
    exact h.inSlot

theorem Settled.of_locked {s : TschState} {x : Option Nat} {v : View} (h : At x true v s) :
    Settled s := fun hfree => by
  rw [h.lock] at hfree
  cases hfree

theorem LinksHeld.schedAct {s s' : TschState} {x : Option Nat} {v : View} (h : LinksHeld s)
    (hat : At x true v s) (hg : SchedAct s s') (hslot : s'.slot = s.slot)
    (hden : ∀ {p serial}, Denotes s p serial → Denotes s' p serial) : LinksHeld s' := by
  refine h.update hslot (by rw [hg.ghost]) (by rw [hg.ghost]) (h.flags.schedAct hg)
    (fun hfree => ?_) hden
  rw [hg.lock, hat.lock] at hfree
  cases hfree

/-- What a removal has to find.  Where it takes its link in hand (it is not the next one,
or has just been withdrawn as the next one), the link is not the `backup_link` of a slot
still to start; and where it clears `current_link`, no slot is in progress. -/
def RemovalSafe (s s' : TschState) : Prop :=
  (∀ p ∈ s.sched.linkMemb, s.ghost.linkInFlux = none → s'.ghost.linkInFlux = some p →
    s.slot.pc = .asleep → s.slot.tschIsAssociated = true → s.slot.backupLink ≠ some p) ∧
  (s'.slot.currentLink ≠ s.slot.currentLink → s.slot.pc = .asleep)

instance (s s' : TschState) : Decidable (RemovalSafe s s') :=
  inferInstanceAs (Decidable ((∀ p ∈ s.sched.linkMemb, s.ghost.linkInFlux = none →
    s'.ghost.linkInFlux = some p → s.slot.pc = .asleep → s.slot.tschIsAssociated = true →
      s.slot.backupLink ≠ some p) ∧
    (s'.slot.currentLink ≠ s.slot.currentLink → s.slot.pc = .asleep)))

theorem LinksHeld.testCurrentLink {s : TschState} {v : View} {p : Nat} (h : LinksHeld s)
    (hat : At none true v s) (hc : RemovalSafe s (s.testCurrentLink p).2) :
    LinksHeld (s.testCurrentLink p).2 := by
  by_cases hcur : s.slot.currentLink = some p
  · -- it is the next link: the write is still to come
    have heq : (s.testCurrentLink p).2 = s := by simp only [TschState.testCurrentLink, if_pos hcur]
    rw [heq]
    exact h
  · have heq : (s.testCurrentLink p).2 = s.setLinkInFlux (some p) := by
      simp only [TschState.testCurrentLink, if_neg hcur]
    rw [heq] at hc ⊢
    have hat' : At (some p) true v (s.setLinkInFlux (some p)) := ⟨hat.view, hat.lock, rfl⟩
    refine ⟨⟨h.flags.inSlot, h.flags.tx⟩, ⟨.of_locked hat', fun q hq => ?_⟩, fun hpc ha q hq => ?_,
      h.inSlot⟩
    · exact (h.current.current q hq).setLinkInFlux fun hqp => hcur (hqp ▸ hq)
    · have hden := h.backup hpc ha q hq
      refine hden.setLinkInFlux fun hqp => ?_
      subst hqp
      exact hc.1 q hden.allocated hat.flux rfl hpc ha hq

theorem LinksHeld.clearCurrentLink {s : TschState} {v : View} {p : Nat} (h : LinksHeld s)
    (hat : At none true v s) (hc : RemovalSafe s (s.clearCurrentLink p)) :
    LinksHeld (s.clearCurrentLink p) := by
  refine ⟨⟨h.flags.inSlot, h.flags.tx⟩, ⟨.of_locked (clearCurrentLink_at hat p), fun q hq => ?_⟩,
    fun hpc ha q hq => ?_, fun hpc => ?_⟩
  · cases hq
  · have hden := h.backup hpc ha q hq
    refine hden.clearCurrentLink fun hqp => ?_
    subst hqp
    exact hc.1 q hden.allocated hat.flux rfl hpc ha hq
  · -- a slot in progress runs on a link, which the write would take away
    have hpc : s.slot.pc ≠ .asleep := hpc
    refine absurd (hc.2 fun hnone => ?_) hpc
    have hlink := h.inSlot hpc
    rw [← hnone] at hlink
    cases hlink

variable (cfg) in
theorem nbrTableAdd_queue (a : LinkAddr) (s : TschState) :
    ∃ q, (s.nbrTableAddLladdr cfg a).2 = { s with queue := q } := by
  simp only [TschState.nbrTableAddLladdr]
  split
  · exact ⟨s.queue, rfl⟩
  · split
    · exact ⟨_, rfl⟩
    · exact ⟨s.queue, rfl⟩

def linksCtx (cfg : Config) : Ctx TschState where
  irq s s' := ∃ i, slotStep cfg i s = some s'
  cond := RemovalSafe
  inv := LinksHeld
  live := False
  stable _ _ h := fun ⟨_, hi⟩ => h.step hi

/-- The blocks of the installed links are allocated. -/
def PoolHolds (v : View) : Prop := ∀ p ∈ v.sched.allLinks, p ∈ v.sched.linkMemb

theorem schedCtx_links : SchedCtx cfg (linksCtx cfg) PoolHolds where
  irq h := h
  flags h := h.flags
  live h := h.elim
  request h _ := h.update rfl rfl rfl ⟨h.flags.inSlot, h.flags.tx⟩ h.current.settled
    fun hd => hd.congr rfl rfl
  lock {s} h _ _ hpc := by
    refine h.update rfl rfl rfl ⟨h.flags.inSlot, fun htx => ?_⟩ (fun hfree => by cases hfree)
      fun hd => hd.congr rfl rfl
    have htx : s.slot.pc.inTx = true := htx
    rw [hpc] at htx
    cases htx
  unrequest h _ := h.update rfl rfl rfl ⟨h.flags.inSlot, h.flags.tx⟩ h.current.settled
    fun hd => hd.congr rfl rfl
  unlock h hat hok := h.update rfl rfl rfl ⟨h.flags.inSlot, fun _ => rfl⟩
    (fun _ => ⟨by rw [← hat.view] at hok; exact hok, hat.flux⟩) fun hd => hd.congr rfl rfl
  allocLink {s _ _} h hat _ := h.schedAct hat (.allocLink s)
    (by simp only [TschState.allocLink]; split <;> rfl) fun hd => hd.allocLink
  listAddLink b h hat := h.schedAct hat ⟨⟨.inl rfl, rfl⟩, rfl⟩ rfl fun hd => hd.listAddLink b _
  initLink b o ty a ts off h hat := h.schedAct hat ⟨⟨.inl rfl, rfl⟩, rfl⟩ rfl
    fun hd => hd.initLink hat.flux b o ty a ts off
  testLink _ h hat hc := h.testCurrentLink hat hc
  clearLink _ h hat hc := h.clearCurrentLink hat hc
  listRemoveLink b h hat := h.schedAct hat ⟨⟨.inl rfl, rfl⟩, rfl⟩ rfl
    fun hd => hd.listRemoveLink (hd.ne_of_flux hat.flux) b
  freeLink h hat := h.schedAct hat ⟨⟨.inl rfl, rfl⟩, rfl⟩ rfl
    fun hd => hd.freeLink (hd.ne_of_flux hat.flux)
  countTxLink n o d h _ _ := h.update rfl rfl rfl ⟨h.flags.inSlot, h.flags.tx⟩ h.current.settled
    fun hd => hd.congr rfl rfl
  nbrTableAdd {s _} a h hat := by
    obtain ⟨q, hq⟩ := nbrTableAdd_queue cfg a s
    refine h.schedAct hat (.nbrTableAddLladdr a s) ?_ fun hd => ?_ <;> rw [hq]
    exact hd.congr rfl rfl
  newNeighbor a h hat := h.schedAct hat ⟨⟨.inl rfl, rfl⟩, rfl⟩ rfl fun hd => hd.congr rfl rfl
  allocSlotframe {s _} h hat := h.schedAct hat (.allocSlotframe s)
    (by simp only [TschState.allocSlotframe]; split <;> rfl)
    fun hd => by
      simp only [TschState.allocSlotframe]
      split
      · exact ⟨hd.installed, hd.allocated, hd.settled, hd.selected⟩
      · exact hd
  initSlotframe b handle size h hat hb := h.schedAct hat ⟨⟨.inl rfl, rfl⟩, rfl⟩ rfl
    fun hd => hd.initSlotframe (by rw [← hat.view] at hb; exact hb) handle size
  listAddSlotframe b h hat := h.schedAct hat ⟨⟨.inl rfl, rfl⟩, rfl⟩ rfl
    fun hd => hd.listAddSlotframe b
  freeSlotframe b h hat := h.schedAct hat ⟨⟨.inl rfl, rfl⟩, rfl⟩ rfl
    fun hd => ⟨hd.installed, hd.allocated, hd.settled, hd.selected⟩
  listRemoveSlotframe b h hat hnil := h.schedAct hat ⟨⟨.inl rfl, rfl⟩, rfl⟩ rfl
    fun hd => hd.listRemoveSlotframe (by rw [← hat.view] at hnil; exact hnil)

theorem callInv_links : CallInv cfg (fun _ _ _ => true) (fun v => v.sched.WellFormed) PoolHolds where
  wellFormed h := h
  visible h := h.linkMemb
  removeLink {v b p} h hb hp := by
    have hwf := View.wellFormed_unlink h hb hp
    exact ⟨hwf.linkMemb, (View.removeLink_sched h hb hp).symm ▸ hwf⟩
  installLink {v b p o a} ty ts off h hb hp _ := by
    have hwf : (v.install b p o ty a ts off).sched.WellFormed :=
      View.wellFormed_install h hb fun hmem => hp (h.linkMemb p hmem)
    refine ⟨hwf.linkMemb, fun _ => ?_, ?_⟩
    · have hadd := View.addNbr_sched cfg (v.install b p o ty a ts off) a
      simp only [PoolHolds, hadd]
      exact hwf.linkMemb
    · rw [View.count_sched]
      exact hwf
  addSlotframe handle size h := (View.wellFormed_addSlotframe cfg handle size h).1
  dropSlotframe h hb he := (View.wellFormed_dropSlotframe h hb he).1

/-! ## Acting through links -/

/-- The slot operation is at rest, and no link is selected. -/
structure AtRest (s : TschState) : Prop where
  lock : s.lock = ⟨false, false⟩
  flux : s.ghost.linkInFlux = none
  asleep : s.slot.pc = .asleep
  notInSlot : s.slot.tschInSlotOperation = false
  current : s.slot.currentLink = none
  backup : s.slot.backupLink = none

theorem AtRest.held {s : TschState} (h : AtRest s) (hwf : s.sched.WellFormed) : LinksHeld s := by
  refine ⟨⟨?_, ?_⟩, ⟨fun _ => ⟨hwf.linkMemb, h.flux⟩, fun p hp => ?_⟩, fun _ _ p hp => ?_,
    fun hpc => absurd h.asleep hpc⟩
  · rw [h.notInSlot, h.asleep]
    exact iff_of_false Bool.false_ne_true fun hne => hne rfl
  · rw [h.asleep]
    exact fun htx => by cases htx
  · rw [h.current] at hp
    cases hp
  · rw [h.backup] at hp
    cases hp

/-- The link pointers the slot operation acts through when it is resumed, each
with the link it was selected as. -/
inductive ActsThrough (s : TschState) : Option Nat → Option Nat → Prop where
  /-- a slot starts on `current_link` -/
  | start (h : SlotStarts s) : ActsThrough s s.slot.currentLink s.ghost.currentSerial
  /-- the best link has no packet, and the slot switches to `backup_link` -/
  | switch {l b : Nat} (h : SlotStarts s) (hl : s.slot.currentLink = some l)
      (hb : doSkipBestLink l (getCurrentPacket l s.disarm.enterSlot) = some b) :
      ActsThrough s (some b) s.ghost.backupSerial
  /-- after a yield inside a slot: the accounting of the slot is next, or may be -/
  | account (h : s.slot.pc ≠ .asleep) : ActsThrough s s.slot.currentLink s.ghost.currentSerial

theorem LinksHeld.acts {s : TschState} (h : LinksHeld s) {p serial : Option Nat}
    (ha : ActsThrough s p serial) : ∃ q, p = some q ∧ Denotes s q serial := by
  cases ha with
  | start hs =>
      obtain ⟨q, hq⟩ := Option.isSome_iff_exists.mp hs.link
      exact ⟨q, hq, h.current.current q hq⟩
  | switch hs hl hb =>
      exact ⟨_, rfl, h.backup hs.asleep hs.associated _ (doSkipBestLink_some hb).1⟩
  | account hpc =>
      obtain ⟨q, hq⟩ := Option.isSome_iff_exists.mp (h.inSlot hpc)
      exact ⟨q, hq, h.current.current q hq⟩

/-- **No dangling link.**  From any well-formed schedule, for every sequence of
schedule calls and every interleaving with slot interrupts in which no removal
finds its link in the `backup_link` of a slot still to start, and none clears
`current_link` under a slot in progress: a pointer the slot operation acts through
is not NULL, and denotes an installed link, the one it was selected as. -/
theorem links_not_dangling (fuel : Nat) (calls : List ScheduleCall) {s : TschState} (h : AtRest s)
    (hwf : s.sched.WellFormed) {c : Prog TschState Unit × TschState}
    (hr : Run (fun s s' => ∃ i, slotStep cfg i s = some s') RemovalSafe
      (Prog.forEach calls (makeCall cfg (fun _ _ _ => true) fuel), s) c)
    {p serial : Option Nat} (ha : ActsThrough c.2 p serial) :
    ∃ q, p = some q ∧ Denotes c.2 q serial := by
  have hi : (linksCtx cfg).inv s := h.held hwf
  have hwp := Wp.forEach (C := linksCtx cfg)
    (J := fun _ t => ∃ v : View, v.sched.WellFormed ∧ At none false v t)
    (fun c _ _ hi h => schedCtx_links.wp_makeCall callInv_links (by exact id) fuel c hi h) calls hi
    ⟨s.view, hwf, rfl, h.lock, h.flux⟩
  exact (Wp.run hi hwp hr).1.acts ha

/-- Two slotframes of one slot: a Tx link, and in the other an Rx link. -/
def overlapping : List ScheduleCall :=
  [.addSlotframe 0 1, .addSlotframe 1 1, .addLink (some 0) txShared .normal (some 5) 0 0 false,
    .addLink (some 1) rxShared .normal (some 5) 0 0 false]

theorem atRest_boot {asn : Nat} : AtRest ((TschState.boot cfg).joined asn) :=
  ⟨rfl, rfl, rfl, rfl, rfl, rfl⟩

/-- The best link is removed; the next slot selects the other one, and starts on
it. -/
theorem links_not_dangling_selected :
    ∃ c : Prog TschState Unit × TschState,
      Run (fun s s' => ∃ i, slotStep (smallBuild 8) i s = some s') RemovalSafe
        (Prog.forEach (overlapping ++ [.removeLink (some 0) (some 0)])
          (makeCall (smallBuild 8) (fun _ _ _ => true) 3),
          (TschState.boot (smallBuild 8)).joined 0) c ∧
      SlotStarts c.2 ∧ c.2.slot.currentLink = some 1 ∧ Denotes c.2 1 c.2.ghost.currentSerial := by
  obtain ⟨c, hrun, hc⟩ := exists_run (slotStep (smallBuild 8)) (fun s s' => decide (RemovalSafe s s'))
    (fun s s' => ∃ i, slotStep (smallBuild 8) i s = some s') RemovalSafe
    (fun i _ _ h => ⟨i, h⟩) (fun _ _ h => of_decide_eq_true h)
    (List.replicate 60 none ++ [some (.quiet 0)] ++ List.replicate 13 none ++ [some (.quiet 328)])
    (Prog.forEach (overlapping ++ [.removeLink (some 0) (some 0)])
      (makeCall (smallBuild 8) (fun _ _ _ => true) 3), (TschState.boot (smallBuild 8)).joined 0)
    (fun c => decide (c.2.slot.pc = .asleep ∧ c.2.slot.tschIsAssociated = true ∧
      c.2.lock.tschLockRequested = false ∧ c.2.slot.currentLink = some 1)) (by decide +kernel)
  obtain ⟨hpc, hassoc, hreq, hlink⟩ := of_decide_eq_true hc
  have hstart : SlotStarts c.2 := ⟨hpc, hassoc, by rw [hlink]; rfl, hreq⟩
  obtain ⟨q, hq, hden⟩ := links_not_dangling 3 _ atRest_boot (wellFormed_boot (smallBuild 8)) hrun
    (.start hstart)
  exact ⟨c, hrun, hstart, hlink, Option.some.inj (hlink.symm.trans hq) ▸ hden⟩

/-- The backup link is removed; the next slot finds no packet for the best link,
and switches to it. -/
theorem backup_link_dangles :
    ∃ c : Prog TschState Unit × TschState,
      Run (fun s s' => ∃ i, slotStep (smallBuild 8) i s = some s') (fun _ _ => True)
        (Prog.forEach (overlapping ++ [.removeLink (some 1) (some 1)])
          (makeCall (smallBuild 8) (fun _ _ _ => true) 3),
          (TschState.boot (smallBuild 8)).joined 0) c ∧
      c.1 = .ret () ∧ ActsThrough c.2 (some 1) c.2.ghost.backupSerial ∧
      1 ∉ c.2.sched.allLinks ∧ 1 ∉ c.2.sched.linkMemb := by
  obtain ⟨c, hrun, hc⟩ := exists_run (slotStep (smallBuild 8)) (fun _ _ => true)
    (fun s s' => ∃ i, slotStep (smallBuild 8) i s = some s') (fun _ _ => True)
    (fun i _ _ h => ⟨i, h⟩) (fun _ _ _ => trivial)
    (List.replicate 60 none ++ [some (.quiet 0)] ++ List.replicate 12 none)
    (Prog.forEach (overlapping ++ [.removeLink (some 1) (some 1)])
      (makeCall (smallBuild 8) (fun _ _ _ => true) 3), (TschState.boot (smallBuild 8)).joined 0)
    (fun c => decide (c.1.result = some () ∧ c.2.slot.pc = .asleep ∧
      c.2.slot.tschIsAssociated = true ∧ c.2.lock.tschLockRequested = false ∧
      c.2.slot.currentLink = some 0 ∧
      doSkipBestLink 0 (getCurrentPacket 0 c.2.disarm.enterSlot) = some 1 ∧
      1 ∉ c.2.sched.allLinks ∧ 1 ∉ c.2.sched.linkMemb)) (by decide +kernel)
  obtain ⟨hret, hpc, hassoc, hreq, hlink, hskip, hgone⟩ := of_decide_eq_true hc
  exact ⟨c, hrun, Prog.eq_ret_of_result hret,
    .switch ⟨hpc, hassoc, by rw [hlink]; rfl, hreq⟩ hlink hskip, hgone⟩

/-- The best link is removed.  It is the next one at the test; the slot starts before the
write and switches to its backup; and the write leaves it without a link. -/
theorem current_link_cleared :
    ∃ c : Prog TschState Unit × TschState,
      Run (fun s s' => ∃ i, slotStep (smallBuild 8) i s = some s') (fun _ _ => True)
        (Prog.forEach (overlapping ++ [.removeLink (some 0) (some 0)])
          (makeCall (smallBuild 8) (fun _ _ _ => true) 3),
          (TschState.boot (smallBuild 8)).joined 0) c ∧
      ActsThrough c.2 none c.2.ghost.currentSerial := by
  obtain ⟨c, hrun, hc⟩ := exists_run (slotStep (smallBuild 8)) (fun _ _ => true)
    (fun s s' => ∃ i, slotStep (smallBuild 8) i s = some s') (fun _ _ => True)
    (fun i _ _ h => ⟨i, h⟩) (fun _ _ _ => trivial)
    (List.replicate 60 none ++ [some (.quiet 0)] ++ List.replicate 9 none ++
      [some (.quiet 328), none])
    (Prog.forEach (overlapping ++ [.removeLink (some 0) (some 0)])
      (makeCall (smallBuild 8) (fun _ _ _ => true) 3), (TschState.boot (smallBuild 8)).joined 0)
    (fun c => decide (c.2.slot.pc ≠ .asleep ∧ c.2.slot.currentLink = none)) (by decide +kernel)
  obtain ⟨hpc, hlink⟩ := of_decide_eq_true hc
  have hacts := ActsThrough.account hpc
  rw [hlink] at hacts
  exact ⟨c, hrun, hacts⟩

end QlTsch
