/-
# `QlTsch.CreditedSlot` — to which action a transmission is credited

`trans_status` says how the last transmission through the unicast slotframe ended,
not through which of its links it was made; `scheduler_process` credits it to
`current_action`.  Between two rounds there is one Tx link, at `current_action`.
During a round, once the lock is released, the Tx link of the new action is
installed before the old one is removed, and `current_action` follows last.

The action a transmission will be credited to is the new one from the moment it
is chosen (`View.target`): the status of the old one has just been read.  So a
transmission has to be made at the target, and the only way to miss it is a
transmit slot that starts, while an action is pending, on the link of the old one
(`StartsOnTarget` excludes it).

* `credited_to_its_slot`: in every run without such a slot, whatever packets are
  queued and served between the rounds, each credit is for a transmission through
  the link of the credited action.
* `credited_to_the_next_action`: such a slot, and its credit.
-/
import QlTsch.LinkPointers
import QlTsch.QlInvariant

namespace QlTsch

open Interleave Interleave.Prog ScheduleVars
open scoped List

variable {cfg : Config} {F : QlFrames} {v : View}

/-! ## Links of one time -/

/-- Among links of different times, one link that transmits and comes first among
the slotframes stays the best, or else there is no backup. -/
theorem considerLinks_best {s : TschState} {best size ts : Nat}
    (htx : (s.link best).linkOptions.tx = true) : ∀ (ls : List Nat) {acc : NextLink},
    (∀ p ∈ ls, (s.link best).slotframeHandle < (s.link p).slotframeHandle) →
    (ls.map fun p => timeToTimeslot size (s.link p).timeslot ts).Nodup →
    acc.currBest = some best ∨ (acc.currBackup = none ∧ (acc.currBest.isSome = true →
      acc.timeToCurrBest ∉ ls.map fun p => timeToTimeslot size (s.link p).timeslot ts)) →
    (ls.foldl (considerLink s size ts) acc).currBest = some best ∨
      (ls.foldl (considerLink s size ts) acc).currBackup = none
  | [], acc, _, _, h => h.imp_right And.left
  | p :: ls, acc, hlt, hn, h => by
      rw [List.map_cons, List.nodup_cons] at hn
      refine considerLinks_best htx ls (fun q hq => hlt q (List.mem_cons_of_mem p hq)) hn.2 ?_
      have hfresh : ∀ t, t = timeToTimeslot size (s.link p).timeslot ts →
          (⟨t, some p, none⟩ : NextLink).currBackup = none ∧
          ((⟨t, some p, none⟩ : NextLink).currBest.isSome = true →
            (⟨t, some p, none⟩ : NextLink).timeToCurrBest ∉
              ls.map fun q => timeToTimeslot size (s.link q).timeslot ts) :=
        fun t ht => ⟨rfl, fun _ => ht ▸ hn.1⟩
      simp only [considerLink]
      split
      · exact .inr (hfresh _ rfl)
      · rename_i b hb
        split
        · exact .inr (hfresh _ rfl)
        · split
          · -- of the same time: only beside `best`, which wins
            rename_i heq
            have hbest : acc.currBest = some best := h.resolve_right fun hr =>
              hr.2 (by rw [hb]; rfl) (heq ▸ List.mem_cons_self)
            have hbb : b = best := Option.some.inj (hb.symm.trans hbest)
            subst hbb
            have hnew : newBest s b p = none := by
              have hp := hlt p List.mem_cons_self
              simp only [newBest, htx]
              split
              · rw [if_pos hp.ne', if_neg (by omega)]
              · rename_i hne
                rw [if_neg fun hptx => hne hptx.symm]
            simp only [hnew, Option.getD_none]
            exact .inl trivial
          · refine h.imp_right ?_
            rintro ⟨hbackup, hnot⟩
            exact ⟨hbackup, fun hs hmem => hnot hs (List.mem_cons_of_mem _ hmem)⟩

theorem timeToTimeslot_inj {i j ts : Nat} (hi : i < unicastSlotframeLength)
    (hj : j < unicastSlotframeLength) (hts : ts < unicastSlotframeLength)
    (h : timeToTimeslot unicastSlotframeLength i ts = timeToTimeslot unicastSlotframeLength j ts) :
    i = j := by
  simp only [timeToTimeslot, unicastSlotframeLength] at *
  split at h <;> split at h <;> omega

/-- The slot will not switch from this link to a backup. -/
structure KeepsSlot (s : TschState) (p : Nat) : Prop where
  rx : (s.link p).linkOptions.rx = true
  first : (s.link p).slotframeHandle = 0

/-- The link of the broadcast slotframe keeps its slot, and no other link has a
backup. -/
theorem QlLinks.selection {L : List Nat} {f : Nat → Nat} {o : Nat → LinkOptions} {s : TschState}
    (h : QlLinks cfg F L f o s.sched) (asn p : Nat)
    (hp : (tschScheduleGetNextActiveLink s asn).currBest = some p) :
    (tschScheduleGetNextActiveLink s asn).currBackup = none ∨ KeepsSlot s p := by
  have hbest : s.link F.broadcastLink = F.contents := h.broadcastLink
  have hopt := h.isBroadcastLink.linkOptions
  have hhandle : (s.link F.broadcastLink).slotframeHandle = 0 := by
    have hmem : F.broadcastLink ∈ (s.sched.slotframes F.broadcast).linksList := by
      rw [h.broadcastLinks]
      exact List.mem_singleton.mpr rfl
    refine (h.wellFormed.slotframeHandle F.broadcast ?_ _ hmem).trans h.broadcastHandle
    rw [h.slotframes]
    exact List.mem_cons_self
  have hkeeps : KeepsSlot s F.broadcastLink := ⟨by rw [hbest, hopt]; rfl, hhandle⟩
  have hsize : (s.slotframe F.unicast).size = unicastSlotframeLength := h.unicastSize
  have hts : asn % (s.slotframe F.unicast).size < unicastSlotframeLength := by
    rw [hsize]
    exact Nat.mod_lt _ (by decide)
  have hlt : ∀ q ∈ (s.slotframe F.unicast).linksList,
      (s.link F.broadcastLink).slotframeHandle < (s.link q).slotframeHandle := by
    intro q hq
    have hq := (h.wellFormed.slotframeHandle F.unicast h.unicast_mem q hq).trans h.unicastHandle
    have hq : (s.link q).slotframeHandle = 1 := hq
    rw [hhandle, hq]
    exact zero_lt_one
  have hn : ((s.slotframe F.unicast).linksList.map fun q => timeToTimeslot unicastSlotframeLength
      (s.link q).timeslot (asn % (s.slotframe F.unicast).size)).Nodup := by
    refine (h.unicastLinks.map _).nodup_iff.mpr ?_
    rw [List.map_map]
    refine h.timeslots.map_on ?_
    intro i hi j hj hij
    have htime : ∀ k ∈ L, (s.link (f k)).timeslot = k := fun k hk => (h.unicastLink k hk).timeslot
    simp only [Function.comp_apply, htime i hi, htime j hj] at hij
    exact timeToTimeslot_inj (h.bound i hi) (h.bound j hj) hts hij
  have hone : (considerSlotframe s asn ⟨0, none, none⟩ F.broadcast).currBest =
      some F.broadcastLink := by
    have hone : (s.slotframe F.broadcast).linksList = [F.broadcastLink] := h.broadcastLinks
    simp only [considerSlotframe, hone, List.foldl_cons, List.foldl_nil, considerLink]
  have hfold := considerLinks_best (by rw [hbest, hopt]; rfl) _ hlt hn (.inl hone)
  simp only [tschScheduleGetNextActiveLink] at hp ⊢
  split at hp
  · cases hp
  · rename_i hlock
    rw [if_neg hlock, h.slotframes, List.foldl_cons, List.foldl_cons, List.foldl_nil]
    rw [h.slotframes, List.foldl_cons, List.foldl_cons, List.foldl_nil] at hp
    rw [considerSlotframe, hsize] at hp ⊢
    rw [hsize] at hfold
    rcases hfold with hfold | hfold
    · rw [hfold] at hp
      exact .inr (Option.some.inj hp ▸ hkeeps)
    · exact .inl hfold

/-! ## The slot operation -/

/-- A transmission through the unicast slotframe will be made at the target. -/
def OnTarget (s : TschState) : Prop :=
  ∀ l, s.slot.currentLink = some l → (s.link l).slotframeHandle = 1 →
    (s.link l).timeslot = s.view.target

/-- What the slot operation relies on, and leaves behind. -/
structure OnCourse (cfg : Config) (F : QlFrames) (s : TschState) : Prop where
  visible : s.lock.tschLocked = false → QlVisible cfg F s.view ∧ s.ghost.linkInFlux = none
  current : ∀ p, s.slot.currentLink = some p → Denotes s p s.ghost.currentSerial ∧
    (s.slot.backupLink = none ∨ KeepsSlot s p)
  /-- a status to be read is of a transmission at the target -/
  status : s.slot.transStatus ≠ 0 →
    ∃ o, s.ghost.outcomes.getLast? = some o ∧ o.timeslot = s.view.target

theorem OnTarget.congr {s s' : TschState} (h : OnTarget s) (ho : s'.owned = s.owned)
    (hl : s'.slot.currentLink = s.slot.currentLink) : OnTarget s' := by
  simp only [OnTarget, TschState.link, hl, sched_of_owned ho, view_of_owned ho]
  exact h

theorem KeepsSlot.congr {s s' : TschState} {p : Nat} (h : KeepsSlot s p)
    (hl : s'.link p = s.link p) : KeepsSlot s' p := ⟨hl ▸ h.rx, hl ▸ h.first⟩

theorem OnCourse.restatus {s s' : TschState} (h : OnCourse cfg F s) (ho : s'.owned = s.owned)
    (hl : s'.slot.currentLink = s.slot.currentLink) (hb : s'.slot.backupLink = s.slot.backupLink)
    (hser : s'.ghost.currentSerial = s.ghost.currentSerial)
    (hstatus : s'.slot.transStatus ≠ 0 →
      ∃ o, s'.ghost.outcomes.getLast? = some o ∧ o.timeslot = s.view.target) : OnCourse cfg F s' := by
  have hflux : s'.ghost.linkInFlux = s.ghost.linkInFlux := congrArg Owned.linkInFlux ho
  refine ⟨?_, fun p hp => ?_, ?_⟩
  · rw [lock_of_owned ho, view_of_owned ho, hflux]
    exact h.visible
  · obtain ⟨hden, hkeep⟩ := h.current p (hl ▸ hp)
    rw [hser, hb]
    refine ⟨hden.of_owned ho, hkeep.imp_right fun hk => hk.congr ?_⟩
    simp only [TschState.link, sched_of_owned ho]
  · rw [view_of_owned ho]
    exact hstatus

theorem OnCourse.congr {s s' : TschState} (h : OnCourse cfg F s) (ho : s'.owned = s.owned)
    (hl : s'.slot.currentLink = s.slot.currentLink) (hb : s'.slot.backupLink = s.slot.backupLink)
    (hser : s'.ghost.currentSerial = s.ghost.currentSerial)
    (ht : s'.slot.transStatus = s.slot.transStatus)
    (hout : s'.ghost.outcomes = s.ghost.outcomes) : OnCourse cfg F s' := by
  refine h.restatus ho hl hb hser ?_
  rw [ht, hout]
  exact h.status

theorem OnCourse.chooseLink {s : TschState} {l : Nat} (h : OnCourse cfg F s)
    (hl : s.slot.currentLink = some l) :
    chooseLink cfg l s.disarm.enterSlot = getCurrentPacket l s.disarm.enterSlot := by
  have hskip : doSkipBestLink l (getCurrentPacket l s.disarm.enterSlot) = none := by
    cases hskip : doSkipBestLink l (getCurrentPacket l s.disarm.enterSlot) with
    | none => rfl
    | some b =>
        obtain ⟨hb, hcase⟩ := doSkipBestLink_some hskip
        rcases (h.current l hl).2 with hnone | hkeep
        · exact absurd (hnone.symm.trans hb) (by simp)
        · have hrx : ((getCurrentPacket l s.disarm.enterSlot).link l).linkOptions.rx = true := hkeep.rx
          have hfirst : ((getCurrentPacket l s.disarm.enterSlot).link l).slotframeHandle = 0 :=
            hkeep.first
          rcases hcase with hcase | hcase
          · exact absurd (hrx.symm.trans hcase) (by simp)
          · exact absurd (hfirst ▸ hcase) (Nat.not_lt_zero _)
  simp only [QlTsch.chooseLink, hskip]

theorem QlVisible.txAllowed (h : QlVisible cfg F v) {l : Nat} (hl : l ∈ v.sched.allLinks)
    (htx : (v.link l).linkOptions.tx = true) (hh : (v.link l).slotframeHandle = 1) :
    TxAllowed v (v.link l).timeslot := by
  obtain ⟨L, f, o, hlinks, hallowed⟩ := h
  rcases List.mem_cons.mp (hlinks.allLinks_perm.mem_iff.mp hl) with rfl | hl
  · -- the link of the broadcast slotframe has the other handle
    have hmem : F.broadcastLink ∈ (v.sched.slotframes F.broadcast).linksList := by
      rw [hlinks.broadcastLinks]
      exact List.mem_singleton.mpr rfl
    have hb := hlinks.wellFormed.slotframeHandle F.broadcast
      (by rw [hlinks.slotframes]; exact List.mem_cons_self) _ hmem
    exact absurd (hh.symm.trans (hb.trans hlinks.broadcastHandle)) (by decide)
  · obtain ⟨i, hi, rfl⟩ := List.mem_map.mp hl
    have hu := hlinks.unicastLink i hi
    have hts : (v.link (f i)).timeslot = i := hu.timeslot
    rw [hts]
    refine hallowed i hi ?_
    rw [← hu.linkOptions]
    exact htx

/-- A transmit slot does not start, while an action is pending, on a link of the
unicast slotframe at another timeslot. -/
def StartsOnTarget (s : TschState) : Prop :=
  ∀ a l, s.ghost.pendingAction = some a → s.slot.currentLink = some l →
    (getPacketAndNeighborForLink s (s.link l)).1.isSome = true →
    (s.link l).slotframeHandle = 1 → (s.link l).timeslot = a

theorem getPacketAndNeighbor_tx {s : TschState} {link : TschLink}
    (h : (getPacketAndNeighborForLink s link).1.isSome = true) : link.linkOptions.tx = true := by
  by_contra htx
  simp [getPacketAndNeighborForLink, htx] at h

theorem OnCourse.onTarget {s : TschState} {l : Nat} (h : OnCourse cfg F s)
    (hl : s.slot.currentLink = some l) (hg : StartsOnTarget s)
    (hp : (getPacketAndNeighborForLink s (s.link l)).1.isSome = true) : OnTarget s := by
  intro l' hl' hh
  obtain rfl : l = l' := Option.some.inj (hl.symm.trans hl')
  obtain ⟨p, hp'⟩ := Option.isSome_iff_exists.mp hp
  have hfree := (getPacketAndNeighbor_some hp').1
  cases hpend : s.ghost.pendingAction with
  | some a =>
      rw [hg a l hpend hl hp hh]
      simp only [View.target, TschState.view, hpend, Option.getD_some]
  | none =>
      have hinst : l ∈ s.view.sched.allLinks := (h.current l hl).1.installed
      rcases (h.visible hfree).1.txAllowed hinst (getPacketAndNeighbor_tx hp) hh with hcur | hpen
      · have htarget : s.view.target = s.view.node.currentAction := by
          simp only [View.target, TschState.view, hpend, Option.getD_none]
        rw [htarget]
        exact hcur
      · have hpen : s.ghost.pendingAction = some (s.link l).timeslot := hpen
        rw [hpend] at hpen
        cases hpen

/-- In a transmit slot. -/
structure Transmitting (cfg : Config) (F : QlFrames) (s : TschState) : Prop where
  course : OnCourse cfg F s
  target : OnTarget s

theorem Transmitting.congr {s s' : TschState} (h : Transmitting cfg F s) (ho : s'.owned = s.owned)
    (hl : s'.slot.currentLink = s.slot.currentLink) (hb : s'.slot.backupLink = s.slot.backupLink)
    (hser : s'.ghost.currentSerial = s.ghost.currentSerial)
    (ht : s'.slot.transStatus = s.slot.transStatus)
    (hout : s'.ghost.outcomes = s.ghost.outcomes) : Transmitting cfg F s' :=
  ⟨h.course.congr ho hl hb hser ht hout, h.target.congr ho hl⟩

theorem Transmitting.finishTx {n : LinkAddr} {p l rand : Nat} {st : MacStatus} {s : TschState}
    (h : Transmitting cfg F s) (hl : s.slot.currentLink = some l) :
    OnCourse cfg F (finishTx cfg n p l st rand s) := by
  have ho : (QlTsch.finishTx cfg n p l st rand s).owned = s.owned := finishTx_owned n p l st rand s
  obtain ⟨q, d, hq⟩ := finishTx_spec cfg n p l st rand s
  by_cases hh : (s.link l).slotframeHandle = 1
  · have hrec : ((s.modifyPacket p fun e => { e with
        transmissions := (e.transmissions + 1) % 256, ret := st }).link l).slotframeHandle = 1 := hh
    refine h.course.restatus ho ?_ ?_ ?_ fun _ => ?_ <;> rw [hq] <;>
      simp only [recordOutcome, if_pos hrec]
    · rfl
    · rfl
    · rfl
    · exact ⟨_, List.getLast?_concat, h.target l hl hh⟩
  · have hrec : ¬ ((s.modifyPacket p fun e => { e with
        transmissions := (e.transmissions + 1) % 256, ret := st }).link l).slotframeHandle = 1 := hh
    refine h.course.congr ho ?_ ?_ ?_ ?_ ?_ <;> rw [hq] <;>
      simp only [recordOutcome, if_neg hrec] <;> rfl

theorem OnCourse.selectLink {s : TschState} (h : OnCourse cfg F s) :
    OnCourse cfg F (selectLink s) := by
  have hheld : CurrentHeld (QlTsch.selectLink s) := by
    refine (Settled.selectLink fun hfree => ?_).1
    obtain ⟨⟨L, f, o, hlinks, -⟩, hflux⟩ := h.visible hfree
    exact ⟨hlinks.wellFormed.linkMemb, hflux⟩
  refine ⟨h.visible, fun p hp => ⟨hheld.current p hp, ?_⟩, h.status⟩
  have hp : (tschScheduleGetNextActiveLink s s.slot.tschCurrentAsn).currBest = some p := hp
  cases hlock : tschIsLocked s with
  | true =>
      simp only [tschScheduleGetNextActiveLink, hlock, if_true] at hp
      cases hp
  | false =>
      obtain ⟨⟨L, f, o, hlinks, -⟩, -⟩ := h.visible hlock
      have hlinks : QlLinks cfg F L f o s.sched := hlinks
      exact (hlinks.selection _ p hp).imp_right fun hk => hk.congr rfl

def creditOutline (cfg : Config) (F : QlFrames) : SlotOutline cfg where
  asleep := OnCourse cfg F
  starting := Transmitting cfg F
  sending _ _ := Transmitting cfg F
  listening := OnCourse cfg F
  receiving := OnCourse cfg F
  ending := OnCourse cfg F
  chosen := OnCourse cfg F
  guard := StartsOnTarget
  leave h _ := h.congr rfl rfl rfl rfl rfl rfl
  skip h _ _ _ := h.congr rfl rfl rfl rfl rfl rfl
  startTx {s l l'} h _ hg hl _ hp := by
    rw [h.chooseLink hl] at hp ⊢
    have ht : OnTarget s := h.onTarget hl hg hp
    obtain ⟨b, o, c, hc⟩ := setChannel_spec cfg l' (getCurrentPacket l s.disarm.enterSlot)
    rw [hc]
    exact ⟨h.congr rfl rfl rfl rfl rfl rfl, ht.congr rfl rfl⟩
  startRx {s l l'} h _ _ hl _ := by
    rw [h.chooseLink hl]
    obtain ⟨b, o, c, hc⟩ := setChannel_spec cfg l' (getCurrentPacket l s.disarm.enterSlot)
    rw [hc]
    exact h.congr rfl rfl rfl rfl rfl rfl
  startIdle {s l} h _ _ hl := by
    rw [h.chooseLink hl]
    exact h.congr rfl rfl rfl rfl rfl rfl
  full h := h.course
  frame h _ _ := h.congr rfl rfl rfl rfl rfl rfl
  framePending _ h := h.congr rfl rfl rfl rfl rfl rfl
  sendingPc _ h := h.congr rfl rfl rfl rfl rfl rfl
  transmit _ h := h.congr rfl rfl rfl rfl rfl rfl
  acknowledge _ h := h.congr rfl rfl rfl rfl rfl rfl
  syncFromAck _ _ h := h.congr rfl rfl rfl rfl rfl rfl
  requestBurst h := h.congr rfl rfl rfl rfl rfl rfl
  finish _ _ h _ _ hl _ := h.finishTx hl
  listeningPc _ h := h.congr rfl rfl rfl rfl rfl rfl
  deaf h := h
  receive h := h
  receiveBurst _ h := h.congr rfl rfl rfl rfl rfl rfl
  syncFromFrame _ _ h := h.congr rfl rfl rfl rfl rfl rfl
  deliver {s l} f h _ := by
    obtain ⟨t, ht⟩ := countReception_spec l s
    rw [ht]
    exact h.congr rfl rfl rfl rfl rfl rfl
  keepTime _ h := h.congr rfl rfl rfl rfl rfl rfl
  backoff l h := by
    refine h.congr (updateLinkBackoff_owned cfg l _) ?_ ?_ ?_ ?_ ?_ <;>
      first | rw [updateLinkBackoff_slot] | rw [updateLinkBackoff_ghost]
  replay {s} h _ _ := ⟨h.visible, fun p hp => ⟨(h.current p hp).1.congr rfl rfl, .inl rfl⟩, h.status⟩
  select h _ := h.selectLink
  advance _ _ h := h.congr rfl rfl rfl rfl rfl rfl
  again h := h
  armTimer _ h := h.congr rfl rfl rfl rfl rfl rfl
  sleep h := h.congr rfl rfl rfl rfl rfl rfl
  disassociate h := h.congr rfl rfl rfl rfl rfl rfl

/-! ## The scheduler process -/

/-- Every credit is for a transmission at the timeslot of the credited action. -/
def CreditsMatch (s : TschState) : Prop :=
  ∀ c ∈ s.ghost.credits, ∃ o, c.outcome = some o ∧ o.timeslot = c.action

structure CreditSafe (cfg : Config) (F : QlFrames) (s : TschState) : Prop where
  flags : SlotFlags s
  course : OnCourse cfg F s
  sending : s.slot.pc.inTx = true → OnTarget s
  credits : CreditsMatch s

theorem holds_creditOutline {s : TschState} :
    (creditOutline cfg F).Holds s ↔ OnCourse cfg F s ∧ (s.slot.pc.inTx = true → OnTarget s) := by
  simp only [SlotOutline.Holds, creditOutline]
  split <;> rename_i hpc <;> rw [hpc]
  · exact ⟨fun h => ⟨h, fun htx => by cases htx⟩, And.left⟩
  · exact ⟨fun h => ⟨h.course, fun _ => h.target⟩, fun h => ⟨h.1, h.2 rfl⟩⟩
  · exact ⟨fun h => ⟨h.course, fun _ => h.target⟩, fun h => ⟨h.1, h.2 rfl⟩⟩
  · exact ⟨fun h => ⟨h.course, fun _ => h.target⟩, fun h => ⟨h.1, h.2 rfl⟩⟩
  · exact ⟨fun h => ⟨h, fun htx => by cases htx⟩, And.left⟩
  · exact ⟨fun h => ⟨h, fun htx => by cases htx⟩, And.left⟩

/-- An interrupt that does not start a transmission off target. -/
def OnTargetIrq (cfg : Config) (s s' : TschState) : Prop :=
  (∃ i, slotStep cfg i s = some s') ∧ (SlotStarts s → StartsOnTarget s)

theorem CreditSafe.irq {s s' : TschState} (h : CreditSafe cfg F s) (hs : OnTargetIrq cfg s s') :
    CreditSafe cfg F s' := by
  obtain ⟨⟨i, hi⟩, hstart⟩ := hs
  obtain ⟨hcourse, hsending⟩ := holds_creditOutline.mp
    ((creditOutline cfg F).step (holds_creditOutline.mpr ⟨h.course, h.sending⟩) hstart
      (fun _ => trivial) hi)
  have hcred : s'.ghost.credits = s.ghost.credits := congrArg Owned.credits (slotStep_owned hi)
  refine ⟨h.flags.step hi, hcourse, hsending, ?_⟩
  rw [CreditsMatch, hcred]
  exact h.credits

def creditCtx (cfg : Config) (F : QlFrames) : Ctx TschState where
  irq := OnTargetIrq cfg
  cond _ _ := True
  inv := CreditSafe cfg F
  live := False
  stable _ _ := CreditSafe.irq

/-- A write of a schedule program under the lock, which keeps what `current_link`
denotes. -/
theorem CreditSafe.schedAct {s s' : TschState} {x : Option Nat} (h : CreditSafe cfg F s)
    (hat : At x true v s) (hg : SchedAct s s') (hnode : s'.node = s.node)
    (hden : ∀ q, s'.slot.currentLink = some q → Denotes s q s.ghost.currentSerial →
      Denotes s' q s.ghost.currentSerial ∧ s'.link q = s.link q) : CreditSafe cfg F s' := by
  have hlock : s'.lock.tschLocked = true := by rw [hg.lock, hat.lock]
  have hpc : s'.slot.pc = s.slot.pc := by rcases hg.slot with hs | hs <;> rw [hs]
  have hback : s'.slot.backupLink = s.slot.backupLink := by rcases hg.slot with hs | hs <;> rw [hs]
  have htrans : s'.slot.transStatus = s.slot.transStatus := by
    rcases hg.slot with hs | hs <;> rw [hs]
  have hpend : s'.ghost.pendingAction = s.ghost.pendingAction := by rw [hg.ghost]
  have htarget : s'.view.target = s.view.target := by
    simp only [View.target, TschState.view, hnode, hpend]
  refine ⟨h.flags.schedAct hg, ⟨fun hfree => ?_, fun p hp => ?_, ?_⟩, fun htx => ?_, ?_⟩
  · exact absurd (hlock.symm.trans hfree) (by decide)
  · have hcur : s.slot.currentLink = some p := by
      rcases hg.slot with hs | hs <;> rw [hs] at hp
      · exact hp
      · cases hp
    obtain ⟨hd, hk⟩ := h.course.current p hcur
    obtain ⟨hd', hlink⟩ := hden p hp hd
    rw [hback, hg.ghost]
    exact ⟨hd', hk.imp_right fun hk => hk.congr hlink⟩
  · rw [htrans, htarget, hg.ghost]
    exact h.course.status
  · rw [hpc] at htx
    have hfree := h.flags.tx htx
    rw [hat.lock] at hfree
    cases hfree
  · rw [CreditsMatch, hg.ghost]
    exact h.credits

theorem CreditSafe.outside {s s' : TschState} (h : CreditSafe cfg F s)
    (hslot : s'.slot = { s.slot with dequeuedRingbuf := s'.slot.dequeuedRingbuf })
    (hsched : s'.sched = s.sched)
    (hghost : s'.ghost = { s.ghost with
      pendingAction := s'.ghost.pendingAction
      accepted := s'.ghost.accepted
      taken := s'.ghost.taken
      called := s'.ghost.called
      freed := s'.ghost.freed })
    (hflags : SlotFlags s') (htarget : s'.view.target = s.view.target)
    (hvisible : s'.lock.tschLocked = false →
      QlVisible cfg F s'.view ∧ s'.ghost.linkInFlux = none) : CreditSafe cfg F s' := by
  have hflux : s'.ghost.linkInFlux = s.ghost.linkInFlux := by rw [hghost]
  have hcur : s'.slot.currentLink = s.slot.currentLink := by rw [hslot]
  have hback : s'.slot.backupLink = s.slot.backupLink := by rw [hslot]
  have htrans : s'.slot.transStatus = s.slot.transStatus := by rw [hslot]
  have hpc : s'.slot.pc = s.slot.pc := by rw [hslot]
  have hlink : ∀ p, s'.link p = s.link p := fun p => by simp only [TschState.link, hsched]
  refine ⟨hflags, ⟨hvisible, fun p hp => ?_, ?_⟩, fun htx => ?_, ?_⟩
  · rw [hcur] at hp
    obtain ⟨hd, hk⟩ := h.course.current p hp
    rw [hback, hghost]
    exact ⟨hd.congr hsched hflux, hk.imp_right fun hk => hk.congr (hlink p)⟩
  · rw [htrans, htarget, hghost]
    exact h.course.status
  · rw [hpc] at htx
    simp only [OnTarget, hcur, hlink, htarget]
    exact h.sending htx
  · rw [CreditsMatch, hghost]
    exact h.credits

theorem CreditSafe.underLock {s s' : TschState} (h : CreditSafe cfg F s)
    (hlocked : s.lock.tschLocked = true) (hlock : s'.lock = s.lock) (hsched : s'.sched = s.sched)
    (hslot : s'.slot = { s.slot with transStatus := s'.slot.transStatus })
    (hflux : s'.ghost.linkInFlux = s.ghost.linkInFlux)
    (hser : s'.ghost.currentSerial = s.ghost.currentSerial)
    (hstatus : s'.slot.transStatus ≠ 0 →
      ∃ o, s'.ghost.outcomes.getLast? = some o ∧ o.timeslot = s'.view.target)
    (hcredits : CreditsMatch s') : CreditSafe cfg F s' := by
  have hlocked' : s'.lock.tschLocked = true := hlock ▸ hlocked
  have hin : s'.slot.tschInSlotOperation = s.slot.tschInSlotOperation := by rw [hslot]
  have hpc : s'.slot.pc = s.slot.pc := by rw [hslot]
  have hnoTx : s'.slot.pc.inTx = true → False := fun htx => by
    rw [hpc] at htx
    exact absurd ((h.flags.tx htx).symm.trans hlocked) (by decide)
  refine ⟨⟨by rw [hin, hpc]; exact h.flags.inSlot, fun htx => (hnoTx htx).elim⟩,
    ⟨fun hfree => absurd (hlocked'.symm.trans hfree) (by decide), fun p hp => ?_, hstatus⟩,
    fun htx => (hnoTx htx).elim, hcredits⟩
  have hcur : s.slot.currentLink = some p := by rw [hslot] at hp; exact hp
  have hback : s'.slot.backupLink = s.slot.backupLink := by rw [hslot]
  obtain ⟨hd, hk⟩ := h.course.current p hcur
  rw [hser, hback]
  exact ⟨hd.congr hsched hflux, hk.imp_right fun hk => hk.congr (by simp only [TschState.link, hsched])⟩

/-! ## Under the lock -/

theorem chooseLink_locked {t : Nat} {s : TschState}
    (h : s.lock.tschLocked = true ∧ s.slot.transStatus = t) (l : Nat) :
    (chooseLink cfg l s.disarm.enterSlot).lock.tschLocked = true ∧
      (chooseLink cfg l s.disarm.enterSlot).slot.transStatus = t := by
  simp only [QlTsch.chooseLink]
  split
  · exact h
  · have hlock : (getCurrentPacket l s.disarm.enterSlot).lock.tschLocked = true := h.1
    rw [updateLinkBackoff_locked hlock]
    exact h

/-- No transmit slot runs under the lock, so `trans_status` stays. -/
def lockedOutline (cfg : Config) (t : Nat) : SlotOutline cfg where
  asleep s := s.lock.tschLocked = true ∧ s.slot.transStatus = t
  starting _ := False
  sending _ _ _ := False
  listening s := s.lock.tschLocked = true ∧ s.slot.transStatus = t
  receiving s := s.lock.tschLocked = true ∧ s.slot.transStatus = t
  ending s := s.lock.tschLocked = true ∧ s.slot.transStatus = t
  chosen s := s.lock.tschLocked = true ∧ s.slot.transStatus = t
  leave h _ := h
  skip h _ _ _ := h
  startTx {s l l'} h _ _ _ _ hp := by
    obtain ⟨p, hp⟩ := Option.isSome_iff_exists.mp hp
    exact absurd (h.1.symm.trans (chooseLink_packet hp).1) (by decide)
  startRx {s l l'} h _ _ _ _ := by
    obtain ⟨b, o, c, hc⟩ := setChannel_spec cfg l' (chooseLink cfg l s.disarm.enterSlot)
    rw [hc]
    exact chooseLink_locked h l
  startIdle {_ l} h _ _ _ := chooseLink_locked h l
  full h := h.elim
  frame h _ _ := h.elim
  framePending _ h := h
  sendingPc _ h := h
  transmit _ h := h
  acknowledge _ h := h
  syncFromAck _ _ h := h
  requestBurst h := h
  finish _ _ h _ _ _ _ := h.elim
  listeningPc _ h := h
  deaf h := h
  receive h := h
  receiveBurst _ h := h
  syncFromFrame _ _ h := h
  deliver {s l} _ h _ := by
    obtain ⟨t, ht⟩ := countReception_spec l s
    rw [ht]
    exact h
  keepTime _ h := h
  backoff l h := by
    rw [updateLinkBackoff_locked h.1]
    exact h
  replay h _ _ := h
  select h _ := h
  advance _ _ h := h
  again h := h
  armTimer _ h := h
  sleep h := h
  disassociate h := h

theorem transStatus_locked {i : SlotInput} {s s' : TschState} (hf : SlotFlags s)
    (hlock : s.lock.tschLocked = true) (hs : slotStep cfg i s = some s') :
    s'.slot.transStatus = s.slot.transStatus := by
  have hnoTx : s.slot.pc.inTx = false := by
    by_contra htx
    exact absurd ((hf.tx (Bool.not_eq_false _ ▸ htx)).symm.trans hlock) (by decide)
  have hf' := hf.step hs
  have hlock' : s'.lock.tschLocked = true := (lock_of_owned (slotStep_owned hs)) ▸ hlock
  have hholds : (lockedOutline cfg s.slot.transStatus).Holds s := by
    simp only [SlotOutline.Holds, lockedOutline]
    split <;> rename_i hpc <;> rw [hpc] at hnoTx <;> first | exact ⟨hlock, trivial⟩ | cases hnoTx
  have hholds' := (lockedOutline cfg s.slot.transStatus).step hholds (fun _ => trivial)
    (fun _ => trivial) hs
  simp only [SlotOutline.Holds, lockedOutline] at hholds'
  split at hholds' <;> first | exact hholds'.2 | exact hholds'.elim

theorem LockCtx.transStatus_rely {C : Ctx TschState} (L : LockCtx cfg C) {s s' : TschState}
    (hi : C.inv s) (hlock : s.lock.tschLocked = true) (hr : C.rely s s') :
    s'.slot.transStatus = s.slot.transStatus :=
  C.rely_lift (R := fun a b => a.lock.tschLocked = true →
      b.lock.tschLocked = true ∧ b.slot.transStatus = a.slot.transStatus)
    (fun _ h => ⟨h, rfl⟩)
    (fun h1 h2 h => ⟨(h2 (h1 h).1).1, (h2 (h1 h).1).2.trans (h1 h).2⟩)
    (fun hi hs hlock => (L.irq hs).elim fun _ hstep =>
      ⟨lock_of_owned (slotStep_owned hstep) ▸ hlock, transStatus_locked (L.flags hi) hlock hstep⟩)
    hi hr hlock |>.2

/-! ## The rounds -/

theorem schedCtx_credit : SchedCtx cfg (creditCtx cfg F) (QlVisible cfg F) where
  irq h := h.1
  flags h := h.flags
  live h := h.elim
  request h _ := h.outside rfl rfl rfl ⟨h.flags.inSlot, h.flags.tx⟩ rfl h.course.visible
  lock {s} h _ _ hpc := by
    refine h.outside rfl rfl rfl ⟨h.flags.inSlot, fun htx => ?_⟩ rfl fun hfree => by cases hfree
    have htx : s.slot.pc.inTx = true := htx
    rw [hpc] at htx
    cases htx
  unrequest h _ := h.outside rfl rfl rfl ⟨h.flags.inSlot, h.flags.tx⟩ rfl h.course.visible
  unlock h hat hok := h.outside rfl rfl rfl ⟨h.flags.inSlot, fun _ => rfl⟩ rfl
    fun _ => ⟨hat.view ▸ hok, hat.flux⟩
  allocLink {s _ _} h hat _ := h.schedAct hat (.allocLink s)
    (by simp only [TschState.allocLink]; split <;> rfl)
    fun _ _ hd => ⟨hd.allocLink, by simp only [TschState.allocLink]; split <;> rfl⟩
  listAddLink b h hat := h.schedAct hat ⟨⟨.inl rfl, rfl⟩, rfl⟩ rfl
    fun _ _ hd => ⟨hd.listAddLink b _, rfl⟩
  initLink b o ty a ts off h hat := h.schedAct hat ⟨⟨.inl rfl, rfl⟩, rfl⟩ rfl
    fun _ _ hd => ⟨hd.initLink hat.flux b o ty a ts off,
      Function.update_of_ne (hd.ne_of_flux hat.flux) _ _⟩
  testLink {s _} p h hat _ := by
    refine h.schedAct hat (.testCurrentLink p s) ?_ fun q hq hd => ?_
    · simp only [TschState.testCurrentLink]
      split <;> rfl
    · rw [TschState.testCurrentLink_slot] at hq
      refine ⟨hd.testCurrentLink fun hcur hqp => hcur (hqp ▸ hq), ?_⟩
      simp only [TschState.link, TschState.testCurrentLink_sched]
  clearLink p h hat _ := h.schedAct hat ⟨⟨.inr rfl, rfl⟩, rfl⟩ rfl fun _ hq _ => by cases hq
  listRemoveLink b h hat := h.schedAct hat ⟨⟨.inl rfl, rfl⟩, rfl⟩ rfl
    fun _ _ hd => ⟨hd.listRemoveLink (hd.ne_of_flux hat.flux) b, rfl⟩
  freeLink h hat := h.schedAct hat ⟨⟨.inl rfl, rfl⟩, rfl⟩ rfl
    fun _ _ hd => ⟨hd.freeLink (hd.ne_of_flux hat.flux), rfl⟩
  countTxLink {s v} n o d h hat hok := h.outside rfl rfl rfl ⟨h.flags.inSlot, h.flags.tx⟩ rfl
    fun _ => ⟨by rw [view_countTxLink, hat.view]; exact hok, hat.flux⟩
  nbrTableAdd {s _} a h hat := by
    obtain ⟨q, hq⟩ := nbrTableAdd_queue cfg a s
    refine h.schedAct hat (.nbrTableAddLladdr a s) ?_ fun _ _ hd => ?_ <;> rw [hq]
    exact ⟨hd.congr rfl rfl, rfl⟩
  newNeighbor a h hat := h.schedAct hat ⟨⟨.inl rfl, rfl⟩, rfl⟩ rfl
    fun _ _ hd => ⟨hd.congr rfl rfl, rfl⟩
  allocSlotframe {s _} h hat := h.schedAct hat (.allocSlotframe s)
    (by simp only [TschState.allocSlotframe]; split <;> rfl)
    fun _ _ hd => by
      simp only [TschState.allocSlotframe]
      split
      · exact ⟨⟨hd.installed, hd.allocated, hd.settled, hd.selected⟩, rfl⟩
      · exact ⟨hd, rfl⟩
  initSlotframe b handle size h hat hb := h.schedAct hat ⟨⟨.inl rfl, rfl⟩, rfl⟩ rfl
    fun _ _ hd => ⟨hd.initSlotframe (by rw [← hat.view] at hb; exact hb) handle size, rfl⟩
  listAddSlotframe b h hat := h.schedAct hat ⟨⟨.inl rfl, rfl⟩, rfl⟩ rfl
    fun _ _ hd => ⟨hd.listAddSlotframe b, rfl⟩
  freeSlotframe b h hat := h.schedAct hat ⟨⟨.inl rfl, rfl⟩, rfl⟩ rfl
    fun _ _ hd => ⟨⟨hd.installed, hd.allocated, hd.settled, hd.selected⟩, rfl⟩
  listRemoveSlotframe b h hat hnil := h.schedAct hat ⟨⟨.inl rfl, rfl⟩, rfl⟩ rfl
    fun _ _ hd => ⟨hd.listRemoveSlotframe (by rw [← hat.view] at hnil; exact hnil), rfl⟩

theorem wp_settleReward_credit (d : Draws) {s : TschState} (hi : CreditSafe cfg F s)
    (hat : At none true v s) (hpend : v.pendingAction = none) :
    Wp (creditCtx cfg F) (settleReward d) (fun _ t => t.slot.transStatus = 0 ∧
      ∃ q, At none true { v with node := { v.node with qValues := q } } t) s := by
  have S : SchedCtx cfg (creditCtx cfg F) (QlVisible cfg F) := schedCtx_credit
  refine Wp.bind (Wp.update hi fun t ht hit _ => ?_)
  have hat := S.at_rely hi hat ht
  have hlocked : t.lock.tschLocked = true := by rw [hat.lock]
  have hit' : CreditSafe cfg F t.getAndResetTxSlotStatus.2 :=
    hit.underLock hlocked rfl rfl rfl rfl rfl (fun h => absurd rfl h) hit.credits
  have hat' : At none true v t.getAndResetTxSlotStatus.2 := ⟨hat.view, hat.lock, hat.flux⟩
  refine ⟨hit', ?_⟩
  split
  · rename_i hstatus
    -- the status read is of a transmission at the current action
    obtain ⟨o, ho, hts⟩ := hit.course.status hstatus
    have htarget : t.view.target = v.node.currentAction := by
      rw [hat.view]
      simp only [View.target, hpend, Option.getD_none]
    refine Wp.modify hit' fun u hu hiu _ => ?_
    have hau := S.at_rely hit' hat' hu
    have hulocked : u.lock.tschLocked = true := by rw [hau.lock]
    have hzero : u.slot.transStatus = 0 := S.toLockCtx.transStatus_rely hit' hlocked hu
    have hread : u.ghost.readOutcome = some o :=
      (congrArg Owned.readOutcome (S.toLockCtx.owned_rely hit' hu)).trans ho
    have hcurrent : u.node.currentAction = v.node.currentAction := by rw [← hau.view]; rfl
    refine ⟨hiu.underLock hulocked rfl rfl rfl rfl rfl (fun h => absurd hzero h) fun c hc => ?_,
      hzero, updateQTable d.update u.node.currentAction (rewardOf t.getAndResetTxSlotStatus.1)
        u.node.qValues, ?_, hau.lock, hau.flux⟩
    · rcases List.mem_append.mp hc with hc | hc
      · exact hiu.credits c hc
      · rw [List.mem_singleton.mp hc]
        exact ⟨o, hread, hts.trans (htarget.trans hcurrent.symm)⟩
    · rw [← hau.view]
      rfl
  · exact Wp.ret ⟨rfl, v.node.qValues, hat'⟩

theorem qlCtx_credit : QlCtx cfg (creditCtx cfg F) (QlVisible cfg F) where
  toSchedCtx := schedCtx_credit
  settle d {s v} hi hat hpend := by
    have S : SchedCtx cfg (creditCtx cfg F) (QlVisible cfg F) := schedCtx_credit
    refine Wp.call (wp_settleReward_credit d hi hat hpend) hi ?_
    rintro _ t hit ⟨hzero, q, hat⟩
    refine Wp.update hit fun u hu hiu _ => ?_
    have hau := S.at_rely hit hat hu
    have hulocked : u.lock.tschLocked = true := by rw [hau.lock]
    have hzero : u.slot.transStatus = 0 :=
      (S.toLockCtx.transStatus_rely hit (by rw [hat.lock]) hu).trans hzero
    refine ⟨hiu.underLock hulocked rfl rfl rfl rfl rfl (fun h => absurd hzero h) hiu.credits,
      chooseAction_lt cfg d u, q, ?_, hau.lock, hau.flux⟩
    have hv : (u.pickAction cfg d).2.view =
        { u.view with pendingAction := some (chooseAction cfg d u) } := rfl
    rw [hv, hau.view]
    rfl
  setNode {s v} n a hi hat hok htarget := by
    refine hi.outside rfl rfl rfl ⟨hi.flags.inSlot, hi.flags.tx⟩ ?_ fun _ => ⟨?_, hat.flux⟩
    · rw [hat.view, ← htarget, ← hat.view]
      rfl
    · rw [← hat.view] at hok
      exact hok

/-! ## Packets between the rounds -/

theorem QlReady.addNbr (h : QlReady cfg F v) (a : LinkAddr) :
    QlReady cfg F (View.addNbr cfg a v).2 := by
  obtain ⟨⟨⟨L, f, hall, hstage⟩, hbound⟩, hpending⟩ := h
  have hsched : (View.addNbr cfg a v).2.sched = v.sched := View.addNbr_sched cfg v a
  obtain ⟨hnode, hpend⟩ := KeepsNode.addNbr cfg a v
  have hlinks : QlLinks cfg F L f (optionsFor v.node.currentAction) (View.addNbr cfg a v).2.sched :=
    hsched.symm ▸ hstage.links
  rw [← hnode] at hlinks hbound
  refine ⟨⟨⟨L, f, hall, hlinks, countersInv_addNbr cfg hstage.counters a,
    mem_addNbr hstage.neighbor, ?_, ?_, ?_⟩, hbound⟩, ?_⟩
  · rw [hnode]
    exact hstage.sfBroadcast
  · rw [hnode]
    exact hstage.sfUnicast
  · rw [hnode]
    exact hstage.pointers
  · rw [hpend]
    exact hpending

theorem QlReady.removeNbr {n : LinkAddr} (h : QlReady cfg F v) (hzero : v.txLinks n = 0) :
    QlReady cfg F { v with nbrs := v.nbrs.erase n } := by
  have hne : cfg.tschBroadcastAddress ≠ n := by
    intro hn
    have htx := h.set.txLinks
    rw [hn, hzero] at htx
    cases htx
  obtain ⟨⟨⟨L, f, hall, hstage⟩, hbound⟩, hpending⟩ := h
  exact ⟨⟨⟨L, f, hall, hstage.links, countersInv_removeNbr hstage.counters hzero,
    (List.mem_erase_of_ne hne).mpr hstage.neighbor, hstage.sfBroadcast, hstage.sfUnicast,
    hstage.pointers⟩, hbound⟩, hpending⟩

theorem queueCtx_credit : QueueCtx cfg (creditCtx cfg F) (QlReady cfg F) (QlVisible cfg F) where
  toSchedCtx := schedCtx_credit
  notLive := id
  visible h := h.set.visible (.inl rfl)
  addNbr a h := h.addNbr a
  removeNbr h hzero := h.removeNbr hzero
  queueAct {s s' v} hi hat hg := by
    have hsched : s'.sched = s.sched := congrArg View.sched hg.view
    have htarget : s'.view.target = s.view.target := congrArg View.target hg.view
    refine hi.outside hg.slot hsched (by rw [hg.ghost]) ⟨?_, ?_⟩ htarget fun _ => ?_
    · rw [hg.slot]
      exact hi.flags.inSlot
    · rw [hg.slot, hg.lock]
      exact hi.flags.tx
    · rw [hg.view, hg.ghost]
      exact hi.course.visible (by rw [hat.lock])
  nbrTableRemove {s v} n hi hat hok := by
    refine hi.outside rfl rfl rfl ⟨hi.flags.inSlot, hi.flags.tx⟩ rfl fun _ => ⟨?_, hat.flux⟩
    rw [← hat.view] at hok
    exact hok

/-- What the process does: a round, or anything that is about packets and neighbors. -/
inductive QlCall where
  | round (d : Draws)
  | queue (c : QueueCall)

def QlCall.perform (cfg : Config) (fuel : Nat) : QlCall → Prog TschState Unit
  | .round d => schedulerRound cfg fuel d
  | .queue c => c.perform cfg fuel

/-- **Credits go to the slot that earned them**, in every run of the scheduler
under slot interrupts, with packets queued and served between its rounds, in which
no transmission starts, between the choice of an action and the moment it is the
current one, on a link of the unicast slotframe at another timeslot. -/
theorem credited_to_its_slot (fuel : Nat) (calls : List QlCall) {s : TschState} (h : AtRest s)
    (hready : QlReady cfg F s.view)
    (hmax : unicastSlotframeLength + 1 ≤ cfg.tschScheduleMaxLinks)
    (hstatus : s.slot.transStatus = 0) (hcredits : s.ghost.credits = [])
    {c : Prog TschState Unit × TschState}
    (hr : Run (OnTargetIrq cfg) (fun _ _ => True)
      (Prog.forEach calls (QlCall.perform cfg fuel), s) c) :
    ∀ cr ∈ c.2.ghost.credits, ∃ o, cr.outcome = some o ∧ o.timeslot = cr.action := by
  have hi : CreditSafe cfg F s := by
    refine ⟨(h.held hready.set.wellFormed).flags, ⟨fun _ => ⟨hready.set.visible (.inl rfl), h.flux⟩,
      fun p hp => ?_, fun hne => absurd hstatus hne⟩, fun htx => ?_, ?_⟩
    · rw [h.current] at hp
      cases hp
    · rw [h.asleep] at htx
      cases htx
    · rw [CreditsMatch, hcredits]
      exact fun _ hc => absurd hc List.not_mem_nil
  have hcall : ∀ k t, CreditSafe cfg F t → Ready (QlReady cfg F) t →
      Wp (creditCtx cfg F) (QlCall.perform cfg fuel k) (fun _ u => Ready (QlReady cfg F) u) t := by
    intro k t hit hready
    cases k with
    | round d =>
        exact qlCtx_credit.wp_schedulerRound (fun _ hw => hw) hmax (by exact False.elim) d hit hready
    | queue c => exact queueCtx_credit.wp_queueCall fuel c hit hready
  have hwp := Wp.forEach (J := fun _ t => Ready (QlReady cfg F) t)
    (fun k _ t hit hready => hcall k t hit hready) calls hi ⟨s.view, hready, rfl, h.lock, h.flux⟩
  exact (Wp.run hi hwp hr).1.credits

/-! ## The next action gets the credit -/

/-- One slot before the Tx link of the unicast slotframe, a broadcast frame queued. -/
def oneBroadcast : TschState :=
  ((((TschState.scheduled (smallBuild 8) 20).joined 14).allocPacket (smallBuild 8)).2.modifyPacket 0
    fun e => { e with hasQueuebuf := true, ret := .deferred, maxTransmissions := 3 }).putPacket 255 0

theorem atRest_oneBroadcast : AtRest oneBroadcast where
  lock := by decide +kernel
  flux := by decide +kernel
  asleep := by decide +kernel
  notInSlot := by decide +kernel
  current := by decide +kernel
  backup := by decide +kernel

theorem oneBroadcast_ready : ∃ F, QlReady (smallBuild 8) F oneBroadcast.view := by
  have hready : ∃ F, QlReady (smallBuild 8) F (TschState.scheduled (smallBuild 8) 20).view :=
    scheduled_ready (by decide) (by decide) (by decide)
  obtain ⟨F, h⟩ := hready
  refine ⟨F, ?_⟩
  have hput : ∀ t : TschState, (t.putPacket 255 0).view = t.view := fun t =>
    (QueueAct.putPacket 255 0 t).view
  have halloc : ∀ t : TschState, (t.allocPacket (smallBuild 8)).2.view = t.view := fun t => by
    simp only [TschState.allocPacket]
    split <;> rfl
  have hview : oneBroadcast.view = (TschState.scheduled (smallBuild 8) 20).view :=
    (hput _).trans (halloc _)
  rw [hview]
  exact h

/-- A transmission before the round is credited to its slot. -/
theorem credited_to_its_slot_before :
    ∃ c : Prog TschState Unit × TschState,
      Run (OnTargetIrq (smallBuild 8)) (fun _ _ => True)
        (Prog.forEach [.round ⟨0, 0, 3⟩, .queue .takeDequeued] (QlCall.perform (smallBuild 8) 5),
          oneBroadcast) c ∧
      c.2.ghost.credits.length = 1 ∧
      ∀ cr ∈ c.2.ghost.credits, ∃ o, cr.outcome = some o ∧ o.timeslot = cr.action := by
  obtain ⟨c, hrun, hc⟩ := exists_run
    (fun i s => if s.ghost.pendingAction = none then slotStep (smallBuild 8) i s else none)
    (fun _ _ => true) (OnTargetIrq (smallBuild 8)) (fun _ _ => True)
    (fun i s s' hi => by
      split at hi
      · rename_i hnone
        exact ⟨⟨i, hi⟩, fun _ a l hpend => by rw [hnone] at hpend; cases hpend⟩
      · cases hi)
    (fun _ _ _ => trivial)
    ([some (.quiet 0), some (.quiet 328), some (.quiet 328)] ++ List.replicate 8 none)
    (Prog.forEach [.round ⟨0, 0, 3⟩, .queue .takeDequeued] (QlCall.perform (smallBuild 8) 5),
      oneBroadcast)
    (fun c => decide (c.2.ghost.credits.length = 1)) (by decide +kernel)
  obtain ⟨F, hready⟩ := oneBroadcast_ready
  exact ⟨c, hrun, of_decide_eq_true hc, credited_to_its_slot 5 _ atRest_oneBroadcast hready
    (by decide) (by decide +kernel) (by decide +kernel) hrun⟩

/-- The lock has been released and the old Tx link is still there: a frame goes
out in timeslot 0, and the next round credits it to action 3. -/
theorem credited_to_the_next_action :
    ∃ c : Prog TschState Unit × TschState,
      Run (fun s s' => ∃ i, slotStep (smallBuild 8) i s = some s') (fun _ _ => True)
        (Prog.forEach [.round ⟨0, 0, 3⟩, .round ⟨0, 0, 3⟩] (QlCall.perform (smallBuild 8) 5),
          oneBroadcast) c ∧
      c.2.ghost.credits = [⟨some ⟨0, .ok, false, true, false⟩, 3, rewardSucces⟩] := by
  obtain ⟨c, hrun, hc⟩ := exists_run (slotStep (smallBuild 8)) (fun _ _ => true)
    (fun s s' => ∃ i, slotStep (smallBuild 8) i s = some s') (fun _ _ => True)
    (fun i _ _ h => ⟨i, h⟩) (fun _ _ _ => trivial)
    (some (.quiet 0) :: List.replicate 9 none ++ [some (.quiet 328), some (.quiet 328)] ++
      List.replicate 105 none)
    (Prog.forEach [.round ⟨0, 0, 3⟩, .round ⟨0, 0, 3⟩] (QlCall.perform (smallBuild 8) 5),
      oneBroadcast)
    (fun c => decide (c.2.ghost.credits = [⟨some ⟨0, .ok, false, true, false⟩, 3, rewardSucces⟩]))
    (by decide +kernel)
  exact ⟨c, hrun, of_decide_eq_true hc⟩

end QlTsch
