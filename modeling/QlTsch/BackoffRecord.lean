/-
# `QlTsch.BackoffRecord` — a backoff window, timeslot by timeslot

The record of a run is about one neighbor: in which timeslot, by the ASN, its window was
counted down, one of its packets was selected on a Shared link, a window was drawn for
it or its backoff was reset.

`update_link_backoff` is called at two places of the slot operation: for the best link,
when it is skipped for the backup (`startBackoff`), and in each round of the catch-up
loop for the link in use (`roundEvents`); in between an attempt may come to its end
(`attemptBackoff`).  `Rounds` is what the loop does: one timeslot a round, each counted
once at most.

Two events are there to be excluded.  `overlap`: the slot skips its best link, which
counts the window down, for a backup on which the window counts again or the neighbor
is served.  `relinked`: during a slot, a process changes the link in use or the link
counter of the neighbor.
-/
import QlTsch.ChannelHopping
import QlTsch.CsmaState
import QlTsch.ReceptionOpportunity
import QlTsch.TransmitAttempts

namespace QlTsch

open Interleave

variable {cfg : Config}

/-! ## The record -/

inductive BackoffAct where
  /-- the window is counted down -/
  | counted
  /-- a packet of the neighbor is selected on a Shared link -/
  | selected
  /-- `tsch_queue_backoff_inc` has drawn `r` -/
  | drawn (r : Nat)
  | reset
  | overlap
  | relinked
deriving DecidableEq, Repr

structure BackoffEvent where
  asn : Nat
  act : BackoffAct
deriving DecidableEq, Repr

/-- The window of `n`. -/
def TschState.window (n : LinkAddr) (s : TschState) : Nat := (s.queue.neighbors n).backoffWindow

def TschState.event (a : BackoffAct) (s : TschState) : BackoffEvent := ⟨s.slot.tschCurrentAsn, a⟩

/-- Link `l` is one of those on which the window of `n` is counted down. -/
def countsOn (cfg : Config) (n : LinkAddr) (s : TschState) (l : Nat) : Bool :=
  (s.link l).linkOptions.tx && (s.link l).linkOptions.shared &&
    backoffWindowCounts cfg (s.link l).addr n (s.queue.neighbors n)

/-- The slot has a packet of `n` and a Shared link. -/
def TschState.serves (n : LinkAddr) (s : TschState) : Bool :=
  s.slot.currentPacket.isSome && s.slot.currentNeighbor == some n &&
    s.slot.currentLink.any fun l => (s.link l).linkOptions.shared

/-- The window is counted down between the two states. -/
def countEvents (n : LinkAddr) (s s' : TschState) : List BackoffEvent :=
  if s'.window n < s.window n then [s.event .counted] else []

/-! ## The start of a slot -/

/-- The best link of the slot that is about to start, and the backup it is skipped for. -/
def skippedFor (s : TschState) : Option (Nat × Nat) :=
  match s.slot.currentLink with
  | some l =>
      if slotBegins s then
        (doSkipBestLink l (getCurrentPacket l s.disarm.enterSlot)).map fun b => (l, b)
      else none
  | none => none

/-- The window of `n` is counted down on the best link, which is skipped for a Shared
link, and there it counts again, or it is used up and a packet of `n` is selected. -/
def overlaps (cfg : Config) (n : LinkAddr) (s : TschState) : Bool :=
  match skippedFor s with
  | some (l, b) =>
      !tschIsLocked s && decide (n ∈ s.queue.tschNeighbors) && countsOn cfg n s l &&
        ((countsOn cfg n s b && decide (s.window n ≠ 1)) ||
          ((s.link b).linkOptions.shared &&
            (getPacketAndNeighborForLink (updateLinkBackoff cfg (some l) s) (s.link b)).1.isSome &&
            (getPacketAndNeighborForLink (updateLinkBackoff cfg (some l) s) (s.link b)).2 == some n))
  | none => false

/-- What the start of a slot does to the backoff of `n`. -/
def startBackoff (cfg : Config) (n : LinkAddr) (s : TschState) : List BackoffEvent :=
  if s.slot.currentLink.isSome && slotBegins s then
    countEvents n s (takeUp cfg s) ++ (if overlaps cfg n s then [s.event .overlap] else []) ++
      if (takeUp cfg s).serves n then [s.event .selected] else []
  else []

/-! ## The end of an attempt -/

/-- The draw of `tsch_queue_backoff_inc`. -/
def backoffDraw (cfg : Config) (rand : Nat) (e : TschNeighbor) : Nat :=
  (rand >>> 6) % (1 <<< (min (e.backoffExponent + 1) cfg.tschMacMaxBe % 256)) % 256

/-- A failure on a Shared link is one that a window is drawn for. -/
def drawsWindow (st : MacStatus) (e : TschNeighbor) (link : TschLink) : Prop :=
  st ≠ .ok ∧ e.isBroadcast = false ∧ link.linkOptions.shared = true

instance (st : MacStatus) (e : TschNeighbor) (link : TschLink) :
    Decidable (drawsWindow st e link) :=
  inferInstanceAs (Decidable (st ≠ .ok ∧ e.isBroadcast = false ∧ link.linkOptions.shared = true))

/-- What the event of an interrupt does to the backoff of `n`. -/
def attemptBackoff (cfg : Config) (n : LinkAddr) (i : SlotInput) (e : SlotEvent) (s : TschState) :
    List BackoffEvent :=
  match e with
  | .attempt m _ l st =>
      if m = n then
        if drawsWindow st (s.queue.neighbors n) (s.link l) then
          [s.event (.drawn (backoffDraw cfg i.rand (s.queue.neighbors n)))]
        else if (e.apply cfg i s).window n ≠ s.window n then [s.event .reset]
        else []
      else []
  | .quiet | .reception _ _ => []

/-! ## The end of a slot -/

/-- The rounds of the catch-up loop. -/
def roundEvents (cfg : Config) (n : LinkAddr) : List LoopInput → TschState → List BackoffEvent
  | [], _ => []
  | i :: is, s =>
      let r := slotEndRound cfg i s
      countEvents n s r.1 ++
        if tschScheduleSlotOperation cfg s.slot.currentSlotStart r.2 i.now i.rtimerOk then []
        else roundEvents cfg n is r.1

def endEvents (cfg : Config) (n : LinkAddr) (i : SlotInput) (s : TschState) : List BackoffEvent :=
  if s.slot.tschIsCoordinator then roundEvents cfg n i.loop (s.keepTime i.clockTime)
  else if desynchronized cfg s then [] else roundEvents cfg n i.loop s

/-! ## Steps -/

/-- `tsch_schedule_add_link` refuses a timeslot outside its slotframe. -/
def ValidSchedule (s : TschState) : Prop := s.lock.tschLocked = false → s.sched.TimeslotsFit

instance (s : TschState) : Decidable (ValidSchedule s) :=
  inferInstanceAs (Decidable (s.lock.tschLocked = false → s.sched.TimeslotsFit))

/-- A slot interrupt, as `slotStep_stops` splits it. -/
inductive BackoffStep (cfg : Config) (n : LinkAddr) :
    List BackoffEvent → TschState → TschState → Prop
  /-- outside a network -/
  | idle {i : SlotInput} {s s' : TschState} : slotStep cfg i s = some s' →
      s.slot.pc = .asleep → s.slot.tschIsAssociated = false → BackoffStep cfg n [] s s'
  | yield {i : SlotInput} {s s' : TschState} : ValidSchedule s → slotStep cfg i s = some s' →
      s'.slot.pc ≠ .asleep → BackoffStep cfg n (startBackoff cfg n s) s s'
  /-- the slot ends in state `w`, after its event -/
  | finish {i : SlotInput} {s w s' : TschState} : ValidSchedule s → slotStep cfg i s = some s' →
      (s.slot.pc = .asleep → s.slot.tschIsAssociated = true) → w.kept = (takeUp cfg s).kept →
      endOfSlot cfg i ((slotEvent cfg i s).apply cfg i w) = some s' →
      BackoffStep cfg n (startBackoff cfg n s ++ attemptBackoff cfg n i (slotEvent cfg i s) w ++
        endEvents cfg n i ((slotEvent cfg i s).apply cfg i w)) s s'

/-- During a slot a process changes the link in use, or the link comes to count. -/
def relinks (cfg : Config) (n : LinkAddr) (s s' : TschState) : Bool :=
  s.slot.pc != .asleep && s'.slot.currentLink.any fun l =>
    s'.link l != s.link l || (!countsOn cfg n s l && countsOn cfg n s' l)

/-- What an action of a process does to the backoff of `n`. -/
def processBackoff (cfg : Config) (n : LinkAddr) (s s' : TschState) : List BackoffEvent :=
  (if s'.window n ≠ s.window n then [s.event .reset] else []) ++
    if relinks cfg n s s' then [s.event .relinked] else []

/-! ## Counting down -/

section
variable {n : LinkAddr} {s : TschState}

theorem countsOn_iff {l : Nat} : countsOn cfg n s l = true ↔
    ((s.link l).linkOptions.tx = true ∧ (s.link l).linkOptions.shared = true) ∧
      backoffWindowCounts cfg (s.link l).addr n (s.queue.neighbors n) = true := by
  simp only [countsOn, Bool.and_eq_true]

theorem countsOn_window {l : Nat} (h : countsOn cfg n s l = true) : s.window n ≠ 0 := by
  have hcounts := (countsOn_iff.mp h).2
  simp only [backoffWindowCounts, Bool.and_eq_true] at hcounts
  exact bne_iff_ne.mp hcounts.1

variable (cfg n s) in
/-- `update_link_backoff` counts the window down on the links where it counts. -/
theorem updateLinkBackoff_window (l : Option Nat) :
    (updateLinkBackoff cfg l s).window n = s.window n ∨
      (updateLinkBackoff cfg l s).window n + 1 = s.window n ∧
        (tschIsLocked s = false ∧ n ∈ s.queue.tschNeighbors) ∧
        ∃ p, l = some p ∧ countsOn cfg n s p = true := by
  cases l with
  | none => exact .inl rfl
  | some p =>
      simp only [updateLinkBackoff]
      split
      · rename_i hopt
        simp only [tschQueueUpdateAllBackoffWindows]
        split
        · exact .inl rfl
        · rename_i hfree
          by_cases hcounts : n ∈ s.queue.tschNeighbors ∧
              backoffWindowCounts cfg (s.link p).addr n (s.queue.neighbors n) = true
          · have hon : countsOn cfg n s p = true :=
              countsOn_iff.mpr ⟨Bool.and_eq_true_iff.mp hopt, hcounts.2⟩
            have hw : (s.queue.neighbors n).backoffWindow ≠ 0 := countsOn_window hon
            refine .inr ⟨?_, ⟨Bool.eq_false_iff.mpr hfree, hcounts.1⟩, p, rfl, hon⟩
            simp only [TschState.window, if_pos hcounts]
            exact Nat.sub_one_add_one hw
          · refine .inl ?_
            simp only [TschState.window, if_neg hcounts]
      · exact .inl rfl

/-- Which links count, the window apart, is the business of processes. -/
theorem countsOn_of_owned {s' : TschState} {l : Nat} (ho : s'.owned = s.owned)
    (hw : s.window n ≠ 0) (h : countsOn cfg n s' l = true) : countsOn cfg n s l = true := by
  have hlink : s'.link l = s.link l :=
    congrArg (fun v : ScheduleVars => v.links l) (sched_of_owned ho)
  have hcount : (s'.queue.neighbors n).txLinksCount = (s.queue.neighbors n).txLinksCount :=
    congrArg (fun o : Owned => o.view.txLinks n) ho
  obtain ⟨hopt, hcounts⟩ := countsOn_iff.mp h
  rw [hlink] at hopt hcounts
  refine countsOn_iff.mpr ⟨hopt, ?_⟩
  simp only [backoffWindowCounts, Bool.and_eq_true, hcount] at hcounts ⊢
  exact ⟨bne_iff_ne.mpr hw, hcounts.2⟩

theorem countEvents_same {s' : TschState} (h : s'.window n = s.window n) : countEvents n s s' = [] := by
  simp only [countEvents, h, lt_irrefl, if_false]

theorem countEvents_down {s' : TschState} (h : s'.window n + 1 = s.window n) :
    countEvents n s s' = [s.event .counted] := by
  have hlt : s'.window n < s.window n := by omega
  simp only [countEvents, if_pos hlt]

/-! ## The start of a slot -/

variable (cfg) in
theorem updateLinkBackoff_of_queue {t : TschState} (hsched : t.sched = s.sched)
    (hlock : t.lock = s.lock) (hqueue : t.queue = s.queue) (l : Option Nat) :
    updateLinkBackoff cfg l t = { t with queue := (updateLinkBackoff cfg l s).queue } := by
  cases l with
  | none =>
      show t = { t with queue := s.queue }
      rw [← hqueue]
  | some p =>
      have hlink : t.link p = s.link p := congrArg (fun v : ScheduleVars => v.links p) hsched
      have hlocked : tschIsLocked t = tschIsLocked s := congrArg LockVars.tschLocked hlock
      simp only [updateLinkBackoff, hlink, tschQueueUpdateAllBackoffWindows, hlocked]
      split
      · split
        · rw [← hqueue]
        · rw [hqueue]
      · rw [← hqueue]

theorem takeUp_begins {l : Nat} (hl : s.slot.currentLink = some l) (hb : slotBegins s = true) :
    takeUp cfg s = chooseLink cfg l s.disarm.enterSlot := by
  simp only [takeUp, hl, hb, if_true]

theorem takeUp_idle (h : (s.slot.currentLink.isSome && slotBegins s) = false) : takeUp cfg s = s := by
  simp only [takeUp]
  split
  · rename_i l hl
    rw [hl, Option.isSome_some, Bool.true_and] at h
    simp only [h, Bool.false_eq_true, if_false]
  · rfl

variable (cfg) in
theorem takeUp_asn (s : TschState) : (takeUp cfg s).slot.tschCurrentAsn = s.slot.tschCurrentAsn := by
  simp only [takeUp]
  split
  · split
    · exact (chooseLink_burst cfg _ s.disarm.enterSlot).2.1
    · rfl
  · rfl

/-- A packet on a Shared link is one of a neighbor that is not in backoff. -/
theorem getPacketForNbr_window {link : TschLink} {p : Nat}
    (h : tschQueueGetPacketForNbr s (some n) link = some p) (hsh : link.linkOptions.shared = true) :
    s.window n = 0 := by
  simp only [tschQueueGetPacketForNbr] at h
  split at h
  · cases h
  · split at h
    · cases h
    · split at h
      · cases h
      · rename_i hexp
        rw [hsh, Bool.true_and, Bool.not_eq_true', Bool.not_eq_false, tschQueueBackoffExpired,
          beq_iff_eq] at hexp
        exact hexp

theorem getPacketAndNeighbor_window {link : TschLink} {p : Nat}
    (h : getPacketAndNeighborForLink s link = (some p, some n))
    (hsh : link.linkOptions.shared = true) : s.window n = 0 := by
  simp only [getPacketAndNeighborForLink] at h
  split at h
  · split at h
    · simp only [getDataPacket] at h
      split at h
      · split at h
        · rename_i m q hany
          cases h
          simp only [tschQueueGetUnicastPacketForAny] at hany
          split at hany
          · cases hany
          · obtain ⟨k, -, hk⟩ := List.exists_of_findSome?_eq_some hany
            split at hk
            · obtain ⟨q', hq', heq⟩ := Option.map_eq_some_iff.mp hk
              cases heq
              exact getPacketForNbr_window hq' hsh
            · cases hk
        · cases h
      · obtain ⟨hp, hn⟩ := Prod.ext_iff.mp h
        dsimp only at hp hn
        rw [hn] at hp
        exact getPacketForNbr_window hp hsh
    · simp only [getEbPacket] at h
      split at h
      · obtain ⟨hp, hn⟩ := Prod.ext_iff.mp h
        dsimp only at hp hn
        rw [hn] at hp
        exact getPacketForNbr_window hp hsh
      · cases h
  · cases h

theorem getPacketAndNeighbor_of_queue {t : TschState} (hlock : t.lock = s.lock)
    (hqueue : t.queue = s.queue) (link : TschLink) :
    getPacketAndNeighborForLink t link = getPacketAndNeighborForLink s link := by
  have ht : t = { s with sched := t.sched, node := t.node, slot := t.slot, ghost := t.ghost } := by
    rw [← hlock, ← hqueue]
  rw [ht]
  rfl

theorem serves_iff : s.serves n = true ↔
    (∃ p, s.slot.currentPacket = some p) ∧ s.slot.currentNeighbor = some n ∧
      ∃ l, s.slot.currentLink = some l ∧ (s.link l).linkOptions.shared = true := by
  simp only [TschState.serves, Bool.and_eq_true, Option.isSome_iff_exists, beq_iff_eq, Option.any_eq_true,
    and_assoc]

theorem takeUp_serves_window (hl : s.slot.currentLink.isSome = true) (hb : slotBegins s = true)
    (h : (takeUp cfg s).serves n = true) : (takeUp cfg s).window n = 0 := by
  obtain ⟨l, hl⟩ := Option.isSome_iff_exists.mp hl
  obtain ⟨⟨p, hp⟩, hn, l', hl', hsh⟩ := serves_iff.mp h
  rw [takeUp_begins hl hb] at hp hn hl' hsh ⊢
  cases hskip : doSkipBestLink l (getCurrentPacket l s.disarm.enterSlot) with
  | none =>
      simp only [chooseLink, hskip] at hp hn hl' hsh ⊢
      cases hl.symm.trans hl'
      have hsel : getPacketAndNeighborForLink s (s.link l) = (some p, some n) := Prod.ext hp hn
      exact getPacketAndNeighbor_window hsel hsh
  | some b =>
      simp only [chooseLink, hskip] at hp hn hl' hsh ⊢
      cases hl'
      exact getPacketAndNeighbor_window (Prod.ext hp hn) hsh

/-- The slot that starts, if it is not one that overlaps: its best link has counted or
not, and if it has, neither does the link in use count nor is it `n` that is served. -/
theorem startBackoff_begins (hl : s.slot.currentLink.isSome = true) (hb : slotBegins s = true)
    (hno : overlaps cfg n s = false) :
    ((takeUp cfg s).window n = s.window n ∧ startBackoff cfg n s =
      if (takeUp cfg s).serves n then [s.event .selected] else []) ∨
    ((takeUp cfg s).window n + 1 = s.window n ∧ startBackoff cfg n s = [s.event .counted] ∧
      (takeUp cfg s).serves n = false ∧
      ∀ l, (takeUp cfg s).slot.currentLink = some l → countsOn cfg n (takeUp cfg s) l = false) := by
  have hstart : startBackoff cfg n s = countEvents n s (takeUp cfg s) ++
      if (takeUp cfg s).serves n then [s.event .selected] else [] := by
    simp only [startBackoff, hl, hb, hno, Bool.and_self, Bool.false_eq_true, if_true, if_false,
      List.append_nil]
  obtain ⟨l, hl⟩ := Option.isSome_iff_exists.mp hl
  have hsame : (takeUp cfg s).window n = s.window n → startBackoff cfg n s =
      if (takeUp cfg s).serves n then [s.event .selected] else [] := by
    intro hw
    rw [hstart, countEvents_same hw, List.nil_append]
  cases hskip : doSkipBestLink l (getCurrentPacket l s.disarm.enterSlot) with
  | none =>
      have hw : (takeUp cfg s).window n = s.window n := by
        rw [takeUp_begins hl hb]
        simp only [chooseLink, hskip]
        rfl
      exact .inl ⟨hw, hsame hw⟩
  | some b =>
      -- the same count, as if it came before anything else
      have hcount := updateLinkBackoff_of_queue cfg (s := s)
        (t := getCurrentPacket l s.disarm.enterSlot) rfl rfl rfl (some l)
      have hu : takeUp cfg s = getCurrentPacket b (switchToBackup b
          { getCurrentPacket l s.disarm.enterSlot with
            queue := (updateLinkBackoff cfg (some l) s).queue }) := by
        rw [takeUp_begins hl hb, ← hcount]
        simp only [chooseLink, hskip]
      have hw : (takeUp cfg s).window n = (updateLinkBackoff cfg (some l) s).window n := by
        rw [hu]
        rfl
      rcases updateLinkBackoff_window cfg n s (some l) with
        hwin | ⟨hwin, ⟨hfree, hmem⟩, l', hl', hon⟩
      · exact .inl ⟨hw.trans hwin, hsame (hw.trans hwin)⟩
      · cases hl'
        have hlocked : (updateLinkBackoff cfg (some l) s).lock = s.lock := updateLinkBackoff_lock cfg _ s
        have hskipped : skippedFor s = some (l, b) := by
          simp only [skippedFor, hl, hb, hskip, if_true, Option.map_some]
        simp only [overlaps, hskipped, hfree, hmem, hon, Bool.not_false, decide_true, Bool.true_and,
          Bool.or_eq_false_iff] at hno
        have hdown : (takeUp cfg s).window n + 1 = s.window n := by rw [hw, hwin]
        have hpacket := getPacketAndNeighbor_of_queue (s := updateLinkBackoff cfg (some l) s)
          (t := switchToBackup b { getCurrentPacket l s.disarm.enterSlot with
            queue := (updateLinkBackoff cfg (some l) s).queue }) hlocked.symm rfl (s.link b)
        have hserves : (takeUp cfg s).serves n = false := by
          refine Bool.eq_false_iff.mpr ?_
          intro h
          obtain ⟨⟨p, hp⟩, hn, l', hl', hsh⟩ := serves_iff.mp h
          rw [hu] at hp hn hl' hsh
          cases hl'
          have hp' : (getPacketAndNeighborForLink (updateLinkBackoff cfg (some l) s) (s.link b)).1 =
              some p := hpacket ▸ hp
          have hn' : (getPacketAndNeighborForLink (updateLinkBackoff cfg (some l) s) (s.link b)).2 =
              some n := hpacket ▸ hn
          have hsh' : (s.link b).linkOptions.shared = true := hsh
          have hselect := hno.2
          rw [hp', hn', hsh'] at hselect
          simp at hselect
        refine .inr ⟨hdown, ?_, hserves, fun p hp => ?_⟩
        · rw [hstart, countEvents_down hdown, hserves]
          rfl
        · have hp' : p = b := by
            rw [hu] at hp
            exact (Option.some.inj hp).symm
          subst hp'
          refine Bool.eq_false_iff.mpr ?_
          intro h
          have hw1 : s.window n ≠ 1 := by
            have := countsOn_window h
            omega
          have honb := countsOn_of_owned (congrArg Rest.owned (takeUp_rest cfg s)) (countsOn_window hon) h
          have hcounts := hno.1
          rw [honb, decide_eq_true hw1] at hcounts
          cases hcounts

/-! ## The end of an attempt -/

theorem removePacketFromQueue_neighbor (m n : LinkAddr) (s : TschState) :
    ∃ r, (tschQueueRemovePacketFromQueue m s).2.queue.neighbors n =
      { s.queue.neighbors n with txRingbuf := r } := by
  simp only [tschQueueRemovePacketFromQueue]
  split
  · exact ⟨_, rfl⟩
  · split
    · exact ⟨_, rfl⟩
    · by_cases hn : n = m
      · subst hn
        simp only [TschState.modifyNeighbor, QueueVars.modifyNeighbor, Function.update_self]
        exact ⟨_, rfl⟩
      · simp only [TschState.modifyNeighbor, QueueVars.modifyNeighbor, Function.update_of_ne hn]
        exact ⟨_, rfl⟩

theorem modifyNeighbor_window (f : TschNeighbor → TschNeighbor) (n : LinkAddr) (s : TschState) :
    (s.modifyNeighbor n f).window n = (f (s.queue.neighbors n)).backoffWindow := by
  simp only [TschState.window, TschState.modifyNeighbor, QueueVars.modifyNeighbor,
    Function.update_self]

theorem modifyNeighbor_window_of_ne {m n : LinkAddr} (hn : n ≠ m) (f : TschNeighbor → TschNeighbor)
    (s : TschState) : (s.modifyNeighbor m f).window n = s.window n := by
  simp only [TschState.window, TschState.modifyNeighbor, QueueVars.modifyNeighbor,
    Function.update_of_ne hn]

variable (cfg) in
/-- `tsch_queue_packet_sent`: a window is drawn, or it stays or becomes 0. -/
theorem packetSent_window (n m : LinkAddr) (p : Nat) (link : TschLink) (st : MacStatus) (rand : Nat)
    (s : TschState) :
    (n ≠ m → (tschQueuePacketSent cfg m p link st rand s).2.window n = s.window n) ∧
    (drawsWindow st (s.queue.neighbors n) link →
      (tschQueuePacketSent cfg n p link st rand s).2.window n =
        (backoffDraw cfg rand (s.queue.neighbors n) + 1) % 256) ∧
    (¬ drawsWindow st (s.queue.neighbors n) link →
      (tschQueuePacketSent cfg n p link st rand s).2.window n = s.window n ∨
        (tschQueuePacketSent cfg n p link st rand s).2.window n = 0) := by
  have hrm : ∀ m, (tschQueueRemovePacketFromQueue m s).2.window n = s.window n := by
    intro m
    obtain ⟨r, hr⟩ := removePacketFromQueue_neighbor m n s
    show ((tschQueueRemovePacketFromQueue m s).2.queue.neighbors n).backoffWindow = _
    rw [hr]
    rfl
  have hdrop : ∀ m, ∀ d : Prop, [Decidable d] →
      ∃ r, (if d then (tschQueueRemovePacketFromQueue m s).2 else s).queue.neighbors n =
        { s.queue.neighbors n with txRingbuf := r } := by
    intro m d _
    split
    · exact removePacketFromQueue_neighbor m n s
    · exact ⟨_, rfl⟩
  have hdropw : ∀ m, ∀ d : Prop, [Decidable d] →
      (if d then (tschQueueRemovePacketFromQueue m s).2 else s).window n = s.window n := by
    intro m d _
    obtain ⟨r, hr⟩ := hdrop m d
    show ((if d then (tschQueueRemovePacketFromQueue m s).2 else s).queue.neighbors n).backoffWindow = _
    rw [hr]
    rfl
  refine ⟨fun hn => ?_, ?_, fun hno => ?_⟩
  · simp only [tschQueuePacketSent]
    split
    · split
      · rw [modifyNeighbor_window_of_ne hn]
        exact hrm m
      · exact hrm m
    · split
      · rw [modifyNeighbor_window_of_ne hn]
        exact hdropw m _
      · exact hdropw m _
  · rintro ⟨hst, hb, hsh⟩
    simp only [tschQueuePacketSent, if_neg hst, hb, hsh, Bool.not_false, Bool.and_self, if_true]
    rw [modifyNeighbor_window]
    obtain ⟨r, hr⟩ := hdrop n ((s.queue.packets p).transmissions ≥ (s.queue.packets p).maxTransmissions)
    rw [hr]
    rfl
  · simp only [tschQueuePacketSent]
    split
    · split
      · rw [modifyNeighbor_window]
        exact .inr rfl
      · exact .inl (hrm n)
    · rename_i hst
      split
      · rename_i hdraw
        rw [Bool.and_eq_true, Bool.not_eq_true'] at hdraw
        exact absurd ⟨hst, hdraw⟩ hno
      · exact .inl (hdropw n _)

theorem recordOutcome_queue (p l : Nat) (st : MacStatus) (s : TschState) :
    (recordOutcome p l st s).queue.neighbors = s.queue.neighbors := by
  simp only [recordOutcome]
  split <;> rfl

theorem backoffDraw_lt (hmax : cfg.tschMacMaxBe ≤ 7) (rand : Nat) (e : TschNeighbor) :
    backoffDraw cfg rand e < 128 := by
  have hpow : 2 ^ (min (e.backoffExponent + 1) cfg.tschMacMaxBe % 256) ≤ 2 ^ 7 :=
    Nat.pow_le_pow_right (by decide) (by omega)
  have hlt : (rand >>> 6) % 2 ^ (min (e.backoffExponent + 1) cfg.tschMacMaxBe % 256) <
      2 ^ (min (e.backoffExponent + 1) cfg.tschMacMaxBe % 256) := Nat.mod_lt _ (Nat.two_pow_pos _)
  simp only [backoffDraw, Nat.one_shiftLeft]
  omega

variable (cfg) in
theorem apply_owned (i : SlotInput) (e : SlotEvent) (s : TschState) :
    (e.apply cfg i s).owned = s.owned := by
  cases e with
  | quiet => rfl
  | attempt m p l st => exact finishTx_owned m p l st i.rand s
  | reception l f => exact (countReception_owned l s).trans rfl

variable (cfg) in
theorem apply_slot (i : SlotInput) (e : SlotEvent) (s : TschState) :
    (e.apply cfg i s).slot.tschCurrentAsn = s.slot.tschCurrentAsn ∧
      (e.apply cfg i s).slot.currentLink = s.slot.currentLink := by
  cases e with
  | quiet => exact ⟨rfl, rfl⟩
  | attempt m p l st =>
      obtain ⟨q, d, hspec⟩ := finishTx_spec cfg m p l st i.rand s
      simp only [SlotEvent.apply, hspec, recordOutcome]
      split <;> exact ⟨rfl, rfl⟩
  | reception l f =>
      obtain ⟨t, ht⟩ := countReception_spec l s
      simp only [SlotEvent.apply, ht]
      exact ⟨rfl, rfl⟩

/-- The event draws a window for `n`, resets its backoff, or does nothing to it. -/
theorem attemptBackoff_cases (hmax : cfg.tschMacMaxBe ≤ 7) (i : SlotInput) (e : SlotEvent) :
    (attemptBackoff cfg n i e s = [] ∧ (e.apply cfg i s).window n = s.window n) ∨
    (attemptBackoff cfg n i e s = [s.event .reset] ∧ (e.apply cfg i s).window n = 0) ∨
    ∃ p l st r, e = .attempt n p l st ∧ (s.link l).linkOptions.shared = true ∧
      attemptBackoff cfg n i e s = [s.event (.drawn r)] ∧ (e.apply cfg i s).window n = r + 1 := by
  cases e with
  | quiet => exact .inl ⟨rfl, rfl⟩
  | reception l f =>
      refine .inl ⟨rfl, ?_⟩
      obtain ⟨t, ht⟩ := countReception_spec l s
      simp only [SlotEvent.apply, ht]
      rfl
  | attempt m p l st =>
      -- the queues are those after `tsch_queue_packet_sent`
      have hrec := recordOutcome_queue p l st s
      have hlink : (recordOutcome p l st s).link l = s.link l :=
        congrArg (fun v : ScheduleVars => v.links l) (sched_of_owned (recordOutcome_owned p l st s))
      have hwrec : (recordOutcome p l st s).window n = s.window n := by
        simp only [TschState.window, hrec]
      obtain ⟨hother, hdraw, hkeep⟩ := packetSent_window cfg n m p ((recordOutcome p l st s).link l) st
        i.rand (recordOutcome p l st s)
      have hfinish : ∀ m, (finishTx cfg m p l st i.rand s).window n =
          (tschQueuePacketSent cfg m p ((recordOutcome p l st s).link l) st i.rand
            (recordOutcome p l st s)).2.window n := by
        intro m
        simp only [finishTx, dequeueOutcome]
        split <;> rfl
      rw [hlink, hrec] at hdraw hkeep
      by_cases hm : m = n
      · subst hm
        by_cases hdraws : drawsWindow st (s.queue.neighbors m) (s.link l)
        · have hlt := backoffDraw_lt hmax i.rand (s.queue.neighbors m)
          refine .inr (.inr ⟨p, l, st, backoffDraw cfg i.rand (s.queue.neighbors m), rfl, hdraws.2.2,
            ?_, ?_⟩)
          · simp only [attemptBackoff, if_true, if_pos hdraws]
          · simp only [SlotEvent.apply]
            rw [hfinish, hlink, hdraw hdraws]
            omega
        · have happly : ((SlotEvent.attempt m p l st).apply cfg i s).window m = s.window m ∨
              ((SlotEvent.attempt m p l st).apply cfg i s).window m = 0 := by
            simp only [SlotEvent.apply]
            rw [hfinish, hlink, ← hwrec]
            exact hkeep hdraws
          by_cases hsame : ((SlotEvent.attempt m p l st).apply cfg i s).window m = s.window m
          · refine .inl ⟨?_, hsame⟩
            simp only [attemptBackoff, if_true, if_neg hdraws, hsame, ne_eq, not_true_eq_false, if_false]
          · refine .inr (.inl ⟨?_, happly.resolve_left hsame⟩)
            simp only [attemptBackoff, if_true, if_neg hdraws, ne_eq, hsame, not_false_eq_true]
      · refine .inl ⟨?_, ?_⟩
        · simp only [attemptBackoff, if_neg hm]
        · simp only [SlotEvent.apply]
          rw [hfinish, hother (Ne.symm hm), hwrec]

/-! ## The end of a slot -/

theorem timeslotDiff_pos (hs : ValidSchedule s) (asn : Nat) :
    0 < timeslotDiff (tschScheduleGetNextActiveLink s asn) := by
  simp only [timeslotDiff]
  split
  · rename_i hsome
    obtain ⟨best, hbest⟩ := Option.isSome_iff_exists.mp hsome
    cases hlock : s.lock.tschLocked with
    | true =>
        simp only [tschScheduleGetNextActiveLink, tschIsLocked, hlock, if_true] at hbest
        cases hbest
    | false =>
        obtain ⟨b, hb, hq, ht⟩ := (bestOf_nextActiveLink hlock asn).best best hbest
        obtain ⟨hts, hsize⟩ := hs hlock b hb best hq
        rw [ht]
        exact (timeToTimeslot_spec asn hts hsize).1
  · exact Nat.one_pos

/-- What the catch-up loop does between `s` and `s'`: it goes through later and later
timeslots, and those that count the window down do so once. -/
structure Rounds (cfg : Config) (n : LinkAddr) (s s' : TschState) (es : List BackoffEvent) : Prop where
  asn : s.slot.tschCurrentAsn < s'.slot.tschCurrentAsn
  window : s'.window n + es.length = s.window n
  counted : ∀ e ∈ es, e.act = .counted ∧ s.slot.tschCurrentAsn ≤ e.asn ∧
    e.asn < s'.slot.tschCurrentAsn
  sorted : es.Pairwise fun e e' => e.asn < e'.asn
  /-- the timeslot of the slot that ends -/
  first : ∀ e ∈ es, e.asn = s.slot.tschCurrentAsn →
    ∃ l, s.slot.currentLink = some l ∧ countsOn cfg n s l = true

theorem ValidSchedule.of_owned {s' : TschState} (hs : ValidSchedule s) (ho : s'.owned = s.owned) :
    ValidSchedule s' := by
  intro hlock
  rw [sched_of_owned ho]
  rw [lock_of_owned ho] at hlock
  exact hs hlock

theorem nextLink_frame (hs : ValidSchedule s) :
    0 < (nextLink s).2 ∧ (nextLink s).1.slot.tschCurrentAsn = s.slot.tschCurrentAsn ∧
      (nextLink s).1.window n = s.window n ∧ (nextLink s).1.owned = s.owned := by
  simp only [nextLink]
  split
  · exact ⟨Nat.one_pos, rfl, rfl, rfl⟩
  · exact ⟨timeslotDiff_pos hs _, rfl, rfl, rfl⟩

variable (cfg n) in
theorem rounds_slotEndRound (hs : ValidSchedule s) (i : LoopInput) :
    Rounds cfg n s (slotEndRound cfg i s).1 (countEvents n s (slotEndRound cfg i s).1) ∧
      ValidSchedule (slotEndRound cfg i s).1 := by
  have hback := updateLinkBackoff_owned cfg s.slot.currentLink s
  have hasn : (updateLinkBackoff cfg s.slot.currentLink s).slot.tschCurrentAsn =
      s.slot.tschCurrentAsn := congrArg SlotVars.tschCurrentAsn (updateLinkBackoff_slot cfg _ s)
  obtain ⟨hdiff, hnasn, hnwin, hnowned⟩ := nextLink_frame (n := n) (hs.of_owned hback)
  -- the clock is advanced last
  have hlater : s.slot.tschCurrentAsn < (slotEndRound cfg i s).1.slot.tschCurrentAsn := by
    show s.slot.tschCurrentAsn <
      (nextLink (updateLinkBackoff cfg s.slot.currentLink s)).1.slot.tschCurrentAsn + (nextLink (updateLinkBackoff cfg s.slot.currentLink s)).2
    omega
  have hwin : (slotEndRound cfg i s).1.window n =
      (updateLinkBackoff cfg s.slot.currentLink s).window n := hnwin
  have howned : (slotEndRound cfg i s).1.owned = s.owned := hnowned.trans hback
  refine ⟨?_, hs.of_owned howned⟩
  rcases updateLinkBackoff_window cfg n s s.slot.currentLink with
    hw | ⟨hw, -, hon⟩
  · have hsame := hwin.trans hw
    rw [countEvents_same hsame]
    exact ⟨hlater, hsame, fun _ he => (by cases he), .nil, fun _ he => (by cases he)⟩
  · have hdown : (slotEndRound cfg i s).1.window n + 1 = s.window n := by rw [hwin, hw]
    rw [countEvents_down hdown]
    refine ⟨hlater, hdown, fun e he => ?_, List.pairwise_singleton _ _, fun _ _ _ => hon⟩
    rw [List.mem_singleton.mp he]
    exact ⟨rfl, le_refl _, hlater⟩

theorem rounds_scheduleNextSlot (hs : ValidSchedule s) {is : List LoopInput} {s' : TschState}
    (h : scheduleNextSlot cfg is s = some s') : Rounds cfg n s s' (roundEvents cfg n is s) := by
  induction h using scheduleNextSlot_induction with
  | armed i is s harmed =>
      obtain ⟨hround, -⟩ := rounds_slotEndRound cfg n hs i
      rw [roundEvents, if_pos harmed, List.append_nil]
      exact ⟨hround.asn, hround.window, hround.counted, hround.sorted, hround.first⟩
  | missed i is s s' hmissed _ ih =>
      obtain ⟨hround, hs'⟩ := rounds_slotEndRound cfg n hs i
      rw [roundEvents, if_neg (Bool.eq_false_iff.mp hmissed)]
      have hrest := ih hs'
      have hasn := hround.asn
      have hasn' := hrest.asn
      refine ⟨hasn.trans hasn', ?_, fun e he => ?_, ?_, fun e he hfirst => ?_⟩
      · rw [List.length_append, ← hround.window, ← hrest.window]
        omega
      · rcases List.mem_append.mp he with he | he
        · obtain ⟨hact, hge, hlt⟩ := hround.counted e he
          exact ⟨hact, hge, hlt.trans hasn'⟩
        · obtain ⟨hact, hge, hlt⟩ := hrest.counted e he
          exact ⟨hact, hasn.le.trans hge, hlt⟩
      · refine List.pairwise_append.mpr ⟨hround.sorted, hrest.sorted, ?_⟩
        intro e he e' he'
        exact (hround.counted e he).2.2.trans_le (hrest.counted e' he').2.1
      · rcases List.mem_append.mp he with he | he
        · exact hround.first e he hfirst
        · have hge := (hrest.counted e he).2.1
          omega

/-- The end of a slot goes through the rounds, or the node leaves the network. -/
theorem endEvents_spec (hs : ValidSchedule s) {i : SlotInput} {s' : TschState}
    (h : endOfSlot cfg i s = some s') : s'.slot.pc = .asleep ∧
    (Rounds cfg n s s' (endEvents cfg n i s) ∨
      endEvents cfg n i s = [] ∧ s'.slot.tschIsAssociated = false ∧
        s'.slot.tschCurrentAsn = s.slot.tschCurrentAsn ∧ s'.window n = s.window n) := by
  simp only [endOfSlot] at h
  simp only [endEvents]
  split at h
  · rename_i hcoord
    rw [if_pos hcoord]
    obtain ⟨t, ht, rfl⟩ := Option.map_eq_some_iff.mp h
    have hr := rounds_scheduleNextSlot (n := n) (s := s.keepTime i.clockTime) hs ht
    exact ⟨rfl, .inl ⟨hr.asn, hr.window, hr.counted, hr.sorted, hr.first⟩⟩
  · rename_i hcoord
    rw [if_neg hcoord]
    split at h
    · rename_i hdesync
      rw [if_pos hdesync]
      cases h
      exact ⟨rfl, .inr ⟨rfl, rfl, rfl, rfl⟩⟩
    · rename_i hdesync
      rw [if_neg hdesync]
      obtain ⟨t, ht, rfl⟩ := Option.map_eq_some_iff.mp h
      have hr := rounds_scheduleNextSlot (n := n) hs ht
      exact ⟨rfl, .inl ⟨hr.asn, hr.window, hr.counted, hr.sorted, hr.first⟩⟩

end

theorem BackoffStep.of_slotStep (n : LinkAddr) {i : SlotInput} {s s' : TschState}
    (hs : ValidSchedule s) (h : slotStep cfg i s = some s') : ∃ es, BackoffStep cfg n es s s' := by
  rcases slotStep_stops h with ⟨hpc, hassoc, -⟩ | ⟨hassoc, ⟨-, -, hpc⟩ | ⟨w, hk, hend⟩⟩
  · exact ⟨_, .idle h hpc hassoc⟩
  · exact ⟨_, .yield hs h hpc⟩
  · exact ⟨_, .finish hs h hassoc hk hend⟩

end QlTsch
