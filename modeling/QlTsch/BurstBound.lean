/-
# `QlTsch.BurstBound` — a node ends its bursts

A transmit slot asks for one more slot on its link, by the frame-pending bit, while
`tsch_current_burst_count + 1 < TSCH_BURST_MAX_LEN`.  The count goes up whenever the link
is kept for the next slot, be that slot used, skipped or missed, and whoever has asked for
it; it goes back to 0 when a link is taken from the schedule.  So between two resets it is
at least the number of frames sent with the bit (`BurstOk`), and these are fewer than
`TSCH_BURST_MAX_LEN` (`burst_bounded`).

A frame may get lost, and the link may be removed after it.  Then it is not counted, but
nothing more is sent before the next reset.

A run of the slot operation begins with `tsch_slot_operation_start`, which leaves the count
as it is, in any state between two slots, and goes on until the node leaves the network.
-/
import QlTsch.Lib.History
import QlTsch.NodeCalls
import QlTsch.BurstSlot

namespace QlTsch

open Interleave Interleave.Prog

variable {cfg : Config}

/-! ## Frames and resets -/

inductive BurstEvent where
  /-- a frame is sent; `requested`: the slot has set its frame-pending bit -/
  | sent (requested : Bool)
  /-- `tsch_current_burst_count = 0`, for a link from the schedule -/
  | reset
deriving DecidableEq, Repr

def BurstEvent.sent? : BurstEvent → Option Bool
  | .sent r => some r
  | .reset => none

def frames (es : List BurstEvent) : List Bool := es.filterMap BurstEvent.sent?

/-- The radio sends when the protothread goes on from the yield before the transmission. -/
def sentBy (s : TschState) : List BurstEvent :=
  match s.slot.pc with
  | .txBeforeTx locals => [.sent locals.burstLinkRequested]
  | .asleep | .txBeforeCca _ | .txBeforeAck _ | .rxBeforeListen | .rxBeforeAck _ => []

/-- The link in use at the end has been taken from the schedule: in the last round of the
catch-up loop, or in an earlier one, if there was none before. -/
def foundLink (s s' : TschState) : Bool :=
  s'.slot.currentLink.isSome && (s'.ghost.fromSchedule || s.slot.currentLink.isNone)

/-- A slot has ended and the next one is scheduled. -/
def resetBy (s s' : TschState) : List BurstEvent :=
  if s'.slot.pc = .asleep ∧ s'.slot.timer.isSome = true ∧ foundLink s s' = true then [.reset] else []

/-- What goes on beside the processes. -/
inductive BurstStep (cfg : Config) : List BurstEvent → TschState → TschState → Prop
  | slot {i : SlotInput} {s s' : TschState} : slotStep cfg i s = some s' →
      BurstStep cfg (sentBy s ++ resetBy s s') s s'
  | leave (s : TschState) : BurstStep cfg [] s s.disassociate
  | coordinator (b : Bool) (s : TschState) :
      BurstStep cfg [] s { s with slot := { s.slot with tschIsCoordinator := b } }

/-- **Bursts are bounded by `n`.**  In every stretch without a reset, fewer than `n` frames
have been sent with the bit; and if all frames but the last ask for the next, they are at
most `n`. -/
structure BurstsBounded (n : Nat) (es : List BurstEvent) : Prop where
  pending : ∀ a b c, es = a ++ b ++ c → .reset ∉ b → (frames b).count true < n
  burst : ∀ a b c, es = a ++ b ++ c → .reset ∉ b → ∀ fs f, frames b = fs ++ [f] →
    (∀ r ∈ fs, r = true) → (frames b).length ≤ n

@[simp] theorem frames_append (es fs : List BurstEvent) : frames (es ++ fs) = frames es ++ frames fs :=
  List.filterMap_append

/-! ## Since the last reset -/

def BurstEvent.note (k : Nat) : BurstEvent → Nat
  | .sent r => if r then k + 1 else k
  | .reset => 0

/-- How many frames have been sent with the bit since the last reset. -/
def sinceReset (es : List BurstEvent) : Nat := es.foldl BurstEvent.note 0

theorem sinceReset_concat (es : List BurstEvent) (e : BurstEvent) :
    sinceReset (es ++ [e]) = e.note (sinceReset es) := by
  rw [sinceReset, List.foldl_append]
  rfl

theorem sinceReset_append (es : List BurstEvent) {b : List BurstEvent} (hb : .reset ∉ b) :
    sinceReset (es ++ b) = sinceReset es + (frames b).count true := by
  induction b using List.reverseRecOn with
  | nil =>
      rw [List.append_nil]
      rfl
  | append_singleton b e ih =>
      rw [List.mem_append, not_or] at hb
      rw [← List.append_assoc, sinceReset_concat, ih hb.1, frames_append, List.count_append]
      cases e with
      | reset => exact absurd (List.mem_singleton_self _) hb.2
      | sent r => cases r <;> rfl

/-- At every moment so far, fewer than `n`. -/
def BoundedSoFar (n : Nat) (es : List BurstEvent) : Prop := ∀ a, a <+: es → sinceReset a < n

theorem BoundedSoFar.concat {n : Nat} {es : List BurstEvent} {e : BurstEvent}
    (h : BoundedSoFar n es) (he : e.note (sinceReset es) < n) : BoundedSoFar n (es ++ [e]) := by
  intro a ha
  rcases List.prefix_concat_iff.mp ha with rfl | ha
  · rw [sinceReset_concat]
    exact he
  · exact h a ha

theorem BoundedSoFar.bursts {n : Nat} {es : List BurstEvent} (h : BoundedSoFar n es) :
    BurstsBounded n es := by
  have hpending : ∀ a b c, es = a ++ b ++ c → .reset ∉ b → (frames b).count true < n := by
    rintro a b c rfl hb
    have hlt := h (a ++ b) (List.prefix_append _ _)
    rw [sinceReset_append a hb] at hlt
    omega
  refine ⟨hpending, ?_⟩
  intro a b c hes hb fs f hframes hall
  have hcount := hpending a b c hes hb
  have hfs : fs.count true = fs.length := List.count_eq_length.mpr fun r hr => (hall r hr).symm
  rw [hframes, List.count_append, hfs] at hcount
  rw [hframes, List.length_append, List.length_singleton]
  omega

/-! ## What a reset is -/

/-- A round of the catch-up loop takes a link from the schedule. -/
def takesLink (cfg : Config) : List LoopInput → TschState → Bool
  | [], _ => false
  | i :: is, s =>
      let r := slotEndRound cfg i s
      (r.1.ghost.fromSchedule && r.1.slot.currentLink.isSome) ||
        (!tschScheduleSlotOperation cfg s.slot.currentSlotStart r.2 i.now i.rtimerOk &&
          takesLink cfg is r.1)

variable (cfg) in
/-- One round keeps the link for the burst, or takes one from the schedule. -/
theorem slotEndRound_link (i : LoopInput) (s : TschState) :
    (slotEndRound cfg i s).1.slot.burstLinkScheduled = s.slot.burstLinkScheduled ∧
      (s.slot.burstLinkScheduled = true ∧ s.slot.currentLink.isSome = true ∧
          (slotEndRound cfg i s).1.slot.currentLink = s.slot.currentLink ∧
          (slotEndRound cfg i s).1.ghost.fromSchedule = false ∨
        (s.slot.burstLinkScheduled = false ∨ s.slot.currentLink.isNone = true) ∧
          (slotEndRound cfg i s).1.ghost.fromSchedule = true) := by
  have hslot := updateLinkBackoff_slot cfg s.slot.currentLink s
  have hflag : (updateLinkBackoff cfg s.slot.currentLink s).slot.burstLinkScheduled =
      s.slot.burstLinkScheduled := by rw [hslot]
  have hlink : (updateLinkBackoff cfg s.slot.currentLink s).slot.currentLink = s.slot.currentLink := by
    rw [hslot]
  simp only [slotEndRound, nextLink, advanceClock, hflag, hlink]
  split
  · rename_i hb
    rw [Bool.and_eq_true] at hb
    exact ⟨hflag, .inl ⟨hb.1, hb.2, hlink, rfl⟩⟩
  · rename_i hb
    rw [Bool.and_eq_true, not_and_or] at hb
    refine ⟨hflag, .inr ⟨hb.imp Bool.eq_false_iff.mpr ?_, rfl⟩⟩
    intro hnone
    rw [Option.isNone_iff_eq_none]
    exact Option.not_isSome_iff_eq_none.mp hnone

theorem fromSchedule_of_noBurst {is : List LoopInput} {s t : TschState}
    (hb : s.slot.burstLinkScheduled = false) (h : scheduleNextSlot cfg is s = some t) :
    t.ghost.fromSchedule = true := by
  induction h using scheduleNextSlot_induction with
  | armed i is s _ =>
      obtain ⟨-, hround⟩ := slotEndRound_link cfg i s
      rcases hround with ⟨hyes, -⟩ | ⟨-, hfrom⟩
      · cases hyes.symm.trans hb
      · exact hfrom
  | missed i is s t _ _ ih =>
      obtain ⟨hflag, -⟩ := slotEndRound_link cfg i s
      exact ih (hflag.trans hb)

/-- What is read off the states before and after the loop is what happens in it. -/
theorem foundLink_iff {is : List LoopInput} {s t : TschState}
    (h : scheduleNextSlot cfg is s = some t) (hlink : t.slot.currentLink.isSome = true) :
    foundLink s t = true ↔ takesLink cfg is s = true := by
  induction h using scheduleNextSlot_induction with
  | armed i is s harmed =>
      obtain ⟨-, hround⟩ := slotEndRound_link cfg i s
      have hlink : (slotEndRound cfg i s).1.slot.currentLink.isSome = true := hlink
      simp only [foundLink, takesLink, harmed, TschState.armTimer, hlink, Bool.not_true,
        Bool.false_and, Bool.or_false, Bool.and_true, Bool.true_and, Bool.or_eq_true]
      refine or_iff_left_of_imp ?_
      intro hnone
      rcases hround with ⟨-, hsome, -⟩ | ⟨-, hfrom⟩
      · rw [Option.isNone_iff_eq_none.mp hnone] at hsome
        cases hsome
      · exact hfrom
  | missed i is s t hmissed h ih =>
      obtain ⟨hflag, hround⟩ := slotEndRound_link cfg i s
      have hrest := ih hlink
      simp only [foundLink, hlink, Bool.true_and, Bool.or_eq_true] at hrest
      simp only [foundLink, takesLink, hlink, Bool.true_and, Bool.or_eq_true, Bool.and_eq_true,
        hmissed, Bool.not_false, ← hrest]
      rcases hround with ⟨-, hsome, hsame, hfrom⟩ | ⟨hno, hfrom⟩
      · have hnone : s.slot.currentLink.isNone = false := by
          rw [Option.isNone_eq_false_iff]
          exact hsome
        simp only [hsame, hfrom, hnone, Bool.false_eq_true, false_and, false_or]
      · refine iff_of_true ?_ ?_
        · rcases hno with hno | hno
          · exact .inl (fromSchedule_of_noBurst (hflag.trans hno) h)
          · exact .inr hno
        · cases hl : (slotEndRound cfg i s).1.slot.currentLink with
          | none => exact .inr (.inr rfl)
          | some l => exact .inl ⟨hfrom, rfl⟩

/-! ## One interrupt -/

/-- Up to the end of a slot the count stays, and so does whether there is a link. -/
structure Carried (s u : TschState) : Prop where
  count : u.slot.tschCurrentBurstCount = s.slot.tschCurrentBurstCount
  link : u.slot.currentLink.isSome = s.slot.currentLink.isSome
  timer : u.slot.timer = none
  associated : s.slot.pc = .asleep → s.slot.tschIsAssociated = true

/-- In a slot, and since `s`, where the slot has started or was going on. -/
structure Underway (s u : TschState) : Prop extends Carried s u where
  starts : s.slot.pc = .asleep → SlotStarts s

namespace Carried

variable {s u v : TschState}

theorem congr (h : Carried s u) (hcount : v.slot.tschCurrentBurstCount = u.slot.tschCurrentBurstCount)
    (hlink : v.slot.currentLink.isSome = u.slot.currentLink.isSome)
    (htimer : v.slot.timer = u.slot.timer) : Carried s v :=
  ⟨hcount.trans h.count, hlink.trans h.link, htimer.trans h.timer, h.associated⟩

variable (cfg) in
theorem finishTx (h : Carried s u) (n : LinkAddr) (p l rand : Nat) (st : MacStatus) :
    Carried s (finishTx cfg n p l st rand u) := by
  obtain ⟨q, d, hq⟩ := finishTx_spec cfg n p l st rand u
  rw [hq]
  simp only [recordOutcome]
  split <;> exact h.congr rfl rfl rfl

variable (cfg) in
theorem setChannel (h : Carried s u) (l : Nat) : Carried s (setChannel cfg l u) := by
  obtain ⟨b, o, c, hc⟩ := setChannel_spec cfg l u
  rw [hc]
  exact h.congr rfl rfl rfl

theorem deliver (h : Carried s u) (l : Nat) (f : RxFrame) :
    Carried s ((countReception l u).putInput f) := by
  obtain ⟨t, ht⟩ := countReception_spec l u
  rw [ht]
  exact h.congr rfl rfl rfl

variable (cfg) in
theorem chooseLink (hstart : SlotStarts s) (l : Nat) :
    Carried s (chooseLink cfg l s.disarm.enterSlot) := by
  have hbegin : Carried s (getCurrentPacket l s.disarm.enterSlot) :=
    ⟨rfl, rfl, rfl, fun _ => hstart.associated⟩
  simp only [QlTsch.chooseLink]
  split
  · exact hbegin
  · rename_i b _
    have hslot := updateLinkBackoff_slot cfg (some l) (getCurrentPacket l s.disarm.enterSlot)
    refine hbegin.congr ?_ hstart.link.symm ?_
    · simp only [getCurrentPacket, switchToBackup] at hslot ⊢
      rw [hslot]
    · simp only [getCurrentPacket, switchToBackup] at hslot ⊢
      rw [hslot]

end Carried

theorem Underway.congr {s u v : TschState} (h : Underway s u)
    (hcount : v.slot.tschCurrentBurstCount = u.slot.tschCurrentBurstCount)
    (hlink : v.slot.currentLink.isSome = u.slot.currentLink.isSome)
    (htimer : v.slot.timer = u.slot.timer) : Underway s v :=
  ⟨h.toCarried.congr hcount hlink htimer, h.starts⟩

theorem Underway.chooseLink (cfg : Config) {s : TschState} (hstart : SlotStarts s) (l l' : Nat) :
    Underway s (setChannel cfg l' (chooseLink cfg l s.disarm.enterSlot)) :=
  ⟨(Carried.chooseLink cfg hstart l).setChannel cfg l', fun _ => hstart⟩

/-- The slot of one interrupt; a burst is requested only below the bound. -/
def carriedBody (cfg : Config) (s : TschState) : SlotBody cfg where
  asleep u := u = s
  starting := Underway s
  sending _ loc u := Underway s u ∧
    (loc.burstLinkRequested = true → s.slot.tschCurrentBurstCount + 1 < cfg.tschBurstMaxLen)
  listening := Underway s
  receiving := Underway s
  ending := Carried s
  skip h _ ha _ := by
    subst h
    exact ⟨rfl, rfl, rfl, fun _ => ha⟩
  startTx h hstart _ _ _ _ := by
    subst h
    exact .chooseLink cfg hstart _ _
  startRx h hstart _ _ _ := by
    subst h
    exact .chooseLink cfg hstart _ _
  startIdle h hstart _ _ := by
    subst h
    exact (Carried.chooseLink cfg hstart _).congr rfl rfl rfl
  full h := h.toCarried
  frame {u _ n} h _ _ := by
    refine ⟨h.congr rfl rfl rfl, ?_⟩
    intro hreq
    have hreq : burstLinkRequested cfg n u = true := hreq
    simp only [burstLinkRequested, Bool.and_eq_true, decide_eq_true_eq, h.count] at hreq
    exact hreq.1.2
  framePending _ h := ⟨h.1.congr rfl rfl rfl, h.2⟩
  sendingPc _ h := ⟨h.1.congr rfl rfl rfl, h.2⟩
  transmit _ h := ⟨h.1.congr rfl rfl rfl, h.2⟩
  acknowledge _ h := ⟨h.1.congr rfl rfl rfl, h.2⟩
  syncFromAck _ _ h := ⟨h.1.congr rfl rfl rfl, h.2⟩
  requestBurst h := ⟨h.1.congr rfl rfl rfl, h.2⟩
  finish _ _ h _ _ _ _ := h.1.toCarried.finishTx cfg _ _ _ _ _
  listeningPc _ h := h.congr rfl rfl rfl
  deaf h := h.toCarried
  receive h := h
  receiveBurst _ h := h.congr rfl rfl rfl
  syncFromFrame _ _ h := h.congr rfl rfl rfl
  deliver f h _ := h.toCarried.deliver _ f

/-- The count, if the slot ends with `c` counted on a link (`linked`) or without one: it
goes up, or a link is taken from the schedule. -/
def countOutline (cfg : Config) (c : Nat) (linked : Bool) : EndOutline cfg where
  asleep u := u.slot.tschIsAssociated = true → u.slot.currentLink.isSome = true →
    c < u.slot.tschCurrentBurstCount ∨ u.ghost.fromSchedule = true ∨ linked = false
  ending u := linked = true → u.slot.burstLinkScheduled = true →
    u.slot.currentLink.isSome = true ∧ c ≤ u.slot.tschCurrentBurstCount
  chosen u := (linked = true → u.slot.burstLinkScheduled = true →
      u.slot.currentLink.isSome = true ∧ c < u.slot.tschCurrentBurstCount) ∧
    (u.slot.currentLink.isSome = true → linked = true ∧ u.slot.burstLinkScheduled = true ∨
      u.ghost.fromSchedule = true ∨ linked = false)
  keepTime _ h := h
  backoff l h := by
    rw [updateLinkBackoff_slot]
    exact h
  replay h hb hl := by
    refine ⟨fun hlinked _ => ?_, fun _ => ?_⟩
    · obtain ⟨_, hc⟩ := h hlinked hb
      exact ⟨hl, Nat.lt_succ_of_le hc⟩
    · cases linked with
      | true => exact .inl ⟨rfl, hb⟩
      | false => exact .inr (.inr rfl)
  select {u} h hno := by
    refine ⟨fun hlinked hb => ?_, fun _ => .inr (.inl rfl)⟩
    -- a burst on a link goes on
    obtain ⟨hl, _⟩ := h hlinked hb
    have hb : u.slot.burstLinkScheduled = true := hb
    rcases hno with hno | hno
    · rw [hno] at hb
      cases hb
    · rw [hno] at hl
      cases hl
  advance _ _ h := h
  again h hlinked hb := ⟨(h.1 hlinked hb).1, (h.1 hlinked hb).2.le⟩
  armTimer _ h := h
  sleep h _ hl := by
    rcases h.2 hl with ⟨hlinked, hb⟩ | hfound
    · exact .inl (h.1 hlinked hb).2
    · exact .inr hfound
  disassociate _ ha := by cases ha

/-! ## The invariant -/

def SlotPc.locals? : SlotPc → Option TxLocals
  | .txBeforeCca loc | .txBeforeTx loc | .txBeforeAck loc => some loc
  | .asleep | .rxBeforeListen | .rxBeforeAck _ => none

/-- All `k` frames since the last reset have been counted, but for the one of the slot in
progress.  Outside a network and without a link there is nothing to send. -/
def Counted (k : Nat) (s : TschState) : Prop :=
  match s.slot.pc with
  | .asleep => s.slot.tschIsAssociated = true → s.slot.currentLink.isSome = true →
      k ≤ s.slot.tschCurrentBurstCount
  | .txBeforeCca _ | .txBeforeTx _ | .rxBeforeListen | .rxBeforeAck _ =>
      k ≤ s.slot.tschCurrentBurstCount
  | .txBeforeAck _ => k ≤ s.slot.tschCurrentBurstCount + 1

/-- The record of a run and the state it has come to. -/
structure BurstOk (cfg : Config) (es : List BurstEvent) (s : TschState) : Prop where
  bounded : BoundedSoFar cfg.tschBurstMaxLen es
  counted : Counted (sinceReset es) s
  requested : ∀ loc, s.slot.pc.locals? = some loc → loc.burstLinkRequested = true →
    s.slot.tschCurrentBurstCount + 1 < cfg.tschBurstMaxLen
  timer : s.slot.pc ≠ .asleep → s.slot.timer = none

theorem underway_of_inside {s u : TschState} (h : (carriedBody cfg s).Inside u) :
    Underway s u ∧ ∀ loc, u.slot.pc.locals? = some loc → loc.burstLinkRequested = true →
      s.slot.tschCurrentBurstCount + 1 < cfg.tschBurstMaxLen := by
  have hpc := h.awake
  simp only [SlotBody.Inside] at h
  cases hu : u.slot.pc with
  | asleep => exact absurd hu hpc
  | txBeforeCca loc =>
      rw [hu] at h
      exact ⟨h.1, fun l hl => Option.some.inj hl ▸ h.2⟩
  | txBeforeTx loc =>
      rw [hu] at h
      exact ⟨h.1, fun l hl => Option.some.inj hl ▸ h.2⟩
  | txBeforeAck loc =>
      rw [hu] at h
      exact ⟨h.1, fun l hl => Option.some.inj hl ▸ h.2⟩
  | rxBeforeListen =>
      rw [hu] at h
      exact ⟨h, fun l hl => (by cases hl)⟩
  | rxBeforeAck f =>
      rw [hu] at h
      exact ⟨h, fun l hl => (by cases hl)⟩

namespace BurstOk

variable {es : List BurstEvent} {s s' : TschState}

theorem pos (h : BurstOk cfg es s) : 0 < cfg.tschBurstMaxLen := h.bounded [] List.nil_prefix

theorem inside (h : BurstOk cfg es s) (hpc : s.slot.pc ≠ .asleep) : (carriedBody cfg s).Inside s := by
  have hself : Underway s s := ⟨⟨rfl, rfl, h.timer hpc, fun ha => absurd ha hpc⟩,
    fun ha => absurd ha hpc⟩
  have hreq := h.requested
  simp only [SlotBody.Inside]
  cases hs : s.slot.pc with
  | asleep => exact hpc hs
  | txBeforeCca loc => exact ⟨hself, hreq loc (by rw [hs]; rfl)⟩
  | txBeforeTx loc => exact ⟨hself, hreq loc (by rw [hs]; rfl)⟩
  | txBeforeAck loc => exact ⟨hself, hreq loc (by rw [hs]; rfl)⟩
  | rxBeforeListen => exact hself
  | rxBeforeAck f => exact hself

theorem sent_bounded (h : BurstOk cfg es s) : BoundedSoFar cfg.tschBurstMaxLen (es ++ sentBy s) := by
  have hcounted := h.counted
  simp only [Counted] at hcounted
  simp only [sentBy]
  cases hpc : s.slot.pc with
  | txBeforeTx loc =>
      simp only [hpc] at hcounted
      have hlt : sinceReset es < cfg.tschBurstMaxLen := h.bounded es (List.prefix_refl es)
      have hreq := h.requested loc (by rw [hpc]; rfl)
      refine h.bounded.concat ?_
      cases hr : loc.burstLinkRequested with
      | false => exact hlt
      | true => exact (Nat.succ_le_succ hcounted).trans_lt (hreq hr)
  | _ =>
      rw [List.append_nil]
      exact h.bounded

/-- In a slot that is going on, or starts: before its transmission all frames have been
counted, after it all but its own. -/
theorem sent_counted (h : BurstOk cfg es s) (hactive : s.slot.pc = .asleep →
      s.slot.tschIsAssociated = true ∧ s.slot.currentLink.isSome = true) :
    sinceReset (es ++ sentBy s) ≤ s.slot.tschCurrentBurstCount + 1 ∧
      ((∀ loc, s.slot.pc ≠ .txBeforeTx loc) → (∀ loc, s.slot.pc ≠ .txBeforeAck loc) →
        sinceReset (es ++ sentBy s) ≤ s.slot.tschCurrentBurstCount) := by
  have hcounted := h.counted
  simp only [Counted] at hcounted
  simp only [sentBy]
  cases hpc : s.slot.pc with
  | asleep =>
      simp only [hpc] at hcounted
      obtain ⟨ha, hl⟩ := hactive hpc
      rw [List.append_nil]
      exact ⟨(hcounted ha hl).trans (Nat.le_succ _), fun _ _ => hcounted ha hl⟩
  | txBeforeTx loc =>
      simp only [hpc] at hcounted
      refine ⟨?_, fun hno => absurd rfl (hno loc)⟩
      rw [sinceReset_concat]
      cases loc.burstLinkRequested with
      | false => exact hcounted.trans (Nat.le_succ _)
      | true => exact Nat.succ_le_succ hcounted
  | txBeforeAck loc =>
      simp only [hpc] at hcounted
      rw [List.append_nil]
      exact ⟨hcounted, fun _ hno => absurd rfl (hno loc)⟩
  | txBeforeCca loc =>
      simp only [hpc] at hcounted
      rw [List.append_nil]
      exact ⟨hcounted.trans (Nat.le_succ _), fun _ _ => hcounted⟩
  | rxBeforeListen =>
      simp only [hpc] at hcounted
      rw [List.append_nil]
      exact ⟨hcounted.trans (Nat.le_succ _), fun _ _ => hcounted⟩
  | rxBeforeAck f =>
      simp only [hpc] at hcounted
      rw [List.append_nil]
      exact ⟨hcounted.trans (Nat.le_succ _), fun _ _ => hcounted⟩

theorem of_asleep (hb : BoundedSoFar cfg.tschBurstMaxLen es) (hpc : s.slot.pc = .asleep)
    (hc : s.slot.tschIsAssociated = true → s.slot.currentLink.isSome = true →
      sinceReset es ≤ s.slot.tschCurrentBurstCount) : BurstOk cfg es s := by
  refine ⟨hb, ?_, ?_, fun hne => absurd hpc hne⟩
  · simp only [Counted, hpc]
    exact hc
  · intro loc hloc
    rw [hpc] at hloc
    cases hloc

theorem yields {i : SlotInput} (h : BurstOk cfg es s) (hs : slotStep cfg i s = some s')
    (hin : (carriedBody cfg s).Inside s') : BurstOk cfg (es ++ (sentBy s ++ resetBy s s')) s' := by
  obtain ⟨hu, hreq⟩ := underway_of_inside hin
  have hreset : resetBy s s' = [] := if_neg fun hc => hin.awake hc.1
  obtain ⟨hle, hearly⟩ := h.sent_counted fun hpc => ⟨(hu.starts hpc).associated, (hu.starts hpc).link⟩
  have hstill : (∀ loc, s'.slot.pc ≠ .txBeforeAck loc) →
      sinceReset (es ++ sentBy s) ≤ s'.slot.tschCurrentBurstCount := by
    intro hno
    rw [hu.count]
    -- after the transmission comes the acknowledgement, or the end of the slot
    have hyields := slotStep_yields hs hin.awake
    refine hearly ?_ ?_
    · intro loc hpc
      rw [hpc] at hyields
      generalize hpc' : s'.slot.pc = pc at hyields
      cases hyields
      exact hno loc hpc'
    · intro loc hpc
      rw [hpc] at hyields
      cases hyields
  rw [hreset, List.append_nil]
  refine ⟨h.sent_bounded, ?_, ?_, fun _ => hu.timer⟩
  · simp only [Counted]
    cases hpc : s'.slot.pc with
    | asleep => exact absurd hpc hin.awake
    | txBeforeAck loc =>
        rw [hu.count]
        exact hle
    | _ =>
        refine hstill ?_
        intro loc hack
        rw [hpc] at hack
        cases hack
  · intro loc hloc hr
    rw [hu.count]
    exact hreq loc hloc hr

theorem ends {i : SlotInput} {w : TschState} (h : BurstOk cfg es s) (hw : Carried s w)
    (hend : endOfSlot cfg i w = some s') : BurstOk cfg (es ++ (sentBy s ++ resetBy s s')) s' := by
  have hpc : s'.slot.pc = .asleep := endOfSlot_asleep hend
  have hcount : s'.slot.tschIsAssociated = true → s'.slot.currentLink.isSome = true →
      s.slot.tschCurrentBurstCount < s'.slot.tschCurrentBurstCount ∨
        s'.ghost.fromSchedule = true ∨ s.slot.currentLink.isSome = false :=
    (EndOutline.endOfSlot (O := countOutline cfg s.slot.tschCurrentBurstCount s.slot.currentLink.isSome)
      (fun hlinked _ => ⟨hw.link.trans hlinked, hw.count.ge⟩) hend).1
  rw [← List.append_assoc]
  by_cases hreset : s'.slot.pc = .asleep ∧ s'.slot.timer.isSome = true ∧ foundLink s s' = true
  · rw [resetBy, if_pos hreset]
    refine of_asleep (h.sent_bounded.concat h.pos) hpc fun _ _ => ?_
    rw [sinceReset_concat]
    exact Nat.zero_le _
  · rw [resetBy, if_neg hreset, List.append_nil]
    refine of_asleep h.sent_bounded hpc ?_
    intro ha hl
    -- the link has been kept, and the slot counted
    have hfound : foundLink s s' = false :=
      Bool.eq_false_iff.mpr fun hf => hreset ⟨hpc, endOfSlot_timer hend ha, hf⟩
    simp only [foundLink, hl, Bool.true_and, Bool.or_eq_false_iff, Option.isNone_eq_false_iff] at hfound
    rcases hcount ha hl with hc | hfrom | hnone
    · exact (h.sent_counted fun hs => ⟨hw.associated hs, hfound.2⟩).1.trans hc
    · exact absurd (hfrom.symm.trans hfound.1) (by decide)
    · exact absurd (hfound.2.symm.trans hnone) (by decide)

/-- **One interrupt.** -/
theorem step {i : SlotInput} (h : BurstOk cfg es s) (hs : slotStep cfg i s = some s') :
    BurstOk cfg (es ++ (sentBy s ++ resetBy s s')) s' := by
  have hstep : _ ∨ (carriedBody cfg s).Reaches i s' :=
    SlotBody.step (fun _ => rfl) h.inside (fun _ => trivial) (fun _ => trivial) hs
  rcases hstep with ⟨hpc, ha, rfl⟩ | hreach
  · have hsent : sentBy s = [] := by simp only [sentBy, hpc]
    have hreset : resetBy s s.disarm = [] := if_neg fun hc => (by cases hc.2.1)
    rw [hsent, hreset, List.append_nil, List.append_nil]
    exact of_asleep h.bounded hpc fun hyes => absurd (hyes.symm.trans ha) (by decide)
  · cases hreach with
    | yields hin => exact h.yields hs hin
    | ends hw hend => exact h.ends hw hend

/-- The resets of the record are those of the code: in the catch-up loop a link is taken
from the schedule. -/
theorem reset_iff {i : SlotInput} (h : BurstOk cfg es s) (hs : slotStep cfg i s = some s')
    (hpc : s'.slot.pc = .asleep) (htimer : s'.slot.timer.isSome = true)
    (hlink : s'.slot.currentLink.isSome = true) :
    ∃ w t, scheduleNextSlot cfg i.loop w = some t ∧ s' = t.sleep ∧
      (resetBy s s' = [.reset] ↔ takesLink cfg i.loop w = true) := by
  have hreset : resetBy s s' = [.reset] ↔ foundLink s s' = true := by
    simp [resetBy, hpc, htimer]
  have hstep : _ ∨ (carriedBody cfg s).Reaches i s' :=
    SlotBody.step (fun _ => rfl) h.inside (fun _ => trivial) (fun _ => trivial) hs
  rcases hstep with ⟨-, -, rfl⟩ | hreach
  · cases htimer
  · cases hreach with
    | yields hin => exact absurd hpc hin.awake
    | ends hw hend =>
        rename_i w
        rcases endOfSlot_cases hend with ⟨v, t, hv, ht, rfl⟩ | ⟨-, -, rfl⟩
        · have hv : v.slot.currentLink = w.slot.currentLink := by rcases hv with rfl | rfl <;> rfl
          have hnone : s.slot.currentLink.isNone = v.slot.currentLink.isNone := by
            rw [← Option.not_isSome, ← Option.not_isSome, hv, hw.link]
          refine ⟨v, t, ht, rfl, ?_⟩
          rw [hreset, ← foundLink_iff ht hlink]
          simp only [foundLink, TschState.sleep, hnone]
        · have hnone : w.slot.timer.isSome = true := htimer
          rw [hw.timer] at hnone
          cases hnone

theorem leavesSlot (h : BurstOk cfg es s) (hl : LeavesSlot s s') : BurstOk cfg es s' := by
  have hslot : s'.slot.pc = s.slot.pc ∧ s'.slot.tschIsAssociated = s.slot.tschIsAssociated ∧
      s'.slot.tschCurrentBurstCount = s.slot.tschCurrentBurstCount ∧
      s'.slot.timer = s.slot.timer := by
    rw [hl.slot]
    exact ⟨rfl, rfl, rfl, rfl⟩
  obtain ⟨hpc, hassoc, hcount, htimer⟩ := hslot
  refine ⟨h.bounded, ?_, ?_, ?_⟩
  · have hcounted := h.counted
    simp only [Counted, hpc, hassoc, hcount] at hcounted ⊢
    cases hs : s.slot.pc with
    | asleep =>
        rw [hs] at hcounted
        intro ha hsome
        refine hcounted ha ?_
        rcases hl.currentLink with hsame | hnone
        · rw [← hsame]
          exact hsome
        · rw [hnone] at hsome
          cases hsome
    | _ =>
        rw [hs] at hcounted
        exact hcounted
  · rw [hpc, hcount]
    exact h.requested
  · rw [hpc, htimer]
    exact h.timer

theorem env {fs : List BurstEvent} (h : BurstOk cfg es s) (hs : BurstStep cfg fs s s') :
    BurstOk cfg (es ++ fs) s' := by
  cases hs with
  | slot hs => exact h.step hs
  | leave =>
      rw [List.append_nil]
      refine ⟨h.bounded, ?_, h.requested, h.timer⟩
      have hcounted := h.counted
      have hpc : s.disassociate.slot.pc = s.slot.pc := rfl
      simp only [Counted, hpc] at hcounted ⊢
      cases hs : s.slot.pc with
      | asleep => exact fun ha => (by cases ha)
      | _ =>
          rw [hs] at hcounted
          exact hcounted
  | coordinator b =>
      rw [List.append_nil]
      exact ⟨h.bounded, h.counted, h.requested, h.timer⟩

end BurstOk

/-! ## Every run -/

/-- **Bursts are bounded.**  A run of the slot operation from any state between two slots,
whatever the processes do. -/
theorem burst_bounded (hmax : 1 ≤ cfg.tschBurstMaxLen) (fuel : Nat) (calls : List NodeCall)
    {s : TschState} (hs : s.slot.pc = .asleep) {es : List BurstEvent}
    {c : Prog TschState Unit × TschState}
    (hr : History (BurstStep cfg) (fun _ _ => [])
      (Prog.forEach calls (NodeCall.perform cfg fuel), s) es c) :
    BurstsBounded cfg.tschBurstMaxLen es := by
  have hstart : BurstOk cfg [] s := by
    refine .of_asleep ?_ hs fun _ _ => Nat.zero_le _
    intro a ha
    rw [List.prefix_nil.mp ha]
    exact hmax
  have hok : BurstOk cfg es c.2 := by
    refine hr.invariant (I := fun _ => True) (R := BurstOk cfg) (fun _ => trivial)
      (guar_leavesSlot fuel calls) hstart ?_ ?_
    · intro h s s' _ hin hact
      rw [List.append_nil]
      exact hin.leavesSlot hact
    · intro h fs s s' _ hin hst
      exact hin.env hst
  exact hok.bounded.bursts

/-- An interrupt, as a step of `BurstStep`. -/
def burstMove (cfg : Config) (i : SlotInput) (s : TschState) : Option (List BurstEvent × TschState) :=
  (slotStep cfg i s).map fun s' => (sentBy s ++ resetBy s s', s')

theorem burstMove_step (i : SlotInput) (s : TschState) (es : List BurstEvent) (s' : TschState)
    (h : burstMove cfg i s = some (es, s')) : BurstStep cfg es s s' := by
  obtain ⟨hs, rfl⟩ := eq_of_map_events h
  exact .slot hs

/-- An acknowledgement is received. -/
def SlotInput.acked (now : Int) : SlotInput := { SlotInput.quiet now with ackLen := 1, eackParsed := true }

/-- Two slots at most. -/
def twoSlots : Config := { nodeBuild 1 with tschBurstMaxLen := 2 }

/-- Three packets are queued for node 2.  The first frame asks for one more slot and is
acknowledged; the second does not ask. -/
theorem burst_bounded_two :
    ∃ es c, History (BurstStep twoSlots) (fun _ _ => [])
        (Prog.forEach (burstCalls [2, 2, 2]) (NodeCall.perform twoSlots 9),
          (TschState.boot twoSlots).joined 0) es c ∧
      es = [.reset, .sent true, .sent false, .reset] ∧ BurstsBounded 2 es := by
  obtain ⟨es, c, hr, hes⟩ := History.exists_historyOf (burstMove twoSlots) (fun _ _ => [])
    (Prog.forEach (burstCalls [2, 2, 2]) (NodeCall.perform twoSlots 9),
      (TschState.boot twoSlots).joined 0)
    burstMove_step
    (List.replicate 51 none ++ [.quiet 0, .quiet 328, .quiet 328, .acked 328, .quiet 656, .quiet 656,
      .acked 656].map some)
    (fun r => decide (r.1 = [.reset, .sent true, .sent false, .reset])) (by decide +kernel)
  exact ⟨es, c, hr, of_decide_eq_true hes, burst_bounded (by decide) 9 _ rfl hr⟩

end QlTsch
