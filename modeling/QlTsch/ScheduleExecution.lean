/-
# `QlTsch.ScheduleExecution` — the slot operation executes the schedule

At the end of a slot the timer is set for the next one that has a link, and the timeslots in
between are passed over.  If the deadline of that slot is missed, the choice is made again from
there.  The record of a run says, timeslot by timeslot, what was decided on it, with the links
that were due in it then, and what became of the slots decided on.

`schedule_executed`: along every run each timeslot is decided on once, in order.  One is passed
over only if no link is due in it, and the link of a slot is one that is due; else it is the slot
of a burst, or the lock was held.  And what a slot is decided on for comes next: it begins on its
link, unless its deadline is missed, the lock is requested, or a process has taken the link away.

That a slot begins is read off the test that `tsch_slot_operation` makes; what is recorded so is
run by that interrupt (`RunsSlot`).
-/
import Mathlib.Data.List.Chain
import QlTsch.BackoffWindow
import QlTsch.NextLinkChoice

namespace QlTsch

open Interleave Interleave.Prog

variable {cfg : Config}

/-! ## The record -/

inductive SlotMark where
  /-- no slot; the links that are due -/
  | passed (asn : Nat) (due : List Nat)
  /-- the next slot, for link `l` -/
  | chosen (asn l : Nat) (due : List Nat)
  /-- the next slot, for the link of the burst -/
  | burst (asn l : Nat)
  /-- the next slot, without a link -/
  | unlinked (asn : Nat) (due : List Nat) (locked : Bool)
  /-- the deadline of the slot has passed -/
  | missed (asn : Nat)
  | began (asn l : Nat)
  /-- the slot is left to a process that waits for the lock -/
  | refused (asn l : Nat)
  /-- a process has removed the link -/
  | withdrawn (asn : Nat)
deriving DecidableEq, Repr

namespace SlotMark

/-- The timeslot that is decided on. -/
def decided : SlotMark → Option Nat
  | passed a _ | chosen a _ _ | burst a _ | unlinked a _ _ => some a
  | missed _ | began _ _ | refused _ _ | withdrawn _ => none

/-- The slot that is to come, with its link. -/
def pending : SlotMark → Option (Nat × Nat)
  | chosen a l _ | burst a l => some (a, l)
  | passed _ _ | unlinked _ _ _ | missed _ | began _ _ | refused _ _ | withdrawn _ => none

/-- The decision is the one that the schedule asks for. -/
def Sound : SlotMark → Prop
  | passed _ due => due = []
  | chosen _ l due => l ∈ due
  | unlinked _ due locked => locked = true ∨ due = []
  | burst _ _ | missed _ | began _ _ | refused _ _ | withdrawn _ => True

/-- Mark `m'` may come right after `m`. -/
def Follows (m m' : SlotMark) : Prop :=
  match m' with
  | began a l | refused a l => m.pending = some (a, l)
  | withdrawn a => ∃ l, m.pending = some (a, l)
  | missed a => m.decided = some a
  | passed _ _ | chosen _ _ _ | burst _ _ | unlinked _ _ _ => m.pending = none

theorem follows_decision {m m' : SlotMark} {a : Nat} (h : m'.decided = some a) :
    m.Follows m' ↔ m.pending = none := by
  cases m' with
  | passed | chosen | burst | unlinked => exact Iff.rfl
  | missed | began | refused | withdrawn => cases h

end SlotMark

/-- What the last mark waits for. -/
def waits (ms : List SlotMark) : Option (Nat × Nat) := ms.getLast?.bind SlotMark.pending

/-- The links due at `asn`. -/
def TschState.dueAt (s : TschState) (asn : Nat) : List Nat := (s.sched.dueLinks asn).map Prod.snd

/-- What is decided if the link is taken from the schedule. -/
def scheduleMarks (s : TschState) : List SlotMark :=
  let asn := s.slot.tschCurrentAsn
  let r := tschScheduleGetNextActiveLink s asn
  let next := asn + timeslotDiff r
  (List.range' (asn + 1) (timeslotDiff r - 1)).map (fun a => .passed a (s.dueAt a)) ++
    [match r.currBest with
    | some l => .chosen next l (s.dueAt next)
    | none => .unlinked next (s.dueAt next) s.lock.tschLocked]

/-- What `nextLink` decides. -/
def choiceMarks (s : TschState) : List SlotMark :=
  match s.slot.burstLinkScheduled, s.slot.currentLink with
  | true, some l => [.burst (s.slot.tschCurrentAsn + 1) l]
  | _, _ => scheduleMarks s

/-- The rounds of the catch-up loop. -/
def catchUpMarks (cfg : Config) : List LoopInput → TschState → List SlotMark
  | [], _ => []
  | i :: is, s =>
      let r := slotEndRound cfg i s
      choiceMarks (updateLinkBackoff cfg s.slot.currentLink s) ++
        if tschScheduleSlotOperation cfg s.slot.currentSlotStart r.2 i.now i.rtimerOk then []
        else .missed r.1.slot.tschCurrentAsn :: catchUpMarks cfg is r.1

def endMarks (cfg : Config) (i : SlotInput) (s : TschState) : List SlotMark :=
  if s.slot.tschIsCoordinator then catchUpMarks cfg i.loop (s.keepTime i.clockTime)
  else if desynchronized cfg s then [] else catchUpMarks cfg i.loop s

/-- What becomes of the slot that the timer was set for. -/
def startMarks (s : TschState) : List SlotMark :=
  if s.slot.pc = .asleep ∧ s.slot.tschIsAssociated = true then
    match s.slot.currentLink with
    | some l =>
        [if s.lock.tschLockRequested then .refused s.slot.tschCurrentAsn l
          else .began s.slot.tschCurrentAsn l]
    | none => []
  else []

/-- What an action of a process does to the slot that is to come. -/
def processMarks (s s' : TschState) : List SlotMark :=
  if s.slot.pc = .asleep ∧ s.slot.tschIsAssociated = true ∧ s.slot.currentLink.isSome = true ∧
      s'.slot.currentLink = none then [.withdrawn s.slot.tschCurrentAsn]
  else []

/-- A slot interrupt, as `slotStep_stops` splits it. -/
inductive ExecutionStep (cfg : Config) : List SlotMark → TschState → TschState → Prop
  /-- outside a network -/
  | idle {i : SlotInput} {s s' : TschState} : slotStep cfg i s = some s' →
      s.slot.pc = .asleep → s.slot.tschIsAssociated = false → ExecutionStep cfg [] s s'
  | yield {i : SlotInput} {s s' : TschState} : ValidSchedule s → slotStep cfg i s = some s' →
      s'.slot.pc ≠ .asleep → ExecutionStep cfg (startMarks s) s s'
  /-- the slot ends in state `w`, after its event -/
  | finish {i : SlotInput} {s w s' : TschState} : ValidSchedule s → slotStep cfg i s = some s' →
      (s.slot.pc = .asleep → s.slot.tschIsAssociated = true) → w.kept = (takeUp cfg s).kept →
      endOfSlot cfg i ((slotEvent cfg i s).apply cfg i w) = some s' →
      ExecutionStep cfg (startMarks s ++ endMarks cfg i ((slotEvent cfg i s).apply cfg i w)) s s'

theorem ExecutionStep.of_slotStep {i : SlotInput} {s s' : TschState} (hs : ValidSchedule s)
    (h : slotStep cfg i s = some s') : ∃ ms, ExecutionStep cfg ms s s' := by
  rcases slotStep_stops h with ⟨hpc, hassoc, -⟩ | ⟨hassoc, ⟨-, -, hpc⟩ | ⟨w, hk, hend⟩⟩
  · exact ⟨_, .idle h hpc hassoc⟩
  · exact ⟨_, .yield hs h hpc⟩
  · exact ⟨_, .finish hs h hassoc hk hend⟩

/-! ## The slot that begins -/

theorem began_notMem_scheduleMarks (s : TschState) (a l : Nat) : .began a l ∉ scheduleMarks s := by
  intro hm
  rcases List.mem_append.mp hm with hm | hm
  · obtain ⟨x, -, hx⟩ := List.mem_map.mp hm
    cases hx
  · have hm := List.mem_singleton.mp hm
    split at hm <;> cases hm

theorem began_notMem_choiceMarks (s : TschState) (a l : Nat) : .began a l ∉ choiceMarks s := by
  intro hm
  simp only [choiceMarks] at hm
  split at hm
  · cases List.mem_singleton.mp hm
  · exact began_notMem_scheduleMarks s a l hm

theorem began_notMem_catchUpMarks (a l : Nat) (is : List LoopInput) (s : TschState) :
    .began a l ∉ catchUpMarks cfg is s := by
  induction is generalizing s with
  | nil => exact List.not_mem_nil
  | cons i is ih =>
      intro hm
      rcases List.mem_append.mp hm with hm | hm
      · exact began_notMem_choiceMarks _ a l hm
      · split at hm
        · cases hm
        · rcases List.mem_cons.mp hm with hm | hm
          · cases hm
          · exact ih _ hm

theorem began_notMem_endMarks (i : SlotInput) (s : TschState) (a l : Nat) :
    .began a l ∉ endMarks cfg i s := by
  intro hm
  simp only [endMarks] at hm
  split at hm
  · exact began_notMem_catchUpMarks a l _ _ hm
  · split at hm
    · cases hm
    · exact began_notMem_catchUpMarks a l _ _ hm

theorem starts_of_began {s : TschState} {a l : Nat} (hm : .began a l ∈ startMarks s) :
    SlotStarts s ∧ s.slot.tschCurrentAsn = a ∧ s.slot.currentLink = some l := by
  simp only [startMarks] at hm
  split at hm
  · rename_i hstart
    split at hm
    · rename_i l' hl
      have hm := List.mem_singleton.mp hm
      split at hm
      · cases hm
      · rename_i hreq
        cases hm
        exact ⟨⟨hstart.1, hstart.2, by rw [hl]; rfl, Bool.eq_false_iff.mpr hreq⟩, rfl, hl⟩
    · cases hm
  · cases hm

/-- The interrupt is the slot operation on link `l` at `asn`. -/
structure RunsSlot (cfg : Config) (asn l : Nat) (i : SlotInput) (s s' : TschState) : Prop where
  asn : s.slot.tschCurrentAsn = asn
  link : s.slot.currentLink = some l
  step : slotStep cfg i s = some s'
  begins : beginSlot cfg l i s.disarm = some s'

/-- What is recorded as begun is run. -/
theorem ExecutionStep.runs_began {ms : List SlotMark} {s s' : TschState}
    (h : ExecutionStep cfg ms s s') {a l : Nat} (hm : .began a l ∈ ms) :
    ∃ i, RunsSlot cfg a l i s s' := by
  have hruns : ∀ {i : SlotInput}, slotStep cfg i s = some s' → .began a l ∈ startMarks s →
      RunsSlot cfg a l i s s' := by
    intro i hstep hm
    obtain ⟨hstart, hasn, hl⟩ := starts_of_began hm
    refine ⟨hasn, hl, hstep, ?_⟩
    rw [← slotStep_starts hstart (timer_of_slotStep hstart.asleep hstep) hl i]
    exact hstep
  cases h with
  | idle => cases hm
  | yield _ hstep _ => exact ⟨_, hruns hstep hm⟩
  | finish _ hstep _ _ _ =>
      rcases List.mem_append.mp hm with hm | hm
      · exact ⟨_, hruns hstep hm⟩
      · exact absurd hm (began_notMem_endMarks _ _ a l)

theorem began_notMem_processMarks (a l : Nat) (s s' : TschState) :
    .began a l ∉ processMarks s s' := by
  intro hm
  simp only [processMarks] at hm
  split at hm
  · cases List.mem_singleton.mp hm
  · cases hm

/-! ## One choice -/

/-- From timeslot `a` to timeslot `b` the schedule has been executed. -/
structure Accounted (a b : Nat) (ms : List SlotMark) : Prop where
  later : a ≤ b
  decided : ms.filterMap SlotMark.decided = List.range' (a + 1) (b - a)
  sound : ∀ m ∈ ms, m.Sound
  chain : ms.IsChain SlotMark.Follows

/-- Between the timeslots `a` and `b` all is decided, and `next` is what the last decision waits
for. -/
structure Decides (a b : Nat) (next : Option Nat) (ms : List SlotMark) : Prop
    extends Accounted a b ms where
  first : ∀ m ∈ ms.head?, ∃ a, m.decided = some a
  last : ∃ m, ms.getLast? = some m ∧ m.decided = some b ∧ m.pending = next.map (b, ·)

section
variable {a b c : Nat} {next next' : Option Nat} {ms ms' : List SlotMark}

theorem Accounted.append (h : Accounted a b ms) (h' : Accounted b c ms')
    (hjoin : ∀ x ∈ ms.getLast?, ∀ y ∈ ms'.head?, x.Follows y) : Accounted a c (ms ++ ms') := by
  obtain ⟨m, rfl⟩ := Nat.exists_eq_add_of_le h.later
  obtain ⟨n, rfl⟩ := Nat.exists_eq_add_of_le h'.later
  have hsum : a + m + n - a = m + n := by omega
  refine ⟨h.later.trans h'.later, ?_, ?_, List.isChain_append.mpr ⟨h.chain, h'.chain, hjoin⟩⟩
  · rw [List.filterMap_append, h.decided, h'.decided, Nat.add_sub_cancel_left, Nat.add_sub_cancel_left,
      Nat.add_right_comm, List.range'_append_1, hsum]
  · intro x hx
    rcases List.mem_append.mp hx with hx | hx
    · exact h.sound x hx
    · exact h'.sound x hx

theorem accounted_singleton (a : Nat) {m : SlotMark} (hm : m.decided = none) (hsound : m.Sound) :
    Accounted a a [m] := by
  refine ⟨Nat.le_refl a, ?_, ?_, List.isChain_singleton m⟩
  · rw [List.filterMap_cons_none hm, Nat.sub_self]
    rfl
  · intro x hx
    rw [List.mem_singleton.mp hx]
    exact hsound

theorem Decides.waits_append (h : Decides a b next ms') (ms : List SlotMark) :
    waits (ms ++ ms') = next.map (b, ·) := by
  obtain ⟨m, hm, -, hp⟩ := h.last
  rw [waits, List.getLast?_append, hm]
  exact hp

theorem first_passed (due : Nat → List Nat) (xs : List Nat) {m : SlotMark} (hm : m.decided = some b) :
    ∀ y ∈ (xs.map (fun x => SlotMark.passed x (due x)) ++ [m]).head?, ∃ a, y.decided = some a := by
  intro y hy
  cases xs with
  | nil =>
      cases hy
      exact ⟨b, hm⟩
  | cons x xs =>
      cases hy
      exact ⟨x, rfl⟩

theorem chain_passed (due : Nat → List Nat) (xs : List Nat) {m : SlotMark} (hm : m.decided = some b) :
    (xs.map (fun x => SlotMark.passed x (due x)) ++ [m]).IsChain SlotMark.Follows := by
  induction xs with
  | nil => exact List.isChain_singleton m
  | cons x xs ih =>
      refine List.isChain_cons.mpr ⟨fun y hy => ?_, ih⟩
      obtain ⟨d, hd⟩ := first_passed due xs hm y hy
      exact (SlotMark.follows_decision hd).mpr rfl

theorem Decides.passed (due : Nat → List Nat) {d : Nat} {m : SlotMark} (hd : 1 ≤ d)
    (hover : ∀ x, a < x → x < a + d → due x = []) (hm : m.decided = some (a + d)) (hsound : m.Sound)
    (hp : m.pending = next.map (a + d, ·)) :
    Decides a (a + d) next
      ((List.range' (a + 1) (d - 1)).map (fun x => .passed x (due x)) ++ [m]) := by
  obtain ⟨k, rfl⟩ := Nat.exists_eq_add_of_le' hd
  rw [Nat.add_sub_cancel]
  refine ⟨⟨by omega, ?_, ?_, ?_⟩, ?_, ⟨m, by rw [List.getLast?_concat], hm, hp⟩⟩
  · have hdecided : ((List.range' (a + 1) k).map fun x => SlotMark.passed x (due x)).filterMap
        SlotMark.decided = List.range' (a + 1) k := by
      rw [List.filterMap_map]
      exact List.filterMap_some
    rw [List.filterMap_append, hdecided, List.filterMap_cons_some hm, List.filterMap_nil,
      Nat.add_sub_cancel_left, List.range'_1_concat, Nat.add_right_comm, Nat.add_assoc a]
  · intro m' hm'
    rcases List.mem_append.mp hm' with hm' | hm'
    · obtain ⟨x, hx, rfl⟩ := List.mem_map.mp hm'
      obtain ⟨hge, hlt⟩ := List.mem_range'_1.mp hx
      exact hover x hge (by omega)
    · rw [List.mem_singleton.mp hm']
      exact hsound
  · exact chain_passed due _ hm
  · exact first_passed due _ hm

theorem Decides.again (h : Decides a b next ms) (h' : Decides b c next' ms') :
    Decides a c next' (ms ++ .missed b :: ms') := by
  obtain ⟨m, hm, hb, -⟩ := h.last
  obtain ⟨m', hm', hc, hp'⟩ := h'.last
  have hrest : Accounted b c (.missed b :: ms') := by
    refine (accounted_singleton b (m := .missed b) rfl trivial).append h'.toAccounted ?_
    intro x hx y hy
    cases hx
    obtain ⟨d, hd⟩ := h'.first y hy
    exact (SlotMark.follows_decision hd).mpr rfl
  refine ⟨h.append hrest ?_, ?_, ⟨m', ?_, hc, hp'⟩⟩
  · intro x hx y hy
    cases hm.symm.trans hx
    cases hy
    exact hb
  · intro x hx
    refine h.first x ?_
    cases ms with
    | nil => cases hm
    | cons y ys => exact hx
  · rw [List.getLast?_append, List.getLast?_cons, hm']
    rfl

end

section
variable {s s' : TschState}

theorem due_mem_dueAt {asn p : Nat} : p ∈ s.dueAt asn ↔ s.sched.Due asn p := by
  rw [due_iff, TschState.dueAt, List.mem_map]
  constructor
  · rintro ⟨⟨b, q⟩, hmem, rfl⟩
    exact ⟨b, hmem⟩
  · rintro ⟨b, hmem⟩
    exact ⟨(b, p), hmem, rfl⟩

theorem dueAt_nil {asn : Nat} (h : ∀ p, ¬ s.sched.Due asn p) : s.dueAt asn = [] :=
  List.eq_nil_iff_forall_not_mem.mpr fun p hp => h p (due_mem_dueAt.mp hp)

theorem decides_scheduleMarks (hs : ValidSchedule s) :
    Decides s.slot.tschCurrentAsn
      (s.slot.tschCurrentAsn + timeslotDiff (tschScheduleGetNextActiveLink s s.slot.tschCurrentAsn))
      (tschScheduleGetNextActiveLink s s.slot.tschCurrentAsn).currBest (scheduleMarks s) := by
  have hpos := timeslotDiff_pos hs s.slot.tschCurrentAsn
  rw [scheduleMarks]
  cases hbest : (tschScheduleGetNextActiveLink s s.slot.tschCurrentAsn).currBest with
  | none =>
      have hdiff : timeslotDiff (tschScheduleGetNextActiveLink s s.slot.tschCurrentAsn) = 1 := by
        rw [timeslotDiff, hbest]
        rfl
      refine Decides.passed s.dueAt hpos (fun x hgt hlt => ?_) rfl ?_ rfl
      · omega
      · cases hlock : s.lock.tschLocked with
        | true => exact .inl rfl
        | false =>
            -- no link is installed
            have hnil := (nextActiveLink_choice hlock (hs hlock) _).1.mp hbest
            refine .inr (dueAt_nil ?_)
            rintro p ⟨b, hb, hp, -⟩
            have hmem := ScheduleVars.mem_allLinks.mpr ⟨b, hb, hp⟩
            rw [hnil] at hmem
            cases hmem
  | some l =>
      have hdiff : timeslotDiff (tschScheduleGetNextActiveLink s s.slot.tschCurrentAsn) =
          (tschScheduleGetNextActiveLink s s.slot.tschCurrentAsn).timeToCurrBest := by
        rw [timeslotDiff, hbest]
        rfl
      have hfree : s.lock.tschLocked = false := by
        cases hlock : s.lock.tschLocked with
        | false => rfl
        | true =>
            simp only [tschScheduleGetNextActiveLink, tschIsLocked, hlock, if_true] at hbest
            cases hbest
      have hleast := isLeast_timeToCurrBest hfree (hs hfree) hbest
      rw [← hdiff] at hleast
      refine Decides.passed s.dueAt hpos (fun x hgt hlt => dueAt_nil fun p hp => ?_) rfl ?_ rfl
      · have hle := hleast.2 ⟨Nat.sub_pos_of_lt hgt, p, by
          rw [Nat.add_sub_cancel' (Nat.le_of_lt hgt)]
          exact hp⟩
        omega
      · refine due_mem_dueAt.mpr ?_
        rw [hdiff]
        exact (nextActiveLink_due hfree (hs hfree) _ hbest).1

theorem decides_choiceMarks (hs : ValidSchedule s) :
    Decides s.slot.tschCurrentAsn (s.slot.tschCurrentAsn + (nextLink s).2)
      (nextLink s).1.slot.currentLink (choiceMarks s) := by
  have hschedule := decides_scheduleMarks hs
  rw [choiceMarks, nextLink]
  cases hb : s.slot.burstLinkScheduled with
  | false => exact hschedule
  | true =>
      cases hl : s.slot.currentLink with
      | none => exact hschedule
      | some l =>
          have hburst : Decides s.slot.tschCurrentAsn (s.slot.tschCurrentAsn + 1) (some l)
              [.burst (s.slot.tschCurrentAsn + 1) l] :=
            Decides.passed (fun _ => []) (Nat.le_refl 1) (fun _ _ _ => rfl) rfl trivial rfl
          have hkeep : (replayBurst s).slot.currentLink = some l := hl
          simp only [Option.isSome_some, Bool.and_self, if_true, hkeep]
          exact hburst

/-! ## The catch-up loop -/

variable (cfg) in
theorem decides_round (hs : ValidSchedule s) (i : LoopInput) :
    Decides s.slot.tschCurrentAsn (slotEndRound cfg i s).1.slot.tschCurrentAsn
        (slotEndRound cfg i s).1.slot.currentLink
        (choiceMarks (updateLinkBackoff cfg s.slot.currentLink s)) ∧
      ValidSchedule (slotEndRound cfg i s).1 := by
  have hvalid : ValidSchedule (updateLinkBackoff cfg s.slot.currentLink s) :=
    hs.of_owned (updateLinkBackoff_owned cfg _ s)
  have hslot : (updateLinkBackoff cfg s.slot.currentLink s).slot = s.slot := updateLinkBackoff_slot cfg _ s
  obtain ⟨-, hasn, -, howned⟩ := nextLink_frame (n := 0) hvalid
  have hchoice := decides_choiceMarks hvalid
  have hround : (slotEndRound cfg i s).1.slot.tschCurrentAsn = s.slot.tschCurrentAsn +
      (nextLink (updateLinkBackoff cfg s.slot.currentLink s)).2 := by
    rw [← congrArg SlotVars.tschCurrentAsn hslot, ← hasn]
    rfl
  rw [hslot] at hchoice
  rw [hround]
  exact ⟨hchoice, hvalid.of_owned howned⟩

theorem decides_catchUp (hs : ValidSchedule s) {is : List LoopInput}
    (h : scheduleNextSlot cfg is s = some s') :
    Decides s.slot.tschCurrentAsn s'.slot.tschCurrentAsn s'.slot.currentLink (catchUpMarks cfg is s) := by
  induction h using scheduleNextSlot_induction with
  | armed i is s harmed =>
      rw [catchUpMarks, if_pos harmed, List.append_nil]
      exact (decides_round cfg hs i).1
  | missed i is s s' hmissed _ ih =>
      obtain ⟨hround, hs'⟩ := decides_round cfg hs i
      rw [catchUpMarks, if_neg (Bool.eq_false_iff.mp hmissed)]
      exact hround.again (ih hs')

/-- The end of a slot decides on the next ones, or the node leaves the network. -/
theorem decides_endMarks (hs : ValidSchedule s) {i : SlotInput} (h : endOfSlot cfg i s = some s') :
    s'.slot.pc = .asleep ∧
      (Decides s.slot.tschCurrentAsn s'.slot.tschCurrentAsn s'.slot.currentLink (endMarks cfg i s) ∨
        endMarks cfg i s = [] ∧ s'.slot.tschIsAssociated = false ∧
          s'.slot.tschCurrentAsn = s.slot.tschCurrentAsn) := by
  simp only [endOfSlot] at h
  rw [endMarks]
  split at h
  · rename_i hcoord
    rw [if_pos hcoord]
    obtain ⟨t, ht, rfl⟩ := Option.map_eq_some_iff.mp h
    have hdecides := decides_catchUp (s := s.keepTime i.clockTime) hs ht
    exact ⟨rfl, .inl hdecides⟩
  · rename_i hcoord
    rw [if_neg hcoord]
    split at h
    · rename_i hdesync
      rw [if_pos hdesync]
      cases h
      exact ⟨rfl, .inr ⟨rfl, rfl, rfl⟩⟩
    · rename_i hdesync
      rw [if_neg hdesync]
      obtain ⟨t, ht, rfl⟩ := Option.map_eq_some_iff.mp h
      have hdecides := decides_catchUp hs ht
      exact ⟨rfl, .inl hdecides⟩

end

/-! ## The invariant -/

/-- Between slots, the link in use is the one that was decided on. -/
structure Executed (a : Nat) (ms : List SlotMark) (s : TschState) : Prop
    extends Accounted a s.slot.tschCurrentAsn ms where
  asleep : s.slot.pc = .asleep → s.slot.tschIsAssociated = true →
    ms = [] ∨ waits ms = s.slot.currentLink.map (s.slot.tschCurrentAsn, ·)
  awake : s.slot.pc ≠ .asleep → waits ms = none

section
variable {a b c : Nat} {next : Option Nat} {ms ms' : List SlotMark} {s s' : TschState}

theorem waits_concat (m : SlotMark) : waits (ms ++ [m]) = m.pending := by
  rw [waits, List.getLast?_concat]
  rfl

theorem Accounted.settle (h : Accounted a b ms) {m : SlotMark} (hm : m.decided = none)
    (hsound : m.Sound) (hfollows : ∀ x ∈ ms.getLast?, x.Follows m) : Accounted a b (ms ++ [m]) := by
  refine h.append (accounted_singleton b hm hsound) ?_
  intro x hx y hy
  cases hy
  exact hfollows x hx

theorem Accounted.decides (h : Accounted a b ms) (hw : waits ms = none) (h' : Decides b c next ms') :
    Accounted a c (ms ++ ms') := by
  refine h.append h'.toAccounted ?_
  intro x hx y hy
  obtain ⟨d, hd⟩ := h'.first y hy
  refine (SlotMark.follows_decision hd).mpr ?_
  rw [waits, hx] at hw
  exact hw

theorem pending_of_waits {x : SlotMark} {l : Nat} (h : ms = [] ∨ waits ms = some (b, l))
    (hx : x ∈ ms.getLast?) : x.pending = some (b, l) := by
  rcases h with rfl | h
  · cases hx
  · rw [waits, hx] at h
    exact h

theorem Executed.start (h : Executed a ms s)
    (hassoc : s.slot.pc = .asleep → s.slot.tschIsAssociated = true) :
    Accounted a s.slot.tschCurrentAsn (ms ++ startMarks s) ∧ waits (ms ++ startMarks s) = none := by
  by_cases hpc : s.slot.pc = .asleep
  · have hnow := h.asleep hpc (hassoc hpc)
    rw [startMarks, if_pos ⟨hpc, hassoc hpc⟩]
    cases hl : s.slot.currentLink with
    | none =>
        rw [hl] at hnow
        rw [List.append_nil]
        refine ⟨h.toAccounted, ?_⟩
        rcases hnow with rfl | hnow
        · rfl
        · exact hnow
    | some l =>
        rw [hl] at hnow
        have hlast : ∀ x ∈ ms.getLast?, x.pending = some (s.slot.tschCurrentAsn, l) := fun x hx =>
          pending_of_waits hnow hx
        dsimp only
        split
        · exact ⟨h.settle rfl trivial hlast, waits_concat _⟩
        · exact ⟨h.settle rfl trivial hlast, waits_concat _⟩
  · rw [startMarks, if_neg fun hstart => hpc hstart.1, List.append_nil]
    exact ⟨h.toAccounted, h.awake hpc⟩

/-- **An interrupt.** -/
theorem Executed.slot (h : Executed a ms s) (hs : ExecutionStep cfg ms' s s') :
    Executed a (ms ++ ms') s' := by
  cases hs with
  | idle hstep hpc hleft =>
      rcases slotStep_stops hstep with ⟨-, -, rfl⟩ | ⟨hassoc, -⟩
      · rw [List.append_nil]
        exact ⟨h.toAccounted, h.asleep, h.awake⟩
      · cases hleft.symm.trans (hassoc hpc)
  | yield hvalid hstep hpc' =>
      rcases slotStep_stops hstep with ⟨hpc, -, rfl⟩ | ⟨hassoc, ⟨-, hk, -⟩ | ⟨w, -, hend⟩⟩
      · exact absurd hpc hpc'
      · obtain ⟨hacc, hwaits⟩ := h.start hassoc
        have hasn : s'.slot.tschCurrentAsn = s.slot.tschCurrentAsn :=
          (congrArg Kept.tschCurrentAsn hk).trans (takeUp_asn cfg s)
        rw [← hasn] at hacc
        exact ⟨hacc, fun hpc => absurd hpc hpc', fun _ => hwaits⟩
      · exact absurd (endOfSlot_asleep hend) hpc'
  | finish hvalid hstep hassoc hk hend =>
      rename_i i w
      obtain ⟨hacc, hwaits⟩ := h.start hassoc
      have howned : ((slotEvent cfg i s).apply cfg i w).owned = s.owned :=
        ((apply_owned cfg i _ w).trans (congrArg Kept.owned hk)).trans
          (congrArg Rest.owned (takeUp_rest cfg s))
      have hasn : ((slotEvent cfg i s).apply cfg i w).slot.tschCurrentAsn = s.slot.tschCurrentAsn :=
        ((apply_slot cfg i _ w).1.trans (congrArg Kept.tschCurrentAsn hk)).trans (takeUp_asn cfg s)
      rw [← hasn] at hacc
      rw [← List.append_assoc]
      obtain ⟨hpc', hdecides | ⟨hnone, hleft, hasn'⟩⟩ := decides_endMarks (hvalid.of_owned howned) hend
      · have hnext := hdecides.waits_append (ms ++ startMarks s)
        exact ⟨hacc.decides hwaits hdecides, fun _ _ => .inr hnext, fun hawake => absurd hpc' hawake⟩
      · rw [hnone, List.append_nil]
        rw [← hasn'] at hacc
        refine ⟨hacc, fun _ hassoc' => ?_, fun hawake => absurd hpc' hawake⟩
        cases hleft.symm.trans hassoc'

/-- **An action of a process.** -/
theorem Executed.act {n : LinkAddr} (h : Executed a ms s) (ha : ProcessAct n s s') :
    Executed a (ms ++ processMarks s s') s' := by
  have hsame : s'.slot.currentLink = s.slot.currentLink →
      Executed a ms s' := by
    intro hl
    refine ⟨ha.asn ▸ h.toAccounted, fun hpc hassoc => ?_, fun hpc => h.awake (ha.pc ▸ hpc)⟩
    rw [hl, ha.asn]
    exact h.asleep (ha.pc ▸ hpc) (ha.associated ▸ hassoc)
  rw [processMarks]
  split
  · rename_i hgone
    obtain ⟨hpc, hassoc, hsome, hnone⟩ := hgone
    obtain ⟨l, hl⟩ := Option.isSome_iff_exists.mp hsome
    have hnow := h.asleep hpc hassoc
    rw [hl] at hnow
    have hacc : Accounted a s.slot.tschCurrentAsn (ms ++ [.withdrawn s.slot.tschCurrentAsn]) :=
      h.settle rfl trivial fun x hx => ⟨l, pending_of_waits hnow hx⟩
    refine ⟨ha.asn ▸ hacc, fun _ _ => ?_, fun _ => waits_concat _⟩
    rw [waits_concat, hnone]
    exact .inr rfl
  · rename_i hstays
    rw [List.append_nil]
    rcases ha.currentLink with hl | hnone
    · exact hsame hl
    · cases hl : s.slot.currentLink with
      | none => exact hsame (hnone.trans hl.symm)
      | some l =>
          -- the link is cleared in a slot, or outside a network
          refine ⟨ha.asn ▸ h.toAccounted, fun hpc hassoc => ?_, fun hpc => h.awake (ha.pc ▸ hpc)⟩
          exact absurd ⟨ha.pc ▸ hpc, ha.associated ▸ hassoc, by rw [hl]; rfl, hnone⟩ hstays

end

/-! ## Runs -/

theorem executed_history {α : Type} {n : LinkAddr} {p : Prog TschState α}
    (hp : p.Guar (ProcessAct n)) {s : TschState} (hpc : s.slot.pc = .asleep) {ms : List SlotMark}
    {c : Prog TschState α × TschState}
    (hr : History (ExecutionStep cfg) processMarks (p, s) ms c) :
    Executed s.slot.tschCurrentAsn ms c.2 := by
  have hstart : Executed s.slot.tschCurrentAsn [] s := by
    refine ⟨⟨Nat.le_refl _, ?_, fun _ hm => (by cases hm), .nil⟩, fun _ _ => .inl rfl,
      fun hawake => absurd hpc hawake⟩
    rw [Nat.sub_self]
    rfl
  exact History.invariant (I := fun _ => True) (fun _ => trivial) hp hstart
    (fun _ _ _ _ h ha => h.act ha) (fun _ _ _ _ _ h hs => h.slot hs) hr

/-- **The schedule is executed.**  In every run of a whole node, from between two slots: each
timeslot is decided on once, in order; one is passed over only if no link is due in it, the link
of a slot is due in it, and there is no link only if none is due or the lock is held; and a slot
that is decided on for a link begins on it, next of all, unless its deadline is missed, the lock is
requested, or a process takes the link away.  What is recorded as begun is a slot that an interrupt
of the run has run on that link. -/
theorem schedule_executed (fuel : Nat) (calls : List NodeCall) {s : TschState}
    (hpc : s.slot.pc = .asleep) {ms : List SlotMark} {c : Prog TschState Unit × TschState}
    (hr : History (ExecutionStep cfg) processMarks
      (Prog.forEach calls (NodeCall.perform cfg fuel), s) ms c) :
    s.slot.tschCurrentAsn ≤ c.2.slot.tschCurrentAsn ∧
      ms.filterMap SlotMark.decided = List.range' (s.slot.tschCurrentAsn + 1)
        (c.2.slot.tschCurrentAsn - s.slot.tschCurrentAsn) ∧
      (∀ m ∈ ms, m.Sound) ∧ ms.IsChain SlotMark.Follows ∧
      ∀ a l, .began a l ∈ ms → ∃ ms' d i s', History (ExecutionStep cfg) processMarks
        (Prog.forEach calls (NodeCall.perform cfg fuel), s) ms' d ∧ RunsSlot cfg a l i d.2 s' := by
  have h := executed_history (guar_nodeCalls (n := 0) fuel calls) hpc hr
  refine ⟨h.later, h.decided, h.sound, h.chain, fun a l hm => ?_⟩
  obtain ⟨ms', _, d, s', hd, hstep, hm⟩ := hr.exists_env (began_notMem_processMarks a l) hm
  obtain ⟨i, hruns⟩ := hstep.runs_began hm
  exact ⟨ms', d, i, s', hd, hruns⟩

/-! ### A missed deadline -/

/-- An interrupt with its record. -/
def executionMove (cfg : Config) (i : SlotInput) (s : TschState) :
    Option (List SlotMark × TschState) :=
  if ValidSchedule s then
    match slotEnd cfg i s, slotStep cfg i s with
    | some w, some s' => some (startMarks s ++ endMarks cfg i ((slotEvent cfg i s).apply cfg i w), s')
    | none, some s' => if s'.slot.pc ≠ .asleep then some (startMarks s, s') else none
    | _, none => none
  else none

theorem executionMove_step (i : SlotInput) (s : TschState) (ms : List SlotMark) (s' : TschState)
    (h : executionMove cfg i s = some (ms, s')) : ExecutionStep cfg ms s s' := by
  simp only [executionMove] at h
  split at h
  · rename_i hvalid
    split at h
    · rename_i w t hw ht
      cases h
      obtain ⟨hstep, hk, hassoc⟩ := slotEnd_step hw
      exact .finish hvalid ht hassoc hk (hstep.symm.trans ht)
    · rename_i t _ ht
      split at h
      · rename_i hpc
        cases h
        exact .yield hvalid ht hpc
      · cases h
    · cases h
  · cases h

/-- The packet is sent in slot 1; the deadline of slot 8 is missed. -/
def missedMoves : List (Option SlotInput) :=
  [some (.quiet 0), some (.quiet 328), some (.quiet 328),
    some { SlotInput.quiet 328 with loop := [⟨0, 328, false⟩, ⟨0, 2624, true⟩] }]

def missedMarks : List SlotMark :=
  [.chosen 1 0 [0, 1], .began 1 0] ++ (List.range' 2 6).map (.passed · []) ++
    [.chosen 8 0 [0, 1], .missed 8] ++ (List.range' 9 6).map (.passed · []) ++ [.chosen 15 0 [0, 1]]

theorem schedule_executed_missed :
    ∃ (ms : List SlotMark) (c : Prog TschState Unit × TschState),
      History (ExecutionStep (smallBuild 8)) processMarks
        (Prog.forEach [] (NodeCall.perform (smallBuild 8) 0), sameSlotStart rxShared) ms c ∧
      ms = missedMarks ∧
      ms.filterMap SlotMark.decided =
        List.range' ((sameSlotStart rxShared).slot.tschCurrentAsn + 1)
          (c.2.slot.tschCurrentAsn - (sameSlotStart rxShared).slot.tschCurrentAsn) ∧
      (∀ m ∈ ms, m.Sound) ∧ ms.IsChain SlotMark.Follows ∧
      ∃ d i s', RunsSlot (smallBuild 8) 1 0 i d s' := by
  obtain ⟨ms, c, hr, hms⟩ := History.exists_historyOf (executionMove (smallBuild 8)) processMarks
    (Prog.forEach [] (NodeCall.perform (smallBuild 8) 0), sameSlotStart rxShared)
    executionMove_step missedMoves (fun r => decide (r.1 = missedMarks)) (by decide +kernel)
  have hpc : (sameSlotStart rxShared).slot.pc = .asleep := by decide +kernel
  have hmarks : ms = missedMarks := of_decide_eq_true hms
  obtain ⟨-, hdecided, hsound, hchain, hruns⟩ := schedule_executed 0 [] hpc hr
  have hbegan : .began 1 0 ∈ ms := by rw [hmarks]; decide
  obtain ⟨_, d, i, s', -, hrun⟩ := hruns 1 0 hbegan
  exact ⟨ms, c, hr, hmarks, hdecided, hsound, hchain, d.2, i, s', hrun⟩

end QlTsch
