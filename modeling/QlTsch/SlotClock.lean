/-
# `QlTsch.SlotClock` — the ASN and the slot clock advance together

`tsch_slot_operation_sync` sets `current_slot_start` and `tsch_current_asn`; from then on
both are advanced in two loops, that of `tsch_slot_operation_start` and the catch-up loop
at the end of every slot.  Each round adds a number of slots to the one and as many
timeslot lengths to the other, and to the latter also what
`tsch_timesync_adaptive_compensate` returns.  A drift correction that was measured in the
slot is added in the first round, and only there.

The record of a run says what was given at the last sync and what was corrected and
compensated since (`SyncRecord`).  `clock_in_lockstep`: at every moment of every run the
slot clock is what the record and the ASN say, and a timer that is armed is armed for it.

How many rounds an interrupt runs is up to the timer.  `roundsRead` finds them from the
outside: they are the shortest input of the loop with which the interrupt comes to its end.
-/
import Mathlib.Data.Int.ModEq
import Mathlib.Data.List.Infix
import Mathlib.Tactic.Ring
import QlTsch.Lib.History
import QlTsch.NodeCalls

namespace QlTsch

open Interleave Interleave.Prog

variable (cfg : Config)

/-! ## Sync and start -/

/-- `tsch_slot_operation_sync`. -/
def tschSlotOperationSync (nextSlotStart : Int) (nextSlotAsn : Nat) (clockTime : Int)
    (s : TschState) : TschState :=
  { s with slot := { s.slot with
      currentSlotStart := nextSlotStart
      tschCurrentAsn := nextSlotAsn
      lastSyncAsn := nextSlotAsn
      tschLastSyncTime := clockTime
      currentLink := none } }

/-- The first link: the burst count is left as it is. -/
def startLink (s : TschState) : TschState :=
  let r := tschScheduleGetNextActiveLink s s.slot.tschCurrentAsn
  { s with
    slot := { s.slot with currentLink := r.currBest, backupLink := r.currBackup }
    ghost := { s.ghost with
      currentSerial := r.currBest.map fun p => (s.link p).serial
      backupSerial := r.currBackup.map fun p => (s.link p).serial
      fromSchedule := true } }

/-- `time_to_next_active_slot` of `tsch_slot_operation_start`, without drift. -/
def timeToFirstSlot (diff : Nat) (i : LoopInput) : Int :=
  cfg.rtimer (cfg.rtimer (diff * cfg.tsTimeslotLength) + i.compensate)

/-- The body of the loop of `tsch_slot_operation_start`. -/
def startRound (i : LoopInput) (s : TschState) : TschState × Int :=
  let diff := timeslotDiff (tschScheduleGetNextActiveLink s s.slot.tschCurrentAsn)
  let s' := startLink s
  ({ s' with slot := { s'.slot with
      tschCurrentAsn := s.slot.tschCurrentAsn + diff
      currentSlotStart := cfg.rtimer (s.slot.currentSlotStart + timeToFirstSlot cfg diff i) } },
    timeToFirstSlot cfg diff i)

/-- Rounds until the timer could be armed, for either loop; `none` if the input has no
round left. -/
def catchUp (round : LoopInput → TschState → TschState × Int) :
    List LoopInput → TschState → Option TschState
  | [], _ => none
  | i :: is, s =>
      let r := round i s
      if tschScheduleSlotOperation cfg s.slot.currentSlotStart r.2 i.now i.rtimerOk then
        some (r.1.armTimer (cfg.rtimer (s.slot.currentSlotStart + r.2)))
      else catchUp round is r.1

/-- `tsch_slot_operation_start`. -/
def tschSlotOperationStart (is : List LoopInput) (s : TschState) : Option TschState :=
  catchUp cfg (startRound cfg) is s

/-! ## What happens to the clock -/

/-- The correction that an acknowledgement brings, if the neighbor is the time source. -/
def ackCorrection (i : SlotInput) (s : TschState) : Option Int :=
  match s.slot.currentNeighbor with
  | none => none
  | some n =>
      if ackReceived cfg i && (s.queue.neighbors n).isTimeSource then
        some (boundCorrection cfg i.eackTimeCorrection)
      else none

/-- The correction that a frame brings, if its sender is the time source. -/
def frameCorrection (f : RxFrame) (s : TschState) : Option Int :=
  match tschQueueGetNbr s f.sourceAddress with
  | none => none
  | some n => if (s.queue.neighbors n).isTimeSource then some (-f.estimatedDrift) else none

/-- The drift correction measured in the slot, in the interrupt that ends it. -/
def slotCorrection (i : SlotInput) (s : TschState) : Option Int :=
  match s.slot.pc with
  | .txBeforeAck _ => ackCorrection cfg i s
  | .rxBeforeListen =>
      match i.received with
      | none => none
      | some f =>
          if frameIsForUs cfg f && !(f.ackRequired && f.eackBuilt) then frameCorrection f s else none
  | .rxBeforeAck f => frameCorrection f s
  | .asleep | .txBeforeCca _ | .txBeforeTx _ => none

def SlotInput.withLoop (i : SlotInput) (is : List LoopInput) : SlotInput := { i with loop := is }

/-- The rounds a loop reads of its input: the shortest beginning of the input with which it
comes to an end. -/
def roundsOf (f : List LoopInput → Option TschState) (is : List LoopInput) : List LoopInput :=
  (is.inits.find? fun l => (f l).isSome).getD []

/-- The rounds of the catch-up loop that an interrupt runs. -/
def roundsRead (i : SlotInput) (s : TschState) : List LoopInput :=
  roundsOf (fun l => slotStep cfg (i.withLoop l) s) i.loop

inductive ClockEvent where
  /-- `tsch_slot_operation_sync` -/
  | synced (nextSlotStart : Int) (nextSlotAsn : Nat)
  /-- the drift correction of a slot -/
  | corrected (d : Int)
  /-- a result of `tsch_timesync_adaptive_compensate` -/
  | compensated (d : Int)
deriving DecidableEq, Repr

def compensations (is : List LoopInput) : List ClockEvent := is.map fun i => .compensated i.compensate

/-- What one interrupt does to the clock. -/
def clockEvents (i : SlotInput) (s : TschState) : List ClockEvent :=
  ((slotCorrection cfg i s).map ClockEvent.corrected).toList ++ compensations (roundsRead cfg i s)

/-- What was given at the last sync, and what was added since. -/
structure SyncRecord where
  start : Int
  asn : Nat
  corrections : Int
  compensations : Int
deriving DecidableEq, Repr

def SyncRecord.note : Option SyncRecord → ClockEvent → Option SyncRecord
  | _, .synced start asn => some ⟨start, asn, 0, 0⟩
  | r, .corrected d => r.map fun r => { r with corrections := r.corrections + d }
  | r, .compensated d => r.map fun r => { r with compensations := r.compensations + d }

def sinceSync (es : List ClockEvent) : Option SyncRecord := es.foldl SyncRecord.note none

/-- An interrupt, or a step of the association: a node joins or leaves, and while no slot
is scheduled it syncs and starts. -/
inductive ClockStep : List ClockEvent → TschState → TschState → Prop
  | slot {i : SlotInput} {s s' : TschState} : slotStep cfg i s = some s' →
      ClockStep (clockEvents cfg i s) s s'
  | associate (associated coordinator : Bool) (s : TschState) :
      ClockStep [] s { s with slot := { s.slot with
        tschIsAssociated := associated, tschIsCoordinator := coordinator } }
  | sync (nextSlotStart : Int) (nextSlotAsn : Nat) (clockTime : Int) {s : TschState} :
      s.slot.pc = .asleep → s.slot.timer = none →
      ClockStep [.synced nextSlotStart nextSlotAsn] s
        (tschSlotOperationSync nextSlotStart nextSlotAsn clockTime s)
  | start {is : List LoopInput} {s s' : TschState} : s.slot.pc = .asleep → s.slot.timer = none →
      tschSlotOperationStart cfg is s = some s' →
      ClockStep (compensations (roundsOf (fun l => tschSlotOperationStart cfg l s) is)) s s'

variable {cfg}

/-! ## Rounds -/

section
variable {f g : List LoopInput → Option TschState}

theorem roundsOf_of_nil (h : (f []).isSome = true) (is : List LoopInput) : roundsOf f is = [] := by
  cases is <;> simp [roundsOf, List.inits, h]

theorem roundsOf_cons {i : LoopInput} {is : List LoopInput} (h0 : f [] = none)
    (hf : ∀ l, f (i :: l) = g l) (hg : (g is).isSome = true) :
    roundsOf f (i :: is) = i :: roundsOf g is := by
  have hsome : (is.inits.find? fun l => (g l).isSome).isSome = true := by
    rw [List.find?_isSome]
    exact ⟨is, (List.mem_inits is is).mpr (List.prefix_refl is), hg⟩
  obtain ⟨l, hl⟩ := Option.isSome_iff_exists.mp hsome
  have hcomp : ((fun l => (f l).isSome) ∘ List.cons i) = fun l => (g l).isSome := by
    funext l
    simp only [Function.comp, hf]
  simp only [roundsOf, List.inits, List.find?_cons, h0, Option.isSome_none, List.find?_map, hcomp, hl,
    Option.map_some, Option.getD_some]

theorem roundsOf_congr (h : ∀ l, (f l).isSome = (g l).isSome) (is : List LoopInput) :
    roundsOf f is = roundsOf g is := by
  simp only [roundsOf, h]

end

/-- What the rounds add to the slot clock. -/
def compensation (is : List LoopInput) : Int := (is.map LoopInput.compensate).sum

/-- Between `s` and `t` the ASN and the slot clock have advanced together, the clock by
`d` more; the timer is armed for it. -/
structure Advanced (cfg : Config) (d : Int) (s t : TschState) : Prop where
  slotStart : t.slot.currentSlotStart ≡ s.slot.currentSlotStart +
    ((t.slot.tschCurrentAsn : Int) - s.slot.tschCurrentAsn) * cfg.tsTimeslotLength + d
      [ZMOD 2 ^ cfg.rtimerBits]
  drift : t.slot.driftCorrection = 0
  timer : t.slot.timer = some t.slot.currentSlotStart

theorem modEq_of_eq {n a b : Int} (h : a = b) : a ≡ b [ZMOD n] := congrArg (· % n) h

theorem rtimer_modEq (x : Int) : cfg.rtimer x ≡ x [ZMOD 2 ^ cfg.rtimerBits] := Int.mod_modEq x _

/-- What one round from `s` to `r.1` does: the ASN goes on by some slots, the slot clock
by `r.2`, which is their length, the drift that was pending and the compensation. -/
structure RoundClock (cfg : Config) (i : LoopInput) (s : TschState) (r : TschState × Int)
    (diff : Nat) : Prop where
  asn : r.1.slot.tschCurrentAsn = s.slot.tschCurrentAsn + diff
  drift : r.1.slot.driftCorrection = 0
  slotStart : r.1.slot.currentSlotStart = cfg.rtimer (s.slot.currentSlotStart + r.2)
  time : r.2 ≡ diff * cfg.tsTimeslotLength + s.slot.driftCorrection + i.compensate
    [ZMOD 2 ^ cfg.rtimerBits]

theorem nextLink_clock (s : TschState) :
    (nextLink s).1.slot.tschCurrentAsn = s.slot.tschCurrentAsn ∧
      (nextLink s).1.slot.currentSlotStart = s.slot.currentSlotStart ∧
      (nextLink s).1.slot.driftCorrection = s.slot.driftCorrection := by
  simp only [nextLink]
  split <;> exact ⟨rfl, rfl, rfl⟩

/-- A round at the end of a slot uses up the correction of the slot. -/
theorem slotEndRound_clock (i : LoopInput) (s : TschState) :
    ∃ diff, RoundClock cfg i s (slotEndRound cfg i s) diff := by
  obtain ⟨hasn, hstart, hdrift⟩ := nextLink_clock (updateLinkBackoff cfg s.slot.currentLink s)
  rw [updateLinkBackoff_slot] at hasn hstart hdrift
  refine ⟨(nextLink (updateLinkBackoff cfg s.slot.currentLink s)).2, ?_, rfl, ?_, ?_⟩
  · simp only [slotEndRound, advanceClock, hasn]
  · simp only [slotEndRound, advanceClock, hstart]
  · simp only [slotEndRound, timeToNextActiveSlot, hdrift]
    exact (rtimer_modEq _).trans ((rtimer_modEq _).add_right _)

/-- A round of the start takes no correction, and finds none. -/
theorem startRound_clock (i : LoopInput) {s : TschState} (hd : s.slot.driftCorrection = 0) :
    ∃ diff, RoundClock cfg i s (startRound cfg i s) diff := by
  refine ⟨timeslotDiff (tschScheduleGetNextActiveLink s s.slot.tschCurrentAsn), rfl, hd, rfl, ?_⟩
  rw [hd, add_zero]
  exact (rtimer_modEq _).trans ((rtimer_modEq _).add_right _)

/-- **The loop.**  The pending correction is counted in the first round only, each
compensation once. -/
theorem catchUp_clock {round : LoopInput → TschState → TschState × Int} {K : TschState → Prop}
    (hround : ∀ i s, K s → ∃ diff, RoundClock cfg i s (round i s) diff)
    (hK : ∀ s, s.slot.driftCorrection = 0 → K s) {is : List LoopInput} {s t : TschState}
    (hs : K s) (h : catchUp cfg round is s = some t) :
    Advanced cfg (s.slot.driftCorrection +
      compensation (roundsOf (fun l => catchUp cfg round l s) is)) s t := by
  induction is generalizing s with
  | nil => cases h
  | cons i is ih =>
      obtain ⟨diff, hasn, hdrift, hstart, htime⟩ := hround i s hs
      have hclock : (round i s).1.slot.currentSlotStart ≡ s.slot.currentSlotStart +
          (diff * cfg.tsTimeslotLength + s.slot.driftCorrection + i.compensate)
            [ZMOD 2 ^ cfg.rtimerBits] := by
        rw [hstart]
        exact (rtimer_modEq _).trans (htime.add_left _)
      simp only [catchUp] at h
      split at h
      · -- the timer is armed
        rename_i harmed
        cases h
        have hread : roundsOf (fun l => catchUp cfg round l s) (i :: is) = [i] := by
          rw [roundsOf_cons (g := fun _ => some _) rfl
            (fun l => by simp only [catchUp, if_pos harmed]; rfl) rfl, roundsOf_of_nil rfl]
        refine ⟨?_, hdrift, ?_⟩
        · rw [hread]
          refine hclock.trans (modEq_of_eq ?_)
          simp only [TschState.armTimer, hasn, compensation, List.map_cons, List.map_nil,
            List.sum_cons, List.sum_nil]
          push_cast
          ring
        · simp only [TschState.armTimer, hstart]
      · -- the deadline is missed
        rename_i hmissed
        have hread : roundsOf (fun l => catchUp cfg round l s) (i :: is) =
            i :: roundsOf (fun l => catchUp cfg round l (round i s).1) is :=
          roundsOf_cons rfl (fun l => by simp only [catchUp, if_neg hmissed]) (by rw [h]; rfl)
        obtain ⟨hlaw, hd, htimer⟩ := ih (hK _ hdrift) h
        refine ⟨?_, hd, htimer⟩
        rw [hread]
        refine hlaw.trans ?_
        rw [hdrift, hasn]
        refine ((hclock.add_right _).add_right _).trans (modEq_of_eq ?_)
        simp only [compensation, List.map_cons, List.sum_cons]
        push_cast
        ring

theorem scheduleNextSlot_eq (is : List LoopInput) (s : TschState) :
    scheduleNextSlot cfg is s = catchUp cfg (slotEndRound cfg) is s := by
  induction is generalizing s with
  | nil => rfl
  | cons i is ih => simp only [scheduleNextSlot, catchUp, ih]

theorem scheduleNextSlot_clock {is : List LoopInput} {s t : TschState}
    (h : scheduleNextSlot cfg is s = some t) :
    Advanced cfg (s.slot.driftCorrection +
      compensation (roundsOf (fun l => scheduleNextSlot cfg l s) is)) s t := by
  simp only [scheduleNextSlot_eq] at h ⊢
  exact catchUp_clock (K := fun _ => True) (fun i s _ => slotEndRound_clock i s)
    (fun _ _ => trivial) trivial h

theorem start_clock {is : List LoopInput} {s t : TschState} (hd : s.slot.driftCorrection = 0)
    (h : tschSlotOperationStart cfg is s = some t) :
    Advanced cfg (compensation (roundsOf (fun l => tschSlotOperationStart cfg l s) is)) s t := by
  have hadv : Advanced cfg (s.slot.driftCorrection +
      compensation (roundsOf (fun l => catchUp cfg (startRound cfg) l s) is)) s t :=
    catchUp_clock (K := fun s => s.slot.driftCorrection = 0) (fun i _ hs => startRound_clock i hs)
      (fun _ h => h) hd h
  rw [hd, zero_add] at hadv
  exact hadv

/-! ## The end of a slot -/

theorem endOfSlot_clock {i : SlotInput} {w t : TschState} (h : endOfSlot cfg i w = some t)
    (hsync : w.slot.driftCorrection ≠ 0 → w.slot.lastSyncAsn = w.slot.tschCurrentAsn) :
    Advanced cfg (w.slot.driftCorrection +
        compensation (roundsOf (fun l => endOfSlot cfg (i.withLoop l) w) i.loop)) w t ∨
      w.slot.driftCorrection = 0 ∧ t = w.disassociate.sleep ∧
        roundsOf (fun l => endOfSlot cfg (i.withLoop l) w) i.loop = [] := by
  -- with or without the coordinator's clock, the rounds are those of the loop
  have hloop : ∀ v : TschState, v.slot.driftCorrection = w.slot.driftCorrection →
      v.slot.tschCurrentAsn = w.slot.tschCurrentAsn →
      v.slot.currentSlotStart = w.slot.currentSlotStart →
      (∀ l, endOfSlot cfg (i.withLoop l) w = (scheduleNextSlot cfg l v).map TschState.sleep) →
      Advanced cfg (w.slot.driftCorrection +
        compensation (roundsOf (fun l => endOfSlot cfg (i.withLoop l) w) i.loop)) w t := by
    intro v hd hasn hstart hall
    obtain ⟨u, hu, rfl⟩ := Option.map_eq_some_iff.mp ((hall i.loop).symm.trans h)
    rw [roundsOf_congr (g := fun l => scheduleNextSlot cfg l v)
      (fun l => by rw [hall, Option.isSome_map])]
    obtain ⟨hlaw, hdrift, htimer⟩ := scheduleNextSlot_clock hu
    rw [hd, hasn, hstart] at hlaw
    exact ⟨hlaw, hdrift, htimer⟩
  by_cases hc : w.slot.tschIsCoordinator = true
  · refine .inl (hloop (w.keepTime i.clockTime) rfl rfl rfl fun l => ?_)
    simp only [endOfSlot, hc, if_true, SlotInput.withLoop]
  · by_cases hdes : desynchronized cfg w = true
    · have hleave : ∀ l, endOfSlot cfg (i.withLoop l) w = some w.disassociate.sleep := fun l => by
        simp only [endOfSlot, if_neg hc, if_pos hdes]
      refine .inr ⟨?_, ?_, ?_⟩
      · -- a slot with a correction is in sync
        by_contra hd
        simp only [desynchronized, hsync hd, Nat.sub_self, Nat.zero_mod, decide_eq_true_eq] at hdes
        omega
      · exact Option.some.inj (h.symm.trans (hleave i.loop))
      · exact roundsOf_of_nil (by rw [hleave]; rfl) _
    · refine .inl (hloop w rfl rfl rfl fun l => ?_)
      simp only [endOfSlot, if_neg hc, if_neg hdes, SlotInput.withLoop]

/-! ## One interrupt -/

/-- All that has to do with the clock. -/
structure ClockVars where
  asn : Nat
  slotStart : Int
  drift : Int
  lastSyncAsn : Nat
  lastSyncTime : Int
  timer : Option Int
  coordinator : Bool

def TschState.clock (s : TschState) : ClockVars :=
  ⟨s.slot.tschCurrentAsn, s.slot.currentSlotStart, s.slot.driftCorrection, s.slot.lastSyncAsn,
    s.slot.tschLastSyncTime, s.slot.timer, s.slot.tschIsCoordinator⟩

/-- `K` can be followed through a slot that starts in `s`: `K corr w` is about a state `w`
of the slot and the correction that is pending there. -/
structure FollowsClock (i : SlotInput) (s : TschState) (K : Option Int → TschState → Prop) :
    Prop where
  self : K none s
  disarm : K none s.disarm
  enter : K none s.disarm.enterSlot
  sync : ∀ {u} d, K none u → K (some d) (u.synchronize d i.clockTime)
  same : ∀ {corr u v}, K corr u → v.clock = u.clock → K corr v

/-- A step of the slot operation, whatever rounds its input has: it stops at a yield inside
the slot, or it comes to the end of the slot with the correction pending; `K` is followed on
the way. -/
inductive SlotPath (cfg : Config) (K : Option Int → TschState → Prop) (i : SlotInput)
    (s : TschState) (corr : Option Int) (f : List LoopInput → Option TschState) : Prop
  | fails : (∀ l, f l = none) → SlotPath cfg K i s corr f
  | yields {s' : TschState} : corr = none → (∀ l, f l = some s') → K none s' →
      (s.slot.tschIsAssociated = true → s'.slot.pc ≠ .asleep) → SlotPath cfg K i s corr f
  | ends {w : TschState} : (∀ l, f l = endOfSlot cfg (i.withLoop l) w) → K corr w →
      SlotPath cfg K i s corr f

section
variable {K : Option Int → TschState → Prop} {i : SlotInput} {s u : TschState} {corr : Option Int}

theorem SlotPath.congr {f g : List LoopInput → Option TschState} (h : SlotPath cfg K i s corr f)
    (hg : ∀ l, g l = f l) : SlotPath cfg K i s corr g := by
  have heq : g = f := funext hg
  rw [heq]
  exact h

theorem path_endOfSlot (h : K corr u) :
    SlotPath cfg K i s corr fun l => endOfSlot cfg (i.withLoop l) u :=
  .ends (fun _ => rfl) h

theorem path_yield {pc : SlotPc} {f : List LoopInput → Option TschState}
    (hf : ∀ l, f l = some (u.setPc pc)) (hpc : pc ≠ .asleep) (h : K none (u.setPc pc)) :
    SlotPath cfg K i s none f :=
  .yields rfl hf h fun _ => hpc

variable (F : FollowsClock i s K)
include F

theorem path_txSlotEnd (st : MacStatus) (h : K corr u) :
    SlotPath cfg K i s corr fun l => txSlotEnd cfg st (i.withLoop l) u := by
  simp only [txSlotEnd]
  split
  · rename_i p n l _ _ _
    obtain ⟨q, d, hq⟩ := finishTx_spec cfg n p l st i.rand u
    refine .ends (w := finishTx cfg n p l st i.rand u) (fun _ => rfl) ?_
    rw [hq]
    simp only [recordOutcome]
    split <;> exact F.same h rfl
  · exact .fails fun _ => rfl

theorem path_rxSlotDeliver (f : RxFrame) (hnone : K none u) :
    SlotPath cfg K i s (frameCorrection f u) fun l => rxSlotDeliver cfg f (i.withLoop l) u := by
  simp only [rxSlotDeliver]
  split
  · exact .fails fun _ => rfl
  · rename_i l _
    obtain ⟨t, ht⟩ := countReception_spec l (syncFromFrame f i u)
    refine .ends (w := (countReception l (syncFromFrame f i u)).putInput f) (fun _ => rfl) ?_
    rw [ht]
    have hsync : K (frameCorrection f u) (syncFromFrame f i u) := by
      simp only [syncFromFrame, frameCorrection]
      cases tschQueueGetNbr u f.sourceAddress with
      | none => exact hnone
      | some n =>
          simp only
          split
          · exact F.sync _ hnone
          · exact hnone
    exact F.same hsync rfl

theorem follows_acceptAck (n : LinkAddr) (loc : TxLocals) (h : K none u) :
    K (if i.ackLen > 0 && (u.queue.neighbors n).isTimeSource then
        some (boundCorrection cfg i.eackTimeCorrection)
      else none) (acceptAck cfg n loc i u) := by
  simp only [acceptAck]
  by_cases hsource : (decide (i.ackLen > 0) && (u.queue.neighbors n).isTimeSource) = true
  · have hsync : K (some (boundCorrection cfg i.eackTimeCorrection))
        (u.synchronize (boundCorrection cfg i.eackTimeCorrection) i.clockTime) := F.sync _ h
    simp only [if_pos hsource]
    split <;> exact F.same hsync rfl
  · simp only [if_neg hsource]
    split <;> exact F.same h rfl

theorem path_txSlotBegin (h : K none u) :
    SlotPath cfg K i s none fun l => txSlotBegin cfg (i.withLoop l) u := by
  have hprep : ∀ n p, K none (prepareFrame cfg n p u) := by
    intro n p
    simp only [prepareFrame]
    split <;> exact F.same h rfl
  simp only [txSlotBegin]
  split
  · split
    · rename_i p n _ _
      split
      · exact path_txSlotEnd F .errFatal (F.same h rfl)
      · by_cases hready : (packetReady i u && i.prepareOk) = true
        · have hpc : ∀ pc, K none ((prepareFrame cfg n p u).setPc pc) := fun pc =>
            F.same (hprep n p) rfl
          split
          · exact path_yield (fun _ => if_pos hready) SlotPc.noConfusion (hpc _)
          · exact path_yield (fun _ => if_pos hready) SlotPc.noConfusion (hpc _)
        · exact (path_txSlotEnd F .err (hprep n p)).congr fun _ => if_neg hready
    · exact .fails fun _ => rfl
  · exact path_endOfSlot h

theorem path_rxSlotBegin (h : K none u) :
    SlotPath cfg K i s none fun l => rxSlotBegin cfg (i.withLoop l) u := by
  simp only [rxSlotBegin]
  split
  · exact path_yield (fun _ => rfl) SlotPc.noConfusion
      (F.same h rfl)
  · exact path_endOfSlot h

theorem path_beginSlot (l : Nat) :
    SlotPath cfg K i s none fun is => beginSlot cfg l (i.withLoop is) s.disarm := by
  have hchoose : K none (chooseLink cfg l s.disarm.enterSlot) := by
    simp only [chooseLink]
    split
    · exact F.same F.enter rfl
    · refine F.same F.enter ?_
      simp only [TschState.clock, getCurrentPacket, switchToBackup, updateLinkBackoff_slot]
  have hchannel : ∀ l', K none (setChannel cfg l' (chooseLink cfg l s.disarm.enterSlot)) := by
    intro l'
    obtain ⟨b, o, c, hc⟩ := setChannel_spec cfg l' (chooseLink cfg l s.disarm.enterSlot)
    rw [hc]
    exact F.same hchoose rfl
  simp only [beginSlot, runSlot]
  split
  · exact .fails fun _ => rfl
  · rename_i l' _
    split
    · exact path_txSlotBegin F (hchannel l')
    · split
      · exact path_rxSlotBegin F (hchannel l')
      · exact path_endOfSlot (F.same hchoose rfl)

/-- **One interrupt** and its correction, whatever rounds its input has. -/
theorem slotStep_path :
    SlotPath cfg K i s (slotCorrection cfg i s) fun l => slotStep cfg (i.withLoop l) s := by
  simp only [slotStep, slotCorrection]
  cases hpc : s.slot.pc with
  | asleep =>
      simp only
      split
      · simp only [wakeUp]
        split
        · split
          · exact path_endOfSlot F.disarm
          · split
            · exact path_endOfSlot F.disarm
            · exact path_beginSlot F _
        · rename_i hleft
          exact .yields rfl (fun _ => rfl) F.disarm fun ha => absurd ha hleft
      · exact .fails fun _ => rfl
  | txBeforeCca loc =>
      by_cases hclear : i.channelClear = true
      · exact path_yield (fun _ => if_pos hclear) SlotPc.noConfusion
          (F.same F.self rfl)
      · exact (path_txSlotEnd F .collision F.self).congr fun _ => if_neg hclear
  | txBeforeTx loc =>
      have hnote : K none (s.noteTransmitted i.transmitOk) :=
        F.same F.self rfl
      by_cases hsent : i.transmitOk = true
      · by_cases hwait : loc.doWaitForAck = true
        · have hyield : ∀ l, txSlotTransmit cfg loc (i.withLoop l) s =
              some ((s.noteTransmitted i.transmitOk).setPc (.txBeforeAck loc)) :=
            fun _ => (if_pos hsent).trans (if_pos hwait)
          exact path_yield hyield SlotPc.noConfusion
            (F.same hnote rfl)
        · exact (path_txSlotEnd F .ok hnote).congr fun _ => (if_pos hsent).trans (if_neg hwait)
      · exact (path_txSlotEnd F .err hnote).congr fun _ => if_neg hsent
  | txBeforeAck loc =>
      have hnote : ∀ b, K none (s.noteAcknowledged b) := fun b =>
        F.same F.self rfl
      cases hn : s.slot.currentNeighbor with
      | none =>
          apply SlotPath.fails
          intro l
          simp only [txSlotAck, TschState.noteAcknowledged, hn]
      | some n =>
          have hack : ∀ l, txSlotAck cfg loc (i.withLoop l) s =
              if ackAccepted cfg i then
                txSlotEnd cfg .ok (i.withLoop l)
                  (acceptAck cfg n loc i (s.noteAcknowledged (ackReceived cfg i)))
              else txSlotEnd cfg .noack (i.withLoop l) (s.noteAcknowledged (ackReceived cfg i)) := by
            intro l
            simp only [txSlotAck, TschState.noteAcknowledged, hn]
            rfl
          -- a negative `ack_len` is accepted without a correction
          simp only [ackCorrection, hn, hack, ackReceived_eq cfg i]
          cases ackAccepted cfg i with
          | false => exact path_txSlotEnd F .noack (hnote _)
          | true =>
              simp only [Bool.true_and, if_true]
              refine path_txSlotEnd F .ok ?_
              exact follows_acceptAck F n loc (hnote (decide (i.ackLen > 0)))
  | rxBeforeListen =>
      have hlisten : ∀ l, rxSlotListen cfg (i.withLoop l) s =
          match i.received with
          | none => endOfSlot cfg (i.withLoop l) s
          | some f =>
              if frameIsForUs cfg f then
                if f.ackRequired && f.eackBuilt then some (s.setPc (.rxBeforeAck f))
                else rxSlotDeliver cfg f (i.withLoop l) s
              else endOfSlot cfg (i.withLoop l) s := fun _ => rfl
      simp only [hlisten]
      cases i.received with
      | none => exact path_endOfSlot F.self
      | some f =>
          simp only
          cases frameIsForUs cfg f with
          | false => exact path_endOfSlot F.self
          | true =>
              cases f.ackRequired && f.eackBuilt with
              | true =>
                  exact path_yield (fun _ => rfl) SlotPc.noConfusion
                    (F.same F.self rfl)
              | false => exact path_rxSlotDeliver F f F.self
  | rxBeforeAck f =>
      simp only [rxSlotAck]
      exact path_rxSlotDeliver F (u := s.setBurstLinkScheduled f.framePending) f
        (F.same F.self rfl)

end

/-- The clock of `w` is that of `s`, with the correction `corr` pending. -/
structure OnClock (s : TschState) (corr : Option Int) (w : TschState) : Prop where
  asn : w.slot.tschCurrentAsn = s.slot.tschCurrentAsn
  slotStart : w.slot.currentSlotStart = s.slot.currentSlotStart
  drift : w.slot.driftCorrection = corr.getD 0
  synced : corr.isSome = true → w.slot.lastSyncAsn = w.slot.tschCurrentAsn
  timer : w.slot.timer = none ∨ w.slot.timer = s.slot.timer

theorem followsClock_onClock (i : SlotInput) {s : TschState} (hd : s.slot.driftCorrection = 0) :
    FollowsClock i s (OnClock s) where
  self := ⟨rfl, rfl, hd, fun h => (by cases h), .inr rfl⟩
  disarm := ⟨rfl, rfl, hd, fun h => (by cases h), .inl rfl⟩
  enter := ⟨rfl, rfl, rfl, fun h => (by cases h), .inl rfl⟩
  sync d h := ⟨h.asn, h.slotStart, rfl, fun _ => rfl, h.timer⟩
  same h hsame := by
    have hasn := congrArg ClockVars.asn hsame
    have hsync := congrArg ClockVars.lastSyncAsn hsame
    have htimer := congrArg ClockVars.timer hsame
    refine ⟨hasn.trans h.asn, (congrArg ClockVars.slotStart hsame).trans h.slotStart,
      (congrArg ClockVars.drift hsame).trans h.drift, ?_, h.timer.imp htimer.trans htimer.trans⟩
    intro hc
    exact (hsync.trans (h.synced hc)).trans hasn.symm

/-- As `Advanced`, for a timer that may not be armed. -/
structure Moved (cfg : Config) (d : Int) (s t : TschState) : Prop where
  slotStart : t.slot.currentSlotStart ≡ s.slot.currentSlotStart +
    ((t.slot.tschCurrentAsn : Int) - s.slot.tschCurrentAsn) * cfg.tsTimeslotLength + d
      [ZMOD 2 ^ cfg.rtimerBits]
  drift : t.slot.driftCorrection = 0
  timer : ∀ x, t.slot.timer = some x → x = t.slot.currentSlotStart

theorem Advanced.moved {d : Int} {s t : TschState} (h : Advanced cfg d s t) : Moved cfg d s t :=
  ⟨h.slotStart, h.drift, fun _ hx => Option.some.inj (hx.symm.trans h.timer)⟩

theorem Moved.of_same {s t : TschState} (htimer : ∀ x, s.slot.timer = some x →
    x = s.slot.currentSlotStart) (h : OnClock s none t) : Moved cfg 0 s t := by
  refine ⟨modEq_of_eq ?_, h.drift, fun x hx => ?_⟩
  · rw [h.slotStart, h.asn, sub_self, zero_mul, add_zero, add_zero]
  · rw [h.slotStart]
    rcases h.timer with hnone | hsame
    · rw [hnone] at hx
      cases hx
    · exact htimer x (hsame ▸ hx)

theorem slotStep_clock {i : SlotInput} {s s' : TschState} (h : slotStep cfg i s = some s')
    (hd : s.slot.driftCorrection = 0)
    (htimer : ∀ x, s.slot.timer = some x → x = s.slot.currentSlotStart) :
    Moved cfg ((slotCorrection cfg i s).getD 0 + compensation (roundsRead cfg i s)) s s' := by
  have hpath : SlotPath cfg (OnClock s) i s (slotCorrection cfg i s)
      fun l => slotStep cfg (i.withLoop l) s := slotStep_path (followsClock_onClock i hd)
  cases hpath with
  | fails hf => cases (hf i.loop).symm.trans h
  | yields hcorr hf hclock _ =>
      have hsame : s' = _ := Option.some.inj (h.symm.trans (hf i.loop))
      have hread : roundsRead cfg i s = [] := roundsOf_of_nil (by rw [hf]; rfl) _
      rw [hcorr, hread, hsame]
      exact .of_same htimer hclock
  | @ends w hf hclock =>
      have hread : roundsRead cfg i s =
          roundsOf (fun l => endOfSlot cfg (i.withLoop l) w) i.loop :=
        roundsOf_congr (fun l => by rw [hf]) _
      have hsync : w.slot.driftCorrection ≠ 0 → w.slot.lastSyncAsn = w.slot.tschCurrentAsn := by
        intro hne
        refine hclock.synced ?_
        cases hcorr : slotCorrection cfg i s with
        | none => exact absurd (by rw [hclock.drift, hcorr]; rfl) hne
        | some d => rfl
      have hend : endOfSlot cfg i w = some s' := (hf i.loop).symm.trans h
      rw [hread, ← hclock.drift]
      rcases endOfSlot_clock hend hsync with hadv | ⟨hzero, rfl, hnil⟩
      · refine ⟨?_, hadv.drift, hadv.moved.timer⟩
        rw [← hclock.asn, ← hclock.slotStart]
        exact hadv.slotStart
      · -- the node has left the network
        rw [hnil, hzero]
        exact .of_same htimer ⟨hclock.asn, hclock.slotStart, hzero, fun hc => (by cases hc), hclock.timer⟩

/-! ## The record -/

theorem note_compensations (is : List LoopInput) (r : Option SyncRecord) :
    (compensations is).foldl SyncRecord.note r =
      r.map fun r => { r with compensations := r.compensations + compensation is } := by
  induction is generalizing r with
  | nil => cases r <;> simp [compensations, compensation]
  | cons i is ih =>
      simp only [compensations, List.map_cons, List.foldl_cons] at ih ⊢
      rw [ih]
      cases r <;> simp [SyncRecord.note, compensation, add_assoc]

theorem note_clockEvents (c : Option Int) (is : List LoopInput) (r : Option SyncRecord) :
    ((c.map ClockEvent.corrected).toList ++ compensations is).foldl SyncRecord.note r =
      r.map fun r => { r with
        corrections := r.corrections + c.getD 0
        compensations := r.compensations + compensation is } := by
  rw [List.foldl_append, note_compensations]
  cases c <;> cases r <;> simp [SyncRecord.note]

/-- What the slot clock should be. -/
def SyncRecord.expected (cfg : Config) (r : SyncRecord) (asn : Nat) : Int :=
  r.start + ((asn : Int) - r.asn) * cfg.tsTimeslotLength + r.corrections + r.compensations

/-- The clock is what the record says. -/
structure InStep (cfg : Config) (h : List ClockEvent) (s : TschState) : Prop where
  drift : s.slot.driftCorrection = 0
  timer : ∀ x, s.slot.timer = some x → x = s.slot.currentSlotStart
  clock : ∀ r, sinceSync h = some r →
    s.slot.currentSlotStart ≡ r.expected cfg s.slot.tschCurrentAsn [ZMOD 2 ^ cfg.rtimerBits]

namespace InStep

variable {h : List ClockEvent} {s s' : TschState}

theorem moved (hin : InStep cfg h s) (c : Option Int) (is : List LoopInput)
    (hm : Moved cfg (c.getD 0 + compensation is) s s') :
    InStep cfg (h ++ ((c.map ClockEvent.corrected).toList ++ compensations is)) s' := by
  refine ⟨hm.drift, hm.timer, ?_⟩
  intro r hr
  rw [sinceSync, List.foldl_append, note_clockEvents] at hr
  obtain ⟨r₀, hr₀, rfl⟩ := Option.map_eq_some_iff.mp hr
  refine hm.slotStart.trans ?_
  refine (((hin.clock r₀ hr₀).add_right _).add_right _).trans (modEq_of_eq ?_)
  simp only [SyncRecord.expected]
  ring

theorem of_same (hin : InStep cfg h s) (hasn : s'.slot.tschCurrentAsn = s.slot.tschCurrentAsn)
    (hstart : s'.slot.currentSlotStart = s.slot.currentSlotStart)
    (hdrift : s'.slot.driftCorrection = s.slot.driftCorrection)
    (htimer : s'.slot.timer = s.slot.timer) : InStep cfg h s' := by
  refine ⟨hdrift.trans hin.drift, ?_, ?_⟩
  · rw [hstart, htimer]
    exact hin.timer
  · rw [hstart, hasn]
    exact hin.clock

theorem step (hin : InStep cfg h s) {es : List ClockEvent} (hs : ClockStep cfg es s s') :
    InStep cfg (h ++ es) s' := by
  cases hs with
  | slot hs => exact hin.moved _ _ (slotStep_clock hs hin.drift hin.timer)
  | associate associated coordinator =>
      rw [List.append_nil]
      exact hin.of_same rfl rfl rfl rfl
  | sync start asn t hpc htimer =>
      refine ⟨hin.drift, fun x hx => ?_, fun r hr => ?_⟩
      · rw [tschSlotOperationSync, htimer] at hx
        cases hx
      · rw [sinceSync, List.foldl_append] at hr
        cases hr
        simp [tschSlotOperationSync, SyncRecord.expected]
  | start hpc htimer hs =>
      have hm := (start_clock hin.drift hs).moved
      rw [← zero_add (compensation _)] at hm
      exact hin.moved none _ hm

end InStep

/-- **The ASN and the slot clock advance in lockstep.**  In every run from the start of the
node, whatever its processes do: a timer that is armed is armed for `current_slot_start`, and
since the last sync `current_slot_start` has advanced by one timeslot length a slot, by the
drift corrections of the slots, each counted once, and by the compensations. -/
theorem clock_in_lockstep (fuel : Nat) (calls : List NodeCall) {es : List ClockEvent}
    {c : Prog TschState Unit × TschState}
    (hr : History (ClockStep cfg) (fun _ _ => [])
      (Prog.forEach calls (NodeCall.perform cfg fuel), TschState.boot cfg) es c) :
    (∀ x, c.2.slot.timer = some x → x = c.2.slot.currentSlotStart) ∧
      ∀ r, sinceSync es = some r →
        c.2.slot.currentSlotStart ≡ r.start +
          ((c.2.slot.tschCurrentAsn : Int) - r.asn) * cfg.tsTimeslotLength +
          r.corrections + r.compensations [ZMOD 2 ^ cfg.rtimerBits] := by
  have hin : InStep cfg es c.2 := by
    refine hr.invariant (I := fun _ => True) (R := InStep cfg) (fun _ => trivial)
      (guar_leavesSlot fuel calls) ⟨rfl, fun x hx => (by cases hx), fun r hr => (by cases hr)⟩ ?_ ?_
    · intro h s s' _ hin hact
      rw [List.append_nil]
      refine hin.of_same ?_ ?_ ?_ ?_ <;> rw [hact.slot]
    · intro h es s s' _ hin hs
      exact hin.step hs
  exact ⟨hin.timer, hin.clock⟩

/-! ## A missed deadline -/

/-- A step of `ClockStep`, by what it needs to be computed. -/
inductive ClockMove where
  | slot (i : SlotInput)
  | associate (associated coordinator : Bool)
  | sync (nextSlotStart : Int) (nextSlotAsn : Nat) (clockTime : Int)
  | start (is : List LoopInput)

def clockMove (cfg : Config) (m : ClockMove) (s : TschState) :
    Option (List ClockEvent × TschState) :=
  match m with
  | .slot i => (slotStep cfg i s).map fun s' => (clockEvents cfg i s, s')
  | .associate associated coordinator => some ([], { s with slot := { s.slot with
      tschIsAssociated := associated, tschIsCoordinator := coordinator } })
  | .sync start asn t =>
      if s.slot.pc = .asleep ∧ s.slot.timer = none then
        some ([.synced start asn], tschSlotOperationSync start asn t s)
      else none
  | .start is =>
      if s.slot.pc = .asleep ∧ s.slot.timer = none then
        (tschSlotOperationStart cfg is s).map fun s' =>
          (compensations (roundsOf (fun l => tschSlotOperationStart cfg l s) is), s')
      else none

theorem clockMove_step (m : ClockMove) (s : TschState) (es : List ClockEvent) (s' : TschState)
    (h : clockMove cfg m s = some (es, s')) : ClockStep cfg es s s' := by
  cases m with
  | slot i =>
      obtain ⟨hs, rfl⟩ := eq_of_map_events h
      exact .slot hs
  | associate associated coordinator =>
      cases h
      exact .associate _ _ s
  | sync start asn t =>
      obtain ⟨hidle, h⟩ := Option.ite_none_right_eq_some.mp h
      cases h
      exact .sync start asn t hidle.1 hidle.2
  | start is =>
      obtain ⟨hidle, h⟩ := Option.ite_none_right_eq_some.mp h
      obtain ⟨hs, rfl⟩ := eq_of_map_events h
      exact .start hidle.1 hidle.2 hs

/-- An Rx link, and node 2 as the time source. -/
def followSource : List NodeCall :=
  [.call (.addSlotframe 1 15), .call (.addLink (some 0) rxShared .normal none 9 0 true),
    .call (.updateTimeSource (some 2))]

/-- The node syncs at slot 5 and starts; in slot 9 it hears a frame of its time source that
is 3 ticks late, and at the end of the slot it misses a deadline. -/
def followMoves : List (Option ClockMove) :=
  let heard : RxFrame := ⟨true, true, true, 1, 2, false, false, false, 3⟩
  List.replicate 38 none ++ [some (.associate true false), some (.sync 1000 5 0),
    some (.start [⟨2, 1000, true⟩]), some (.slot { SlotInput.quiet 0 with loop := [] }),
    some (.slot { SlotInput.quiet 0 with
      loop := [⟨1, 10000, true⟩, ⟨4, 10000, true⟩], received := some heard })]

/-- The correction is counted once, the compensations of both rounds. -/
theorem clock_in_lockstep_missed :
    ∃ es c, History (ClockStep (smallBuild 8)) (fun _ _ => [])
        (Prog.forEach followSource (NodeCall.perform (smallBuild 8) 3),
          TschState.boot (smallBuild 8)) es c ∧
      c.2.slot.tschCurrentAsn = 39 ∧ sinceSync es = some ⟨1000, 5, -3, 7⟩ ∧
      c.2.slot.currentSlotStart ≡ 1000 + (39 - 5) * 328 + -3 + 7 [ZMOD 2 ^ 32] := by
  obtain ⟨es, c, hr, hP⟩ := History.exists_historyOf (clockMove (smallBuild 8)) (fun _ _ => [])
    (Prog.forEach followSource (NodeCall.perform (smallBuild 8) 3), TschState.boot (smallBuild 8))
    clockMove_step followMoves
    (fun r => decide (r.2.2.slot.tschCurrentAsn = 39 ∧ sinceSync r.1 = some ⟨1000, 5, -3, 7⟩))
    (by decide +kernel)
  obtain ⟨hasn, hsince⟩ := of_decide_eq_true hP
  refine ⟨es, c, hr, hasn, hsince, ?_⟩
  have hclock := (clock_in_lockstep 3 followSource hr).2 _ hsince
  rw [hasn] at hclock
  exact hclock

end QlTsch
