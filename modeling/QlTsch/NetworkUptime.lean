/-
# `QlTsch.NetworkUptime` — the network uptime between two synchronisations

`tsch_get_network_uptime_ticks` reckons on from the last synchronisation: it takes the ASN
and the clock of that moment, and adds what the clock has advanced since to the uptime at
that ASN.  But the uptime at an ASN is the one at the beginning of the timeslot, while the
clock is read somewhere inside of it.  How far inside is the `lateness` of the
synchronisation.

* `network_uptime_forward`: in every run in which no synchronisation is later in its
  timeslot than the one before, the uptime never goes back.
* `sync_forward_iff`: over one that is later, it does.
* `network_uptime_setback`: if every synchronisation is inside its timeslot, the uptime goes
  back by `(L - 1) / R + 2` at most, for `L` the length of a timeslot and `R` that of a clock
  tick, both in rtimer ticks.
* `network_uptime_goes_back`: a run in which it does go back.
-/
import QlTsch.Lib.DeadReckoning
import QlTsch.SlotClock

namespace QlTsch

open Interleave Interleave.Prog DeadReckoning

/-- A build with its clocks; a clock tick is a number of rtimer ticks. -/
structure ClockConfig extends Config where
  rtimerArchSecond : Nat
  clockSecond : Nat
  clockBits : Nat
  clockSecond_pos : 0 < clockSecond
  clockSecond_le : clockSecond ≤ rtimerArchSecond
  tsTimeslotLength_pos : 0 < tsTimeslotLength

namespace ClockConfig

variable (cc : ClockConfig)

/-- `RTIMER_ARCH_SECOND / CLOCK_SECOND` -/
def ticksPerClockTick : Int := (cc.rtimerArchSecond / cc.clockSecond : Nat)

/-- A value of `clock_time_t`. -/
def IsClockTime (t : Int) : Prop := 0 ≤ t ∧ t < 2 ^ cc.clockBits

instance (t : Int) : Decidable (cc.IsClockTime t) := inferInstanceAs (Decidable (_ ∧ _))

/-- The uptime at an ASN, in clock ticks. -/
def uptimeAtAsn (asn : Nat) : Int := asn * cc.tsTimeslotLength / cc.ticksPerClockTick

end ClockConfig

variable (cc : ClockConfig)

/-- `tsch_get_network_uptime_ticks`.  With an ASN of 40 bits nothing overflows in its 64. -/
def tschGetNetworkUptimeTicks (clockTime : Int) (s : TschState) : Int :=
  if s.slot.tschIsAssociated then
    cc.uptimeAtAsn s.slot.lastSyncAsn + (clockTime - s.slot.tschLastSyncTime) % 2 ^ cc.clockBits
  else 2 ^ 64 - 1

/-! ## Runs of an associated node -/

/-- The ASN and the clock of a synchronisation. -/
structure SyncPoint where
  asn : Nat
  clockTime : Int
deriving DecidableEq, Repr

def lastSync (s : TschState) : SyncPoint := ⟨s.slot.lastSyncAsn, s.slot.tschLastSyncTime⟩

/-- The interrupt from `s` to `s'` synchronises: the time source has acknowledged or sent a
frame, or the slot of a coordinator is over. -/
def synchronizes (cfg : Config) (i : SlotInput) (s s' : TschState) : Bool :=
  (slotCorrection cfg i s).isSome || s.slot.tschIsCoordinator && decide (s'.slot.pc = .asleep)

inductive UptimeEvent where
  | synced (p : SyncPoint)
  /-- a call of `tsch_get_network_uptime_ticks`, and what it returns -/
  | called (clockTime value : Int)
deriving DecidableEq, Repr

def UptimeEvent.clockTime : UptimeEvent → Int
  | .synced p => p.clockTime
  | .called t _ => t

/-- The synchronisations of a record. -/
def syncs : List UptimeEvent → List SyncPoint
  | [] => []
  | .synced p :: es => p :: syncs es
  | .called _ _ :: es => syncs es

/-- What the calls of a record return. -/
def uptimes : List UptimeEvent → List Int
  | [] => []
  | .synced _ :: es => uptimes es
  | .called _ v :: es => v :: uptimes es

/-- A synchronisation in an interrupt is one at the ASN of the slot. -/
def syncEvents (cfg : Config) (i : SlotInput) (s s' : TschState) : List UptimeEvent :=
  if synchronizes cfg i s s' then [.synced ⟨s.slot.tschCurrentAsn, i.clockTime⟩] else []

/-- Steps of an associated node; its calls come at any time outside of interrupts. -/
inductive UptimeStep : List UptimeEvent → TschState → TschState → Prop
  | slot {i : SlotInput} {s s' : TschState} : s.slot.tschIsAssociated = true →
      cc.IsClockTime i.clockTime → slotStep cc.toConfig i s = some s' →
      UptimeStep (syncEvents cc.toConfig i s s') s s'
  | start {is : List LoopInput} {s s' : TschState} : s.slot.pc = .asleep → s.slot.timer = none →
      tschSlotOperationStart cc.toConfig is s = some s' → UptimeStep [] s s'
  | setCoordinator (coordinator : Bool) (s : TschState) :
      UptimeStep [] s { s with slot := { s.slot with tschIsCoordinator := coordinator } }
  | call {clockTime : Int} {s : TschState} : s.slot.tschIsAssociated = true →
      cc.IsClockTime clockTime →
      UptimeStep [.called clockTime (tschGetNetworkUptimeTicks cc clockTime s)] s s

/-! ## What an interrupt notes of a synchronisation -/

section
variable {cfg : Config} {i : SlotInput} {s s' : TschState}

/-- The slot that began in `s` has come to `w`, with the correction `corr`. -/
structure SyncNoted (i : SlotInput) (s : TschState) (corr : Option Int) (w : TschState) :
    Prop where
  asn : w.slot.tschCurrentAsn = s.slot.tschCurrentAsn
  coordinator : w.slot.tschIsCoordinator = s.slot.tschIsCoordinator
  lastSync : lastSync w =
    if corr.isSome then ⟨s.slot.tschCurrentAsn, i.clockTime⟩ else lastSync s

theorem followsClock_syncNoted (i : SlotInput) (s : TschState) :
    FollowsClock i s (SyncNoted i s) where
  self := ⟨rfl, rfl, rfl⟩
  disarm := ⟨rfl, rfl, rfl⟩
  enter := ⟨rfl, rfl, rfl⟩
  sync _ h := ⟨h.asn, h.coordinator, congrArg (SyncPoint.mk · i.clockTime) h.asn⟩
  same h hsame := by
    have hlast := congrArg (fun v => SyncPoint.mk v.lastSyncAsn v.lastSyncTime) hsame
    exact ⟨(congrArg ClockVars.asn hsame).trans h.asn,
      (congrArg ClockVars.coordinator hsame).trans h.coordinator, hlast.trans h.lastSync⟩

theorem catchUp_lastSync {round : LoopInput → TschState → TschState × Int}
    (hround : ∀ i s, lastSync (round i s).1 = lastSync s) {is : List LoopInput}
    (h : catchUp cfg round is s = some s') : lastSync s' = lastSync s := by
  induction is generalizing s with
  | nil => cases h
  | cons i is ih =>
      simp only [catchUp] at h
      split at h
      · cases h
        exact hround i s
      · exact (ih h).trans (hround i s)

theorem scheduleNextSlot_lastSync {is : List LoopInput}
    (h : scheduleNextSlot cfg is s = some s') : lastSync s' = lastSync s := by
  rw [scheduleNextSlot_eq] at h
  refine catchUp_lastSync (fun i s => ?_) h
  simp only [slotEndRound, nextLink, lastSync]
  split <;> simp [advanceClock, replayBurst, selectLink]

/-- The coordinator synchronises at the end of each of its slots. -/
theorem endOfSlot_lastSync (h : endOfSlot cfg i s = some s') :
    s'.slot.pc = .asleep ∧ lastSync s' =
      if s.slot.tschIsCoordinator then ⟨s.slot.tschCurrentAsn, i.clockTime⟩ else lastSync s := by
  simp only [endOfSlot] at h
  split at h
  · rename_i hc
    obtain ⟨t, ht, rfl⟩ := Option.map_eq_some_iff.mp h
    have hkept : lastSync t = lastSync (s.keepTime i.clockTime) := scheduleNextSlot_lastSync ht
    rw [if_pos hc]
    exact ⟨rfl, hkept⟩
  · rename_i hc
    rw [if_neg hc]
    split at h
    · cases h
      exact ⟨rfl, rfl⟩
    · obtain ⟨t, ht, rfl⟩ := Option.map_eq_some_iff.mp h
      have hkept : lastSync t = lastSync s := scheduleNextSlot_lastSync ht
      exact ⟨rfl, hkept⟩

/-- **An interrupt** that synchronises notes the ASN of its slot and the clock; no other
changes what is noted. -/
theorem slotStep_lastSync (ha : s.slot.tschIsAssociated = true)
    (h : slotStep cfg i s = some s') :
    lastSync s' =
      if synchronizes cfg i s s' then ⟨s.slot.tschCurrentAsn, i.clockTime⟩ else lastSync s := by
  have hpath : SlotPath cfg (SyncNoted i s) i s (slotCorrection cfg i s)
      fun l => slotStep cfg (i.withLoop l) s := slotStep_path (followsClock_syncNoted i s)
  cases hpath with
  | fails hf => cases (hf i.loop).symm.trans h
  | yields hcorr hf hnoted hpc =>
      have hsame : s' = _ := Option.some.inj (h.symm.trans (hf i.loop))
      have hawake : decide (s'.slot.pc = .asleep) = false :=
        decide_eq_false (by rw [hsame]; exact hpc ha)
      have hnone : synchronizes cfg i s s' = false := by
        rw [synchronizes, hcorr, hawake, Bool.and_false]
        rfl
      rw [hnone, hsame, hnoted.lastSync]
      rfl
  | @ends w hf hnoted =>
      obtain ⟨hpc, hlast⟩ := endOfSlot_lastSync ((hf i.loop).symm.trans h)
      have hsync : synchronizes cfg i s s' =
          ((slotCorrection cfg i s).isSome || s.slot.tschIsCoordinator) := by
        rw [synchronizes, decide_eq_true hpc, Bool.and_true]
      rw [hsync, hlast, hnoted.lastSync, hnoted.asn, hnoted.coordinator]
      -- the coordinator's clock is the later one
      cases s.slot.tschIsCoordinator <;> simp [SlotInput.withLoop]

end

/-! ## The record of a run -/

namespace SyncPoint

/-- The anchor the uptime is reckoned from. -/
def anchor (p : SyncPoint) : Anchor Int := ⟨cc.uptimeAtAsn p.asn, p.clockTime⟩

/-- How many clock ticks after the beginning of its timeslot a synchronisation is. -/
def lateness (p : SyncPoint) : Int := p.clockTime - cc.uptimeAtAsn p.asn

end SyncPoint

/-- Up to the next synchronisation the uptime is reckoned from the last one. -/
theorem uptime_eq {s : TschState} {t : Int} (ha : s.slot.tschIsAssociated = true)
    (hlast : cc.IsClockTime s.slot.tschLastSyncTime) (ht : cc.IsClockTime t)
    (hle : s.slot.tschLastSyncTime ≤ t) :
    tschGetNetworkUptimeTicks cc t s = ((lastSync s).anchor cc).read t := by
  have hsince : (t - s.slot.tschLastSyncTime) % 2 ^ cc.clockBits = t - s.slot.tschLastSyncTime :=
    Int.emod_eq_of_lt (Int.sub_nonneg_of_le hle) (lt_of_le_of_lt (Int.sub_le_self t hlast.1) ht.2)
  rw [tschGetNetworkUptimeTicks, if_pos ha, hsince]
  rfl

/-- Over a synchronisation, from `s` to `s'`, the uptime goes on exactly if it is not later
in its timeslot than the one before. -/
theorem sync_forward_iff {s s' : TschState} {t : Int} (ha : s.slot.tschIsAssociated = true)
    (ha' : s'.slot.tschIsAssociated = true) (ht : cc.IsClockTime t)
    (hlast : cc.IsClockTime s.slot.tschLastSyncTime)
    (hlast' : cc.IsClockTime s'.slot.tschLastSyncTime) (hle : s.slot.tschLastSyncTime ≤ t)
    (hle' : s'.slot.tschLastSyncTime ≤ t) :
    tschGetNetworkUptimeTicks cc t s ≤ tschGetNetworkUptimeTicks cc t s' ↔
      (lastSync s').lateness cc ≤ (lastSync s).lateness cc := by
  rw [uptime_eq cc ha hlast ht hle, uptime_eq cc ha' hlast' ht hle']
  exact Anchor.read_le_read_iff

def UptimeEvent.reckon : UptimeEvent → Event Int
  | .synced p => .anchor (p.anchor cc)
  | .called t v => .read t v

theorem clock_reckon (es : List UptimeEvent) :
    (es.map (UptimeEvent.reckon cc)).map Event.clock = es.map UptimeEvent.clockTime := by
  rw [List.map_map]
  apply List.map_congr_left
  intro e _
  cases e with
  | synced p => rfl
  | called t v => rfl

theorem anchors_reckon (es : List UptimeEvent) :
    anchors (es.map (UptimeEvent.reckon cc)) = (syncs es).map (SyncPoint.anchor cc) := by
  induction es with
  | nil => rfl
  | cons e es ih =>
      cases e with
      | synced p => exact congrArg _ ih
      | called t v => exact ih

theorem reads_reckon (es : List UptimeEvent) :
    reads (es.map (UptimeEvent.reckon cc)) = uptimes es := by
  induction es with
  | nil => rfl
  | cons e es ih =>
      cases e with
      | synced p => exact ih
      | called t v => exact congrArg _ ih

/-- The readings of the clock in a record, that of the synchronisation before first. -/
def clockTimes (s₀ : TschState) (es : List UptimeEvent) : List Int :=
  s₀.slot.tschLastSyncTime :: es.map UptimeEvent.clockTime

theorem clockTimes_append (s₀ : TschState) (h es : List UptimeEvent) :
    clockTimes s₀ (h ++ es) = clockTimes s₀ h ++ es.map UptimeEvent.clockTime := by
  rw [clockTimes, List.map_append]
  rfl

/-- What holds of the record `h` of a run from `s₀` to `s`. -/
structure UptimeRecord (s₀ : TschState) (h : List UptimeEvent) (s : TschState) : Prop where
  clockTime : cc.IsClockTime s.slot.tschLastSyncTime
  lastAnchor : lastAnchor ((lastSync s₀).anchor cc) (h.map (UptimeEvent.reckon cc)) =
    (lastSync s).anchor cc
  reckoned : (clockTimes s₀ h).Pairwise (· ≤ ·) →
    Reckoned ((lastSync s₀).anchor cc) (h.map (UptimeEvent.reckon cc))

namespace UptimeRecord

variable {cc} {s₀ s s' : TschState} {h : List UptimeEvent}

theorem of_same (hr : UptimeRecord cc s₀ h s) (hsame : lastSync s' = lastSync s) :
    UptimeRecord cc s₀ h s' := by
  refine ⟨?_, hr.lastAnchor.trans (by rw [hsame]), hr.reckoned⟩
  have htime : s'.slot.tschLastSyncTime = s.slot.tschLastSyncTime :=
    congrArg SyncPoint.clockTime hsame
  rw [htime]
  exact hr.clockTime

theorem synced (hr : UptimeRecord cc s₀ h s) {p : SyncPoint} (hp : cc.IsClockTime p.clockTime)
    (hlast : lastSync s' = p) : UptimeRecord cc s₀ (h ++ [.synced p]) s' := by
  subst hlast
  refine ⟨hp, ?_, ?_⟩
  · rw [List.map_append, lastAnchor_append]
    rfl
  · intro hclock
    rw [clockTimes_append, List.pairwise_append] at hclock
    rw [List.map_append]
    exact (hr.reckoned hclock.1).append trivial

theorem called (hr : UptimeRecord cc s₀ h s) {t : Int} (ha : s.slot.tschIsAssociated = true)
    (ht : cc.IsClockTime t) :
    UptimeRecord cc s₀ (h ++ [.called t (tschGetNetworkUptimeTicks cc t s)]) s := by
  refine ⟨hr.clockTime, ?_, ?_⟩
  · rw [List.map_append, lastAnchor_append]
    exact hr.lastAnchor
  · intro hclock
    rw [clockTimes_append, List.pairwise_append] at hclock
    obtain ⟨hbefore, -, hnow⟩ := hclock
    have hmem : (DeadReckoning.lastAnchor ((lastSync s₀).anchor cc)
        (h.map (UptimeEvent.reckon cc))).clock ∈ clockTimes s₀ h := by
      rw [clockTimes, ← clock_reckon cc h]
      exact lastAnchor_clock_mem
    rw [hr.lastAnchor] at hmem
    have hle : s.slot.tschLastSyncTime ≤ t := hnow _ hmem t List.mem_cons_self
    rw [List.map_append]
    refine (hr.reckoned hbefore).append ⟨?_, trivial⟩
    rw [hr.lastAnchor]
    exact uptime_eq cc ha hr.clockTime ht hle

theorem step (hr : UptimeRecord cc s₀ h s) {es : List UptimeEvent} (hs : UptimeStep cc es s s') :
    UptimeRecord cc s₀ (h ++ es) s' := by
  cases hs with
  | @slot i _ _ ha ht hs =>
      have hlast := slotStep_lastSync ha hs
      simp only [syncEvents]
      split at hlast
      · rename_i hsync
        rw [if_pos hsync]
        exact hr.synced ht hlast
      · rename_i hnone
        rw [if_neg hnone, List.append_nil]
        exact hr.of_same hlast
  | start _ _ hs =>
      rw [List.append_nil]
      exact hr.of_same (catchUp_lastSync (fun _ _ => rfl) hs)
  | setCoordinator coordinator =>
      rw [List.append_nil]
      exact hr.of_same rfl
  | call ha ht => exact hr.called ha ht

end UptimeRecord

/-! ## Results -/

section
variable {cc} (fuel : Nat) (calls : List NodeCall) {s₀ : TschState} {es : List UptimeEvent}
  {c : Prog TschState Unit × TschState}

theorem uptimeRecord_of_history (h₀ : cc.IsClockTime s₀.slot.tschLastSyncTime)
    (hr : History (UptimeStep cc) (fun _ _ => [])
      (Prog.forEach calls (NodeCall.perform cc.toConfig fuel), s₀) es c) :
    UptimeRecord cc s₀ es c.2 := by
  refine hr.invariant (I := fun _ => True) (R := UptimeRecord cc s₀) (fun _ => trivial)
    (guar_leavesSlot fuel calls) ⟨h₀, rfl, fun _ => trivial⟩ ?_ ?_
  · intro h s s' _ hrec hact
    have hsame : lastSync s' = lastSync s := by
      simp only [lastSync]
      rw [hact.slot]
    rw [List.append_nil]
    exact hrec.of_same hsame
  · intro h es s s' _ hrec hs
    exact hrec.step hs

/-- **The uptime never goes back** in a run in which the clock does not and no
synchronisation is later in its timeslot than the one before. -/
theorem network_uptime_forward (h₀ : cc.IsClockTime s₀.slot.tschLastSyncTime)
    (hr : History (UptimeStep cc) (fun _ _ => [])
      (Prog.forEach calls (NodeCall.perform cc.toConfig fuel), s₀) es c)
    (hclock : (clockTimes s₀ es).Pairwise (· ≤ ·))
    (hlater : (lastSync s₀ :: syncs es).IsChain fun p q => q.lateness cc ≤ p.lateness cc) :
    (uptimes es).Pairwise (· ≤ ·) := by
  have hrec : UptimeRecord cc s₀ es c.2 := uptimeRecord_of_history fuel calls h₀ hr
  have hpace : KeepsPace ((lastSync s₀).anchor cc) (es.map (UptimeEvent.reckon cc)) := by
    rw [KeepsPace, anchors_reckon, ← List.map_cons, List.isChain_map]
    exact hlater
  have htimes : ((es.map (UptimeEvent.reckon cc)).map Event.clock).Pairwise (· ≤ ·) := by
    rw [clock_reckon]
    exact (List.pairwise_cons.mp hclock).2
  rw [← reads_reckon cc]
  exact reads_pairwise (hrec.reckoned hclock) htimes hpace

/-! ### Inside the timeslots -/

/-- The clock time is one inside the timeslot, in a network that started `phase` rtimer ticks
after the clock. -/
def SyncPoint.InTimeslot (cc : ClockConfig) (phase : Int) (p : SyncPoint) : Prop :=
  ∃ x : Int, p.asn * cc.tsTimeslotLength ≤ x ∧ x < (p.asn + 1) * cc.tsTimeslotLength ∧
    p.clockTime = (x + phase) / cc.ticksPerClockTick

theorem ClockConfig.ticksPerClockTick_pos (cc : ClockConfig) : 0 < cc.ticksPerClockTick :=
  Int.natCast_pos.mpr (Nat.div_pos cc.clockSecond_le cc.clockSecond_pos)

theorem ediv_add_le {x y z : Int} (hz : 0 < z) : (x + y) / z ≤ x / z + y / z + 1 := by
  rw [Int.add_ediv_of_pos hz]
  split <;> omega

theorem SyncPoint.InTimeslot.lateness {phase : Int} {p : SyncPoint} (hp : p.InTimeslot cc phase) :
    phase / cc.ticksPerClockTick ≤ p.lateness cc ∧ p.lateness cc ≤
      phase / cc.ticksPerClockTick + (cc.tsTimeslotLength - 1) / cc.ticksPerClockTick + 2 := by
  have hR : 0 < cc.ticksPerClockTick := cc.ticksPerClockTick_pos
  obtain ⟨x, hx, hx', hp⟩ := hp
  rw [SyncPoint.lateness, hp, ClockConfig.uptimeAtAsn]
  have hlow : (p.asn * cc.tsTimeslotLength + phase) / cc.ticksPerClockTick ≤
      (x + phase) / cc.ticksPerClockTick := Int.ediv_le_ediv hR (by omega)
  have hhigh : (x + phase) / cc.ticksPerClockTick ≤
      (p.asn * cc.tsTimeslotLength + (phase + (cc.tsTimeslotLength - 1))) /
        cc.ticksPerClockTick := by
    rw [add_mul] at hx'
    exact Int.ediv_le_ediv hR (by omega)
  have hsplit := Int.ediv_add_ediv_le_add_ediv (x := p.asn * cc.tsTimeslotLength) (y := phase) hR
  have hsplit' := ediv_add_le (x := p.asn * cc.tsTimeslotLength)
    (y := phase + (cc.tsTimeslotLength - 1)) hR
  have hphase := ediv_add_le (x := phase) (y := cc.tsTimeslotLength - 1) hR
  omega

/-- **How far the uptime goes back** at most, if all synchronisations are inside of their
timeslots. -/
theorem network_uptime_setback (h₀ : cc.IsClockTime s₀.slot.tschLastSyncTime)
    (hr : History (UptimeStep cc) (fun _ _ => [])
      (Prog.forEach calls (NodeCall.perform cc.toConfig fuel), s₀) es c)
    (hclock : (clockTimes s₀ es).Pairwise (· ≤ ·)) {phase : Int}
    (hin : ∀ p ∈ lastSync s₀ :: syncs es, p.InTimeslot cc phase) :
    (uptimes es).Pairwise fun v w =>
      v ≤ w + ((cc.tsTimeslotLength - 1) / cc.ticksPerClockTick + 2) := by
  have hrec : UptimeRecord cc s₀ es c.2 := uptimeRecord_of_history fuel calls h₀ hr
  have hwithin : LeadsWithin ((cc.tsTimeslotLength - 1) / cc.ticksPerClockTick + 2)
      ((lastSync s₀).anchor cc) (es.map (UptimeEvent.reckon cc)) := by
    rw [LeadsWithin, anchors_reckon, ← List.map_cons, List.pairwise_map]
    apply List.pairwise_of_forall_mem_list
    intro p hp q hq
    have hlow := (hin p hp).lateness.1
    have hhigh := (hin q hq).lateness.2
    show q.lateness cc ≤ p.lateness cc + _
    omega
  have htimes : ((es.map (UptimeEvent.reckon cc)).map Event.clock).Pairwise (· ≤ ·) := by
    rw [clock_reckon]
    exact (List.pairwise_cons.mp hclock).2
  have hlength : 0 ≤ (cc.tsTimeslotLength - 1) / cc.ticksPerClockTick :=
    Int.ediv_nonneg (Int.sub_nonneg_of_le cc.tsTimeslotLength_pos) cc.ticksPerClockTick_pos.le
  rw [← reads_reckon cc]
  exact reads_pairwise_add (hrec.reckoned hclock) htimes (by omega) hwithin

end

/-! ### A node and its time source -/

/-- A step of `UptimeStep`, by what it needs to be computed. -/
inductive UptimeMove where
  | slot (i : SlotInput)
  | start (is : List LoopInput)
  | setCoordinator (coordinator : Bool)
  | call (clockTime : Int)

def uptimeMove (cc : ClockConfig) (m : UptimeMove) (s : TschState) :
    Option (List UptimeEvent × TschState) :=
  match m with
  | .slot i =>
      if s.slot.tschIsAssociated ∧ cc.IsClockTime i.clockTime then
        (slotStep cc.toConfig i s).map fun s' => (syncEvents cc.toConfig i s s', s')
      else none
  | .start is =>
      if s.slot.pc = .asleep ∧ s.slot.timer = none then
        (tschSlotOperationStart cc.toConfig is s).map fun s' => ([], s')
      else none
  | .setCoordinator coordinator =>
      some ([], { s with slot := { s.slot with tschIsCoordinator := coordinator } })
  | .call t =>
      if s.slot.tschIsAssociated ∧ cc.IsClockTime t then
        some ([.called t (tschGetNetworkUptimeTicks cc t s)], s)
      else none

theorem uptimeMove_step (cc : ClockConfig) (m : UptimeMove) (s : TschState) (es : List UptimeEvent)
    (s' : TschState) (h : uptimeMove cc m s = some (es, s')) : UptimeStep cc es s s' := by
  cases m with
  | slot i =>
      obtain ⟨hassoc, h⟩ := Option.ite_none_right_eq_some.mp h
      obtain ⟨hs, rfl⟩ := eq_of_map_events h
      exact .slot hassoc.1 hassoc.2 hs
  | start is =>
      obtain ⟨hidle, h⟩ := Option.ite_none_right_eq_some.mp h
      obtain ⟨hs, rfl⟩ := eq_of_map_events h
      exact .start hidle.1 hidle.2 hs
  | setCoordinator coordinator =>
      cases h
      exact .setCoordinator coordinator s
  | call t =>
      obtain ⟨hassoc, h⟩ := Option.ite_none_right_eq_some.mp h
      cases h
      exact .call hassoc.1 hassoc.2

/-- Timeslots of 328 rtimer ticks, 256 of which are a clock tick. -/
def smallClock : ClockConfig where
  toConfig := smallBuild 8
  rtimerArchSecond := 32768
  clockSecond := 128
  clockBits := 32
  clockSecond_pos := by decide
  clockSecond_le := by decide
  tsTimeslotLength_pos := by decide

/-- A node that has joined in timeslot 5, at clock time 7. -/
def joinedNode : TschState :=
  let s := TschState.boot (smallBuild 8)
  tschSlotOperationSync 1000 5 7 { s with slot := { s.slot with tschIsAssociated := true } }

/-- The node hears its time source in the timeslots 9 and 24, at the clock times `t` and `u`,
and its uptime is asked for before and after the second. -/
def uptimeMoves (t u : Int) : List (Option UptimeMove) :=
  let heard : RxFrame := ⟨true, true, true, 1, 2, false, false, false, 0⟩
  List.replicate 38 none ++ [some (.start [⟨0, 1000, true⟩]),
    some (.slot { SlotInput.quiet 0 with loop := [], clockTime := t }),
    some (.slot { SlotInput.quiet 0 with
      loop := [⟨0, 2400, true⟩], received := some heard, clockTime := t }),
    some (.slot { SlotInput.quiet 0 with loop := [], clockTime := u }), some (.call u),
    some (.slot { SlotInput.quiet 0 with
      loop := [⟨0, 7400, true⟩], received := some heard, clockTime := u }), some (.call u)]

theorem exists_uptimeMoves (t u : Int) (es : List UptimeEvent)
    (h : (historyOf (uptimeMove smallClock) (fun _ _ => []) (uptimeMoves t u)
      (Prog.forEach followSource (NodeCall.perform (smallBuild 8) 3), joinedNode)).any
        (fun r => decide (r.1 = es)) = true) :
    ∃ c, History (UptimeStep smallClock) (fun _ _ => [])
      (Prog.forEach followSource (NodeCall.perform (smallBuild 8) 3), joinedNode) es c := by
  obtain ⟨es', c, hr, hes⟩ := History.exists_historyOf (uptimeMove smallClock) (fun _ _ => [])
    (Prog.forEach followSource (NodeCall.perform (smallBuild 8) 3), joinedNode)
    (uptimeMove_step smallClock) (uptimeMoves t u) (fun r => decide (r.1 = es)) h
  obtain rfl : es' = es := of_decide_eq_true hes
  exact ⟨c, hr⟩

/-- Heard at the clock times 11 and 30, the beginnings of the timeslots. -/
theorem network_uptime_forward_early :
    ∃ es c, History (UptimeStep smallClock) (fun _ _ => [])
        (Prog.forEach followSource (NodeCall.perform (smallBuild 8) 3), joinedNode) es c ∧
      syncs es = [⟨9, 11⟩, ⟨24, 30⟩] ∧ uptimes es = [30, 30] ∧
      (uptimes es).Pairwise (· ≤ ·) := by
  obtain ⟨c, hr⟩ := exists_uptimeMoves 11 30
    [.synced ⟨9, 11⟩, .called 30 30, .synced ⟨24, 30⟩, .called 30 30] (by decide +kernel)
  exact ⟨_, c, hr, rfl, rfl,
    network_uptime_forward 3 followSource (by decide) hr (by decide) (by decide)⟩

/-- At the clock time 31, later in its timeslot, the uptime goes back from 31 to 30. -/
theorem network_uptime_goes_back :
    ∃ es c, History (UptimeStep smallClock) (fun _ _ => [])
        (Prog.forEach followSource (NodeCall.perform (smallBuild 8) 3), joinedNode) es c ∧
      (clockTimes joinedNode es).Pairwise (· ≤ ·) ∧
      (∀ p ∈ lastSync joinedNode :: syncs es, p.InTimeslot smallClock 0) ∧
      uptimes es = [31, 30] ∧ ¬ (uptimes es).Pairwise (· ≤ ·) := by
  obtain ⟨c, hr⟩ := exists_uptimeMoves 11 31
    [.synced ⟨9, 11⟩, .called 31 31, .synced ⟨24, 31⟩, .called 31 30] (by decide +kernel)
  refine ⟨_, c, hr, by decide, ?_, rfl, by decide⟩
  intro p hp
  rcases List.mem_cons.mp hp with rfl | hp
  · exact ⟨1792, by decide, by decide, by decide⟩
  · rcases List.mem_cons.mp hp with rfl | hp
    · exact ⟨2952, by decide, by decide, by decide⟩
    · obtain rfl : p = ⟨24, 31⟩ := List.mem_singleton.mp hp
      exact ⟨7936, by decide, by decide, by decide⟩

end QlTsch
