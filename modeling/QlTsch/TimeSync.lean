/-
# `QlTsch.TimeSync` — how far the slots of a node are from those of its time source

A node has no clock in common with its time source.  It sets its slots when it joins, and
corrects them by what it measures of the frames of the source, or by what the source has
measured of its own frames and reports in the acknowledgement; the latter is cut to
`SYNC_IE_BOUND`.  In between its timer drifts, but for what
`tsch_timesync_adaptive_compensate` makes up for.

`slots_follow_source`: say that the slots of the source begin at the times `T 0`, `T 1`, ...
of the node's timer.  Then `current_slot_start` is off by no more than the record says
(`Follower.offsetBound`), and `last_sync_asn` measures how much of that is drift.  If no
acknowledgement comes too late for the cut, a node that joined with a larger error is
brought closer by every one of them.

What is asked of the environment is in `Follower.Honest`, for the record of the run: the
settings and measurements are right up to an error, and so is the drift of the slots.
-/
import QlTsch.Lib.Follower
import QlTsch.NetworkUptime

namespace QlTsch

open Interleave Interleave.Prog

variable {cfg : Config}

/-! ## The record of a run -/

section
variable (cfg)

/-- What was measured in the slot, in the interrupt that ends it. -/
def measurement (i : SlotInput) (s : TschState) : Option Follower.Event :=
  match slotCorrection cfg i s, s.slot.pc with
  | none, _ => none
  | some _, .txBeforeAck _ => some (.cut i.eackTimeCorrection)
  | some d, _ => some (.full d)

/-- What one interrupt does to the clock: the correction, and the slots to the next one. -/
def followEvents (i : SlotInput) (s s' : TschState) : List Follower.Event :=
  (measurement cfg i s).toList ++
    [.advance (s'.slot.tschCurrentAsn - s.slot.tschCurrentAsn) (compensation (roundsRead cfg i s))]

/-- As `ClockStep`, for a node that is no coordinator. -/
inductive FollowStep : List Follower.Event → TschState → TschState → Prop
  | slot {i : SlotInput} {s s' : TschState} : slotStep cfg i s = some s' →
      FollowStep (followEvents cfg i s s') s s'
  | associate (associated : Bool) (s : TschState) :
      FollowStep [] s { s with slot := { s.slot with tschIsAssociated := associated } }
  | sync (nextSlotStart : Int) (nextSlotAsn : Nat) (clockTime : Int) {s : TschState} :
      s.slot.pc = .asleep → s.slot.timer = none →
      FollowStep [.set nextSlotStart nextSlotAsn] s
        (tschSlotOperationSync nextSlotStart nextSlotAsn clockTime s)
  | start {is : List LoopInput} {s s' : TschState} : s.slot.pc = .asleep → s.slot.timer = none →
      tschSlotOperationStart cfg is s = some s' →
      FollowStep [.advance (s'.slot.tschCurrentAsn - s.slot.tschCurrentAsn)
        (compensation (roundsOf (fun l => tschSlotOperationStart cfg l s) is))] s s'

end

/-! ## One interrupt -/

section
variable {i : SlotInput} {s s' : TschState}

theorem apply_measurement (r : Option Follower.Reading) :
    (measurement cfg i s).toList.foldl (Follower.Event.apply cfg.tsTimeslotLength cfg.syncIeBound) r =
      r.map fun r => { r with start := r.start + (slotCorrection cfg i s).getD 0 } := by
  cases hcorr : slotCorrection cfg i s with
  | none =>
      simp only [measurement, hcorr]
      cases r with
      | none => rfl
      | some r =>
          show some r = some { r with start := r.start + 0 }
          rw [add_zero]
  | some d =>
      cases hpc : s.slot.pc with
      | txBeforeAck loc =>
          simp only [measurement, hcorr, hpc]
          have hcut : d = Follower.cutTo cfg.syncIeBound i.eackTimeCorrection := by
            simp only [slotCorrection, hpc, ackCorrection] at hcorr
            split at hcorr
            · cases hcorr
            · obtain ⟨-, h⟩ := Option.ite_none_right_eq_some.mp hcorr
              exact (Option.some.inj h).symm
          rw [hcut]
          rfl
      | asleep => simp only [measurement, hcorr, hpc]; rfl
      | txBeforeCca loc => simp only [measurement, hcorr, hpc]; rfl
      | txBeforeTx loc => simp only [measurement, hcorr, hpc]; rfl
      | rxBeforeListen => simp only [measurement, hcorr, hpc]; rfl
      | rxBeforeAck f => simp only [measurement, hcorr, hpc]; rfl

theorem since_measurement (n : Nat) : (measurement cfg i s).toList.foldl Follower.Event.since n =
    if (slotCorrection cfg i s).isSome then 0 else n := by
  cases hcorr : slotCorrection cfg i s with
  | none =>
      simp only [measurement, hcorr]
      rfl
  | some d =>
      simp only [measurement, hcorr]
      cases s.slot.pc <;> rfl

/-- The ASN only grows in the loops, and nothing else of a sync is touched. -/
structure GoesOn (s s' : TschState) : Prop where
  asn : s.slot.tschCurrentAsn ≤ s'.slot.tschCurrentAsn
  lastSyncAsn : s'.slot.lastSyncAsn = s.slot.lastSyncAsn
  coordinator : s'.slot.tschIsCoordinator = s.slot.tschIsCoordinator

theorem GoesOn.trans {u : TschState} (h : GoesOn s s') (h' : GoesOn s' u) : GoesOn s u :=
  ⟨h.asn.trans h'.asn, h'.lastSyncAsn.trans h.lastSyncAsn, h'.coordinator.trans h.coordinator⟩

theorem goesOn_slotEndRound (l : LoopInput) (s : TschState) :
    GoesOn s (slotEndRound cfg l s).1 := by
  obtain ⟨diff, hclock⟩ : ∃ diff, RoundClock cfg l s (slotEndRound cfg l s) diff :=
    slotEndRound_clock l s
  refine ⟨by rw [hclock.asn]; omega, ?_, ?_⟩
  · simp only [slotEndRound, nextLink]
    split <;> simp [advanceClock, replayBurst, selectLink]
  · simp only [slotEndRound, nextLink]
    split <;> simp [advanceClock, replayBurst, selectLink]

theorem goesOn_startRound (l : LoopInput) (s : TschState) : GoesOn s (startRound cfg l s).1 :=
  ⟨Nat.le_add_right _ _, rfl, rfl⟩

theorem goesOn_catchUp {round : LoopInput → TschState → TschState × Int}
    (hround : ∀ l s, GoesOn s (round l s).1) {is : List LoopInput}
    (h : catchUp cfg round is s = some s') : GoesOn s s' := by
  induction is generalizing s with
  | nil => cases h
  | cons l is ih =>
      simp only [catchUp] at h
      split at h
      · cases h
        obtain ⟨hasn, hlast, hc⟩ := hround l s
        exact ⟨hasn, hlast, hc⟩
      · exact (hround l s).trans (ih h)

theorem goesOn_endOfSlot (hc : s.slot.tschIsCoordinator = false) (h : endOfSlot cfg i s = some s') :
    GoesOn s s' := by
  simp only [endOfSlot, hc, Bool.false_eq_true, if_false] at h
  split at h
  · cases h
    exact ⟨le_rfl, rfl, rfl⟩
  · obtain ⟨t, ht, rfl⟩ := Option.map_eq_some_iff.mp h
    rw [scheduleNextSlot_eq] at ht
    obtain ⟨hasn, hlast, hc⟩ := goesOn_catchUp goesOn_slotEndRound ht
    exact ⟨hasn, hlast, hc⟩

/-- **An interrupt** of a node that follows: `last_sync_asn` is the slot of its last
correction. -/
theorem slotStep_follows (hc : s.slot.tschIsCoordinator = false) (h : slotStep cfg i s = some s') :
    s.slot.tschCurrentAsn ≤ s'.slot.tschCurrentAsn ∧ s'.slot.tschIsCoordinator = false ∧
      s'.slot.lastSyncAsn = if (slotCorrection cfg i s).isSome then s.slot.tschCurrentAsn
        else s.slot.lastSyncAsn := by
  have hpath : SlotPath cfg (SyncNoted i s) i s (slotCorrection cfg i s)
      fun l => slotStep cfg (i.withLoop l) s := slotStep_path (followsClock_syncNoted i s)
  cases hpath with
  | fails hf => cases (hf i.loop).symm.trans h
  | yields hcorr hf hnoted _ =>
      have hsame : s' = _ := Option.some.inj (h.symm.trans (hf i.loop))
      rw [hsame, hcorr]
      exact ⟨hnoted.asn.ge, hnoted.coordinator.trans hc, congrArg SyncPoint.asn hnoted.lastSync⟩
  | @ends w hf hnoted =>
      have hcw : w.slot.tschIsCoordinator = false := hnoted.coordinator.trans hc
      have hend := goesOn_endOfSlot hcw ((hf i.loop).symm.trans h)
      refine ⟨hnoted.asn.ge.trans hend.asn, hend.coordinator.trans hcw, ?_⟩
      have hlast : w.slot.lastSyncAsn = _ := congrArg SyncPoint.asn hnoted.lastSync
      rw [hend.lastSyncAsn, hlast, apply_ite SyncPoint.asn]
      rfl

end

/-! ## The record and the state -/

/-- The state is what the record says. -/
structure Following (cfg : Config) (es : List Follower.Event) (s : TschState) : Prop where
  drift : s.slot.driftCorrection = 0
  timer : ∀ x, s.slot.timer = some x → x = s.slot.currentSlotStart
  coordinator : s.slot.tschIsCoordinator = false
  clock : ∀ r, Follower.reading cfg.tsTimeslotLength cfg.syncIeBound es = some r →
    r.slot = s.slot.tschCurrentAsn ∧ s.slot.currentSlotStart ≡ r.start [ZMOD 2 ^ cfg.rtimerBits]
  since : s.slot.tschCurrentAsn = s.slot.lastSyncAsn + Follower.since es

namespace Following

variable {es : List Follower.Event} {s s' : TschState}

theorem start : Following cfg [] (TschState.boot cfg) :=
  ⟨rfl, fun _ hx => (by cases hx), rfl, fun _ hr => (by cases hr), rfl⟩

theorem of_same (hf : Following cfg es s) (hasn : s'.slot.tschCurrentAsn = s.slot.tschCurrentAsn)
    (hstart : s'.slot.currentSlotStart = s.slot.currentSlotStart)
    (hdrift : s'.slot.driftCorrection = s.slot.driftCorrection)
    (htimer : s'.slot.timer = s.slot.timer) (hlast : s'.slot.lastSyncAsn = s.slot.lastSyncAsn)
    (hc : s'.slot.tschIsCoordinator = s.slot.tschIsCoordinator) : Following cfg es s' := by
  refine ⟨hdrift.trans hf.drift, ?_, hc.trans hf.coordinator, ?_, ?_⟩
  · rw [hstart, htimer]
    exact hf.timer
  · rw [hstart, hasn]
    exact hf.clock
  · rw [hasn, hlast]
    exact hf.since

theorem moved (hf : Following cfg es s) {fs : List Follower.Event} {d c : Int}
    (happly : ∀ r, fs.foldl (Follower.Event.apply cfg.tsTimeslotLength cfg.syncIeBound) r =
      r.map fun r => { r with start := r.start + d })
    (hle : s.slot.tschCurrentAsn ≤ s'.slot.tschCurrentAsn)
    (hc : s'.slot.tschIsCoordinator = false) (hm : Moved cfg (d + c) s s')
    (hsince : s.slot.tschCurrentAsn =
      s'.slot.lastSyncAsn + fs.foldl Follower.Event.since (Follower.since es)) :
    Following cfg (es ++ (fs ++ [.advance (s'.slot.tschCurrentAsn - s.slot.tschCurrentAsn) c])) s' := by
  refine ⟨hm.drift, hm.timer, hc, fun r hr => ?_, ?_⟩
  · rw [← List.append_assoc, Follower.reading_concat, Follower.reading, List.foldl_append] at hr
    obtain ⟨r₁, hr₁, rfl⟩ := Option.map_eq_some_iff.mp hr
    rw [happly] at hr₁
    obtain ⟨r₀, hr₀, rfl⟩ := Option.map_eq_some_iff.mp hr₁
    obtain ⟨hslot, hclock⟩ := hf.clock r₀ hr₀
    refine ⟨by show r₀.slot + _ = _; omega, ?_⟩
    refine hm.slotStart.trans (((hclock.add_right _).add_right _).trans (modEq_of_eq ?_))
    show _ = r₀.start + d + (((s'.slot.tschCurrentAsn - s.slot.tschCurrentAsn : Nat) : Int) *
      cfg.tsTimeslotLength + c)
    rw [Nat.cast_sub hle]
    ring
  · rw [← List.append_assoc, Follower.since_concat, Follower.since, List.foldl_append]
    show _ = _ + (fs.foldl Follower.Event.since (Follower.since es) + _)
    omega

theorem step (hf : Following cfg es s) {fs : List Follower.Event} (hs : FollowStep cfg fs s s') :
    Following cfg (es ++ fs) s' := by
  cases hs with
  | slot hs =>
      rename_i i
      obtain ⟨hle, hc, hlast⟩ := slotStep_follows hf.coordinator hs
      refine hf.moved apply_measurement hle hc (slotStep_clock hs hf.drift hf.timer) ?_
      rw [since_measurement, hlast]
      split
      · rfl
      · exact hf.since
  | associate associated =>
      rw [List.append_nil]
      exact hf.of_same rfl rfl rfl rfl rfl rfl
  | sync start asn t hpc htimer =>
      refine ⟨hf.drift, fun x hx => ?_, hf.coordinator, fun r hr => ?_, ?_⟩
      · rw [tschSlotOperationSync, htimer] at hx
        cases hx
      · rw [Follower.reading_concat] at hr
        cases hr
        exact ⟨rfl, rfl⟩
      · rw [Follower.since_concat]
        rfl
  | start hpc htimer hs =>
      obtain ⟨hasn, hlast, hc⟩ := goesOn_catchUp goesOn_startRound hs
      have hm := (start_clock hf.drift hs).moved
      rw [← zero_add (compensation _)] at hm
      have happly : ∀ r, [].foldl (Follower.Event.apply cfg.tsTimeslotLength cfg.syncIeBound) r =
          r.map fun r => { r with start := r.start + 0 } := by
        intro r
        cases r <;> simp
      exact hf.moved happly hasn (hc.trans hf.coordinator) hm (by rw [hlast]; exact hf.since)

end Following

/-- **The slots of a node follow those of its time source.**  Let the slots of the source
begin at the times `T` of the node's timer, let the node's settings be right up to `β`, its
measurements up to `ε`, and its slots up to a drift of `ρ` each.  Then, once the node has
joined, `current_slot_start` is a time modulo the width of the timer that is off by no more
than the record allows.  If in addition no cut correction comes after more than `K` slots,
where `ρ * K` is at most `SYNC_IE_BOUND`, each brings the node closer by at least the
difference, until it is off by `ε` at most and what has drifted since `last_sync_asn`. -/
theorem slots_follow_source (fuel : Nat) (calls : List NodeCall) {es : List Follower.Event}
    {c : Prog TschState Unit × TschState}
    (hr : History (FollowStep cfg) (fun _ _ => [])
      (Prog.forEach calls (NodeCall.perform cfg fuel), TschState.boot cfg) es c)
    {T : Nat → ℚ} {β ε ρ : ℚ}
    (honest : Follower.Honest cfg.tsTimeslotLength cfg.syncIeBound T β ε ρ es)
    {r : Follower.Reading}
    (hjoined : Follower.reading cfg.tsTimeslotLength cfg.syncIeBound es = some r) :
    c.2.slot.currentSlotStart ≡ r.start [ZMOD 2 ^ cfg.rtimerBits] ∧
      |(r.start : ℚ) - T c.2.slot.tschCurrentAsn| ≤ Follower.offsetBound cfg.syncIeBound β ε ρ es ∧
      ∀ K : Nat, 0 ≤ ρ → ρ * K ≤ cfg.syncIeBound → Follower.Spaced K es →
        |(r.start : ℚ) - T c.2.slot.tschCurrentAsn| ≤
          max ε (β - Follower.cuts es * (cfg.syncIeBound - ρ * K)) +
            ρ * (c.2.slot.tschCurrentAsn - c.2.slot.lastSyncAsn) := by
  have hf : Following cfg es c.2 := by
    refine hr.invariant (I := fun _ => True) (R := Following cfg) (fun _ => trivial)
      (guar_leavesSlot fuel calls) .start ?_ ?_
    · intro h s s' _ hf hact
      rw [List.append_nil]
      refine hf.of_same ?_ ?_ ?_ ?_ ?_ ?_ <;> rw [hact.slot]
    · intro h es s s' _ hf hs
      exact hf.step hs
  obtain ⟨hslot, hclock⟩ := hf.clock r hjoined
  have hoff := Follower.offset_le honest hjoined
  rw [Follower.Reading.offset, hslot] at hoff
  refine ⟨hclock, hoff, ?_⟩
  intro K hρ hK hspaced
  have hbound : Follower.offsetBound _ β ε ρ es ≤ _ := Follower.offsetBound_le hK hρ hspaced
  have hsince : (Follower.since es : ℚ) = c.2.slot.tschCurrentAsn - c.2.slot.lastSyncAsn := by
    rw [hf.since]
    push_cast
    ring
  rw [hsince] at hbound
  exact hoff.trans hbound

/-! ## A node that joins too early -/

/-- A step of `FollowStep`, by what it needs to be computed. -/
def followMove (cfg : Config) (m : ClockMove) (s : TschState) :
    Option (List Follower.Event × TschState) :=
  match m with
  | .slot i => (slotStep cfg i s).map fun s' => (followEvents cfg i s s', s')
  | .associate associated coordinator =>
      if coordinator then none
      else some ([], { s with slot := { s.slot with tschIsAssociated := associated } })
  | .sync start asn t =>
      if s.slot.pc = .asleep ∧ s.slot.timer = none then
        some ([.set start asn], tschSlotOperationSync start asn t s)
      else none
  | .start is =>
      if s.slot.pc = .asleep ∧ s.slot.timer = none then
        (tschSlotOperationStart cfg is s).map fun s' =>
          ([.advance (s'.slot.tschCurrentAsn - s.slot.tschCurrentAsn)
            (compensation (roundsOf (fun l => tschSlotOperationStart cfg l s) is))], s')
      else none

theorem followMove_step (m : ClockMove) (s : TschState) (es : List Follower.Event) (s' : TschState)
    (h : followMove cfg m s = some (es, s')) : FollowStep cfg es s s' := by
  cases m with
  | slot i =>
      obtain ⟨t, ht, heq⟩ := Option.map_eq_some_iff.mp h
      cases heq
      exact .slot ht
  | associate associated coordinator =>
      cases coordinator with
      | true => cases h
      | false =>
          cases h
          exact .associate _ s
  | sync start asn t =>
      obtain ⟨hidle, h⟩ := Option.ite_none_right_eq_some.mp h
      cases h
      exact .sync start asn t hidle.1 hidle.2
  | start is =>
      obtain ⟨hidle, h⟩ := Option.ite_none_right_eq_some.mp h
      obtain ⟨t, ht, heq⟩ := Option.map_eq_some_iff.mp h
      cases heq
      exact .start hidle.1 hidle.2 ht

/-- A Tx link to node 2, which is the time source, and a packet for it. -/
def reportToSource : List NodeCall :=
  [.call (.addSlotframe 1 15), .call (.addLink (some 0) txShared .normal (some 2) 0 0 true),
    .call (.updateTimeSource (some 2)), .call (.addPacket 2 3 0 0 true)]

/-- The node joins 50 ticks early, and reads so in the acknowledgement of its first frame. -/
def reportMoves : List (Option ClockMove) :=
  List.replicate 46 none ++ [some (.associate true false), some (.sync 1000 5 0),
    some (.start [⟨0, 1000, true⟩]), some (.slot (.quiet 0)), some (.slot (.quiet 0)),
    some (.slot { SlotInput.quiet 5000 with ackLen := 1, eackParsed := true, eackTimeCorrection := 50 })]

/-- The slots of the source. -/
def sourceStart (asn : Nat) : ℚ := 1050 + (asn - 5) * 328

def reported : List Follower.Event :=
  [.set 1000 5, .advance 10 0, .advance 0 0, .advance 0 0, .cut 50, .advance 15 0]

theorem honest_reported :
    Follower.Honest (smallBuild 8).tsTimeslotLength (smallBuild 8).syncIeBound sourceStart 50 0 (1 / 10)
      reported := by
  simp [reported, Follower.Honest, Follower.HonestFrom, Follower.Event.Honest, Follower.Event.apply,
    Follower.Reading.offset, sourceStart, smallBuild]
  norm_num

theorem slots_follow_source_early :
    ∃ es c, History (FollowStep (smallBuild 8)) (fun _ _ => [])
        (Prog.forEach reportToSource (NodeCall.perform (smallBuild 8) 3),
          TschState.boot (smallBuild 8)) es c ∧
      Follower.cuts es = 1 ∧ c.2.slot.tschCurrentAsn = 30 ∧
      |(9232 : ℚ) - sourceStart c.2.slot.tschCurrentAsn| ≤ 41 / 2 := by
  obtain ⟨es, c, hr, hP⟩ := History.exists_historyOf (followMove (smallBuild 8)) (fun _ _ => [])
    (Prog.forEach reportToSource (NodeCall.perform (smallBuild 8) 3), TschState.boot (smallBuild 8))
    followMove_step reportMoves
    (fun r => decide (r.1 = reported ∧ r.2.2.slot.tschCurrentAsn = 30 ∧
      r.2.2.slot.lastSyncAsn = 15)) (by decide +kernel)
  obtain ⟨rfl, hasn, hlast⟩ := of_decide_eq_true hP
  have hjoined : Follower.reading (smallBuild 8).tsTimeslotLength (smallBuild 8).syncIeBound reported =
    some ⟨9232, 30⟩ := rfl
  have hclose := (slots_follow_source 3 reportToSource hr honest_reported hjoined).2.2 10 (by norm_num)
    (by norm_num [smallBuild]) ⟨trivial, trivial, trivial, trivial, Nat.le_refl 10, trivial, trivial⟩
  have hbound : max 0 (50 - (Follower.cuts reported : ℚ) * ((smallBuild 8).syncIeBound -
      1 / 10 * (10 : Nat))) + 1 / 10 * ((30 : Nat) - (15 : Nat)) = 41 / 2 := by
    norm_num [Follower.cuts, reported, Follower.Event.cuts, smallBuild]
  rw [hasn, hlast, hbound] at hclose
  refine ⟨reported, c, hr, rfl, hasn, ?_⟩
  rw [hasn]
  exact hclose

end QlTsch
