/-
# `QlTsch.DeadlineCheck` — deadlines on a timer that wraps

`check_timer_miss` decides whether the target of a timer, an offset after a reference time,
has been reached.  All three are readings of a timer of `w` bits, so it asks first which of
target and present time have wrapped since the reference time.
`tsch_schedule_slot_operation` asks it for a target that is `RTIMER_GUARD` earlier and arms
the timer only if that has not been reached.

* `deadline_check`: a deadline is missed exactly if as many ticks have elapsed as the offset
  has; and a timer that is armed is armed for more than `RTIMER_GUARD` ticks ahead.
* `catchUp_ahead`: so it is at the end of either loop that looks for the next slot.
-/
import QlTsch.Lib.WrapClock
import QlTsch.SlotClock

namespace QlTsch

open WrapClock

variable (cfg : Config)

/-- A value of `rtimer_clock_t`. -/
def Config.IsRtimer (t : Int) : Prop := IsReading (2 ^ cfg.rtimerBits) t

instance (t : Int) : Decidable (cfg.IsRtimer t) := inferInstanceAs (Decidable (IsReading _ t))

/-- `tsch_schedule_slot_operation` with the timer: what it returns, and what the timer is
armed for afterwards. -/
def armSlotOperation (refTime offset now : Int) (rtimerOk : Bool) (timer : Option Int) :
    Bool × Option Int :=
  if checkTimerMiss cfg refTime (cfg.rtimer (offset - cfg.rtimerGuard)) now then (false, timer)
  -- rtimer_set(tm, ref_time + offset, ...)
  else if rtimerOk then (true, some (cfg.rtimer (refTime + offset)))
  else (false, timer)

variable {cfg}

/-! ## The check -/

theorem isRtimer_rtimer (x : Int) : cfg.IsRtimer (cfg.rtimer x) :=
  isReading_emod (Int.pow_pos (by decide)) x

theorem rtimer_eq {x : Int} (hx : cfg.IsRtimer x) : cfg.rtimer x = x :=
  Int.emod_eq_of_lt hx.1 hx.2

theorem checkTimerMiss_iff {refTime offset now : Int} (href : cfg.IsRtimer refTime)
    (hoffset : cfg.IsRtimer offset) (hnow : cfg.IsRtimer now) :
    checkTimerMiss cfg refTime offset now = true ↔
      offset ≤ elapsed (2 ^ cfg.rtimerBits) refTime now := by
  have htarget : elapsed (2 ^ cfg.rtimerBits) refTime (cfg.rtimer (refTime + offset)) = offset :=
    elapsed_target hoffset
  -- what the source compares, case by case
  have hcheck : checkTimerMiss cfg refTime offset now = true ↔
      if (now < refTime ↔ cfg.rtimer (refTime + offset) < refTime) then
        cfg.rtimer (refTime + offset) ≤ now else now < refTime := by
    simp only [checkTimerMiss, decide_eq_decide]
    split <;> simp
  rw [hcheck, ← elapsed_le_iff href (isRtimer_rtimer _) hnow, htarget]

theorem isRtimer_sub_guard {offset : Int} (hguard : 0 ≤ cfg.rtimerGuard)
    (hoffset : cfg.IsRtimer offset) (hle : cfg.rtimerGuard ≤ offset) :
    cfg.IsRtimer (offset - cfg.rtimerGuard) :=
  ⟨Int.sub_nonneg_of_le hle, lt_of_le_of_lt (Int.sub_le_self offset hguard) hoffset.2⟩

/-! ## The timer -/

theorem armSlotOperation_eq (refTime offset now : Int) (rtimerOk : Bool) (timer : Option Int) :
    armSlotOperation cfg refTime offset now rtimerOk timer =
      (tschScheduleSlotOperation cfg refTime offset now rtimerOk,
        if tschScheduleSlotOperation cfg refTime offset now rtimerOk then
          some (cfg.rtimer (refTime + offset)) else timer) := by
  simp only [armSlotOperation, tschScheduleSlotOperation]
  by_cases hmissed :
      checkTimerMiss cfg refTime (cfg.rtimer (offset - cfg.rtimerGuard)) now = true
  · simp [hmissed]
  · cases rtimerOk <;> simp [hmissed]

theorem catchUp_cons (round : LoopInput → TschState → TschState × Int) (i : LoopInput)
    (is : List LoopInput) (s : TschState) :
    catchUp cfg round (i :: is) s =
      let r := round i s
      let a := armSlotOperation cfg s.slot.currentSlotStart r.2 i.now i.rtimerOk r.1.slot.timer
      if a.1 then some { r.1 with slot := { r.1.slot with timer := a.2 } }
      else catchUp cfg round is r.1 := by
  simp only [catchUp, armSlotOperation_eq]
  split
  · rfl
  · rfl

/-- `tsch_schedule_slot_operation` arms the timer exactly if fewer ticks have elapsed than the
offset has without the guard, and `rtimer_set` accepts. -/
theorem tschScheduleSlotOperation_iff {refTime offset now : Int} (href : cfg.IsRtimer refTime)
    (hoffset : cfg.IsRtimer offset) (hnow : cfg.IsRtimer now) (hguard : 0 ≤ cfg.rtimerGuard)
    (hle : cfg.rtimerGuard ≤ offset) (rtimerOk : Bool) :
    tschScheduleSlotOperation cfg refTime offset now rtimerOk = true ↔
      elapsed (2 ^ cfg.rtimerBits) refTime now < offset - cfg.rtimerGuard ∧ rtimerOk = true := by
  have hoffset' : cfg.IsRtimer (offset - cfg.rtimerGuard) := isRtimer_sub_guard hguard hoffset hle
  rw [tschScheduleSlotOperation, rtimer_eq hoffset', Bool.and_eq_true, Bool.not_eq_true',
    ← Bool.not_eq_true, checkTimerMiss_iff href hoffset' hnow, not_le]

/-- The target is ahead by what has not elapsed of the offset. -/
theorem target_ahead {refTime offset now : Int} (hoffset : cfg.IsRtimer offset)
    (hguard : 0 ≤ cfg.rtimerGuard)
    (h : elapsed (2 ^ cfg.rtimerBits) refTime now < offset - cfg.rtimerGuard) :
    cfg.rtimerGuard < elapsed (2 ^ cfg.rtimerBits) now (cfg.rtimer (refTime + offset)) := by
  have hahead : elapsed (2 ^ cfg.rtimerBits) now (cfg.rtimer (refTime + offset)) =
      offset - elapsed (2 ^ cfg.rtimerBits) refTime now := elapsed_to_target hoffset (by omega)
  omega

/-! ## Results -/

/-- **Deadline checks survive a wrap of the timer**, for every width.  The times are readings
of the timer, and the offset is at least the guard where it is taken off. -/
theorem deadline_check (cfg : Config) {refTime offset now : Int} (href : cfg.IsRtimer refTime)
    (hoffset : cfg.IsRtimer offset) (hnow : cfg.IsRtimer now) :
    (checkTimerMiss cfg refTime offset now = true ↔
      offset ≤ (now - refTime) % 2 ^ cfg.rtimerBits) ∧
    (0 ≤ cfg.rtimerGuard → cfg.rtimerGuard ≤ offset → ∀ (rtimerOk : Bool) (timer : Option Int),
      if (now - refTime) % 2 ^ cfg.rtimerBits < offset - cfg.rtimerGuard ∧ rtimerOk = true then
        armSlotOperation cfg refTime offset now rtimerOk timer =
          (true, some ((refTime + offset) % 2 ^ cfg.rtimerBits)) ∧
        cfg.rtimerGuard <
          ((refTime + offset) % 2 ^ cfg.rtimerBits - now) % 2 ^ cfg.rtimerBits
      else armSlotOperation cfg refTime offset now rtimerOk timer = (false, timer)) := by
  refine ⟨checkTimerMiss_iff href hoffset hnow, ?_⟩
  intro hguard hle rtimerOk timer
  have harmed := tschScheduleSlotOperation_iff href hoffset hnow hguard hle rtimerOk
  rw [armSlotOperation_eq]
  split
  · rename_i hearly
    rw [harmed.mpr hearly]
    exact ⟨rfl, target_ahead hoffset hguard hearly.1⟩
  · rename_i hlate
    have hnot : tschScheduleSlotOperation cfg refTime offset now rtimerOk = false :=
      Bool.eq_false_iff.mpr fun h => hlate (harmed.mp h)
    rw [hnot]
    rfl

/-- Reference time and present time on either side of a wrap, the target behind it. -/
theorem deadline_check_wrapped :
    checkTimerMiss (smallBuild 8) (2 ^ 32 - 100) 298 150 = false ∧
      armSlotOperation (smallBuild 8) (2 ^ 32 - 100) 300 150 true none = (true, some 200) := by
  have href : (smallBuild 8).IsRtimer (2 ^ 32 - 100) := by decide
  have hnow : (smallBuild 8).IsRtimer 150 := by decide
  have hcheck : (smallBuild 8).IsRtimer 298 := by decide
  have hoffset : (smallBuild 8).IsRtimer 300 := by decide
  have hmiss := (deadline_check (smallBuild 8) href hcheck hnow).1
  have harm := (deadline_check (smallBuild 8) href hoffset hnow).2 (by decide) (by decide) true none
  rw [if_pos (by decide)] at harm
  exact ⟨Bool.eq_false_iff.mpr fun h => absurd (hmiss.mp h) (by decide), harm.1⟩

/-! ### The loops that look for the next slot -/

/-- `round` looks at a slot that starts a reading of the timer after the one before. -/
def LooksAhead (cfg : Config) (round : LoopInput → TschState → TschState × Int) : Prop :=
  ∀ i s, cfg.IsRtimer (round i s).2 ∧
    (round i s).1.slot.currentSlotStart = cfg.rtimer (s.slot.currentSlotStart + (round i s).2)

theorem slotEndRound_looksAhead : LooksAhead cfg (slotEndRound cfg) := by
  intro i s
  obtain ⟨diff, hround⟩ := slotEndRound_clock i s
  exact ⟨isRtimer_rtimer _, hround.slotStart⟩

theorem startRound_looksAhead : LooksAhead cfg (startRound cfg) :=
  fun _ _ => ⟨isRtimer_rtimer _, rfl⟩

/-- The timer is armed for `current_slot_start`.  In the round that armed it this was more
than the guard ahead, if the slot was the guard away at least. -/
def ArmedAhead (cfg : Config) (round : LoopInput → TschState → TschState × Int)
    (is : List LoopInput) (t : TschState) : Prop :=
  t.slot.timer = some t.slot.currentSlotStart ∧
    ∃ i ∈ is, ∃ u, t.slot.currentSlotStart = (round i u).1.slot.currentSlotStart ∧
      (cfg.rtimerGuard ≤ (round i u).2 →
        cfg.rtimerGuard < elapsed (2 ^ cfg.rtimerBits) i.now t.slot.currentSlotStart)

/-- **The loops** end with a timer that is ahead. -/
theorem catchUp_ahead {round : LoopInput → TschState → TschState × Int}
    (hround : LooksAhead cfg round) (hguard : 0 ≤ cfg.rtimerGuard) {is : List LoopInput}
    {s t : TschState} (hs : cfg.IsRtimer s.slot.currentSlotStart)
    (hnow : ∀ i ∈ is, cfg.IsRtimer i.now) (h : catchUp cfg round is s = some t) :
    ArmedAhead cfg round is t := by
  induction is generalizing s with
  | nil => cases h
  | cons i is ih =>
      obtain ⟨hoffset, hstart⟩ := hround i s
      have hi : cfg.IsRtimer i.now := hnow i List.mem_cons_self
      simp only [catchUp] at h
      split at h
      · rename_i harmed
        cases h
        refine ⟨congrArg some hstart.symm, i, List.mem_cons_self, s, rfl, ?_⟩
        intro hle
        have hearly := ((tschScheduleSlotOperation_iff hs hoffset hi hguard hle _).mp harmed).1
        show cfg.rtimerGuard < elapsed _ _ (round i s).1.slot.currentSlotStart
        rw [hstart]
        exact target_ahead hoffset hguard hearly
      · have hs' : cfg.IsRtimer (round i s).1.slot.currentSlotStart := by
          rw [hstart]
          exact isRtimer_rtimer _
        obtain ⟨htimer, j, hj, u, hu⟩ := ih hs' (fun j hj => hnow j (List.mem_cons_of_mem _ hj)) h
        exact ⟨htimer, j, List.mem_cons_of_mem _ hj, u, hu⟩

theorem scheduleNextSlot_ahead (hguard : 0 ≤ cfg.rtimerGuard) {is : List LoopInput}
    {s t : TschState} (hs : cfg.IsRtimer s.slot.currentSlotStart)
    (hnow : ∀ i ∈ is, cfg.IsRtimer i.now) (h : scheduleNextSlot cfg is s = some t) :
    ArmedAhead cfg (slotEndRound cfg) is t := by
  rw [scheduleNextSlot_eq] at h
  exact catchUp_ahead slotEndRound_looksAhead hguard hs hnow h

theorem tschSlotOperationStart_ahead (hguard : 0 ≤ cfg.rtimerGuard) {is : List LoopInput}
    {s t : TschState} (hs : cfg.IsRtimer s.slot.currentSlotStart)
    (hnow : ∀ i ∈ is, cfg.IsRtimer i.now) (h : tschSlotOperationStart cfg is s = some t) :
    ArmedAhead cfg (startRound cfg) is t :=
  catchUp_ahead startRound_looksAhead hguard hs hnow h

end QlTsch
