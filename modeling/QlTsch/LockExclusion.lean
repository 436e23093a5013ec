/-
# `QlTsch.LockExclusion` — what the lock excludes, and what it does not

The header promises that "when the lock is taken, slot operation will be skipped
until release".  `tsch_get_lock` establishes this at the moment it takes the
lock: none is in progress and its request keeps the next one from starting.
Then it withdraws the request, and from there on the loop of
`tsch_slot_operation`, which tests the request and not the lock, skips a slot
only because `current_link` is NULL.

Nothing selects a link under the lock: processes only clear `current_link`, and
the end of a skipped slot finds the schedule locked.  So it is settled when
`tsch_get_lock` returns.

* `lock_excludes_slots`: if `current_link` is NULL or the node is not associated
  whenever `tsch_get_lock` returns, or else no interrupt comes until the release,
  then no slot operation starts or is in progress under the lock, and the
  interrupts under it leave `apt_table`, `trans_status` and the queues alone.
* `slot_starts_under_lock`: a link that was selected before the lock was taken is
  run under it.

The process is any program that uses the lock through its two functions, and
every call of `QlTsch.NodeCalls` is one.
-/
import QlTsch.Lib.Guarantee
import QlTsch.LockRules
import QlTsch.NodeCalls

namespace QlTsch

open Interleave Interleave.Prog

variable {cfg : Config}

/-! ## The record of a run -/

/-- There is nothing that the next slot could run on. -/
def Idle (s : TschState) : Prop :=
  s.slot.currentLink = none ∨ s.slot.tschIsAssociated = false

instance (s : TschState) : Decidable (Idle s) :=
  inferInstanceAs (Decidable (s.slot.currentLink = none ∨ s.slot.tschIsAssociated = false))

theorem SlotStarts.not_idle {s : TschState} (h : SlotStarts s) : ¬ Idle s := by
  rintro (hnone | hassoc)
  · have hlink := h.link
    rw [hnone] at hlink
    cases hlink
  · exact absurd (h.associated.symm.trans hassoc) (by decide)

inductive LockEvent where
  /-- `tsch_get_lock` returns `1` -/
  | taken (idle : Bool)
  | released
  | interrupt
deriving DecidableEq, Repr

/-- What an action of a process does to the lock, as far as it is in the record. -/
def lockEvents (s s' : TschState) : List LockEvent :=
  if s.lock = .taken ∧ s'.lock = .held then [.taken (decide (Idle s))]
  else if s.lock.tschLocked = true ∧ s'.lock.tschLocked = false then [.released]
  else []

inductive LockIrq (cfg : Config) : List LockEvent → TschState → TschState → Prop
  | slot {i : SlotInput} {s s' : TschState} :
      slotStep cfg i s = some s' → LockIrq cfg [.interrupt] s s'

/-- The lock is held, and a link was selected when it was taken. -/
def LockEvent.exposes (b : Bool) : LockEvent → Bool
  | .taken idle => !idle
  | .released => false
  | .interrupt => b

def exposed (h : List LockEvent) : Bool := h.foldl LockEvent.exposes false

/-- No interrupt comes where `b` says that the lock was taken with a link selected. -/
def sparedFrom : Bool → List LockEvent → Bool
  | _, [] => true
  | b, e :: h => (e != .interrupt || !b) && sparedFrom (e.exposes b) h

/-- Whenever `tsch_get_lock` returns with a link selected, no interrupt comes until the
release. -/
def Spared (h : List LockEvent) : Prop := sparedFrom false h = true

section
variable {h : List LockEvent} {b : Bool}

theorem exposed_concat (e : LockEvent) : exposed (h ++ [e]) = e.exposes (exposed h) := by
  rw [exposed, List.foldl_append]
  rfl

theorem sparedFrom_append (h' : List LockEvent) :
    sparedFrom b (h ++ h') = (sparedFrom b h && sparedFrom (h.foldl LockEvent.exposes b) h') := by
  induction h generalizing b with
  | nil => rfl
  | cons e h ih =>
      simp only [List.cons_append, sparedFrom, List.foldl_cons, ih, Bool.and_assoc]

theorem Spared.of_append {h' : List LockEvent} (hs : Spared (h ++ h')) : Spared h := by
  rw [Spared, sparedFrom_append, Bool.and_eq_true] at hs
  exact hs.1

theorem Spared.interrupt (hs : Spared (h ++ [.interrupt])) : exposed h = false := by
  rw [Spared, sparedFrom_append, Bool.and_eq_true] at hs
  simpa [sparedFrom, exposed] using hs.2

end

/-! ## The process -/

/-- An action that leaves the flags of the locking system alone, and under the lock
selects no link. -/
structure Foreign (s s' : TschState) : Prop where
  lock : s'.lock = s.lock
  pc : s'.slot.pc = s.slot.pc
  inSlot : s'.slot.tschInSlotOperation = s.slot.tschInSlotOperation
  idle : s.lock.tschLocked = true → Idle s → Idle s'

theorem Foreign.of_leavesLock {s s' : TschState} (h : LeavesLock s s') : Foreign s s' := by
  refine ⟨h.lock, by rw [h.slot], by rw [h.slot], fun _ hidle => ?_⟩
  rcases hidle with hnone | hassoc
  · rcases h.currentLink with hlink | hlink
    · exact .inl (hlink.trans hnone)
    · exact .inl hlink
  · refine .inr ?_
    rw [h.slot]
    exact hassoc

theorem client_nodeCall (fuel : Nat) (c : NodeCall) : LockClient Foreign (c.perform cfg fuel) :=
  (nodeWrites_leavesLock.perform fuel c fun _ _ _ => ⟨.of_slot rfl, rfl⟩).mono
    fun _ _ => .of_leavesLock

/-- What a client does to the lock, in the states it does it in. -/
inductive LockStep (s : TschState) : TschState → Prop
  | foreign {s' : TschState} : Foreign s s' → LockStep s s'
  | request : s.lock.tschLocked = false → LockStep s (s.setLockRequested true)
  | take : s.lock = .requested → s.slot.pc = .asleep → LockStep s (s.setLocked true)
  | withdraw : s.lock = .taken → LockStep s (s.setLockRequested false)
  | release : LockStep s (s.setLocked false)

/-- The context of the proof: the interrupts of the slot operation. -/
def flagsCtx (cfg : Config) : Ctx TschState where
  irq s s' := ∃ i, slotStep cfg i s = some s'
  cond _ _ := True
  inv := SlotFlags
  live := False
  stable _ _ h hs := hs.elim fun _ hi => h.step hi

theorem lockCtx_flags : LockCtx cfg (flagsCtx cfg) where
  irq h := h
  flags h := h
  live h := h.elim
  request h _ := ⟨h.inSlot, h.tx⟩
  lock {s} h _ _ hpc := by
    refine ⟨h.inSlot, fun htx => ?_⟩
    have htx : s.slot.pc.inTx = true := htx
    rw [hpc] at htx
    cases htx
  unrequest h _ := ⟨h.inSlot, h.tx⟩

theorem SlotFlags.foreign {s s' : TschState} (h : SlotFlags s) (hf : Foreign s s') :
    SlotFlags s' := by
  refine ⟨?_, ?_⟩
  · rw [hf.inSlot, hf.pc]
    exact h.inSlot
  · rw [hf.pc, hf.lock]
    exact h.tx

/-- `tsch_get_lock`, step by step: it takes the lock where no slot is in progress. -/
theorem wpg_tschGetLock {α : Type} {k : Bool → Prog TschState α} {Q : α → TschState → Prop}
    {s : TschState} (hi : SlotFlags s)
    (hk : ∀ b t, SlotFlags t → Wpg (flagsCtx cfg) LockStep (k b) Q t) :
    Wpg (flagsCtx cfg) LockStep (tschGetLock >>= k) Q s := by
  have L : LockCtx cfg (flagsCtx cfg) := lockCtx_flags
  have hsame : ∀ t, LockStep t t := fun t => .foreign ⟨rfl, rfl, rfl, fun _ h => h⟩
  have hinv : ∀ {a b}, SlotFlags a → (flagsCtx cfg).rely a b → SlotFlags b := fun ha hr =>
    (flagsCtx cfg).inv_rely ha hr
  have hlock : ∀ {a b}, SlotFlags a → (flagsCtx cfg).rely a b → b.lock = a.lock := fun ha hr =>
    lock_of_owned (L.owned_rely ha hr)
  rw [tschGetLock_bind]
  intro t ht _
  have hit := hinv hi ht
  refine ⟨hit, hsame t, ?_⟩
  show Wpg (flagsCtx cfg) LockStep (if tschIsLocked t = true then k false else _) Q t
  split
  · exact hk false t hit
  · rename_i hfree
    have hfree : t.lock.tschLocked = false := Bool.eq_false_iff.mpr hfree
    intro u hu _
    have hiu := hinv hit hu
    have hufree : u.lock.tschLocked = false := by
      rw [hlock hit hu]
      exact hfree
    have hiu' := L.request hiu hufree
    refine ⟨hiu', .request hufree, fun v hv => ⟨fun hl => hl.elim, fun hend => ?_⟩⟩
    -- the slot in progress is over, and the request keeps the next one from starting
    have hiv := hinv hiu' hv
    have hvlock : v.lock = .requested := by
      rw [hlock hiu' hv]
      simp only [TschState.setLockRequested, hufree]
      rfl
    have hvpc : v.slot.pc = .asleep := by
      by_contra hne
      rw [slotEnds, hiv.inSlot.mpr hne] at hend
      cases hend
    intro w hw _
    have hiw := hinv hiv hw
    have hwlock : w.lock = .requested := (hlock hiv hw).trans hvlock
    have hwpc := L.asleep_rely hiv hvpc (by rw [hvlock]; rfl) hw
    refine ⟨hiw, hsame w, ?_⟩
    have hwfree : tschIsLocked w = false := by
      rw [tschIsLocked, hwlock]
      rfl
    show Wpg (flagsCtx cfg) LockStep (if tschIsLocked w = true then k false else _) Q w
    rw [hwfree, if_neg Bool.false_ne_true]
    intro x hx _
    have hix := hinv hiw hx
    have hxlock : x.lock = .requested := (hlock hiw hx).trans hwlock
    have hxpc := L.asleep_rely hiw hwpc (by rw [hwlock]; rfl) hx
    have hix' := L.lock hix (by rw [hxlock]; rfl) (by rw [hxlock]; rfl) hxpc
    refine ⟨hix', .take hxlock hxpc, ?_⟩
    intro y hy _
    have hiy := hinv hix' hy
    have hylock : y.lock = .taken := by
      rw [hlock hix' hy]
      simp only [TschState.setLocked, hxlock]
      rfl
    exact ⟨⟨hiy.inSlot, hiy.tx⟩, .withdraw hylock, hk true _ ⟨hiy.inSlot, hiy.tx⟩⟩

theorem wpg_lockClient {α : Type} {p : Prog TschState α} (hp : LockClient Foreign p)
    {s : TschState} (hi : SlotFlags s) :
    Wpg (flagsCtx cfg) LockStep p (fun _ _ => True) s := by
  have hinv : ∀ {a b}, SlotFlags a → (flagsCtx cfg).rely a b → SlotFlags b := fun ha hr =>
    (flagsCtx cfg).inv_rely ha hr
  induction hp generalizing s with
  | ret a => trivial
  | act hf _ ih =>
      intro t ht _
      have hit := (hinv hi ht).foreign (hf t)
      exact ⟨hit, .foreign (hf t), ih t hit⟩
  | await _ ih =>
      intro t ht
      exact ⟨fun hl => hl.elim, fun _ => ih (hinv hi ht)⟩
  | getLock _ ih => exact wpg_tschGetLock hi fun b t hit => ih b hit
  | releaseLock _ ih =>
      intro t ht _
      have hit := hinv hi ht
      have hit' : SlotFlags (t.setLocked false) := ⟨hit.inSlot, fun _ => rfl⟩
      exact ⟨hit', .release, ih () hit'⟩

/-! ## Interrupts under the lock -/

/-- The end of a skipped slot: nothing is selected, and no backoff window moves. -/
structure SkippedEnd (s₀ s : TschState) : Prop where
  locked : s.lock.tschLocked = true
  idle : Idle s₀ → Idle s
  aptTable : s.slot.aptTable = s₀.slot.aptTable
  transStatus : s.slot.transStatus = s₀.slot.transStatus
  queue : s.queue = s₀.queue

theorem selectLink_locked {s : TschState} (h : s.lock.tschLocked = true) :
    (selectLink s).slot.currentLink = none := by
  simp only [selectLink, tschScheduleGetNextActiveLink, tschIsLocked, h, if_true]

def lockedEnd (cfg : Config) (s₀ : TschState) : EndOutline cfg where
  asleep := SkippedEnd s₀
  ending := SkippedEnd s₀
  chosen := SkippedEnd s₀
  keepTime _ h := ⟨h.locked, h.idle, h.aptTable, h.transStatus, h.queue⟩
  again h := h
  disassociate h := ⟨h.locked, fun _ => .inr rfl, h.aptTable, h.transStatus, h.queue⟩
  backoff l h := by
    rw [updateLinkBackoff_locked h.locked]
    exact h
  replay h _ _ := ⟨h.locked, h.idle, h.aptTable, h.transStatus, h.queue⟩
  select h _ := ⟨h.locked, fun _ => .inl (selectLink_locked h.locked), h.aptTable, h.transStatus,
    h.queue⟩
  advance _ _ h := ⟨h.locked, h.idle, h.aptTable, h.transStatus, h.queue⟩
  armTimer _ h := ⟨h.locked, h.idle, h.aptTable, h.transStatus, h.queue⟩
  sleep h := ⟨h.locked, h.idle, h.aptTable, h.transStatus, h.queue⟩

/-- **A skipped slot under the lock.** -/
theorem slotStep_locked {i : SlotInput} {s s' : TschState} (hlock : s.lock.tschLocked = true)
    (hpc : s.slot.pc = .asleep) (hskip : ¬ SlotStarts s) (hs : slotStep cfg i s = some s') :
    SkippedEnd s s' ∧ s'.slot.pc = .asleep := by
  have hdisarm : SkippedEnd s s.disarm := ⟨hlock, id, rfl, rfl, rfl⟩
  rcases slotStep_skipped hpc hskip hs with rfl | hend
  · exact ⟨hdisarm, hpc⟩
  · exact ⟨((lockedEnd cfg s).endOfSlot hdisarm hend).1, endOfSlot_asleep hend⟩

/-! ## The invariant -/

/-- Under the lock the slot operation is between slots; and from the return of
`tsch_get_lock` on there is nothing to run, unless a link was selected there. -/
structure LockExcludes (h : List LockEvent) (s : TschState) : Prop where
  asleep : s.lock.tschLocked = true → s.slot.pc = .asleep
  idle : s.lock = .held → exposed h = false → Idle s

theorem LockVars.locked_cases {v : LockVars} (h : v.tschLocked = true) : v = .taken ∨ v = .held := by
  obtain ⟨locked, requested⟩ := v
  cases h
  cases requested with
  | true => exact .inl rfl
  | false => exact .inr rfl

namespace LockExcludes

variable {h : List LockEvent} {s s' : TschState}

/-- Where it is spared, an interrupt under the lock starts no slot. -/
theorem skips (he : LockExcludes h s) (hlock : s.lock.tschLocked = true)
    (hspared : exposed h = false) : ¬ SlotStarts s := by
  intro hstart
  rcases LockVars.locked_cases hlock with htaken | hheld
  · have hreq := hstart.notRequested
    rw [htaken] at hreq
    cases hreq
  · exact hstart.not_idle (he.idle hheld hspared)

theorem irq (he : LockExcludes h s) (hspared : exposed h = false) {i : SlotInput}
    (hs : slotStep cfg i s = some s') : LockExcludes (h ++ [.interrupt]) s' := by
  have hsame : s'.lock = s.lock := lock_of_owned (slotStep_owned hs)
  have hend : s'.lock.tschLocked = true → SkippedEnd s s' ∧ s'.slot.pc = .asleep := by
    intro hlock
    rw [hsame] at hlock
    exact slotStep_locked hlock (he.asleep hlock) (he.skips hlock hspared) hs
  refine ⟨fun hlock => (hend hlock).2, fun hheld _ => ?_⟩
  exact (hend (by rw [hheld]; rfl)).1.idle (he.idle (hsame ▸ hheld) hspared)

theorem of_free (hfree : s.lock.tschLocked = false) : LockExcludes h s := by
  refine ⟨fun hlock => absurd (hlock.symm.trans hfree) (by decide), fun hheld _ => ?_⟩
  rw [hheld] at hfree
  cases hfree

theorem act (he : LockExcludes h s) (hg : LockStep s s') :
    LockExcludes (h ++ lockEvents s s') s' := by
  cases hg with
  | foreign hf =>
      have hnone : lockEvents s s' = [] := by
        have hno : ¬ (s.lock = .taken ∧ s.lock = .held) := by
          rintro ⟨htaken, hheld⟩
          cases htaken.symm.trans hheld
        have hno' : ¬ (s.lock.tschLocked = true ∧ s.lock.tschLocked = false) := by
          rintro ⟨hlock, hfree⟩
          cases hlock.symm.trans hfree
        rw [lockEvents, hf.lock, if_neg hno, if_neg hno']
      rw [hnone, List.append_nil]
      refine ⟨fun hlock => ?_, fun hheld hspared => ?_⟩
      · rw [hf.lock] at hlock
        exact hf.pc.trans (he.asleep hlock)
      · rw [hf.lock] at hheld
        exact hf.idle (by rw [hheld]; rfl) (he.idle hheld hspared)
  | request hfree => exact of_free hfree
  | take hreq hpc =>
      refine ⟨fun _ => hpc, fun hheld _ => ?_⟩
      simp only [TschState.setLocked, hreq] at hheld
      cases hheld
  | withdraw htaken =>
      have hheld : (s.setLockRequested false).lock = .held := by
        simp only [TschState.setLockRequested, htaken]
        rfl
      have hone : lockEvents s (s.setLockRequested false) = [.taken (decide (Idle s))] :=
        if_pos ⟨htaken, hheld⟩
      refine ⟨fun _ => he.asleep (by rw [htaken]; rfl), fun _ hspared => ?_⟩
      rw [hone, exposed_concat] at hspared
      have hidle : Idle s := by simpa [LockEvent.exposes] using hspared
      exact hidle
  | release => exact of_free rfl

end LockExcludes

/-! ## The exclusion, and where it ends -/

theorem lockExcludes_history {α : Type} {p : Prog TschState α} (hp : LockClient Foreign p)
    {s : TschState} (hflags : SlotFlags s) (hfree : s.lock.tschLocked = false)
    {h : List LockEvent} {c : Prog TschState α × TschState}
    (hr : History (LockIrq cfg) lockEvents (p, s) h c) :
    SlotFlags c.2 ∧ (Spared h → LockExcludes h c.2) := by
  refine History.of_wpg (C := flagsCtx cfg) (R := fun h s => Spared h → LockExcludes h s) ?_
    (fun _ _ => trivial) hflags (wpg_lockClient hp hflags) (fun _ => .of_free hfree) ?_ ?_ hr
  · rintro _ s s' ⟨hs⟩
    exact ⟨_, hs⟩
  · intro h s s' _ _ he hg hspared
    exact (he hspared.of_append).act hg
  · rintro h _ s s' _ _ he ⟨hs⟩ hspared
    exact (he hspared.of_append).irq hspared.interrupt hs

/-- **The lock excludes slot operations**, for every program that uses it through its
functions and every run in which, whenever `tsch_get_lock` returns `1`, `current_link` is
NULL or the node is not associated, or else no interrupt comes until the release.  Under
the lock no slot operation is in progress; and an interrupt with which the run goes on
starts none, and leaves `apt_table`, `trans_status` and the queues alone. -/
theorem lock_excludes_slots {α : Type} {p : Prog TschState α} (hp : LockClient Foreign p)
    {s : TschState} (hflags : SlotFlags s) (hfree : s.lock.tschLocked = false)
    {h : List LockEvent} {c : Prog TschState α × TschState}
    (hr : History (LockIrq cfg) lockEvents (p, s) h c) (hspared : Spared h)
    (hlock : c.2.lock.tschLocked = true) :
    c.2.slot.tschInSlotOperation = false ∧
      ∀ i s', slotStep cfg i c.2 = some s' → Spared (h ++ [.interrupt]) →
        ¬ SlotStarts c.2 ∧ s'.slot.tschInSlotOperation = false ∧
          s'.slot.aptTable = c.2.slot.aptTable ∧ s'.slot.transStatus = c.2.slot.transStatus ∧
          s'.queue = c.2.queue := by
  obtain ⟨hf, he⟩ := lockExcludes_history hp hflags hfree hr
  have he := he hspared
  have hidle : ∀ {t : TschState}, SlotFlags t → t.slot.pc = .asleep →
      t.slot.tschInSlotOperation = false := by
    intro t ht hpc
    by_contra hin
    exact ht.inSlot.mp (Bool.not_eq_false _ ▸ hin) hpc
  refine ⟨hidle hf (he.asleep hlock), fun i s' hs hnext => ?_⟩
  have hskip := he.skips hlock hnext.interrupt
  obtain ⟨hend, hpc⟩ := slotStep_locked hlock (he.asleep hlock) hskip hs
  exact ⟨hskip, hidle (hf.step hs) hpc, hend.aptTable, hend.transStatus, hend.queue⟩

def lockMove (cfg : Config) (i : SlotInput) (s : TschState) : Option (List LockEvent × TschState) :=
  (slotStep cfg i s).map fun s' => ([.interrupt], s')

theorem lockMove_irq (i : SlotInput) (s : TschState) (es : List LockEvent) (s' : TschState)
    (h : lockMove cfg i s = some (es, s')) : LockIrq cfg es s s' := by
  obtain ⟨hs, rfl⟩ := eq_of_map_events h
  exact .slot hs

/-- The scheduler takes the lock, no link selected, and the timer fires twice under it. -/
theorem lock_excludes_slots_scheduler :
    ∃ (h : List LockEvent) (c : Prog TschState Unit × TschState),
      History (LockIrq (smallBuild 8)) lockEvents
        (NodeCall.perform (smallBuild 8) 5 (.schedulerRound ⟨0, 0, 0⟩),
          (TschState.scheduled (smallBuild 8) 20).joined 0) h c ∧
      h = [.taken true, .interrupt, .interrupt] ∧ c.2.lock.tschLocked = true ∧
      c.2.slot.tschInSlotOperation = false := by
  obtain ⟨h, c, hr, hc⟩ := History.exists_historyOf (lockMove (smallBuild 8)) lockEvents
    (NodeCall.perform (smallBuild 8) 5 (.schedulerRound ⟨0, 0, 0⟩),
      (TschState.scheduled (smallBuild 8) 20).joined 0) lockMove_irq
    (List.replicate 6 none ++ [some (.quiet 0), some (.quiet 328)])
    (fun r => decide (r.1 = [.taken true, .interrupt, .interrupt] ∧ r.2.2.lock.tschLocked = true))
    (by decide +kernel)
  obtain ⟨rfl, hlock⟩ : h = [.taken true, .interrupt, .interrupt] ∧ c.2.lock.tschLocked = true :=
    of_decide_eq_true hc
  have hspared : Spared [.taken true, .interrupt, .interrupt] := rfl
  exact ⟨_, c, hr, rfl, hlock, (lock_excludes_slots (client_nodeCall 5 (.schedulerRound ⟨0, 0, 0⟩))
    ⟨by decide +kernel, by decide +kernel⟩ (by decide +kernel) hr hspared hlock).1⟩

/-- The link of the next slot is selected; `tsch_get_lock` returns `1`; the timer
fires and the slot starts, under the lock. -/
theorem slot_starts_under_lock :
    ∃ c : Prog TschState Bool × TschState,
      Run (fun s s' => ∃ i, slotStep (smallBuild 8) i s = some s') (fun _ _ => True)
        (tschGetLock, ((TschState.scheduled (smallBuild 8) 20)).joined 0) c ∧
      c.1 = .ret true ∧ c.2.lock.tschLocked = true ∧ c.2.slot.tschInSlotOperation = true := by
  obtain ⟨c, hrun, hc⟩ := exists_run (slotStep (smallBuild 8)) (fun _ _ => true)
    (fun s s' => ∃ i, slotStep (smallBuild 8) i s = some s') (fun _ _ => True)
    (fun i _ _ h => ⟨i, h⟩) (fun _ _ _ => trivial)
    (some (.quiet 0) :: List.replicate 6 none ++ [some (.quiet 328)])
    ((tschGetLock, ((TschState.scheduled (smallBuild 8) 20)).joined 0))
    (fun c => decide (c.1.result = some true ∧ c.2.lock.tschLocked = true ∧
      c.2.slot.tschInSlotOperation = true)) (by decide +kernel)
  obtain ⟨hret, hflags⟩ := of_decide_eq_true hc
  exact ⟨c, hrun, Prog.eq_ret_of_result hret, hflags⟩

end QlTsch
