/-
# `QlTsch.LockRules` — taking and releasing the lock under interrupts

`tsch_get_lock` raises its request, waits for the slot operation in progress and
takes the lock: from the request on no slot starts (`asleep_of_requested`), so
when the lock is taken none is in progress.  `LockCtx` is what a proof context
has to provide for this argument, and `wp_tschGetLock_free` is the resulting
specification: the call succeeds, and what only processes write is as before.

What happens once the request is withdrawn is not its business; see
`QlTsch.LockExclusion`.
-/
import QlTsch.ProcessFrame
import QlTsch.SlotFrame

namespace QlTsch

open Interleave Interleave.Prog

variable {cfg : Config}

/-! ## Skipped slots -/

/-- Between slots, an interrupt that starts no slot operation goes straight to
the end of the slot, if the node is still associated. -/
theorem slotStep_skipped {i : SlotInput} {s s' : TschState} (hpc : s.slot.pc = .asleep)
    (hskip : ¬ SlotStarts s) (hs : slotStep cfg i s = some s') :
    s' = s.disarm ∨ endOfSlot cfg i s.disarm = some s' := by
  simp only [slotStep, hpc] at hs
  split at hs
  · simp only [wakeUp] at hs
    split at hs
    · rename_i ha
      split at hs
      · exact .inr hs
      · rename_i l hl
        split at hs
        · exact .inr hs
        · rename_i hr
          exact absurd ⟨hpc, ha, by rw [hl]; rfl, Bool.eq_false_iff.mpr hr⟩ hskip
    · cases hs
      exact .inl rfl
  · cases hs

/-- While a request is pending the slot operation stays between slots. -/
theorem asleep_of_requested {i : SlotInput} {s s' : TschState} (hpc : s.slot.pc = .asleep)
    (hreq : s.lock.tschLockRequested = true) (hs : slotStep cfg i s = some s') :
    s'.slot.pc = .asleep := by
  rcases slotStep_skipped hpc (fun h => absurd (h.notRequested.symm.trans hreq) (by decide)) hs
    with rfl | hend
  · exact hpc
  · exact endOfSlot_asleep hend

theorem SlotFlags.schedAct {s s' : TschState} (h : SlotFlags s) (hg : SchedAct s s') :
    SlotFlags s' := by
  have hpc : s'.slot.pc = s.slot.pc := by rcases hg.slot with hs | hs <;> rw [hs]
  have hin : s'.slot.tschInSlotOperation = s.slot.tschInSlotOperation := by
    rcases hg.slot with hs | hs <;> rw [hs]
  refine ⟨?_, ?_⟩
  · rw [hin, hpc]
    exact h.inSlot
  · rw [hpc, hg.lock]
    exact h.tx

/-! ## The lock in a proof context -/

/-- What a context provides for the lock. -/
structure LockCtx (cfg : Config) (C : Ctx TschState) : Prop where
  irq : ∀ {s s'}, C.irq s s' → ∃ i, slotStep cfg i s = some s'
  flags : ∀ {s}, C.inv s → SlotFlags s
  /-- a context that asks for termination has no slot in progress -/
  live : ∀ {s}, C.live → C.inv s → s.slot.tschInSlotOperation = false
  request : ∀ {s}, C.inv s → s.lock.tschLocked = false → C.inv (s.setLockRequested true)
  lock : ∀ {s}, C.inv s → s.lock.tschLocked = false → s.lock.tschLockRequested = true →
    s.slot.pc = .asleep → C.inv (s.setLocked true)
  unrequest : ∀ {s}, C.inv s → s.lock.tschLocked = true → C.inv (s.setLockRequested false)

namespace LockCtx

variable {C : Ctx TschState} (L : LockCtx cfg C)
include L

/-- What only processes write stays through any number of interrupts. -/
theorem owned_rely {s s' : TschState} (hi : C.inv s) (h : C.rely s s') : s'.owned = s.owned :=
  C.rely_lift (R := fun a b => b.owned = a.owned) (fun _ => rfl) (fun h1 h2 => h2.trans h1)
    (fun _ hs => (L.irq hs).elim fun _ hi => slotStep_owned hi) hi h

theorem asleep_rely {s s' : TschState} (hi : C.inv s) (hpc : s.slot.pc = .asleep)
    (hreq : s.lock.tschLockRequested = true) (h : C.rely s s') : s'.slot.pc = .asleep := by
  have hR := C.rely_lift
    (R := fun a b => a.slot.pc = .asleep ∧ a.lock.tschLockRequested = true →
      b.slot.pc = .asleep ∧ b.lock.tschLockRequested = true)
    (fun _ h => h) (fun h1 h2 h => h2 (h1 h))
    (fun _ hs ⟨hp, hq⟩ => (L.irq hs).elim fun i hstep =>
      ⟨asleep_of_requested hp hq hstep, lock_of_owned (slotStep_owned hstep) ▸ hq⟩) hi h
  exact (hR ⟨hpc, hreq⟩).1

end LockCtx

variable {C : Ctx TschState}

/-- **`tsch_get_lock`, the lock free**: it returns `1` and holds the lock. -/
theorem wp_tschGetLock_free (L : LockCtx cfg C) {s : TschState} (hi : C.inv s)
    (hfree : s.lock.tschLocked = false) :
    Wp C tschGetLock (fun got t => got = true ∧ t.owned = { s.owned with lock := ⟨true, false⟩ })
      s := by
  refine Wp.bind (Wp.read hi fun t ht hit => ?_)
  have hto : t.owned = s.owned := L.owned_rely hi ht
  have htfree : t.lock.tschLocked = false := by rw [lock_of_owned hto]; exact hfree
  rw [tschIsLocked, htfree]
  -- raise the request
  refine Wp.bind (Wp.modify hit fun u hu hiu _ => ?_)
  have huo : u.owned = s.owned := (L.owned_rely hit hu).trans hto
  have hufree : u.lock.tschLocked = false := by rw [lock_of_owned huo]; exact hfree
  refine ⟨L.request hiu hufree, ?_⟩
  have hiu' := L.request hiu hufree
  -- wait for the slot in progress
  refine Wp.bind (Wp.waitFor hiu' fun v hv hiv => ⟨fun hl => by simp [L.live hl hiv], fun hc => ?_⟩)
  have hvo : v.owned = (u.setLockRequested true).owned := L.owned_rely hiu' hv
  have hvreq : v.lock.tschLockRequested = true := by rw [lock_of_owned hvo]; rfl
  have hvpc : v.slot.pc = .asleep := by
    by_contra hne
    rw [(L.flags hiv).inSlot.mpr hne] at hc
    cases hc
  -- look again, and take the lock
  refine Wp.bind (Wp.read hiv fun w hw hiw => ?_)
  have hwo : w.owned = (u.setLockRequested true).owned := (L.owned_rely hiv hw).trans hvo
  have hwfree : w.lock.tschLocked = false := by rw [lock_of_owned hwo]; exact hufree
  have hwreq : w.lock.tschLockRequested = true := by rw [lock_of_owned hwo]; rfl
  have hwpc := L.asleep_rely hiv hvpc hvreq hw
  rw [tschIsLocked, hwfree]
  refine Wp.bind (Wp.modify hiw fun x hx hix _ => ?_)
  have hxo : x.owned = (u.setLockRequested true).owned := (L.owned_rely hiw hx).trans hwo
  have hxfree : x.lock.tschLocked = false := by rw [lock_of_owned hxo]; exact hufree
  have hxreq : x.lock.tschLockRequested = true := by rw [lock_of_owned hxo]; rfl
  have hix' := L.lock hix hxfree hxreq (L.asleep_rely hiw hwpc hwreq hx)
  refine ⟨hix', ?_⟩
  -- withdraw the request
  refine Wp.bind (Wp.modify hix' fun y hy hiy _ => ?_)
  have hyo : y.owned = (x.setLocked true).owned := L.owned_rely hix' hy
  have hylock : y.lock.tschLocked = true := by rw [lock_of_owned hyo]; rfl
  refine ⟨L.unrequest hiy hylock, rfl, ?_⟩
  have hys : { y.owned with lock := ⟨true, false⟩ } = { s.owned with lock := ⟨true, false⟩ } := by
    rw [hyo]
    have hxs : { x.owned with lock := ⟨true, false⟩ } = { s.owned with lock := ⟨true, false⟩ } := by
      rw [hxo]
      exact congrArg (fun o : Owned => { o with lock := ⟨true, false⟩ }) huo
    exact hxs
  rw [← hys]
  have hfinal : (y.setLockRequested false).lock = ⟨true, false⟩ := by
    simp only [TschState.setLockRequested, hylock]
  exact Owned.ext hfinal rfl rfl rfl rfl rfl rfl rfl rfl rfl rfl rfl rfl rfl

end QlTsch
