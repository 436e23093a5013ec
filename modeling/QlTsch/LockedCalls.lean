/-
# `QlTsch.LockedCalls` — calls made while the lock is held

Every call that writes the schedule or the queues takes the lock or looks at it
first, so a caller that holds the lock already is refused.  A refused call reads
and writes nothing: `heldCtx` is the context in which the state is what the
interrupts alone have made of it, and each call is gone through in it once.

Two of the calls are not refused cleanly.  `tsch_schedule_remove_slotframe`
removes the links of the slotframe in a loop that runs until there are none left,
and does not look at the result of the removal: when the removal is refused, the
loop never ends (`exec_removeSlotframe_held`).
`tsch_schedule_remove_all_slotframes` calls it; with no slotframe left it reports
success without a look at the lock.  In all other cases the calls fail as they
should (`locked_calls_fail`).
-/
import QlTsch.Node
import QlTsch.SlotFrame

namespace QlTsch

open Interleave Interleave.Prog Relation

variable {cfg : Config}

/-! ## The context -/

/-- From `s₀` on only interrupts have changed the state.  With `live` every loop
has to end. -/
def heldCtx (irq : TschState → TschState → Prop) (s₀ : TschState) (live : Prop) : Ctx TschState where
  irq := irq
  cond _ _ := True
  inv := ReflTransGen irq s₀
  live := live
  stable _ _ h hi := h.tail hi

section
variable {irq : TschState → TschState → Prop} {s₀ : TschState} {live : Prop}

/-- The lock is held in `s₀`, and interrupts leave the part of the processes
alone. -/
structure Held (irq : TschState → TschState → Prop) (s₀ : TschState) : Prop where
  locked : s₀.lock.tschLocked = true
  owned : ∀ s s', irq s s' → s'.owned = s.owned

namespace Held

variable (H : Held irq s₀)
include H

theorem owned_eq {t : TschState} (h : ReflTransGen irq s₀ t) : t.owned = s₀.owned := by
  induction h with
  | refl => rfl
  | tail _ hi ih => exact (H.owned _ _ hi).trans ih

theorem isLocked {t : TschState} (h : ReflTransGen irq s₀ t) : tschIsLocked t = true := by
  rw [tschIsLocked, lock_of_owned (H.owned_eq h)]
  exact H.locked

omit H in
theorem read {β γ : Type} {g : TschState → β} {a : β} {k : β → Prog TschState γ}
    {Q : γ → TschState → Prop} {s : TschState} (hi : ReflTransGen irq s₀ s)
    (hg : ∀ t, ReflTransGen irq s₀ t → g t = a)
    (hk : ∀ t, ReflTransGen irq s₀ t → Wp (heldCtx irq s₀ live) (k a) Q t) :
    Wp (heldCtx irq s₀ live) (Prog.read g >>= k) Q s := by
  refine Wp.bind (Wp.read hi fun t _ hit => ?_)
  rw [hg t hit]
  exact hk t hit

theorem getLock {γ : Type} {k : Bool → Prog TschState γ} {Q : γ → TschState → Prop} {s : TschState}
    (hi : ReflTransGen irq s₀ s)
    (hk : ∀ t, ReflTransGen irq s₀ t → Wp (heldCtx irq s₀ live) (k false) Q t) :
    Wp (heldCtx irq s₀ live) (tschGetLock >>= k) Q s := by
  refine Wp.call (P := fun got _ => got = false) ?_ hi ?_
  · exact read hi (fun _ h => H.isLocked h) fun _ _ => rfl
  · rintro got t hit rfl
    exact hk t hit

theorem getNbr {t : TschState} (h : ReflTransGen irq s₀ t) (a : LinkAddr) :
    tschQueueGetNbr t a = none := by
  simp only [tschQueueGetNbr, H.isLocked h, if_true]

/-! ## The schedule -/

theorem addSlotframe (handle size : Nat) {s : TschState} (hi : ReflTransGen irq s₀ s) :
    Wp (heldCtx irq s₀ live) (tschScheduleAddSlotframe cfg handle size) (fun r _ => r = none) s := by
  simp only [tschScheduleAddSlotframe]
  split
  · rfl
  · refine read hi (a := none) (fun t ht => ?_) fun t ht => H.getLock ht fun _ _ => rfl
    simp only [tschScheduleGetSlotframeByHandle, H.isLocked ht, if_true]

theorem removeLink (sf l : Option Nat) {s : TschState} (hi : ReflTransGen irq s₀ s) :
    Wp (heldCtx irq s₀ live) (tschScheduleRemoveLink sf l) (fun r _ => r = false) s := by
  cases sf with
  | none => rfl
  | some b =>
      cases l with
      | none => rfl
      | some p =>
          refine Wp.bind (Wp.read hi fun t _ hit => ?_)
          split
          · exact H.getLock hit fun _ _ => rfl
          · rfl

theorem removeLinkByTimeslot (sf : Option Nat) (ts off : Nat) {s : TschState}
    (hi : ReflTransGen irq s₀ s) :
    Wp (heldCtx irq s₀ live) (tschScheduleRemoveLinkByTimeslot sf ts off) (fun r _ => r = false) s :=
  read hi (fun _ h => H.isLocked h) fun _ _ => rfl

theorem addLink (sf : Option Nat) (o : LinkOptions) (ty : LinkType) (a : Option LinkAddr)
    (ts off : Nat) (rm : Bool) {s : TschState} (hi : ReflTransGen irq s₀ s) :
    Wp (heldCtx irq s₀ live) (tschScheduleAddLink cfg sf o ty a ts off rm) (fun r _ => r = none)
      s := by
  cases sf with
  | none => rfl
  | some b =>
      refine Wp.bind (Wp.read hi fun t _ hit => ?_)
      split
      · rfl
      · cases rm with
        | false => exact H.getLock hit fun _ _ => rfl
        | true =>
            refine Wp.call (H.removeLinkByTimeslot (some b) ts off hit) hit fun _ u hiu _ => ?_
            exact H.getLock hiu fun _ _ => rfl

theorem removeSlotframe {fuel : Nat} (sf : Option Nat)
    (hlive : live → fuel ≠ 0 ∧ ∀ b, sf = some b → (s₀.slotframe b).linksList = []) {s : TschState}
    (hi : ReflTransGen irq s₀ s) :
    Wp (heldCtx irq s₀ live) (tschScheduleRemoveSlotframe fuel sf) (fun r _ => r = false) s := by
  cases sf with
  | none => rfl
  | some b =>
      have hlist : ∀ t, ReflTransGen irq s₀ t →
          (t.slotframe b).linksList = (s₀.slotframe b).linksList := by
        intro t ht
        have hs : t.sched = s₀.sched := sched_of_owned (H.owned_eq ht)
        show (t.sched.slotframes b).linksList = (s₀.sched.slotframes b).linksList
        rw [hs]
      have hloop : Wp (heldCtx irq s₀ live) (Prog.loop fuel
          (Prog.read fun s => (s.slotframe b).linksList.head?) (removeHead b)) (fun _ _ => True) s := by
        refine Wp.loop (J := fun _ _ => True) (fun n t hit _ => ?_) fuel (n := 0)
          (fun hl => Nat.pos_of_ne_zero (hlive hl).1) hi trivial
        refine Wp.read hit fun u _ hiu => ?_
        cases hhead : (u.slotframe b).linksList.head? with
        | none => trivial
        | some p =>
            refine ⟨fun hl => ?_, ?_⟩
            · rw [hlist u hiu, (hlive hl).2 b rfl] at hhead
              cases hhead
            · exact Wp.call (H.removeLink (some b) (some p) hiu) hiu fun _ _ _ _ => trivial
      exact Wp.call hloop hi fun _ t hit _ => H.getLock hit fun _ _ => rfl

theorem removeAllSlotframes {fuel n : Nat}
    (hlive : live → fuel ≠ 0 ∧ n ≠ 0 ∧ ∀ b, s₀.sched.slotframeList.head? = some b →
      (s₀.slotframe b).linksList = []) {s : TschState} (hi : ReflTransGen irq s₀ s) :
    Wp (heldCtx irq s₀ live) (tschScheduleRemoveAllSlotframes fuel n)
      (fun r _ => r = s₀.sched.slotframeList.isEmpty) s := by
  cases n with
  | zero =>
      refine Wp.call (P := fun _ _ => False) ?_ hi fun _ _ _ h => h.elim
      exact fun _ _ => ⟨fun hl => absurd rfl (hlive hl).2.1, fun hc => by cases hc⟩
  | succ n =>
      refine read hi (a := s₀.sched.slotframeList.head?) (fun t ht => ?_) fun t ht => ?_
      · have hs : t.sched = s₀.sched := sched_of_owned (H.owned_eq ht)
        rw [hs]
      · cases hhead : s₀.sched.slotframeList.head? with
        | none =>
            rw [List.head?_eq_none_iff.mp hhead]
            rfl
        | some b =>
            refine Wp.call (H.removeSlotframe (some b) (fun hl => ⟨(hlive hl).1, ?_⟩) ht) ht ?_
            · rintro c ⟨rfl⟩
              exact (hlive hl).2.2 b hhead
            · rintro r u hiu rfl
              cases hl : s₀.sched.slotframeList with
              | nil =>
                  rw [hl] at hhead
                  cases hhead
              | cons _ _ => rfl

/-! ## The queues -/

theorem addNbr (a : LinkAddr) {s : TschState} (hi : ReflTransGen irq s₀ s) :
    Wp (heldCtx irq s₀ live) (tschQueueAddNbr cfg a) (fun r _ => r = none) s :=
  read hi (fun _ h => H.getNbr h a) fun _ ht => H.getLock ht fun _ _ => rfl

theorem addPacket (a : LinkAddr) (m sent ptr : Nat) (qb : Bool) {s : TschState}
    (hi : ReflTransGen irq s₀ s) :
    Wp (heldCtx irq s₀ live) (tschQueueAddPacket cfg a m sent ptr qb) (fun r _ => r = none) s :=
  read hi (fun _ h => H.isLocked h) fun _ _ => rfl

theorem updateTimeSource (a : Option LinkAddr) {s : TschState} (hi : ReflTransGen irq s₀ s) :
    Wp (heldCtx irq s₀ live) (tschQueueUpdateTimeSource cfg a) (fun r _ => r = false) s :=
  read hi (fun _ h => H.isLocked h) fun _ _ => rfl

theorem skipped {p : Prog TschState Unit} {k : Bool → Prog TschState Unit}
    (hp : p = Prog.read tschIsLocked >>= k) (hk : k true = pure ()) {s : TschState}
    (hi : ReflTransGen irq s₀ s) : Wp (heldCtx irq s₀ live) p (fun _ _ => True) s := by
  rw [hp]
  refine read hi (fun _ h => H.isLocked h) fun _ _ => ?_
  rw [hk]
  trivial

end Held
end

/-! ## The call that does not end -/

theorem exec_tschGetLock_held {s : TschState} (h : s.lock.tschLocked = true) :
    tschGetLock.exec s = some (false, s) := by
  simp only [tschGetLock, exec_bind, exec_read, tschIsLocked, h, Option.bind_some, if_true]
  rfl

theorem exec_removeHead_held {s : TschState} (h : s.lock.tschLocked = true) (b p : Nat) :
    (removeHead b p).exec s = some ((), s) := by
  simp only [removeHead, tschScheduleRemoveLink, exec_bind, exec_read, Option.bind_some]
  split
  · simp only [exec_bind, exec_tschGetLock_held h, Option.bind_some, Bool.false_eq_true, if_false]
    rfl
  · rfl

/-- **`tsch_schedule_remove_slotframe` under the lock**: the loop over the links
never ends. -/
theorem exec_removeSlotframe_held {s : TschState} (h : s.lock.tschLocked = true) {b : Nat}
    (hlinks : (s.slotframe b).linksList ≠ []) (fuel : Nat) :
    (tschScheduleRemoveSlotframe fuel (some b)).exec s = none := by
  obtain ⟨p, hp⟩ : ∃ p, (s.slotframe b).linksList.head? = some p := by
    rw [← Option.ne_none_iff_exists']
    exact fun hnone => hlinks (List.head?_eq_none_iff.mp hnone)
  have hloop : ∀ n, (Prog.loop n (Prog.read fun s : TschState => (s.slotframe b).linksList.head?)
      (removeHead b)).exec s = none := by
    intro n
    induction n with
    | zero => rfl
    | succ n ih =>
        simp only [Prog.loop, exec_bind, exec_read, hp, Option.bind_some, exec_removeHead_held h]
        exact ih
  simp only [tschScheduleRemoveSlotframe, exec_bind, hloop, Option.bind_none]

/-! ## All calls -/

inductive HeldCall where
  | addSlotframe (handle size : Nat)
  | removeSlotframe (slotframe : Option Nat)
  | removeAllSlotframes
  | addLink (slotframe : Option Nat) (linkOptions : LinkOptions) (linkType : LinkType)
      (address : Option LinkAddr) (timeslot channelOffset : Nat) (doRemove : Bool)
  | removeLink (slotframe l : Option Nat)
  | removeLinkByTimeslot (slotframe : Option Nat) (timeslot channelOffset : Nat)
  | addNbr (addr : LinkAddr)
  | addPacket (addr : LinkAddr) (maxTransmissions sent ptr : Nat) (queuebufOk : Bool)
  | updateTimeSource (newAddr : Option LinkAddr)
  | freePacketsTo (addr : LinkAddr)
  | reset
  | freeUnusedNeighbors
deriving DecidableEq, Repr

namespace HeldCall

/-- The call, and whether it reports success, if it returns a value. -/
def perform (cfg : Config) (fuel : Nat) : HeldCall → Prog TschState (Option Bool)
  | .addSlotframe handle size => do
      let sf ← tschScheduleAddSlotframe cfg handle size
      pure (some sf.isSome)
  | .removeSlotframe sf => do
      let ok ← tschScheduleRemoveSlotframe fuel sf
      pure (some ok)
  | .removeAllSlotframes => do
      let ok ← tschScheduleRemoveAllSlotframes fuel fuel
      pure (some ok)
  | .addLink sf o ty a ts off rm => do
      let l ← tschScheduleAddLink cfg sf o ty a ts off rm
      pure (some l.isSome)
  | .removeLink sf l => do
      let ok ← tschScheduleRemoveLink sf l
      pure (some ok)
  | .removeLinkByTimeslot sf ts off => do
      let ok ← tschScheduleRemoveLinkByTimeslot sf ts off
      pure (some ok)
  | .addNbr a => do
      let n ← tschQueueAddNbr cfg a
      pure (some n.isSome)
  | .addPacket a m sent ptr qb => do
      let p ← tschQueueAddPacket cfg a m sent ptr qb
      pure (some p.isSome)
  | .updateTimeSource a => do
      let ok ← tschQueueUpdateTimeSource cfg a
      pure (some ok)
  | .freePacketsTo a => do
      tschQueueFreePacketsTo fuel a
      pure none
  | .reset => do
      tschQueueReset cfg fuel
      pure none
  | .freeUnusedNeighbors => do
      tschQueueFreeUnusedNeighbors fuel
      pure none

/-- The slotframe the call would remove has no links, and there is one if all are
to be removed. -/
def NothingToLoopOver (v : ScheduleVars) : HeldCall → Prop
  | .removeSlotframe sf => ∀ b, sf = some b → (v.slotframes b).linksList = []
  | .removeAllSlotframes => ∃ b, v.slotframeList.head? = some b ∧ (v.slotframes b).linksList = []
  | _ => True

end HeldCall

section
variable {irq : TschState → TschState → Prop} {s₀ : TschState} {live : Prop}

/-- No call writes anything, and it fails unless there is nothing left to remove. -/
theorem Held.perform (H : Held irq s₀) {fuel : Nat} (c : HeldCall)
    (hlive : live → fuel ≠ 0 ∧ c.NothingToLoopOver s₀.sched) {s : TschState}
    (hi : ReflTransGen irq s₀ s) :
    Wp (heldCtx irq s₀ live) (c.perform cfg fuel)
      (fun r _ => c.NothingToLoopOver s₀.sched → r ≠ some true) s := by
  -- a value that is a failure
  have hvalue : ∀ {α : Type} {p : Prog TschState α} {a : α} (ok : α → Bool),
      Wp (heldCtx irq s₀ live) p (fun r _ => r = a) s → ok a = false →
      Wp (heldCtx irq s₀ live) (p >>= fun r => pure (some (ok r)))
        (fun r _ => c.NothingToLoopOver s₀.sched → r ≠ some true) s := by
    intro α p a ok hp ha
    refine Wp.call hp hi ?_
    rintro r t _ rfl
    refine Wp.ret fun _ => ?_
    rw [ha]
    exact fun h => by cases h
  have hnone : ∀ {p : Prog TschState Unit}, Wp (heldCtx irq s₀ live) p (fun _ _ => True) s →
      Wp (heldCtx irq s₀ live) (p >>= fun _ => pure none)
        (fun r _ => c.NothingToLoopOver s₀.sched → r ≠ some true) s := fun hp =>
    Wp.call hp hi fun _ _ _ _ => Wp.ret fun _ h => by cases h
  cases c with
  | addSlotframe handle size => exact hvalue _ (H.addSlotframe handle size hi) rfl
  | removeSlotframe sf => exact hvalue id (H.removeSlotframe sf hlive hi) rfl
  | removeAllSlotframes =>
      refine Wp.call (H.removeAllSlotframes (fun hl => ?_) hi) hi ?_
      · obtain ⟨hfuel, b, hb, hnil⟩ := hlive hl
        refine ⟨hfuel, hfuel, ?_⟩
        intro c hc
        cases hb.symm.trans hc
        exact hnil
      · rintro r t _ rfl
        refine Wp.ret ?_
        rintro ⟨b, hb, -⟩
        cases hl : s₀.sched.slotframeList with
        | nil =>
            rw [hl] at hb
            cases hb
        | cons _ _ => exact fun h => by cases h
  | addLink sf o ty a ts off rm => exact hvalue _ (H.addLink sf o ty a ts off rm hi) rfl
  | removeLink sf l => exact hvalue id (H.removeLink sf l hi) rfl
  | removeLinkByTimeslot sf ts off =>
      exact hvalue id (H.removeLinkByTimeslot sf ts off hi) rfl
  | addNbr a => exact hvalue _ (H.addNbr a hi) rfl
  | addPacket a m sent ptr qb => exact hvalue _ (H.addPacket a m sent ptr qb hi) rfl
  | updateTimeSource a => exact hvalue id (H.updateTimeSource a hi) rfl
  | freePacketsTo a => exact hnone (H.skipped rfl rfl hi)
  | reset => exact hnone (H.skipped rfl rfl hi)
  | freeUnusedNeighbors => exact hnone (H.skipped rfl rfl hi)

end

/-- Where the condition does not hold, no amount of fuel makes the call fail as it
should. -/
theorem not_fails_held {s : TschState} (hheld : s.lock.tschLocked = true) {c : HeldCall}
    (hc : ¬ c.NothingToLoopOver s.sched) {fuel : Nat} {r : Option Bool} {t : TschState}
    (hexec : (c.perform cfg fuel).exec s = some (r, t)) : r = some true := by
  cases c with
  | removeSlotframe sf =>
      simp only [HeldCall.NothingToLoopOver] at hc
      push Not at hc
      obtain ⟨b, rfl, hlinks⟩ := hc
      simp only [HeldCall.perform, exec_bind, exec_removeSlotframe_held hheld hlinks,
        Option.bind_none] at hexec
      cases hexec
  | removeAllSlotframes =>
      cases fuel with
      | zero => cases hexec
      | succ n =>
          simp only [HeldCall.perform, tschScheduleRemoveAllSlotframes, exec_bind, exec_read,
            Option.bind_some] at hexec
          cases hhead : s.sched.slotframeList.head? with
          | none =>
              rw [hhead] at hexec
              cases hexec
              rfl
          | some b =>
              have hlinks : (s.slotframe b).linksList ≠ [] := fun hnil => hc ⟨b, hhead, hnil⟩
              simp only [hhead, exec_bind, exec_removeSlotframe_held hheld hlinks,
                Option.bind_none] at hexec
              cases hexec
  | addSlotframe _ _ | addLink _ _ _ _ _ _ _ | removeLink _ _ | removeLinkByTimeslot _ _ _
  | addNbr _ | addPacket _ _ _ _ _ | updateTimeSource _ | freePacketsTo _ | reset
  | freeUnusedNeighbors => exact absurd trivial hc

/-- **Calls under the lock.**  A call made while the lock is held returns, reports
failure if it returns a value, and leaves the state as it was, if and only if the
slotframe it would remove has no links (and there is one, if all are to be
removed).  Under slot interrupts as well no call writes anything: the state is at
every moment what the interrupts alone have made of it. -/
theorem locked_calls_fail (c : HeldCall) {s : TschState} (hheld : s.lock.tschLocked = true) :
    ((∃ fuel r, (c.perform cfg fuel).exec s = some (r, s) ∧ r ≠ some true) ↔
      c.NothingToLoopOver s.sched) ∧
    ∀ fuel c', Run (fun s s' => ∃ i, slotStep cfg i s = some s') (fun _ _ => True)
      (c.perform cfg fuel, s) c' →
      ReflTransGen (fun s s' => ∃ i, slotStep cfg i s = some s') s c'.2 ∧
        (c.NothingToLoopOver s.sched → ∀ r, c'.1 = .ret r → r ≠ some true) := by
  refine ⟨⟨?_, fun hc => ?_⟩, fun fuel c' hr => ?_⟩
  · rintro ⟨fuel, r, hexec, hfail⟩
    by_contra hc
    exact hfail (not_fails_held hheld hc hexec)
  · -- no interrupts at all
    have H : Held (fun _ _ => False) s := ⟨hheld, fun _ _ h => h.elim⟩
    have hwp : Wp (heldCtx (fun _ _ => False) s True) (c.perform cfg 1)
        (fun r _ => c.NothingToLoopOver s.sched → r ≠ some true) s :=
      H.perform c (fun _ => ⟨one_ne_zero, hc⟩) .refl
    obtain ⟨r, t, hexec, hfail⟩ := Wp.exec trivial (fun _ _ => trivial) hwp
    have hrun := Wp.run (C := heldCtx (fun _ _ => False) s True) .refl hwp (Run.of_exec hexec)
    have hsame : t = s := by
      rcases ReflTransGen.cases_tail hrun.1 with heq | ⟨_, _, hfalse⟩
      · exact heq.symm ▸ rfl
      · exact hfalse.elim
    exact ⟨1, r, hsame ▸ hexec, hfail hc⟩
  · have H : Held (fun s s' => ∃ i, slotStep cfg i s = some s') s := by
      refine ⟨hheld, ?_⟩
      rintro a b ⟨i, hi⟩
      exact slotStep_owned hi
    obtain ⟨hinv, t, hit, -, hwp⟩ := Wp.run
      (C := heldCtx (fun s s' => ∃ i, slotStep cfg i s = some s') s False) .refl
      (H.perform c (fun hl => hl.elim) .refl) hr
    refine ⟨hinv, ?_⟩
    intro hc r hret
    rw [hret] at hwp
    exact hwp hc

/-- A slotframe with one link, and another without; then the lock is taken. -/
def takenOverLink : Prog TschState Bool := do
  let sf ← tschScheduleAddSlotframe (smallBuild 8) 0 7
  let _ ← tschScheduleAddSlotframe (smallBuild 8) 1 7
  let _ ← tschScheduleAddLink (smallBuild 8) sf txShared .normal (some 5) 1 0 false
  tschGetLock

/-- The slotframe without links is not removed, and the call says so. -/
theorem locked_calls_fail_empty :
    ∃ s, takenOverLink.exec (TschState.boot (smallBuild 8)) = some (true, s) ∧
      ∃ fuel r, ((HeldCall.removeSlotframe (some 1)).perform (smallBuild 8) fuel).exec s = some (r, s) ∧
        r ≠ some true := by
  obtain ⟨x, hx⟩ : ∃ x, takenOverLink.exec (TschState.boot (smallBuild 8)) = some x :=
    Option.isSome_iff_exists.mp (by decide +kernel)
  have hstate : (takenOverLink.exec (TschState.boot (smallBuild 8))).any (fun x =>
      decide (x.1 = true ∧ x.2.lock.tschLocked = true ∧ (x.2.slotframe 1).linksList = [])) = true := by
    decide +kernel
  rw [hx, Option.any_some, decide_eq_true_eq] at hstate
  obtain ⟨hgot, hheld, hnil⟩ := hstate
  refine ⟨x.2, hx.trans (congrArg some (Prod.ext hgot rfl)), ?_⟩
  have hnothing : (HeldCall.removeSlotframe (some 1)).NothingToLoopOver x.2.sched := by
    rintro b ⟨rfl⟩
    exact hnil
  exact (locked_calls_fail (.removeSlotframe (some 1)) hheld).1.mpr hnothing

/-- The slotframe with the link: the call never returns. -/
theorem remove_under_lock_hangs :
    ∃ s, takenOverLink.exec (TschState.boot (smallBuild 8)) = some (true, s) ∧
      s.lock.tschLocked = true ∧
      ∀ fuel, ((HeldCall.removeSlotframe (some 0)).perform (smallBuild 8) fuel).exec s = none := by
  obtain ⟨x, hx⟩ : ∃ x, takenOverLink.exec (TschState.boot (smallBuild 8)) = some x :=
    Option.isSome_iff_exists.mp (by decide +kernel)
  have hstate : (takenOverLink.exec (TschState.boot (smallBuild 8))).any (fun x =>
      decide (x.1 = true ∧ x.2.lock.tschLocked = true ∧ (x.2.slotframe 0).linksList ≠ [])) = true := by
    decide +kernel
  rw [hx, Option.any_some, decide_eq_true_eq] at hstate
  obtain ⟨hgot, hheld, hlinks⟩ := hstate
  refine ⟨x.2, hx.trans (congrArg some (Prod.ext hgot rfl)), hheld, ?_⟩
  intro fuel
  simp only [HeldCall.perform, exec_bind, exec_removeSlotframe_held hheld hlinks, Option.bind_none]

end QlTsch
