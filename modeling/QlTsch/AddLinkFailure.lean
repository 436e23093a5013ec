/-
# `QlTsch.AddLinkFailure` — a link is replaced, or nothing happens

With `do_remove`, `tsch_schedule_add_link` removes the link at the place of the new
one first, and only then takes the lock a second time and allocates a block.  Were one
of the two to fail, the old link would be lost.  Neither does: the lock is free, or the
removal has not happened either, and a removal leaves a free block.  The last is
the accounting of the pool: a block that is in use is a block of the pool, so after
the removal of one not all of them are in use (`exists_block_of_removed`).

So a call that returns NULL has found nothing to remove, and of its actions none writes
anything but the lock (`failed_add_link`).
-/
import QlTsch.Lib.Guarantee
import QlTsch.ScheduleRepresentation

namespace QlTsch

open Interleave Interleave.Prog ScheduleVars

variable {cfg : Config}

/-! ## The specification -/

/-- No call is running. -/
structure OutsideCalls (s : TschState) : Prop where
  flags : SlotFlags s
  lock : s.lock = .free
  flux : s.ghost.linkInFlux = none

/-- A schedule that calls make, from `tsch_schedule_init` on, under any slot
interrupts and with any queues. -/
def ScheduleVars.Reachable (cfg : Config) (x : ScheduleVars) : Prop :=
  ∃ fuel ops s t, OutsideCalls s ∧
    Run (fun s s' => ∃ i, slotStep cfg i s = some s') (fun _ _ => True)
      (scheduleHistory cfg fuel ops, s) (.ret (), t) ∧ t.sched = x

/-- Nothing but the lock is written. -/
def LocksOnly (s s' : TschState) : Prop := s' = { s with lock := s'.lock }

theorem LocksOnly.refl (s : TschState) : LocksOnly s s := rfl

theorem LocksOnly.trans {a b c : TschState} (h : LocksOnly a b) (h' : LocksOnly b c) :
    LocksOnly a c := by
  rw [LocksOnly, h', h]

theorem LocksOnly.view {s s' : TschState} (h : LocksOnly s s') : s'.view = s.view := by
  rw [h]
  rfl

theorem LocksOnly.getLock : tschGetLock.Guar LocksOnly :=
  (LockClient.tschGetLock (G := LocksOnly)).guar (fun _ _ h => h) .refl (fun _ _ => rfl) fun _ _ => rfl

/-! ## A removal leaves a free block -/

section
variable {v : View} {b p : Nat}

theorem View.removeLink_handle (q c : Nat) :
    ((v.removeLink b q).2.slotframe c).handle = (v.slotframe c).handle := by
  simp only [View.removeLink]
  split
  · have hsched := uncount_sched (v := v.unlink b q) (v.link q).linkOptions (v.link q).addr
    have hslotframe := congrArg (fun x : ScheduleVars => (x.slotframes c).handle) hsched
    exact hslotframe.trans (View.unlink_handle c)
  · rfl

theorem View.linkMemb_removeLink : (v.removeLink b p).2.sched.linkMemb ⊆ v.sched.linkMemb := by
  simp only [View.removeLink]
  split
  · rw [View.uncount_sched]
    exact Finset.erase_subset _ _
  · exact Finset.Subset.refl _

theorem View.notMem_linkMemb_removeLink (hh : (v.link p).slotframeHandle = (v.slotframe b).handle) :
    p ∉ (v.removeLink b p).2.sched.linkMemb := by
  simp only [View.removeLink, if_pos hh]
  rw [View.uncount_sched]
  exact Finset.notMem_erase p _

theorem View.linkMemb_removeLinksAt (b ts off : Nat) : ∀ (ls : List Nat) (v : View),
    (v.removeLinksAt b ts off ls).2.sched.linkMemb ⊆ v.sched.linkMemb
  | [], v => Finset.Subset.refl _
  | p :: ls, v => by
      refine (View.linkMemb_removeLinksAt b ts off ls _).trans ?_
      simp only [View.removeLinkIfAt]
      split
      · exact View.linkMemb_removeLink
      · exact Finset.Subset.refl _

theorem View.notMem_linkMemb_removeLinksAt (b ts off : Nat) : ∀ (ls : List Nat) {v : View} {p : Nat},
    (∀ q ∈ ls, (v.link q).slotframeHandle = (v.slotframe b).handle) → p ∈ ls →
    (v.link p).timeslot = ts ∧ (v.link p).channelOffset = off →
    p ∉ (v.removeLinksAt b ts off ls).2.sched.linkMemb
  | [], v, p, _, hp, _ => absurd hp List.not_mem_nil
  | q :: ls, v, p, hh, hp, hat => by
      simp only [View.removeLinksAt]
      rcases List.mem_cons.mp hp with rfl | hp
      · simp only [View.removeLinkIfAt, if_pos hat]
        intro hmem
        exact View.notMem_linkMemb_removeLink (hh p List.mem_cons_self)
          (View.linkMemb_removeLinksAt b ts off ls _ hmem)
      · have hlink : ∀ r, (v.removeLinkIfAt b ts off q).2.link r = v.link r := by
          intro r
          simp only [View.removeLinkIfAt]
          split
          · exact View.removeLink_link r
          · rfl
        have hhandle : ((v.removeLinkIfAt b ts off q).2.slotframe b).handle =
            (v.slotframe b).handle := by
          simp only [View.removeLinkIfAt]
          split
          · exact View.removeLink_handle q b
          · rfl
        refine View.notMem_linkMemb_removeLinksAt b ts off ls ?_ hp ?_
        · intro r hr
          rw [hlink, hhandle]
          exact hh r (List.mem_cons_of_mem q hr)
        · rw [hlink]
          exact hat

/-- **The accounting of the pool**: where a link was removed there is a block. -/
theorem exists_block_of_removed {ts off : Nat} (h : RepInv cfg v) (hb : b ∈ v.sched.slotframeList)
    (hp : p ∈ (v.slotframe b).linksList)
    (hat : (v.link p).timeslot = ts ∧ (v.link p).channelOffset = off) :
    cfg.memb.pick (v.removeLinkByTimeslot b ts off).2.sched.linkMemb cfg.tschScheduleMaxLinks ≠
      none := by
  intro hnone
  have hblock : p < cfg.tschScheduleMaxLinks :=
    h.linkBlock p ((h.represented.linksInUse p).mpr (mem_allLinks.mpr ⟨b, hb, hp⟩))
  exact View.notMem_linkMemb_removeLinksAt b ts off _ (h.represented.slotframeHandle b hb) hp hat
    (cfg.memb.pick_none hnone p hblock)

theorem addLink_eq_none {o : LinkOptions} {ty : LinkType} {a : Option LinkAddr} {ts off : Nat}
    {rm : Bool} (h : RepInv cfg v) (hb : b ∈ v.sched.slotframeList)
    (hnone : (v.addLink cfg b o ty a ts off rm).1 = none) :
    (ts : Int) > (v.slotframe b).size - 1 ∨
      cfg.memb.pick v.sched.linkMemb cfg.tschScheduleMaxLinks = none ∧
        (rm = true → ∀ p ∈ (v.slotframe b).linksList,
          ¬ ((v.link p).timeslot = ts ∧ (v.link p).channelOffset = off)) := by
  by_cases hbad : (ts : Int) > (v.slotframe b).size - 1
  · exact .inl hbad
  · right
    simp only [View.addLink, if_neg hbad, View.installLink] at hnone
    cases rm with
    | false =>
        cases hpick : cfg.memb.pick v.sched.linkMemb cfg.tschScheduleMaxLinks with
        | none => exact ⟨rfl, fun hrm => by cases hrm⟩
        | some p =>
            simp only [Bool.false_eq_true, if_false, hpick] at hnone
            cases hnone
    | true =>
        simp only [if_true] at hnone
        have hno : ∀ p ∈ (v.slotframe b).linksList,
            ¬ ((v.link p).timeslot = ts ∧ (v.link p).channelOffset = off) := by
          intro p hp hat
          refine exists_block_of_removed h hb hp hat ?_
          cases hpick : cfg.memb.pick (v.removeLinkByTimeslot b ts off).2.sched.linkMemb
              cfg.tschScheduleMaxLinks with
          | none => rfl
          | some q =>
              simp only [hpick] at hnone
              cases hnone
        have hsame : (v.removeLinkByTimeslot b ts off).2 = v := (View.removeLinksAt_none b hno).1
        rw [hsame] at hnone
        refine ⟨?_, fun _ => hno⟩
        cases hpick : cfg.memb.pick v.sched.linkMemb cfg.tschScheduleMaxLinks with
        | none => rfl
        | some q =>
            simp only [hpick] at hnone
            cases hnone

end

/-! ## The call -/

/-- The view is `v`, and with `locked` the lock is held. -/
def frozenCtx (cfg : Config) (v : View) (locked : Prop) : Ctx TschState where
  irq s s' := ∃ i, slotStep cfg i s = some s'
  cond _ _ := True
  inv s := s.view = v ∧ (locked → s.lock.tschLocked = true)
  live := False
  stable _ _ h := fun ⟨_, hi⟩ => ⟨(view_of_owned (slotStep_owned hi)).trans h.1, fun hl => by
    rw [lock_of_owned (slotStep_owned hi)]
    exact h.2 hl⟩

section
variable {v : View} {locked : Prop} {s : TschState} {α β : Type}

theorem wpg_readView {Q : α → TschState → Prop} {g : TschState → β} {k : β → Prog TschState α}
    {x : β} (hi : (frozenCtx cfg v locked).inv s) (hg : ∀ t : TschState, t.view = v → g t = x)
    (hk : ∀ t, (frozenCtx cfg v locked).inv t → Wpg (frozenCtx cfg v locked) LocksOnly (k x) Q t) :
    Wpg (frozenCtx cfg v locked) LocksOnly (Prog.read g >>= k) Q s := by
  refine Wpg.bind (Wpg.read .refl hi fun t _ hit => ?_)
  rw [hg t hit.1]
  exact hk t hit

theorem wpg_addLink_held (hl : locked) (sf : Option Nat) (o : LinkOptions) (ty : LinkType)
    (a : Option LinkAddr) (ts off : Nat) (rm : Bool) (hi : (frozenCtx cfg v locked).inv s) :
    Wpg (frozenCtx cfg v locked) LocksOnly (tschScheduleAddLink cfg sf o ty a ts off rm)
      (fun r _ => r = none) s := by
  have hget : ∀ {t : TschState} {γ : Type} {k : Bool → Prog TschState γ} {Q : γ → TschState → Prop},
      (frozenCtx cfg v locked).inv t →
      (∀ u, (frozenCtx cfg v locked).inv u → Wpg (frozenCtx cfg v locked) LocksOnly (k false) Q u) →
      Wpg (frozenCtx cfg v locked) LocksOnly (tschGetLock >>= k) Q t := by
    intro t γ k Q hit hk
    rw [tschGetLock_bind]
    intro u hu _
    have hiu := Ctx.inv_rely _ hit hu
    have hlocked : tschIsLocked u = true := hiu.2 hl
    simp only [hlocked, if_true]
    exact ⟨hiu, .refl u, hk u hiu⟩
  cases sf with
  | none => rfl
  | some b =>
      refine wpg_readView hi (x := decide ((ts : Int) > (v.slotframe b).size - 1))
        (fun t ht => by rw [← ht]; rfl) fun t hit => ?_
      split
      · rfl
      · cases rm with
        | false => exact hget hit fun _ _ => rfl
        | true =>
            refine Wpg.bind (Wpg.bind (Wpg.read .refl hit fun u _ hiu => ?_))
            rw [tschIsLocked, hiu.2 hl]
            exact hget hiu fun _ _ => rfl

theorem wpg_removeLinksAt_none (b ts off : Nat) : ∀ (ls : List Nat) {s : TschState},
    (∀ p ∈ ls, ¬ ((v.link p).timeslot = ts ∧ (v.link p).channelOffset = off)) →
    (frozenCtx cfg v locked).inv s →
    Wpg (frozenCtx cfg v locked) LocksOnly (removeLinksAt b ts off ls) (fun _ _ => True) s
  | [], _, _, _ => trivial
  | p :: ls, s, hno, hi => by
      have hp := hno p List.mem_cons_self
      refine Wpg.call (P := fun _ _ => True) ?_ hi fun _ t hit _ =>
        Wpg.call (wpg_removeLinksAt_none b ts off ls (fun q hq => hno q (List.mem_cons_of_mem p hq))
          hit) hit fun _ _ _ _ => trivial
      refine wpg_readView hi (x := false) (fun t ht => ?_) fun _ _ => trivial
      rw [← ht] at hp
      have hp : ¬ ((t.link p).timeslot = ts ∧ (t.link p).channelOffset = off) := hp
      simpa using hp

theorem wpg_addLink_full (hfree : ¬ locked) {b ts off : Nat} {rm : Bool} (o : LinkOptions) (ty : LinkType)
    (a : Option LinkAddr) (hfail : (ts : Int) > (v.slotframe b).size - 1 ∨
      cfg.memb.pick v.sched.linkMemb cfg.tschScheduleMaxLinks = none ∧
        (rm = true → ∀ p ∈ (v.slotframe b).linksList,
          ¬ ((v.link p).timeslot = ts ∧ (v.link p).channelOffset = off)))
    (hi : (frozenCtx cfg v locked).inv s) :
    Wpg (frozenCtx cfg v locked) LocksOnly (tschScheduleAddLink cfg (some b) o ty a ts off rm)
      (fun r _ => r = none) s := by
  refine wpg_readView hi (x := decide ((ts : Int) > (v.slotframe b).size - 1))
    (fun t ht => by rw [← ht]; rfl) fun t hit => ?_
  rcases hfail with hbad | ⟨hpick, hno⟩
  · rw [decide_eq_true hbad]
    exact rfl
  · split
    · rfl
    · have hinstall : ∀ {u : TschState}, (frozenCtx cfg v locked).inv u →
          Wpg (frozenCtx cfg v locked) LocksOnly
            (installLink cfg b o ty (a.getD cfg.linkaddrNull) ts off) (fun r _ => r = none) u := by
        intro u hiu
        have hinv : ∀ {w w' : TschState}, (frozenCtx cfg v locked).inv w → LocksOnly w w' →
            (frozenCtx cfg v locked).inv w' := fun h hg =>
          ⟨hg.view.trans h.1, fun hl => absurd hl hfree⟩
        have hget : Wp (frozenCtx cfg v locked) tschGetLock (fun _ _ => True) u :=
          Wp.of_guar_inv id (fun _ _ h hg _ => hinv h hg) LocksOnly.getLock hiu
        refine Wpg.call (Wpg.of_guar hget LocksOnly.getLock) hiu ?_
        intro got w hiw _
        cases got with
        | false => rfl
        | true =>
            refine Wpg.bind (Wpg.update hiw fun x _ hix => ?_)
            have hmemb : x.sched.linkMemb = v.sched.linkMemb :=
              congrArg (fun w : View => w.sched.linkMemb) hix.1
            simp only [TschState.allocLink, hmemb, hpick]
            refine ⟨hix, .refl x, Wpg.bind (Wpg.modify hix fun y _ hiy => ?_)⟩
            have hrelease : LocksOnly y (y.setLocked false) := rfl
            exact ⟨hinv hiy hrelease, hrelease, rfl⟩
      cases rm with
      | false => exact hinstall hit
      | true =>
          refine Wpg.call (P := fun _ _ => True) ?_ hit fun _ u hiu _ => hinstall hiu
          refine Wpg.bind (Wpg.read .refl hit fun u _ hiu => ?_)
          split
          · trivial
          · refine wpg_readView hiu (x := (v.slotframe b).linksList) (fun w hw => by rw [← hw]; rfl)
              fun w hiw => ?_
            exact wpg_removeLinksAt_none b ts off _ (hno rfl) hiw

end

/-! ## A failed call -/

theorem ScheduleVars.Reachable.repInv {s : TschState} (h : s.sched.Reachable cfg) :
    RepInv cfg s.view := by
  obtain ⟨fuel, ops, s₀, t, hs₀, hr, hsched⟩ := h
  have hi : (qlCtx cfg False).inv s₀ := ⟨hs₀.flags, False.elim⟩
  have hwp : Wp (qlCtx cfg False) (scheduleHistory cfg fuel ops) (fun _ t => RepReady cfg t) s₀ :=
    wp_scheduleHistory (fun hl => hl.elim) (fun hl => hl.elim) ops hi ⟨rfl, hs₀.lock, hs₀.flux⟩
  have S : SchedCtx cfg (qlCtx cfg False) (fun _ => True) := schedCtx_ql _
  obtain ⟨-, u, hiu, hrel, v, hv, hat⟩ :=
    Wp.run hi hwp (hr.mono (fun _ _ hi => ⟨id, hi⟩) fun _ _ h => h)
  have hview : t.view = v := (S.at_rely hiu hat hrel).view
  refine hv.congr ?_
  rw [← hview]
  exact hsched.symm

/-- **A failed `tsch_schedule_add_link` changes nothing.**  With the lock held by the
caller, or with a free lock in any reachable schedule: if the call returns NULL, none of
its actions has written anything but the lock, under any slot interrupts; so alone it
leaves everything else as it was, and under interrupts the schedule, its pools and the
counters. -/
theorem failed_add_link {s : TschState} (sf : Option Nat) (o : LinkOptions) (ty : LinkType)
    (a : Option LinkAddr) (ts off : Nat) (rm : Bool)
    (h : s.lock.tschLocked = true ∨
      OutsideCalls s ∧ s.sched.Reachable cfg ∧ ∀ b, sf = some b → b ∈ s.sched.slotframeList) :
    (∀ t, (tschScheduleAddLink cfg sf o ty a ts off rm).exec s = some (none, t) →
      t = { s with lock := t.lock }) ∧
    ∀ t, Run (fun s s' => ∃ i, slotStep cfg i s = some s') (fun _ _ => True)
        (tschScheduleAddLink cfg sf o ty a ts off rm, s) (.ret none, t) →
      t.view = s.view ∧
      Run (fun s s' => ∃ i, slotStep cfg i s = some s') LocksOnly
        (tschScheduleAddLink cfg sf o ty a ts off rm, s) (.ret none, t) := by
  -- in a run that ends with NULL, only the lock is written
  have hall : ∀ irq : TschState → TschState → Prop, (∀ s s', irq s s' → ∃ i, slotStep cfg i s = some s') →
      ∀ t, Run irq (fun _ _ => True) (tschScheduleAddLink cfg sf o ty a ts off rm, s) (.ret none, t) →
      ∃ locked, (frozenCtx cfg s.view locked).inv s ∧
        Wpg (frozenCtx cfg s.view locked) LocksOnly (tschScheduleAddLink cfg sf o ty a ts off rm)
          (fun r _ => r = none) s := by
    intro irq hirq t hr
    rcases h with hlocked | ⟨hs, hreach, hptr⟩
    · have hi : (frozenCtx cfg s.view True).inv s := ⟨rfl, fun _ => hlocked⟩
      exact ⟨True, hi, wpg_addLink_held trivial sf o ty a ts off rm hi⟩
    · have hi : (frozenCtx cfg s.view False).inv s := ⟨rfl, False.elim⟩
      refine ⟨False, hi, ?_⟩
      cases sf with
      | none => exact rfl
      | some b =>
          -- the result is that of the function on views
          have S : SchedCtx cfg (qlCtx cfg False) (fun _ => True) := schedCtx_ql _
          have hiq : (qlCtx cfg False).inv s := ⟨hs.flags, False.elim⟩
          have hadd := S.wp_tschScheduleAddLink hiq ⟨rfl, hs.lock, hs.flux⟩ b o ty a ts off rm
            fun _ _ => trivial
          obtain ⟨-, u, -, -, hnone, -⟩ :=
            Wp.run hiq hadd (hr.mono (fun _ _ hi => ⟨id, hirq _ _ hi⟩) fun _ _ h => h)
          exact wpg_addLink_full id o ty a
            (addLink_eq_none hreach.repInv (hptr b rfl) hnone.symm) hi
  refine ⟨?_, ?_⟩
  · intro t he
    obtain ⟨locked, -, hw⟩ := hall (fun _ _ => False) (fun _ _ h => h.elim) t (Run.of_exec he)
    exact (hw.exec .refl .trans (fun _ _ => trivial) he).1
  · intro t hr
    obtain ⟨locked, hi, hw⟩ := hall _ (fun _ _ h => h) t hr
    exact ⟨(hw.run (fun _ _ => trivial) hi hr).1.1, hw.run_within (fun _ _ => trivial) hi hr⟩

/-- A build with one link block. -/
def oneBlock : Config := { smallBuild 8 with tschScheduleMaxLinks := 1 }

/-- Its block in use. -/
def oneLinkOps : List ScheduleOp :=
  [.call (.addSlotframe 0 7), .call (.addLink (some 0) txShared .normal (some 5) 1 0 false)]

/-- There is no block for a link at another place, and the old link stays. -/
theorem failed_add_link_full :
    ∃ s t, (scheduleHistory oneBlock 2 oneLinkOps).exec (TschState.boot oneBlock) = some ((), s) ∧
      (tschScheduleAddLink oneBlock (some 0) rxShared .normal none 2 0 true).exec s = some (none, t) ∧
      t = { s with lock := t.lock } ∧ (t.slotframe 0).linksList = [0] := by
  obtain ⟨r, hr⟩ : ∃ r, (scheduleHistory oneBlock 2 oneLinkOps).exec (TschState.boot oneBlock) =
      some r := Option.isSome_iff_exists.mp (by decide +kernel)
  have hvalue : ((scheduleHistory oneBlock 2 oneLinkOps).exec (TschState.boot oneBlock)).any
      (fun r => decide (r.2.slot.tschInSlotOperation = false ∧ r.2.slot.pc = .asleep ∧
        r.2.lock = .free ∧ r.2.ghost.linkInFlux = none ∧ r.2.sched.slotframeList = [0] ∧
        (r.2.slotframe 0).linksList = [0] ∧
        ((tschScheduleAddLink oneBlock (some 0) rxShared .normal none 2 0 true).exec r.2).map
          Prod.fst = some none)) = true := by decide +kernel
  rw [hr, Option.any_some, decide_eq_true_eq] at hvalue
  obtain ⟨hin, hpc, hlock, hflux, hlist, hlinks, hnone⟩ := hvalue
  obtain ⟨⟨_, t⟩, ht, rfl⟩ := Option.map_eq_some_iff.mp hnone
  have hboot : OutsideCalls (TschState.boot oneBlock) :=
    ⟨⟨by decide +kernel, by decide +kernel⟩, rfl, rfl⟩
  have houtside : OutsideCalls r.2 := by
    refine ⟨⟨?_, ?_⟩, hlock, hflux⟩
    · rw [hin, hpc]
      decide
    · intro _
      rw [hlock]
      rfl
  have hreach : r.2.sched.Reachable oneBlock :=
    ⟨2, oneLinkOps, TschState.boot oneBlock, r.2, hboot, Run.of_exec hr, rfl⟩
  have hsame := (failed_add_link (some 0) rxShared .normal none 2 0 true
    (.inr ⟨houtside, hreach, fun b hb => by
      cases hb
      rw [hlist]
      exact List.mem_singleton.mpr rfl⟩)).1 t ht
  refine ⟨r.2, t, hr, ht, hsame, ?_⟩
  rw [hsame]
  exact hlinks

end QlTsch
