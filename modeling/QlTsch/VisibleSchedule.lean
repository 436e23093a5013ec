/-
# `QlTsch.VisibleSchedule` — what a slot interrupt finds of the schedule

An interrupt reads the schedule only with the lock free.  A call of `tsch-schedule.c` takes the
lock more than once, and in between an interrupt may find the schedule half changed: without the
link that is to be replaced, or with a new link that its neighbor does not count yet.  But the lists
and pools agree at every point at which the lock is free, and every timeslot is one of its
slotframe (`visible_represented`).

So in every run of schedule calls the slot operation executes the schedule
(`schedule_calls_executed`).
-/
import QlTsch.ScheduleExecution
import QlTsch.ScheduleRepresentation

namespace QlTsch

open Interleave Interleave.Prog ScheduleVars

variable {cfg : Config}

/-! ## The sizes of slotframes -/

/-- The size of a slotframe is a `uint16_t`. -/
def SizesFit (s : TschState) : Prop := ∀ b, (s.slotframe b).size < 65536

def KeepsSizes (s s' : TschState) : Prop := SizesFit s → SizesFit s'

def ScheduleCall.SizeFits : ScheduleCall → Prop
  | .addSlotframe _ size => size < 65536
  | .removeSlotframe _ | .addLink .. | .removeLink _ _ | .removeLinkByTimeslot _ _ _ => True

section
variable {s s' : TschState}

theorem KeepsSizes.of_slotframes (h : s'.sched.slotframes = s.sched.slotframes) : KeepsSizes s s' := by
  intro hs b
  show (s'.sched.slotframes b).size < 65536
  rw [h]
  exact hs b

theorem KeepsSizes.setSlotframe (b : Nat) {f : TschSlotframe} (hf : SizesFit s → f.size < 65536) :
    KeepsSizes s (s.setSched (s.sched.setSlotframe b f)) := by
  intro hs c
  show (Function.update s.sched.slotframes b f c).size < 65536
  by_cases hc : c = b
  · subst hc
    rw [Function.update_self]
    exact hf hs
  · rw [Function.update_of_ne hc]
    exact hs c

end

theorem schedWrites_keepsSizes : SchedWrites cfg KeepsSizes where
  refl _ := .of_slotframes rfl
  nbrTableAdd a s := by
    simp only [TschState.nbrTableAddLladdr]
    split
    · exact .of_slotframes rfl
    · split <;> exact .of_slotframes rfl
  newNeighbor _ _ := .of_slotframes rfl
  countTxLink _ _ _ _ := .of_slotframes rfl
  testCurrentLink p s := by
    simp only [TschState.testCurrentLink]
    split <;> exact .of_slotframes rfl
  clearCurrentLink _ _ := .of_slotframes rfl
  allocLink s := by
    simp only [TschState.allocLink]
    split <;> exact .of_slotframes rfl
  listAddLink b _ _ := .setSlotframe b fun hs => hs b
  listRemoveLink b _ _ := .setSlotframe b fun hs => hs b
  freeLink _ _ := .of_slotframes rfl
  allocSlotframe s := by
    simp only [TschState.allocSlotframe]
    split <;> exact .of_slotframes rfl
  listAddSlotframe _ _ := .of_slotframes rfl
  freeSlotframe _ _ := .of_slotframes rfl
  listRemoveSlotframe _ _ := .of_slotframes rfl

theorem keepsSizes_call (fuel : Nat) {c : ScheduleCall} (hc : c.SizeFits) :
    LockClient KeepsSizes (c.perform cfg fuel) := by
  have W : SchedWrites cfg KeepsSizes := schedWrites_keepsSizes
  cases c with
  | addSlotframe handle size =>
      exact (W.addSlotframe fun b s => .setSlotframe b fun _ => hc).bind fun _ => .ret _
  | removeSlotframe sf => exact (W.removeSlotframe fuel sf).bind fun _ => .ret _
  | addLink sf o ty a ts off rm =>
      exact (W.addLink fun b p s => .of_slotframes rfl).bind fun _ => .ret _
  | removeLink sf l => exact (W.removeLink sf l).bind fun _ => .ret _
  | removeLinkByTimeslot sf ts off => exact (W.removeLinkByTimeslot sf ts off).bind fun _ => .ret _

theorem LockClient.makeCall {G : TschState → TschState → Prop} (hG : ∀ s, G s s) {fuel : Nat}
    {c : ScheduleCall} (h : LockClient G (c.perform cfg fuel)) :
    LockClient G (makeCall cfg (fun _ _ _ => true) fuel c) := by
  refine (LockClient.read hG _).bind fun ok => ?_
  cases ok with
  | true => exact h
  | false => exact .ret _

theorem guar_keepsSizes (fuel : Nat) {calls : List ScheduleCall} (hcalls : ∀ c ∈ calls, c.SizeFits) :
    (Prog.forEach calls (makeCall cfg (fun _ _ _ => true) fuel)).Guar KeepsSizes := by
  induction calls with
  | nil => trivial
  | cons c calls ih =>
      have hcall : LockClient KeepsSizes (makeCall cfg (fun _ _ _ => true) fuel c) :=
        LockClient.makeCall (fun _ => .of_slotframes rfl)
          (keepsSizes_call fuel (hcalls c List.mem_cons_self))
      refine Prog.Guar.bind (hcall.guar (fun _ _ h => h) (fun _ => .of_slotframes rfl)
        (fun _ _ => .of_slotframes rfl) fun _ _ => .of_slotframes rfl) fun _ => ?_
      exact ih fun c hc => hcalls c (List.mem_cons_of_mem _ hc)

theorem guar_makeCalls (n : LinkAddr) (fuel : Nat) (calls : List ScheduleCall) :
    (Prog.forEach calls (makeCall cfg (fun _ _ _ => true) fuel)).Guar (ProcessAct n) := by
  have W : NodeWrites cfg (ProcessAct n) := nodeWrites_processAct n
  exact Guar.forEach (fun c => (LockClient.makeCall W.refl
    (W.toSchedWrites.perform W.initLink W.initSlotframe fuel c)).guar (fun _ _ h => h) W.refl
    (fun _ _ => .of_queue rfl rfl) fun _ _ => .of_queue rfl rfl) calls

/-! ## The schedule while the lock is free -/

theorem callInv_represented : CallInv cfg (fun _ _ _ => false) (RepInv cfg)
    (fun v => v.sched.Represented) where
  wellFormed h := h.represented.toWellFormed
  visible h := h.represented
  removeLink h hb hp := ⟨h.represented.unlink hb hp, h.removeLink hb hp⟩
  installLink _ _ _ _ _ _ hroom := by cases hroom
  addSlotframe handle size h := h.addSlotframe handle size
  dropSlotframe h hb he := h.dropSlotframe hb he

section
variable {v : View} {b ts : Nat}

theorem represented_installLink (o : LinkOptions) (ty : LinkType) (a : LinkAddr) (off : Nat)
    (h : v.sched.Represented) (hb : b ∈ v.sched.slotframeList) (hts : ts < (v.slotframe b).size) :
    ∀ w ∈ v.installLinkVisible cfg b o ty a ts off, w.sched.Represented := by
  intro w hw
  simp only [View.installLinkVisible] at hw
  split at hw
  · rename_i p hp
    have hinstalled : (v.install b p o ty a ts off).sched.Represented :=
      h.install hb (cfg.memb.pick_fresh hp) hts
    split at hw
    · simp only [List.mem_cons, List.not_mem_nil, or_false] at hw
      rcases hw with rfl | rfl | rfl
      · exact hinstalled
      · rw [View.addNbr_sched]
        exact hinstalled
      · rw [View.count_sched]
        exact hinstalled
    · rw [List.mem_singleton.mp hw]
      exact hinstalled
  · rw [List.mem_singleton.mp hw]
    exact h

theorem represented_addLink (o : LinkOptions) (ty : LinkType) (a : Option LinkAddr) (off : Nat)
    (rm : Bool) (h : RepInv cfg v) (hb : b ∈ v.sched.slotframeList)
    (hts : ts < (v.slotframe b).size) :
    ∀ w ∈ v.addLinkVisible cfg b o ty a ts off rm, w.sched.Represented := by
  intro w hw
  cases rm with
  | false => exact represented_installLink o ty _ off h.represented hb hts w hw
  | true =>
      have hn := h.represented.nodup_linksList hb
      have hrem := afterRemoval b ts off (v.slotframe b).linksList h hb (fun _ hp => hp) hn
      rcases List.mem_append.mp hw with hw | hw
      · exact (callInv_represented.removeLinksAt b ts off _ h hb hn fun _ hp => hp).1 w hw
      · exact represented_installLink o ty _ off hrem.inv.represented (hrem.list ▸ hb)
          (hrem.size.symm ▸ hts) w hw

end

section
variable {v : View} {s : TschState} {fuel : Nat}

theorem wp_visibleCall (c : ScheduleCall) (hi : VisibleSafe (fun v => v.sched.Represented) s)
    (hat : At none false v s) (h : RepInv cfg v) (hptr : c.pointersValid v = true) :
    Wp (visibleCtx cfg fun v => v.sched.Represented) (c.perform cfg fuel) (fun _ t => RepReady cfg t)
      s := by
  have S : SchedCtx cfg (visibleCtx cfg fun v => v.sched.Represented) fun v => v.sched.Represented :=
    schedCtx_visible
  cases c with
  | addLink sf o ty a ts off rm =>
      cases sf with
      | none => exact Wp.ret ⟨v, h, hat⟩
      | some b =>
          have hb : b ∈ v.sched.slotframeList := of_decide_eq_true hptr
          by_cases hts : ts < (v.slotframe b).size
          · refine Wp.call (S.wp_tschScheduleAddLink hi hat b o ty a ts off rm
              (represented_addLink o ty a off rm h hb hts)) hi ?_
            rintro _ t _ ⟨_, hat⟩
            exact Wp.ret ⟨_, (h.addLink o ty a ts off rm hb).1, hat⟩
          · -- the call is refused
            refine Wp.call (P := fun _ t => RepReady cfg t) ?_ hi fun _ t _ hready => Wp.ret hready
            refine Wp.call (S.wp_read hi hat (a := true) (fun t ht => ?_)) hi ?_
            · rw [decide_eq_true_iff]
              have hsize : (t.slotframe b).size = (v.slotframe b).size := by rw [← ht.view]; rfl
              omega
            · rintro _ t _ ⟨rfl, hat⟩
              exact Wp.ret ⟨v, h, hat⟩
  | addSlotframe | removeSlotframe | removeLink | removeLinkByTimeslot =>
      exact S.wp_perform callInv_represented (by exact id) fuel hi hat h hptr rfl

theorem wp_visibleCalls (calls : List ScheduleCall)
    (hi : VisibleSafe (fun v => v.sched.Represented) s) (h : RepReady cfg s) :
    Wp (visibleCtx cfg fun v => v.sched.Represented)
      (Prog.forEach calls (makeCall cfg (fun _ _ _ => true) fuel)) (fun _ t => RepReady cfg t) s := by
  have S : SchedCtx cfg (visibleCtx cfg fun v => v.sched.Represented) fun v => v.sched.Represented :=
    schedCtx_visible
  refine Wp.forEach (J := fun _ t => RepReady cfg t) (fun c _ s hi hready => ?_) calls hi h
  obtain ⟨v, hv, hat⟩ := hready
  refine Wp.call (S.wp_read hi hat (a := c.pointersValid v && c.hasRoom cfg (fun _ _ _ => true) v)
    (fun t ht => by rw [ht.view])) hi ?_
  rintro ok t hit ⟨rfl, hat⟩
  cases hadm : c.pointersValid v && c.hasRoom cfg (fun _ _ _ => true) v with
  | false => exact Wp.ret ⟨v, hv, hat⟩
  | true => exact wp_visibleCall c hit hat hv (Bool.and_eq_true_iff.mp hadm).1

end

/-! ## Runs -/

theorem sizesFit_run {α : Type} {p : Prog TschState α} (hp : p.Guar KeepsSizes) {s : TschState}
    (hs : SizesFit s) {c : Prog TschState α × TschState}
    (hr : Run (fun s s' => ∃ i, slotStep cfg i s = some s') (fun _ _ => True) (p, s) c) :
    SizesFit c.2 := by
  induction hr with
  | refl => exact hs
  | tail hr hst ih =>
      cases hst with
      | act _ => exact (Run.guar hp hr).1 _ ih
      | await _ => exact ih
      | irq hi =>
          obtain ⟨i, hi⟩ := hi
          exact KeepsSizes.of_slotframes
            (congrArg ScheduleVars.slotframes (sched_of_owned (slotStep_owned hi))) ih

section
variable {fuel : Nat} {calls : List ScheduleCall} {s : TschState}
  {c : Prog TschState Unit × TschState}

variable (hcalls : ∀ c ∈ calls, c.SizeFits) (h : AtRest s) (hrep : RepInv cfg s.view)
  (hsizes : SizesFit s)
  (hr : Run (fun s s' => ∃ i, slotStep cfg i s = some s') (fun _ _ => True)
    (Prog.forEach calls (makeCall cfg (fun _ _ _ => true) fuel), s) c)
include hcalls h hrep hsizes hr

/-- The schedule an interrupt finds. -/
theorem visible_represented (hfree : c.2.lock.tschLocked = false) :
    c.2.sched.Represented ∧ c.2.sched.TimeslotsFit := by
  have hi : VisibleSafe (fun v => v.sched.Represented) s :=
    ⟨(h.held hrep.represented.toWellFormed).flags, fun _ => hrep.represented⟩
  have hwp : Wp (visibleCtx cfg fun v => v.sched.Represented)
      (Prog.forEach calls (makeCall cfg (fun _ _ _ => true) fuel)) (fun _ t => RepReady cfg t) s :=
    wp_visibleCalls calls hi ⟨s.view, hrep, rfl, h.lock, h.flux⟩
  have hshown : c.2.sched.Represented := (Wp.run hi hwp hr).1.visible hfree
  have hsize := sizesFit_run (guar_keepsSizes fuel hcalls) hsizes hr
  exact ⟨hshown, fun b hb p hp => ⟨hshown.timeslots b hb p hp, hsize b⟩⟩

/-- **Schedule calls and the execution of the schedule.**  In every run of schedule calls under
slot interrupts, from rest: whenever the lock is free, lists and pools agree and the timeslots fit;
and the timeslots of the run are accounted for, as in `schedule_executed`. -/
theorem schedule_calls_executed :
    (c.2.lock.tschLocked = false → c.2.sched.Represented ∧ c.2.sched.TimeslotsFit) ∧
      ∃ ms, History (ExecutionStep cfg) processMarks
          (Prog.forEach calls (makeCall cfg (fun _ _ _ => true) fuel), s) ms c ∧
        Accounted s.slot.tschCurrentAsn c.2.slot.tschCurrentAsn ms := by
  have hhistory : ∃ ms, History (ExecutionStep cfg) processMarks
      (Prog.forEach calls (makeCall cfg (fun _ _ _ => true) fuel), s) ms c := by
    refine History.of_run hr ?_
    rintro c' hr' s' ⟨i, hi⟩
    have hvalid : ValidSchedule c'.2 := fun hfree =>
      (visible_represented hcalls h hrep hsizes hr' hfree).2
    exact ExecutionStep.of_slotStep hvalid hi
  obtain ⟨ms, hms⟩ := hhistory
  have hexecuted := executed_history (guar_makeCalls 0 fuel calls) h.asleep hms
  exact ⟨visible_represented hcalls h hrep hsizes hr, ms, hms, hexecuted.toAccounted⟩

end

/-! ### A link half added -/

theorem repInv_boot {asn : Nat} : RepInv cfg ((TschState.boot cfg).joined asn).view := by
  refine ⟨⟨wellFormed_boot cfg, ?_, ?_, ?_, ?_⟩, ?_, ?_⟩
  · intro b hb
    cases hb
  · intro b hb
    cases hb
  · intro p
    exact iff_of_false (Finset.notMem_empty p) List.not_mem_nil
  · intro b
    exact iff_of_false (Finset.notMem_empty b) List.not_mem_nil
  · intro p hp
    exact absurd hp (Finset.notMem_empty p)
  · intro b hb
    exact absurd hb (Finset.notMem_empty b)

theorem sizesFit_boot {asn : Nat} : SizesFit ((TschState.boot cfg).joined asn) := fun _ =>
  (by decide : 0 < 65536)

/-- The Tx link is on its list, and its neighbor does not count it yet. -/
theorem schedule_calls_executed_uncounted :
    ∃ c : Prog TschState Unit × TschState,
      Run (fun s s' => ∃ i, slotStep (smallBuild 8) i s = some s') (fun _ _ => True)
        (Prog.forEach overlapping (makeCall (smallBuild 8) (fun _ _ _ => true) 3),
          (TschState.boot (smallBuild 8)).joined 0) c ∧
      c.2.sched.allLinks = [0] ∧ (c.2.queue.neighbors 5).txLinksCount = 0 ∧
      c.2.sched.Represented ∧
      ∃ ms, History (ExecutionStep (smallBuild 8)) processMarks
          (Prog.forEach overlapping (makeCall (smallBuild 8) (fun _ _ _ => true) 3),
            (TschState.boot (smallBuild 8)).joined 0) ms c ∧
        Accounted 0 c.2.slot.tschCurrentAsn ms := by
  obtain ⟨c, hrun, hc⟩ := exists_run (slotStep (smallBuild 8)) (fun _ _ => true)
    (fun s s' => ∃ i, slotStep (smallBuild 8) i s = some s') (fun _ _ => True)
    (fun i _ _ h => ⟨i, h⟩) (fun _ _ _ => trivial) (List.replicate 38 none ++ [some (.quiet 0)])
    (Prog.forEach overlapping (makeCall (smallBuild 8) (fun _ _ _ => true) 3),
      (TschState.boot (smallBuild 8)).joined 0)
    (fun c => decide (c.2.lock.tschLocked = false ∧ c.2.sched.allLinks = [0] ∧
      (c.2.queue.neighbors 5).txLinksCount = 0)) (by decide +kernel)
  obtain ⟨hfree, hlinks, hcount⟩ := of_decide_eq_true hc
  have hsizes : ∀ c ∈ overlapping, c.SizeFits := by
    intro c hc
    simp only [overlapping, List.mem_cons, List.not_mem_nil, or_false] at hc
    rcases hc with rfl | rfl | rfl | rfl
    · exact (by decide : 1 < 65536)
    · exact (by decide : 1 < 65536)
    · trivial
    · trivial
  obtain ⟨hvisible, hexecuted⟩ := schedule_calls_executed hsizes atRest_boot repInv_boot sizesFit_boot
    hrun
  exact ⟨c, hrun, hlinks, hcount, (hvisible hfree).1, hexecuted⟩

end QlTsch
