/-
# `QlTsch.ScheduleCalls` — any sequence of schedule calls

A process that uses `tsch-schedule.c` makes a sequence of calls.  Its side of the
contract is that a pointer it passes is NULL or denotes a slotframe or link that
is installed when the call is made (`pointersValid`); `room` is for what a
result needs beyond this.  A call that breaks the contract is not made
(`makeCall`).

`CallInv` is what it takes to carry a property of the schedule through any such
sequence: one field for a removed link, one for an installed link, two for
slotframes.  `SchedCtx.wp_makeCall` does the rest.
-/
import QlTsch.ScheduleInvariant
import QlTsch.ScheduleRefine

namespace QlTsch

open Interleave Interleave.Prog ScheduleVars

/-! ## Calls -/

inductive ScheduleCall where
  | addSlotframe (handle size : Nat)
  | removeSlotframe (slotframe : Option Nat)
  | addLink (slotframe : Option Nat) (linkOptions : LinkOptions) (linkType : LinkType)
      (address : Option LinkAddr) (timeslot channelOffset : Nat) (doRemove : Bool)
  | removeLink (slotframe l : Option Nat)
  | removeLinkByTimeslot (slotframe : Option Nat) (timeslot channelOffset : Nat)
deriving DecidableEq, Repr

namespace ScheduleCall

/-- The call; what it returns is dropped. -/
def perform (cfg : Config) (fuel : Nat) : ScheduleCall → Prog TschState Unit
  | .addSlotframe handle size => do
      let _ ← tschScheduleAddSlotframe cfg handle size
  | .removeSlotframe sf => do
      let _ ← tschScheduleRemoveSlotframe fuel sf
  | .addLink sf o ty a ts off rm => do
      let _ ← tschScheduleAddLink cfg sf o ty a ts off rm
  | .removeLink sf l => do
      let _ ← tschScheduleRemoveLink sf l
  | .removeLinkByTimeslot sf ts off => do
      let _ ← tschScheduleRemoveLinkByTimeslot sf ts off

/-- The pointers of the call are NULL or denote what is installed. -/
def pointersValid (v : View) : ScheduleCall → Bool
  | .addSlotframe _ _ => true
  | .removeSlotframe sf => sf.all fun b => decide (b ∈ v.sched.slotframeList)
  | .addLink sf _ _ _ _ _ _ => sf.all fun b => decide (b ∈ v.sched.slotframeList)
  | .removeLink sf l =>
      (sf.all fun b => decide (b ∈ v.sched.slotframeList)) &&
        l.all fun p => decide (p ∈ v.sched.allLinks)
  | .removeLinkByTimeslot sf _ _ => sf.all fun b => decide (b ∈ v.sched.slotframeList)

/-- What a new link needs of the neighbor table. -/
def hasRoom (cfg : Config) (room : List LinkAddr → LinkOptions → LinkAddr → Bool) (v : View) :
    ScheduleCall → Bool
  | .addLink _ o _ a _ _ _ => room v.nbrs o (a.getD cfg.linkaddrNull)
  | _ => true

end ScheduleCall

/-- The call, if its contract is met. -/
def makeCall (cfg : Config) (room : List LinkAddr → LinkOptions → LinkAddr → Bool) (fuel : Nat)
    (c : ScheduleCall) : Prog TschState Unit := do
  if ← Prog.read (fun s => c.pointersValid s.view && c.hasRoom cfg room s.view) then
    c.perform cfg fuel
  else pure ()

theorem SchedWrites.perform {cfg : Config} {G : TschState → TschState → Prop}
    (W : SchedWrites cfg G) (hlink : ∀ b p o ty a ts off s, G s (s.initLink b p o ty a ts off))
    (hslotframe : ∀ b handle size s, G s (s.initSlotframe b handle size)) (fuel : Nat)
    (c : ScheduleCall) : LockClient G (c.perform cfg fuel) := by
  cases c with
  | addSlotframe handle size =>
      exact (W.addSlotframe fun b => hslotframe b handle size).bind fun _ => .ret _
  | removeSlotframe sf => exact (W.removeSlotframe fuel sf).bind fun _ => .ret _
  | addLink sf o ty a ts off rm =>
      exact (W.addLink fun b p => hlink b p o ty _ ts off).bind fun _ => .ret _
  | removeLink sf l => exact (W.removeLink sf l).bind fun _ => .ret _
  | removeLinkByTimeslot sf ts off => exact (W.removeLinkByTimeslot sf ts off).bind fun _ => .ret _

/-! ## What a sequence of calls keeps -/

theorem wellFormed_boot (cfg : Config) : (TschState.boot cfg).sched.WellFormed :=
  ⟨List.nodup_nil, by simp [TschState.boot], by simp [TschState.boot], List.nodup_nil,
    by simp [TschState.boot, allLinks], by simp [TschState.boot]⟩

variable {cfg : Config} {room : List LinkAddr → LinkOptions → LinkAddr → Bool}

/-- A property `I` of the schedule between calls; `ok` holds also of what is
visible during a call. -/
structure CallInv (cfg : Config) (room : List LinkAddr → LinkOptions → LinkAddr → Bool)
    (I ok : View → Prop) : Prop where
  wellFormed : ∀ {v}, I v → v.sched.WellFormed
  visible : ∀ {v}, I v → ok v
  removeLink : ∀ {v b p}, I v → b ∈ v.sched.slotframeList → p ∈ (v.slotframe b).linksList →
    ok (v.unlink b p) ∧ I (v.removeLink b p).2
  installLink : ∀ {v b p o a} ty ts off, I v → b ∈ v.sched.slotframeList → p ∉ v.sched.linkMemb →
    room v.nbrs o a = true →
    ok (v.install b p o ty a ts off) ∧
      (o.tx = true → ok (View.addNbr cfg a (v.install b p o ty a ts off)).2) ∧
      I ((v.install b p o ty a ts off).count cfg o a)
  addSlotframe : ∀ {v} handle size, I v → I (v.addSlotframe cfg handle size).2
  dropSlotframe : ∀ {v b}, I v → b ∈ v.sched.slotframeList → (v.slotframe b).linksList = [] →
    I (v.dropSlotframe b)

namespace CallInv

variable {I ok : View → Prop} (K : CallInv cfg room I ok)
include K

theorem removeLink_any {v : View} {b p : Nat} (h : I v) (hb : b ∈ v.sched.slotframeList)
    (hp : p ∈ v.sched.allLinks) :
    (∀ w ∈ v.removeLinkVisible b p, ok w) ∧ I (v.removeLink b p).2 := by
  by_cases hh : (v.link p).slotframeHandle = (v.slotframe b).handle
  · obtain ⟨hok, hI⟩ := K.removeLink h hb ((K.wellFormed h).mem_linksList hb hp hh)
    refine ⟨fun w hw => ?_, hI⟩
    simp only [View.removeLinkVisible, hh, if_true] at hw
    rcases List.mem_cons.mp hw with rfl | hw
    · exact hok
    · rw [List.mem_singleton.mp hw]
      exact K.visible hI
  · simp only [View.removeLinkVisible, View.removeLink, hh, if_false]
    exact ⟨fun w hw => absurd hw List.not_mem_nil, h⟩

theorem mem_removeLink {v : View} {b p q : Nat} (h : I v) (hb : b ∈ v.sched.slotframeList)
    (hp : p ∈ (v.slotframe b).linksList) (hq : q ∈ (v.slotframe b).linksList) (hne : q ≠ p) :
    b ∈ (v.removeLink b p).2.sched.slotframeList ∧
      q ∈ ((v.removeLink b p).2.slotframe b).linksList := by
  have hsched := View.removeLink_sched (K.wellFormed h) hb hp
  refine ⟨?_, ?_⟩
  · rw [hsched]
    exact hb
  · rw [View.removeLink_slotframe (K.wellFormed h) hb hp]
    exact (List.mem_erase_of_ne hne).mpr hq

theorem removeLinksAt (b ts off : Nat) : ∀ (ls : List Nat) {v : View}, I v →
    b ∈ v.sched.slotframeList → ls.Nodup → (∀ p ∈ ls, p ∈ (v.slotframe b).linksList) →
    (∀ w ∈ v.removeLinksAtVisible b ts off ls, ok w) ∧ I (v.removeLinksAt b ts off ls).2 ∧
      b ∈ (v.removeLinksAt b ts off ls).2.sched.slotframeList ∧
      (v.removeLinksAt b ts off ls).2.nbrs = v.nbrs
  | [], v, h, hb, _, _ => ⟨by simp [View.removeLinksAtVisible], h, hb, rfl⟩
  | p :: ls, v, h, hb, hn, hls => by
      have hp := hls p List.mem_cons_self
      have hnp := List.nodup_cons.mp hn
      simp only [View.removeLinksAtVisible, View.removeLinksAt, View.removeLinkIfAtVisible,
        View.removeLinkIfAt]
      split
      · obtain ⟨hok, hI⟩ := K.removeLink_any h hb (WellFormed.mem_slotframe hb hp)
        have hrest : ∀ q ∈ ls, q ≠ p := fun q hq hqp => hnp.1 (hqp ▸ hq)
        have hb' : b ∈ (v.removeLink b p).2.sched.slotframeList := by
          rw [View.removeLink_sched (K.wellFormed h) hb hp]
          exact hb
        obtain ⟨hvis, hI', hb'', hnbrs⟩ := removeLinksAt b ts off ls hI hb' hnp.2 fun q hq =>
          (K.mem_removeLink h hb hp (hls q (List.mem_cons_of_mem p hq)) (hrest q hq)).2
        refine ⟨fun w hw => ?_, hI', hb'', hnbrs.trans View.removeLink_nbrs⟩
        exact (List.mem_append.mp hw).elim (hok w) (hvis w)
      · exact removeLinksAt b ts off ls h hb hnp.2 fun q hq => hls q (List.mem_cons_of_mem p hq)

theorem installLink_any {v : View} {b : Nat} {o : LinkOptions} {a : LinkAddr} (ty : LinkType)
    (ts off : Nat) (h : I v) (hb : b ∈ v.sched.slotframeList) (hroom : room v.nbrs o a = true) :
    (∀ w ∈ v.installLinkVisible cfg b o ty a ts off, ok w) ∧
      I (v.installLink cfg b o ty a ts off).2 := by
  simp only [View.installLinkVisible, View.installLink]
  split
  · rename_i p hp
    obtain ⟨hw, hadd, hI⟩ := K.installLink ty ts off h hb (cfg.memb.pick_fresh hp) hroom
    refine ⟨fun w hmem => ?_, hI⟩
    split at hmem
    · rename_i htx
      simp only [List.mem_cons, List.not_mem_nil, or_false] at hmem
      rcases hmem with rfl | rfl | rfl
      · exact hw
      · exact hadd htx
      · exact K.visible hI
    · rw [List.mem_singleton.mp hmem]
      exact hw
  · refine ⟨fun w hmem => ?_, h⟩
    rw [List.mem_singleton.mp hmem]
    exact K.visible h

theorem addLink {v : View} {b : Nat} {o : LinkOptions} {a : Option LinkAddr} (ty : LinkType)
    (ts off : Nat) (rm : Bool) (h : I v) (hb : b ∈ v.sched.slotframeList)
    (hroom : room v.nbrs o (a.getD cfg.linkaddrNull) = true) :
    (∀ w ∈ v.addLinkVisible cfg b o ty a ts off rm, ok w) ∧
      I (v.addLink cfg b o ty a ts off rm).2 := by
  have hn := (K.wellFormed h).nodup_linksList hb
  cases rm with
  | false =>
      obtain ⟨hvis, hI⟩ := K.installLink_any ty ts off h hb hroom
      simp only [View.addLinkVisible, View.addLink, Bool.false_eq_true, if_false]
      refine ⟨hvis, ?_⟩
      split
      · exact h
      · exact hI
  | true =>
      obtain ⟨hvis, hI, hb', hnbrs⟩ := K.removeLinksAt b ts off _ h hb hn fun _ hp => hp
      obtain ⟨hvis', hI'⟩ := K.installLink_any ty ts off hI hb' (by rw [hnbrs]; exact hroom)
      simp only [View.addLinkVisible, View.addLink, View.removeLinkByTimeslot, if_true]
      refine ⟨fun w hw => (List.mem_append.mp hw).elim (hvis w) (hvis' w), ?_⟩
      split
      · exact h
      · exact hI'

end CallInv

/-! ## A context for what is visible -/

/-- While the lock is free, `P` holds of the view. -/
structure VisibleSafe (P : View → Prop) (s : TschState) : Prop where
  flags : SlotFlags s
  visible : s.lock.tschLocked = false → P s.view

section
variable {P : View → Prop}

theorem VisibleSafe.locked {s s' : TschState} {x : Option Nat} {v : View} (h : VisibleSafe P s)
    (hat : At x true v s) (hg : SchedAct s s') : VisibleSafe P s' := by
  refine ⟨h.flags.schedAct hg, ?_⟩
  intro hfree
  rw [hg.lock, hat.lock] at hfree
  cases hfree

def visibleCtx (cfg : Config) (P : View → Prop) : Ctx TschState where
  irq s s' := ∃ i, slotStep cfg i s = some s'
  cond _ _ := True
  inv := VisibleSafe P
  live := False
  stable _ _ h := fun ⟨_, hi⟩ => ⟨h.flags.step hi, fun hfree => by
    rw [view_of_owned (slotStep_owned hi)]
    exact h.visible (lock_of_owned (slotStep_owned hi) ▸ hfree)⟩

/-- A schedule program may do what it likes under the lock, as long as `P` holds of
what it leaves visible. -/
theorem schedCtx_visible : SchedCtx cfg (visibleCtx cfg P) P where
  irq h := h
  flags h := h.flags
  live h := h.elim
  request h hfree := ⟨⟨h.flags.inSlot, h.flags.tx⟩, fun _ => h.visible hfree⟩
  lock {s} h _ _ hpc := by
    refine ⟨⟨h.flags.inSlot, fun htx => ?_⟩, fun hfree => by cases hfree⟩
    have htx : s.slot.pc.inTx = true := htx
    rw [hpc] at htx
    cases htx
  unrequest {s} h hlock := by
    refine ⟨⟨h.flags.inSlot, h.flags.tx⟩, ?_⟩
    intro hfree
    have hfree : s.lock.tschLocked = false := hfree
    exact absurd (hlock.symm.trans hfree) (by decide)
  unlock {s v} h hat hok := ⟨⟨h.flags.inSlot, fun _ => rfl⟩, fun _ => by
    have hview : (s.setLocked false).view = v := hat.view
    rw [hview]
    exact hok⟩
  allocLink h hat _ := h.locked hat (.allocLink _)
  listAddLink _ h hat := h.locked hat ⟨⟨.inl rfl, rfl⟩, rfl⟩
  initLink _ _ _ _ _ _ h hat := h.locked hat ⟨⟨.inl rfl, rfl⟩, rfl⟩
  testLink p h hat _ := h.locked hat (.testCurrentLink p _)
  clearLink _ h hat _ := h.locked hat ⟨⟨.inr rfl, rfl⟩, rfl⟩
  listRemoveLink _ h hat := h.locked hat ⟨⟨.inl rfl, rfl⟩, rfl⟩
  freeLink h hat := h.locked hat ⟨⟨.inl rfl, rfl⟩, rfl⟩
  countTxLink {s v} n o d h hat hok := ⟨⟨h.flags.inSlot, h.flags.tx⟩, fun _ => by
    rw [view_countTxLink, hat.view]
    exact hok⟩
  nbrTableAdd a h hat := h.locked hat (.nbrTableAddLladdr a _)
  newNeighbor _ h hat := h.locked hat ⟨⟨.inl rfl, rfl⟩, rfl⟩
  allocSlotframe h hat := h.locked hat (.allocSlotframe _)
  initSlotframe _ _ _ h hat _ := h.locked hat ⟨⟨.inl rfl, rfl⟩, rfl⟩
  listAddSlotframe _ h hat := h.locked hat ⟨⟨.inl rfl, rfl⟩, rfl⟩
  freeSlotframe _ h hat := h.locked hat ⟨⟨.inl rfl, rfl⟩, rfl⟩
  listRemoveSlotframe _ h hat _ := h.locked hat ⟨⟨.inl rfl, rfl⟩, rfl⟩

end

/-! ## Removing a slotframe, and all of them -/

variable {C : Ctx TschState} {I ok : View → Prop}

/-- A property that the removals keep. -/
structure RemovalInv (I : View → Prop) : Prop where
  wellFormed : ∀ {v}, I v → v.sched.WellFormed
  removeLink : ∀ {v b p}, I v → b ∈ v.sched.slotframeList → p ∈ (v.slotframe b).linksList →
    I (v.removeLink b p).2
  dropSlotframe : ∀ {v b}, I v → b ∈ v.sched.slotframeList → (v.slotframe b).linksList = [] →
    I (v.dropSlotframe b)

/-- One slotframe with its links: its loop ends if there are fewer links than
`fuel`. -/
theorem SchedCtx.wp_removeSlotframe (S : SchedCtx cfg C (fun _ => True)) (R : RemovalInv I)
    {fuel b : Nat} (hfuel : C.live → ∀ v, I v → v.sched.allLinks.length < fuel) {v : View}
    {s : TschState} (hi : C.inv s) (hat : At none false v s) (h : I v)
    (hb : b ∈ v.sched.slotframeList) :
    Wp C (tschScheduleRemoveSlotframe fuel (some b)) (fun r t => r = true ∧
      ∃ w, I w ∧ w.sched.slotframeList = v.sched.slotframeList.erase b ∧ At none false w t) s := by
  have hlen : C.live → (v.slotframe b).linksList.length < fuel := by
    intro hl
    have hperm := (perm_allLinks hb).length_eq
    rw [List.length_append] at hperm
    have hle : (v.slotframe b).linksList.length ≤ v.sched.allLinks.length := by
      rw [hperm]
      exact Nat.le_add_right _ _
    exact hle.trans_lt (hfuel hl v h)
  refine (S.wp_tschScheduleRemoveSlotframe
    (I := fun w => I w ∧ w.sched.slotframeList = v.sched.slotframeList)
    ?_ ?_ (fun _ _ _ => trivial) hi hat ⟨h, rfl⟩ hlen).mono hi ?_
  · rintro w p ⟨hw, hws⟩ hp
    have hbw : b ∈ w.sched.slotframeList := hws ▸ hb
    have hp := List.mem_of_head? hp
    refine ⟨⟨R.removeLink hw hbw hp, ?_⟩, fun _ _ => trivial⟩
    rw [View.removeLink_sched (R.wellFormed hw) hbw hp]
    exact hws
  · rintro _ w p ⟨hw, hws⟩ hp
    have hbw : b ∈ w.sched.slotframeList := hws ▸ hb
    have hp := List.mem_of_head? hp
    rw [View.removeLink_slotframe (R.wellFormed hw) hbw hp, List.length_erase_of_mem hp]
    have := List.length_pos_of_mem hp
    omega
  · rintro r t _ ⟨hr, w, ⟨hw, hws⟩, he, hat⟩
    exact ⟨hr, _, R.dropSlotframe hw (hws ▸ hb) he, congrArg (·.erase b) hws, hat⟩

/-- **`tsch_schedule_remove_all_slotframes`**, by induction on the rounds that are
left. -/
theorem SchedCtx.wp_removeAllSlotframes (S : SchedCtx cfg C (fun _ => True)) (R : RemovalInv I)
    {fuel : Nat} (hfuel : C.live → ∀ v, I v → v.sched.allLinks.length < fuel) :
    ∀ (n : Nat) {v : View} {s : TschState}, C.inv s → At none false v s → I v →
      (C.live → v.sched.slotframeList.length < n) →
      Wp C (tschScheduleRemoveAllSlotframes fuel n) (fun r t => r = true ∧ ∃ w,
        I w ∧ w.sched.slotframeList = [] ∧ At none false w t) s
  | 0, _, _, _, _, _, hn => by
      refine Wp.call (P := fun _ _ => False) ?_ ‹_› fun _ _ _ hfalse => hfalse.elim
      exact fun _ _ => ⟨fun hl => absurd (hn hl) (by omega), fun hc => by cases hc⟩
  | n + 1, v, s, hi, hat, h, hn => by
      refine Wp.call (S.wp_read hi hat (a := v.sched.slotframeList.head?) fun t ht => by
        rw [← ht.view]; rfl) hi ?_
      rintro r t hit ⟨hr, hat⟩
      subst hr
      cases hhead : v.sched.slotframeList.head? with
      | none => exact Wp.ret ⟨rfl, v, h, List.head?_eq_none_iff.mp hhead, hat⟩
      | some b =>
          have hb : b ∈ v.sched.slotframeList := List.mem_of_head? hhead
          refine Wp.call (S.wp_removeSlotframe R hfuel hit hat h hb) hit ?_
          rintro r u hiu ⟨hr, w, hw, hws, hau⟩
          subst hr
          refine wp_removeAllSlotframes S R hfuel n hiu hau hw ?_
          intro hl
          rw [hws, List.length_erase_of_mem hb]
          have := List.length_pos_of_mem hb
          have := hn hl
          omega

/-! ## One call -/

theorem SchedCtx.wp_perform (S : SchedCtx cfg C ok) (K : CallInv cfg room I ok)
    (hlive : ¬ C.live) (fuel : Nat) {c : ScheduleCall} {v : View} {s : TschState} (hi : C.inv s)
    (h : At none false v s) (hI : I v) (hptr : c.pointersValid v = true)
    (hroom : c.hasRoom cfg room v = true) :
    Wp C (c.perform cfg fuel) (fun _ t => ∃ w, I w ∧ At none false w t) s := by
  have hv : ∃ w, I w ∧ At none false w s := ⟨v, hI, h⟩
  cases c with
  | addSlotframe handle size =>
      have hI' := K.addSlotframe handle size hI
      refine Wp.call (S.wp_tschScheduleAddSlotframe hi h handle size
        (K.wellFormed hI).slotframeMemb ⟨K.visible hI, K.visible hI'⟩) hi ?_
      rintro _ t _ ⟨_, hat⟩
      exact Wp.ret ⟨_, hI', hat⟩
  | removeSlotframe sf =>
      cases sf with
      | none => exact Wp.ret hv
      | some b =>
          have hb : b ∈ v.sched.slotframeList := of_decide_eq_true hptr
          have hhead : ∀ {w : View} {p : Nat}, (w.slotframe b).linksList.head? = some p →
              p ∈ (w.slotframe b).linksList := fun h => List.mem_of_head? h
          refine Wp.call (S.wp_tschScheduleRemoveSlotframe
            (I := fun w => I w ∧ b ∈ w.sched.slotframeList) ?_
            (fun hl => absurd hl hlive) (fun w hw he => K.visible (K.dropSlotframe hw.1 hw.2 he))
            hi h ⟨hI, hb⟩ (fun hl => absurd hl hlive)) hi ?_
          · rintro w p ⟨hIw, hbw⟩ hp
            obtain ⟨hok, hI'⟩ := K.removeLink_any hIw hbw (WellFormed.mem_slotframe hbw (hhead hp))
            refine ⟨⟨hI', ?_⟩, hok⟩
            rw [View.removeLink_sched (K.wellFormed hIw) hbw (hhead hp)]
            exact hbw
          · rintro _ t _ ⟨_, w, ⟨hIw, hbw⟩, he, hat⟩
            exact Wp.ret ⟨_, K.dropSlotframe hIw hbw he, hat⟩
  | addLink sf o ty a ts off rm =>
      cases sf with
      | none => exact Wp.ret hv
      | some b =>
          obtain ⟨hvis, hI'⟩ := K.addLink ty ts off rm hI (of_decide_eq_true hptr) hroom
          refine Wp.call (S.wp_tschScheduleAddLink hi h b o ty a ts off rm hvis) hi ?_
          rintro _ t _ ⟨_, hat⟩
          exact Wp.ret ⟨_, hI', hat⟩
  | removeLink sf l =>
      cases sf with
      | none => exact Wp.ret hv
      | some b =>
          cases l with
          | none => exact Wp.ret hv
          | some p =>
              obtain ⟨hb, hp⟩ := Bool.and_eq_true_iff.mp hptr
              obtain ⟨hok, hI'⟩ := K.removeLink_any hI (of_decide_eq_true hb) (of_decide_eq_true hp)
              refine Wp.call (S.wp_tschScheduleRemoveLink hi h b p hok) hi ?_
              rintro _ t _ ⟨_, hat⟩
              exact Wp.ret ⟨_, hI', hat⟩
  | removeLinkByTimeslot sf ts off =>
      cases sf with
      | none =>
          refine Wp.call (P := fun _ t => At none false v t) ?_ hi fun _ t _ hat =>
            Wp.ret ⟨v, hI, hat⟩
          refine Wp.call (S.wp_read hi h (a := false)
            (fun t ht => by simp only [tschIsLocked, ht.lock])) hi ?_
          rintro _ t _ ⟨hr, hat⟩
          subst hr
          exact Wp.ret hat
      | some b =>
          have hb : b ∈ v.sched.slotframeList := of_decide_eq_true hptr
          obtain ⟨hvis, hI', -, -⟩ := K.removeLinksAt b ts off _ hI hb
            ((K.wellFormed hI).nodup_linksList hb) fun _ hp => hp
          refine Wp.call (S.wp_tschScheduleRemoveLinkByTimeslot hi h b ts off hvis) hi ?_
          rintro _ t _ ⟨_, hat⟩
          exact Wp.ret ⟨_, hI', hat⟩

theorem SchedCtx.wp_makeCall (S : SchedCtx cfg C ok) (K : CallInv cfg room I ok)
    (hlive : ¬ C.live) (fuel : Nat) (c : ScheduleCall) {s : TschState} (hi : C.inv s)
    (h : ∃ v, I v ∧ At none false v s) :
    Wp C (makeCall cfg room fuel c) (fun _ t => ∃ w, I w ∧ At none false w t) s := by
  obtain ⟨v, hI, hat⟩ := h
  refine Wp.call (S.wp_read hi hat (a := c.pointersValid v && c.hasRoom cfg room v)
    (fun t ht => by rw [ht.view])) hi ?_
  rintro ok t hit ⟨hok, hat⟩
  subst hok
  cases hadm : c.pointersValid v && c.hasRoom cfg room v with
  | false => exact Wp.ret ⟨v, hI, hat⟩
  | true =>
      obtain ⟨hptr, hroom⟩ := Bool.and_eq_true_iff.mp hadm
      exact S.wp_perform K hlive fuel hit hat hI hptr hroom

end QlTsch
