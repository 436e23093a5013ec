/-
# `QlTsch.QlInvariant` — the schedule of QL-TSCH, over all iterations

`init_tsch_schedule` builds the two slotframes from any clean state, and every
iteration of `scheduler_process` leaves one link at each timeslot, the Tx link at
the current action, the pointer array in step and the counter of the broadcast
neighbor at 2 — whatever is in the Q-table, in the APT table and in
`trans_status` when the process resumes, and whatever the draws are
(`ql_schedule_invariant`).

The proof is `QlCtx.wp_schedulerRound` in a context without any further
invariant, read twice: without interrupts and with termination asked for, and
with interrupts.
-/
import QlTsch.QlRound

namespace QlTsch

open Interleave Interleave.Prog ScheduleVars
open scoped List

variable {cfg : Config} {F : QlFrames} {v : View}

/-! ## What is to be shown -/

/-- After a policy update. -/
structure QlInvariant (cfg : Config) (F : QlFrames) (s : TschState) : Prop where
  action : s.node.currentAction < unicastSlotframeLength
  slotframes : s.sched.slotframeList = [F.broadcast, F.unicast]
  sfUnicast : s.node.sfUnicast = some F.unicast
  /-- exactly one link at each timeslot -/
  timeslots : (s.slotframe F.unicast).linksList.map (fun p => (s.link p).timeslot) ~
    List.range unicastSlotframeLength
  options : ∀ p ∈ (s.slotframe F.unicast).linksList, (s.link p).linkOptions =
    if (s.link p).timeslot = s.node.currentAction then txShared else rxShared
  /-- no call of `tsch_schedule_add_link` returned NULL, and the array is in step -/
  pointers : ∀ i < unicastSlotframeLength, ∃ p ∈ (s.slotframe F.unicast).linksList,
    s.node.linksUnicastSf i = some p ∧ (s.link p).timeslot = i
  broadcast : (s.slotframe F.broadcast).linksList = [F.broadcastLink]
  original : s.link F.broadcastLink = F.contents
  contents : IsBroadcastLink cfg F.contents
  txLinksCount : (s.queue.neighbors cfg.tschBroadcastAddress).txLinksCount = 2

/-! ## The Tx links to the broadcast neighbor -/

theorem countP_eq_one {L : List Nat} (hn : L.Nodup) {c : Nat} (hc : c ∈ L) :
    L.countP (fun i => decide (i = c)) = 1 := by
  have h : L.countP (fun i => decide (i = c)) = L.count c := by
    rw [List.count_eq_countP]
    exact List.countP_congr fun i _ => by simp [beq_iff_eq]
  rw [h, List.count_eq_one_of_mem hn hc]

theorem QlSet.txLinks {c : Nat} (h : QlSet cfg F c v) : v.txLinks cfg.tschBroadcastAddress = 2 := by
  obtain ⟨L, f, hall, hstage⟩ := h.stage
  have hl := hstage.links
  have hunicast : (L.map f).countP (fun p => (v.sched.links p).linkOptions.isTx &&
      (v.sched.links p).addr == cfg.tschBroadcastAddress) = 1 := by
    rw [List.countP_map, ← countP_eq_one hl.timeslots (hall c h.bound)]
    refine List.countP_congr ?_
    intro i hi
    have hu := hl.unicastLink i hi
    simp only [Function.comp_apply, hu.linkOptions, hu.addr, beq_self_eq_true, Bool.and_true,
      optionsFor, LinkOptions.isTx]
    by_cases hic : i = c
    · simp [hic, txShared]
    · simp [hic, rxShared]
  have hbroadcast : ((v.sched.links F.broadcastLink).linkOptions.isTx &&
      (v.sched.links F.broadcastLink).addr == cfg.tschBroadcastAddress) = true := by
    rw [hl.broadcastLink, hl.isBroadcastLink.linkOptions, hl.isBroadcastLink.addr, beq_self_eq_true]
    rfl
  rw [hstage.counters.counters.tx _ hstage.neighbor, countLinks, hl.allLinks_perm.countP_eq,
    List.countP_cons, hunicast, if_pos hbroadcast]
  rfl

theorem QlReady.invariant {s : TschState} (h : QlReady cfg F s.view) : QlInvariant cfg F s := by
  obtain ⟨L, f, hall, hstage⟩ := h.set.stage
  have hl := hstage.links
  have hlink : ∀ p ∈ (s.slotframe F.unicast).linksList, ∃ i ∈ L, f i = p ∧
      IsUnicastLink cfg i (optionsFor s.node.currentAction i) (s.link p) := by
    intro p hp
    obtain ⟨i, hi, rfl⟩ := hl.mem_unicast.mp hp
    exact ⟨i, hi, rfl, hl.unicastLink i hi⟩
  refine ⟨h.set.bound, hl.slotframes, hstage.sfUnicast, ?_, fun p hp => ?_, fun i hi => ?_,
    hl.broadcastLinks, hl.broadcastLink, hl.isBroadcastLink, h.set.txLinks⟩
  · have hmap : (L.map f).map (fun p => (s.link p).timeslot) = L := by
      rw [List.map_map]
      have hid : ∀ i ∈ L, ((fun p => (s.link p).timeslot) ∘ f) i = i := fun i hi =>
        (hl.unicastLink i hi).timeslot
      rw [List.map_congr_left hid, List.map_id']
    have hperm : (s.slotframe F.unicast).linksList.map (fun p => (s.link p).timeslot) ~ L := by
      rw [← hmap]
      exact hl.unicastLinks.map _
    refine hperm.trans ((List.perm_ext_iff_of_nodup hl.timeslots List.nodup_range).mpr fun i => ?_)
    exact ⟨fun hi => List.mem_range.mpr (hl.bound i hi), fun hi => hall i (List.mem_range.mp hi)⟩
  · obtain ⟨i, -, -, hu⟩ := hlink p hp
    rw [hu.linkOptions, hu.timeslot]
    rfl
  · have hiL := hall i hi
    exact ⟨f i, hl.f_mem hiL, hstage.pointers i hiL, (hl.unicastLink i hiL).timeslot⟩

/-! ## The context -/

/-- With `live`: the process alone.  Without: under slot interrupts. -/
def qlCtx (cfg : Config) (live : Prop) : Ctx TschState where
  irq s s' := ¬ live ∧ ∃ i, slotStep cfg i s = some s'
  cond _ _ := True
  inv s := SlotFlags s ∧ (live → s.slot.tschInSlotOperation = false)
  live := live
  stable _ _ h := fun ⟨hl, _, hi⟩ => ⟨h.1.step hi, fun hlive => absurd hlive hl⟩

variable {live : Prop}

theorem inv_of_foreign {s s' : TschState} (h : (qlCtx cfg live).inv s) (hlock : s'.lock = s.lock)
    (hpc : s'.slot.pc = s.slot.pc) (hin : s'.slot.tschInSlotOperation = s.slot.tschInSlotOperation) :
    (qlCtx cfg live).inv s' := by
  refine ⟨⟨?_, ?_⟩, ?_⟩
  · rw [hin, hpc]
    exact h.1.inSlot
  · rw [hpc, hlock]
    exact h.1.tx
  · rw [hin]
    exact h.2

theorem inv_of_schedAct {s s' : TschState} (h : (qlCtx cfg live).inv s) (hg : SchedAct s s') :
    (qlCtx cfg live).inv s' := by
  refine inv_of_foreign h hg.lock ?_ ?_ <;> rcases hg.slot with hs | hs <;> rw [hs]

theorem schedCtx_ql (ok : View → Prop) : SchedCtx cfg (qlCtx cfg live) ok where
  irq h := h.2
  flags h := h.1
  live hl h := h.2 hl
  request h _ := ⟨⟨h.1.inSlot, h.1.tx⟩, h.2⟩
  lock {s} h _ _ hpc := by
    refine ⟨⟨h.1.inSlot, fun htx => ?_⟩, h.2⟩
    have htx : s.slot.pc.inTx = true := htx
    rw [hpc] at htx
    cases htx
  unrequest h _ := ⟨⟨h.1.inSlot, h.1.tx⟩, h.2⟩
  unlock h _ _ := ⟨⟨h.1.inSlot, fun _ => rfl⟩, h.2⟩
  allocLink h _ _ := inv_of_schedAct h (.allocLink _)
  listAddLink _ h _ := inv_of_schedAct h ⟨⟨.inl rfl, rfl⟩, rfl⟩
  initLink _ _ _ _ _ _ h _ := inv_of_schedAct h ⟨⟨.inl rfl, rfl⟩, rfl⟩
  testLink p h _ _ := inv_of_schedAct h (.testCurrentLink p _)
  clearLink _ h _ _ := inv_of_schedAct h ⟨⟨.inr rfl, rfl⟩, rfl⟩
  listRemoveLink _ h _ := inv_of_schedAct h ⟨⟨.inl rfl, rfl⟩, rfl⟩
  freeLink h _ := inv_of_schedAct h ⟨⟨.inl rfl, rfl⟩, rfl⟩
  countTxLink _ _ _ h _ _ := inv_of_schedAct h ⟨⟨.inl rfl, rfl⟩, rfl⟩
  nbrTableAdd a h _ := inv_of_schedAct h (.nbrTableAddLladdr a _)
  newNeighbor _ h _ := inv_of_schedAct h ⟨⟨.inl rfl, rfl⟩, rfl⟩
  allocSlotframe h _ := inv_of_schedAct h (.allocSlotframe _)
  initSlotframe _ _ _ h _ _ := inv_of_schedAct h ⟨⟨.inl rfl, rfl⟩, rfl⟩
  listAddSlotframe _ h _ := inv_of_schedAct h ⟨⟨.inl rfl, rfl⟩, rfl⟩
  freeSlotframe _ h _ := inv_of_schedAct h ⟨⟨.inl rfl, rfl⟩, rfl⟩
  listRemoveSlotframe _ h _ _ := inv_of_schedAct h ⟨⟨.inl rfl, rfl⟩, rfl⟩

theorem qlCtx_ql (ok : View → Prop) : QlCtx cfg (qlCtx cfg live) ok where
  toSchedCtx := schedCtx_ql ok
  settle d {s v} hi hat _ := by
    have S : SchedCtx cfg (qlCtx cfg live) ok := schedCtx_ql ok
    have hsettle : Wp (qlCtx cfg live) (settleReward d) (fun _ t => ∃ q,
        At none true { v with node := { v.node with qValues := q } } t) s := by
      refine Wp.bind (Wp.update hi fun t ht hit _ => ?_)
      have hat := S.at_rely hi hat ht
      have hit' : (qlCtx cfg live).inv t.getAndResetTxSlotStatus.2 := inv_of_foreign hit rfl rfl rfl
      have hat' : At none true v t.getAndResetTxSlotStatus.2 := ⟨hat.view, hat.lock, hat.flux⟩
      refine ⟨hit', ?_⟩
      split
      · refine Wp.modify hit' fun u hu hiu _ => ⟨inv_of_foreign hiu rfl rfl rfl, ?_⟩
        have hau := S.at_rely hit' hat' hu
        refine ⟨updateQTable d.update u.node.currentAction
          (rewardOf t.getAndResetTxSlotStatus.1) u.node.qValues, ?_, hau.lock, hau.flux⟩
        rw [← hau.view]
        rfl
      · exact Wp.ret ⟨v.node.qValues, hat'⟩
    refine Wp.call hsettle hi ?_
    rintro _ t hit ⟨q, hat⟩
    refine Wp.update hit fun u hu hiu _ => ⟨inv_of_foreign hiu rfl rfl rfl, chooseAction_lt cfg d u, q, ?_⟩
    have hau := S.at_rely hit hat hu
    refine ⟨?_, hau.lock, hau.flux⟩
    have hv : (u.pickAction cfg d).2.view =
        { u.view with pendingAction := some (chooseAction cfg d u) } := rfl
    rw [hv, hau.view]
    rfl
  setNode _ _ h _ _ _ := inv_of_foreign h rfl rfl rfl

/-! ## Iterations -/

/-- What an iteration finds when the process resumes, and its draws. -/
structure Resume where
  qValues : Nat → ℚ
  aptTable : Nat → Nat
  transStatus : Nat
  cyclesSinceStart : Nat
  draws : Draws

def Resume.set (r : Resume) (s : TschState) : TschState :=
  { s with
    node := { s.node with qValues := r.qValues, cyclesSinceStart := r.cyclesSinceStart }
    slot := { s.slot with aptTable := r.aptTable, transStatus := r.transStatus } }

/-- Iterations of the loop of `scheduler_process`. -/
def iterations (cfg : Config) (fuel : Nat) (rs : List Resume) : Prog TschState Unit :=
  Prog.forEach rs fun r => do
    Prog.modify r.set
    schedulerRound cfg fuel r.draws

theorem wp_iterations {fuel : Nat} (hfuel : 0 < fuel)
    (hmax : unicastSlotframeLength + 1 ≤ cfg.tschScheduleMaxLinks) (rs : List Resume)
    {s : TschState} (hi : (qlCtx cfg live).inv s) (h : ∃ v, QlReady cfg F v ∧ At none false v s) :
    Wp (qlCtx cfg live) (iterations cfg fuel rs)
      (fun _ t => ∃ v, QlReady cfg F v ∧ At none false v t) s := by
  have Q : QlCtx cfg (qlCtx cfg live) (QlVisible cfg F) := qlCtx_ql _
  refine Wp.forEach (J := fun _ t => ∃ v, QlReady cfg F v ∧ At none false v t)
    (fun r _ s hi ⟨v, hready, hat⟩ => ?_) rs hi h
  refine Wp.bind (Wp.modify hi fun t ht hit _ => ?_)
  have hat := Q.at_rely hi hat ht
  have hit' : (qlCtx cfg live).inv (r.set t) := inv_of_foreign hit rfl rfl rfl
  refine ⟨hit', Q.wp_schedulerRound (fun _ hw => hw) hmax (fun _ => hfuel) r.draws hit' ?_⟩
  refine ⟨{ v with node := { v.node with
      qValues := r.qValues, cyclesSinceStart := r.cyclesSinceStart } }, ⟨?_, hready.pending⟩, ?_,
    hat.lock, hat.flux⟩
  · exact hready.set.setNode v.pendingAction rfl rfl rfl
  · rw [← hat.view]
    rfl

/-! ## Clean states -/

/-- A schedule whose counters are in step and whose pools have lost no block. -/
structure ScheduleClean (v : View) : Prop where
  counters : CountersInv v
  links : ∀ p ∈ v.sched.linkMemb, p ∈ v.sched.allLinks
  slotframes : ∀ b ∈ v.sched.slotframeMemb, b ∈ v.sched.slotframeList

theorem ScheduleClean.removeLink {b p : Nat} (h : ScheduleClean v) (hb : b ∈ v.sched.slotframeList)
    (hp : p ∈ (v.slotframe b).linksList) : ScheduleClean (v.removeLink b p).2 := by
  have hwf := h.counters.wellFormed
  have hsched := View.removeLink_sched hwf hb hp
  refine ⟨(countersInv_removeLink h.counters hb hp).2, ?_, ?_⟩
  · rw [hsched]
    intro q hq
    obtain ⟨hne, hq⟩ := Finset.mem_erase.mp hq
    exact (View.mem_unlink hwf hb hp).mpr ⟨h.links q hq, hne⟩
  · rw [hsched]
    exact h.slotframes

theorem ScheduleClean.dropSlotframe {b : Nat} (h : ScheduleClean v) (hb : b ∈ v.sched.slotframeList)
    (he : (v.slotframe b).linksList = []) : ScheduleClean (v.dropSlotframe b) := by
  obtain ⟨hwf, hperm⟩ := View.wellFormed_dropSlotframe h.counters.wellFormed hb he
  refine ⟨h.counters.congr hwf hperm rfl rfl rfl rfl, fun p hp => ?_, fun c hc => ?_⟩
  · exact hperm.mem_iff.mpr (h.links p hp)
  · obtain ⟨hne, hc⟩ := Finset.mem_erase.mp hc
    exact (List.mem_erase_of_ne hne).mpr (h.slotframes c hc)

theorem ScheduleClean.empty (h : ScheduleClean v) (he : v.sched.slotframeList = []) :
    v.sched.linkMemb = ∅ ∧ v.sched.slotframeMemb = ∅ := by
  have hall : v.sched.allLinks = [] := by simp only [allLinks, he, List.flatMap_nil]
  refine ⟨Finset.eq_empty_of_forall_notMem fun p hp => ?_,
    Finset.eq_empty_of_forall_notMem fun b hb => ?_⟩
  · have := h.links p hp
    rw [hall] at this
    cases this
  · have := h.slotframes b hb
    rw [he] at this
    cases this

/-! ## `tsch_schedule_remove_all_slotframes` -/

/-- What the removal keeps. -/
structure Clearing (cfg : Config) (v₀ v : View) : Prop where
  clean : ScheduleClean v
  neighbor : cfg.tschBroadcastAddress ∈ v.nbrs
  node : KeepsNode v₀ v
  /-- links only go -/
  length : v.sched.allLinks.length ≤ v₀.sched.allLinks.length

theorem Clearing.removeLink {v₀ : View} {b p : Nat} (h : Clearing cfg v₀ v)
    (hb : b ∈ v.sched.slotframeList) (hp : p ∈ (v.slotframe b).linksList) :
    Clearing cfg v₀ (v.removeLink b p).2 := by
  have hwf := h.clean.counters.wellFormed
  refine ⟨h.clean.removeLink hb hp, ?_, h.node.trans (.removeLink b p v), ?_⟩
  · rw [View.removeLink_nbrs]
    exact h.neighbor
  have hlen := (View.perm_unlink hwf hb hp).length_eq
  rw [List.length_cons] at hlen
  rw [View.removeLink_sched hwf hb hp]
  have := h.length
  omega

theorem Clearing.dropSlotframe {v₀ : View} {b : Nat} (h : Clearing cfg v₀ v)
    (hb : b ∈ v.sched.slotframeList) (he : (v.slotframe b).linksList = []) :
    Clearing cfg v₀ (v.dropSlotframe b) := by
  have hperm := (View.wellFormed_dropSlotframe h.clean.counters.wellFormed hb he).2
  refine ⟨h.clean.dropSlotframe hb he, h.neighbor, h.node.trans ⟨rfl, rfl⟩, ?_⟩
  rw [hperm.length_eq]
  exact h.length

theorem removalInv_clearing (v₀ : View) : RemovalInv (Clearing cfg v₀) where
  wellFormed h := h.clean.counters.wellFormed
  removeLink h hb hp := h.removeLink hb hp
  dropSlotframe h hb he := h.dropSlotframe hb he

/-! ## `init_tsch_schedule` -/

/-- Slotframes have been added, and no link. -/
structure FramesOnly (cfg : Config) (l : List (Nat × TschSlotframe)) (v : View) : Prop where
  counters : CountersInv v
  neighbor : cfg.tschBroadcastAddress ∈ v.nbrs
  list : v.sched.slotframeList = l.map Prod.fst
  frames : ∀ x ∈ l, v.sched.slotframes x.1 = x.2
  card : v.sched.slotframeMemb.card = l.length
  linkMemb : v.sched.linkMemb = ∅

theorem FramesOnly.add {l : List (Nat × TschSlotframe)} (h : FramesOnly cfg l v) (handle : Nat)
    {size : Nat} (hsize : size ≠ 0) (hnew : ∀ x ∈ l, x.2.handle ≠ handle)
    (hmax : l.length < cfg.tschScheduleMaxSlotframes) :
    ∃ b, (v.addSlotframe cfg handle size).1 = some b ∧ b ∉ l.map Prod.fst ∧
      FramesOnly cfg (l ++ [(b, ⟨handle, size, []⟩)]) (v.addSlotframe cfg handle size).2 ∧
      KeepsNode v (v.addSlotframe cfg handle size).2 := by
  have hcard : v.sched.slotframeMemb.card < cfg.tschScheduleMaxSlotframes := h.card ▸ hmax
  obtain ⟨b, hb⟩ := cfg.memb.pick_of_card hcard
  have hfresh := cfg.memb.pick_fresh hb
  have hnot : b ∉ v.sched.slotframeList := fun hmem =>
    hfresh (h.counters.wellFormed.slotframeMemb b hmem)
  have hany : (v.sched.slotframeList.any fun b => (v.slotframe b).handle == handle) = false := by
    rw [Bool.eq_false_iff]
    intro hc
    obtain ⟨c, hc, hh⟩ := List.any_eq_true.mp hc
    rw [h.list] at hc
    obtain ⟨x, hx, rfl⟩ := List.mem_map.mp hc
    have hframe : v.slotframe x.1 = x.2 := h.frames x hx
    rw [hframe] at hh
    exact hnew x hx (beq_iff_eq.mp hh)
  have hcounters : CountersInv (v.addSlotframe cfg handle size).2 :=
    callInv_counters.addSlotframe handle size h.counters
  have heq : v.addSlotframe cfg handle size =
      (some b, v.setSched { v.sched.setSlotframe b ⟨handle, size, []⟩ with
        slotframeMemb := insert b v.sched.slotframeMemb
        slotframeList := v.sched.slotframeList ++ [b] }) := by
    simp only [View.addSlotframe, hsize, hany, Bool.false_eq_true, or_self, if_false, hb]
  rw [heq] at hcounters ⊢
  refine ⟨b, rfl, h.list ▸ hnot, ⟨hcounters, h.neighbor, ?_, fun x hx => ?_, ?_, h.linkMemb⟩, rfl, rfl⟩
  · simp only [View.setSched, List.map_append, List.map_singleton, h.list]
  · simp only [View.setSched, setSlotframe]
    rcases List.mem_append.mp hx with hx | hx
    · have hne : x.1 ≠ b := fun hxb => hnot (by
        rw [h.list, ← hxb]
        exact List.mem_map_of_mem hx)
      rw [Function.update_of_ne hne]
      exact h.frames x hx
    · rw [List.mem_singleton.mp hx, Function.update_self]
  · simp only [View.setSched, List.length_append, List.length_singleton]
    rw [Finset.card_insert_of_notMem hfresh, h.card]

theorem FramesOnly.setNode {l : List (Nat × TschSlotframe)} (h : FramesOnly cfg l v) (n : NodeVars)
    (a : Option Nat) : FramesOnly cfg l { v with node := n, pendingAction := a } :=
  ⟨h.counters.setNode n a, h.neighbor, h.list, h.frames, h.card, h.linkMemb⟩

theorem FramesOnly.broadcastLink {b u : Nat}
    (h : FramesOnly cfg [(b, ⟨0, broadcastSlotframeLength, []⟩), (u, ⟨1, unicastSlotframeLength, []⟩)] v)
    (hne : b ≠ u) (hmax : unicastSlotframeLength + 1 ≤ cfg.tschScheduleMaxLinks)
    (hsb : v.node.sfBroadcast = some b) (hsu : v.node.sfUnicast = some u) (f : Nat → Nat) :
    ∃ F : QlFrames, QlStage cfg F [] f (optionsFor 0)
        (v.addLink cfg b txRxShared .advertising (some cfg.tschBroadcastAddress) 0 0 false).2 ∧
      KeepsNode v
        (v.addLink cfg b txRxShared .advertising (some cfg.tschBroadcastAddress) 0 0 false).2 := by
  have hb : v.sched.slotframes b = ⟨0, broadcastSlotframeLength, []⟩ := h.frames (b, _) (by simp)
  have hu : v.sched.slotframes u = ⟨1, unicastSlotframeLength, []⟩ := h.frames (u, _) (by simp)
  have hbmem : b ∈ v.sched.slotframeList := by rw [h.list]; simp
  have hnil : v.sched.allLinks = [] := by
    simp only [allLinks, h.list, List.map_cons, List.map_nil, List.flatMap_cons, List.flatMap_nil,
      hb, hu, List.append_nil]
  have hcard : v.sched.linkMemb.card < cfg.tschScheduleMaxLinks := by
    rw [h.linkMemb, Finset.card_empty]
    omega
  obtain ⟨p, hp⟩ := cfg.memb.pick_of_card hcard
  have hpn : p ∉ v.sched.allLinks := by rw [hnil]; exact List.not_mem_nil
  obtain ⟨-, ⟨hsched, hkeep⟩, -⟩ := View.installLink_spec txRxShared .advertising
    cfg.tschBroadcastAddress 0 0 hp (b := b)
  have hadd : (v.addLink cfg b txRxShared .advertising (some cfg.tschBroadcastAddress) 0 0 false).2 =
      (v.installLink cfg b txRxShared .advertising cfg.tschBroadcastAddress 0 0).2 := by
    have hsize : (v.slotframe b).size = broadcastSlotframeLength := congrArg TschSlotframe.size hb
    simp [View.addLink, hsize, broadcastSlotframeLength]
  have hcounters : CountersInv
      (v.installLink cfg b txRxShared .advertising cfg.tschBroadcastAddress 0 0).2 :=
    (callInv_counters.installLink_any .advertising 0 0 h.counters hbmem
      (roomForTx_of_mem h.neighbor txRxShared)).2
  have hnbr : cfg.tschBroadcastAddress ∈
      (v.installLink cfg b txRxShared .advertising cfg.tschBroadcastAddress 0 0).2.nbrs := by
    simp only [View.installLink, hp]
    exact mem_count_nbrs h.neighbor
  have hlinks : QlLinks cfg ⟨b, u, p, (v.install b p txRxShared .advertising
      cfg.tschBroadcastAddress 0 0).link p⟩ [] f (optionsFor 0)
      (v.install b p txRxShared .advertising cfg.tschBroadcastAddress 0 0).sched := by
    have hsu' : (v.install b p txRxShared .advertising cfg.tschBroadcastAddress 0 0).slotframe u =
        ⟨1, unicastSlotframeLength, []⟩ := (View.install_slotframe_of_ne (Ne.symm hne)).trans hu
    refine ⟨View.wellFormed_install h.counters.wellFormed hbmem hpn, h.list,
      (View.install_handle b).trans (congrArg TschSlotframe.handle hb),
      congrArg TschSlotframe.handle hsu', congrArg TschSlotframe.size hsu', ?_, rfl, ?_,
      List.nodup_nil, fun i hi => absurd hi List.not_mem_nil, ?_,
      fun i hi => absurd hi List.not_mem_nil, fun q hq => ?_⟩
    · refine View.install_linksList.trans ?_
      have hlist : (v.slotframe b).linksList = [] := congrArg TschSlotframe.linksList hb
      rw [hlist, List.nil_append]
    · simp only [View.install, View.setSched, View.link, Function.update_self]
      exact ⟨rfl, rfl, rfl, rfl, rfl⟩
    · exact List.Perm.of_eq (congrArg TschSlotframe.linksList hsu')
    · refine (View.perm_install h.counters.wellFormed hbmem).mem_iff.mpr ?_
      have hq : q ∈ insert p v.sched.linkMemb := hq
      rw [h.linkMemb, Finset.mem_insert] at hq
      rw [hq.resolve_right (Finset.notMem_empty q)]
      exact List.mem_cons_self
  rw [hadd]
  refine ⟨_, ⟨hsched ▸ hlinks, hcounters, hnbr, ?_, ?_, fun i hi => absurd hi List.not_mem_nil⟩, hkeep⟩
  · rw [hkeep.node]
    exact hsb
  · rw [hkeep.node]
    exact hsu

/-- The links of the unicast slotframe so far. -/
structure Filling (cfg : Config) (F : QlFrames) (k : Nat) (v : View) : Prop where
  stage : ∃ f, QlStage cfg F (List.range k) f (optionsFor 0) v
  action : v.node.currentAction = 0
  pending : v.pendingAction = none

theorem Filling.step {k : Nat} (h : Filling cfg F k v) (hk : k < unicastSlotframeLength)
    (hmax : unicastSlotframeLength + 1 ≤ cfg.tschScheduleMaxLinks) :
    Filling cfg F (k + 1) (v.assign cfg F.unicast (optionsFor 0 k) k false) := by
  obtain ⟨f, hstage⟩ := h.stage
  have hk' : k ∉ List.range k := by simp
  obtain ⟨p, hp, hcur, hpend⟩ := hstage.add hk hk' hmax (optionsFor 0 k)
  rw [Function.update_eq_self, ← List.range_succ] at hp
  exact ⟨⟨_, hp⟩, hcur.trans h.action, hpend.trans h.pending⟩

theorem Filling.ready (h : Filling cfg F unicastSlotframeLength v) : QlReady cfg F v := by
  obtain ⟨f, hstage⟩ := h.stage
  refine ⟨⟨⟨_, f, fun i hi => List.mem_range.mpr hi, ?_⟩, ?_⟩, h.pending⟩
  · rw [h.action]
    exact hstage
  · rw [h.action]
    decide

theorem wp_fillUnicast (hmax : unicastSlotframeLength + 1 ≤ cfg.tschScheduleMaxLinks)
    {s : TschState} (hi : (qlCtx cfg live).inv s) (hat : At none false v s)
    (h : Filling cfg F 1 v) :
    Wp (qlCtx cfg live) (Prog.forEach (List.range' 1 (unicastSlotframeLength - 1)) fun i =>
        assignUnicastLink cfg rxShared i false)
      (fun _ t => ∃ w, QlReady cfg F w ∧ At none false w t) s := by
  have Q : QlCtx cfg (qlCtx cfg live) (fun _ => True) := qlCtx_ql _
  refine (Wp.forEach (J := fun xs t => ∃ k w, xs = List.range' k (unicastSlotframeLength - k) ∧
    1 ≤ k ∧ k ≤ unicastSlotframeLength ∧ Filling cfg F k w ∧ At none false w t)
    ?_ _ hi
    ⟨1, v, rfl, le_rfl, by decide, h, hat⟩).mono hi ?_
  · -- the next timeslot
    rintro i xs s hi ⟨k, w, hxs, h1, hk, hfill, hat⟩
    have hlt : k < unicastSlotframeLength := by
      by_contra hge
      rw [show unicastSlotframeLength - k = 0 by omega] at hxs
      cases hxs
    rw [show unicastSlotframeLength - k = (unicastSlotframeLength - (k + 1)) + 1 by omega,
      List.range'_succ, List.cons.injEq] at hxs
    obtain ⟨rfl, rfl⟩ := hxs
    obtain ⟨f, hstage⟩ := hfill.stage
    have hopts : optionsFor 0 i = rxShared := by
      rw [optionsFor, if_neg (by omega)]
    have hstep := hfill.step hlt hmax
    rw [hopts] at hstep
    exact (Q.wp_assignUnicastLink hi hat hstage.sfUnicast rxShared i false (fun _ _ => trivial)
      trivial).mono hi fun _ t _ hat => ⟨i + 1, _, rfl, by omega, hlt, hstep, hat⟩
  · rintro _ t _ ⟨k, w, hxs, _, hk, hfill, hat⟩
    have hk : k = unicastSlotframeLength := by
      have := congrArg List.length hxs
      rw [List.length_nil, List.length_range'] at this
      omega
    exact ⟨w, (hk ▸ hfill).ready, hat⟩

/-- The state `init_tsch_schedule` starts from, and what its loops need. -/
structure ReadyToInit (cfg : Config) (fuel : Nat) (s : TschState) : Prop where
  lock : s.lock = ⟨false, false⟩
  flags : SlotFlags s
  noSlot : s.slot.tschInSlotOperation = false
  flux : s.ghost.linkInFlux = none
  clean : ScheduleClean s.view
  neighbor : cfg.tschBroadcastAddress ∈ s.queue.tschNeighbors
  action : s.node.currentAction = 0
  pending : s.ghost.pendingAction = none
  links : s.sched.allLinks.length < fuel
  slotframes : s.sched.slotframeList.length < fuel

/-- **`init_tsch_schedule`** builds the schedule. -/
theorem wp_initTschSchedule {fuel : Nat} {s : TschState} (h : ReadyToInit cfg fuel s)
    (hmax : unicastSlotframeLength + 1 ≤ cfg.tschScheduleMaxLinks)
    (hsf : 2 ≤ cfg.tschScheduleMaxSlotframes) :
    Wp (qlCtx cfg live) (initTschSchedule cfg fuel)
      (fun _ t => ∃ F v, QlReady cfg F v ∧ At none false v t) s := by
  have Q : QlCtx cfg (qlCtx cfg live) (fun _ => True) := qlCtx_ql _
  have hi : (qlCtx cfg live).inv s := ⟨h.flags, fun _ => h.noSlot⟩
  -- both lists and both pools empty
  refine Wp.call (Q.toSchedCtx.wp_removeAllSlotframes (removalInv_clearing s.view)
    (fun _ _ hv => hv.length.trans_lt h.links) fuel hi ⟨rfl, h.lock, h.flux⟩
    ⟨h.clean, h.neighbor, .refl _, le_rfl⟩ fun _ => h.slotframes) hi ?_
  rintro _ t hit ⟨_, v, hv, hnil, hat⟩
  obtain ⟨hlinks, hsfs⟩ := hv.clean.empty hnil
  have hnone : FramesOnly cfg [] v := ⟨hv.clean.counters, hv.neighbor, hnil,
    fun _ hx => absurd hx List.not_mem_nil, by rw [hsfs]; rfl, hlinks⟩
  -- the broadcast slotframe
  obtain ⟨b, hb, -, hone, hk₁⟩ := hnone.add 0
    (show broadcastSlotframeLength ≠ 0 by decide) (fun _ hx => absurd hx List.not_mem_nil)
    (by simp only [List.length_nil]; omega)
  refine Wp.call (Q.wp_tschScheduleAddSlotframe hit hat 0 broadcastSlotframeLength
    hv.clean.counters.wellFormed.slotframeMemb ⟨trivial, trivial⟩) hit ?_
  rintro r u hiu ⟨hr, hau⟩
  rw [hb] at hr
  subst hr
  refine Wp.call (Q.wp_setNode hiu hau { v.node with sfBroadcast := some b } v.pendingAction
    (fun t ht => by
      rw [← hk₁.node, ← hk₁.pendingAction, ← ht.view]
      rfl) trivial (by simp only [View.target, hk₁.pendingAction, hk₁.node])) hiu
    fun _ w hiw haw => ?_
  have hone' := hone.setNode { v.node with sfBroadcast := some b } v.pendingAction
  -- the unicast slotframe
  obtain ⟨u, hu, hub, htwo, hk₂⟩ := hone'.add 1
    (show unicastSlotframeLength ≠ 0 by decide) (fun x hx => by
      rw [List.nil_append, List.mem_singleton] at hx
      subst hx
      exact zero_ne_one)
    (by simp only [List.nil_append, List.length_singleton]; omega)
  have hne : b ≠ u := fun hbu => hub (by simp [hbu])
  refine Wp.call (Q.wp_tschScheduleAddSlotframe hiw haw 1 unicastSlotframeLength
    hone'.counters.wellFormed.slotframeMemb ⟨trivial, trivial⟩) hiw ?_
  rintro r x hix ⟨hr, hax⟩
  rw [hu] at hr
  subst hr
  refine Wp.call (Q.wp_setNode hix hax
    { v.node with sfBroadcast := some b, sfUnicast := some u } v.pendingAction
    (fun t ht => by
      have hn := (congrArg View.node ht.view).trans hk₂.node
      have hp := (congrArg View.pendingAction ht.view).trans hk₂.pendingAction
      have hn : t.node = { v.node with sfBroadcast := some b } := hn
      have hp : t.ghost.pendingAction = v.pendingAction := hp
      simp only [TschState.setSfUnicast, TschState.setNode, TschState.notePending, hn, ← hp])
    trivial (by simp only [View.target, hk₂.pendingAction, hk₂.node])) hix fun _ y hiy hay => ?_
  have htwo' := htwo.setNode { v.node with sfBroadcast := some b, sfUnicast := some u }
    v.pendingAction
  -- the link of the broadcast slotframe
  obtain ⟨F, hstage, hk₃⟩ := htwo'.broadcastLink hne hmax rfl rfl fun _ => 0
  refine Wp.call (Q.wp_read hiy hay (a := some b) fun t ht =>
    congrArg (fun w : View => w.node.sfBroadcast) ht.view) hiy ?_
  rintro sf z hiz ⟨hsf', haz⟩
  subst hsf'
  refine Wp.call (Q.wp_tschScheduleAddLink hiz haz b txRxShared .advertising
    (some cfg.tschBroadcastAddress) 0 0 false fun _ _ => trivial) hiz ?_
  rintro _ z' hiz' ⟨_, haz'⟩
  -- the links of the unicast slotframe
  have hzero : v.node.currentAction = 0 :=
    (congrArg NodeVars.currentAction hv.node.node).trans h.action
  have hpend : v.pendingAction = none := hv.node.pendingAction.trans h.pending
  have hfill : Filling cfg F 0 _ :=
    ⟨⟨_, hstage⟩, (congrArg NodeVars.currentAction hk₃.node).trans hzero,
      hk₃.pendingAction.trans hpend⟩
  have hopts : optionsFor 0 0 = txShared := rfl
  have hfill₁ := hfill.step (by decide) hmax
  rw [hopts] at hfill₁
  refine Wp.call (Q.wp_assignUnicastLink hiz' haz' hstage.sfUnicast txShared 0 false
    (fun _ _ => trivial) trivial) hiz' fun _ z'' hiz'' haz'' => ?_
  refine (wp_fillUnicast hmax hiz'' haz'' hfill₁).mono hiz'' ?_
  rintro _ t _ ⟨w, hw, hat⟩
  exact ⟨F, w, hw, hat⟩

/-! ## All iterations -/

/-- **The schedule invariant.**  `init_tsch_schedule` returns, and after any
number of iterations, whatever each of them finds and draws, the schedule is the
one of the current action: when the process runs alone, every iteration returns;
when slot interrupts fall between its actions, whenever it has returned. -/
theorem ql_schedule_invariant (fuel : Nat) (s : TschState) (h : ReadyToInit cfg fuel s)
    (hmax : unicastSlotframeLength + 1 ≤ cfg.tschScheduleMaxLinks)
    (hsf : 2 ≤ cfg.tschScheduleMaxSlotframes) :
    ∃ t₀ F, (initTschSchedule cfg fuel).exec s = some ((), t₀) ∧ ∀ rs : List Resume,
      (∃ t, (iterations cfg fuel rs).exec t₀ = some ((), t) ∧ QlInvariant cfg F t) ∧
      ∀ t, Run (fun s s' => ∃ i, slotStep cfg i s = some s') (fun _ _ => True)
        (iterations cfg fuel rs, t₀) (.ret (), t) → QlInvariant cfg F t := by
  have hfuel : 0 < fuel := Nat.zero_lt_of_lt h.links
  -- `init_tsch_schedule`, alone
  have hinit : Wp (qlCtx cfg True) (initTschSchedule cfg fuel) (fun _ t => (qlCtx cfg True).inv t ∧
      ∃ F v, QlReady cfg F v ∧ At none false v t) s :=
    (wp_initTschSchedule h hmax hsf).mono ⟨h.flags, fun _ => h.noSlot⟩ fun _ _ hit hq => ⟨hit, hq⟩
  obtain ⟨_, t₀, hexec, hi₀, F, v, hready, hat⟩ := Wp.exec trivial (fun _ _ => trivial) hinit
  have hinv : ∀ {t : TschState}, (∃ w, QlReady cfg F w ∧ At none false w t) →
      QlInvariant cfg F t := by
    rintro t ⟨_, hw, hat⟩
    exact (hat.view ▸ hw).invariant
  refine ⟨t₀, F, hexec, fun rs => ⟨?_, fun t hr => ?_⟩⟩
  · -- the iterations, alone
    obtain ⟨_, t, hexec, hq⟩ := Wp.exec (C := qlCtx cfg True) trivial (fun _ _ => trivial)
      (wp_iterations hfuel hmax rs hi₀ ⟨v, hready, hat⟩)
    exact ⟨t, hexec, hinv hq⟩
  · -- the iterations, interrupted
    have hi : (qlCtx cfg False).inv t₀ := ⟨hi₀.1, False.elim⟩
    have Q : QlCtx cfg (qlCtx cfg False) (fun _ => True) := qlCtx_ql _
    have hrun : Run (qlCtx cfg False).irq (qlCtx cfg False).cond (iterations cfg fuel rs, t₀)
        (.ret (), t) :=
      Run.mono (fun _ _ hirq => ⟨not_false, hirq⟩) (fun _ _ hc => hc) hr
    obtain ⟨-, u, hiu, hrel, w, hw, hau⟩ :=
      Wp.run hi (wp_iterations hfuel hmax rs hi ⟨v, hready, hat⟩) hrun
    exact hinv ⟨w, hw, Q.at_rely hiu hau hrel⟩

theorem readyToInit_boot {fuel : Nat} (hfuel : 0 < fuel) :
    ReadyToInit cfg fuel (TschState.boot cfg) where
  lock := rfl
  flags := ⟨iff_of_false Bool.false_ne_true (fun h => h rfl), fun h => absurd h Bool.false_ne_true⟩
  noSlot := rfl
  flux := rfl
  clean := ⟨countersInv_boot, fun p hp => absurd hp (Finset.notMem_empty p),
    fun b hb => absurd hb (Finset.notMem_empty b)⟩
  neighbor := List.mem_cons_of_mem _ List.mem_cons_self
  action := rfl
  pending := rfl
  links := hfuel
  slotframes := hfuel

theorem scheduled_spec {fuel : Nat} (hfuel : 0 < fuel)
    (hmax : unicastSlotframeLength + 1 ≤ cfg.tschScheduleMaxLinks)
    (hsf : 2 ≤ cfg.tschScheduleMaxSlotframes) :
    (qlCtx cfg True).inv (TschState.scheduled cfg fuel) ∧
      ∃ F v, QlReady cfg F v ∧ At none false v (TschState.scheduled cfg fuel) := by
  have hboot : ReadyToInit cfg fuel (TschState.boot cfg) := readyToInit_boot hfuel
  have hwp : Wp (qlCtx cfg True) (initTschSchedule cfg fuel) (fun _ t => (qlCtx cfg True).inv t ∧
      ∃ F v, QlReady cfg F v ∧ At none false v t) (TschState.boot cfg) :=
    (wp_initTschSchedule hboot hmax hsf).mono ⟨hboot.flags, fun _ => hboot.noSlot⟩
      fun _ _ hit hq => ⟨hit, hq⟩
  obtain ⟨_, t, hexec, hq⟩ := Wp.exec trivial (fun _ _ => trivial) hwp
  simp only [TschState.scheduled, hexec]
  exact hq

theorem scheduled_ready {fuel : Nat} (hfuel : 0 < fuel)
    (hmax : unicastSlotframeLength + 1 ≤ cfg.tschScheduleMaxLinks)
    (hsf : 2 ≤ cfg.tschScheduleMaxSlotframes) :
    ∃ F, QlReady cfg F (TschState.scheduled cfg fuel).view := by
  obtain ⟨-, F, v, hready, hat⟩ := scheduled_spec hfuel hmax hsf
  exact ⟨F, hat.view ▸ hready⟩

/-- A success was recorded, and the process explores. -/
def exploring : Resume := ⟨fun _ => 0, fun i => if i = 4 then 0 else 1, 1, 0, ⟨3, 0, 4⟩⟩

/-- From the boot state, through one iteration that moves the Tx link. -/
theorem ql_schedule_invariant_boot :
    ∃ t₀ F t, (initTschSchedule (smallBuild 8) 20).exec (.boot (smallBuild 8)) = some ((), t₀) ∧
      (iterations (smallBuild 8) 20 [exploring]).exec t₀ = some ((), t) ∧
      QlInvariant (smallBuild 8) F t := by
  obtain ⟨t₀, F, hinit, h⟩ := ql_schedule_invariant 20 (.boot (smallBuild 8))
    (readyToInit_boot (by decide)) (by decide) (by decide)
  obtain ⟨t, hexec, hinv⟩ := (h [exploring]).1
  exact ⟨t₀, F, t, hinit, hexec, hinv⟩

end QlTsch
