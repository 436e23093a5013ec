/-
# `QlTsch.QlRound` — one round of the scheduler

A round credits the last transmission, chooses an action under the lock, and
then, with the lock released, moves the Tx link of the unicast slotframe to the
timeslot of the action: two calls of `tsch_schedule_add_link`, each of which
removes the link that was there.

`QlStage` is the state of this between two calls, with the neighbor counters and
the pointer array; `QlVisible` is what an interrupt may find at any point where
the lock is free.  `QlCtx` collects what a proof about the rounds has to bring
along beyond `SchedCtx`, and `QlCtx.wp_schedulerRound` is the round in any such
context.
-/
import QlTsch.LinkCounters
import QlTsch.QLearning
import QlTsch.QlSchedule

namespace QlTsch

open Interleave Interleave.Prog ScheduleVars
open scoped List

variable {cfg : Config} {F : QlFrames} {L : List Nat} {f : Nat → Nat} {o : Nat → LinkOptions}
  {v : View}

/-! ## The calls, as functions of the view -/

/-- `links_unicast_sf[timeslot] = tsch_schedule_add_link(…)`, on slotframe `u`. -/
def View.assign (cfg : Config) (u : Nat) (opts : LinkOptions) (ts : Nat) (rm : Bool) (v : View) : View :=
  let r := v.addLink cfg u opts .normal (some cfg.tschBroadcastAddress) ts 0 rm
  { r.2 with node := { r.2.node with
      linksUnicastSf := Function.update r.2.node.linksUnicastSf ts r.1 } }

/-- The variables of `node.c` stay. -/
structure KeepsNode (v w : View) : Prop where
  node : w.node = v.node
  pendingAction : w.pendingAction = v.pendingAction

namespace KeepsNode

theorem refl (v : View) : KeepsNode v v := ⟨rfl, rfl⟩

theorem trans {v w x : View} (h : KeepsNode v w) (h' : KeepsNode w x) : KeepsNode v x :=
  ⟨h'.node.trans h.node, h'.pendingAction.trans h.pendingAction⟩

variable (cfg) in
theorem addNbr (a : LinkAddr) (v : View) : KeepsNode v (View.addNbr cfg a v).2 := by
  simp only [View.addNbr]
  split
  · exact refl v
  · split <;> exact ⟨rfl, rfl⟩

theorem count (opts : LinkOptions) (a : LinkAddr) (v : View) : KeepsNode v (v.count cfg opts a) := by
  have h := addNbr cfg a v
  simp only [View.count]
  split
  · split <;> rename_i hr <;> rw [hr] at h <;> exact ⟨h.1, h.2⟩
  · exact refl v

theorem removeLink (b p : Nat) (v : View) : KeepsNode v (v.removeLink b p).2 := by
  simp only [View.removeLink]
  split
  · simp only [View.uncount]
    split <;> exact ⟨rfl, rfl⟩
  · exact refl v

end KeepsNode

/-- An installation: what is visible differs in the neighbors and counters only. -/
theorem View.installLink_spec {b p : Nat} (opts : LinkOptions) (ty : LinkType) (a : LinkAddr)
    (ts off : Nat) (hp : cfg.memb.pick v.sched.linkMemb cfg.tschScheduleMaxLinks = some p) :
    (v.installLink cfg b opts ty a ts off).1 = some p ∧
      ((v.installLink cfg b opts ty a ts off).2.sched = (v.install b p opts ty a ts off).sched ∧
        KeepsNode v (v.installLink cfg b opts ty a ts off).2) ∧
      ∀ w ∈ v.installLinkVisible cfg b opts ty a ts off,
        w.sched = (v.install b p opts ty a ts off).sched ∧ KeepsNode v w := by
  have hinst : KeepsNode v (v.install b p opts ty a ts off) := ⟨rfl, rfl⟩
  have hcount : ((v.install b p opts ty a ts off).count cfg opts a).sched =
      (v.install b p opts ty a ts off).sched ∧
        KeepsNode v ((v.install b p opts ty a ts off).count cfg opts a) :=
    ⟨View.count_sched opts a, hinst.trans (.count opts a _)⟩
  simp only [View.installLink, View.installLinkVisible, hp]
  refine ⟨trivial, hcount, ?_⟩
  intro w hw
  split at hw
  · simp only [List.mem_cons, List.not_mem_nil, or_false] at hw
    rcases hw with rfl | rfl | rfl
    · exact ⟨rfl, hinst⟩
    · exact ⟨View.addNbr_sched cfg _ a, hinst.trans (.addNbr cfg a _)⟩
    · exact hcount
  · rw [List.mem_singleton.mp hw]
    exact ⟨rfl, hinst⟩

/-! ## Stages -/

/-- Between two calls. -/
structure QlStage (cfg : Config) (F : QlFrames) (L : List Nat) (f : Nat → Nat)
    (o : Nat → LinkOptions) (v : View) : Prop where
  links : QlLinks cfg F L f o v.sched
  counters : CountersInv v
  neighbor : cfg.tschBroadcastAddress ∈ v.nbrs
  sfBroadcast : v.node.sfBroadcast = some F.broadcast
  sfUnicast : v.node.sfUnicast = some F.unicast
  pointers : ∀ i ∈ L, v.node.linksUnicastSf i = some (f i)

/-- A Tx link may be at the current action, or at the action being set up. -/
def TxAllowed (v : View) (i : Nat) : Prop := i = v.node.currentAction ∨ v.pendingAction = some i

/-- What an interrupt may find while the lock is free. -/
def QlVisible (cfg : Config) (F : QlFrames) (v : View) : Prop :=
  ∃ L f o, QlLinks cfg F L f o v.sched ∧ ∀ i ∈ L, (o i).tx = true → TxAllowed v i

theorem CountersInv.setNode (h : CountersInv v) (n : NodeVars) (a : Option Nat) :
    CountersInv { v with node := n, pendingAction := a } :=
  h.congr h.wellFormed (.refl _) rfl rfl rfl rfl

theorem roomForTx_of_mem {ns : List LinkAddr} {a : LinkAddr} (h : a ∈ ns) (opts : LinkOptions) :
    roomForTx cfg ns opts a = true := by
  simp only [roomForTx, h, decide_true, Bool.or_true, Bool.true_or]

theorem mem_count_nbrs {opts : LinkOptions} {a m : LinkAddr} (h : m ∈ v.nbrs) :
    m ∈ (v.count cfg opts a).nbrs := by
  have hadd : m ∈ (View.addNbr cfg a v).2.nbrs := mem_addNbr h
  simp only [View.count]
  split
  · split <;> rename_i hr <;> rw [hr] at hadd <;> exact hadd
  · exact h

namespace QlStage

variable {a : Nat}

theorem free (h : QlStage cfg F L f o v) (ha : a ∈ L) :
    QlStage cfg F (L.erase a) f o (v.removeLinkByTimeslot F.unicast a 0).2 ∧
      KeepsNode v (v.removeLinkByTimeslot F.unicast a 0).2 ∧
      ∀ w ∈ v.removeLinksAtVisible F.unicast a 0 (v.slotframe F.unicast).linksList,
        QlLinks cfg F (L.erase a) f o w.sched ∧ KeepsNode v w := by
  obtain ⟨hres, hsched, hvis⟩ := h.links.removeLinkByTimeslot ha
  have hfree := h.links.unlink ha
  have hkeep : KeepsNode v (v.removeLinkByTimeslot F.unicast a 0).2 := hres ▸ .removeLink _ _ v
  have hnbrs : (v.removeLinkByTimeslot F.unicast a 0).2.nbrs = v.nbrs := by
    rw [hres]
    exact View.removeLink_nbrs
  refine ⟨⟨hsched ▸ hfree, ?_, hnbrs ▸ h.neighbor, ?_, ?_, fun i hi => ?_⟩, hkeep, fun w hw => ?_⟩
  · rw [hres]
    exact (countersInv_removeLink h.counters h.links.unicast_mem (h.links.f_mem ha)).2
  · rw [hkeep.node]
    exact h.sfBroadcast
  · rw [hkeep.node]
    exact h.sfUnicast
  · rw [hkeep.node]
    exact h.pointers i (List.mem_of_mem_erase hi)
  · obtain ⟨hws, hwn, hwp⟩ := hvis w hw
    exact ⟨hws ▸ hfree, hwn, hwp⟩

theorem fill (h : QlStage cfg F L f o v) (ha : a < unicastSlotframeLength) (hna : a ∉ L)
    (hmax : unicastSlotframeLength + 1 ≤ cfg.tschScheduleMaxLinks) (opts : LinkOptions) :
    ∃ p, (v.installLink cfg F.unicast opts .normal cfg.tschBroadcastAddress a 0).1 = some p ∧
      QlStage cfg F (L ++ [a]) (Function.update f a p) (Function.update o a opts)
        { (v.installLink cfg F.unicast opts .normal cfg.tschBroadcastAddress a 0).2 with
          node := { v.node with
            linksUnicastSf := Function.update v.node.linksUnicastSf a (some p) } } ∧
      KeepsNode v (v.installLink cfg F.unicast opts .normal cfg.tschBroadcastAddress a 0).2 ∧
      ∀ w ∈ v.installLinkVisible cfg F.unicast opts .normal cfg.tschBroadcastAddress a 0,
        QlLinks cfg F (L ++ [a]) (Function.update f a p) (Function.update o a opts) w.sched ∧
          KeepsNode v w := by
  obtain ⟨p, hp⟩ := h.links.exists_block ha hna hmax
  have hfresh : p ∉ v.sched.linkMemb := cfg.memb.pick_fresh hp
  obtain ⟨hfst, ⟨hsched, hkeep⟩, hvis⟩ := View.installLink_spec opts .normal
    cfg.tschBroadcastAddress a 0 hp (b := F.unicast)
  have hlinks := h.links.install ha hna hfresh opts
  have hcounters : CountersInv
      (v.installLink cfg F.unicast opts .normal cfg.tschBroadcastAddress a 0).2 :=
    (callInv_counters.installLink_any .normal a 0 h.counters h.links.unicast_mem
      (roomForTx_of_mem h.neighbor opts)).2
  have hnbr : cfg.tschBroadcastAddress ∈
      (v.installLink cfg F.unicast opts .normal cfg.tschBroadcastAddress a 0).2.nbrs := by
    have hinst : (v.installLink cfg F.unicast opts .normal cfg.tschBroadcastAddress a 0).2 =
        (v.install F.unicast p opts .normal cfg.tschBroadcastAddress a 0).count cfg opts
          cfg.tschBroadcastAddress := by
      simp only [View.installLink, hp]
    rw [hinst]
    exact mem_count_nbrs h.neighbor
  refine ⟨p, hfst, ⟨?_, hcounters.setNode _ _, hnbr, h.sfBroadcast, h.sfUnicast, fun i hi => ?_⟩,
    hkeep, fun w hw => ?_⟩
  · exact hsched ▸ hlinks
  · rcases List.mem_append.mp hi with hi | hi
    · have hne : i ≠ a := fun hia => hna (hia ▸ hi)
      simp only [Function.update_of_ne hne]
      exact h.pointers i hi
    · rw [List.mem_singleton.mp hi]
      simp only [Function.update_self]
  · obtain ⟨hws, hwk⟩ := hvis w hw
    exact ⟨hws ▸ hlinks, hwk⟩

theorem in_range (h : QlLinks cfg F L f o v.sched) {a : Nat} (ha : a < unicastSlotframeLength) :
    ¬ ((a : Int) > (v.slotframe F.unicast).size - 1) := by
  have hsize : (v.slotframe F.unicast).size = unicastSlotframeLength := h.unicastSize
  rw [hsize]
  omega

theorem add (h : QlStage cfg F L f o v) (ha : a < unicastSlotframeLength) (hna : a ∉ L)
    (hmax : unicastSlotframeLength + 1 ≤ cfg.tschScheduleMaxLinks) (opts : LinkOptions) :
    ∃ p, QlStage cfg F (L ++ [a]) (Function.update f a p) (Function.update o a opts)
        (v.assign cfg F.unicast opts a false) ∧
      (v.assign cfg F.unicast opts a false).node.currentAction = v.node.currentAction ∧
      (v.assign cfg F.unicast opts a false).pendingAction = v.pendingAction := by
  obtain ⟨p, hfst, hstage, hkeep, -⟩ := h.fill ha hna hmax opts
  refine ⟨p, ?_⟩
  simp only [View.assign, View.addLink, in_range h.links ha, if_false, Bool.false_eq_true,
    Option.getD_some, hfst, hkeep.node]
  exact ⟨hstage, trivial, hkeep.pendingAction⟩

theorem replace (h : QlStage cfg F L f o v) (ha : a ∈ L)
    (hmax : unicastSlotframeLength + 1 ≤ cfg.tschScheduleMaxLinks) (opts : LinkOptions) :
    ∃ p, QlStage cfg F (L.erase a ++ [a]) (Function.update f a p) (Function.update o a opts)
        (v.assign cfg F.unicast opts a true) ∧
      (v.assign cfg F.unicast opts a true).node.currentAction = v.node.currentAction ∧
      (v.assign cfg F.unicast opts a true).pendingAction = v.pendingAction ∧
      ∀ w ∈ v.addLinkVisible cfg F.unicast opts .normal (some cfg.tschBroadcastAddress) a 0 true,
        (QlLinks cfg F (L.erase a) f o w.sched ∨
          QlLinks cfg F (L.erase a ++ [a]) (Function.update f a p) (Function.update o a opts)
            w.sched) ∧ KeepsNode v w := by
  have hlt := h.links.bound a ha
  obtain ⟨hfree, hkeep, hvis⟩ := h.free ha
  have hna : a ∉ L.erase a := h.links.timeslots.not_mem_erase
  obtain ⟨p, hfst, hstage, hkeep', hvis'⟩ := hfree.fill hlt hna hmax opts
  have hassign : v.assign cfg F.unicast opts a true =
      { ((v.removeLinkByTimeslot F.unicast a 0).2.installLink cfg F.unicast opts .normal
          cfg.tschBroadcastAddress a 0).2 with
        node := { (v.removeLinkByTimeslot F.unicast a 0).2.node with
          linksUnicastSf := Function.update
            (v.removeLinkByTimeslot F.unicast a 0).2.node.linksUnicastSf a (some p) } } := by
    simp only [View.assign, View.addLink, in_range h.links hlt, if_false, if_true,
      Option.getD_some, hfst, hkeep'.node]
  refine ⟨p, hassign ▸ hstage, ?_, ?_, fun w hw => ?_⟩
  · have hcur := congrArg NodeVars.currentAction hkeep.node
    rw [hassign]
    exact hcur
  · rw [hassign]
    exact hkeep'.pendingAction.trans hkeep.pendingAction
  · simp only [View.addLinkVisible, if_true, Option.getD_some, List.mem_append] at hw
    rcases hw with hw | hw
    · obtain ⟨hl, hk⟩ := hvis w hw
      exact ⟨.inl hl, hk⟩
    · obtain ⟨hl, hk⟩ := hvis' w hw
      exact ⟨.inr hl, hkeep.trans hk⟩

/-- Throughout a replacement Tx links are where they may be. -/
theorem replace_visible (h : QlStage cfg F L f o v) (ha : a ∈ L)
    (hmax : unicastSlotframeLength + 1 ≤ cfg.tschScheduleMaxLinks) (opts : LinkOptions)
    (hold : ∀ i ∈ L, (o i).tx = true → TxAllowed v i) (hnew : opts.tx = true → TxAllowed v a) :
    (∀ w ∈ v.addLinkVisible cfg F.unicast opts .normal (some cfg.tschBroadcastAddress) a 0 true,
        QlVisible cfg F w) ∧ QlVisible cfg F (v.assign cfg F.unicast opts a true) := by
  obtain ⟨p, hstage, hcur, hpend, hvis⟩ := h.replace ha hmax opts
  -- the allowed timeslots are the same at each of these views
  have hupd : ∀ i ∈ L.erase a ++ [a], (Function.update o a opts i).tx = true → TxAllowed v i := by
    intro i hi htx
    by_cases hia : i = a
    · subst hia
      rw [Function.update_self] at htx
      exact hnew htx
    · rw [Function.update_of_ne hia] at htx
      rcases List.mem_append.mp hi with hi | hi
      · exact hold i (List.mem_of_mem_erase hi) htx
      · exact absurd (List.mem_singleton.mp hi) hia
  refine ⟨fun w hw => ?_, ?_⟩
  · obtain ⟨hl, hk⟩ := hvis w hw
    have hall : ∀ i, TxAllowed v i → TxAllowed w i := fun i hi => by
      simp only [TxAllowed, hk.node, hk.pendingAction]
      exact hi
    rcases hl with hl | hl
    · exact ⟨_, _, _, hl, fun i hi htx => hall i (hold i (List.mem_of_mem_erase hi) htx)⟩
    · exact ⟨_, _, _, hl, fun i hi htx => hall i (hupd i hi htx)⟩
  · refine ⟨_, _, _, hstage.links, ?_⟩
    intro i hi htx
    simp only [TxAllowed, hcur, hpend]
    exact hupd i hi htx

end QlStage

/-! ## Between rounds -/

/-- The options of timeslot `i` when the Tx link is at `c`. -/
def optionsFor (c i : Nat) : LinkOptions := if i = c then txShared else rxShared

theorem optionsFor_tx {c i : Nat} (h : (optionsFor c i).tx = true) : i = c := by
  by_contra hne
  simp [optionsFor, hne, rxShared] at h

/-- The whole schedule, its Tx link at `c`. -/
structure QlSet (cfg : Config) (F : QlFrames) (c : Nat) (v : View) : Prop where
  stage : ∃ L f, (∀ i < unicastSlotframeLength, i ∈ L) ∧ QlStage cfg F L f (optionsFor c) v
  bound : c < unicastSlotframeLength

theorem QlSet.visible {c : Nat} (h : QlSet cfg F c v) (hc : TxAllowed v c) : QlVisible cfg F v := by
  obtain ⟨L, f, -, hstage⟩ := h.stage
  exact ⟨L, f, _, hstage.links, fun i _ htx => optionsFor_tx htx ▸ hc⟩

theorem QlSet.wellFormed {c : Nat} (h : QlSet cfg F c v) : v.sched.WellFormed := by
  obtain ⟨L, f, -, hstage⟩ := h.stage
  exact hstage.links.wellFormed

theorem QlSet.setNode {c : Nat} (h : QlSet cfg F c v) {n : NodeVars} (a : Option Nat)
    (hb : n.sfBroadcast = v.node.sfBroadcast) (hu : n.sfUnicast = v.node.sfUnicast)
    (hl : n.linksUnicastSf = v.node.linksUnicastSf) :
    QlSet cfg F c { v with node := n, pendingAction := a } := by
  obtain ⟨L, f, hall, hstage⟩ := h.stage
  refine ⟨⟨L, f, hall, hstage.links, hstage.counters.setNode n a, hstage.neighbor,
    hb.trans hstage.sfBroadcast, hu.trans hstage.sfUnicast, fun i hi => ?_⟩, h.bound⟩
  have hp : n.linksUnicastSf i = v.node.linksUnicastSf i := by rw [hl]
  exact hp.trans (hstage.pointers i hi)

/-- Between rounds the Tx link is at the current action. -/
structure QlReady (cfg : Config) (F : QlFrames) (v : View) : Prop where
  set : QlSet cfg F v.node.currentAction v
  pending : v.pendingAction = none

/-- The action the next transmission will be credited to. -/
def View.target (v : View) : Nat := v.pendingAction.getD v.node.currentAction

/-! ## The round in a proof context -/

/-- A context for the programs of `node.c`. -/
structure QlCtx (cfg : Config) (C : Ctx TschState) (ok : View → Prop) : Prop
    extends SchedCtx cfg C ok where
  /-- under the lock: the reward is settled and the next action chosen -/
  settle : ∀ d {s v}, C.inv s → At none true v s → v.pendingAction = none →
    Wp C (settleAndChoose cfg d) (fun a t => a < unicastSlotframeLength ∧
      ∃ q, At none true { v with node := { v.node with qValues := q }, pendingAction := some a } t) s
  /-- the other variables are written while nothing changes about who is credited -/
  setNode : ∀ {s v} n a, C.inv s → At none false v s →
    ok { v with node := n, pendingAction := a } →
    ({ v with node := n, pendingAction := a } : View).target = v.target →
    C.inv ((s.setNode n).notePending a)

namespace QlCtx

variable {C : Ctx TschState} {ok : View → Prop} (Q : QlCtx cfg C ok)
include Q

theorem wp_setNode {s : TschState} (hi : C.inv s) (h : At none false v s) {g : TschState → TschState}
    (n : NodeVars) (a : Option Nat) (hg : ∀ t, At none false v t → g t = (t.setNode n).notePending a)
    (hok : ok { v with node := n, pendingAction := a })
    (htarget : ({ v with node := n, pendingAction := a } : View).target = v.target) :
    Wp C (Prog.modify g) (fun _ t => At none false { v with node := n, pendingAction := a } t) s := by
  refine Q.wp_modify hi h (fun t hit hat _ => ?_) fun t hat => ?_
  · rw [hg t hat]
    exact Q.setNode n a hit hat hok htarget
  · rw [hg t hat]
    refine ⟨?_, hat.lock, hat.flux⟩
    rw [← hat.view]
    rfl

theorem wp_assignUnicastLink {s : TschState} {u : Nat} (hi : C.inv s) (h : At none false v s)
    (hu : v.node.sfUnicast = some u) (opts : LinkOptions) (ts : Nat) (rm : Bool)
    (hvis : ∀ w ∈ v.addLinkVisible cfg u opts .normal (some cfg.tschBroadcastAddress) ts 0 rm, ok w)
    (hok : ok (v.assign cfg u opts ts rm)) :
    Wp C (assignUnicastLink cfg opts ts rm) (fun _ t => At none false (v.assign cfg u opts ts rm) t)
      s := by
  refine Wp.call (Q.wp_read hi h (a := some u) fun t ht => ?_) hi ?_
  · rw [← hu, ← ht.view]
    rfl
  rintro sf t hit ⟨hsf, hat⟩
  subst hsf
  refine Wp.call (Q.wp_tschScheduleAddLink hit hat u opts .normal (some cfg.tschBroadcastAddress)
    ts 0 rm hvis) hit ?_
  rintro l x hix ⟨hl, hax⟩
  subst hl
  refine Q.wp_setNode hix hax _ _ (fun t hat => ?_) hok rfl
  rw [← hat.view]
  rfl

theorem wp_spinGetLock {s : TschState} {fuel : Nat} (hfuel : C.live → 0 < fuel) (hi : C.inv s)
    (h : At none false v s) : Wp C (spinUntil fuel tschGetLock) (fun _ t => At none true v t) s := by
  refine Wp.loop (J := fun _ t => At none false v t) (fun n t hit hat => ?_) fuel hfuel hi h
  refine Wp.call (Q.wp_getLock hit hat) hit ?_
  rintro got u _ ⟨hgot, hau⟩
  subst hgot
  exact Wp.ret hau

variable (hok : ∀ w, QlVisible cfg F w → ok w)
  (hmax : unicastSlotframeLength + 1 ≤ cfg.tschScheduleMaxLinks)
include hok hmax

/-- **`set_up_new_schedule`**: the Tx link moves to the timeslot of the action. -/
theorem wp_setUpNewSchedule {s : TschState} {a : Nat} (hi : C.inv s) (h : At none false v s)
    (hset : QlSet cfg F v.node.currentAction v) (ha : a < unicastSlotframeLength)
    (hpend : v.pendingAction = some a) :
    Wp C (setUpNewSchedule cfg a) (fun _ t => ∃ w, QlSet cfg F a w ∧ w.node.currentAction = a ∧
      w.pendingAction = some a ∧ At none false w t) s := by
  refine Wp.call (Q.wp_read hi h (a := a != v.node.currentAction) fun t ht => by
    rw [← ht.view]; rfl) hi ?_
  rintro new t hit ⟨hnew, hat⟩
  subst hnew
  obtain ⟨L, f, hall, hstage⟩ := hset.stage
  by_cases hac : a = v.node.currentAction
  · -- nothing to do
    have hbeq : (a != v.node.currentAction) = false := by rw [hac, bne_self_eq_false]
    rw [hbeq]
    exact Wp.ret ⟨v, hac ▸ hset, hac.symm, hpend, hat⟩
  · have hbne : (a != v.node.currentAction) = true := bne_iff_ne.mpr hac
    rw [hbne]
    -- the Tx link of the action
    obtain ⟨p, hstage₁, hcur₁, hpend₁, -⟩ := hstage.replace (hall a ha) hmax txShared
    obtain ⟨hvis, hok₁⟩ := hstage.replace_visible (hall a ha) hmax txShared
      (fun i _ htx => .inl (optionsFor_tx htx)) fun _ => .inr hpend
    refine Wp.call (Q.wp_assignUnicastLink hit hat hstage.sfUnicast txShared a true
      (fun w hw => hok w (hvis w hw)) (hok _ hok₁)) hit fun _ u hiu hau => ?_
    refine Wp.call (Q.wp_read hiu hau (a := v.node.currentAction) fun t ht => by
      rw [← hcur₁, ← ht.view]; rfl) hiu ?_
    rintro c x hix ⟨hc, hax⟩
    subst hc
    have hpend₁ := hpend₁.trans hpend
    -- the Rx link of the old one
    have hall₁ : ∀ i < unicastSlotframeLength, i ∈ L.erase a ++ [a] := fun i hi => by
      by_cases hia : i = a
      · exact List.mem_append_right _ (List.mem_singleton.mpr hia)
      · exact List.mem_append_left _ ((List.mem_erase_of_ne hia).mpr (hall i hi))
    have hcmem := hall₁ _ hset.bound
    obtain ⟨p', hstage₂, hcur₂, hpend₂, -⟩ := hstage₁.replace hcmem hmax rxShared
    obtain ⟨hvis₂, hok₂⟩ := hstage₁.replace_visible hcmem hmax rxShared
      (fun i _ htx => by
        by_cases hia : i = a
        · exact .inr (hia ▸ hpend₁)
        · rw [Function.update_of_ne hia] at htx
          exact .inl ((optionsFor_tx htx).trans hcur₁.symm)) fun htx => by
        cases htx
    refine Wp.call (Q.wp_assignUnicastLink hix hax hstage₁.sfUnicast rxShared _ true
      (fun w hw => hok w (hvis₂ w hw)) (hok _ hok₂)) hix fun _ y hiy hay => ?_
    have hopts : Function.update (Function.update (optionsFor v.node.currentAction) a txShared)
        v.node.currentAction rxShared = optionsFor a := by
      funext i
      by_cases hic : i = v.node.currentAction
      · subst hic
        rw [Function.update_self, optionsFor, if_neg (Ne.symm hac)]
      · rw [Function.update_of_ne hic]
        by_cases hia : i = a
        · subst hia
          rw [Function.update_self, optionsFor, if_pos rfl]
        · rw [Function.update_of_ne hia, optionsFor, if_neg hic, optionsFor, if_neg hia]
    rw [hopts] at hstage₂
    have hset₂ : QlSet cfg F a ((v.assign cfg F.unicast txShared a true).assign cfg F.unicast
        rxShared v.node.currentAction true) := by
      refine ⟨⟨_, _, fun i hi => ?_, hstage₂⟩, ha⟩
      by_cases hic : i = v.node.currentAction
      · exact List.mem_append_right _ (List.mem_singleton.mpr hic)
      · exact List.mem_append_left _ ((List.mem_erase_of_ne hic).mpr (hall₁ i hi))
    have hset₃ := hset₂.setNode (some a) (n := { ((v.assign cfg F.unicast txShared a true).assign cfg
      F.unicast rxShared v.node.currentAction true).node with currentAction := a }) rfl rfl rfl
    have hpend₂ := hpend₂.trans hpend₁
    refine (Q.wp_setNode hiy hay _ (some a) (fun t hat => ?_) (hok _ (hset₃.visible (.inl rfl)))
      ?_).mono hiy fun _ t _ hat => ⟨_, hset₃, rfl, rfl, hat⟩
    · have hp : t.ghost.pendingAction = some a := by
        rw [← hpend₂, ← hat.view]
        rfl
      rw [← hat.view, ← hp]
      rfl
    · simp only [View.target, hpend₂, Option.getD_some]

/-- **One round.** -/
theorem wp_schedulerRound {s : TschState} {fuel : Nat} (hfuel : C.live → 0 < fuel) (d : Draws)
    (hi : C.inv s) (h : ∃ v, QlReady cfg F v ∧ At none false v s) :
    Wp C (schedulerRound cfg fuel d) (fun _ t => ∃ w, QlReady cfg F w ∧ At none false w t) s := by
  obtain ⟨v, hready, hat⟩ := h
  refine Wp.call (Q.wp_spinGetLock hfuel hi hat) hi fun _ t hit hat => ?_
  refine Wp.call (Q.settle d hit hat hready.pending) hit ?_
  rintro a u hiu ⟨ha, q, hau⟩
  have hset := hready.set.setNode (n := { v.node with qValues := q }) (some a) rfl rfl rfl
  refine Wp.call (Q.wp_releaseLock hiu hau (hok _ (hset.visible (.inl rfl)))) hiu
    fun _ x hix hax => ?_
  refine Wp.call (Q.wp_setUpNewSchedule hok hmax hix hax hset ha rfl) hix ?_
  rintro _ y hiy ⟨w, hset', hcur, hpend, hay⟩
  refine Wp.bind (Wp.waitFor hiy fun z hz hiz => ?_)
  have haz := Q.at_rely hiy hay hz
  refine ⟨fun _ => by simp only [tschIsLocked, haz.lock]; rfl, fun _ => ?_⟩
  have hready' : QlReady cfg F { w with
      node := { w.node with
        currentAction := a
        cyclesSinceStart := (w.node.cyclesSinceStart + 1) % 65536 }
      pendingAction := none } :=
    ⟨hset'.setNode none rfl rfl rfl, rfl⟩
  refine (Q.wp_setNode hiz haz _ none (fun t hat => ?_) (hok _ (hready'.set.visible (.inl rfl)))
    ?_).mono hiz fun _ t _ hat => ⟨_, hready', hat⟩
  · rw [← hat.view]
    rfl
  · simp only [View.target, hpend, Option.getD_some, Option.getD_none]

end QlCtx
end QlTsch
