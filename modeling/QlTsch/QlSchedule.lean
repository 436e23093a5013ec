/-
# `QlTsch.QlSchedule` — the shape of the QL-TSCH schedule

Two slotframes: the broadcast slotframe with its one link, and the unicast
slotframe with at most one link a timeslot.  `QlLinks` says this with the
timeslots in use (`L`), the block of each (`f`) and its options (`o`) made
explicit, so that a replacement of a link is two updates: a timeslot leaves `L`,
and comes back with another block and other options.

The pool is never short of a block: what is allocated is on one of the two
lists, so while a timeslot is free fewer than `UNICAST_SLOTFRAME_LENGTH + 1`
blocks are in use.
-/
import Mathlib.Data.Finset.Dedup
import QlTsch.Node
import QlTsch.ScheduleInvariant

namespace QlTsch

open ScheduleVars
open scoped List

/-! ## Removing the link of a timeslot -/

namespace View

variable {v : View} {b p ts off : Nat} {ls : List Nat}

theorem removeLink_link (q : Nat) : (v.removeLink b p).2.link q = v.link q := by
  simp only [removeLink]
  split
  · have h := congrArg (fun x : ScheduleVars => x.links q)
      (uncount_sched (v := v.unlink b p) (v.link p).linkOptions (v.link p).addr)
    exact h
  · rfl

variable (b) in
theorem removeLinksAt_none (h : ∀ q ∈ ls, ¬ ((v.link q).timeslot = ts ∧ (v.link q).channelOffset = off)) :
    (v.removeLinksAt b ts off ls).2 = v ∧ v.removeLinksAtVisible b ts off ls = [] := by
  induction ls with
  | nil => exact ⟨rfl, rfl⟩
  | cons q ls ih =>
      have hq := h q List.mem_cons_self
      have hls := ih fun r hr => h r (List.mem_cons_of_mem q hr)
      simp only [removeLinksAt, removeLinksAtVisible, removeLinkIfAt, removeLinkIfAtVisible, hq,
        if_false, List.nil_append]
      exact hls

variable (b) in
/-- When one link of the list is at the place, its removal is all that happens. -/
theorem removeLinksAt_one (hn : ls.Nodup) (hp : p ∈ ls)
    (hat : (v.link p).timeslot = ts ∧ (v.link p).channelOffset = off)
    (hother : ∀ q ∈ ls, q ≠ p → (v.link q).timeslot ≠ ts) :
    (v.removeLinksAt b ts off ls).2 = (v.removeLink b p).2 ∧
      v.removeLinksAtVisible b ts off ls = v.removeLinkVisible b p := by
  induction ls with
  | nil => cases hp
  | cons q ls ih =>
      obtain ⟨hq, hn⟩ := List.nodup_cons.mp hn
      simp only [removeLinksAt, removeLinksAtVisible, removeLinkIfAt, removeLinkIfAtVisible]
      by_cases hqp : q = p
      · -- here: nothing else in the rest
        subst hqp
        simp only [hat, and_self, if_true]
        have hnone : ∀ r ∈ ls, ¬ (((v.removeLink b q).2.link r).timeslot = ts ∧
            ((v.removeLink b q).2.link r).channelOffset = off) := by
          intro r hr hrat
          rw [removeLink_link] at hrat
          have hne : r ≠ q := fun hrq => hq (hrq ▸ hr)
          exact hother r (List.mem_cons_of_mem q hr) hne hrat.1
        obtain ⟨hres, hvis⟩ := removeLinksAt_none b hnone
        rw [hres, hvis, List.append_nil]
        exact ⟨rfl, rfl⟩
      · have hnot : ¬ ((v.link q).timeslot = ts ∧ (v.link q).channelOffset = off) := fun h =>
          hother q List.mem_cons_self hqp h.1
        have hp : p ∈ ls := (List.mem_cons.mp hp).resolve_left (Ne.symm hqp)
        simp only [hnot, if_false, List.nil_append]
        exact ih hn hp fun r hr => hother r (List.mem_cons_of_mem q hr)

end View

/-! ## The links -/

/-- The link of the broadcast slotframe. -/
structure IsBroadcastLink (cfg : Config) (l : TschLink) : Prop where
  addr : l.addr = cfg.tschBroadcastAddress
  timeslot : l.timeslot = 0
  channelOffset : l.channelOffset = 0
  linkOptions : l.linkOptions = txRxShared
  linkType : l.linkType = .advertising

/-- The link of timeslot `i` of the unicast slotframe. -/
structure IsUnicastLink (cfg : Config) (i : Nat) (o : LinkOptions) (l : TschLink) : Prop where
  addr : l.addr = cfg.tschBroadcastAddress
  timeslot : l.timeslot = i
  channelOffset : l.channelOffset = 0
  linkOptions : l.linkOptions = o
  linkType : l.linkType = .normal

/-- What is never replaced: the blocks of the two slotframes, and the link of
the broadcast slotframe. -/
structure QlFrames where
  broadcast : Nat
  unicast : Nat
  broadcastLink : Nat
  contents : TschLink

variable {cfg : Config} {F : QlFrames} {L : List Nat} {f : Nat → Nat} {o : Nat → LinkOptions}
  {x : ScheduleVars}

structure QlLinks (cfg : Config) (F : QlFrames) (L : List Nat) (f : Nat → Nat)
    (o : Nat → LinkOptions) (x : ScheduleVars) : Prop where
  wellFormed : x.WellFormed
  slotframes : x.slotframeList = [F.broadcast, F.unicast]
  broadcastHandle : (x.slotframes F.broadcast).handle = 0
  unicastHandle : (x.slotframes F.unicast).handle = 1
  unicastSize : (x.slotframes F.unicast).size = unicastSlotframeLength
  broadcastLinks : (x.slotframes F.broadcast).linksList = [F.broadcastLink]
  broadcastLink : x.links F.broadcastLink = F.contents
  isBroadcastLink : IsBroadcastLink cfg F.contents
  timeslots : L.Nodup
  bound : ∀ i ∈ L, i < unicastSlotframeLength
  unicastLinks : (x.slotframes F.unicast).linksList ~ L.map f
  unicastLink : ∀ i ∈ L, IsUnicastLink cfg i (o i) (x.links (f i))
  /-- no block is lost -/
  tight : ∀ p ∈ x.linkMemb, p ∈ x.allLinks

namespace QlLinks

variable (h : QlLinks cfg F L f o x)
include h

theorem unicast_mem : F.unicast ∈ x.slotframeList := by
  rw [h.slotframes]
  exact List.mem_cons_of_mem _ List.mem_cons_self

theorem broadcast_ne : F.broadcast ≠ F.unicast := by
  intro hne
  have hn := h.wellFormed.slotframes
  rw [h.slotframes, hne] at hn
  exact absurd hn (by simp)

theorem allLinks_perm : x.allLinks ~ F.broadcastLink :: L.map f := by
  have hall : x.allLinks = [F.broadcastLink] ++ (x.slotframes F.unicast).linksList := by
    simp only [allLinks, h.slotframes, List.flatMap_cons, List.flatMap_nil, List.append_nil,
      h.broadcastLinks]
  rw [hall]
  exact h.unicastLinks.cons F.broadcastLink

theorem mem_unicast {p : Nat} : p ∈ (x.slotframes F.unicast).linksList ↔ ∃ i ∈ L, f i = p := by
  rw [h.unicastLinks.mem_iff, List.mem_map]

theorem f_mem {i : Nat} (hi : i ∈ L) : f i ∈ (x.slotframes F.unicast).linksList :=
  h.mem_unicast.mpr ⟨i, hi, rfl⟩

theorem card_linkMemb : x.linkMemb.card ≤ L.length + 1 := by
  have hsub : x.linkMemb ⊆ x.allLinks.toFinset := fun p hp => List.mem_toFinset.mpr (h.tight p hp)
  calc x.linkMemb.card ≤ x.allLinks.toFinset.card := Finset.card_le_card hsub
    _ ≤ x.allLinks.length := List.toFinset_card_le _
    _ = L.length + 1 := by rw [h.allLinks_perm.length_eq, List.length_cons, List.length_map]

theorem length_lt {a : Nat} (ha : a < unicastSlotframeLength) (hna : a ∉ L) :
    L.length < unicastSlotframeLength := by
  have hn : (a :: L).Nodup := List.nodup_cons.mpr ⟨hna, h.timeslots⟩
  have hsub : (a :: L) ⊆ List.range unicastSlotframeLength := by
    intro i hi
    rcases List.mem_cons.mp hi with rfl | hi
    · exact List.mem_range.mpr ha
    · exact List.mem_range.mpr (h.bound i hi)
  have := (List.subperm_of_subset hn hsub).length_le
  rw [List.length_cons, List.length_range] at this
  omega

theorem exists_block {a : Nat} (ha : a < unicastSlotframeLength) (hna : a ∉ L)
    (hmax : unicastSlotframeLength + 1 ≤ cfg.tschScheduleMaxLinks) :
    ∃ p, cfg.memb.pick x.linkMemb cfg.tschScheduleMaxLinks = some p := by
  refine cfg.memb.pick_of_card ?_
  have := h.card_linkMemb
  have := h.length_lt ha hna
  omega

end QlLinks

/-! ## Replacing a link -/

namespace QlLinks

variable {v : View} {a : Nat}

theorem unlink (h : QlLinks cfg F L f o v.sched) (ha : a ∈ L) :
    QlLinks cfg F (L.erase a) f o (v.unlink F.unicast (f a)).sched := by
  have hp : f a ∈ (v.slotframe F.unicast).linksList := h.f_mem ha
  have hb : (v.unlink F.unicast (f a)).slotframe F.broadcast = v.slotframe F.broadcast :=
    View.unlink_slotframe_of_ne h.broadcast_ne
  have hsub : ∀ i ∈ L.erase a, i ∈ L := fun i => List.mem_of_mem_erase
  have hlist := View.unlink_linksList (v := v) (b := F.unicast) (p := f a)
  refine ⟨View.wellFormed_unlink h.wellFormed h.unicast_mem hp, h.slotframes,
    (congrArg TschSlotframe.handle hb).trans h.broadcastHandle,
    (View.unlink_handle F.unicast).trans h.unicastHandle, ?_,
    (congrArg TschSlotframe.linksList hb).trans h.broadcastLinks, h.broadcastLink,
    h.isBroadcastLink, h.timeslots.erase a, fun i hi => h.bound i (hsub i hi), ?_,
    fun i hi => h.unicastLink i (hsub i hi), fun q hq => ?_⟩
  · exact (View.unlink_size F.unicast).trans h.unicastSize
  · have hmap : L.map f ~ f a :: (L.erase a).map f := (List.perm_cons_erase ha).map f
    have herase := (h.unicastLinks.trans hmap).erase (f a)
    rw [List.erase_cons_head] at herase
    exact (List.Perm.of_eq hlist).trans herase
  · obtain ⟨hne, hq⟩ := Finset.mem_erase.mp hq
    exact (View.mem_unlink h.wellFormed h.unicast_mem hp).mpr ⟨h.tight q hq, hne⟩

/-- **Removal by timeslot**: everything visible on the way has the timeslot
free, and so has the result. -/
theorem removeLinkByTimeslot (h : QlLinks cfg F L f o v.sched) (ha : a ∈ L) :
    (v.removeLinkByTimeslot F.unicast a 0).2 = (v.removeLink F.unicast (f a)).2 ∧
      (v.removeLinkByTimeslot F.unicast a 0).2.sched = (v.unlink F.unicast (f a)).sched ∧
      ∀ w ∈ v.removeLinksAtVisible F.unicast a 0 (v.slotframe F.unicast).linksList,
        w.sched = (v.unlink F.unicast (f a)).sched ∧ w.node = v.node ∧
          w.pendingAction = v.pendingAction := by
  have hp : f a ∈ (v.slotframe F.unicast).linksList := h.f_mem ha
  have hla := h.unicastLink a ha
  have hother : ∀ q ∈ (v.slotframe F.unicast).linksList, q ≠ f a → (v.link q).timeslot ≠ a := by
    intro q hq hne hts
    obtain ⟨i, hi, rfl⟩ := h.mem_unicast.mp hq
    exact hne (congrArg f ((h.unicastLink i hi).timeslot.symm.trans hts))
  have hn : (v.slotframe F.unicast).linksList.Nodup := h.wellFormed.nodup_linksList h.unicast_mem
  obtain ⟨hres, hvis⟩ := View.removeLinksAt_one F.unicast hn hp ⟨hla.timeslot, hla.channelOffset⟩
    hother
  have hsched := View.removeLink_sched h.wellFormed h.unicast_mem hp
  have hh : (v.link (f a)).slotframeHandle = (v.slotframe F.unicast).handle :=
    h.wellFormed.slotframeHandle _ h.unicast_mem _ hp
  refine ⟨hres, (congrArg View.sched hres).trans hsched, ?_⟩
  intro w hw
  rw [hvis] at hw
  simp only [View.removeLinkVisible, hh, if_true] at hw
  rcases List.mem_cons.mp hw with rfl | hw
  · exact ⟨rfl, rfl, rfl⟩
  · rw [List.mem_singleton.mp hw]
    refine ⟨hsched, ?_, ?_⟩
    · rw [View.removeLink_of_mem h.wellFormed h.unicast_mem hp]
      simp only [View.uncount]
      split <;> rfl
    · rw [View.removeLink_of_mem h.wellFormed h.unicast_mem hp]
      simp only [View.uncount]
      split <;> rfl

theorem install (h : QlLinks cfg F L f o v.sched) (ha : a < unicastSlotframeLength) (hna : a ∉ L)
    {p : Nat} (hp : p ∉ v.sched.linkMemb) (opts : LinkOptions) :
    QlLinks cfg F (L ++ [a]) (Function.update f a p) (Function.update o a opts)
      (v.install F.unicast p opts .normal cfg.tschBroadcastAddress a 0).sched := by
  have hp' : p ∉ v.sched.allLinks := fun hmem => hp (h.wellFormed.linkMemb p hmem)
  have hb : (v.install F.unicast p opts .normal cfg.tschBroadcastAddress a 0).slotframe F.broadcast =
      v.slotframe F.broadcast := View.install_slotframe_of_ne h.broadcast_ne
  have hne : ∀ i ∈ L, i ≠ a := fun i hi hia => hna (hia ▸ hi)
  have hold : ∀ {q}, q ∈ v.sched.allLinks →
      (v.install F.unicast p opts .normal cfg.tschBroadcastAddress a 0).link q = v.link q := fun hq =>
    View.install_link_of_ne fun hqp => hp' (hqp ▸ hq)
  have hbmem : F.broadcastLink ∈ v.sched.allLinks :=
    h.allLinks_perm.mem_iff.mpr List.mem_cons_self
  refine ⟨View.wellFormed_install h.wellFormed h.unicast_mem hp', h.slotframes,
    (congrArg TschSlotframe.handle hb).trans h.broadcastHandle,
    (View.install_handle F.unicast).trans h.unicastHandle, ?_,
    (congrArg TschSlotframe.linksList hb).trans h.broadcastLinks,
    (hold hbmem).trans h.broadcastLink, h.isBroadcastLink, ?_, ?_, ?_, ?_, fun q hq => ?_⟩
  · have hsize : ((v.install F.unicast p opts .normal cfg.tschBroadcastAddress a 0).slotframe
        F.unicast).size = (v.slotframe F.unicast).size := by
      simp only [View.install, View.setSched, View.slotframe, Function.update_self]
    exact hsize.trans h.unicastSize
  · refine List.nodup_append.mpr ⟨h.timeslots, List.nodup_singleton a, ?_⟩
    rintro i hi j hj rfl
    exact hna (List.mem_singleton.mp hj ▸ hi)
  · intro i hi
    rcases List.mem_append.mp hi with hi | hi
    · exact h.bound i hi
    · rw [List.mem_singleton.mp hi]
      exact ha
  · have hmap : (L ++ [a]).map (Function.update f a p) = L.map f ++ [p] := by
      rw [List.map_append, List.map_singleton, Function.update_self]
      congr 1
      exact List.map_congr_left fun i hi => Function.update_of_ne (hne i hi) p f
    rw [hmap]
    exact (List.Perm.of_eq View.install_linksList).trans (h.unicastLinks.append_right [p])
  · intro i hi
    rcases List.mem_append.mp hi with hi | hi
    · rw [Function.update_of_ne (hne i hi), Function.update_of_ne (hne i hi)]
      have hlink := hold (h.allLinks_perm.mem_iff.mpr
        (List.mem_cons_of_mem _ (List.mem_map_of_mem hi)))
      have hu : IsUnicastLink cfg i (o i) (v.link (f i)) := h.unicastLink i hi
      rw [← hlink] at hu
      exact hu
    · rw [List.mem_singleton.mp hi, Function.update_self, Function.update_self]
      have hnew : (v.install F.unicast p opts .normal cfg.tschBroadcastAddress a 0).link p =
          ⟨v.sched.currentLinkHandle % 65536, cfg.tschBroadcastAddress,
            (v.slotframe F.unicast).handle, a, 0, opts, .normal, v.sched.currentLinkHandle⟩ := by
        simp only [View.install, View.setSched, View.link, Function.update_self]
      have hgoal : IsUnicastLink cfg a opts
          ((v.install F.unicast p opts .normal cfg.tschBroadcastAddress a 0).link p) := by
        rw [hnew]
        exact ⟨rfl, rfl, rfl, rfl, rfl⟩
      exact hgoal
  · refine (View.perm_install h.wellFormed h.unicast_mem).mem_iff.mpr ?_
    rcases Finset.mem_insert.mp hq with rfl | hq
    · exact List.mem_cons_self
    · exact List.mem_cons_of_mem _ (h.tight q hq)

end QlLinks
end QlTsch
