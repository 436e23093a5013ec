/-
# `QlTsch.ScheduleInvariant` — well-formed schedules

What `tsch-schedule.c` keeps about its lists and pools, whatever calls are made:
no block is on a list twice or on two lists, every block on a list is allocated,
slotframes differ in their handles, and a link carries the handle of the
slotframe it is on.

The links of a schedule as one list is the abstraction the counters and the
pointers are about.  Removing a link takes it off this list (`perm_unlink`),
installing one puts it there (`perm_install`), and the order does not matter.
-/
import Mathlib.Data.List.Perm.Basic
import QlTsch.ScheduleView

namespace QlTsch

namespace ScheduleVars

structure WellFormed (v : ScheduleVars) : Prop where
  slotframes : v.slotframeList.Nodup
  slotframeMemb : ∀ b ∈ v.slotframeList, b ∈ v.slotframeMemb
  handles : ∀ b ∈ v.slotframeList, ∀ b' ∈ v.slotframeList,
    (v.slotframes b).handle = (v.slotframes b').handle → b = b'
  links : v.allLinks.Nodup
  linkMemb : ∀ p ∈ v.allLinks, p ∈ v.linkMemb
  slotframeHandle : ∀ b ∈ v.slotframeList, ∀ p ∈ (v.slotframes b).linksList,
    (v.links p).slotframeHandle = (v.slotframes b).handle

theorem mem_allLinks {v : ScheduleVars} {p : Nat} :
    p ∈ v.allLinks ↔ ∃ b ∈ v.slotframeList, p ∈ (v.slotframes b).linksList := by
  simp only [allLinks, List.mem_flatMap]

theorem setSlotframe_of_notMem {v : ScheduleVars} {b : Nat} {sf : TschSlotframe}
    (hb : b ∉ v.slotframeList) :
    ∀ c ∈ v.slotframeList, (v.setSlotframe b sf).slotframes c = v.slotframes c := by
  intro c hc
  exact setSlotframe_of_ne fun hcb => hb (hcb ▸ hc)

theorem mem_allLinks_setSlotframe {v : ScheduleVars} {b p : Nat} {sf : TschSlotframe}
    (hp : p ∈ v.allLinks)
    (hsf : b ∈ v.slotframeList → p ∈ (v.slotframes b).linksList → p ∈ sf.linksList) :
    p ∈ (v.setSlotframe b sf).allLinks := by
  obtain ⟨c, hc, hpc⟩ := mem_allLinks.mp hp
  refine mem_allLinks.mpr ⟨c, hc, ?_⟩
  by_cases hcb : c = b
  · subst hcb
    rw [setSlotframe_self]
    exact hsf hc hpc
  · rw [setSlotframe_of_ne hcb]
    exact hpc

/-- The links of the other slotframes. -/
def otherLinks (v : ScheduleVars) (b : Nat) : List Nat :=
  (v.slotframeList.erase b).flatMap fun b => (v.slotframes b).linksList

theorem perm_allLinks {v : ScheduleVars} {b : Nat} (hb : b ∈ v.slotframeList) :
    v.allLinks.Perm ((v.slotframes b).linksList ++ v.otherLinks b) :=
  (List.perm_cons_erase hb).flatMap_right _

theorem otherLinks_congr {v w : ScheduleVars} {b : Nat} (hn : v.slotframeList.Nodup)
    (hl : w.slotframeList = v.slotframeList) (hw : ∀ c ≠ b, w.slotframes c = v.slotframes c) :
    w.otherLinks b = v.otherLinks b := by
  simp only [otherLinks, hl]
  refine List.flatMap_congr ?_
  intro c hc
  have hne : c ≠ b := fun h => hn.not_mem_erase (h ▸ hc)
  rw [hw c hne]

theorem WellFormed.mem_linksList {v : ScheduleVars} (h : v.WellFormed) {b p : Nat}
    (hb : b ∈ v.slotframeList) (hp : p ∈ v.allLinks)
    (hh : (v.links p).slotframeHandle = (v.slotframes b).handle) :
    p ∈ (v.slotframes b).linksList := by
  obtain ⟨c, hc, hpc⟩ := mem_allLinks.mp hp
  have hcb : c = b := h.handles c hc b hb ((h.slotframeHandle c hc p hpc).symm.trans hh)
  exact hcb ▸ hpc

theorem WellFormed.mem_slotframe {v : ScheduleVars} {b p : Nat} (hb : b ∈ v.slotframeList)
    (hp : p ∈ (v.slotframes b).linksList) : p ∈ v.allLinks :=
  mem_allLinks.mpr ⟨b, hb, hp⟩

theorem WellFormed.nodup_linksList {v : ScheduleVars} (h : v.WellFormed) {b : Nat}
    (hb : b ∈ v.slotframeList) : (v.slotframes b).linksList.Nodup :=
  ((perm_allLinks hb).nodup_iff.mp h.links).of_append_left

end ScheduleVars

open ScheduleVars
open scoped List

namespace View

variable {cfg : Config} {v : View} {b p : Nat}

/-! ## Removing a link -/

theorem unlink_slotframe : (v.unlink b p).slotframe b =
    { v.slotframe b with linksList := (v.slotframe b).linksList.erase p } :=
  setSlotframe_self

theorem unlink_linksList :
    ((v.unlink b p).slotframe b).linksList = (v.slotframe b).linksList.erase p :=
  congrArg TschSlotframe.linksList unlink_slotframe

theorem unlink_slotframe_of_ne {c : Nat} (hc : c ≠ b) :
    (v.unlink b p).slotframe c = v.slotframe c :=
  setSlotframe_of_ne hc

theorem unlink_handle (c : Nat) :
    ((v.unlink b p).slotframe c).handle = (v.slotframe c).handle := by
  by_cases hc : c = b
  · subst hc
    rw [unlink_slotframe]
  · rw [unlink_slotframe_of_ne hc]

theorem unlink_size (c : Nat) : ((v.unlink b p).slotframe c).size = (v.slotframe c).size := by
  by_cases hc : c = b
  · subst hc
    rw [unlink_slotframe]
  · rw [unlink_slotframe_of_ne hc]

theorem perm_unlink (h : v.sched.WellFormed) (hb : b ∈ v.sched.slotframeList)
    (hp : p ∈ (v.slotframe b).linksList) :
    v.sched.allLinks.Perm (p :: (v.unlink b p).sched.allLinks) := by
  have hother : (v.unlink b p).sched.otherLinks b = v.sched.otherLinks b :=
    otherLinks_congr h.slotframes rfl fun c hc => unlink_slotframe_of_ne hc
  have hafter := perm_allLinks (v := (v.unlink b p).sched) hb
  calc v.sched.allLinks
      ~ (v.slotframe b).linksList ++ v.sched.otherLinks b := perm_allLinks hb
    _ ~ p :: (v.slotframe b).linksList.erase p ++ v.sched.otherLinks b :=
        (List.perm_cons_erase hp).append_right _
    _ ~ p :: (v.unlink b p).sched.allLinks := by
        rw [← hother, ← unlink_linksList]
        exact hafter.symm.cons p

theorem mem_unlink (h : v.sched.WellFormed) (hb : b ∈ v.sched.slotframeList)
    (hp : p ∈ (v.slotframe b).linksList) {q : Nat} :
    q ∈ (v.unlink b p).sched.allLinks ↔ q ∈ v.sched.allLinks ∧ q ≠ p := by
  have hperm := perm_unlink h hb hp
  have hn : (p :: (v.unlink b p).sched.allLinks).Nodup := hperm.nodup_iff.mp h.links
  rw [hperm.mem_iff, List.mem_cons]
  constructor
  · intro hq
    exact ⟨.inr hq, fun hqp => (List.nodup_cons.mp hn).1 (hqp ▸ hq)⟩
  · rintro ⟨hq | hq, hne⟩
    · exact absurd hq hne
    · exact hq

theorem wellFormed_unlink (h : v.sched.WellFormed) (hb : b ∈ v.sched.slotframeList)
    (hp : p ∈ (v.slotframe b).linksList) : (v.unlink b p).sched.WellFormed where
  slotframes := h.slotframes
  slotframeMemb := h.slotframeMemb
  handles c hc c' hc' hh := by
    refine h.handles c hc c' hc' ?_
    have hh' : ((v.unlink b p).slotframe c).handle = ((v.unlink b p).slotframe c').handle := hh
    rwa [unlink_handle, unlink_handle] at hh'
  links := (List.nodup_cons.mp ((perm_unlink h hb hp).nodup_iff.mp h.links)).2
  linkMemb q hq := by
    obtain ⟨hq, hne⟩ := (mem_unlink h hb hp).mp hq
    exact Finset.mem_erase.mpr ⟨hne, h.linkMemb q hq⟩
  slotframeHandle c hc q hq := by
    have hq' : q ∈ (v.slotframe c).linksList := by
      have hq : q ∈ ((v.unlink b p).slotframe c).linksList := hq
      by_cases hcb : c = b
      · subst hcb
        rw [unlink_linksList] at hq
        exact List.mem_of_mem_erase hq
      · rwa [unlink_slotframe_of_ne hcb] at hq
    exact (h.slotframeHandle c hc q hq').trans (unlink_handle c).symm

/-! ## Counting leaves the schedule alone -/

theorem uncount_sched (o : LinkOptions) (a : LinkAddr) : (v.uncount o a).sched = v.sched := by
  simp only [uncount]
  split <;> rfl

theorem uncount_nbrs (o : LinkOptions) (a : LinkAddr) : (v.uncount o a).nbrs = v.nbrs := by
  simp only [uncount]
  split <;> rfl

variable (cfg v) in
theorem addNbr_sched (a : LinkAddr) : (addNbr cfg a v).2.sched = v.sched := by
  simp only [addNbr]
  split
  · rfl
  · split <;> rfl

theorem count_sched (o : LinkOptions) (a : LinkAddr) : (v.count cfg o a).sched = v.sched := by
  have h := addNbr_sched cfg v a
  simp only [count]
  split
  · split
    · rename_i hr
      rw [hr] at h
      exact h
    · rename_i hr
      rw [hr] at h
      exact h
  · rfl

theorem removeLink_of_mem (h : v.sched.WellFormed) (hb : b ∈ v.sched.slotframeList)
    (hp : p ∈ (v.slotframe b).linksList) :
    v.removeLink b p = (true, (v.unlink b p).uncount (v.link p).linkOptions (v.link p).addr) := by
  have hh : (v.link p).slotframeHandle = (v.slotframe b).handle := h.slotframeHandle b hb p hp
  simp only [removeLink, hh, if_true]

theorem removeLink_sched (h : v.sched.WellFormed) (hb : b ∈ v.sched.slotframeList)
    (hp : p ∈ (v.slotframe b).linksList) :
    (v.removeLink b p).2.sched = (v.unlink b p).sched := by
  rw [removeLink_of_mem h hb hp]
  exact uncount_sched _ _

theorem removeLink_slotframe (h : v.sched.WellFormed) (hb : b ∈ v.sched.slotframeList)
    (hp : p ∈ (v.slotframe b).linksList) : (v.removeLink b p).2.slotframe b =
      { v.slotframe b with linksList := (v.slotframe b).linksList.erase p } := by
  have hsched := removeLink_sched h hb hp
  exact (congrArg (fun w : ScheduleVars => w.slotframes b) hsched).trans unlink_slotframe

theorem removeLink_nbrs : (v.removeLink b p).2.nbrs = v.nbrs := by
  simp only [removeLink]
  split
  · exact uncount_nbrs _ _
  · rfl

/-! ## Installing a link -/

section
variable {o : LinkOptions} {ty : LinkType} {a : LinkAddr} {ts off : Nat}

theorem install_linksList :
    ((v.install b p o ty a ts off).slotframe b).linksList = (v.slotframe b).linksList ++ [p] := by
  simp only [install, setSched, slotframe, Function.update_self]

theorem install_slotframe_of_ne {c : Nat} (hc : c ≠ b) :
    (v.install b p o ty a ts off).slotframe c = v.slotframe c := by
  simp only [install, setSched, slotframe, Function.update_of_ne hc]

theorem install_handle (c : Nat) :
    ((v.install b p o ty a ts off).slotframe c).handle = (v.slotframe c).handle := by
  by_cases hc : c = b
  · subst hc
    simp only [install, setSched, slotframe, Function.update_self]
  · rw [install_slotframe_of_ne hc]

theorem install_link_of_ne {q : Nat} (hq : q ≠ p) :
    (v.install b p o ty a ts off).link q = v.link q := by
  simp only [install, setSched, link, Function.update_of_ne hq]

theorem perm_install (h : v.sched.WellFormed) (hb : b ∈ v.sched.slotframeList) :
    (v.install b p o ty a ts off).sched.allLinks.Perm (p :: v.sched.allLinks) := by
  have hother : (v.install b p o ty a ts off).sched.otherLinks b = v.sched.otherLinks b :=
    otherLinks_congr (v := v.sched) h.slotframes rfl fun c hc => install_slotframe_of_ne hc
  calc (v.install b p o ty a ts off).sched.allLinks
      ~ ((v.install b p o ty a ts off).slotframe b).linksList ++
          (v.install b p o ty a ts off).sched.otherLinks b := perm_allLinks hb
    _ ~ p :: (v.slotframe b).linksList ++ v.sched.otherLinks b := by
        rw [hother, install_linksList]
        exact List.perm_append_comm.append_right _
    _ ~ p :: v.sched.allLinks := (perm_allLinks hb).symm.cons p

theorem wellFormed_install (h : v.sched.WellFormed) (hb : b ∈ v.sched.slotframeList)
    (hp : p ∉ v.sched.allLinks) : (v.install b p o ty a ts off).sched.WellFormed where
  slotframes := h.slotframes
  slotframeMemb := h.slotframeMemb
  handles c hc c' hc' hh := by
    refine h.handles c hc c' hc' ?_
    have hh' : ((v.install b p o ty a ts off).slotframe c).handle =
        ((v.install b p o ty a ts off).slotframe c').handle := hh
    rwa [install_handle, install_handle] at hh'
  links := (perm_install h hb).nodup_iff.mpr (List.nodup_cons.mpr ⟨hp, h.links⟩)
  linkMemb q hq := by
    rcases List.mem_cons.mp ((perm_install h hb).mem_iff.mp hq) with rfl | hq
    · exact Finset.mem_insert_self _ _
    · exact Finset.mem_insert_of_mem (h.linkMemb q hq)
  slotframeHandle c hc q hq := by
    have hhandle : ((v.install b p o ty a ts off).slotframe c).handle = (v.slotframe c).handle :=
      install_handle c
    have hgoal : ((v.install b p o ty a ts off).link q).slotframeHandle = (v.slotframe c).handle := by
      have hq : q ∈ ((v.install b p o ty a ts off).slotframe c).linksList := hq
      by_cases hcb : c = b
      · subst hcb
        rw [install_linksList, List.mem_append, List.mem_singleton] at hq
        rcases hq with hq | rfl
        · have hne : q ≠ p := fun hqp => hp (hqp ▸ mem_allLinks.mpr ⟨c, hc, hq⟩)
          rw [install_link_of_ne hne]
          exact h.slotframeHandle c hc q hq
        · simp only [install, setSched, link, Function.update_self]
      · rw [install_slotframe_of_ne hcb] at hq
        have hne : q ≠ p := fun hqp => hp (hqp ▸ mem_allLinks.mpr ⟨c, hc, hq⟩)
        rw [install_link_of_ne hne]
        exact h.slotframeHandle c hc q hq
    exact hgoal.trans hhandle.symm

end

/-! ## Slotframes -/

theorem wellFormed_newSlotframe {handle size : Nat} (h : v.sched.WellFormed)
    (hb : b ∉ v.sched.slotframeList)
    (hh : ∀ c ∈ v.sched.slotframeList, (v.slotframe c).handle ≠ handle) :
    ScheduleVars.WellFormed { v.sched.setSlotframe b ⟨handle, size, []⟩ with
      slotframeMemb := insert b v.sched.slotframeMemb
      slotframeList := v.sched.slotframeList ++ [b] } ∧
    ScheduleVars.allLinks { v.sched.setSlotframe b ⟨handle, size, []⟩ with
      slotframeMemb := insert b v.sched.slotframeMemb
      slotframeList := v.sched.slotframeList ++ [b] } = v.sched.allLinks := by
  have hold : ∀ c ∈ v.sched.slotframeList,
      (v.sched.setSlotframe b ⟨handle, size, []⟩).slotframes c = v.sched.slotframes c :=
    setSlotframe_of_notMem hb
  have hnew : (v.sched.setSlotframe b ⟨handle, size, []⟩).slotframes b = ⟨handle, size, []⟩ :=
    setSlotframe_self
  have hall : ScheduleVars.allLinks { v.sched.setSlotframe b ⟨handle, size, []⟩ with
      slotframeMemb := insert b v.sched.slotframeMemb
      slotframeList := v.sched.slotframeList ++ [b] } = v.sched.allLinks := by
    simp only [allLinks, List.flatMap_append, List.flatMap_cons, List.flatMap_nil, hnew,
      List.append_nil]
    exact List.flatMap_congr fun c hc => by rw [hold c hc]
  refine ⟨⟨?_, ?_, ?_, ?_, ?_, ?_⟩, hall⟩
  · exact List.nodup_append.mpr ⟨h.slotframes, List.nodup_singleton b, by
      rintro c hc _ hcb rfl
      exact hb (List.mem_singleton.mp hcb ▸ hc)⟩
  · intro c hc
    rcases List.mem_append.mp hc with hc | hc
    · exact Finset.mem_insert_of_mem (h.slotframeMemb c hc)
    · rw [List.mem_singleton.mp hc]
      exact Finset.mem_insert_self _ _
  · intro c hc c' hc' heq
    have heq : ((v.sched.setSlotframe b ⟨handle, size, []⟩).slotframes c).handle =
        ((v.sched.setSlotframe b ⟨handle, size, []⟩).slotframes c').handle := heq
    rcases List.mem_append.mp hc with hc | hc <;> rcases List.mem_append.mp hc' with hc' | hc'
    · rw [hold c hc, hold c' hc'] at heq
      exact h.handles c hc c' hc' heq
    · rw [List.mem_singleton.mp hc', hold c hc, hnew] at heq
      exact absurd heq (hh c hc)
    · rw [List.mem_singleton.mp hc, hold c' hc', hnew] at heq
      exact absurd heq.symm (hh c' hc')
    · rw [List.mem_singleton.mp hc, List.mem_singleton.mp hc']
  · rw [hall]
    exact h.links
  · rw [hall]
    exact h.linkMemb
  · intro c hc q hq
    have hq : q ∈ ((v.sched.setSlotframe b ⟨handle, size, []⟩).slotframes c).linksList := hq
    rcases List.mem_append.mp hc with hc | hc
    · rw [hold c hc] at hq
      exact (h.slotframeHandle c hc q hq).trans (congrArg _ (hold c hc)).symm
    · rw [List.mem_singleton.mp hc, hnew] at hq
      cases hq

variable (cfg v) in
theorem addSlotframe_eq (handle size : Nat) :
    ∃ x, (v.addSlotframe cfg handle size).2 = v.setSched x ∧ x.links = v.sched.links := by
  simp only [addSlotframe]
  split
  · exact ⟨v.sched, rfl, rfl⟩
  · split
    · exact ⟨_, rfl, rfl⟩
    · exact ⟨v.sched, rfl, rfl⟩

variable (cfg) in
theorem wellFormed_addSlotframe (handle size : Nat) (h : v.sched.WellFormed) :
    (v.addSlotframe cfg handle size).2.sched.WellFormed ∧
      (v.addSlotframe cfg handle size).2.sched.allLinks = v.sched.allLinks := by
  simp only [addSlotframe]
  split
  · exact ⟨h, rfl⟩
  · rename_i hno
    rw [not_or] at hno
    split
    · rename_i b hb
      refine wellFormed_newSlotframe h (fun hmem => cfg.memb.pick_fresh hb (h.slotframeMemb b hmem))
        fun c hc hh => hno.2 ?_
      exact List.any_eq_true.mpr ⟨c, hc, beq_iff_eq.mpr hh⟩
    · exact ⟨h, rfl⟩

theorem wellFormed_dropSlotframe (h : v.sched.WellFormed) (hb : b ∈ v.sched.slotframeList)
    (hempty : (v.slotframe b).linksList = []) :
    (v.dropSlotframe b).sched.WellFormed ∧
      (v.dropSlotframe b).sched.allLinks.Perm v.sched.allLinks := by
  have hsub : ∀ c ∈ v.sched.slotframeList.erase b, c ∈ v.sched.slotframeList := fun c =>
    List.mem_of_mem_erase
  have hall : (v.dropSlotframe b).sched.allLinks.Perm v.sched.allLinks := by
    have hperm := perm_allLinks hb
    rw [show (v.sched.slotframes b).linksList = [] from hempty, List.nil_append] at hperm
    exact hperm.symm
  refine ⟨⟨h.slotframes.erase b, ?_, ?_, hall.nodup_iff.mpr h.links, ?_, ?_⟩, hall⟩
  · intro c hc
    have hne : c ≠ b := fun hcb => h.slotframes.not_mem_erase (hcb ▸ hc)
    exact Finset.mem_erase.mpr ⟨hne, h.slotframeMemb c (hsub c hc)⟩
  · exact fun c hc c' hc' => h.handles c (hsub c hc) c' (hsub c' hc')
  · exact fun p hp => h.linkMemb p (hall.mem_iff.mp hp)
  · exact fun c hc => h.slotframeHandle c (hsub c hc)

end View
end QlTsch
