/-
# `QlTsch.ScheduleRepresentation` — lists and pools say the same

Two `memb` pools and a list of lists represent one schedule.  `Represented` is
what has to hold between calls for this to make sense: besides what
`ScheduleVars.WellFormed` asks, a timeslot is below the size of its slotframe, and
a block is in use *exactly* when it is on a list, so nothing leaks and nothing is
used twice.

It is kept by each change of the schedule (`Represented.unlink`,
`Represented.install`, `Represented.newSlotframe`, `Represented.dropSlotframe`),
and so by any sequence of calls from `tsch_schedule_init` on, the failing ones
included (`schedule_represented`).  The loops of the removals end for the same
reason: there are no more links, and no more slotframes, than blocks.
-/
import QlTsch.QlInvariant

namespace QlTsch

open Interleave Interleave.Prog ScheduleVars

variable {cfg : Config}

namespace ScheduleVars

structure Represented (v : ScheduleVars) : Prop extends v.WellFormed where
  sizes : ∀ b ∈ v.slotframeList, 1 ≤ (v.slotframes b).size
  timeslots : ∀ b ∈ v.slotframeList, ∀ p ∈ (v.slotframes b).linksList,
    (v.links p).timeslot < (v.slotframes b).size
  linksInUse : ∀ p, p ∈ v.linkMemb ↔ p ∈ v.allLinks
  slotframesInUse : ∀ b, b ∈ v.slotframeMemb ↔ b ∈ v.slotframeList

/-- A link block in use is on the list of exactly one slotframe. -/
theorem Represented.mem_linkMemb {v : ScheduleVars} (h : v.Represented) (p : Nat) :
    p ∈ v.linkMemb ↔ ∃! b, b ∈ v.slotframeList ∧ p ∈ (v.slotframes b).linksList := by
  rw [h.linksInUse, mem_allLinks]
  constructor
  · rintro ⟨b, hb, hp⟩
    refine ⟨b, ⟨hb, hp⟩, ?_⟩
    rintro c ⟨hc, hpc⟩
    exact h.handles c hc b hb
      ((h.slotframeHandle c hc p hpc).symm.trans (h.slotframeHandle b hb p hp))
  · rintro ⟨b, ⟨hb, hp⟩, -⟩
    exact ⟨b, hb, hp⟩

end ScheduleVars

/-! ## Each change of the schedule -/

namespace ScheduleVars.Represented

variable {v : View} {b p : Nat}

theorem unlink (h : v.sched.Represented) (hb : b ∈ v.sched.slotframeList)
    (hp : p ∈ (v.slotframe b).linksList) : (v.unlink b p).sched.Represented := by
  have hwf := View.wellFormed_unlink h.toWellFormed hb hp
  have hsize : ∀ c, ((v.unlink b p).slotframe c).size = (v.slotframe c).size := View.unlink_size
  refine ⟨hwf, ?_, ?_, ?_, h.slotframesInUse⟩
  · intro c hc
    exact (hsize c).symm ▸ h.sizes c hc
  · intro c hc q hq
    have hq : q ∈ ((v.unlink b p).slotframe c).linksList := hq
    have hq' : q ∈ (v.slotframe c).linksList := by
      by_cases hcb : c = b
      · subst hcb
        rw [View.unlink_linksList] at hq
        exact List.mem_of_mem_erase hq
      · rwa [View.unlink_slotframe_of_ne hcb] at hq
    exact (hsize c).symm ▸ h.timeslots c hc q hq'
  · intro q
    rw [View.mem_unlink h.toWellFormed hb hp, ← h.linksInUse q]
    show q ∈ v.sched.linkMemb.erase p ↔ _
    rw [Finset.mem_erase, and_comm]

theorem removeLink (h : v.sched.Represented) (hb : b ∈ v.sched.slotframeList)
    (hp : p ∈ (v.slotframe b).linksList) : (v.removeLink b p).2.sched.Represented := by
  rw [View.removeLink_sched h.toWellFormed hb hp]
  exact h.unlink hb hp

theorem install {o : LinkOptions} {ty : LinkType} {a : LinkAddr} {ts off : Nat}
    (h : v.sched.Represented) (hb : b ∈ v.sched.slotframeList) (hp : p ∉ v.sched.linkMemb)
    (hts : ts < (v.slotframe b).size) : (v.install b p o ty a ts off).sched.Represented := by
  have hnew : p ∉ v.sched.allLinks := fun hmem => hp ((h.linksInUse p).mpr hmem)
  have hwf : (v.install b p o ty a ts off).sched.WellFormed :=
    View.wellFormed_install h.toWellFormed hb hnew
  have hsize : ∀ c, ((v.install b p o ty a ts off).slotframe c).size = (v.slotframe c).size := by
    intro c
    by_cases hc : c = b
    · subst hc
      simp only [View.install, View.setSched, View.slotframe, Function.update_self]
    · rw [View.install_slotframe_of_ne hc]
  -- the links that were there
  have hold : ∀ c ∈ v.sched.slotframeList, ∀ q ∈ (v.slotframe c).linksList,
      ((v.install b p o ty a ts off).link q).timeslot <
        ((v.install b p o ty a ts off).slotframe c).size := by
    intro c hc q hq
    have hne : q ≠ p := fun hqp => hnew (hqp ▸ mem_allLinks.mpr ⟨c, hc, hq⟩)
    rw [View.install_link_of_ne hne, hsize c]
    exact h.timeslots c hc q hq
  refine ⟨hwf, ?_, ?_, ?_, h.slotframesInUse⟩
  · intro c hc
    exact (hsize c).symm ▸ h.sizes c hc
  · intro c hc q hq
    have hq : q ∈ ((v.install b p o ty a ts off).slotframe c).linksList := hq
    by_cases hcb : c = b
    · subst hcb
      rw [View.install_linksList, List.mem_append, List.mem_singleton] at hq
      rcases hq with hq | rfl
      · exact hold c hc q hq
      · have hlink : ((v.install c q o ty a ts off).link q).timeslot = ts := by
          simp only [View.install, View.setSched, View.link, Function.update_self]
        show ((v.install c q o ty a ts off).link q).timeslot <
          ((v.install c q o ty a ts off).slotframe c).size
        rw [hlink, hsize c]
        exact hts
    · rw [View.install_slotframe_of_ne hcb] at hq
      exact hold c hc q hq
  · intro q
    rw [(View.perm_install h.toWellFormed hb).mem_iff, List.mem_cons, ← h.linksInUse q]
    exact Finset.mem_insert

variable (cfg) in
theorem addSlotframe (h : v.sched.Represented) (handle size : Nat) :
    (v.addSlotframe cfg handle size).2.sched.Represented := by
  obtain ⟨hwf, hall⟩ := View.wellFormed_addSlotframe cfg handle size h.toWellFormed
  simp only [View.addSlotframe] at hwf hall ⊢
  split at hwf
  · rename_i hno
    rw [if_pos hno]
    exact h
  · rename_i hno
    rw [if_neg hno] at hall ⊢
    rw [not_or] at hno
    cases hpick : cfg.memb.pick v.sched.slotframeMemb cfg.tschScheduleMaxSlotframes with
    | none => exact h
    | some b =>
        simp only [hpick] at hwf hall ⊢
        have hb : b ∉ v.sched.slotframeList := fun hmem =>
          cfg.memb.pick_fresh hpick ((h.slotframesInUse b).mpr hmem)
        have hold : ∀ c ∈ v.sched.slotframeList,
            (v.sched.setSlotframe b ⟨handle, size, []⟩).slotframes c = v.sched.slotframes c :=
          setSlotframe_of_notMem hb
        have hnew : (v.sched.setSlotframe b ⟨handle, size, []⟩).slotframes b =
            ⟨handle, size, []⟩ := setSlotframe_self
        refine ⟨hwf, ?_, ?_, ?_, ?_⟩
        · intro c hc
          rcases List.mem_append.mp hc with hc | hc
          · show 1 ≤ ((v.sched.setSlotframe b ⟨handle, size, []⟩).slotframes c).size
            rw [hold c hc]
            exact h.sizes c hc
          · show 1 ≤ ((v.sched.setSlotframe b ⟨handle, size, []⟩).slotframes c).size
            rw [List.mem_singleton.mp hc, hnew]
            exact Nat.one_le_iff_ne_zero.mpr hno.1
        · intro c hc q hq
          have hq : q ∈ ((v.sched.setSlotframe b ⟨handle, size, []⟩).slotframes c).linksList := hq
          show (v.sched.links q).timeslot <
            ((v.sched.setSlotframe b ⟨handle, size, []⟩).slotframes c).size
          rcases List.mem_append.mp hc with hc | hc
          · rw [hold c hc] at hq ⊢
            exact h.timeslots c hc q hq
          · rw [List.mem_singleton.mp hc, hnew] at hq
            cases hq
        · intro q
          rw [hall]
          exact h.linksInUse q
        · intro c
          show c ∈ insert b v.sched.slotframeMemb ↔ c ∈ v.sched.slotframeList ++ [b]
          rw [Finset.mem_insert, List.mem_append, List.mem_singleton, h.slotframesInUse c, or_comm]

theorem dropSlotframe (h : v.sched.Represented) (hb : b ∈ v.sched.slotframeList)
    (he : (v.slotframe b).linksList = []) : (v.dropSlotframe b).sched.Represented := by
  obtain ⟨hwf, hall⟩ := View.wellFormed_dropSlotframe h.toWellFormed hb he
  have hsub : ∀ c ∈ v.sched.slotframeList.erase b, c ∈ v.sched.slotframeList := fun c =>
    List.mem_of_mem_erase
  refine ⟨hwf, fun c hc => h.sizes c (hsub c hc), fun c hc => h.timeslots c (hsub c hc), ?_, ?_⟩
  · intro q
    rw [hall.mem_iff]
    exact h.linksInUse q
  · intro c
    show c ∈ v.sched.slotframeMemb.erase b ↔ c ∈ v.sched.slotframeList.erase b
    rw [Finset.mem_erase, h.slotframes.mem_erase_iff, h.slotframesInUse c]

theorem length_le {v : ScheduleVars} (h : v.Represented) {n : Nat} (hn : ∀ p ∈ v.linkMemb, p < n) :
    v.allLinks.length ≤ n := by
  rw [← List.toFinset_card_of_nodup h.links]
  refine (Finset.card_le_card ?_).trans_eq (Finset.card_range n)
  intro p hp
  exact Finset.mem_range.mpr (hn p ((h.linksInUse p).mpr (List.mem_toFinset.mp hp)))

theorem length_slotframeList_le {v : ScheduleVars} (h : v.Represented) {n : Nat}
    (hn : ∀ b ∈ v.slotframeMemb, b < n) : v.slotframeList.length ≤ n := by
  rw [← List.toFinset_card_of_nodup h.slotframes]
  refine (Finset.card_le_card ?_).trans_eq (Finset.card_range n)
  intro b hb
  exact Finset.mem_range.mpr (hn b ((h.slotframesInUse b).mpr (List.mem_toFinset.mp hb)))

end ScheduleVars.Represented

/-! ## Each call -/

/-- What is carried from call to call: the blocks in use are blocks of the pools. -/
structure RepInv (cfg : Config) (v : View) : Prop where
  represented : v.sched.Represented
  linkBlock : ∀ p ∈ v.sched.linkMemb, p < cfg.tschScheduleMaxLinks
  slotframeBlock : ∀ b ∈ v.sched.slotframeMemb, b < cfg.tschScheduleMaxSlotframes

namespace RepInv

variable {v : View} {b p : Nat}

theorem congr {w : View} (h : RepInv cfg v) (hw : w.sched = v.sched) : RepInv cfg w := by
  refine ⟨?_, ?_, ?_⟩ <;> rw [hw]
  · exact h.represented
  · exact h.linkBlock
  · exact h.slotframeBlock

theorem removeLink (h : RepInv cfg v) (hb : b ∈ v.sched.slotframeList)
    (hp : p ∈ (v.slotframe b).linksList) : RepInv cfg (v.removeLink b p).2 := by
  refine ⟨h.represented.removeLink hb hp, ?_, ?_⟩ <;>
    rw [View.removeLink_sched h.represented.toWellFormed hb hp]
  · exact fun q hq => h.linkBlock q (Finset.mem_of_mem_erase hq)
  · exact h.slotframeBlock

theorem removeLink_any (h : RepInv cfg v) (hb : b ∈ v.sched.slotframeList)
    (hp : p ∈ v.sched.allLinks) : RepInv cfg (v.removeLink b p).2 := by
  by_cases hh : (v.link p).slotframeHandle = (v.slotframe b).handle
  · exact h.removeLink hb (h.represented.mem_linksList hb hp hh)
  · simp only [View.removeLink, hh, if_false]
    exact h

theorem dropSlotframe (h : RepInv cfg v) (hb : b ∈ v.sched.slotframeList)
    (he : (v.slotframe b).linksList = []) : RepInv cfg (v.dropSlotframe b) :=
  ⟨h.represented.dropSlotframe hb he, h.linkBlock,
    fun c hc => h.slotframeBlock c (Finset.mem_of_mem_erase hc)⟩

variable (cfg) in
theorem removalInv : RemovalInv (RepInv cfg) where
  wellFormed h := h.represented.toWellFormed
  removeLink h hb hp := h.removeLink hb hp
  dropSlotframe h hb he := h.dropSlotframe hb he

theorem addSlotframe (h : RepInv cfg v) (handle size : Nat) :
    RepInv cfg (v.addSlotframe cfg handle size).2 := by
  refine ⟨h.represented.addSlotframe cfg handle size, ?_, ?_⟩ <;> simp only [View.addSlotframe] <;>
    split
  · exact h.linkBlock
  · split <;> exact h.linkBlock
  · exact h.slotframeBlock
  · split
    · rename_i hpick
      intro c hc
      rcases Finset.mem_insert.mp hc with rfl | hc
      · exact cfg.memb.pick_lt hpick
      · exact h.slotframeBlock c hc
    · exact h.slotframeBlock

end RepInv

/-- What the loop of `tsch_schedule_remove_link_by_timeslot` leaves of the links
`ls`: none at the given place. -/
structure AfterRemoval (cfg : Config) (b ts off : Nat) (ls : List Nat) (v w : View) : Prop where
  inv : RepInv cfg w
  list : w.sched.slotframeList = v.sched.slotframeList
  links : w.sched.links = v.sched.links
  size : (w.slotframe b).size = (v.slotframe b).size
  gone : ∀ q ∈ (w.slotframe b).linksList, q ∈ (v.slotframe b).linksList ∧
    (q ∈ ls → ¬ ((v.link q).timeslot = ts ∧ (v.link q).channelOffset = off))

theorem afterRemoval (b ts off : Nat) : ∀ (ls : List Nat) {v : View}, RepInv cfg v →
    b ∈ v.sched.slotframeList → (∀ p ∈ ls, p ∈ (v.slotframe b).linksList) → ls.Nodup →
    AfterRemoval cfg b ts off ls v (v.removeLinksAt b ts off ls).2
  | [], v, h, _, _, _ => ⟨h, rfl, rfl, rfl, fun q hq => ⟨hq, fun hmem => absurd hmem List.not_mem_nil⟩⟩
  | p :: ls, v, h, hb, hls, hn => by
      have hp := hls p List.mem_cons_self
      obtain ⟨hpls, hn⟩ := List.nodup_cons.mp hn
      by_cases hat : (v.link p).timeslot = ts ∧ (v.link p).channelOffset = off
      · -- the link goes
        have hsched := View.removeLink_sched h.represented.toWellFormed hb hp
        have hframe := View.removeLink_slotframe h.represented.toWellFormed hb hp
        have hlist : ((v.removeLink b p).2.slotframe b).linksList =
            (v.slotframe b).linksList.erase p := by rw [hframe]
        have hsize : ((v.removeLink b p).2.slotframe b).size = (v.slotframe b).size := by rw [hframe]
        have hmem : ∀ q, q ∈ ((v.removeLink b p).2.slotframe b).linksList ↔
            q ≠ p ∧ q ∈ (v.slotframe b).linksList := by
          intro q
          rw [hlist]
          exact (h.represented.nodup_linksList hb).mem_erase_iff
        have hrest := afterRemoval b ts off ls (h.removeLink hb hp) (by rw [hsched]; exact hb)
          (fun q hq => (hmem q).mpr ⟨fun hqp => hpls (hqp ▸ hq), hls q (List.mem_cons_of_mem p hq)⟩) hn
        have hlinks : (v.removeLink b p).2.sched.links = v.sched.links := by rw [hsched]; rfl
        have hlink : ∀ q, (v.removeLink b p).2.link q = v.link q := fun q => congrFun hlinks q
        simp only [View.removeLinksAt, View.removeLinkIfAt, if_pos hat]
        refine ⟨hrest.inv, hrest.list.trans (by rw [hsched]; rfl), hrest.links.trans hlinks,
          hrest.size.trans hsize, ?_⟩
        intro q hq
        obtain ⟨hq', hgone⟩ := hrest.gone q hq
        obtain ⟨hne, hq'⟩ := (hmem q).mp hq'
        refine ⟨hq', ?_⟩
        intro hqls
        rw [← hlink]
        exact hgone ((List.mem_cons.mp hqls).resolve_left hne)
      · -- the link stays
        have hrest := afterRemoval b ts off ls h hb
          (fun q hq => hls q (List.mem_cons_of_mem p hq)) hn
        simp only [View.removeLinksAt, View.removeLinkIfAt, if_neg hat]
        refine ⟨hrest.inv, hrest.list, hrest.links, hrest.size, ?_⟩
        intro q hq
        obtain ⟨hq', hgone⟩ := hrest.gone q hq
        refine ⟨hq', ?_⟩
        intro hqls
        rcases List.mem_cons.mp hqls with rfl | hqls
        · exact hat
        · exact hgone hqls

/-- Link `p` is on the list of slotframe `b`, and the only one there at its
timeslot and channel offset. -/
def OnlyAt (v : ScheduleVars) (b ts off p : Nat) : Prop :=
  p ∈ (v.slotframes b).linksList ∧
    ∀ q ∈ (v.slotframes b).linksList,
      (v.links q).timeslot = ts ∧ (v.links q).channelOffset = off ↔ q = p

theorem RepInv.installLink {v : View} {b ts : Nat} (o : LinkOptions) (ty : LinkType)
    (a : LinkAddr) (off : Nat) (h : RepInv cfg v) (hb : b ∈ v.sched.slotframeList)
    (hts : ts < (v.slotframe b).size) :
    RepInv cfg (v.installLink cfg b o ty a ts off).2 ∧
      ((∀ q ∈ (v.slotframe b).linksList,
          ¬ ((v.link q).timeslot = ts ∧ (v.link q).channelOffset = off)) →
        ∀ p, (v.installLink cfg b o ty a ts off).1 = some p →
          OnlyAt (v.installLink cfg b o ty a ts off).2.sched b ts off p) := by
  simp only [View.installLink]
  cases hpick : cfg.memb.pick v.sched.linkMemb cfg.tschScheduleMaxLinks with
  | none => exact ⟨h, fun _ p hp => by cases hp⟩
  | some p =>
      have hfresh := cfg.memb.pick_fresh hpick
      have hrep : (v.install b p o ty a ts off).sched.Represented :=
        h.represented.install hb hfresh hts
      have hinstalled : RepInv cfg (v.install b p o ty a ts off) := by
        refine ⟨hrep, ?_, h.slotframeBlock⟩
        intro q hq
        rcases Finset.mem_insert.mp hq with rfl | hq
        · exact cfg.memb.pick_lt hpick
        · exact h.linkBlock q hq
      refine ⟨hinstalled.congr (View.count_sched o a), ?_⟩
      intro hclear p' hp'
      cases hp'
      simp only [View.count_sched]
      have hself : ((v.install b p o ty a ts off).link p).timeslot = ts ∧
          ((v.install b p o ty a ts off).link p).channelOffset = off := by
        simp only [View.install, View.setSched, View.link, Function.update_self, and_self]
      have hlist : ((v.install b p o ty a ts off).slotframe b).linksList =
          (v.slotframe b).linksList ++ [p] := View.install_linksList
      refine ⟨?_, fun q hq => ⟨fun hat => ?_, ?_⟩⟩
      · show p ∈ ((v.install b p o ty a ts off).slotframe b).linksList
        rw [hlist]
        exact List.mem_append_right _ (List.mem_singleton_self p)
      · by_contra hne
        have hq : q ∈ ((v.install b p o ty a ts off).slotframe b).linksList := hq
        rw [hlist, List.mem_append, List.mem_singleton] at hq
        have hat : ((v.install b p o ty a ts off).link q).timeslot = ts ∧
            ((v.install b p o ty a ts off).link q).channelOffset = off := hat
        rw [View.install_link_of_ne hne] at hat
        exact hclear q (hq.resolve_right hne) hat
      · rintro rfl
        exact hself

/-- **`tsch_schedule_add_link`** on an installed slotframe. -/
theorem RepInv.addLink {v : View} {b : Nat} (o : LinkOptions) (ty : LinkType) (a : Option LinkAddr)
    (ts off : Nat) (rm : Bool) (h : RepInv cfg v) (hb : b ∈ v.sched.slotframeList) :
    RepInv cfg (v.addLink cfg b o ty a ts off rm).2 ∧
      (rm = true → ∀ p, (v.addLink cfg b o ty a ts off rm).1 = some p →
        OnlyAt (v.addLink cfg b o ty a ts off rm).2.sched b ts off p) := by
  simp only [View.addLink]
  split
  · exact ⟨h, fun _ p hp => by cases hp⟩
  · rename_i hvalid
    have hts : ts < (v.slotframe b).size := by omega
    cases rm with
    | false =>
        exact ⟨(h.installLink o ty _ off hb hts).1, fun hrm => by cases hrm⟩
    | true =>
        have hrem := afterRemoval b ts off (v.slotframe b).linksList h hb (fun _ hp => hp)
          (h.represented.nodup_linksList hb)
        obtain ⟨hrep, honly⟩ := hrem.inv.installLink o ty (a.getD cfg.linkaddrNull) off
          (hrem.list ▸ hb) (hrem.size.symm ▸ hts)
        refine ⟨hrep, fun _ => honly ?_⟩
        intro q hq
        obtain ⟨hq', hgone⟩ := hrem.gone q hq
        have hlink : (v.removeLinksAt b ts off (v.slotframe b).linksList).2.link q = v.link q :=
          congrFun hrem.links q
        rw [hlink]
        exact hgone hq'

theorem addLink_slotframeList (v : View) (b : Nat) (o : LinkOptions) (ty : LinkType)
    (a : Option LinkAddr) (ts off : Nat) (rm : Bool) :
    (v.addLink cfg b o ty a ts off rm).2.sched.slotframeList = v.sched.slotframeList := by
  have hremove : ∀ (ls : List Nat) (w : View),
      (w.removeLinksAt b ts off ls).2.sched.slotframeList = w.sched.slotframeList := by
    intro ls
    induction ls with
    | nil => intro w; rfl
    | cons p ls ih =>
        intro w
        simp only [View.removeLinksAt]
        rw [ih]
        simp only [View.removeLinkIfAt, View.removeLink]
        split
        · split
          · rw [View.uncount_sched]
            rfl
          · rfl
        · rfl
  have hinstall : ∀ w : View,
      (w.installLink cfg b o ty (a.getD cfg.linkaddrNull) ts off).2.sched.slotframeList =
        w.sched.slotframeList := by
    intro w
    simp only [View.installLink]
    split
    · rw [View.count_sched]
      rfl
    · rfl
  simp only [View.addLink]
  split
  · rfl
  · rw [hinstall]
    cases rm with
    | false => rfl
    | true => exact hremove _ v

/-! ## Any sequence of calls -/

/-- The six operations of a client: the calls of `ScheduleCall`, and the removal of
everything. -/
inductive ScheduleOp where
  | call (c : ScheduleCall)
  | removeAllSlotframes
deriving DecidableEq, Repr

def ScheduleOp.perform (cfg : Config) (fuel : Nat) : ScheduleOp → Prog TschState Unit
  | .call c => makeCall cfg (fun _ _ _ => true) fuel c
  | .removeAllSlotframes => do
      let _ ← tschScheduleRemoveAllSlotframes fuel fuel

/-- Calls from `tsch_schedule_init` on. -/
def scheduleHistory (cfg : Config) (fuel : Nat) (ops : List ScheduleOp) : Prog TschState Unit := do
  let _ ← tschScheduleInit
  Prog.forEach ops (ScheduleOp.perform cfg fuel)

section
variable {live : Prop} {v : View} {s : TschState} {fuel : Nat}

/-- What holds between calls. -/
def RepReady (cfg : Config) (s : TschState) : Prop := ∃ v, RepInv cfg v ∧ At none false v s

/-- **`tsch_schedule_init`** leaves no slotframe, whatever was there before. -/
theorem wp_tschScheduleInit_empty (hi : (qlCtx cfg live).inv s) (hat : At none false v s) :
    Wp (qlCtx cfg live) tschScheduleInit (fun r t => r = true ∧ ∃ w, RepInv cfg w ∧
      w.sched.slotframeList = [] ∧ At none false w t) s := by
  have S : SchedCtx cfg (qlCtx cfg live) (fun _ => True) := schedCtx_ql _
  have hwrite : ∀ {f : TschState → TschState} {v w : View} {s : TschState},
      (qlCtx cfg live).inv s → At none true v s →
      (∀ t, At none true v t → (f t).slot = t.slot ∧ At none true w (f t)) →
      Wp (qlCtx cfg live) (Prog.modify f) (fun _ t => At none true w t) s := by
    intro f v w s hi hat hf
    refine S.wp_modify hi hat (fun t hit hat _ => ?_) fun t hat => (hf t hat).2
    obtain ⟨hslot, hat'⟩ := hf t hat
    exact inv_of_foreign hit (hat'.lock.trans hat.lock.symm) (by rw [hslot]) (by rw [hslot])
  refine Wp.call (S.wp_getLock hi hat) hi ?_
  rintro got t hit ⟨rfl, hat⟩
  refine Wp.call (hwrite (w := v.setSched { v.sched with linkMemb := ∅ }) hit hat fun u hu => ?_)
    hit fun _ t hit hat => ?_
  · refine ⟨rfl, ?_, hu.lock, hu.flux⟩
    rw [← hu.view]
    rfl
  refine Wp.call (hwrite (w := v.setSched { v.sched with linkMemb := ∅, slotframeMemb := ∅ })
    hit hat fun u hu => ?_) hit fun _ t hit hat => ?_
  · refine ⟨rfl, ?_, hu.lock, hu.flux⟩
    have hv : u.initSlotframeMemb.view =
        u.view.setSched { u.view.sched with slotframeMemb := ∅ } := rfl
    rw [hv, hu.view]
    rfl
  refine Wp.call (hwrite (w := v.setSched { v.sched with
    linkMemb := ∅, slotframeMemb := ∅, slotframeList := [] }) hit hat fun u hu => ?_)
    hit fun _ t hit hat => ?_
  · refine ⟨rfl, ?_, hu.lock, hu.flux⟩
    have hv : u.initSlotframeList.view =
        u.view.setSched { u.view.sched with slotframeList := [] } := rfl
    rw [hv, hu.view]
    rfl
  refine Wp.call (S.wp_releaseLock hit hat trivial) hit fun _ t _ hat => ?_
  have hempty : RepInv cfg (v.setSched { v.sched with
      linkMemb := ∅, slotframeMemb := ∅, slotframeList := [] }) := by
    refine ⟨⟨⟨List.nodup_nil, ?_, ?_, List.nodup_nil, ?_, ?_⟩, ?_, ?_, ?_, ?_⟩, ?_, ?_⟩ <;>
      simp [View.setSched, allLinks]
  exact Wp.ret ⟨rfl, _, hempty, rfl, hat⟩

theorem wp_tschScheduleInit (hi : (qlCtx cfg live).inv s) (hat : At none false v s) :
    Wp (qlCtx cfg live) tschScheduleInit (fun r t => r = true ∧ RepReady cfg t) s := by
  refine (wp_tschScheduleInit_empty hi hat).mono hi ?_
  rintro r t _ ⟨hr, w, hw, -, hat⟩
  exact ⟨hr, w, hw, hat⟩

theorem wp_scheduleCall (hfuel : live → cfg.tschScheduleMaxLinks < fuel) (c : ScheduleCall)
    (hi : (qlCtx cfg live).inv s) (hat : At none false v s) (h : RepInv cfg v)
    (hptr : c.pointersValid v = true) :
    Wp (qlCtx cfg live) (c.perform cfg fuel) (fun _ t => RepReady cfg t) s := by
  have S : SchedCtx cfg (qlCtx cfg live) (fun _ => True) := schedCtx_ql _
  cases c with
  | addSlotframe handle size =>
      refine Wp.call (S.wp_tschScheduleAddSlotframe hi hat handle size
        h.represented.slotframeMemb ⟨trivial, trivial⟩) hi ?_
      rintro _ t _ ⟨_, hat⟩
      exact Wp.ret ⟨_, h.addSlotframe handle size, hat⟩
  | removeSlotframe sf =>
      cases sf with
      | none => exact Wp.ret ⟨v, h, hat⟩
      | some b =>
          refine Wp.call (S.wp_removeSlotframe (RepInv.removalInv cfg) (fun hl w hw =>
            (hw.represented.length_le hw.linkBlock).trans_lt (hfuel hl)) hi hat h
            (of_decide_eq_true hptr)) hi ?_
          rintro _ t _ ⟨_, w, hw, -, hat⟩
          exact Wp.ret ⟨w, hw, hat⟩
  | addLink sf o ty a ts off rm =>
      cases sf with
      | none => exact Wp.ret ⟨v, h, hat⟩
      | some b =>
          refine Wp.call (S.wp_tschScheduleAddLink hi hat b o ty a ts off rm fun _ _ => trivial) hi ?_
          rintro _ t _ ⟨_, hat⟩
          exact Wp.ret ⟨_, (h.addLink o ty a ts off rm (of_decide_eq_true hptr)).1, hat⟩
  | removeLink sf l =>
      cases sf with
      | none => exact Wp.ret ⟨v, h, hat⟩
      | some b =>
          cases l with
          | none => exact Wp.ret ⟨v, h, hat⟩
          | some p =>
              obtain ⟨hb, hp⟩ := Bool.and_eq_true_iff.mp hptr
              refine Wp.call (S.wp_tschScheduleRemoveLink hi hat b p fun _ _ => trivial) hi ?_
              rintro _ t _ ⟨_, hat⟩
              exact Wp.ret ⟨_, h.removeLink_any (of_decide_eq_true hb) (of_decide_eq_true hp), hat⟩
  | removeLinkByTimeslot sf ts off =>
      cases sf with
      | none =>
          refine Wp.call (P := fun _ t => At none false v t) ?_ hi fun _ t _ hat => Wp.ret ⟨v, h, hat⟩
          refine Wp.call (S.wp_read hi hat (a := false)
            (fun t ht => by simp only [tschIsLocked, ht.lock])) hi ?_
          rintro r t _ ⟨rfl, hat⟩
          exact Wp.ret hat
      | some b =>
          have hb : b ∈ v.sched.slotframeList := of_decide_eq_true hptr
          refine Wp.call (S.wp_tschScheduleRemoveLinkByTimeslot hi hat b ts off fun _ _ => trivial)
            hi ?_
          rintro _ t _ ⟨_, hat⟩
          exact Wp.ret ⟨_, (afterRemoval b ts off _ h hb (fun _ hp => hp)
            (h.represented.nodup_linksList hb)).inv, hat⟩

theorem wp_scheduleOp (hlinks : live → cfg.tschScheduleMaxLinks < fuel)
    (hslotframes : live → cfg.tschScheduleMaxSlotframes < fuel) (op : ScheduleOp)
    (hi : (qlCtx cfg live).inv s) (h : RepReady cfg s) :
    Wp (qlCtx cfg live) (op.perform cfg fuel) (fun _ t => RepReady cfg t) s := by
  have S : SchedCtx cfg (qlCtx cfg live) (fun _ => True) := schedCtx_ql _
  obtain ⟨v, hv, hat⟩ := h
  cases op with
  | call c =>
      refine Wp.call (S.wp_read hi hat (a := c.pointersValid v && c.hasRoom cfg (fun _ _ _ => true) v)
        (fun t ht => by rw [ht.view])) hi ?_
      rintro ok t hit ⟨rfl, hat⟩
      cases hadm : c.pointersValid v && c.hasRoom cfg (fun _ _ _ => true) v with
      | false => exact Wp.ret ⟨v, hv, hat⟩
      | true => exact wp_scheduleCall hlinks c hit hat hv (Bool.and_eq_true_iff.mp hadm).1
  | removeAllSlotframes =>
      refine Wp.call (S.wp_removeAllSlotframes (RepInv.removalInv cfg) (fun hl w hw =>
        (hw.represented.length_le hw.linkBlock).trans_lt (hlinks hl)) fuel hi hat hv fun hl =>
        (hv.represented.length_slotframeList_le hv.slotframeBlock).trans_lt (hslotframes hl)) hi ?_
      rintro _ t _ ⟨_, w, hw, -, hat⟩
      exact Wp.ret ⟨w, hw, hat⟩

theorem wp_scheduleHistory (hlinks : live → cfg.tschScheduleMaxLinks < fuel)
    (hslotframes : live → cfg.tschScheduleMaxSlotframes < fuel) (ops : List ScheduleOp)
    (hi : (qlCtx cfg live).inv s) (hat : At none false v s) :
    Wp (qlCtx cfg live) (scheduleHistory cfg fuel ops) (fun _ t => RepReady cfg t) s := by
  refine Wp.call (wp_tschScheduleInit hi hat) hi ?_
  rintro _ t hit ⟨_, ht⟩
  exact Wp.forEach (J := fun _ t => RepReady cfg t)
    (fun op _ _ hi h => wp_scheduleOp hlinks hslotframes op hi h) ops hit ht

end

/-- **The schedule is represented.**  After `tsch_schedule_init` and any sequence
of calls, with a free lock and pointers that are installed or NULL: the calls
return; lists and pools agree, alone and under slot interrupts; and a link that is
then added with `do_remove = 1` is the only one at its place. -/
theorem schedule_represented (fuel : Nat) (ops : List ScheduleOp) {s : TschState}
    (hflags : SlotFlags s) (hidle : s.slot.tschInSlotOperation = false)
    (hlock : s.lock = ⟨false, false⟩) (hflux : s.ghost.linkInFlux = none)
    (hlinks : cfg.tschScheduleMaxLinks < fuel) (hslotframes : cfg.tschScheduleMaxSlotframes < fuel) :
    (∃ t, (scheduleHistory cfg fuel ops).exec s = some ((), t) ∧ t.sched.Represented) ∧
    (∀ t, Run (fun s s' => ∃ i, slotStep cfg i s = some s') (fun _ _ => True)
      (scheduleHistory cfg fuel ops, s) (.ret (), t) → t.sched.Represented) ∧
    ∀ b o ty a ts off p t, Run (fun s s' => ∃ i, slotStep cfg i s = some s') (fun _ _ => True)
      (scheduleHistory cfg fuel ops >>= fun _ => tschScheduleAddLink cfg (some b) o ty a ts off true,
        s) (.ret (some p), t) → b ∈ t.sched.slotframeList → OnlyAt t.sched b ts off p := by
  have hat : At none false s.view s := ⟨rfl, hlock, hflux⟩
  have hi : (qlCtx cfg False).inv s := ⟨hflags, False.elim⟩
  have S : SchedCtx cfg (qlCtx cfg False) (fun _ => True) := schedCtx_ql _
  have hmono : ∀ {α : Type} {p : Prog TschState α} {c},
      Run (fun s s' => ∃ i, slotStep cfg i s = some s') (fun _ _ => True) (p, s) c →
      Run (qlCtx cfg False).irq (qlCtx cfg False).cond (p, s) c := fun hr =>
    hr.mono (fun _ _ hi => ⟨id, hi⟩) fun _ _ h => h
  have hwp : Wp (qlCtx cfg False) (scheduleHistory cfg fuel ops) (fun _ t => RepReady cfg t) s :=
    wp_scheduleHistory (fun hl => hl.elim) (fun hl => hl.elim) ops hi hat
  refine ⟨?_, ?_, ?_⟩
  · obtain ⟨_, t, hexec, v, hv, hat⟩ := Wp.exec (C := qlCtx cfg True) trivial (fun _ _ => trivial)
      (wp_scheduleHistory (fun _ => hlinks) (fun _ => hslotframes) ops ⟨hflags, fun _ => hidle⟩ hat)
    have hsched : t.sched = v.sched := congrArg View.sched hat.view
    exact ⟨t, hexec, hsched ▸ hv.represented⟩
  · intro t hr
    obtain ⟨-, u, hiu, hrel, v, hv, hat⟩ := Wp.run hi hwp (hmono hr)
    have hsched : t.sched = v.sched := congrArg View.sched (S.at_rely hiu hat hrel).view
    exact hsched ▸ hv.represented
  · intro b o ty a ts off p t hr hb
    have hadd : Wp (qlCtx cfg False) (scheduleHistory cfg fuel ops >>= fun _ =>
        tschScheduleAddLink cfg (some b) o ty a ts off true) (fun r t => ∃ v, RepInv cfg v ∧
          r = (v.addLink cfg b o ty a ts off true).1 ∧
          At none false (v.addLink cfg b o ty a ts off true).2 t) s := by
      refine Wp.call hwp hi ?_
      rintro _ u hiu ⟨v, hv, hat⟩
      refine (S.wp_tschScheduleAddLink hiu hat b o ty a ts off true fun _ _ => trivial).mono hiu ?_
      rintro r w _ ⟨hr, haw⟩
      exact ⟨v, hv, hr, haw⟩
    obtain ⟨-, u, hiu, hrel, v, hv, hp, hat⟩ := Wp.run hi hadd (hmono hr)
    have hsched : t.sched = (v.addLink cfg b o ty a ts off true).2.sched :=
      congrArg View.sched (S.at_rely hiu hat hrel).view
    rw [hsched] at hb ⊢
    rw [addLink_slotframeList] at hb
    exact (hv.addLink o ty a ts off true hb).2 rfl p hp.symm

/-- Two links of one timeslot on different channel offsets, a handle that is taken
and a timeslot that does not exist. -/
def replaceOps : List ScheduleOp :=
  [.call (.addSlotframe 0 7), .call (.addSlotframe 0 9),
    .call (.addLink (some 0) txShared .normal (some 5) 1 0 false),
    .call (.addLink (some 0) rxShared .normal (some 5) 1 1 false),
    .call (.addLink (some 0) rxShared .normal (some 5) 7 0 false)]

/-- The first link is replaced, and its block is used again. -/
theorem schedule_represented_replaced :
    ∃ t, (scheduleHistory (smallBuild 8) 33 replaceOps >>= fun _ =>
        tschScheduleAddLink (smallBuild 8) (some 0) rxShared .normal none 1 0 true).exec
          (TschState.boot (smallBuild 8)) = some (some 0, t) ∧
      OnlyAt t.sched 0 1 0 0 ∧ 1 ∈ (t.slotframe 0).linksList := by
  obtain ⟨r, hr⟩ : ∃ r, (scheduleHistory (smallBuild 8) 33 replaceOps >>= fun _ =>
      tschScheduleAddLink (smallBuild 8) (some 0) rxShared .normal none 1 0 true).exec
        (TschState.boot (smallBuild 8)) = some r := Option.isSome_iff_exists.mp (by decide +kernel)
  have hvalue : ((scheduleHistory (smallBuild 8) 33 replaceOps >>= fun _ =>
      tschScheduleAddLink (smallBuild 8) (some 0) rxShared .normal none 1 0 true).exec
        (TschState.boot (smallBuild 8))).any (fun r => decide (r.1 = some 0 ∧
          0 ∈ r.2.sched.slotframeList ∧ 1 ∈ (r.2.slotframe 0).linksList)) = true := by
    decide +kernel
  rw [hr, Option.any_some, decide_eq_true_eq] at hvalue
  obtain ⟨hp, hb, hkept⟩ := hvalue
  have hret : r = (some 0, r.2) := Prod.ext hp rfl
  have hrun : Run (fun s s' => ∃ i, slotStep (smallBuild 8) i s = some s') (fun _ _ => True) _ _ :=
    Run.of_exec hr
  rw [hp] at hrun
  exact ⟨r.2, hr.trans (congrArg some hret),
    (schedule_represented 33 replaceOps ⟨by decide +kernel, by decide +kernel⟩ rfl rfl rfl
      (by decide) (by decide)).2.2 0 rxShared .normal none 1 0 0 r.2 hrun hb, hkept⟩

end QlTsch
