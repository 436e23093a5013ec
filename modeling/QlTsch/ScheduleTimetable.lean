/-
# `QlTsch.ScheduleTimetable` — the schedule is a timetable

A client of `tsch-schedule.c` that finds slotframes by their handles and links by their
timeslots and channel offsets sees a `Timetable`: every call returns what the timetable
returns, and leaves the lists and pools as a representation of what it leaves
(`schedule_refines_timetable`).  This is so under slot interrupts at every point of the calls.

Hence, if links are added with `do_remove = 1`, `tsch_schedule_get_link_by_timeslot` finds what
was last put into the cell (`lookup_last_put`).
-/
import Mathlib.Data.List.Find
import QlTsch.ScheduleRepresentation
import QlTsch.Timetable

namespace QlTsch

open Interleave Interleave.Prog ScheduleVars

variable {cfg : Config}

/-! ## Representation -/

namespace View

/-- What a link block says. -/
def entry (v : View) (p : Nat) : Timetable.Entry where
  cell := ⟨(v.link p).slotframeHandle, (v.link p).timeslot, (v.link p).channelOffset⟩
  linkOptions := (v.link p).linkOptions
  linkType := (v.link p).linkType
  addr := (v.link p).addr

def frame (v : View) (b : Nat) : Timetable.Frame := ⟨(v.slotframe b).handle, (v.slotframe b).size⟩

end View

/-- The lists of the schedule are the timetable. -/
structure Represents (T : Timetable) (v : View) : Prop where
  frames : v.sched.slotframeList.map v.frame = T.frames
  links : ∀ b ∈ v.sched.slotframeList, (v.slotframe b).linksList.map v.entry =
    T.links.filter fun e => e.cell.slotframe == (v.slotframe b).handle
  count : T.links.length = v.sched.allLinks.length

theorem erase_of_find? {q : Nat → Bool} {l : List Nat} {p : Nat} (h : l.find? q = some p) :
    l.erase p = l.eraseP q := by
  induction l with
  | nil => cases h
  | cons x l ih =>
      cases hx : q x with
      | true =>
          rw [List.find?_cons_of_pos hx] at h
          cases h
          rw [List.erase_cons_head, List.eraseP_cons_of_pos hx]
      | false =>
          rw [List.find?_cons_of_neg (by simp [hx])] at h
          have hne : x ≠ p := by
            rintro rfl
            have hq := List.find?_some h
            rw [hx] at hq
            cases hq
          rw [List.erase_cons_tail (by simpa using hne), List.eraseP_cons_of_neg (by simp [hx]), ih h]

namespace Represents

variable {T U : Timetable} {v w : View} {b p : Nat}

theorem congr (h : Represents T v) (hw : w.sched = v.sched) : Represents T w := by
  obtain ⟨hframes, hlinks, hcount⟩ := h
  refine ⟨?_, ?_, ?_⟩
  · rw [← hframes, hw]
    exact congrArg (List.map · v.sched.slotframeList) (funext fun b => by
      simp only [View.frame, View.slotframe, hw])
  · intro c hc
    rw [hw] at hc
    have hentry : w.entry = v.entry := funext fun q => by simp only [View.entry, View.link, hw]
    have hframe : w.slotframe c = v.slotframe c := by simp only [View.slotframe, hw]
    rw [hentry, hframe]
    exact hlinks c hc
  · rw [hcount, hw]

theorem empty (hv : v.sched.slotframeList = []) : Represents Timetable.empty v := by
  refine ⟨by rw [hv]; rfl, ?_, ?_⟩
  · intro b hb
    rw [hv] at hb
    cases hb
  · simp only [allLinks, hv]
    rfl

/-! ### Lookups -/

theorem getSlotframe (h : Represents T v) (handle : Nat) :
    (v.sched.slotframeList.find? fun b => (v.slotframe b).handle == handle).map v.frame =
      T.getSlotframe handle := by
  rw [Timetable.getSlotframe, ← h.frames, List.find?_map]
  rfl

theorem getLink (h : Represents T v) (hb : b ∈ v.sched.slotframeList) (ts off : Nat) :
    ((v.slotframe b).linksList.find? fun p => (v.link p).timeslot == ts &&
      (v.link p).channelOffset == off).map v.entry =
        T.getLink ⟨(v.slotframe b).handle, ts, off⟩ := by
  have hcell : T.getLink ⟨(v.slotframe b).handle, ts, off⟩ =
      ((v.slotframe b).linksList.map v.entry).find? fun e => e.cell.timeslot == ts &&
        e.cell.channelOffset == off := by
    rw [h.links b hb, List.find?_filter]
    refine congrArg (List.find? · T.links) (funext fun e => ?_)
    obtain ⟨⟨sf, t, o⟩, _, _, _⟩ := e
    rw [Bool.eq_iff_iff]
    simp [Timetable.Cell.mk.injEq]
  rw [hcell, List.find?_map]
  rfl

/-! ### Removals -/

theorem unlink (h : Represents T v) (hv : v.sched.WellFormed) (hb : b ∈ v.sched.slotframeList)
    {q : Timetable.Entry → Bool} (hq : ∀ e, q e = true → e.cell.slotframe = (v.slotframe b).handle)
    (hp : (v.slotframe b).linksList.find? (q ∘ v.entry) = some p) (hframes : U.frames = T.frames)
    (hlinks : U.links = T.links.eraseP q) : Represents U (v.removeLink b p).2 := by
  have hmem := List.mem_of_find?_eq_some hp
  have hqp : q (v.entry p) = true := List.find?_some (p := q ∘ v.entry) hp
  refine congr ?_ (View.removeLink_sched hv hb hmem)
  have hentry : (v.unlink b p).entry = v.entry := rfl
  refine ⟨?_, ?_, ?_⟩
  · rw [hframes, ← h.frames]
    refine congrArg (List.map · v.sched.slotframeList) (funext fun c => ?_)
    simp only [View.frame, View.unlink_handle, View.unlink_size]
  · intro c hc
    rw [hentry, hlinks, View.unlink_handle]
    rcases eq_or_ne c b with rfl | hcb
    · rw [View.unlink_linksList, erase_of_find? hp, ← List.eraseP_map, h.links c hb, List.eraseP_filter]
      refine congrArg (fun q => List.filter _ (List.eraseP q T.links)) (funext fun e => ?_)
      cases hqe : q e with
      | true => simp [hq e hqe]
      | false => rfl
    · rw [View.unlink_slotframe_of_ne hcb, h.links c hc]
      refine (Timetable.filter_eraseP_of_disjoint T.links ?_).symm
      intro e he
      rw [beq_eq_false_iff_ne, hq e he]
      exact fun hh => hcb (hv.handles c hc b hb hh.symm)
  · have hperm := (View.perm_unlink hv hb hmem).length_eq
    have hin : v.entry p ∈ T.links := by
      have hmap := List.mem_map_of_mem (f := v.entry) hmem
      rw [h.links b hb] at hmap
      exact List.mem_of_mem_filter hmap
    rw [hlinks, List.length_eraseP_of_mem hin hqp, h.count, hperm, List.length_cons,
      Nat.add_sub_cancel]

theorem isSome_getLink (h : Represents T v) (hb : b ∈ v.sched.slotframeList) (ts off : Nat) :
    (T.getLink ⟨(v.slotframe b).handle, ts, off⟩).isSome = (v.slotframe b).linksList.any fun p =>
      (v.link p).timeslot == ts && (v.link p).channelOffset == off := by
  rw [← h.getLink hb, Option.isSome_map, List.isSome_find?]

theorem removeFirst (h : Represents T v) (hv : v.sched.WellFormed) (hb : b ∈ v.sched.slotframeList)
    {ts off : Nat} (hp : ((v.slotframe b).linksList.find? fun p => (v.link p).timeslot == ts &&
      (v.link p).channelOffset == off) = some p) :
    Represents (T.removeFirst ⟨(v.slotframe b).handle, ts, off⟩) (v.removeLink b p).2 := by
  refine h.unlink hv hb (q := fun e => e.cell == ⟨(v.slotframe b).handle, ts, off⟩) ?_ ?_ rfl rfl
  · intro e he
    rw [beq_iff_eq.mp he]
  · rw [← hp]
    refine List.find?_congr ?_
    intro c hc
    have hhandle : (v.link c).slotframeHandle = (v.slotframe b).handle := hv.slotframeHandle b hb c hc
    rw [Bool.eq_iff_iff]
    simp [View.entry, Timetable.Cell.mk.injEq, hhandle]

/-- What the loop of `tsch_schedule_remove_link_by_timeslot` has done when the links `ls` are
still to visit, those before them being elsewhere. -/
theorem removeLinksAt {ts off : Nat} : ∀ (ls kept : List Nat) {v : View} {T : Timetable},
    RepInv cfg v → b ∈ v.sched.slotframeList → Represents T v →
    (v.slotframe b).linksList = kept ++ ls →
    (∀ q ∈ kept, ¬ ((v.link q).timeslot = ts ∧ (v.link q).channelOffset = off)) →
    (v.removeLinksAt b ts off ls).1 = (T.getLink ⟨(v.slotframe b).handle, ts, off⟩).isSome ∧
      RepInv cfg (v.removeLinksAt b ts off ls).2 ∧
      Represents (T.clear ⟨(v.slotframe b).handle, ts, off⟩) (v.removeLinksAt b ts off ls).2 ∧
      (v.removeLinksAt b ts off ls).2.sched.slotframeList = v.sched.slotframeList ∧
      (v.removeLinksAt b ts off ls).2.frame b = v.frame b
  | [], kept, v, T, hv, hb, h, hlist, hkept => by
      have hnone : (T.getLink ⟨(v.slotframe b).handle, ts, off⟩).isSome = false := by
        rw [h.isSome_getLink hb, hlist, List.append_nil, List.any_eq_false]
        intro q hq
        simpa using hkept q hq
      refine ⟨hnone.symm, hv, ?_, rfl, rfl⟩
      rw [Timetable.clear_of_getLink (Option.not_isSome_iff_eq_none.mp (by rw [hnone]; simp))]
      exact h
  | p :: ls, kept, v, T, hv, hb, h, hlist, hkept => by
      have hwf := hv.represented.toWellFormed
      have hp : p ∈ (v.slotframe b).linksList := by
        rw [hlist]
        exact List.mem_append_right _ List.mem_cons_self
      by_cases hat : (v.link p).timeslot = ts ∧ (v.link p).channelOffset = off
      · -- the link goes
        have hfind : ((v.slotframe b).linksList.find? fun p => (v.link p).timeslot == ts &&
            (v.link p).channelOffset == off) = some p := by
          rw [hlist, List.find?_append, List.find?_eq_none.mpr, Option.none_or,
            List.find?_cons_of_pos (by simpa using hat)]
          intro q hq
          simpa using hkept q hq
        have hframe := View.removeLink_slotframe hwf hb hp
        have hsched := View.removeLink_sched hwf hb hp
        have hnot : p ∉ kept := fun hmem => hkept p hmem hat
        have hrest := removeLinksAt ls kept (hv.removeLink hb hp) (by rw [hsched]; exact hb)
          (h.removeFirst hwf hb hfind)
          (by
            refine (congrArg TschSlotframe.linksList hframe).trans ?_
            show (v.slotframe b).linksList.erase p = kept ++ ls
            rw [hlist, List.erase_append_right _ hnot, List.erase_cons_head])
          (by
            intro q hq
            simp only [View.link, hsched]
            exact hkept q hq)
        have hhandle : ((v.removeLink b p).2.slotframe b).handle = (v.slotframe b).handle := by
          rw [hframe]
        rw [hhandle, Timetable.clear_removeFirst] at hrest
        obtain ⟨-, hinv, hrep, hframes, hfr⟩ := hrest
        have hsome : (T.getLink ⟨(v.slotframe b).handle, ts, off⟩).isSome = true := by
          rw [← h.getLink hb, hfind]
          rfl
        simp only [View.removeLinksAt, View.removeLinkIfAt, if_pos hat]
        refine ⟨?_, hinv, hrep, hframes.trans (by rw [hsched]; rfl), hfr.trans ?_⟩
        · rw [hsome, View.removeLink_of_mem hwf hb hp]
          rfl
        · simp only [View.frame, hframe]
      · -- the link stays
        simp only [View.removeLinksAt, View.removeLinkIfAt, if_neg hat, Bool.false_or]
        refine removeLinksAt ls (kept ++ [p]) hv hb h (by rw [hlist, List.append_assoc]; rfl) ?_
        intro q hq
        rcases List.mem_append.mp hq with hq | hq
        · exact hkept q hq
        · rw [List.mem_singleton.mp hq]
          exact hat

/-- **`tsch_schedule_remove_link_by_timeslot`.** -/
theorem removeLinkByTimeslot (h : Represents T v) (hv : RepInv cfg v)
    (hb : b ∈ v.sched.slotframeList) (ts off : Nat) :
    (v.removeLinkByTimeslot b ts off).1 = (T.getLink ⟨(v.slotframe b).handle, ts, off⟩).isSome ∧
      RepInv cfg (v.removeLinkByTimeslot b ts off).2 ∧
      Represents (T.clear ⟨(v.slotframe b).handle, ts, off⟩) (v.removeLinkByTimeslot b ts off).2 ∧
      (v.removeLinkByTimeslot b ts off).2.sched.slotframeList = v.sched.slotframeList ∧
      (v.removeLinkByTimeslot b ts off).2.frame b = v.frame b :=
  removeLinksAt _ [] hv hb h rfl fun _ hq => absurd hq List.not_mem_nil

/-! ### A new link -/

theorem pick_link (h : Represents T v) (hv : RepInv cfg v) :
    (cfg.memb.pick v.sched.linkMemb cfg.tschScheduleMaxLinks).isSome ↔
      T.links.length < cfg.tschScheduleMaxLinks := by
  have hused : v.sched.linkMemb = v.sched.allLinks.toFinset := by
    ext p
    rw [hv.represented.linksInUse, List.mem_toFinset]
  rw [cfg.memb.pick_isSome_iff hv.linkBlock, hused,
    List.toFinset_card_of_nodup hv.represented.links, h.count]

theorem pick_slotframe (h : Represents T v) (hv : RepInv cfg v) :
    (cfg.memb.pick v.sched.slotframeMemb cfg.tschScheduleMaxSlotframes).isSome ↔
      T.frames.length < cfg.tschScheduleMaxSlotframes := by
  have hused : v.sched.slotframeMemb = v.sched.slotframeList.toFinset := by
    ext b
    rw [hv.represented.slotframesInUse, List.mem_toFinset]
  rw [cfg.memb.pick_isSome_iff hv.slotframeBlock, hused,
    List.toFinset_card_of_nodup hv.represented.slotframes, ← h.frames, List.length_map]

theorem install (h : Represents T v) (hv : v.sched.WellFormed) (hb : b ∈ v.sched.slotframeList)
    (hp : p ∉ v.sched.linkMemb) {o : LinkOptions} {ty : LinkType} {a : LinkAddr} {ts off : Nat}
    (hframes : U.frames = T.frames)
    (hlinks : U.links = T.links ++ [⟨⟨(v.slotframe b).handle, ts, off⟩, o, ty, a⟩]) :
    Represents U (v.install b p o ty a ts off) := by
  have hold : ∀ c ∈ v.sched.slotframeList, (v.slotframe c).linksList.map
      (v.install b p o ty a ts off).entry = (v.slotframe c).linksList.map v.entry := by
    intro c hc
    refine List.map_congr_left ?_
    intro q hq
    have hne : q ≠ p := fun hqp => hp (hqp ▸ hv.linkMemb q (mem_allLinks.mpr ⟨c, hc, hq⟩))
    simp only [View.entry, View.install_link_of_ne hne]
  refine ⟨?_, ?_, ?_⟩
  · rw [hframes, ← h.frames]
    refine congrArg (List.map · v.sched.slotframeList) (funext fun c => ?_)
    rcases eq_or_ne c b with rfl | hcb
    · simp only [View.frame, View.install, View.setSched, View.slotframe, Function.update_self]
    · simp only [View.frame, View.install_slotframe_of_ne hcb]
  · intro c hc
    rw [hlinks, View.install_handle, List.filter_append]
    rcases eq_or_ne c b with rfl | hcb
    · rw [View.install_linksList, List.map_append, hold c hc, h.links c hc]
      congr 1
      simp [View.entry, View.install, View.setSched, View.link, View.slotframe]
    · have hhandle : (v.slotframe b).handle ≠ (v.slotframe c).handle :=
        fun hh => hcb (hv.handles c hc b hb hh.symm)
      rw [View.install_slotframe_of_ne hcb, hold c hc, h.links c hc]
      simp [hhandle]
  · rw [hlinks, List.length_append, h.count, (View.perm_install hv hb).length_eq]
    rfl

/-! ### Slotframes -/

theorem dropSlotframe (h : Represents T v) (hv : v.sched.WellFormed) (hb : b ∈ v.sched.slotframeList)
    (he : (v.slotframe b).linksList = []) :
    Represents (T.withoutFrame (v.slotframe b).handle) (v.dropSlotframe b) := by
  have hnone : T.links.filter (fun e => e.cell.slotframe == (v.slotframe b).handle) = [] := by
    rw [← h.links b hb, he]
    rfl
  have hall : T.links.filter (fun e => e.cell.slotframe != (v.slotframe b).handle) = T.links := by
    refine List.filter_eq_self.mpr ?_
    intro e hmem
    have := List.filter_eq_nil_iff.mp hnone e hmem
    simpa using this
  refine ⟨?_, ?_, ?_⟩
  · show (v.sched.slotframeList.erase b).map v.frame = T.frames.filter _
    rw [hv.slotframes.erase_eq_filter, ← h.frames, List.filter_map]
    refine congrArg (List.map v.frame) (List.filter_congr ?_)
    intro c hc
    rw [Bool.eq_iff_iff]
    simp only [bne_iff_ne, ne_eq, Function.comp_apply, View.frame]
    exact not_congr ⟨fun hcb => hcb ▸ rfl, fun hh => hv.handles c hc b hb hh⟩
  · intro c hc
    have hc : c ∈ v.sched.slotframeList.erase b := hc
    show (v.slotframe c).linksList.map v.entry = (T.links.filter _).filter _
    rw [hall]
    exact h.links c (List.mem_of_mem_erase hc)
  · show (T.links.filter _).length = _
    rw [hall, h.count, (View.wellFormed_dropSlotframe hv hb he).2.length_eq]

theorem newSlotframe (h : Represents T v) {f : Timetable.Frame} {m : Finset Nat}
    (hb : b ∉ v.sched.slotframeList) (hnew : T.getSlotframe f.handle = none)
    (hall : ScheduleVars.allLinks { v.sched.setSlotframe b ⟨f.handle, f.size, []⟩ with
      slotframeMemb := m
      slotframeList := v.sched.slotframeList ++ [b] } = v.sched.allLinks)
    (hframes : U.frames = T.frames ++ [f]) (hlinks : U.links = T.links) :
    Represents U (v.setSched { v.sched.setSlotframe b ⟨f.handle, f.size, []⟩ with
      slotframeMemb := m
      slotframeList := v.sched.slotframeList ++ [b] }) := by
  have hold : ∀ c ∈ v.sched.slotframeList,
      (v.sched.setSlotframe b ⟨f.handle, f.size, []⟩).slotframes c = v.sched.slotframes c :=
    setSlotframe_of_notMem hb
  have hself : (v.sched.setSlotframe b ⟨f.handle, f.size, []⟩).slotframes b =
      ⟨f.handle, f.size, []⟩ := setSlotframe_self
  refine ⟨?_, ?_, ?_⟩
  · show (v.sched.slotframeList ++ [b]).map _ = U.frames
    rw [hframes, List.map_append, ← h.frames]
    refine congrArg₂ _ (List.map_congr_left fun c hc => ?_) ?_
    · simp only [View.frame, View.slotframe, View.setSched, hold c hc]
    · simp only [View.frame, View.slotframe, View.setSched, List.map_singleton, hself]
  · intro c hc
    simp only [View.slotframe, View.setSched]
    rcases List.mem_append.mp hc with hc | hc
    · rw [hold c hc, hlinks]
      exact h.links c hc
    · rw [List.mem_singleton.mp hc, hself, hlinks]
      refine (List.filter_eq_nil_iff.mpr ?_).symm
      intro e he
      obtain ⟨g, hg, hhandle, -⟩ := T.placed e he
      have := List.find?_eq_none.mp hnew g hg
      rwa [hhandle] at this
  · rw [hlinks, h.count]
    exact congrArg List.length hall.symm

/-- **`tsch_schedule_add_slotframe`.** -/
theorem addSlotframe (h : Represents T v) (hv : RepInv cfg v) (f : Timetable.Frame) :
    (v.addSlotframe cfg f.handle f.size).1.isSome =
        (T.addSlotframe ⟨cfg.tschScheduleMaxSlotframes, cfg.tschScheduleMaxLinks⟩ f).1 ∧
      Represents (T.addSlotframe ⟨cfg.tschScheduleMaxSlotframes, cfg.tschScheduleMaxLinks⟩ f).2
        (v.addSlotframe cfg f.handle f.size).2 := by
  have hknown : (v.sched.slotframeList.any fun b => (v.slotframe b).handle == f.handle) =
      (T.getSlotframe f.handle).isSome := by
    rw [← h.getSlotframe, Option.isSome_map, List.isSome_find?]
  have hall := (View.wellFormed_addSlotframe cfg f.handle f.size hv.represented.toWellFormed).2
  by_cases hrej : f.size = 0 ∨ (T.getSlotframe f.handle).isSome = true
  · have hno : ¬ (f.size ≠ 0 ∧ T.getSlotframe f.handle = none ∧
        T.frames.length < cfg.tschScheduleMaxSlotframes) := by
      rintro ⟨hsize, hnone, -⟩
      rw [hnone] at hrej
      exact hrej.elim hsize (fun hc => by cases hc)
    simp only [View.addSlotframe, hknown, if_pos hrej, Timetable.addSlotframe, dif_neg hno]
    exact ⟨rfl, h⟩
  · simp only [View.addSlotframe, hknown, if_neg hrej] at hall ⊢
    rw [not_or, Bool.not_eq_true, Option.isSome_eq_false_iff, Option.isNone_iff_eq_none] at hrej
    have hpick := h.pick_slotframe hv
    cases hb : cfg.memb.pick v.sched.slotframeMemb cfg.tschScheduleMaxSlotframes with
    | none =>
        rw [hb] at hpick
        have hno : ¬ (f.size ≠ 0 ∧ T.getSlotframe f.handle = none ∧
            T.frames.length < cfg.tschScheduleMaxSlotframes) := by
          rintro ⟨-, -, hroom⟩
          cases hpick.mpr hroom
        simp only [Timetable.addSlotframe, dif_neg hno]
        exact ⟨rfl, h⟩
    | some b =>
        rw [hb] at hpick
        have hyes : f.size ≠ 0 ∧ T.getSlotframe f.handle = none ∧
            T.frames.length < cfg.tschScheduleMaxSlotframes := ⟨hrej.1, hrej.2, hpick.mp rfl⟩
        simp only [hb] at hall
        simp only [Timetable.addSlotframe, dif_pos hyes]
        exact ⟨rfl, h.newSlotframe (fun hmem =>
          cfg.memb.pick_fresh hb ((hv.represented.slotframesInUse b).mpr hmem)) hyes.2.1 hall rfl rfl⟩

/-- **`tsch_schedule_add_link`** from taking the lock on. -/
theorem installLink (h : Represents T v) (hv : RepInv cfg v) (hb : b ∈ v.sched.slotframeList)
    (o : LinkOptions) (ty : LinkType) (a : LinkAddr) (ts off : Nat) :
    (v.installLink cfg b o ty a ts off).1.isSome =
        decide (T.links.length < cfg.tschScheduleMaxLinks) ∧
      (T.links.length < cfg.tschScheduleMaxLinks → U.frames = T.frames →
        U.links = T.links ++ [⟨⟨(v.slotframe b).handle, ts, off⟩, o, ty, a⟩] →
        Represents U (v.installLink cfg b o ty a ts off).2) ∧
      (¬ T.links.length < cfg.tschScheduleMaxLinks → (v.installLink cfg b o ty a ts off).2 = v) := by
  have hpick := h.pick_link hv
  simp only [View.installLink]
  cases hp : cfg.memb.pick v.sched.linkMemb cfg.tschScheduleMaxLinks with
  | none =>
      rw [hp] at hpick
      have hfull : ¬ T.links.length < cfg.tschScheduleMaxLinks := fun hc => by cases hpick.mpr hc
      exact ⟨(decide_eq_false hfull).symm, fun hc => absurd hc hfull, fun _ => rfl⟩
  | some p =>
      rw [hp] at hpick
      have hroom := hpick.mp rfl
      refine ⟨(decide_eq_true hroom).symm, fun _ hframes hlinks => ?_, fun hc => absurd hroom hc⟩
      exact congr (h.install hv.represented.toWellFormed hb (cfg.memb.pick_fresh hp) hframes hlinks)
        (View.count_sched o a)

theorem length_links_le (h : Represents T v) (hv : RepInv cfg v) :
    T.links.length ≤ cfg.tschScheduleMaxLinks := by
  rw [h.count]
  exact hv.represented.length_le hv.linkBlock

/-- **`tsch_schedule_add_link`.** -/
theorem addLink (h : Represents T v) (hv : RepInv cfg v) (hb : b ∈ v.sched.slotframeList)
    (e : Timetable.Entry) (rm : Bool) (he : e.cell.slotframe = (v.slotframe b).handle)
    (hf : T.getSlotframe e.cell.slotframe = some (v.frame b)) :
    (v.addLink cfg b e.linkOptions e.linkType (some e.addr) e.cell.timeslot e.cell.channelOffset
        rm).1.isSome =
        (T.addLink ⟨cfg.tschScheduleMaxSlotframes, cfg.tschScheduleMaxLinks⟩ e rm).1 ∧
      Represents (T.addLink ⟨cfg.tschScheduleMaxSlotframes, cfg.tschScheduleMaxLinks⟩ e rm).2
        (v.addLink cfg b e.linkOptions e.linkType (some e.addr) e.cell.timeslot e.cell.channelOffset
          rm).2 := by
  have hcell : e.cell = ⟨(v.slotframe b).handle, e.cell.timeslot, e.cell.channelOffset⟩ := by
    rw [← he]
  -- the schedule the link is added to
  obtain ⟨w, hw, hrep, hbw, hframe, hcleared⟩ : ∃ w, w = (if rm then (v.removeLinkByTimeslot b
      e.cell.timeslot e.cell.channelOffset).2 else v) ∧ RepInv cfg w ∧ b ∈ w.sched.slotframeList ∧
      w.frame b = v.frame b ∧ Represents (T.cleared e rm) w := by
    refine ⟨_, rfl, ?_⟩
    cases rm with
    | false => exact ⟨hv, hb, rfl, h⟩
    | true =>
        obtain ⟨-, hinv, hclear, hlist, hframe⟩ :=
          h.removeLinkByTimeslot hv hb e.cell.timeslot e.cell.channelOffset
        rw [← hcell] at hclear
        exact ⟨hinv, hlist ▸ hb, hframe, hclear⟩
  have hsize : (w.slotframe b).size = (v.slotframe b).size := congrArg Timetable.Frame.size hframe
  have hhandle : (w.slotframe b).handle = (v.slotframe b).handle :=
    congrArg Timetable.Frame.handle hframe
  have hpos : 1 ≤ (v.slotframe b).size := hv.represented.sizes b hb
  by_cases hts : e.cell.timeslot < (v.slotframe b).size
  · have hvalid : ¬ (e.cell.timeslot : Int) > (v.slotframe b).size - 1 := by omega
    simp only [View.addLink, if_neg hvalid, ← hw, Option.getD_some]
    by_cases hroom : (T.cleared e rm).links.length < cfg.tschScheduleMaxLinks
    · rw [Timetable.addLink_of _ hf ⟨hts, hroom⟩]
      have hinst := hcleared.installLink (U := (T.cleared e rm).withLink e
        ((Timetable.getSlotframe_cleared e rm T _).trans hf) hts) hrep hbw e.linkOptions e.linkType
        e.addr e.cell.timeslot e.cell.channelOffset
      refine ⟨hinst.1.trans (decide_eq_true hroom), hinst.2.1 hroom rfl ?_⟩
      rw [hhandle, ← hcell]
      rfl
    · have hfull : T.cleared e rm = T := by
        refine Timetable.cleared_of_le ((h.length_links_le hv).trans ?_)
        omega
      rw [Timetable.addLink_of_not _ hf (fun hc => hroom hc.2)]
      rw [hfull] at hcleared hroom
      have hinst := hcleared.installLink (U := T) hrep hbw e.linkOptions e.linkType e.addr
        e.cell.timeslot e.cell.channelOffset
      refine ⟨hinst.1.trans (decide_eq_false hroom), ?_⟩
      rw [hinst.2.2 hroom]
      exact hcleared
  · have hvalid : (e.cell.timeslot : Int) > (v.slotframe b).size - 1 := by omega
    simp only [View.addLink, if_pos hvalid]
    rw [Timetable.addLink_of_not _ hf (fun hc => hts hc.1)]
    exact ⟨rfl, h⟩

end Represents

/-! ## A client of the schedule -/

/-- A call, as a client makes it: slotframes are looked up by their handles, links by what is in
their cell. -/
def Timetable.Call.perform (cfg : Config) (fuel : Nat) :
    Timetable.Call → Prog TschState Timetable.Answer
  | .addSlotframe f => do
      let sf ← tschScheduleAddSlotframe cfg f.handle f.size
      pure (.done sf.isSome)
  | .removeSlotframe handle => do
      let sf ← Prog.read (tschScheduleGetSlotframeByHandle · handle)
      let ok ← tschScheduleRemoveSlotframe fuel sf
      pure (.done ok)
  | .removeAllSlotframes => do
      let ok ← tschScheduleRemoveAllSlotframes fuel fuel
      pure (.done ok)
  | .addLink e doRemove => do
      let sf ← Prog.read (tschScheduleGetSlotframeByHandle · e.cell.slotframe)
      let l ← tschScheduleAddLink cfg sf e.linkOptions e.linkType (some e.addr) e.cell.timeslot
        e.cell.channelOffset doRemove
      pure (.done l.isSome)
  | .removeLink c => do
      let sf ← Prog.read (tschScheduleGetSlotframeByHandle · c.slotframe)
      let l ← Prog.read (tschScheduleGetLinkByTimeslot · sf c.timeslot c.channelOffset)
      let ok ← tschScheduleRemoveLink sf l
      pure (.done ok)
  | .removeLinkByTimeslot c => do
      let sf ← Prog.read (tschScheduleGetSlotframeByHandle · c.slotframe)
      let ok ← tschScheduleRemoveLinkByTimeslot sf c.timeslot c.channelOffset
      pure (.done ok)
  | .getSlotframe handle =>
      Prog.read fun s => .frame ((tschScheduleGetSlotframeByHandle s handle).map s.view.frame)
  | .getLink c => do
      let sf ← Prog.read (tschScheduleGetSlotframeByHandle · c.slotframe)
      Prog.read fun s =>
        .link ((tschScheduleGetLinkByTimeslot s sf c.timeslot c.channelOffset).map s.view.entry)

/-- Calls one after the other, with what they return. -/
def performCalls (cfg : Config) (fuel : Nat) : List Timetable.Call →
    Prog TschState (List Timetable.Answer)
  | [] => pure []
  | k :: ks => do
      let a ← k.perform cfg fuel
      let as ← performCalls cfg fuel ks
      pure (a :: as)

/-- The schedule is used from `tsch_schedule_init` on. -/
def scheduleClient (cfg : Config) (fuel : Nat) (ks : List Timetable.Call) :
    Prog TschState (List Timetable.Answer) := do
  let _ ← tschScheduleInit
  performCalls cfg fuel ks

variable (cfg) in
/-- The room of the pools. -/
def scheduleRoom : Timetable.Room := ⟨cfg.tschScheduleMaxSlotframes, cfg.tschScheduleMaxLinks⟩

/-- Between two calls: the schedule represents the timetable. -/
def Tracks (cfg : Config) (T : Timetable) (s : TschState) : Prop :=
  ∃ v, At none false v s ∧ RepInv cfg v ∧ Represents T v

section
variable {live : Prop} {T : Timetable} {v : View} {s : TschState} {fuel : Nat}

theorem getSlotframeByHandle_at {t : TschState} (hat : At none false v t) (handle : Nat) :
    tschScheduleGetSlotframeByHandle t handle =
      v.sched.slotframeList.find? fun b => (v.slotframe b).handle == handle := by
  rw [← hat.view]
  simp only [tschScheduleGetSlotframeByHandle, tschIsLocked, hat.lock]
  rfl

theorem getLinkByTimeslot_at {t : TschState} (hat : At none false v t) (b ts off : Nat) :
    tschScheduleGetLinkByTimeslot t (some b) ts off = (v.slotframe b).linksList.find? fun p =>
      (v.link p).timeslot == ts && (v.link p).channelOffset == off := by
  rw [← hat.view]
  simp only [tschScheduleGetLinkByTimeslot, tschIsLocked, hat.lock]
  rfl

theorem wp_getSlotframe {α : Type} (hi : (qlCtx cfg live).inv s) (hat : At none false v s)
    (h : Represents T v) (handle : Nat) {f : Option Nat → Prog TschState α} {Q : α → TschState → Prop}
    (hnone : ∀ t, (qlCtx cfg live).inv t → At none false v t → T.getSlotframe handle = none →
      Wp (qlCtx cfg live) (f none) Q t)
    (hsome : ∀ t b, (qlCtx cfg live).inv t → At none false v t → b ∈ v.sched.slotframeList →
      (v.slotframe b).handle = handle → T.getSlotframe handle = some (v.frame b) →
      Wp (qlCtx cfg live) (f (some b)) Q t) :
    Wp (qlCtx cfg live)
      (Prog.read (tschScheduleGetSlotframeByHandle · handle) >>= f) Q s := by
  have S : SchedCtx cfg (qlCtx cfg live) (fun _ => True) := schedCtx_ql _
  refine Wp.call (S.wp_read hi hat fun t ht => getSlotframeByHandle_at ht handle) hi ?_
  rintro r t hit ⟨rfl, hat⟩
  have hget := h.getSlotframe handle
  cases hfind : v.sched.slotframeList.find? fun b => (v.slotframe b).handle == handle with
  | none =>
      rw [hfind] at hget
      exact hnone t hit hat hget.symm
  | some b =>
      rw [hfind] at hget
      have hhandle := List.find?_some hfind
      exact hsome t b hit hat (List.mem_of_find?_eq_some hfind) (beq_iff_eq.mp hhandle) hget.symm

/-- While the links of a slotframe are being removed: the other ones are still there. -/
structure Emptying (cfg : Config) (T : Timetable) (v : View) (b : Nat) (w : View) : Prop where
  inv : RepInv cfg w
  list : w.sched.slotframeList = v.sched.slotframeList
  handle : (w.slotframe b).handle = (v.slotframe b).handle
  represents : ∃ U, Represents U w ∧ U.frames = T.frames ∧
    U.links.filter (fun e => e.cell.slotframe != (v.slotframe b).handle) =
      T.links.filter fun e => e.cell.slotframe != (v.slotframe b).handle

theorem Emptying.removeHead {b p : Nat} {w : View} (hw : Emptying cfg T v b w)
    (hb : b ∈ v.sched.slotframeList) (hp : (w.slotframe b).linksList.head? = some p) :
    Emptying cfg T v b (w.removeLink b p).2 := by
  obtain ⟨hinv, hlist, hhandle, U, hU, hframes, hrest⟩ := hw
  have hwf := hinv.represented.toWellFormed
  have hbw : b ∈ w.sched.slotframeList := hlist ▸ hb
  have hmem := List.mem_of_head? hp
  have hframe := View.removeLink_slotframe hwf hbw hmem
  have hsched := View.removeLink_sched hwf hbw hmem
  refine ⟨hinv.removeLink hbw hmem, ?_, ?_, ?_⟩
  · rw [hsched]
    exact hlist
  · rw [hframe]
    exact hhandle
  refine ⟨U.keep (U.links.eraseP fun e => e.cell.slotframe == (w.slotframe b).handle)
    fun _ he => List.mem_of_mem_eraseP he, ?_, hframes, ?_⟩
  · refine hU.unlink hwf hbw (fun e he => beq_iff_eq.mp he) ?_ rfl rfl
    obtain ⟨rest, hcons⟩ := List.head?_eq_some_iff.mp hp
    have hown : (w.link p).slotframeHandle = (w.slotframe b).handle :=
      hwf.slotframeHandle b hbw p hmem
    rw [hcons, List.find?_cons_of_pos]
    exact beq_iff_eq.mpr hown
  · refine (Timetable.filter_eraseP_of_disjoint U.links ?_).trans hrest
    intro e he
    rw [beq_iff_eq.mp he, hhandle, bne_self_eq_false]

/-- **`tsch_schedule_remove_slotframe`.** -/
theorem wp_emptySlotframe {b : Nat} (hfuel : live → cfg.tschScheduleMaxLinks < fuel)
    (hi : (qlCtx cfg live).inv s) (hat : At none false v s) (hv : RepInv cfg v)
    (h : Represents T v) (hb : b ∈ v.sched.slotframeList) :
    Wp (qlCtx cfg live) (tschScheduleRemoveSlotframe fuel (some b)) (fun ok t => ok = true ∧
      Tracks cfg (T.withoutFrame (v.slotframe b).handle) t) s := by
  have S : SchedCtx cfg (qlCtx cfg live) (fun _ => True) := schedCtx_ql _
  refine (S.wp_tschScheduleRemoveSlotframe (I := Emptying cfg T v b)
    (fun w p hw hp => ⟨hw.removeHead hb hp, fun _ _ => trivial⟩) ?_ (fun _ _ _ => trivial) hi hat
    ⟨hv, rfl, rfl, T, h, rfl, rfl⟩ ?_).mono hi ?_
  · intro _ w p hw hp
    have hmem := List.mem_of_head? hp
    rw [View.removeLink_slotframe hw.inv.represented.toWellFormed (hw.list ▸ hb) hmem,
      List.length_erase_of_mem hmem]
    have := List.length_pos_of_mem hmem
    omega
  · intro hl
    have hperm := (perm_allLinks hb).length_eq
    rw [List.length_append] at hperm
    have hle : (v.slotframe b).linksList.length ≤ v.sched.allLinks.length := by
      rw [hperm]
      exact Nat.le_add_right _ _
    exact hle.trans_lt ((hv.represented.length_le hv.linkBlock).trans_lt (hfuel hl))
  · rintro ok t _ ⟨hok, w, ⟨hinv, hlist, hhandle, U, hU, hframes, hrest⟩, hempty, hat⟩
    have hbw : b ∈ w.sched.slotframeList := hlist ▸ hb
    refine ⟨hok, w.dropSlotframe b, hat, hinv.dropSlotframe hbw hempty, ?_⟩
    have hdrop := hU.dropSlotframe hinv.represented.toWellFormed hbw hempty
    rw [hhandle] at hdrop
    have hsame : U.withoutFrame (v.slotframe b).handle = T.withoutFrame (v.slotframe b).handle := by
      refine Timetable.ext ?_ hrest
      show U.frames.filter _ = T.frames.filter _
      rw [hframes]
    rwa [hsame] at hdrop

/-- **One call** returns what the timetable returns, and leaves what the timetable leaves. -/
theorem wp_timetableCall (hlinks : live → cfg.tschScheduleMaxLinks < fuel)
    (hslotframes : live → cfg.tschScheduleMaxSlotframes < fuel) (k : Timetable.Call)
    (hi : (qlCtx cfg live).inv s) (h : Tracks cfg T s) :
    Wp (qlCtx cfg live) (k.perform cfg fuel) (fun a t => a = (T.call (scheduleRoom cfg) k).1 ∧
      Tracks cfg (T.call (scheduleRoom cfg) k).2 t) s := by
  have S : SchedCtx cfg (qlCtx cfg live) (fun _ => True) := schedCtx_ql _
  obtain ⟨v, hat, hv, hT⟩ := h
  cases k with
  | addSlotframe f =>
      obtain ⟨hans, hrep⟩ := hT.addSlotframe hv f
      refine Wp.call (S.wp_tschScheduleAddSlotframe hi hat f.handle f.size
        hv.represented.slotframeMemb ⟨trivial, trivial⟩) hi ?_
      rintro _ t _ ⟨rfl, hat⟩
      exact Wp.ret ⟨congrArg Timetable.Answer.done hans, _, hat,
        hv.addSlotframe f.handle f.size, hrep⟩
  | removeSlotframe handle =>
      refine wp_getSlotframe hi hat hT handle (fun t _ hat hnone => ?_)
        fun t b hit hat hb hhandle hsome => ?_
      · refine Wp.ret ?_
        simp only [Timetable.call, Timetable.removeSlotframe, hnone]
        exact ⟨rfl, v, hat, hv, hT⟩
      · refine Wp.call (wp_emptySlotframe hlinks hit hat hv hT hb) hit ?_
        rintro _ u _ ⟨rfl, htracks⟩
        rw [hhandle] at htracks
        refine Wp.ret ?_
        simp only [Timetable.call, Timetable.removeSlotframe, hsome]
        exact ⟨rfl, htracks⟩
  | removeAllSlotframes =>
      refine Wp.call (S.wp_removeAllSlotframes (RepInv.removalInv cfg) (fun hl w hw =>
        (hw.represented.length_le hw.linkBlock).trans_lt (hlinks hl)) fuel hi hat hv fun hl =>
        (hv.represented.length_slotframeList_le hv.slotframeBlock).trans_lt (hslotframes hl)) hi ?_
      rintro _ t _ ⟨rfl, w, hw, hempty, hat⟩
      exact Wp.ret ⟨rfl, w, hat, hw, .empty hempty⟩
  | addLink e doRemove =>
      refine wp_getSlotframe hi hat hT e.cell.slotframe (fun t _ hat hnone => ?_)
        fun t b hit hat hb hhandle hsome => ?_
      · refine Wp.ret ?_
        simp only [Timetable.call, Timetable.addLink_of_none _ _ hnone]
        exact ⟨rfl, v, hat, hv, hT⟩
      · obtain ⟨hans, hrep⟩ := hT.addLink hv hb e doRemove hhandle.symm hsome
        refine Wp.call (S.wp_tschScheduleAddLink hit hat b e.linkOptions e.linkType (some e.addr)
          e.cell.timeslot e.cell.channelOffset doRemove fun _ _ => trivial) hit ?_
        rintro _ u _ ⟨rfl, hat⟩
        exact Wp.ret ⟨congrArg Timetable.Answer.done hans, _, hat,
          (hv.addLink e.linkOptions e.linkType (some e.addr) _ _ doRemove hb).1, hrep⟩
  | removeLink c =>
      refine wp_getSlotframe hi hat hT c.slotframe (fun t hit hat hnone => ?_)
        fun t b hit hat hb hhandle hsome => ?_
      · have hempty := Timetable.getLink_of_getSlotframe hnone
        refine Wp.call (S.wp_read hit hat (a := none) fun u hu => by
          simp only [tschScheduleGetLinkByTimeslot, tschIsLocked, hu.lock, Bool.false_eq_true,
            if_false]) hit ?_
        rintro _ u _ ⟨rfl, hat⟩
        refine Wp.ret ?_
        simp only [Timetable.call, Timetable.removeLink, hempty, Timetable.removeFirst_of_getLink hempty]
        exact ⟨rfl, v, hat, hv, hT⟩
      · have hget := hT.getLink hb c.timeslot c.channelOffset
        rw [hhandle] at hget
        refine Wp.call (S.wp_read hit hat fun u hu =>
          getLinkByTimeslot_at hu b c.timeslot c.channelOffset) hit ?_
        rintro _ u hiu ⟨rfl, hat⟩
        cases hfind : (v.slotframe b).linksList.find? fun p => (v.link p).timeslot == c.timeslot &&
            (v.link p).channelOffset == c.channelOffset with
        | none =>
            rw [hfind] at hget
            have hempty : T.getLink c = none := hget.symm
            refine Wp.ret ?_
            simp only [Timetable.call, Timetable.removeLink, hempty,
              Timetable.removeFirst_of_getLink hempty]
            exact ⟨rfl, v, hat, hv, hT⟩
        | some p =>
            rw [hfind] at hget
            have hfound : T.getLink c = some (v.entry p) := hget.symm
            have hp := List.mem_of_find?_eq_some hfind
            have hwf := hv.represented.toWellFormed
            have hrep := hT.removeFirst hwf hb hfind
            rw [hhandle] at hrep
            refine Wp.call (S.wp_tschScheduleRemoveLink hiu hat b p fun _ _ => trivial) hiu ?_
            rintro _ w _ ⟨rfl, hat⟩
            refine Wp.ret ⟨?_, _, hat, hv.removeLink hb hp, hrep⟩
            simp only [Timetable.call, Timetable.removeLink, hfound, View.removeLink_of_mem hwf hb hp]
            rfl
  | removeLinkByTimeslot c =>
      refine wp_getSlotframe hi hat hT c.slotframe (fun t hit hat hnone => ?_)
        fun t b hit hat hb hhandle hsome => ?_
      · have hempty := Timetable.getLink_of_getSlotframe hnone
        refine Wp.call (P := fun ok t => ok = false ∧ At none false v t) ?_ hit ?_
        · refine Wp.call (S.wp_read hit hat (a := false)
            (fun t ht => by simp only [tschIsLocked, ht.lock])) hit ?_
          rintro r u _ ⟨rfl, hat⟩
          exact Wp.ret ⟨rfl, hat⟩
        · rintro _ u _ ⟨rfl, hat⟩
          refine Wp.ret ?_
          simp only [Timetable.call, Timetable.removeLinkByTimeslot, hempty,
            Timetable.clear_of_getLink hempty]
          exact ⟨rfl, v, hat, hv, hT⟩
      · obtain ⟨hans, hinv, hrep, -, -⟩ := hT.removeLinkByTimeslot hv hb c.timeslot c.channelOffset
        rw [hhandle] at hans hrep
        refine Wp.call (S.wp_tschScheduleRemoveLinkByTimeslot hit hat b c.timeslot c.channelOffset
          fun _ _ => trivial) hit ?_
        rintro _ u _ ⟨rfl, hat⟩
        exact Wp.ret ⟨congrArg Timetable.Answer.done hans, _, hat, hinv, hrep⟩
  | getSlotframe handle =>
      refine (S.wp_read hi hat (a := .frame (T.getSlotframe handle)) fun t ht => ?_).mono hi ?_
      · rw [← hT.getSlotframe, getSlotframeByHandle_at ht, ht.view]
      · rintro _ t _ ⟨rfl, hat⟩
        exact ⟨rfl, v, hat, hv, hT⟩
  | getLink c =>
      refine wp_getSlotframe hi hat hT c.slotframe (fun t hit hat hnone => ?_)
        fun t b hit hat hb hhandle hsome => ?_
      · refine (S.wp_read hit hat (a := .link (T.getLink c)) fun u hu => ?_).mono hit ?_
        · rw [Timetable.getLink_of_getSlotframe hnone]
          simp only [tschScheduleGetLinkByTimeslot, tschIsLocked, hu.lock, Bool.false_eq_true,
            if_false, Option.map_none]
        · rintro _ u _ ⟨rfl, hat⟩
          exact ⟨rfl, v, hat, hv, hT⟩
      · have hget := hT.getLink hb c.timeslot c.channelOffset
        rw [hhandle] at hget
        refine (S.wp_read hit hat (a := .link (T.getLink c)) fun u hu => ?_).mono hit ?_
        · rw [getLinkByTimeslot_at hu, hu.view]
          exact congrArg Timetable.Answer.link hget
        · rintro _ u _ ⟨rfl, hat⟩
          exact ⟨rfl, v, hat, hv, hT⟩

/-- **Calls one after the other.** -/
theorem wp_performCalls (hlinks : live → cfg.tschScheduleMaxLinks < fuel)
    (hslotframes : live → cfg.tschScheduleMaxSlotframes < fuel) (ks : List Timetable.Call)
    (hi : (qlCtx cfg live).inv s) (h : Tracks cfg T s) :
    Wp (qlCtx cfg live) (performCalls cfg fuel ks) (fun as t =>
      as = (T.run (scheduleRoom cfg) ks).1 ∧ Tracks cfg (T.run (scheduleRoom cfg) ks).2 t) s := by
  induction ks generalizing T s with
  | nil => exact Wp.ret ⟨rfl, h⟩
  | cons k ks ih =>
      refine Wp.call (wp_timetableCall hlinks hslotframes k hi h) hi ?_
      rintro _ t hit ⟨rfl, ht⟩
      refine Wp.call (ih hit ht) hit ?_
      rintro _ u _ ⟨rfl, hu⟩
      exact Wp.ret ⟨rfl, hu⟩

theorem wp_scheduleClient (hlinks : live → cfg.tschScheduleMaxLinks < fuel)
    (hslotframes : live → cfg.tschScheduleMaxSlotframes < fuel) (ks : List Timetable.Call)
    (hi : (qlCtx cfg live).inv s) (hat : At none false v s) :
    Wp (qlCtx cfg live) (scheduleClient cfg fuel ks) (fun as t =>
      as = (Timetable.empty.run (scheduleRoom cfg) ks).1 ∧
        Tracks cfg (Timetable.empty.run (scheduleRoom cfg) ks).2 t) s := by
  refine Wp.call (wp_tschScheduleInit_empty hi hat) hi ?_
  rintro _ t hit ⟨_, w, hw, hempty, ht⟩
  exact wp_performCalls hlinks hslotframes ks hit ⟨w, ht, hw, .empty hempty⟩

end

/-- **The schedule is a timetable.**  From `tsch_schedule_init` on, with a free lock: any sequence
of calls returns, what they return is what the timetable returns, the pools hold exactly the
blocks that are on the lists, and the lists represent what the timetable leaves; alone, and under
slot interrupts at every point. -/
theorem schedule_refines_timetable (fuel : Nat) (ks : List Timetable.Call) {s : TschState}
    (hflags : SlotFlags s) (hidle : s.slot.tschInSlotOperation = false)
    (hlock : s.lock = ⟨false, false⟩) (hflux : s.ghost.linkInFlux = none)
    (hlinks : cfg.tschScheduleMaxLinks < fuel) (hslotframes : cfg.tschScheduleMaxSlotframes < fuel) :
    (∃ t, (scheduleClient cfg fuel ks).exec s =
        some ((Timetable.empty.run (scheduleRoom cfg) ks).1, t) ∧
      RepInv cfg t.view ∧ Represents (Timetable.empty.run (scheduleRoom cfg) ks).2 t.view) ∧
    ∀ as t, Run (fun s s' => ∃ i, slotStep cfg i s = some s') (fun _ _ => True)
        (scheduleClient cfg fuel ks, s) (.ret as, t) →
      as = (Timetable.empty.run (scheduleRoom cfg) ks).1 ∧ RepInv cfg t.view ∧
        Represents (Timetable.empty.run (scheduleRoom cfg) ks).2 t.view := by
  have hat : At none false s.view s := ⟨rfl, hlock, hflux⟩
  have hi : (qlCtx cfg False).inv s := ⟨hflags, False.elim⟩
  have S : SchedCtx cfg (qlCtx cfg False) (fun _ => True) := schedCtx_ql _
  constructor
  · obtain ⟨as, t, hexec, rfl, v, hat, hinv, hrep⟩ := Wp.exec (C := qlCtx cfg True) trivial
      (fun _ _ => trivial) (wp_scheduleClient (fun _ => hlinks) (fun _ => hslotframes) ks
        ⟨hflags, fun _ => hidle⟩ hat)
    rw [← hat.view] at hinv hrep
    exact ⟨t, hexec, hinv, hrep⟩
  · intro as t hr
    obtain ⟨-, u, hiu, hrel, has, v, hat, hinv, hrep⟩ := Wp.run hi
      (wp_scheduleClient (fun hl => hl.elim) (fun hl => hl.elim) ks hi hat)
      (hr.mono (fun _ _ hi => ⟨id, hi⟩) fun _ _ h => h)
    rw [← (S.at_rely hiu hat hrel).view] at hinv hrep
    exact ⟨has, hinv, hrep⟩

/-- Two links for one cell, a handle that is taken, a timeslot that does not exist and a slotframe
that is not there. -/
def replaceCalls : List Timetable.Call :=
  [.addSlotframe ⟨3, 7⟩, .addSlotframe ⟨3, 9⟩, .addLink ⟨⟨3, 1, 0⟩, txShared, .normal, 5⟩ true,
    .addLink ⟨⟨3, 1, 0⟩, rxShared, .normal, 6⟩ true, .addLink ⟨⟨3, 7, 0⟩, rxShared, .normal, 6⟩ true,
    .removeLink ⟨4, 1, 0⟩, .getSlotframe 3]

theorem schedule_refines_timetable_replaced :
    ∃ t, (scheduleClient (smallBuild 8) 33 replaceCalls).exec (TschState.boot (smallBuild 8)) =
        some ([.done true, .done false, .done true, .done true, .done false, .done false,
          .frame (some ⟨3, 7⟩)], t) ∧
      RepInv (smallBuild 8) t.view ∧
      Represents (Timetable.empty.run (scheduleRoom (smallBuild 8)) replaceCalls).2 t.view := by
  exact (schedule_refines_timetable 33 replaceCalls ⟨by decide +kernel, by decide +kernel⟩ rfl rfl rfl
    (by decide) (by decide)).1

/-! ## Looking up what was put -/

/-- After the calls, a cell is looked up. -/
def lookupAfter (cfg : Config) (fuel : Nat) (ks : List Timetable.Call) (c : Timetable.Cell) :
    Prog TschState (List Timetable.Answer × Timetable.Answer) := do
  let as ← scheduleClient cfg fuel ks
  let a ← (Timetable.Call.getLink c).perform cfg fuel
  pure (as, a)

theorem wp_lookupAfter {live : Prop} {v : View} {s : TschState} {fuel : Nat}
    (hlinks : live → cfg.tschScheduleMaxLinks < fuel)
    (hslotframes : live → cfg.tschScheduleMaxSlotframes < fuel) {ks : List Timetable.Call}
    (hks : ∀ k ∈ ks, k.replaces = true) (c : Timetable.Cell)
    (hi : (qlCtx cfg live).inv s) (hat : At none false v s) :
    Wp (qlCtx cfg live) (lookupAfter cfg fuel ks c) (fun r _ =>
      r.2 = .link ((ks.zip r.1).foldl (Timetable.lastPut c) none)) s := by
  have hempty : Timetable.empty.Single := List.nodup_nil
  refine Wp.call (wp_scheduleClient hlinks hslotframes ks hi hat) hi ?_
  rintro _ t hit ⟨rfl, htracks⟩
  refine Wp.call (wp_timetableCall hlinks hslotframes (.getLink c) hit htracks) hit ?_
  rintro _ u _ ⟨rfl, -⟩
  exact Wp.ret (congrArg Timetable.Answer.link (hempty.run hks))

/-- **A cell holds what was last put there.**  If `do_remove` is 1 in every call that adds a link
then `tsch_schedule_get_link_by_timeslot` finds, after any sequence of calls and under slot
interrupts at every point of them, the link of the last call that put one into the cell with
success, if none has taken it away since. -/
theorem lookup_last_put (fuel : Nat) {ks : List Timetable.Call}
    (hks : ∀ k ∈ ks, k.replaces = true) (c : Timetable.Cell) {s : TschState}
    (hflags : SlotFlags s) (hidle : s.slot.tschInSlotOperation = false)
    (hlock : s.lock = ⟨false, false⟩) (hflux : s.ghost.linkInFlux = none)
    (hlinks : cfg.tschScheduleMaxLinks < fuel) (hslotframes : cfg.tschScheduleMaxSlotframes < fuel) :
    (∃ r t, (lookupAfter cfg fuel ks c).exec s = some (r, t) ∧
      r.2 = .link ((ks.zip r.1).foldl (Timetable.lastPut c) none)) ∧
    ∀ r t, Run (fun s s' => ∃ i, slotStep cfg i s = some s') (fun _ _ => True)
        (lookupAfter cfg fuel ks c, s) (.ret r, t) →
      r.2 = .link ((ks.zip r.1).foldl (Timetable.lastPut c) none) := by
  have hat : At none false s.view s := ⟨rfl, hlock, hflux⟩
  have hi : (qlCtx cfg False).inv s := ⟨hflags, False.elim⟩
  constructor
  · exact Wp.exec (C := qlCtx cfg True) trivial (fun _ _ => trivial)
      (wp_lookupAfter (fun _ => hlinks) (fun _ => hslotframes) hks c ⟨hflags, fun _ => hidle⟩ hat)
  · intro r t hr
    obtain ⟨-, _, -, -, hput⟩ := Wp.run hi
      (wp_lookupAfter (fun hl => hl.elim) (fun hl => hl.elim) hks c hi hat)
      (hr.mono (fun _ _ hi => ⟨id, hi⟩) fun _ _ h => h)
    exact hput

theorem lookup_last_put_replaced :
    ∃ r t, (lookupAfter (smallBuild 8) 33 replaceCalls ⟨3, 1, 0⟩).exec
        (TschState.boot (smallBuild 8)) = some (r, t) ∧
      r.2 = .link (some ⟨⟨3, 1, 0⟩, rxShared, .normal, 6⟩) := by
  obtain ⟨r, t, hexec, hput⟩ : ∃ r t, (lookupAfter (smallBuild 8) 33 replaceCalls ⟨3, 1, 0⟩).exec
      (TschState.boot (smallBuild 8)) = some (r, t) ∧
        r.2 = .link ((replaceCalls.zip r.1).foldl (Timetable.lastPut ⟨3, 1, 0⟩) none) :=
    (lookup_last_put 33 (by decide) ⟨3, 1, 0⟩ ⟨by decide +kernel, by decide +kernel⟩ rfl rfl rfl
      (by decide) (by decide)).1
  have hvalue : ((lookupAfter (smallBuild 8) 33 replaceCalls ⟨3, 1, 0⟩).exec
      (TschState.boot (smallBuild 8))).any (fun r => decide (r.1.1 = [.done true, .done false,
        .done true, .done true, .done false, .done false, .frame (some ⟨3, 7⟩)])) = true := by
    decide +kernel
  rw [hexec, Option.any_some, decide_eq_true_eq] at hvalue
  refine ⟨r, t, hexec, ?_⟩
  rw [hput, hvalue]
  decide

end QlTsch
