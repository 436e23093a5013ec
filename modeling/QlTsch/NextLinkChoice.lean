/-
# `QlTsch.NextLinkChoice` — the best link of the earliest slot

`tsch_schedule_get_next_active_link` goes over all slotframes and all their links in
one pass and compares each link with the best one so far: an earlier link restarts
the selection, of two links of one slot one is selected.  That these choices, made in
pairs and in the order of the lists, come to one link that can be said without them:

1. In time, the loop is `Interleave.earlier`: what is selected is selected from the
   links of the least time alone, as they stand in the lists (`nextActiveLink_eq`).
2. The choice between two links (`new_best`, and `default_tsch_link_comparator` in one
   slotframe) goes by a rank in a linear order (`newBest_eq`), so that of many links
   the first one of least rank is selected.

`next_link_optimal` puts the two together.
-/
import Mathlib.Data.Prod.Lex
import Mathlib.Order.Bounds.Basic
import QlTsch.Lib.Earliest
import QlTsch.ReceptionOpportunity

namespace QlTsch

open Interleave ScheduleVars

/-! ## The specification -/

/-- The links due at `asn` with their slotframes, in the order of the lists. -/
def ScheduleVars.dueLinks (v : ScheduleVars) (asn : Nat) : List (Nat × Nat) :=
  v.slotframeList.flatMap fun b =>
    ((v.slotframes b).linksList.filter fun p =>
      asn % (v.slotframes b).size == (v.links p).timeslot).map fun p => (b, p)

/-- Link `x.2` of slotframe `x.1` comes before link `y.2` of slotframe `y.1`: Tx before
others, then the lower handle, then the longer queue of two Tx links of one slotframe. -/
def Better (s : TschState) (x y : Nat × Nat) : Prop :=
  ((s.link x.2).linkOptions.tx = true ∧ (s.link y.2).linkOptions.tx = false) ∨
    (s.link x.2).linkOptions.tx = (s.link y.2).linkOptions.tx ∧
      ((s.slotframe x.1).handle < (s.slotframe y.1).handle ∨
        x.1 = y.1 ∧ (s.link x.2).linkOptions.tx = true ∧
          packetCountFor s (s.link y.2).addr < packetCountFor s (s.link x.2).addr)

instance (s : TschState) (x y : Nat × Nat) : Decidable (Better s x y) :=
  inferInstanceAs (Decidable (_ ∨ _))

/-- Link `x` is the first of those due at `asn` that no other is better than. -/
def FirstBest (s : TschState) (asn : Nat) (x : Nat × Nat) : Prop :=
  ∃ before after, s.sched.dueLinks asn = before ++ x :: after ∧
    (∀ y ∈ before, Better s x y) ∧ ∀ y ∈ after, ¬ Better s y x

theorem mem_dueLinks {v : ScheduleVars} {asn : Nat} {x : Nat × Nat} :
    x ∈ v.dueLinks asn ↔ x.1 ∈ v.slotframeList ∧ x.2 ∈ (v.slotframes x.1).linksList ∧
      asn % (v.slotframes x.1).size = (v.links x.2).timeslot := by
  simp only [dueLinks, List.mem_flatMap, List.mem_map, List.mem_filter, beq_iff_eq]
  constructor
  · rintro ⟨b, hb, p, ⟨hp, hasn⟩, rfl⟩
    exact ⟨hb, hp, hasn⟩
  · rintro ⟨hb, hp, hasn⟩
    exact ⟨x.1, hb, x.2, ⟨hp, hasn⟩, rfl⟩

theorem due_iff {v : ScheduleVars} {asn p : Nat} : v.Due asn p ↔ ∃ b, (b, p) ∈ v.dueLinks asn := by
  simp only [mem_dueLinks]
  exact ⟨fun ⟨b, hb, h⟩ => ⟨b, hb, h⟩, fun ⟨b, hb, h⟩ => ⟨b, hb, h⟩⟩

theorem FirstBest.mem {s : TschState} {asn : Nat} {x : Nat × Nat} (h : FirstBest s asn x) :
    x ∈ s.sched.dueLinks asn := by
  obtain ⟨before, after, hdue, -⟩ := h
  rw [hdue]
  exact List.mem_append_right _ List.mem_cons_self

theorem nodup_dueLinks {v : ScheduleVars} (hwf : v.WellFormed) (asn : Nat) :
    ((v.dueLinks asn).map Prod.snd).Nodup := by
  have hall := List.nodup_flatMap.mp hwf.links
  simp only [dueLinks, List.map_flatMap, List.map_map]
  have hmap : ∀ ls : List Nat, ∀ b : Nat, ls.map (Prod.snd ∘ fun p => (b, p)) = ls := fun ls _ =>
    List.map_id ls
  simp only [hmap]
  refine List.nodup_flatMap.mpr ⟨fun b hb => (hall.1 b hb).filter _, ?_⟩
  refine hall.2.imp fun hdisj p hp hp' => ?_
  exact hdisj (List.mem_of_mem_filter hp) (List.mem_of_mem_filter hp')

theorem eq_of_mem_dueLinks {v : ScheduleVars} (hwf : v.WellFormed) {asn : Nat} {x y : Nat × Nat}
    (hx : x ∈ v.dueLinks asn) (hy : y ∈ v.dueLinks asn) (h : x.2 = y.2) : x = y :=
  List.inj_on_of_nodup_map (nodup_dueLinks hwf asn) hx hy h

/-! ## The choice between two links -/

/-- The rank of a link: the lower, the better. -/
def linkRank (s : TschState) (p : Nat) : Bool ×ₗ (Nat ×ₗ Natᵒᵈ) :=
  toLex (!(s.link p).linkOptions.tx, toLex ((s.link p).slotframeHandle,
    OrderDual.toDual (if (s.link p).linkOptions.tx then packetCountFor s (s.link p).addr else 0)))

theorem linkRank_lt {s : TschState} {p q : Nat} : linkRank s p < linkRank s q ↔
    ((s.link p).linkOptions.tx = true ∧ (s.link q).linkOptions.tx = false) ∨
      (s.link p).linkOptions.tx = (s.link q).linkOptions.tx ∧
        ((s.link p).slotframeHandle < (s.link q).slotframeHandle ∨
          (s.link p).slotframeHandle = (s.link q).slotframeHandle ∧
            (s.link p).linkOptions.tx = true ∧
              packetCountFor s (s.link q).addr < packetCountFor s (s.link p).addr) := by
  simp only [linkRank, Prod.Lex.toLex_lt_toLex, OrderDual.toDual_lt_toDual]
  cases (s.link p).linkOptions.tx <;> cases (s.link q).linkOptions.tx <;> simp

/-- Two links that only their queues can tell apart. -/
def Alike (s : TschState) (p q : Nat) : Prop :=
  (s.link p).linkOptions.tx = (s.link q).linkOptions.tx ∧
    (s.link p).slotframeHandle = (s.link q).slotframeHandle

instance (s : TschState) (p q : Nat) : Decidable (Alike s p q) :=
  inferInstanceAs (Decidable (_ ∧ _))

/-- The selected one is the better one, or the best one so far; this is named only
if the comparator is asked. -/
theorem newBest_eq (s : TschState) (best p : Nat) : newBest s best p =
    if linkRank s p < linkRank s best then some p
    else if Alike s best p then some best else none := by
  simp only [linkRank_lt, newBest, Alike]
  by_cases htx : (s.link best).linkOptions.tx = (s.link p).linkOptions.tx
  · simp only [htx, if_true, true_and]
    by_cases hh : (s.link p).slotframeHandle = (s.link best).slotframeHandle
    · -- the comparator decides
      simp only [hh, ne_eq, not_true_eq_false, if_false, defaultTschLinkComparator, htx]
      cases (s.link p).linkOptions.tx with
      | false => simp
      | true =>
          by_cases haddr : (s.link best).addr = (s.link p).addr
          · simp [haddr]
          · by_cases hcount : packetCountFor s (s.link best).addr < packetCountFor s (s.link p).addr
            · simp [haddr, hcount]
            · simp [haddr, hcount]
    · by_cases hlt : (s.link p).slotframeHandle < (s.link best).slotframeHandle
      · simp [hh, hlt]
      · simp [hh, Ne.symm hh, hlt]
  · rw [if_neg htx]
    by_cases hp : (s.link p).linkOptions.tx = true
    · have hb : (s.link best).linkOptions.tx = false := by
        rw [hp] at htx
        exact Bool.not_eq_true _ ▸ htx
      simp [hp, hb]
    · have hb : (s.link best).linkOptions.tx = true := by
        rw [Bool.not_eq_true] at hp
        rw [hp] at htx
        exact Bool.not_eq_false _ ▸ htx
      simp [hp, hb]

/-! ## The loop -/

/-- Link `p` beside the best link and the backup of its slot. -/
def overlap (s : TschState) (r : Nat × Option Nat) (p : Nat) : Nat × Option Nat :=
  ((newBest s r.1 p).getD r.1,
    offerBackup s (newBest s r.1 p) r.1 (offerBackup s (newBest s r.1 p) p r.2))

/-- What is selected from links of one slot. -/
def choice (s : TschState) : List Nat → Option (Nat × Option Nat) :=
  collect (fun p => (p, none)) (overlap s)

theorem overlap_fst (s : TschState) (r : Nat × Option Nat) (p : Nat) :
    (overlap s r p).1 = if linkRank s p < linkRank s r.1 then p else r.1 := by
  simp only [overlap, newBest_eq]
  by_cases hlt : linkRank s p < linkRank s r.1
  · simp only [if_pos hlt, Option.getD_some]
  · simp only [if_neg hlt]
    split <;> rfl

/-- The best link of one slot is the first one of least rank. -/
theorem choice_fst (s : TschState) (ls : List Nat) :
    (choice s ls).map Prod.fst = ls.argmin (linkRank s) := by
  cases ls with
  | nil => rfl
  | cons p ls =>
      have hmore : ∀ m a, (fun m a => if linkRank s a < linkRank s m then a else m) m a =
          if linkRank s a < linkRank s m then a else m := fun _ _ => rfl
      rw [argmin_cons_eq_foldl hmore]
      simp only [choice, collect, Option.map_some]
      exact congrArg some
        (List.foldl_hom Prod.fst fun r q => (overlap_fst s r q).symm).symm

/-- All links of the schedule, each with the number of slots until it is due. -/
def comings (s : TschState) (asn : Nat) : List (Nat × Nat) :=
  s.sched.slotframeList.flatMap fun b => (s.slotframe b).linksList.map fun p =>
    (timeToTimeslot (s.slotframe b).size (s.link p).timeslot (asn % (s.slotframe b).size), p)

/-- The accumulators, of which the time means nothing without a link. -/
def NextLink.ofOption : Option (Nat × (Nat × Option Nat)) → NextLink
  | none => ⟨0, none, none⟩
  | some r => ⟨r.1, some r.2.1, r.2.2⟩

theorem considerLink_ofOption (s : TschState) (size ts p : Nat)
    (r : Option (Nat × (Nat × Option Nat))) :
    considerLink s size ts (NextLink.ofOption r) p =
      NextLink.ofOption (earlier (fun p => (p, none)) (overlap s) r
        (timeToTimeslot size (s.link p).timeslot ts, p)) := by
  cases r with
  | none => rfl
  | some r =>
      show considerLink s size ts ⟨r.1, some r.2.1, r.2.2⟩ p = _
      simp only [considerLink, earlier]
      generalize timeToTimeslot size (s.link p).timeslot ts = T
      by_cases hlt : T < r.1
      · rw [if_pos hlt, if_pos hlt]
        rfl
      · rw [if_neg hlt, if_neg hlt]
        by_cases heq : T = r.1
        · rw [if_pos heq, if_pos heq]
          rfl
        · rw [if_neg heq, if_neg heq]
          rfl

/-- The two loops are one, over all links and their times. -/
theorem nextActiveLink_eq {s : TschState} (hfree : s.lock.tschLocked = false) (asn : Nat) :
    tschScheduleGetNextActiveLink s asn =
      NextLink.ofOption ((comings s asn).foldl (earlier (fun p => (p, none)) (overlap s)) none) := by
  simp only [tschScheduleGetNextActiveLink, tschIsLocked, hfree, Bool.false_eq_true, if_false,
    comings, List.foldl_flatMap, List.foldl_map]
  have hlinks : ∀ r b, considerSlotframe s asn (NextLink.ofOption r) b = NextLink.ofOption
      ((s.slotframe b).linksList.foldl (fun r p => earlier (fun p => (p, none)) (overlap s) r
        (timeToTimeslot (s.slotframe b).size (s.link p).timeslot (asn % (s.slotframe b).size), p))
        r) := by
    intro r b
    exact List.foldl_hom NextLink.ofOption fun r p => considerLink_ofOption s _ _ p r
  show s.sched.slotframeList.foldl (considerSlotframe s asn) (NextLink.ofOption none) = _
  exact List.foldl_hom NextLink.ofOption hlinks

/-! ## The links of the earliest slot -/

/-- Where no link comes earlier, the links that come in `T` slots are those that are
due then. -/
theorem atTime_comings {s : TschState} (hfit : s.sched.TimeslotsFit) {asn T : Nat} (hT : 1 ≤ T)
    (hmin : ∀ e ∈ comings s asn, T ≤ e.1) :
    atTime T (comings s asn) = (s.sched.dueLinks (asn + T)).map Prod.snd := by
  simp only [atTime, comings, dueLinks, List.filter_flatMap, List.map_flatMap, List.filter_map,
    List.map_map]
  refine List.flatMap_congr ?_
  intro b hb
  refine congrArg (List.map _) (List.filter_congr fun p hp => ?_)
  obtain ⟨hts, hsize⟩ := hfit b hb p hp
  obtain ⟨-, hdue, hnext⟩ := timeToTimeslot_spec asn hts hsize
  have hle := hmin _ (List.mem_flatMap.mpr ⟨b, hb, List.mem_map.mpr ⟨p, hp, rfl⟩⟩)
  rw [Bool.eq_iff_iff, Function.comp_apply, beq_iff_eq, beq_iff_eq]
  constructor
  · intro h
    rw [← h]
    exact hdue
  · intro h
    exact le_antisymm (hnext T hT h) hle

theorem mem_comings {s : TschState} {asn : Nat} {e : Nat × Nat} : e ∈ comings s asn ↔
    ∃ b ∈ s.sched.slotframeList, e.2 ∈ (s.slotframe b).linksList ∧
      e.1 = timeToTimeslot (s.slotframe b).size (s.link e.2).timeslot
        (asn % (s.slotframe b).size) := by
  simp only [comings, List.mem_flatMap, List.mem_map]
  constructor
  · rintro ⟨b, hb, p, hp, rfl⟩
    exact ⟨b, hb, hp, rfl⟩
  · rintro ⟨b, hb, hp, htime⟩
    exact ⟨b, hb, e.2, hp, Prod.ext htime.symm rfl⟩

theorem comings_eq_nil {s : TschState} {asn : Nat} :
    comings s asn = [] ↔ s.sched.allLinks = [] := by
  simp only [comings, allLinks, List.flatMap_eq_nil_iff, List.map_eq_nil_iff]
  exact Iff.rfl

theorem nextActiveLink_choice {s : TschState} (hfree : s.lock.tschLocked = false)
    (hfit : s.sched.TimeslotsFit) (asn : Nat) :
    ((tschScheduleGetNextActiveLink s asn).currBest = none ↔ s.sched.allLinks = []) ∧
      ∀ l, (tschScheduleGetNextActiveLink s asn).currBest = some l →
        1 ≤ (tschScheduleGetNextActiveLink s asn).timeToCurrBest ∧
          (∀ e ∈ comings s asn, (tschScheduleGetNextActiveLink s asn).timeToCurrBest ≤ e.1) ∧
          choice s ((s.sched.dueLinks
              (asn + (tschScheduleGetNextActiveLink s asn).timeToCurrBest)).map Prod.snd) =
            some (l, (tschScheduleGetNextActiveLink s asn).currBackup) := by
  obtain ⟨hnone, hsome⟩ := foldl_earlier (fun p => (p, none)) (overlap s) (comings s asn)
  rw [nextActiveLink_eq hfree]
  cases hacc : (comings s asn).foldl (earlier (fun p => (p, none)) (overlap s)) none with
  | none =>
      refine ⟨⟨fun _ => comings_eq_nil.mp (hnone.mp hacc), fun _ => rfl⟩, ?_⟩
      intro l hl
      cases hl
  | some r =>
      obtain ⟨hmin, hcollect⟩ := hsome r.1 r.2 hacc
      refine ⟨⟨?_, ?_⟩, ?_⟩
      · intro h
        cases h
      · intro h
        rw [hnone.mpr (comings_eq_nil.mpr h)] at hacc
        cases hacc
      · intro l hl
        cases hl
        have hpos : 1 ≤ r.1 := by
          -- the least time is the time of some link
          have hne : atTime r.1 (comings s asn) ≠ [] := by
            intro h
            rw [h] at hcollect
            cases hcollect
          obtain ⟨p, hp⟩ := List.exists_mem_of_ne_nil _ hne
          simp only [atTime, List.mem_map, List.mem_filter, beq_iff_eq] at hp
          obtain ⟨e, ⟨he, htime⟩, -⟩ := hp
          obtain ⟨b, hb, hpb, heq⟩ := mem_comings.mp he
          obtain ⟨hts, hsize⟩ := hfit b hb _ hpb
          rw [← htime, heq]
          exact (timeToTimeslot_spec asn hts hsize).1
        rw [atTime_comings hfit hpos hmin] at hcollect
        exact ⟨hpos, hmin, hcollect⟩

/-! ## The best link -/

/-- On due links of a well-formed schedule the rank is the specified order. -/
theorem linkRank_lt_iff {s : TschState} (hwf : s.sched.WellFormed) {asn : Nat} {x y : Nat × Nat}
    (hx : x ∈ s.sched.dueLinks asn) (hy : y ∈ s.sched.dueLinks asn) :
    linkRank s x.2 < linkRank s y.2 ↔ Better s x y := by
  obtain ⟨hbx, hpx, -⟩ := mem_dueLinks.mp hx
  obtain ⟨hby, hpy, -⟩ := mem_dueLinks.mp hy
  have hhx : (s.link x.2).slotframeHandle = (s.slotframe x.1).handle :=
    hwf.slotframeHandle x.1 hbx x.2 hpx
  have hhy : (s.link y.2).slotframeHandle = (s.slotframe y.1).handle :=
    hwf.slotframeHandle y.1 hby y.2 hpy
  have hsame : (s.slotframe x.1).handle = (s.slotframe y.1).handle ↔ x.1 = y.1 :=
    ⟨hwf.handles x.1 hbx y.1 hby, fun h => by rw [h]⟩
  rw [linkRank_lt, hhx, hhy, hsame]
  exact Iff.rfl

theorem firstBest_iff {s : TschState} (hwf : s.sched.WellFormed) {asn : Nat} {x : Nat × Nat}
    (hx : x ∈ s.sched.dueLinks asn) : FirstBest s asn x ↔
      ((s.sched.dueLinks asn).map Prod.snd).argmin (linkRank s) = some x.2 := by
  rw [argmin_eq_some_iff_split]
  constructor
  · rintro ⟨before, after, hdue, hbefore, hafter⟩
    have hmem : ∀ y ∈ before ++ x :: after, y ∈ s.sched.dueLinks asn := fun y hy => hdue ▸ hy
    refine ⟨before.map Prod.snd, after.map Prod.snd, ?_, ?_, ?_⟩
    · rw [hdue, List.map_append, List.map_cons]
    · intro p hp
      obtain ⟨y, hy, rfl⟩ := List.mem_map.mp hp
      exact (linkRank_lt_iff hwf hx (hmem y (List.mem_append_left _ hy))).mpr (hbefore y hy)
    · intro p hp
      obtain ⟨y, hy, rfl⟩ := List.mem_map.mp hp
      have hymem := hmem y (List.mem_append_right _ (List.mem_cons_of_mem _ hy))
      rw [← not_lt, linkRank_lt_iff hwf hymem hx]
      exact hafter y hy
  · rintro ⟨l₁, l₂, hsplit, hbefore, hafter⟩
    obtain ⟨before, rest, hdue, rfl, hrest⟩ := List.map_eq_append_iff.mp hsplit
    obtain ⟨y, after, rfl, hyx, rfl⟩ := List.map_eq_cons_iff.mp hrest
    have hmem : ∀ z ∈ before ++ y :: after, z ∈ s.sched.dueLinks asn := fun z hz => hdue ▸ hz
    have hy := hmem y (List.mem_append_right _ List.mem_cons_self)
    obtain rfl : y = x := eq_of_mem_dueLinks hwf hy hx hyx
    refine ⟨before, after, hdue, ?_, ?_⟩
    · intro z hz
      exact (linkRank_lt_iff hwf hx (hmem z (List.mem_append_left _ hz))).mp
        (hbefore z.2 (List.mem_map_of_mem hz))
    · intro z hz
      have hzmem := hmem z (List.mem_append_right _ (List.mem_cons_of_mem _ hz))
      rw [← linkRank_lt_iff hwf hzmem hx, not_lt]
      exact hafter z.2 (List.mem_map_of_mem hz)

theorem isLeast_timeToCurrBest {s : TschState} (hfree : s.lock.tschLocked = false)
    (hfit : s.sched.TimeslotsFit) {asn l : Nat}
    (hl : (tschScheduleGetNextActiveLink s asn).currBest = some l) :
    IsLeast {t | 1 ≤ t ∧ ∃ p, s.sched.Due (asn + t) p}
      (tschScheduleGetNextActiveLink s asn).timeToCurrBest := by
  obtain ⟨hpos, hmin, -⟩ := (nextActiveLink_choice hfree hfit asn).2 l hl
  refine ⟨⟨hpos, l, (nextActiveLink_due hfree hfit asn hl).1⟩, ?_⟩
  rintro t ⟨ht, p, b, hb, hp, hasn⟩
  obtain ⟨hts, hsize⟩ := hfit b hb p hp
  have hcoming : (timeToTimeslot (s.slotframe b).size (s.link p).timeslot
      (asn % (s.slotframe b).size), p) ∈ comings s asn := mem_comings.mpr ⟨b, hb, hp, rfl⟩
  exact (hmin _ hcoming).trans ((timeToTimeslot_spec asn hts hsize).2.2 t ht hasn)

theorem firstBest_currBest {s : TschState} (hfree : s.lock.tschLocked = false)
    (hwf : s.sched.WellFormed) (hfit : s.sched.TimeslotsFit) {asn l : Nat}
    (hl : (tschScheduleGetNextActiveLink s asn).currBest = some l) :
    ∃ b, FirstBest s (asn + (tschScheduleGetNextActiveLink s asn).timeToCurrBest) (b, l) := by
  obtain ⟨-, -, hchoice⟩ := (nextActiveLink_choice hfree hfit asn).2 l hl
  obtain ⟨b, hb⟩ := due_iff.mp (nextActiveLink_due hfree hfit asn hl).1
  have hbest := choice_fst s ((s.sched.dueLinks
    (asn + (tschScheduleGetNextActiveLink s asn).timeToCurrBest)).map Prod.snd)
  rw [hchoice, Option.map_some] at hbest
  exact ⟨b, (firstBest_iff hwf hb).mpr hbest.symm⟩

/-- **The selection meets its specification**, with the lock free: there is no link if
and only if none is installed; else the time is the least in which a link is due, and
of the links due then the selected one is the first that no other is better than. -/
theorem next_link_optimal {s : TschState} (hfree : s.lock.tschLocked = false)
    (hwf : s.sched.WellFormed) (hfit : s.sched.TimeslotsFit) (asn : Nat) :
    ((tschScheduleGetNextActiveLink s asn).currBest = none ↔ s.sched.allLinks = []) ∧
      ∀ l, (tschScheduleGetNextActiveLink s asn).currBest = some l →
        IsLeast {t | 1 ≤ t ∧ ∃ p, s.sched.Due (asn + t) p}
            (tschScheduleGetNextActiveLink s asn).timeToCurrBest ∧
          ∃ b, FirstBest s (asn + (tschScheduleGetNextActiveLink s asn).timeToCurrBest) (b, l) :=
  ⟨(nextActiveLink_choice hfree hfit asn).1, fun _ hl =>
    ⟨isLeast_timeToCurrBest hfree hfit hl, firstBest_currBest hfree hwf hfit hl⟩⟩

/-! ## Three overlapping links -/

/-- Two Tx links of one slotframe and an Rx link of another, all in timeslot 0. -/
def crossing : List ScheduleCall :=
  [.addSlotframe 0 3, .addSlotframe 1 2, .addLink (some 0) txShared .normal (some 5) 0 0 false,
    .addLink (some 0) txShared .normal (some 6) 0 0 false,
    .addLink (some 1) rxShared .normal (some 5) 0 0 false]

/-- With a packet for the second Tx link. -/
def crossed : TschState :=
  match (do
    Prog.forEach crossing (makeCall (smallBuild 8) (fun _ _ _ => true) 3)
    let _ ← tschQueueAddPacket (smallBuild 8) 6 3 0 0 true).exec (TschState.boot (smallBuild 8)) with
  | some (_, s) => s
  | none => TschState.boot (smallBuild 8)

/-- The packet decides. -/
theorem next_link_optimal_crossed :
    (tschScheduleGetNextActiveLink crossed 5).currBest = some 1 ∧
      (tschScheduleGetNextActiveLink crossed 5).timeToCurrBest = 1 ∧
      ∃ b, FirstBest crossed 6 (b, 1) := by
  have hbest : (tschScheduleGetNextActiveLink crossed 5).currBest = some 1 := by decide +kernel
  have htime : (tschScheduleGetNextActiveLink crossed 5).timeToCurrBest = 1 := by decide +kernel
  have hwf : crossed.sched.WellFormed :=
    ⟨by decide +kernel, by decide +kernel, by decide +kernel, by decide +kernel, by decide +kernel,
      by decide +kernel⟩
  obtain ⟨-, h⟩ := next_link_optimal (by decide +kernel) hwf (by decide +kernel) 5
  have hchosen := (h 1 hbest).2
  rw [htime] at hchosen
  exact ⟨hbest, htime, hchosen⟩

end QlTsch
