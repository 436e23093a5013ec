/-
# `QlTsch.BackoffWindow` — the window as the number of shared slots to skip

`tsch_queue_backoff_inc` draws `r` and sets the window to `r + 1`: `r` slots to skip and
one for the slot that ends.  So the window is what a draw still owes: along a run, the
window and what was counted since the draw are together more than `r`
(`Recorded.owes`).  A packet is selected on a Shared link when the window is 0; by then
more than `r` timeslots have counted (`Paid`).  That they are different timeslots is
the other half: whatever counts or selects after a count comes in a later timeslot
(`BackoffEvent.Before`).

`backoff_window_skips`: this holds along every run in which no slot overlaps and no
process relinks a slot in progress.  `window_counted_twice`: a slot that skips its best
link for a second Tx, Shared link to the same neighbor counts the window down twice.
-/
import QlTsch.BackoffRecord
import QlTsch.Lib.History

namespace QlTsch

open Interleave Interleave.Prog

variable {cfg : Config}

/-! ## What a draw owes -/

/-- The windows drawn and not yet used up: the draw, and how often the window was counted
down since. -/
def owe (ob : List (Nat × Nat)) (e : BackoffEvent) : List (Nat × Nat) :=
  match e.act with
  | .counted => ob.map fun o => (o.1, o.2 + 1)
  | .drawn r => (r, 0) :: ob
  | .selected | .reset => []
  | .overlap | .relinked => ob

def owed (h : List BackoffEvent) : List (Nat × Nat) := h.foldl owe []

/-- At every selection, each window drawn before is used up. -/
def Paid : List (Nat × Nat) → List BackoffEvent → Prop
  | _, [] => True
  | ob, e :: h => (e.act = .selected → ∀ o ∈ ob, o.1 < o.2) ∧ Paid (owe ob e) h

/-- Whatever counts or selects after a count comes in a later timeslot. -/
def BackoffEvent.Before (e e' : BackoffEvent) : Prop :=
  e.asn ≤ e'.asn ∧ (e.act = .counted → e'.act = .counted ∨ e'.act = .selected → e.asn < e'.asn)

section
variable {ob : List (Nat × Nat)} {h h' : List BackoffEvent}

theorem paid_append : Paid ob (h ++ h') ↔ Paid ob h ∧ Paid (h.foldl owe ob) h' := by
  induction h generalizing ob with
  | nil => simp only [List.nil_append, Paid, List.foldl_nil, true_and]
  | cons e h ih => simp only [List.cons_append, Paid, List.foldl_cons, ih, and_assoc]

theorem owed_append : owed (h ++ h') = h'.foldl owe (owed h) := List.foldl_append

theorem foldl_owe_counted (hh : ∀ e ∈ h, e.act = .counted) :
    h.foldl owe ob = ob.map fun o => (o.1, o.2 + h.length) := by
  induction h generalizing ob with
  | nil => simp only [List.foldl_nil, List.length_nil, Nat.add_zero, List.map_id']
  | cons e h ih =>
      rw [List.foldl_cons, ih fun e' he' => hh e' (List.mem_cons_of_mem e he')]
      simp only [owe, hh e List.mem_cons_self, List.map_map, List.length_cons]
      refine List.map_congr_left ?_
      intro o _
      show (o.1, o.2 + 1 + h.length) = (o.1, o.2 + (h.length + 1))
      rw [Nat.add_assoc, Nat.add_comm 1]

theorem paid_of_not_selected (hh : ∀ e ∈ h, e.act ≠ .selected) : Paid ob h := by
  induction h generalizing ob with
  | nil => trivial
  | cons e h ih =>
      refine ⟨fun hsel => absurd hsel (hh e List.mem_cons_self), ih fun e' he' => ?_⟩
      exact hh e' (List.mem_cons_of_mem e he')

/-- What is owed stays owed until a selection or a reset. -/
theorem mem_foldl_owe {r k : Nat} (ho : (r, k) ∈ ob)
    (hh : ∀ e ∈ h, e.act ≠ .selected ∧ e.act ≠ .reset) :
    (r, k + (h.filter fun e => e.act = .counted).length) ∈ h.foldl owe ob := by
  induction h generalizing ob k with
  | nil => exact ho
  | cons e h ih =>
      have hrest : ∀ e' ∈ h, e'.act ≠ .selected ∧ e'.act ≠ .reset := fun e' he' =>
        hh e' (List.mem_cons_of_mem e he')
      obtain ⟨hsel, hres⟩ := hh e List.mem_cons_self
      rw [List.foldl_cons]
      cases hact : e.act with
      | counted =>
          have hmem : (r, k + 1) ∈ owe ob e := by
            simp only [owe, hact]
            exact List.mem_map.mpr ⟨(r, k), ho, rfl⟩
          rw [List.filter_cons_of_pos (by simpa using hact), List.length_cons, Nat.add_comm _ 1,
            ← Nat.add_assoc]
          exact ih hmem hrest
      | selected => exact absurd hact hsel
      | reset => exact absurd hact hres
      | drawn r' =>
          rw [List.filter_cons_of_neg (by simp [hact])]
          refine ih ?_ hrest
          simp only [owe, hact]
          exact List.mem_cons_of_mem _ ho
      | overlap =>
          rw [List.filter_cons_of_neg (by simp [hact])]
          refine ih ?_ hrest
          simp only [owe, hact]
          exact ho
      | relinked =>
          rw [List.filter_cons_of_neg (by simp [hact])]
          refine ih ?_ hrest
          simp only [owe, hact]
          exact ho

end

/-! ## The invariant -/

section
variable {n : LinkAddr} {h : List BackoffEvent} {s : TschState}

/-- The record so far. -/
structure Recorded (n : LinkAddr) (h : List BackoffEvent) (s : TschState) : Prop where
  ordered : h.Pairwise BackoffEvent.Before
  past : ∀ e ∈ h, e.asn ≤ s.slot.tschCurrentAsn
  owes : ∀ o ∈ owed h, o.1 < s.window n + o.2
  paid : Paid [] h

/-- The window has been counted down in this timeslot. -/
def CountedNow (h : List BackoffEvent) (s : TschState) : Prop :=
  ∃ e ∈ h, e.act = .counted ∧ e.asn = s.slot.tschCurrentAsn

/-- Where the slot ends: it does not count a second time. -/
structure AtEnd (cfg : Config) (n : LinkAddr) (h : List BackoffEvent) (s : TschState) : Prop
    extends Recorded n h s where
  once : CountedNow h s → ∀ l, s.slot.currentLink = some l → countsOn cfg n s l = false

/-- In a slot: nor does it serve the neighbor, and if it does, no window is left from
earlier draws. -/
structure InSlot (cfg : Config) (n : LinkAddr) (h : List BackoffEvent) (s : TschState) : Prop
    extends AtEnd cfg n h s where
  unserved : CountedNow h s → s.serves n = false
  served : s.serves n = true → owed h = []

structure BackoffInv (cfg : Config) (n : LinkAddr) (h : List BackoffEvent) (s : TschState) :
    Prop where
  recorded : Recorded n h s
  asleep : s.slot.pc = .asleep → s.slot.tschIsAssociated = true → ¬ CountedNow h s
  awake : s.slot.pc ≠ .asleep → InSlot cfg n h s

/-! ## The start of a slot -/

theorem CountedNow.of_append {es : List BackoffEvent} (hc : CountedNow (h ++ es) s)
    (hes : ∀ e ∈ es, e.act ≠ .counted) : CountedNow h s := by
  obtain ⟨e, he, hact, hasn⟩ := hc
  rcases List.mem_append.mp he with he | he
  · exact ⟨e, he, hact, hasn⟩
  · exact absurd hact (hes e he)

theorem Recorded.before (hr : Recorded n h s) {a : BackoffAct}
    (ha : a = .counted ∨ a = .selected → ¬ CountedNow h s) :
    (h ++ [s.event a]).Pairwise BackoffEvent.Before ∧
      ∀ e ∈ h ++ [s.event a], e.asn ≤ s.slot.tschCurrentAsn := by
  refine ⟨List.pairwise_append.mpr ⟨hr.ordered, List.pairwise_singleton _ _, ?_⟩, ?_⟩
  · intro e he e' he'
    rw [List.mem_singleton.mp he']
    refine ⟨hr.past e he, ?_⟩
    intro hact hact'
    exact lt_of_le_of_ne (hr.past e he) fun hasn => ha hact' ⟨e, he, hact, hasn⟩
  · intro e he
    rcases List.mem_append.mp he with he | he
    · exact hr.past e he
    · rw [List.mem_singleton.mp he]
      exact le_refl _

theorem Recorded.of_window {s' : TschState} (hr : Recorded n h s)
    (hasn : s'.slot.tschCurrentAsn = s.slot.tschCurrentAsn) (hw : s'.window n = s.window n) :
    Recorded n h s' :=
  ⟨hr.ordered, fun e he => hasn ▸ hr.past e he, fun o ho => hw ▸ hr.owes o ho, hr.paid⟩

/-- **The start of a slot**, if it does not overlap. -/
theorem Recorded.start (hr : Recorded n h s) (hfresh : ¬ CountedNow h s)
    (hl : s.slot.currentLink.isSome = true) (hb : slotBegins s = true)
    (hno : overlaps cfg n s = false) : InSlot cfg n (h ++ startBackoff cfg n s) (takeUp cfg s) := by
  have hasn := takeUp_asn cfg s
  rcases startBackoff_begins hl hb hno with ⟨hw, hes⟩ | ⟨hw, hes, hserves, hcounts⟩
  · rw [hes]
    cases hserves : (takeUp cfg s).serves n with
    | false =>
        rw [if_neg Bool.false_ne_true, List.append_nil]
        have hfresh' : ¬ CountedNow h (takeUp cfg s) := by
          rintro ⟨e, he, hact, heq⟩
          exact hfresh ⟨e, he, hact, heq.trans hasn⟩
        refine ⟨⟨hr.of_window hasn hw, fun hc => absurd hc hfresh'⟩, fun hc => absurd hc hfresh', ?_⟩
        rw [hserves]
        intro hs
        cases hs
    | true =>
        -- the window is 0, and with it all that was owed is paid
        rw [if_pos rfl]
        have hzero := takeUp_serves_window hl hb hserves
        have howed : owed (h ++ [s.event .selected]) = [] := by
          rw [owed_append]
          rfl
        have hfresh' : ¬ CountedNow (h ++ [s.event .selected]) (takeUp cfg s) := by
          rintro ⟨e, he, hact, heq⟩
          rcases List.mem_append.mp he with he | he
          · exact hfresh ⟨e, he, hact, heq.trans hasn⟩
          · rw [List.mem_singleton.mp he] at hact
            cases hact
        obtain ⟨hordered, hpast⟩ := hr.before fun _ => hfresh
        refine ⟨⟨⟨hordered, hasn ▸ hpast, ?_, ?_⟩, fun hc => absurd hc hfresh'⟩,
          fun hc => absurd hc hfresh', fun _ => howed⟩
        · rw [howed]
          intro o ho
          cases ho
        · refine paid_append.mpr ⟨hr.paid, fun _ o ho => ?_, trivial⟩
          have hlt := hr.owes o ho
          omega
  · rw [hes]
    obtain ⟨hordered, hpast⟩ := hr.before fun _ => hfresh
    refine ⟨⟨⟨hordered, hasn ▸ hpast, ?_, ?_⟩, fun _ => hcounts⟩, fun _ => hserves, ?_⟩
    · rw [owed_append, foldl_owe_counted (by simp [TschState.event])]
      intro o ho
      obtain ⟨o', ho', rfl⟩ := List.mem_map.mp ho
      have hlt := hr.owes o' ho'
      simp only [List.length_singleton]
      omega
    · exact paid_append.mpr ⟨hr.paid, paid_of_not_selected (by simp [TschState.event])⟩
    · rw [hserves]
      intro hs
      cases hs

/-! ## Inside a slot -/

theorem kept_frame {u w : TschState} (hk : w.kept = u.kept) :
    w.slot.tschCurrentAsn = u.slot.tschCurrentAsn ∧ w.slot.currentLink = u.slot.currentLink ∧
      w.window n = u.window n ∧ w.owned = u.owned ∧ w.serves n = u.serves n := by
  have hasn : w.slot.tschCurrentAsn = u.slot.tschCurrentAsn := congrArg Kept.tschCurrentAsn hk
  have hl : w.slot.currentLink = u.slot.currentLink := congrArg Kept.currentLink hk
  have hp : w.slot.currentPacket = u.slot.currentPacket := congrArg Kept.currentPacket hk
  have hn : w.slot.currentNeighbor = u.slot.currentNeighbor := congrArg Kept.currentNeighbor hk
  have hw : w.window n = u.window n := congrArg (fun k : Kept => (k.neighbors n).backoffWindow) hk
  have ho : w.owned = u.owned := congrArg Kept.owned hk
  have hlink : ∀ p, w.link p = u.link p := fun p =>
    congrArg (fun v : ScheduleVars => v.links p) (sched_of_owned ho)
  refine ⟨hasn, hl, hw, ho, ?_⟩
  simp only [TschState.serves, hp, hn, hl, hlink]

theorem CountedNow.congr {s' : TschState} (hc : CountedNow h s')
    (hasn : s'.slot.tschCurrentAsn = s.slot.tschCurrentAsn) : CountedNow h s := by
  obtain ⟨e, he, hact, heq⟩ := hc
  exact ⟨e, he, hact, heq.trans hasn⟩

theorem AtEnd.of_owned {s' : TschState} (ha : AtEnd cfg n h s) (ho : s'.owned = s.owned)
    (hasn : s'.slot.tschCurrentAsn = s.slot.tschCurrentAsn)
    (hl : s'.slot.currentLink = s.slot.currentLink) (hw : s'.window n = s.window n) :
    AtEnd cfg n h s' := by
  refine ⟨ha.toRecorded.of_window hasn hw, fun hc l hl' => Bool.eq_false_iff.mpr fun hon => ?_⟩
  have hw0 : s.window n ≠ 0 := hw ▸ countsOn_window hon
  have hno := ha.once (hc.congr hasn) l (hl.symm.trans hl')
  rw [countsOn_of_owned ho hw0 hon] at hno
  cases hno

theorem InSlot.of_kept {w : TschState} (hi : InSlot cfg n h s) (hk : w.kept = s.kept) :
    InSlot cfg n h w := by
  obtain ⟨hasn, hl, hw, ho, hserves⟩ := kept_frame (n := n) hk
  refine ⟨hi.toAtEnd.of_owned ho hasn hl hw, fun hc => ?_, fun hs => hi.served (hserves ▸ hs)⟩
  rw [hserves]
  exact hi.unserved (hc.congr hasn)

/-- **The event of an interrupt.**  A window is drawn for a neighbor that is served. -/
theorem InSlot.attempt (hmax : cfg.tschMacMaxBe ≤ 7) {i : SlotInput} {t : TschState}
    (hi : InSlot cfg n h s) (hk : s.kept = (takeUp cfg t).kept) :
    AtEnd cfg n (h ++ attemptBackoff cfg n i (slotEvent cfg i t) s)
      ((slotEvent cfg i t).apply cfg i s) := by
  have howned := apply_owned cfg i (slotEvent cfg i t) s
  obtain ⟨hasn, hlink⟩ := apply_slot cfg i (slotEvent cfg i t) s
  rcases attemptBackoff_cases (n := n) (s := s) hmax i (slotEvent cfg i t) with
    ⟨hes, hw⟩ | ⟨hes, hw⟩ | ⟨p, l, st, r, he, hsh, hes, hw⟩
  · rw [hes, List.append_nil]
    exact hi.toAtEnd.of_owned howned hasn hlink hw
  · rw [hes]
    obtain ⟨hordered, hpast⟩ := hi.before (a := .reset) (by simp)
    have howed : owed (h ++ [s.event .reset]) = [] := by
      rw [owed_append]
      rfl
    refine ⟨⟨hordered, hasn ▸ hpast, ?_, ?_⟩, fun _ l _ => Bool.eq_false_iff.mpr fun hon => ?_⟩
    · rw [howed]
      intro o ho
      cases ho
    · exact paid_append.mpr ⟨hi.paid, paid_of_not_selected (by simp [TschState.event])⟩
    · exact countsOn_window hon hw
  · rw [hes]
    have hserves : s.serves n = true := by
      obtain ⟨⟨hp, hn, hl⟩, -⟩ := slotEvent_attempt he
      refine serves_iff.mpr ⟨⟨p, ?_⟩, ?_, l, ?_, hsh⟩
      · exact (congrArg Kept.currentPacket hk).trans hp
      · exact (congrArg Kept.currentNeighbor hk).trans hn
      · exact (congrArg Kept.currentLink hk).trans hl
    obtain ⟨hordered, hpast⟩ := hi.before (a := .drawn r) (by simp)
    have howed : owed (h ++ [s.event (.drawn r)]) = [(r, 0)] := by
      rw [owed_append, hi.served hserves]
      rfl
    refine ⟨⟨hordered, hasn ▸ hpast, ?_, ?_⟩, fun hc => ?_⟩
    · rw [howed]
      intro o ho
      rw [List.mem_singleton.mp ho, hw]
      omega
    · exact paid_append.mpr ⟨hi.paid, paid_of_not_selected (by simp [TschState.event])⟩
    · have hc' := (hc.congr hasn).of_append (by simp [TschState.event])
      have hno := hi.unserved hc'
      rw [hserves] at hno
      cases hno

/-- **The end of a slot.** -/
theorem AtEnd.finish (ha : AtEnd cfg n h s) (hs : ValidSchedule s) {i : SlotInput} {s' : TschState}
    (hend : endOfSlot cfg i s = some s') : BackoffInv cfg n (h ++ endEvents cfg n i s) s' := by
  obtain ⟨hpc, hr | ⟨hes, hleft, hasn, hw⟩⟩ := endEvents_spec (n := n) hs hend
  · have hlater := hr.asn
    have hcounted : ∀ e ∈ endEvents cfg n i s, e.act = .counted := fun e he => (hr.counted e he).1
    refine ⟨⟨?_, fun e he => ?_, ?_, ?_⟩, fun _ _ hc => ?_, fun hawake => absurd hpc hawake⟩
    · refine List.pairwise_append.mpr ⟨ha.ordered, ?_, fun e he e' he' => ?_⟩
      · exact hr.sorted.imp fun hlt => ⟨hlt.le, fun _ _ => hlt⟩
      · obtain ⟨-, hge, -⟩ := hr.counted e' he'
        have hle := ha.past e he
        refine ⟨hle.trans hge, ?_⟩
        intro hact _
        refine lt_of_le_of_ne (hle.trans hge) ?_
        intro heq
        -- both would be the count of this timeslot
        have hnow : e.asn = s.slot.tschCurrentAsn := le_antisymm hle (heq ▸ hge)
        obtain ⟨l, hl, hon⟩ := hr.first e' he' (heq.symm.trans hnow)
        have hno := ha.once ⟨e, he, hact, hnow⟩ l hl
        rw [hon] at hno
        cases hno
    · rcases List.mem_append.mp he with he | he
      · exact (ha.past e he).trans hlater.le
      · exact (hr.counted e he).2.2.le
    · rw [owed_append, foldl_owe_counted hcounted]
      intro o ho
      obtain ⟨o', ho', rfl⟩ := List.mem_map.mp ho
      have hlt := ha.owes o' ho'
      have hwin := hr.window
      dsimp only
      omega
    · refine paid_append.mpr ⟨ha.paid, paid_of_not_selected fun e he hsel => ?_⟩
      cases (hcounted e he).symm.trans hsel
    · obtain ⟨e, he, -, heq⟩ := hc
      rcases List.mem_append.mp he with he | he
      · have hle := ha.past e he
        omega
      · have hlt := (hr.counted e he).2.2
        omega
  · rw [hes, List.append_nil]
    refine ⟨ha.toRecorded.of_window hasn hw, fun _ hassoc => ?_, fun hawake => absurd hpc hawake⟩
    cases hleft.symm.trans hassoc

/-! ## One interrupt -/

theorem slotBegins_of_starts (hstart : SlotStarts s) :
    s.slot.currentLink.isSome = true ∧ slotBegins s = true := by
  refine ⟨hstart.link, ?_⟩
  simp only [slotBegins, hstart.asleep, hstart.associated, hstart.notRequested, decide_true,
    Bool.not_false, Bool.and_self]

theorem not_begins_of_not_starts (hpc : s.slot.pc = .asleep) (hno : ¬ SlotStarts s) :
    (s.slot.currentLink.isSome && slotBegins s) = false := by
  refine Bool.eq_false_iff.mpr fun hb => hno ?_
  simp only [slotBegins, Bool.and_eq_true, decide_eq_true_eq, Bool.not_eq_true'] at hb
  exact ⟨hpc, hb.2.1.2, hb.1, hb.2.2⟩

theorem startBackoff_idle (hno : (s.slot.currentLink.isSome && slotBegins s) = false) :
    startBackoff cfg n s = [] := by
  simp only [startBackoff, hno, Bool.false_eq_true, if_false]

theorem awake_not_begins (hpc : s.slot.pc ≠ .asleep) :
    (s.slot.currentLink.isSome && slotBegins s) = false := by
  simp only [slotBegins, decide_eq_false hpc, Bool.false_and, Bool.and_false]

theorem BackoffInv.inSlot (hi : BackoffInv cfg n h s)
    (hno : ∀ e ∈ startBackoff cfg n s, e.act ≠ .overlap)
    (hslot : SlotStarts s ∨ s.slot.pc ≠ .asleep) :
    InSlot cfg n (h ++ startBackoff cfg n s) (takeUp cfg s) := by
  rcases hslot with hstart | hpc
  · obtain ⟨hl, hb⟩ := slotBegins_of_starts hstart
    refine hi.recorded.start (hi.asleep hstart.asleep hstart.associated) hl hb ?_
    refine Bool.eq_false_iff.mpr ?_
    intro hover
    refine hno (s.event .overlap) ?_ rfl
    simp [startBackoff, hl, hb, hover]
  · rw [startBackoff_idle (awake_not_begins hpc), List.append_nil, takeUp_awake hpc]
    exact hi.awake hpc

/-- **An interrupt.** -/
theorem BackoffInv.slot (hmax : cfg.tschMacMaxBe ≤ 7) (hi : BackoffInv cfg n h s)
    {es : List BackoffEvent} {s' : TschState} (hs : BackoffStep cfg n es s s')
    (hno : ∀ e ∈ es, e.act ≠ .overlap) : BackoffInv cfg n (h ++ es) s' := by
  cases hs with
  | idle hstep hpc hleft =>
      rcases slotStep_stops hstep with ⟨-, -, rfl⟩ | ⟨hassoc, -⟩
      · rw [List.append_nil]
        exact ⟨hi.recorded.of_window rfl rfl, hi.asleep, fun hawake => absurd hpc hawake⟩
      · cases hleft.symm.trans (hassoc hpc)
  | yield hvalid hstep hpc' =>
      have hend : ∀ {i w}, endOfSlot cfg i w = some s' → False := fun hend =>
        hpc' (endOfSlot_asleep hend)
      rcases slotStep_stops hstep with ⟨hpc, -, rfl⟩ | ⟨hassoc, ⟨-, hk, -⟩ | ⟨w, -, hw⟩⟩
      · exact absurd hpc hpc'
      · have hslot : SlotStarts s ∨ s.slot.pc ≠ .asleep := by
          by_contra hno'
          rw [not_or, not_not] at hno'
          rcases slotStep_skipped hno'.2 hno'.1 hstep with rfl | hskip
          · exact hpc' hno'.2
          · exact hend hskip
        have hin := (hi.inSlot hno hslot).of_kept hk
        exact ⟨hin.toRecorded, fun hpc => absurd hpc hpc', fun _ => hin⟩
      · exact (hend hw).elim
  | finish hvalid hstep hassoc hk hend =>
      rename_i i w
      have howned : ((slotEvent cfg i s).apply cfg i w).owned = s.owned :=
        ((apply_owned cfg i _ w).trans (congrArg Kept.owned hk)).trans
          (congrArg Rest.owned (takeUp_rest cfg s))
      rw [← List.append_assoc, ← List.append_assoc]
      refine AtEnd.finish ?_ (hvalid.of_owned howned) hend
      by_cases hslot : SlotStarts s ∨ s.slot.pc ≠ .asleep
      · refine ((hi.inSlot (fun e he => hno e ?_) hslot).of_kept hk).attempt hmax hk
        exact List.mem_append_left _ (List.mem_append_left _ he)
      · -- a slot that is skipped
        rw [not_or, not_not] at hslot
        have hidle := not_begins_of_not_starts hslot.2 hslot.1
        have hquiet : slotEvent cfg i s = .quiet := by
          simp only [slotEvent, hslot.2, Bool.and_comm (slotBegins s), hidle, Bool.false_eq_true,
            if_false]
        rw [takeUp_idle hidle] at hk
        obtain ⟨hasn, -, hw, -⟩ := kept_frame (n := n) hk
        rw [startBackoff_idle hidle, hquiet, List.append_nil]
        show AtEnd cfg n (h ++ []) w
        rw [List.append_nil]
        exact ⟨hi.recorded.of_window hasn hw,
          fun hc => absurd (hc.congr hasn) (hi.asleep hslot.2 (hassoc hslot.2))⟩

end

/-! ## The process -/

/-- What an action of a process does: of the variables of the slot operation it clears
`current_link` at most, and a window that it writes becomes 0. -/
structure ProcessAct (n : LinkAddr) (s s' : TschState) : Prop where
  pc : s'.slot.pc = s.slot.pc
  asn : s'.slot.tschCurrentAsn = s.slot.tschCurrentAsn
  associated : s'.slot.tschIsAssociated = s.slot.tschIsAssociated
  currentPacket : s'.slot.currentPacket = s.slot.currentPacket
  currentNeighbor : s'.slot.currentNeighbor = s.slot.currentNeighbor
  currentLink : s'.slot.currentLink = s.slot.currentLink ∨ s'.slot.currentLink = none
  window : s'.window n = s.window n ∨ s'.window n = 0

namespace ProcessAct

variable {n : LinkAddr} {s s' : TschState}

theorem of_slot (hs : s'.slot = s.slot) (hw : s'.window n = s.window n ∨ s'.window n = 0) :
    ProcessAct n s s' :=
  ⟨by rw [hs], by rw [hs], by rw [hs], by rw [hs], by rw [hs], .inl (by rw [hs]), hw⟩

theorem of_queue (hs : s'.slot = s.slot) (hq : s'.queue.neighbors = s.queue.neighbors) :
    ProcessAct n s s' :=
  of_slot hs (.inl (by simp only [TschState.window, hq]))

theorem modify (m : LinkAddr) {f : TschNeighbor → TschNeighbor}
    (hf : ∀ e, (f e).backoffWindow = e.backoffWindow ∨ (f e).backoffWindow = 0) :
    ProcessAct n s (s.modifyNeighbor m f) := by
  refine of_slot rfl ?_
  by_cases hn : n = m
  · subst hn
    rw [modifyNeighbor_window]
    exact hf _
  · exact .inl (modifyNeighbor_window_of_ne hn f s)

end ProcessAct

theorem nodeWrites_processAct (n : LinkAddr) : NodeWrites cfg (ProcessAct n) where
  refl _ := .of_queue rfl rfl
  nbrTableAdd a s := by
    simp only [TschState.nbrTableAddLladdr]
    split
    · exact .of_queue rfl rfl
    · split <;> exact .of_queue rfl rfl
  newNeighbor a s := .modify a fun _ => .inr rfl
  countTxLink m o d s := .modify m fun _ => .inl rfl
  testCurrentLink p s := by
    simp only [TschState.testCurrentLink]
    split <;> exact .of_queue rfl rfl
  clearCurrentLink _ _ := ⟨rfl, rfl, rfl, rfl, rfl, .inr rfl, .inl rfl⟩
  allocLink s := by
    simp only [TschState.allocLink]
    split <;> exact .of_queue rfl rfl
  listAddLink _ _ _ := .of_queue rfl rfl
  listRemoveLink _ _ _ := .of_queue rfl rfl
  freeLink _ _ := .of_queue rfl rfl
  allocSlotframe s := by
    simp only [TschState.allocSlotframe]
    split <;> exact .of_queue rfl rfl
  listAddSlotframe _ _ := .of_queue rfl rfl
  freeSlotframe _ _ := .of_queue rfl rfl
  listRemoveSlotframe _ _ := .of_queue rfl rfl
  setTimeSource m _ _ := .modify m fun _ => .inl rfl
  allocPacket s := by
    simp only [TschState.allocPacket]
    split <;> exact .of_queue rfl rfl
  freePacketBlock _ _ := .of_queue rfl rfl
  fillPacket _ _ _ := .of_queue rfl rfl
  putPacket m p s := by
    have hput : ProcessAct n s (s.modifyNeighbor m fun e => { e with txRingbuf := e.txRingbuf ++ [p] }) :=
      .modify m fun _ => .inl rfl
    exact .of_slot rfl hput.window
  takePacket m s := by
    obtain ⟨q, hq⟩ := removePacketFromQueue_queue m s
    obtain ⟨r, hr⟩ := removePacketFromQueue_neighbor m n s
    refine .of_slot ?_ (.inl ?_)
    · rw [hq]
      cases (tschQueueRemovePacketFromQueue m s).1 <;> rfl
    · have hw : (tschQueueRemovePacketFromQueue m s).2.window n = s.window n := by
        simp only [TschState.window, hr]
      cases (tschQueueRemovePacketFromQueue m s).1 <;> exact hw
  takeDequeued _ p _ := by cases p <;> exact ⟨rfl, rfl, rfl, rfl, rfl, .inl rfl, .inl rfl⟩
  callSentCallback _ _ := .of_queue rfl rfl
  freePacket _ _ := .of_queue rfl rfl
  backoffReset m _ := .modify m fun _ => .inr rfl
  initLink _ _ _ _ _ _ _ _ := .of_queue rfl rfl
  initSlotframe _ _ _ _ := .of_queue rfl rfl
  setNode _ _ := .of_queue rfl rfl
  readStatus _ := ⟨rfl, rfl, rfl, rfl, rfl, .inl rfl, .inl rfl⟩
  credit _ _ _ := .of_queue rfl rfl
  notePending _ _ := .of_queue rfl rfl
  finishRound _ _ := .of_queue rfl rfl

section
variable {n : LinkAddr} {h : List BackoffEvent} {s s' : TschState}

theorem guar_nodeCalls (fuel : Nat) (calls : List NodeCall) :
    (Prog.forEach calls (NodeCall.perform cfg fuel)).Guar (ProcessAct n) :=
  Guar.forEach (fun c => ((nodeWrites_processAct n).perform fuel c fun _ _ _ => .of_queue rfl rfl).guar
    (fun _ _ h => h) (fun _ => .of_queue rfl rfl) (fun _ _ => .of_queue rfl rfl)
    fun _ _ => .of_queue rfl rfl) calls

theorem relinks_false (hr : relinks cfg n s s' = false) (hpc : s.slot.pc ≠ .asleep) {l : Nat}
    (hl : s'.slot.currentLink = some l) :
    s'.link l = s.link l ∧ (countsOn cfg n s l = false → countsOn cfg n s' l = false) := by
  simp only [relinks, hl, Option.any_some, bne_iff_ne.mpr hpc, Bool.true_and, Bool.or_eq_false_iff,
    bne_eq_false_iff_eq, Bool.and_eq_false_iff, Bool.not_eq_false'] at hr
  refine ⟨hr.1, ?_⟩
  intro hno
  rcases hr.2 with hon | hoff
  · cases hon.symm.trans hno
  · exact hoff

/-- **An action of a process.** -/
theorem BackoffInv.act (hi : BackoffInv cfg n h s) (ha : ProcessAct n s s')
    (hno : ∀ e ∈ processBackoff cfg n s s', e.act ≠ .relinked) :
    BackoffInv cfg n (h ++ processBackoff cfg n s s') s' := by
  have hr : relinks cfg n s s' = false := by
    refine Bool.eq_false_iff.mpr fun hr => hno (s.event .relinked) ?_ rfl
    simp [processBackoff, hr]
  -- the record: a reset, or nothing
  have hrec : Recorded n (h ++ processBackoff cfg n s s') s' ∧
      (owed h = [] → owed (h ++ processBackoff cfg n s s') = []) ∧
      (∀ e ∈ processBackoff cfg n s s', e.act ≠ .counted) := by
    by_cases hw : s'.window n = s.window n
    · have hes : processBackoff cfg n s s' = [] := by
        simp only [processBackoff, hw, hr, ne_eq, not_true_eq_false, Bool.false_eq_true, if_false,
          List.append_nil]
      rw [hes, List.append_nil]
      exact ⟨hi.recorded.of_window ha.asn hw, id, fun _ he => (by cases he)⟩
    · have hes : processBackoff cfg n s s' = [s.event .reset] := by
        simp only [processBackoff, hw, hr, ne_eq, not_false_eq_true, Bool.false_eq_true, if_true,
          if_false, List.append_nil]
      obtain ⟨hordered, hpast⟩ := hi.recorded.before (a := .reset) (by simp)
      have howed : owed (h ++ [s.event .reset]) = [] := by
        rw [owed_append]
        rfl
      rw [hes]
      refine ⟨⟨hordered, ha.asn ▸ hpast, ?_, ?_⟩, fun _ => howed, by simp [TschState.event]⟩
      · rw [howed]
        intro o ho
        cases ho
      · exact paid_append.mpr ⟨hi.recorded.paid, paid_of_not_selected (by simp [TschState.event])⟩
  obtain ⟨hrec, howed, hcounted⟩ := hrec
  have hnow : CountedNow (h ++ processBackoff cfg n s s') s' → CountedNow h s := fun hc =>
    (hc.of_append hcounted).congr ha.asn
  refine ⟨hrec, fun hpc hassoc hc => ?_, fun hpc => ?_⟩
  · exact hi.asleep (ha.pc.symm.trans hpc) (ha.associated.symm.trans hassoc) (hnow hc)
  · rw [ha.pc] at hpc
    have hin := hi.awake hpc
    have hold : ∀ l, s'.slot.currentLink = some l → s.slot.currentLink = some l := by
      intro l hl
      rcases ha.currentLink with hsame | hnone
      · exact hsame.symm.trans hl
      · cases hnone.symm.trans hl
    have hserves : s'.serves n = true → s.serves n = true := by
      intro hs
      obtain ⟨⟨p, hp⟩, hn, l, hl, hsh⟩ := serves_iff.mp hs
      rw [(relinks_false hr hpc hl).1] at hsh
      exact serves_iff.mpr ⟨⟨p, ha.currentPacket.symm.trans hp⟩, ha.currentNeighbor.symm.trans hn, l,
        hold l hl, hsh⟩
    refine ⟨⟨hrec, fun hc l hl => ?_⟩, fun hc => ?_, fun hs => howed (hin.served (hserves hs))⟩
    · exact (relinks_false hr hpc hl).2 (hin.once (hnow hc) l (hold l hl))
    · refine Bool.eq_false_iff.mpr ?_
      intro hs
      cases (hin.unserved (hnow hc)).symm.trans (hserves hs)

/-- The condition: no slot overlaps, and no slot in progress is relinked. -/
def Undisturbed (h : List BackoffEvent) : Prop :=
  ∀ e ∈ h, e.act ≠ .overlap ∧ e.act ≠ .relinked

instance (h : List BackoffEvent) : Decidable (Undisturbed h) :=
  inferInstanceAs (Decidable (∀ e ∈ h, e.act ≠ .overlap ∧ e.act ≠ .relinked))

theorem backoffInv_history (hmax : cfg.tschMacMaxBe ≤ 7) {α : Type} {p : Prog TschState α}
    (hp : p.Guar (ProcessAct n)) (hpc : s.slot.pc = .asleep) {es : List BackoffEvent}
    {c : Prog TschState α × TschState}
    (hr : History (BackoffStep cfg n) (processBackoff cfg n) (p, s) es c) (hes : Undisturbed es) :
    BackoffInv cfg n es c.2 := by
  have hinv : Undisturbed es → BackoffInv cfg n es c.2 := by
    refine History.invariant (I := fun _ => True)
      (R := fun h s => Undisturbed h → BackoffInv cfg n h s) (fun _ => trivial) hp ?_ ?_ ?_ hr
    · intro _
      refine ⟨⟨.nil, fun _ he => (by cases he), fun _ ho => (by cases ho), trivial⟩, fun _ _ hc => ?_,
        fun hawake => absurd hpc hawake⟩
      obtain ⟨e, he, -⟩ := hc
      cases he
    · intro h s s' _ hi ha hu
      exact BackoffInv.act (hi fun e he => hu e (List.mem_append_left _ he)) ha fun e he =>
        (hu e (List.mem_append_right _ he)).2
    · intro h es s s' _ hi hs hu
      exact BackoffInv.slot hmax (hi fun e he => hu e (List.mem_append_left _ he)) hs fun e he =>
        (hu e (List.mem_append_right _ he)).1
  exact hinv hes

end

/-! ## Reading the record -/

section
variable {h h₁ h₂ h₃ : List BackoffEvent}

/-- In one timeslot the window is counted down once. -/
theorem count_counted (ho : h.Pairwise BackoffEvent.Before) (a : Nat) :
    h.count ⟨a, .counted⟩ ≤ 1 := by
  induction h with
  | nil => exact Nat.zero_le _
  | cons e h ih =>
      obtain ⟨hbefore, ho⟩ := List.pairwise_cons.mp ho
      rw [List.count_cons]
      split
      · rename_i he
        rw [beq_iff_eq] at he
        subst he
        -- whatever counts after it is in a later timeslot
        have hnot : (⟨a, .counted⟩ : BackoffEvent) ∉ h := fun hmem =>
          lt_irrefl a ((hbefore _ hmem).2 rfl (.inl rfl))
        rw [List.count_eq_zero.mpr hnot]
      · exact ih ho

/-- The timeslots that counted. -/
def countedAt (h : List BackoffEvent) : List Nat :=
  (h.filter fun e => e.act = .counted).map (·.asn)

theorem mem_countedAt {a : Nat} : a ∈ countedAt h ↔ (⟨a, .counted⟩ : BackoffEvent) ∈ h := by
  simp only [countedAt, List.mem_map, List.mem_filter, decide_eq_true_eq]
  constructor
  · rintro ⟨⟨b, act⟩, ⟨he, rfl⟩, rfl⟩
    exact he
  · intro he
    exact ⟨_, ⟨he, rfl⟩, rfl⟩

theorem countedAt_sorted (ho : h.Pairwise BackoffEvent.Before) : (countedAt h).Pairwise (· < ·) := by
  refine List.pairwise_map.mpr ((ho.sublist List.filter_sublist).imp_of_mem ?_)
  intro e e' he he' hb
  simp only [List.mem_filter, decide_eq_true_eq] at he he'
  exact hb.2 he.2 (.inl he'.2)

/-- **Between a draw and a selection.** -/
theorem skipped_timeslots {a₀ r a₁ : Nat}
    (ho : (h₁ ++ ⟨a₀, .drawn r⟩ :: h₂ ++ ⟨a₁, .selected⟩ :: h₃).Pairwise BackoffEvent.Before)
    (hp : Paid [] (h₁ ++ ⟨a₀, .drawn r⟩ :: h₂ ++ ⟨a₁, .selected⟩ :: h₃))
    (hh : ∀ e ∈ h₂, e.act ≠ .selected ∧ e.act ≠ .reset) :
    ∃ asns : List Nat, asns.Pairwise (· < ·) ∧ r ≤ asns.length ∧
      ∀ a ∈ asns, a₀ < a ∧ a < a₁ ∧ (⟨a, .counted⟩ : BackoffEvent) ∈ h₂ ∧
        (⟨a, .selected⟩ : BackoffEvent) ∉ h₁ ++ ⟨a₀, .drawn r⟩ :: h₂ ++ ⟨a₁, .selected⟩ :: h₃ := by
  -- what the draw owes is paid
  have hlen : r < (countedAt h₂).length := by
    have hpaid := (paid_append.mp hp).2.1 rfl (r, 0 + (h₂.filter fun e => e.act = .counted).length) ?_
    · rwa [Nat.zero_add, ← List.length_map (·.asn)] at hpaid
    · rw [List.foldl_append, List.foldl_cons]
      exact mem_foldl_owe List.mem_cons_self hh
  obtain ⟨hleft, hright, hcross⟩ := List.pairwise_append.mp ho
  obtain ⟨-, hafter, hdraw⟩ := List.pairwise_append.mp hleft
  obtain ⟨hlater, hsorted⟩ := List.pairwise_cons.mp hafter
  have hlast := (List.pairwise_cons.mp hright).1
  have hcounted := countedAt_sorted hsorted
  -- the first of them may be the timeslot of the draw
  cases hcs : countedAt h₂ with
  | nil =>
      rw [hcs] at hlen
      cases hlen
  | cons a asns =>
      rw [hcs] at hlen hcounted
      obtain ⟨hhead, htail⟩ := List.pairwise_cons.mp hcounted
      have hmem : ∀ b ∈ a :: asns, (⟨b, .counted⟩ : BackoffEvent) ∈ h₂ := fun b hb =>
        mem_countedAt.mp (hcs ▸ hb)
      have hge : a₀ ≤ a := (hlater _ (hmem a List.mem_cons_self)).1
      refine ⟨asns, htail, Nat.le_of_lt_succ hlen, ?_⟩
      intro b hb
      have hbh := hmem b (List.mem_cons_of_mem a hb)
      have hgt : a₀ < b := hge.trans_lt (hhead b hb)
      have hlt : b < a₁ := (hcross _ (List.mem_append_right _ (List.mem_cons_of_mem _ hbh)) _
        List.mem_cons_self).2 rfl (.inr rfl)
      refine ⟨hgt, hlt, hbh, ?_⟩
      intro hsel
      rcases List.mem_append.mp hsel with hsel | hsel
      · rcases List.mem_append.mp hsel with hsel | hsel
        · have hle := (hdraw _ hsel _ List.mem_cons_self).1
          exact absurd hle (Nat.not_le.mpr hgt)
        · rcases List.mem_cons.mp hsel with heq | hsel
          · cases heq
          · exact (hh _ hsel).1 rfl
      · rcases List.mem_cons.mp hsel with heq | hsel
        · have hasn : b = a₁ := congrArg BackoffEvent.asn heq
          exact absurd hasn hlt.ne
        · exact absurd (hlast _ hsel).1 (Nat.not_le.mpr hlt)

end

/-- **The backoff window is the number of shared slots to skip**, for every neighbor in
every undisturbed run, with any calls of the processes: in one timeslot it is counted
down once; and from a draw of `r` to the next selection of one of the neighbor's packets
on a Shared link, the backoff not reset, there are `r` later timeslots that count, none of
which selects. -/
theorem backoff_window_skips (hmax : cfg.tschMacMaxBe ≤ 7) (n : LinkAddr) (fuel : Nat)
    (calls : List NodeCall) {s : TschState} (hpc : s.slot.pc = .asleep) {es : List BackoffEvent}
    {c : Prog TschState Unit × TschState}
    (hr : History (BackoffStep cfg n) (processBackoff cfg n)
      (Prog.forEach calls (NodeCall.perform cfg fuel), s) es c) (hes : Undisturbed es) :
    (∀ a, es.count ⟨a, .counted⟩ ≤ 1) ∧
    ∀ h₁ a₀ r h₂ a₁ h₃, es = h₁ ++ ⟨a₀, .drawn r⟩ :: h₂ ++ ⟨a₁, .selected⟩ :: h₃ →
      (∀ e ∈ h₂, e.act ≠ .selected ∧ e.act ≠ .reset) →
      ∃ asns : List Nat, asns.Pairwise (· < ·) ∧ r ≤ asns.length ∧
        ∀ a ∈ asns, a₀ < a ∧ a < a₁ ∧ (⟨a, .counted⟩ : BackoffEvent) ∈ h₂ ∧
          (⟨a, .selected⟩ : BackoffEvent) ∉ es := by
  have hi := (backoffInv_history hmax (guar_nodeCalls fuel calls) hpc hr hes).recorded
  refine ⟨count_counted hi.ordered, ?_⟩
  intro h₁ a₀ r h₂ a₁ h₃ heq hh
  subst heq
  exact skipped_timeslots hi.ordered hi.paid hh

/-! ## Two links in one timeslot -/

/-- The state in which the slot ends, for an interrupt that skips the slot, finds nothing
to do in it, hears nothing or gets no acknowledgement. -/
def slotEnd (cfg : Config) (i : SlotInput) (s : TschState) : Option TschState :=
  match s.slot.pc with
  | .asleep =>
      if s.slot.timer.isSome && s.slot.tschIsAssociated && s.slot.currentLink.isNone then some s.disarm
      else none
  | .txBeforeAck _ =>
      match s.slot.currentPacket, s.slot.currentNeighbor, s.slot.currentLink with
      | some _, some _, some _ =>
          if ackAccepted cfg i then none else some (s.noteAcknowledged (ackReceived cfg i))
      | _, _, _ => none
  | .rxBeforeListen => if i.received.isNone then some s else none
  | _ => none

theorem slotEnd_step {i : SlotInput} {s w : TschState} (h : slotEnd cfg i s = some w) :
    slotStep cfg i s = endOfSlot cfg i ((slotEvent cfg i s).apply cfg i w) ∧
      w.kept = (takeUp cfg s).kept ∧ (s.slot.pc = .asleep → s.slot.tschIsAssociated = true) := by
  simp only [slotEnd] at h
  split at h
  · rename_i hpc
    split at h
    · rename_i hskip
      simp only [Bool.and_eq_true, Option.isNone_iff_eq_none] at hskip
      obtain ⟨⟨htimer, hassoc⟩, hl⟩ := hskip
      cases h
      have hidle : (s.slot.currentLink.isSome && slotBegins s) = false := by
        rw [hl, Option.isSome_none, Bool.false_and]
      rw [takeUp_idle hidle]
      refine ⟨?_, rfl, fun _ => hassoc⟩
      simp only [slotStep, hpc, htimer, if_true, wakeUp, hassoc, hl, slotEvent, Option.isSome_none,
        Bool.and_false, Bool.false_eq_true, if_false, SlotEvent.apply]
    · cases h
  · rename_i loc hpc
    split at h
    · rename_i p n l hp hn hl
      split at h
      · cases h
      · rename_i hack
        cases h
        have hawake : s.slot.pc ≠ .asleep := by
          rw [hpc]
          exact fun hc => (by cases hc)
        rw [takeUp_awake hawake]
        refine ⟨?_, rfl, fun hc => absurd hc hawake⟩
        have hack' : ackAccepted cfg i = false := Bool.eq_false_iff.mpr hack
        simp only [slotStep, hpc, txSlotAck, TschState.noteAcknowledged, hn, hack', Bool.false_eq_true,
          if_false, txSlotEnd, hp, hl, slotEvent, attemptEvent, SlotEvent.apply]
    · cases h
  · rename_i hpc
    split at h
    · rename_i hnone
      cases h
      have hawake : s.slot.pc ≠ .asleep := by
        rw [hpc]
        exact fun hc => (by cases hc)
      rw [takeUp_awake hawake]
      refine ⟨?_, rfl, fun hc => absurd hc hawake⟩
      rw [Option.isNone_iff_eq_none] at hnone
      simp only [slotStep, hpc, rxSlotListen, hnone, slotEvent, SlotEvent.apply]
    · cases h
  · cases h

/-- An interrupt with its record. -/
def backoffMove (cfg : Config) (n : LinkAddr) (i : SlotInput) (s : TschState) :
    Option (List BackoffEvent × TschState) :=
  if ValidSchedule s then
    match slotEnd cfg i s, slotStep cfg i s with
    | some w, some s' => some (startBackoff cfg n s ++ attemptBackoff cfg n i (slotEvent cfg i s) w ++
        endEvents cfg n i ((slotEvent cfg i s).apply cfg i w), s')
    | none, some s' => if s'.slot.pc ≠ .asleep then some (startBackoff cfg n s, s') else none
    | _, none => none
  else none

theorem backoffMove_step (n : LinkAddr) (i : SlotInput) (s : TschState) (es : List BackoffEvent)
    (s' : TschState) (h : backoffMove cfg n i s = some (es, s')) : BackoffStep cfg n es s s' := by
  simp only [backoffMove] at h
  split at h
  · rename_i hvalid
    split at h
    · rename_i w t hw ht
      cases h
      obtain ⟨hstep, hk, hassoc⟩ := slotEnd_step hw
      exact .finish hvalid ht hassoc hk (hstep.symm.trans ht)
    · rename_i t _ ht
      split at h
      · rename_i hpc
        cases h
        exact .yield hvalid ht hpc
      · cases h
    · cases h
  · cases h

/-- Two slotframes of 7 slots.  In slot 1 of both is a link to neighbor 5: a Tx, Shared
link, and one with options `o`.  A packet waits for neighbor 5. -/
def sameSlotCalls (o : LinkOptions) : List NodeCall :=
  [.call (.addSlotframe 0 7), .call (.addSlotframe 1 7),
    .call (.addLink (some 0) txShared .normal (some 5) 1 0 false),
    .call (.addLink (some 1) o .normal (some 5) 1 0 false), .call (.addPacket 5 3 0 0 true)]

def sameSlotStart (o : LinkOptions) : TschState :=
  match (Prog.forEach (sameSlotCalls o) (NodeCall.perform (smallBuild 8) 9)).exec
      (TschState.boot (smallBuild 8)) with
  | some (_, s) => s.joined 0
  | none => TschState.boot (smallBuild 8)

/-- The packet is sent in slot 1 and not acknowledged; `rand` is the draw. -/
def sameSlotMoves (rand : Nat) : List (Option SlotInput) :=
  [some (.quiet 0), some (.quiet 328), some (.quiet 328),
    some { SlotInput.quiet 328 with rand := rand }, some (.quiet 2624), some (.quiet 2624),
    some (.quiet 4920)]

/-- With an Rx link as the backup, slot 8 is skipped for the draw of 1. -/
theorem backoff_window_skips_backup :
    ∃ (es : List BackoffEvent) (c : Prog TschState Unit × TschState),
      History (BackoffStep (smallBuild 8) 5) (processBackoff (smallBuild 8) 5)
        (Prog.forEach [] (NodeCall.perform (smallBuild 8) 0), sameSlotStart rxShared) es c ∧
      es = [⟨1, .selected⟩] ++ ⟨1, .drawn 1⟩ :: [⟨1, .counted⟩, ⟨8, .counted⟩] ++ [⟨15, .selected⟩] ∧
      ∃ asns : List Nat, asns.Pairwise (· < ·) ∧ 1 ≤ asns.length ∧
        ∀ a ∈ asns, 1 < a ∧ a < 15 ∧
          (⟨a, .counted⟩ : BackoffEvent) ∈ [⟨1, .counted⟩, ⟨8, .counted⟩] ∧
          (⟨a, .selected⟩ : BackoffEvent) ∉ es := by
  obtain ⟨es, c, hr, hes⟩ := History.exists_historyOf (backoffMove (smallBuild 8) 5)
    (processBackoff (smallBuild 8) 5)
    (Prog.forEach [] (NodeCall.perform (smallBuild 8) 0), sameSlotStart rxShared)
    (backoffMove_step 5) (sameSlotMoves 64)
    (fun r => decide (r.1 = [⟨1, .selected⟩] ++ ⟨1, .drawn 1⟩ :: [⟨1, .counted⟩, ⟨8, .counted⟩] ++
      [⟨15, .selected⟩])) (by decide +kernel)
  have hes : es = [⟨1, .selected⟩] ++ ⟨1, .drawn 1⟩ :: [⟨1, .counted⟩, ⟨8, .counted⟩] ++
      [⟨15, .selected⟩] := of_decide_eq_true hes
  have hpc : (sameSlotStart rxShared).slot.pc = .asleep := by decide +kernel
  have hundisturbed : Undisturbed es := by
    rw [hes]
    decide
  refine ⟨es, c, hr, hes, ?_⟩
  exact (backoff_window_skips (by decide) 5 0 [] hpc hr hundisturbed).2 _ _ _ _ _ [] hes (by decide)

/-- With a second Tx, Shared link as the backup, the window is counted down twice in
slot 8, and of the three slots that were drawn only this one is skipped. -/
theorem window_counted_twice :
    ∃ (es : List BackoffEvent) (c : Prog TschState Unit × TschState),
      History (BackoffStep (smallBuild 8) 5) (processBackoff (smallBuild 8) 5)
        (Prog.forEach [] (NodeCall.perform (smallBuild 8) 0), sameSlotStart txRxShared) es c ∧
      es.count ⟨8, .counted⟩ = 2 ∧
      ∃ h₂, es = [⟨1, .selected⟩] ++ ⟨1, .drawn 3⟩ :: h₂ ++ [⟨15, .selected⟩] ∧
        (∀ e ∈ h₂, e.act ≠ .selected ∧ e.act ≠ .reset) ∧
        ∀ e ∈ h₂, e.act = .counted → 1 < e.asn → e.asn < 15 → e.asn = 8 := by
  obtain ⟨es, c, hr, hes⟩ := History.exists_historyOf (backoffMove (smallBuild 8) 5)
    (processBackoff (smallBuild 8) 5)
    (Prog.forEach [] (NodeCall.perform (smallBuild 8) 0), sameSlotStart txRxShared)
    (backoffMove_step 5) (sameSlotMoves 192)
    (fun r => decide (r.1 = [⟨1, .selected⟩] ++ ⟨1, .drawn 3⟩ :: [⟨1, .counted⟩, ⟨8, .counted⟩,
      ⟨8, .overlap⟩, ⟨8, .counted⟩, ⟨15, .counted⟩, ⟨15, .overlap⟩] ++ [⟨15, .selected⟩]))
    (by decide +kernel)
  have hes : es = [⟨1, .selected⟩] ++ ⟨1, .drawn 3⟩ :: [⟨1, .counted⟩, ⟨8, .counted⟩,
      ⟨8, .overlap⟩, ⟨8, .counted⟩, ⟨15, .counted⟩, ⟨15, .overlap⟩] ++ [⟨15, .selected⟩] :=
    of_decide_eq_true hes
  refine ⟨es, c, hr, ?_, _, hes, by decide, by decide⟩
  rw [hes]
  decide

end QlTsch
