/-
# `QlTsch.ReceptionOpportunity` — overlapping links and the backup link

When several links fall on one slot, `tsch_schedule_get_next_active_link` selects
one and keeps a second one, with the Rx option, as a backup.  The slot operation
turns to the backup if it finds no packet for the first.

The loop over the schedule keeps three facts about the links it has seen
(`BestOf`): the best link comes first in time, the backup can receive and comes
at the same time, and *every* link that comes at that time and can receive is
either the best one or the reason for a backup.  So if any installed link with
the Rx option is due in the slot, the slot is run as active: `tsch_tx_slot` with a
packet, or `tsch_rx_slot` on such a link (`reception_opportunity`).

What a transmit slot does then depends on the dequeued ring: without room for the
packet it does nothing, and the reception is lost to the overlap
(`lost_to_full_ring`).
-/
import QlTsch.LinkPointers

namespace QlTsch

open Interleave ScheduleVars

variable {cfg : Config}

/-! ## When a link is due -/

/-- A link of the schedule is due at `asn`. -/
def ScheduleVars.Due (v : ScheduleVars) (asn p : Nat) : Prop :=
  ∃ b ∈ v.slotframeList, p ∈ (v.slotframes b).linksList ∧
    asn % (v.slotframes b).size = (v.links p).timeslot

instance (v : ScheduleVars) (asn p : Nat) : Decidable (v.Due asn p) :=
  inferInstanceAs (Decidable (∃ b ∈ v.slotframeList, p ∈ (v.slotframes b).linksList ∧
    asn % (v.slotframes b).size = (v.links p).timeslot))

/-- Timeslots are below the size of their slotframe, which is a `uint16_t`. -/
def ScheduleVars.TimeslotsFit (v : ScheduleVars) : Prop :=
  ∀ b ∈ v.slotframeList, ∀ p ∈ (v.slotframes b).linksList,
    (v.links p).timeslot < (v.slotframes b).size ∧ (v.slotframes b).size < 65536

instance (v : ScheduleVars) : Decidable v.TimeslotsFit :=
  inferInstanceAs (Decidable (∀ b ∈ v.slotframeList, ∀ p ∈ (v.slotframes b).linksList,
    (v.links p).timeslot < (v.slotframes b).size ∧ (v.slotframes b).size < 65536))

theorem Due.mem_allLinks {v : ScheduleVars} {asn p : Nat} (h : v.Due asn p) : p ∈ v.allLinks := by
  obtain ⟨b, hb, hp, -⟩ := h
  exact ScheduleVars.mem_allLinks.mpr ⟨b, hb, hp⟩

/-- `time_to_timeslot` is the distance to the next slot of the link, the current
slot not counted. -/
theorem timeToTimeslot_spec {size ts : Nat} (asn : Nat) (hts : ts < size) (hsize : size < 65536) :
    0 < timeToTimeslot size ts (asn % size) ∧
      (asn + timeToTimeslot size ts (asn % size)) % size = ts ∧
      ∀ k, 0 < k → (asn + k) % size = ts → timeToTimeslot size ts (asn % size) ≤ k := by
  have hr : asn % size < size := Nat.mod_lt _ (by omega)
  have hadd : ∀ k, (asn + k) % size = (asn % size + k) % size := by
    intro k
    rw [Nat.mod_add_mod]
  have hlt : ∀ k, asn % size + k < size → (asn + k) % size = asn % size + k := by
    intro k hk
    rw [hadd, Nat.mod_eq_of_lt hk]
  have hge : ∀ k, size ≤ asn % size + k → asn % size + k < size + size →
      (asn + k) % size = asn % size + k - size := by
    intro k hk hk'
    rw [hadd, Nat.mod_eq_sub_mod hk, Nat.mod_eq_of_lt (by omega)]
  by_cases hlater : ts > asn % size
  · have hT : timeToTimeslot size ts (asn % size) = ts - asn % size := by
      simp only [timeToTimeslot, if_pos hlater]
      exact Nat.mod_eq_of_lt (by omega)
    rw [hT]
    refine ⟨by omega, ?_, ?_⟩
    · rw [hlt _ (by omega)]
      omega
    · intro k _ hk
      by_contra hlt'
      rw [hlt k (by omega)] at hk
      omega
  · have hT : timeToTimeslot size ts (asn % size) = size + ts - asn % size := by
      simp only [timeToTimeslot, if_neg hlater]
      exact Nat.mod_eq_of_lt (by omega)
    rw [hT]
    refine ⟨by omega, ?_, ?_⟩
    · rw [hge _ (by omega) (by omega)]
      omega
    · intro k hk0 hk
      by_contra hlt'
      by_cases hwrap : asn % size + k < size
      · rw [hlt k hwrap] at hk
        omega
      · rw [hge k (by omega) (by omega)] at hk
        omega

/-! ## The loop over the schedule -/

theorem newBest_cases (s : TschState) (best p : Nat) :
    newBest s best p = none ∨ newBest s best p = some best ∨ newBest s best p = some p := by
  cases h : newBest s best p with
  | none => exact .inl rfl
  | some q =>
      have hq : q = best ∨ q = p :=
        newBest_within (P := fun q => q = best ∨ q = p) (.inl rfl) (.inr rfl) h
      rcases hq with rfl | rfl
      · exact .inr (.inl rfl)
      · exact .inr (.inr rfl)

/-- A link that is not selected and can receive leaves a backup behind. -/
theorem offerBackup_isSome {s : TschState} {sel : Option Nat} {p : Nat} (backup : Option Nat)
    (hsel : sel ≠ some p) (hrx : (s.link p).linkOptions.rx = true) :
    (offerBackup s sel p backup).isSome = true := by
  simp only [offerBackup, if_pos (And.intro hsel hrx)]
  split
  · rfl
  · split <;> rfl

theorem offerBackup_of_isSome {s : TschState} {backup : Option Nat} (sel : Option Nat) (p : Nat)
    (hb : backup.isSome = true) : (offerBackup s sel p backup).isSome = true := by
  simp only [offerBackup]
  split
  · split
    · rfl
    · split <;> rfl
  · exact hb

/-- What the loop knows of the links it has seen; `D t p`: link `p` comes in `t`
slots. -/
structure BestOf (s : TschState) (D : Nat → Nat → Prop) (acc : NextLink) : Prop where
  empty : acc.currBest = none → ∀ t p, ¬ D t p
  best : ∀ l, acc.currBest = some l → D acc.timeToCurrBest l
  least : ∀ t p, D t p → acc.timeToCurrBest ≤ t
  backup : ∀ q, acc.currBackup = some q → D acc.timeToCurrBest q ∧ (s.link q).linkOptions.rx = true
  kept : ∀ p, D acc.timeToCurrBest p → (s.link p).linkOptions.rx = true →
    acc.currBest = some p ∨ acc.currBackup.isSome = true

namespace BestOf

variable {s : TschState} {D : Nat → Nat → Prop} {acc : NextLink}

theorem congr {D' : Nat → Nat → Prop} (h : BestOf s D acc) (hD : ∀ t p, D t p ↔ D' t p) :
    BestOf s D' acc := by
  have heq : D = D' := by
    funext t p
    exact propext (hD t p)
  exact heq ▸ h

theorem considerLink (h : BestOf s D acc) (size ts p : Nat) :
    BestOf s (fun t q => D t q ∨ t = timeToTimeslot size (s.link p).timeslot ts ∧ q = p)
      (considerLink s size ts acc p) := by
  -- the link comes first, or before all others
  have hfirst : ∀ T, (∀ t q, D t q → T < t) →
      BestOf s (fun t q => D t q ∨ t = T ∧ q = p) ⟨T, some p, none⟩ := by
    intro T hT
    refine ⟨fun hn => (by cases hn), fun l hl => ?_, fun t q hq => ?_, fun q hq => (by cases hq),
      fun q hq _ => ?_⟩
    · cases hl
      exact .inr ⟨rfl, rfl⟩
    · rcases hq with hq | ⟨rfl, -⟩
      · exact (hT t q hq).le
      · exact le_rfl
    · rcases hq with hq | ⟨-, rfl⟩
      · exact absurd (hT _ q hq) (lt_irrefl _)
      · exact .inl rfl
  simp only [QlTsch.considerLink]
  generalize timeToTimeslot size (s.link p).timeslot ts = T
  cases hbest : acc.currBest with
  | none => exact hfirst T fun t q hq => absurd hq (h.empty hbest t q)
  | some best =>
      have hD : D acc.timeToCurrBest best := h.best best hbest
      by_cases hlt : T < acc.timeToCurrBest
      · simp only [if_pos hlt]
        exact hfirst T fun t q hq => lt_of_lt_of_le hlt (h.least t q hq)
      · simp only [if_neg hlt]
        by_cases heq : T = acc.timeToCurrBest
        · -- two links at one time
          subst heq
          simp only [if_true]
          refine ⟨fun hn => (by cases hn), fun l hl => ?_, fun t q hq => ?_, fun q hq => ?_,
            fun q hq hrx => ?_⟩
          · rcases newBest_cases s best p with hsel | hsel | hsel <;> rw [hsel] at hl <;> cases hl
            · exact .inl hD
            · exact .inl hD
            · exact .inr ⟨rfl, rfl⟩
          · rcases hq with hq | ⟨rfl, -⟩
            · exact h.least t q hq
            · exact le_rfl
          · -- whatever is offered comes at this time; it is offered only if it can receive
            have hoffer : ∀ r backup, (D acc.timeToCurrBest r ∨ r = p) →
                (∀ x, backup = some x → (D acc.timeToCurrBest x ∨ x = p) ∧
                  (s.link x).linkOptions.rx = true) →
                ∀ x, offerBackup s (newBest s best p) r backup = some x →
                  (D acc.timeToCurrBest x ∨ x = p) ∧ (s.link x).linkOptions.rx = true := by
              intro r backup hr hb x hx
              simp only [offerBackup] at hx
              split at hx
              · rename_i hcan
                split at hx
                · exact Option.some.inj hx ▸ ⟨hr, hcan.2⟩
                · split at hx
                  · exact Option.some.inj hx ▸ ⟨hr, hcan.2⟩
                  · exact hb x hx
              · exact hb x hx
            have hq' := hoffer best _ (.inl hD)
              (hoffer p _ (.inr rfl) fun x hx => ⟨.inl (h.backup x hx).1, (h.backup x hx).2⟩) q hq
            exact ⟨hq'.1.imp_right fun hqp => ⟨rfl, hqp⟩, hq'.2⟩
          · -- nobody who can receive is forgotten
            have hbackup : acc.currBackup.isSome = true →
                (offerBackup s (newBest s best p) best
                  (offerBackup s (newBest s best p) p acc.currBackup)).isSome = true := fun hb =>
              offerBackup_of_isSome _ _ (offerBackup_of_isSome _ _ hb)
            have hloser : ∀ r, (r = best ∨ r = p) → (s.link r).linkOptions.rx = true →
                some ((newBest s best p).getD best) = some r ∨
                  (offerBackup s (newBest s best p) best
                    (offerBackup s (newBest s best p) p acc.currBackup)).isSome = true := by
              intro r hr hrx
              by_cases hsel : newBest s best p = some r
              · rw [hsel]
                exact .inl rfl
              · rcases hr with rfl | rfl
                · exact .inr (offerBackup_isSome _ hsel hrx)
                · exact .inr (offerBackup_of_isSome _ _ (offerBackup_isSome _ hsel hrx))
            rcases hq with hq | ⟨-, rfl⟩
            · rcases h.kept q hq hrx with hkept | hkept
              · exact hloser q (.inl (Option.some.inj (hkept.symm.trans hbest))) hrx
              · exact .inr (hbackup hkept)
            · exact hloser q (.inr rfl) hrx
        · -- a later link
          simp only [if_neg heq]
          refine ⟨fun hn => (by simp [hbest] at hn), fun l hl => .inl (h.best l hl), fun t q hq => ?_,
            fun q hq => ⟨.inl (h.backup q hq).1, (h.backup q hq).2⟩, fun q hq hrx => ?_⟩
          · rcases hq with hq | ⟨rfl, -⟩
            · exact h.least t q hq
            · omega
          · rcases hq with hq | ⟨hT, -⟩
            · exact h.kept q hq hrx
            · exact absurd hT.symm heq

theorem foldl (size ts : Nat) : ∀ (ls : List Nat) {D : Nat → Nat → Prop} {acc : NextLink},
    BestOf s D acc →
    BestOf s (fun t q => D t q ∨ q ∈ ls ∧ t = timeToTimeslot size (s.link q).timeslot ts)
      (ls.foldl (QlTsch.considerLink s size ts) acc)
  | [], D, acc, h => h.congr fun t q => by simp
  | p :: ls, D, acc, h => by
      refine (foldl size ts ls (h.considerLink size ts p)).congr ?_
      intro t q
      simp only [List.mem_cons]
      constructor
      · rintro ((hD | ⟨rfl, rfl⟩) | ⟨hq, rfl⟩)
        · exact .inl hD
        · exact .inr ⟨.inl rfl, rfl⟩
        · exact .inr ⟨.inr hq, rfl⟩
      · rintro (hD | ⟨rfl | hq, rfl⟩)
        · exact .inl (.inl hD)
        · exact .inl (.inr ⟨rfl, rfl⟩)
        · exact .inr ⟨hq, rfl⟩

theorem foldl_slotframes (asn : Nat) : ∀ (bs : List Nat) {D : Nat → Nat → Prop} {acc : NextLink},
    BestOf s D acc →
    BestOf s (fun t q => D t q ∨ ∃ b ∈ bs, q ∈ (s.slotframe b).linksList ∧
        t = timeToTimeslot (s.slotframe b).size (s.link q).timeslot (asn % (s.slotframe b).size))
      (bs.foldl (considerSlotframe s asn) acc)
  | [], D, acc, h => h.congr fun t q => by simp
  | b :: bs, D, acc, h => by
      refine (foldl_slotframes asn bs (h.foldl _ _ (s.slotframe b).linksList)).congr ?_
      intro t q
      simp only [List.exists_mem_cons_iff, or_assoc]

end BestOf

/-- **The selection.**  What `tsch_schedule_get_next_active_link` returns is best
of all the links of the schedule. -/
theorem bestOf_nextActiveLink {s : TschState} (hfree : s.lock.tschLocked = false) (asn : Nat) :
    BestOf s (fun t q => ∃ b ∈ s.sched.slotframeList, q ∈ (s.slotframe b).linksList ∧
        t = timeToTimeslot (s.slotframe b).size (s.link q).timeslot (asn % (s.slotframe b).size))
      (tschScheduleGetNextActiveLink s asn) := by
  have hstart : BestOf s (fun _ _ => False) ⟨0, none, none⟩ := by
    refine ⟨fun _ _ _ h => h, fun _ h => ?_, fun _ _ h => h.elim, fun _ h => ?_, fun _ h => h.elim⟩
    · cases h
    · cases h
  simp only [tschScheduleGetNextActiveLink, tschIsLocked, hfree, Bool.false_eq_true, if_false]
  refine (BestOf.foldl_slotframes asn s.sched.slotframeList hstart).congr ?_
  intro t q
  simp only [false_or]

/-- In the slot that is selected: the best link and the backup are due, the backup
can receive, and if a link that can receive is due, it is the best one or there is
a backup. -/
theorem nextActiveLink_due {s : TschState} (hfree : s.lock.tschLocked = false)
    (hfit : s.sched.TimeslotsFit) (asn : Nat) {best : Nat}
    (hbest : (tschScheduleGetNextActiveLink s asn).currBest = some best) :
    s.sched.Due (asn + (tschScheduleGetNextActiveLink s asn).timeToCurrBest) best ∧
      (∀ q, (tschScheduleGetNextActiveLink s asn).currBackup = some q →
        s.sched.Due (asn + (tschScheduleGetNextActiveLink s asn).timeToCurrBest) q ∧
          (s.link q).linkOptions.rx = true) ∧
      ∀ p, s.sched.Due (asn + (tschScheduleGetNextActiveLink s asn).timeToCurrBest) p →
        (s.link p).linkOptions.rx = true →
        best = p ∨ (tschScheduleGetNextActiveLink s asn).currBackup.isSome = true := by
  have h := bestOf_nextActiveLink hfree asn
  generalize tschScheduleGetNextActiveLink s asn = acc at h hbest ⊢
  have hdue : ∀ q, (∃ b ∈ s.sched.slotframeList, q ∈ (s.slotframe b).linksList ∧
      acc.timeToCurrBest =
        timeToTimeslot (s.slotframe b).size (s.link q).timeslot (asn % (s.slotframe b).size)) →
      s.sched.Due (asn + acc.timeToCurrBest) q := by
    rintro q ⟨b, hb, hq, ht⟩
    obtain ⟨hts, hsize⟩ := hfit b hb q hq
    refine ⟨b, hb, hq, ?_⟩
    rw [ht]
    exact (timeToTimeslot_spec asn hts hsize).2.1
  have hpos : 0 < acc.timeToCurrBest := by
    obtain ⟨b, hb, hq, ht⟩ := h.best best hbest
    obtain ⟨hts, hsize⟩ := hfit b hb best hq
    rw [ht]
    exact (timeToTimeslot_spec asn hts hsize).1
  refine ⟨hdue best (h.best best hbest), fun q hq => ⟨hdue q (h.backup q hq).1, (h.backup q hq).2⟩,
    fun p hp hrx => ?_⟩
  obtain ⟨b, hb, hpb, hasn⟩ := hp
  obtain ⟨hts, hsize⟩ := hfit b hb p hpb
  -- the next slot of a link that is due cannot be earlier than the best link's
  have hle := (timeToTimeslot_spec asn hts hsize).2.2 _ hpos hasn
  have hge := h.least _ p ⟨b, hb, hpb, rfl⟩
  rcases h.kept p ⟨b, hb, hpb, le_antisymm hge hle⟩ hrx with hkept | hkept
  · exact .inl (Option.some.inj (hbest.symm.trans hkept))
  · exact .inr hkept

/-! ## From the selection to the slot -/

/-- `s` is the state of the slot that was selected in `a`: the schedule is the
same, `current_link` and `backup_link` are as they were selected, and the ASN is
the one of the selected slot.  Queues, counters and backoff may have changed. -/
structure Selected (a s : TschState) : Prop where
  free : a.lock.tschLocked = false
  sched : s.sched = a.sched
  current : s.slot.currentLink =
    (tschScheduleGetNextActiveLink a a.slot.tschCurrentAsn).currBest
  backup : s.slot.backupLink =
    (tschScheduleGetNextActiveLink a a.slot.tschCurrentAsn).currBackup
  asn : s.slot.tschCurrentAsn = a.slot.tschCurrentAsn +
    timeslotDiff (tschScheduleGetNextActiveLink a a.slot.tschCurrentAsn)

variable (cfg) in
theorem selected_slotEndRound {s : TschState} (hfree : s.lock.tschLocked = false)
    (hburst : s.slot.burstLinkScheduled = false) (i : LoopInput) :
    Selected (updateLinkBackoff cfg s.slot.currentLink s) (slotEndRound cfg i s).1 := by
  have hslot := updateLinkBackoff_slot cfg s.slot.currentLink s
  have hlock := lock_of_owned (updateLinkBackoff_owned cfg s.slot.currentLink s)
  have hnext : nextLink (updateLinkBackoff cfg s.slot.currentLink s) =
      (selectLink (updateLinkBackoff cfg s.slot.currentLink s),
        timeslotDiff (tschScheduleGetNextActiveLink (updateLinkBackoff cfg s.slot.currentLink s)
          (updateLinkBackoff cfg s.slot.currentLink s).slot.tschCurrentAsn)) := by
    simp only [nextLink, hslot, hburst, Bool.false_and, Bool.false_eq_true, if_false]
  simp only [slotEndRound, hnext]
  exact ⟨by rw [hlock]; exact hfree, rfl, rfl, rfl, rfl⟩

variable (cfg) in
theorem burst_slotEndRound {s : TschState} (hburst : s.slot.burstLinkScheduled = false)
    (i : LoopInput) : (slotEndRound cfg i s).1.slot.burstLinkScheduled = false ∧
      (slotEndRound cfg i s).1.lock = s.lock := by
  have hslot := updateLinkBackoff_slot cfg s.slot.currentLink s
  have hlock := lock_of_owned (updateLinkBackoff_owned cfg s.slot.currentLink s)
  have hb : (updateLinkBackoff cfg s.slot.currentLink s).slot.burstLinkScheduled = false := by
    rw [hslot]
    exact hburst
  simp only [slotEndRound, nextLink, hb, Bool.false_and, Bool.false_eq_true, if_false]
  exact ⟨hb, hlock⟩

theorem selected_scheduleNextSlot {is : List LoopInput} {s s' : TschState}
    (hfree : s.lock.tschLocked = false) (hburst : s.slot.burstLinkScheduled = false)
    (h : scheduleNextSlot cfg is s = some s') : ∃ a, Selected a s' := by
  induction h using scheduleNextSlot_induction with
  | armed i is s _ =>
      have hsel := selected_slotEndRound cfg hfree hburst i
      exact ⟨_, hsel.free, hsel.sched, hsel.current, hsel.backup, hsel.asn⟩
  | missed i is s t _ _ ih =>
      obtain ⟨hb, hl⟩ := burst_slotEndRound cfg hburst i
      exact ih (by rw [hl]; exact hfree) hb

/-- The end of a slot that is not part of a burst leads to a slot that was
selected, or out of the network. -/
theorem selected_endOfSlot {i : SlotInput} {s s' : TschState} (hfree : s.lock.tschLocked = false)
    (hburst : s.slot.burstLinkScheduled = false) (h : endOfSlot cfg i s = some s') :
    s'.slot.tschIsAssociated = false ∨ ∃ a, Selected a s' := by
  rcases endOfSlot_cases h with ⟨w, t, hw, ht, rfl⟩ | ⟨-, -, rfl⟩
  · have hkept : w.lock.tschLocked = false ∧ w.slot.burstLinkScheduled = false := by
      rcases hw with rfl | rfl <;> exact ⟨hfree, hburst⟩
    obtain ⟨a, ha⟩ := selected_scheduleNextSlot hkept.1 hkept.2 ht
    exact .inr ⟨a, ha.free, ha.sched, ha.current, ha.backup, ha.asn⟩
  · exact .inl rfl

/-! ## The slot -/

/-- The slot operation on link `l`, its packet chosen. -/
def onLink (cfg : Config) (l : Nat) (s : TschState) : TschState :=
  chooseLink cfg l s.disarm.enterSlot

/-- The slot that starts in `s` on `current_link = l` runs `tsch_tx_slot` with a
packet. -/
structure TransmitSlot (cfg : Config) (i : SlotInput) (l : Nat) (s : TschState) : Prop where
  runs : ∃ l' p n, (onLink cfg l s).slot.currentLink = some l' ∧
    (onLink cfg l s).slot.currentPacket = some p ∧
    (onLink cfg l s).slot.currentNeighbor = some n ∧
    slotStep cfg i s = txSlotBegin cfg i (setChannel cfg l' (onLink cfg l s))
  /-- with room in the dequeued ring, a frame that can be prepared is prepared and
  handed to the radio -/
  sends : s.slot.dequeuedRingbuf.length < cfg.dequeuedRingbufCapacity →
    (∀ p, (onLink cfg l s).slot.currentPacket = some p → (s.queue.packets p).hasQueuebuf = true) →
    i.packetReady = true → i.prepareOk = true →
    ∃ s', slotStep cfg i s = some s' ∧ s'.slot.pc.inTx = true

/-- It runs `tsch_rx_slot` on link `l'`. -/
structure ReceiveSlot (cfg : Config) (i : SlotInput) (l l' : Nat) (s : TschState) : Prop where
  runs : slotStep cfg i s = rxSlotBegin cfg i (setChannel cfg l' (onLink cfg l s))
  /-- with room in the input ring it listens -/
  listens : s.slot.inputRingbuf.length < cfg.inputRingbufCapacity →
    ∃ s', slotStep cfg i s = some s' ∧ s'.slot.pc = .rxBeforeListen ∧
      s'.slot.currentLink = some l'

variable (cfg) in
theorem onLink_frame (l : Nat) (s : TschState) :
    (onLink cfg l s).slot.dequeuedRingbuf = s.slot.dequeuedRingbuf ∧
      (onLink cfg l s).slot.inputRingbuf = s.slot.inputRingbuf ∧
      (onLink cfg l s).queue.packets = s.queue.packets := by
  simp only [onLink, chooseLink]
  split
  · exact ⟨rfl, rfl, rfl⟩
  · obtain ⟨w, hw⟩ := updateLinkBackoff_spec cfg (some l) (getCurrentPacket l s.disarm.enterSlot)
    rw [hw]
    exact ⟨rfl, rfl, rfl⟩

/-- The frame of a packet goes to the radio exactly if there is room in the dequeued ring
and the frame can be prepared. -/
theorem txSlotBegin_inTx {i : SlotInput} {s : TschState} {p : Nat} {n : LinkAddr}
    (hp : s.slot.currentPacket = some p) (hn : s.slot.currentNeighbor = some n) :
    (∃ s', txSlotBegin cfg i s = some s' ∧ s'.slot.pc.inTx = true) ↔
      s.slot.dequeuedRingbuf.length < cfg.dequeuedRingbufCapacity ∧
        (s.queue.packets p).hasQueuebuf = true ∧ packetReady i s = true ∧ i.prepareOk = true := by
  constructor
  · rintro ⟨s', h, htx⟩
    simp only [txSlotBegin, hp, hn] at h
    split at h
    · rename_i hroom
      split at h
      · rw [txSlotEnd_asleep h] at htx
        cases htx
      · rename_i hqb
        split at h
        · rename_i hready
          rw [Bool.and_eq_true] at hready
          exact ⟨hroom, by simpa using hqb, hready⟩
        · rw [txSlotEnd_asleep h] at htx
          cases htx
    · rw [endOfSlot_asleep h] at htx
      cases htx
  · rintro ⟨hroom, hqb, hready, hprep⟩
    simp only [txSlotBegin, if_pos hroom, hp, hn, hqb, hready, hprep, Bool.not_true,
      Bool.false_eq_true, if_false, Bool.and_self, if_true]
    split
    · exact ⟨_, rfl, rfl⟩
    · exact ⟨_, rfl, rfl⟩

theorem txSlotBegin_cases {i : SlotInput} {s s' : TschState} (h : txSlotBegin cfg i s = some s') :
    s'.slot.pc = .asleep ∨ s'.slot.pc.inTx = true ∧ s'.slot = { s.slot with pc := s'.slot.pc } := by
  have hframe : ∀ n p, (prepareFrame cfg n p s).slot = s.slot := by
    intro n p
    simp only [prepareFrame]
    split <;> rfl
  simp only [txSlotBegin] at h
  split at h
  · split at h
    · split at h
      · exact .inl (txSlotEnd_asleep h)
      · split at h
        · split at h
          · cases h
            exact .inr ⟨rfl, by simp only [TschState.setPc, hframe]⟩
          · cases h
            exact .inr ⟨rfl, by simp only [TschState.setPc, hframe]⟩
        · exact .inl (txSlotEnd_asleep h)
    · cases h
  · exact .inl (endOfSlot_asleep h)

theorem transmitSlot {i : SlotInput} {s : TschState} {l l' p : Nat}
    (hstep : slotStep cfg i s = beginSlot cfg l i s.disarm)
    (hl' : (onLink cfg l s).slot.currentLink = some l')
    (hp : (onLink cfg l s).slot.currentPacket = some p) : TransmitSlot cfg i l s := by
  have hp' : (chooseLink cfg l s.disarm.enterSlot).slot.currentPacket = some p := hp
  obtain ⟨-, n, hn, -⟩ := chooseLink_packet hp'
  have hrun : slotStep cfg i s = txSlotBegin cfg i (setChannel cfg l' (onLink cfg l s)) := by
    rw [hstep]
    have hl'' : (chooseLink cfg l s.disarm.enterSlot).slot.currentLink = some l' := hl'
    have hp' : (chooseLink cfg l s.disarm.enterSlot).slot.currentPacket = some p := hp
    simp only [beginSlot, runSlot, hl'', hp', Option.isSome_some, if_true]
    rfl
  refine ⟨⟨l', p, n, hl', hp, hn, hrun⟩, ?_⟩
  intro hroom hqb hready hprep
  obtain ⟨hdeq, -, hpackets⟩ := onLink_frame cfg l s
  obtain ⟨b, o, c, hch⟩ := setChannel_spec cfg l' (onLink cfg l s)
  have hp'' : (setChannel cfg l' (onLink cfg l s)).slot.currentPacket = some p := by
    rw [hch]
    exact hp
  have hn'' : (setChannel cfg l' (onLink cfg l s)).slot.currentNeighbor = some n := by
    rw [hch]
    exact hn
  have hroom' : (setChannel cfg l' (onLink cfg l s)).slot.dequeuedRingbuf.length <
      cfg.dequeuedRingbufCapacity := by
    rw [hch]
    show (onLink cfg l s).slot.dequeuedRingbuf.length < cfg.dequeuedRingbufCapacity
    rw [hdeq]
    exact hroom
  have hqb' : ((setChannel cfg l' (onLink cfg l s)).queue.packets p).hasQueuebuf = true := by
    rw [hch]
    show ((onLink cfg l s).queue.packets p).hasQueuebuf = true
    rw [hpackets]
    exact hqb p hp
  have hready' : packetReady i (setChannel cfg l' (onLink cfg l s)) = true := by
    simp only [packetReady, hready, ite_self]
  obtain ⟨s', hs', htx⟩ := (txSlotBegin_inTx hp'' hn'').mpr ⟨hroom', hqb', hready', hprep⟩
  exact ⟨s', hrun.trans hs', htx⟩

theorem receiveSlot {i : SlotInput} {s : TschState} {l l' : Nat}
    (hstep : slotStep cfg i s = beginSlot cfg l i s.disarm)
    (hl' : (onLink cfg l s).slot.currentLink = some l')
    (hp : (onLink cfg l s).slot.currentPacket = none) (hrx : (s.link l').linkOptions.rx = true) :
    ReceiveSlot cfg i l l' s := by
  have hsched : (onLink cfg l s).sched = s.sched :=
    sched_of_owned (chooseLink_owned l s.disarm.enterSlot)
  have hrun : slotStep cfg i s = rxSlotBegin cfg i (setChannel cfg l' (onLink cfg l s)) := by
    rw [hstep]
    have hl'' : (chooseLink cfg l s.disarm.enterSlot).slot.currentLink = some l' := hl'
    have hp' : (chooseLink cfg l s.disarm.enterSlot).slot.currentPacket = none := hp
    have hrx' : ((chooseLink cfg l s.disarm.enterSlot).link l').linkOptions.rx = true := by
      show ((onLink cfg l s).sched.links l').linkOptions.rx = true
      rw [hsched]
      exact hrx
    simp only [beginSlot, runSlot, hl'', hp', Option.isSome_none, hrx', Bool.false_eq_true, if_false,
      if_true]
    rfl
  refine ⟨hrun, ?_⟩
  intro hroom
  obtain ⟨-, hin, -⟩ := onLink_frame cfg l s
  obtain ⟨b, o, c, hch⟩ := setChannel_spec cfg l' (onLink cfg l s)
  rw [hrun, hch]
  have hroom' : (onLink cfg l s).slot.inputRingbuf.length < cfg.inputRingbufCapacity := by
    rw [hin]
    exact hroom
  simp only [rxSlotBegin, if_pos hroom']
  exact ⟨_, rfl, rfl, hl'⟩

theorem doSkipBestLink_none {l : Nat} {s : TschState} (h : doSkipBestLink l s = none)
    (hp : s.slot.currentPacket = none) :
    s.slot.backupLink = none ∨ (s.link l).linkOptions.rx = true := by
  simp only [doSkipBestLink, if_pos hp] at h
  split at h
  · split at h
    · cases h
    · rename_i hskip
      simp only [Bool.or_eq_true, not_or, Bool.not_eq_true', Bool.not_eq_false] at hskip
      exact .inr hskip.1
  · rename_i hb
    exact .inl hb

/-- **No reception is lost to overlap.**  If a link with the Rx option is due in
the slot that was selected, the slot runs `tsch_tx_slot` with a packet, or
`tsch_rx_slot` on an installed link with the Rx option that is due. -/
theorem reception_opportunity {a s : TschState} (hsel : Selected a s)
    (hfit : s.sched.TimeslotsFit) (hstart : SlotStarts s) (htimer : s.slot.timer.isSome = true)
    {l : Nat} (hl : s.slot.currentLink = some l)
    (hdue : ∃ p, s.sched.Due s.slot.tschCurrentAsn p ∧ (s.link p).linkOptions.rx = true)
    (i : SlotInput) :
    TransmitSlot cfg i l s ∨ ∃ l', s.sched.Due s.slot.tschCurrentAsn l' ∧
      (s.link l').linkOptions.rx = true ∧ ReceiveSlot cfg i l l' s := by
  have hstep : slotStep cfg i s = beginSlot cfg l i s.disarm := slotStep_starts hstart htimer hl i
  have hbest := hsel.current.symm.trans hl
  have hasn : s.slot.tschCurrentAsn = a.slot.tschCurrentAsn +
      (tschScheduleGetNextActiveLink a a.slot.tschCurrentAsn).timeToCurrBest := by
    rw [hsel.asn, timeslotDiff, hbest, Option.isSome_some, if_pos rfl]
  obtain ⟨hduel, hbackup, hkept⟩ := nextActiveLink_due hsel.free (hsel.sched ▸ hfit)
    a.slot.tschCurrentAsn hbest
  rw [← hasn, ← hsel.sched] at hduel hbackup hkept
  have hlink : ∀ q, a.link q = s.link q := by
    intro q
    show a.sched.links q = s.sched.links q
    rw [hsel.sched]
  rw [← hsel.backup] at hbackup hkept
  simp only [hlink] at hbackup hkept
  cases hp : (onLink cfg l s).slot.currentPacket with
  | some p =>
      rcases chooseLink_link cfg l s.disarm.enterSlot with ⟨hcur, -⟩ | ⟨b, -, -, hcur, -⟩
      · exact .inl (transmitSlot hstep (hcur.trans hl) hp)
      · exact .inl (transmitSlot hstep hcur hp)
  | none =>
      right
      cases hskip : doSkipBestLink l (getCurrentPacket l s.disarm.enterSlot) with
      | some b =>
          -- the backup
          obtain ⟨hb, -⟩ := doSkipBestLink_some hskip
          obtain ⟨hdueb, hrxb⟩ := hbackup b hb
          have hcur : (onLink cfg l s).slot.currentLink = some b := by
            simp only [onLink, chooseLink, hskip]
            rfl
          exact ⟨b, hdueb, hrxb, receiveSlot hstep hcur hp hrxb⟩
      | none =>
          -- the best link
          have heq : onLink cfg l s = getCurrentPacket l s.disarm.enterSlot := by
            simp only [onLink, chooseLink, hskip]
          have hcur : (onLink cfg l s).slot.currentLink = some l := by
            rw [heq]
            exact hl
          have hrxl : (s.link l).linkOptions.rx = true := by
            rw [heq] at hp
            rcases doSkipBestLink_none hskip hp with hnone | hrx
            · obtain ⟨p, hduep, hrxp⟩ := hdue
              have hnone : s.slot.backupLink = none := hnone
              rcases hkept p hduep hrxp with rfl | hsome
              · exact hrxp
              · rw [hnone] at hsome
                cases hsome
            · exact hrx
          exact ⟨l, hduel, hrxl, receiveSlot hstep hcur hp hrxl⟩

/-! ## Two overlapping links -/

/-- The schedule `overlapping`, then the packets that are queued. -/
def overlapped (cfg : Config) (packets : List LinkAddr) : TschState :=
  match (do
    Prog.forEach overlapping (makeCall cfg (fun _ _ _ => true) 3)
    Prog.forEach packets fun a => do
      let _ ← tschQueueAddPacket cfg a 3 0 0 true).exec ((TschState.boot cfg).joined 0) with
  | some (_, s) => s
  | none => TschState.boot cfg

/-- The next slot after `s`, selected and waited for. -/
def nextSlot (cfg : Config) (s : TschState) : TschState := (endOfSlot cfg (.quiet 0) s).getD s

/-- Nothing is queued for the Tx link, and the slot listens on the Rx link. -/
theorem reception_opportunity_backup :
    TransmitSlot (smallBuild 8) (.quiet 328) 0 (nextSlot (smallBuild 8) (overlapped (smallBuild 8) []))
      ∨ ∃ l', (nextSlot (smallBuild 8) (overlapped (smallBuild 8) [])).sched.Due 1 l' ∧
        ((nextSlot (smallBuild 8) (overlapped (smallBuild 8) [])).link l').linkOptions.rx = true ∧
        ReceiveSlot (smallBuild 8) (.quiet 328) 0 l'
          (nextSlot (smallBuild 8) (overlapped (smallBuild 8) [])) := by
  obtain ⟨s, hs⟩ : ∃ s, endOfSlot (smallBuild 8) (.quiet 0) (overlapped (smallBuild 8) []) = some s :=
    Option.isSome_iff_exists.mp (by decide +kernel)
  have hnext : nextSlot (smallBuild 8) (overlapped (smallBuild 8) []) = s := by
    rw [nextSlot, hs]
    rfl
  have hassoc : (nextSlot (smallBuild 8) (overlapped (smallBuild 8) [])).slot.tschIsAssociated =
      true := by decide +kernel
  rcases selected_endOfSlot (by decide +kernel) (by decide +kernel) hs with hleft | ⟨a, ha⟩
  · rw [hnext, hleft] at hassoc
    cases hassoc
  · rw [← hnext] at ha
    exact reception_opportunity ha (by decide +kernel)
      ⟨by decide +kernel, hassoc, by decide +kernel, by decide +kernel⟩ (by decide +kernel)
      (by decide +kernel) ⟨1, by decide +kernel, by decide +kernel⟩ (.quiet 328)

/-- A build with as many packets as entries in `dequeued_array`, one of which a
ring leaves unused. -/
def tightBuild : Config :=
  { smallBuild 8 with
    queuebufNum := 8
    dequeuedRingbufCapacity := 7 }

/-- Seven packets have left the queue of neighbor 6 and wait in the dequeued ring;
the eighth is queued for the Tx link. -/
def ringFull : TschState :=
  let s := overlapped tightBuild [6, 6, 6, 6, 6, 6, 6, 5]
  { s.modifyNeighbor 6 (fun e => { e with txRingbuf := [] }) with
    slot := { s.slot with dequeuedRingbuf := (s.queue.neighbors 6).txRingbuf } }

/-- The Rx link is due, and the slot neither transmits nor listens: it goes to the
Tx link for its packet, and the packet stays where it is. -/
theorem lost_to_full_ring :
    ∃ a s l, Selected a s ∧ s.sched.TimeslotsFit ∧ SlotStarts s ∧ s.lock.tschLocked = false ∧
      s.slot.burstLinkScheduled = false ∧ s.slot.timer.isSome = true ∧
      s.slot.currentLink = some l ∧
      (∃ p, s.sched.Due s.slot.tschCurrentAsn p ∧ (s.link p).linkOptions.rx = true) ∧
      ∃ s', slotStep tightBuild (.quiet 328) s = some s' ∧ s'.slot.pc = .asleep ∧
        (s'.queue.neighbors 5).txRingbuf = (s.queue.neighbors 5).txRingbuf := by
  obtain ⟨s, hs⟩ : ∃ s, endOfSlot tightBuild (.quiet 0) ringFull = some s :=
    Option.isSome_iff_exists.mp (by decide +kernel)
  have hnext : nextSlot tightBuild ringFull = s := by
    rw [nextSlot, hs]
    rfl
  have hassoc : (nextSlot tightBuild ringFull).slot.tschIsAssociated = true := by decide +kernel
  obtain ⟨s', hs'⟩ : ∃ s', slotStep tightBuild (.quiet 328) (nextSlot tightBuild ringFull) = some s' :=
    Option.isSome_iff_exists.mp (by decide +kernel)
  have hend : ((slotStep tightBuild (.quiet 328) (nextSlot tightBuild ringFull)).any fun t =>
      decide (t.slot.pc = .asleep ∧ (t.queue.neighbors 5).txRingbuf =
        ((nextSlot tightBuild ringFull).queue.neighbors 5).txRingbuf)) = true := by decide +kernel
  rcases selected_endOfSlot (by decide +kernel) (by decide +kernel) hs with hleft | ⟨a, ha⟩
  · rw [hnext, hleft] at hassoc
    cases hassoc
  · rw [← hnext] at ha
    rw [hs', Option.any_some, decide_eq_true_eq] at hend
    exact ⟨a, nextSlot tightBuild ringFull, 0, ha, by decide +kernel,
      ⟨by decide +kernel, hassoc, by decide +kernel, by decide +kernel⟩, by decide +kernel,
      by decide +kernel, by decide +kernel, by decide +kernel,
      ⟨1, by decide +kernel, by decide +kernel⟩, s', hs', hend.1, hend.2⟩

end QlTsch
