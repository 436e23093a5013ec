/-
# `QlTsch.BackupLink` — a link that is its own backup

`tsch_schedule_get_next_active_link` offers a link as the backup when it loses to the
best one, and the best one when it is displaced: that is, when `new_best` is another
link.  But `new_best` is also another, `NULL`, when the best link stays because it
differs from `l` in Tx or in slotframe.  The best link is then offered as a backup for
itself, and if no link before that and none after it has a lower slotframe handle,
it is returned as `*backup_link` beside itself.

All other links with the Rx option are offered once they have lost, so that the backup
is as it should be whenever it is not the best link (`BackupOf`), and
`backup_genuine_iff` says which links, in which order, bring about the one case in
which it is.
-/
import QlTsch.NextLinkChoice

namespace QlTsch

open Interleave ScheduleVars

/-! ## The specification -/

/-- The backup is a genuine alternative: there is one if and only if another link with
the Rx option is due, and it is such a link, of the lowest slotframe. -/
def BackupGenuine (s : TschState) (asn : Nat) : Prop :=
  ((tschScheduleGetNextActiveLink s asn).currBackup = none ↔
    ∀ x ∈ s.sched.dueLinks (asn + (tschScheduleGetNextActiveLink s asn).timeToCurrBest),
      (tschScheduleGetNextActiveLink s asn).currBest ≠ some x.2 →
      (s.link x.2).linkOptions.rx = false) ∧
  ∀ q, (tschScheduleGetNextActiveLink s asn).currBackup = some q →
    (tschScheduleGetNextActiveLink s asn).currBest ≠ some q ∧
    (s.link q).linkOptions.rx = true ∧
    ∃ c, (c, q) ∈ s.sched.dueLinks (asn + (tschScheduleGetNextActiveLink s asn).timeToCurrBest) ∧
      ∀ x ∈ s.sched.dueLinks (asn + (tschScheduleGetNextActiveLink s asn).timeToCurrBest),
        (tschScheduleGetNextActiveLink s asn).currBest ≠ some x.2 →
        (s.link x.2).linkOptions.rx = true → (s.slotframe c).handle ≤ (s.slotframe x.1).handle

/-- The links that are due make the best of them, `x`, its own backup: it can receive, and
after it comes a link `y` that differs from it in Tx or in slotframe, where of the
links that can receive all others up to `y` are of a higher slotframe than `x`, and
none after `y` is of a lower one. -/
def OffersItself (s : TschState) (due : List (Nat × Nat)) (x : Nat × Nat) : Prop :=
  (s.link x.2).linkOptions.rx = true ∧ ∃ upTo y after, due = upTo ++ y :: after ∧ x ∈ upTo ∧
    ¬ ((s.link x.2).linkOptions.tx = (s.link y.2).linkOptions.tx ∧ x.1 = y.1) ∧
    (∀ z ∈ upTo ++ [y], z ≠ x → (s.link z.2).linkOptions.rx = true →
      (s.slotframe x.1).handle < (s.slotframe z.1).handle) ∧
    ∀ z ∈ after, (s.link z.2).linkOptions.rx = true →
      (s.slotframe x.1).handle ≤ (s.slotframe z.1).handle

/-! ## Offering a link -/

section
variable {s : TschState} {sel k : Option Nat} {p q : Nat}

theorem offerBackup_selected : offerBackup s (some p) p k = k := by
  simp only [offerBackup, ne_eq, not_true_eq_false, false_and, if_false]

/-- A link that is not selected is offered, whatever is selected. -/
theorem offerBackup_of_ne (h : sel ≠ some p) : offerBackup s sel p k = offerBackup s none p k := by
  simp only [offerBackup, ne_eq, h, not_false_eq_true, reduceCtorEq, true_and]

theorem offerBackup_eq_none : offerBackup s none p k = none ↔
    k = none ∧ (s.link p).linkOptions.rx = false := by
  cases hrx : (s.link p).linkOptions.rx with
  | false => simp [offerBackup, hrx]
  | true =>
      cases k with
      | none => simp [offerBackup, hrx]
      | some r =>
          simp only [offerBackup, hrx, ne_eq, reduceCtorEq, not_false_eq_true, true_and, if_true]
          split <;> simp

theorem offerBackup_eq_some : offerBackup s none p k = some q ↔
    ((s.link p).linkOptions.rx = true ∧ q = p ∧
        ∀ r, k = some r → (s.link p).slotframeHandle < (s.link r).slotframeHandle) ∨
      k = some q ∧ ((s.link p).linkOptions.rx = true →
        (s.link q).slotframeHandle ≤ (s.link p).slotframeHandle) := by
  cases hrx : (s.link p).linkOptions.rx with
  | false => simp [offerBackup, hrx]
  | true =>
      cases k with
      | none => simp [offerBackup, hrx, eq_comm]
      | some r =>
          simp only [offerBackup, hrx, ne_eq, reduceCtorEq, not_false_eq_true, true_and, if_true,
            Option.some.injEq, forall_const, forall_eq']
          by_cases hlt : (s.link p).slotframeHandle < (s.link r).slotframeHandle
          · simp only [hlt, if_true, Option.some.injEq, and_true]
            constructor
            · rintro rfl
              exact .inl rfl
            · rintro (rfl | ⟨rfl, hle⟩)
              · rfl
              · omega
          · simp only [hlt, if_false, Option.some.injEq, and_false, false_or]
            constructor
            · rintro rfl
              exact ⟨rfl, not_lt.mp hlt⟩
            · rintro ⟨rfl, -⟩
              rfl

end

/-- `k` is a link with the Rx option that is not above any of the links in `P`. -/
structure LowestRx (s : TschState) (P : Nat → Prop) (k : Option Nat) : Prop where
  empty : k = none → ∀ p, P p → (s.link p).linkOptions.rx = false
  rx : ∀ q, k = some q → (s.link q).linkOptions.rx = true
  le : ∀ q, k = some q → ∀ p, P p → (s.link p).linkOptions.rx = true →
    (s.link q).slotframeHandle ≤ (s.link p).slotframeHandle

namespace LowestRx

variable {s : TschState} {P Q : Nat → Prop} {k : Option Nat} {p : Nat}

theorem mono (h : LowestRx s P k) (hQ : ∀ p, Q p → P p) : LowestRx s Q k :=
  ⟨fun hk p hp => h.empty hk p (hQ p hp), h.rx, fun q hq p hp => h.le q hq p (hQ p hp)⟩

theorem offer (h : LowestRx s P k) (p : Nat) :
    LowestRx s (fun r => P r ∨ r = p) (offerBackup s none p k) := by
  refine ⟨?_, ?_, ?_⟩
  · intro hk r hr
    obtain ⟨hknone, hrx⟩ := offerBackup_eq_none.mp hk
    rcases hr with hr | rfl
    · exact h.empty hknone r hr
    · exact hrx
  · intro q hq
    rcases offerBackup_eq_some.mp hq with ⟨hrx, rfl, -⟩ | ⟨hk, -⟩
    · exact hrx
    · exact h.rx q hk
  · intro q hq r hr hrx
    rcases offerBackup_eq_some.mp hq with ⟨hprx, rfl, hlt⟩ | ⟨hk, hle⟩
    · -- the offered link is taken
      rcases hr with hr | rfl
      · cases k with
        | none => rw [h.empty rfl r hr] at hrx; cases hrx
        | some t => exact (hlt t rfl).le.trans (h.le t rfl r hr hrx)
      · exact le_rfl
    · rcases hr with hr | rfl
      · exact h.le q hk r hr hrx
      · exact hle hrx

end LowestRx

/-! ## The links of one slot -/

/-- `OffersItself` for the links alone, with the handles they carry. -/
def SelfOffer (s : TschState) (ls : List Nat) (b : Nat) : Prop :=
  (s.link b).linkOptions.rx = true ∧ ∃ upTo p after, ls = upTo ++ p :: after ∧ b ∈ upTo ∧
    ¬ Alike s b p ∧
    (∀ q ∈ upTo ++ [p], q ≠ b → (s.link q).linkOptions.rx = true →
      (s.link b).slotframeHandle < (s.link q).slotframeHandle) ∧
    ∀ q ∈ after, (s.link q).linkOptions.rx = true →
      (s.link b).slotframeHandle ≤ (s.link q).slotframeHandle

theorem SelfOffer.mem {s : TschState} {ls : List Nat} {b : Nat} (h : SelfOffer s ls b) : b ∈ ls := by
  obtain ⟨-, upTo, p, after, rfl, hb, -⟩ := h
  exact List.mem_append_left _ hb

/-- One link more: it comes after an offer that stands, or it is the reason for one. -/
theorem selfOffer_concat {s : TschState} {ls : List Nat} {b p : Nat} : SelfOffer s (ls ++ [p]) b ↔
    (SelfOffer s ls b ∧ ((s.link p).linkOptions.rx = true →
      (s.link b).slotframeHandle ≤ (s.link p).slotframeHandle)) ∨
    ((s.link b).linkOptions.rx = true ∧ b ∈ ls ∧ ¬ Alike s b p ∧
      ∀ q ∈ ls ++ [p], q ≠ b → (s.link q).linkOptions.rx = true →
        (s.link b).slotframeHandle < (s.link q).slotframeHandle) := by
  constructor
  · rintro ⟨hrx, upTo, y, after, hls, hb, hy, hlt, hle⟩
    rcases List.eq_nil_or_concat after with rfl | ⟨after, z, rfl⟩
    · obtain ⟨rfl, hpy⟩ := List.append_inj' hls rfl
      obtain rfl : p = y := by simpa using hpy
      exact .inr ⟨hrx, hb, hy, hlt⟩
    · rw [List.concat_eq_append] at hls hle
      have hls : ls ++ [p] = (upTo ++ y :: after) ++ [z] := by simpa using hls
      obtain ⟨rfl, hpz⟩ := List.append_inj' hls rfl
      obtain rfl : p = z := by simpa using hpz
      refine .inl ⟨⟨hrx, upTo, y, after, rfl, hb, hy, hlt, ?_⟩, ?_⟩
      · intro q hq
        exact hle q (List.mem_append_left _ hq)
      · exact hle p (List.mem_append_right _ List.mem_cons_self)
  · rintro (⟨⟨hrx, upTo, y, after, rfl, hb, hy, hlt, hle⟩, hp⟩ | ⟨hrx, hb, hy, hlt⟩)
    · refine ⟨hrx, upTo, y, after ++ [p], by simp, hb, hy, hlt, ?_⟩
      intro q hq
      rcases List.mem_append.mp hq with hq | hq
      · exact hle q hq
      · rw [List.mem_singleton.mp hq]
        exact hp
    · refine ⟨hrx, ls, p, [], rfl, hb, hy, hlt, ?_⟩
      intro q hq
      cases hq

/-- The best link `b` of `ls` and the backup `k`: the links other than `b` have all
been offered, and `b` is its own backup in the case of `SelfOffer`. -/
structure BackupOf (s : TschState) (ls : List Nat) (b : Nat) (k : Option Nat) : Prop where
  best : b ∈ ls
  mem : ∀ q, k = some q → q ∈ ls
  lowest : LowestRx s (fun q => q ∈ ls ∧ q ≠ b) k
  self : k = some b ↔ SelfOffer s ls b

namespace BackupOf

variable {s : TschState} {ls : List Nat} {b p : Nat} {k : Option Nat}

theorem singleton (s : TschState) (p : Nat) : BackupOf s [p] p none := by
  refine ⟨List.mem_cons_self, ?_, ⟨?_, ?_, ?_⟩, ?_⟩
  · intro q hq
    cases hq
  · rintro - q ⟨hq, hne⟩
    exact absurd (List.mem_singleton.mp hq) hne
  · intro q hq
    cases hq
  · intro q hq
    cases hq
  · constructor
    · intro h
      cases h
    · intro h
      have h : SelfOffer s ([] ++ [p]) p := h
      rcases selfOffer_concat.mp h with ⟨h, -⟩ | ⟨-, h, -⟩
      · exact absurd h.mem List.not_mem_nil
      · exact absurd h List.not_mem_nil

theorem mem_offer (h : BackupOf s ls b k) {q r : Nat} (hr : r ∈ ls ++ [p])
    (hq : offerBackup s none r k = some q) : q ∈ ls ++ [p] := by
  rcases offerBackup_eq_some.mp hq with ⟨-, rfl, -⟩ | ⟨hk, -⟩
  · exact hr
  · exact List.mem_append_left _ (h.mem q hk)

theorem displace (h : BackupOf s ls b k) (hp : p ∉ ls) :
    BackupOf s (ls ++ [p]) p (offerBackup s none b k) := by
  refine ⟨List.mem_append_right _ List.mem_cons_self, ?_, ?_, ?_⟩
  · intro q hq
    exact h.mem_offer (List.mem_append_left _ h.best) hq
  · refine (h.lowest.offer b).mono ?_
    rintro q ⟨hq, hne⟩
    rcases List.mem_append.mp hq with hq | hq
    · by_cases hqb : q = b
      · exact .inr hqb
      · exact .inl ⟨hq, hqb⟩
    · exact absurd (List.mem_singleton.mp hq) hne
  · constructor
    · intro hk
      rcases offerBackup_eq_some.mp hk with ⟨-, rfl, -⟩ | ⟨hk, -⟩
      · exact absurd h.best hp
      · exact absurd (h.mem p hk) hp
    · intro hs
      rcases selfOffer_concat.mp hs with ⟨hs, -⟩ | ⟨-, hs, -⟩
      · exact absurd hs.mem hp
      · exact absurd hs hp

/-- What holds of the offer of a link that lost. -/
theorem lowest_offer (h : BackupOf s ls b k) :
    LowestRx s (fun q => q ∈ ls ++ [p] ∧ q ≠ b) (offerBackup s none p k) := by
  refine (h.lowest.offer p).mono ?_
  rintro q ⟨hq, hne⟩
  rcases List.mem_append.mp hq with hq | hq
  · exact .inl ⟨hq, hne⟩
  · exact .inr (List.mem_singleton.mp hq)

theorem self_offer (h : BackupOf s ls b k) (hne : b ≠ p) : offerBackup s none p k = some b ↔
    SelfOffer s ls b ∧ ((s.link p).linkOptions.rx = true →
      (s.link b).slotframeHandle ≤ (s.link p).slotframeHandle) := by
  simp only [offerBackup_eq_some, hne, false_and, and_false, false_or, h.self]

theorem keep (h : BackupOf s ls b k) (hp : p ∉ ls) (halike : Alike s b p) :
    BackupOf s (ls ++ [p]) b (offerBackup s none p k) := by
  refine ⟨List.mem_append_left _ h.best, ?_, h.lowest_offer, ?_⟩
  · intro q hq
    exact h.mem_offer (List.mem_append_right _ List.mem_cons_self) hq
  · have hne : b ≠ p := fun hbp => hp (hbp ▸ h.best)
    rw [h.self_offer hne, selfOffer_concat]
    simp only [halike, not_true_eq_false, false_and, and_false, or_false]

theorem stay (h : BackupOf s ls b k) (hp : p ∉ ls) (hunlike : ¬ Alike s b p) :
    BackupOf s (ls ++ [p]) b (offerBackup s none b (offerBackup s none p k)) := by
  have hne : b ≠ p := fun hbp => hp (hbp ▸ h.best)
  have hlow : LowestRx s (fun q => q ∈ ls ++ [p] ∧ q ≠ b) (offerBackup s none p k) := h.lowest_offer
  have hmem : ∀ q, offerBackup s none p k = some q → q ∈ ls ++ [p] := by
    intro q hq
    exact h.mem_offer (List.mem_append_right _ List.mem_cons_self) hq
  refine ⟨List.mem_append_left _ h.best, ?_, (hlow.offer b).mono fun q => .inl, ?_⟩
  · intro q hq
    rcases offerBackup_eq_some.mp hq with ⟨-, rfl, -⟩ | ⟨hq, -⟩
    · exact List.mem_append_left _ h.best
    · exact hmem q hq
  · rw [offerBackup_eq_some, selfOffer_concat, ← h.self_offer hne]
    simp only [le_refl, implies_true, and_true, true_and]
    constructor
    · rintro (⟨hrx, hlt⟩ | hself)
      · right
        refine ⟨hrx, h.best, hunlike, ?_⟩
        intro q hq hqb hqrx
        cases hk : offerBackup s none p k with
        | none =>
            rw [hlow.empty hk q ⟨hq, hqb⟩] at hqrx
            cases hqrx
        | some r => exact (hlt r hk).trans_le (hlow.le r hk q ⟨hq, hqb⟩ hqrx)
      · exact .inl hself
    · rintro (hself | ⟨hrx, -, -, hlt⟩)
      · exact .inr hself
      · by_cases hself : offerBackup s none p k = some b
        · exact .inr hself
        · left
          refine ⟨hrx, ?_⟩
          intro r hr
          have hrb : r ≠ b := fun hrb => hself (hrb ▸ hr)
          exact hlt r (hmem r hr) hrb (hlow.rx r hr)

theorem overlap (h : BackupOf s ls b k) (hp : p ∉ ls) :
    BackupOf s (ls ++ [p]) (overlap s (b, k) p).1 (overlap s (b, k) p).2 := by
  have hne : b ≠ p := fun hbp => hp (hbp ▸ h.best)
  simp only [QlTsch.overlap, newBest_eq]
  by_cases hlt : linkRank s p < linkRank s b
  · have hsel : some p ≠ some b := fun hpb => hne (Option.some.inj hpb).symm
    simp only [if_pos hlt, Option.getD_some, offerBackup_selected, offerBackup_of_ne hsel]
    exact h.displace hp
  · by_cases halike : Alike s b p
    · have hsel : some b ≠ some p := fun hbp => hne (Option.some.inj hbp)
      simp only [if_neg hlt, if_pos halike, Option.getD_some, offerBackup_selected,
        offerBackup_of_ne hsel]
      exact h.keep hp halike
    · simp only [if_neg hlt, if_neg halike, Option.getD_none]
      exact h.stay hp halike

end BackupOf

theorem backupOf_choice {s : TschState} {ls : List Nat} (hn : ls.Nodup) {b : Nat} {k : Option Nat}
    (h : choice s ls = some (b, k)) : BackupOf s ls b k := by
  induction ls using List.reverseRecOn generalizing b k with
  | nil => cases h
  | append_singleton ls p ih =>
      obtain ⟨hn, -, hp⟩ := List.nodup_append.mp hn
      have hp : p ∉ ls := fun hmem => hp p hmem p List.mem_cons_self rfl
      cases hls : choice s ls with
      | none =>
          cases ls with
          | nil =>
              cases h
              exact BackupOf.singleton s p
          | cons q ls => cases hls
      | some r =>
          have hchoice : choice s (ls ++ [p]) = some (QlTsch.overlap s r p) := collect_concat hls p
          rw [hchoice] at h
          have hstep := (ih hn hls).overlap hp
          rw [Option.some.inj h] at hstep
          exact hstep

/-! ## The backup -/

/-- The two forms of the case, for the best of the links that are due. -/
theorem offersItself_iff {s : TschState} (hwf : s.sched.WellFormed) {asn : Nat} {x : Nat × Nat}
    (hx : x ∈ s.sched.dueLinks asn) : OffersItself s (s.sched.dueLinks asn) x ↔
      SelfOffer s ((s.sched.dueLinks asn).map Prod.snd) x.2 := by
  have hhandle : ∀ z ∈ s.sched.dueLinks asn,
      (s.link z.2).slotframeHandle = (s.slotframe z.1).handle := by
    intro z hz
    obtain ⟨hb, hp, -⟩ := mem_dueLinks.mp hz
    exact hwf.slotframeHandle z.1 hb z.2 hp
  have halike : ∀ z ∈ s.sched.dueLinks asn, Alike s x.2 z.2 ↔
      (s.link x.2).linkOptions.tx = (s.link z.2).linkOptions.tx ∧ x.1 = z.1 := by
    intro z hz
    rw [Alike, hhandle x hx, hhandle z hz]
    refine and_congr_right fun _ => ⟨?_, fun h => by rw [h]⟩
    exact hwf.handles x.1 (mem_dueLinks.mp hx).1 z.1 (mem_dueLinks.mp hz).1
  constructor
  · rintro ⟨hrx, upTo, y, after, hdue, hxu, hy, hlt, hle⟩
    have hmem : ∀ z ∈ upTo ++ y :: after, z ∈ s.sched.dueLinks asn := fun z hz => hdue ▸ hz
    have hmap : (s.sched.dueLinks asn).map Prod.snd =
        upTo.map Prod.snd ++ y.2 :: after.map Prod.snd := by
      rw [hdue, List.map_append, List.map_cons]
    refine ⟨hrx, _, y.2, _, hmap, List.mem_map_of_mem hxu, ?_, ?_, ?_⟩
    · rw [halike y (hmem y (List.mem_append_right _ List.mem_cons_self))]
      exact hy
    · intro q hq hne hqrx
      rw [← List.map_singleton, ← List.map_append] at hq
      obtain ⟨z, hz, rfl⟩ := List.mem_map.mp hq
      have hzmem : z ∈ s.sched.dueLinks asn := by
        refine hmem z ?_
        rw [← List.singleton_append, ← List.append_assoc]
        exact List.mem_append_left _ hz
      rw [hhandle x hx, hhandle z hzmem]
      exact hlt z hz (fun h => hne (congrArg Prod.snd h)) hqrx
    · intro q hq hqrx
      obtain ⟨z, hz, rfl⟩ := List.mem_map.mp hq
      rw [hhandle x hx, hhandle z (hmem z (List.mem_append_right _ (List.mem_cons_of_mem _ hz)))]
      exact hle z hz hqrx
  · rintro ⟨hrx, l₁, p, l₂, hsplit, hxu, hp, hlt, hle⟩
    obtain ⟨upTo, rest, hdue, rfl, hrest⟩ := List.map_eq_append_iff.mp hsplit
    obtain ⟨y, after, rfl, rfl, rfl⟩ := List.map_eq_cons_iff.mp hrest
    have hmem : ∀ z ∈ upTo ++ y :: after, z ∈ s.sched.dueLinks asn := fun z hz => hdue ▸ hz
    have hyu := hmem y (List.mem_append_right _ List.mem_cons_self)
    refine ⟨hrx, upTo, y, after, hdue, ?_, ?_, ?_, ?_⟩
    · obtain ⟨z, hz, hzx⟩ := List.mem_map.mp hxu
      exact eq_of_mem_dueLinks hwf (hmem z (List.mem_append_left _ hz)) hx hzx ▸ hz
    · rw [← halike y hyu]
      exact hp
    · intro z hz hne hzrx
      have hzmem : z ∈ s.sched.dueLinks asn := by
        refine hmem z ?_
        rw [← List.singleton_append, ← List.append_assoc]
        exact List.mem_append_left _ hz
      rw [← hhandle x hx, ← hhandle z hzmem]
      refine hlt z.2 ?_ (fun h => hne (eq_of_mem_dueLinks hwf hzmem hx h)) hzrx
      rw [← List.map_singleton, ← List.map_append]
      exact List.mem_map_of_mem hz
    · intro z hz hzrx
      rw [← hhandle x hx, ← hhandle z (hmem z (List.mem_append_right _ (List.mem_cons_of_mem _ hz)))]
      exact hle z.2 (List.mem_map_of_mem hz) hzrx

section
variable {s : TschState} (hfree : s.lock.tschLocked = false) (hwf : s.sched.WellFormed)
  (hfit : s.sched.TimeslotsFit) {asn : Nat}
include hfree hwf hfit

theorem backupOf_nextActiveLink {l : Nat}
    (hl : (tschScheduleGetNextActiveLink s asn).currBest = some l) :
    BackupOf s ((s.sched.dueLinks
        (asn + (tschScheduleGetNextActiveLink s asn).timeToCurrBest)).map Prod.snd) l
      (tschScheduleGetNextActiveLink s asn).currBackup := by
  obtain ⟨-, -, hchoice⟩ := (nextActiveLink_choice hfree hfit asn).2 l hl
  exact backupOf_choice (nodup_dueLinks hwf _) hchoice

/-- The backup is a genuine alternative unless it is the best link. -/
theorem backupGenuine_iff_ne {l : Nat}
    (hl : (tschScheduleGetNextActiveLink s asn).currBest = some l) :
    BackupGenuine s asn ↔ (tschScheduleGetNextActiveLink s asn).currBackup ≠ some l := by
  have h := backupOf_nextActiveLink hfree hwf hfit hl
  simp only [BackupGenuine, hl, ne_eq, Option.some.injEq]
  generalize tschScheduleGetNextActiveLink s asn = r at h ⊢
  have hmem : ∀ x ∈ s.sched.dueLinks (asn + r.timeToCurrBest),
      x.2 ∈ (s.sched.dueLinks (asn + r.timeToCurrBest)).map Prod.snd :=
    fun x hx => List.mem_map_of_mem hx
  have hhandle : ∀ z ∈ s.sched.dueLinks (asn + r.timeToCurrBest),
      (s.link z.2).slotframeHandle = (s.slotframe z.1).handle := by
    intro z hz
    obtain ⟨hb, hp, -⟩ := mem_dueLinks.mp hz
    exact hwf.slotframeHandle z.1 hb z.2 hp
  constructor
  · rintro ⟨-, hgenuine⟩ hself
    exact (hgenuine l hself).1 rfl
  · intro hself
    have hne : ∀ q, r.currBackup = some q → l ≠ q := fun q hq h => hself (h ▸ hq)
    refine ⟨⟨?_, ?_⟩, ?_⟩
    · intro hnone x hx hxl
      exact h.lowest.empty hnone x.2 ⟨hmem x hx, fun h => hxl h.symm⟩
    · intro hnorx
      cases hk : r.currBackup with
      | none => rfl
      | some q =>
          obtain ⟨x, hx, rfl⟩ := List.mem_map.mp (h.mem q hk)
          have hrx := h.lowest.rx x.2 hk
          rw [hnorx x hx (hne x.2 hk)] at hrx
          cases hrx
    · intro q hq
      obtain ⟨x, hx, rfl⟩ := List.mem_map.mp (h.mem q hq)
      refine ⟨hne x.2 hq, h.lowest.rx x.2 hq, x.1, hx, ?_⟩
      intro y hy hyl hyrx
      rw [← hhandle x hx, ← hhandle y hy]
      exact h.lowest.le x.2 hq y.2 ⟨hmem y hy, fun h => hyl h.symm⟩ hyrx

/-- **The backup link**, with the lock free, is a genuine alternative if and only if
the links that are due next do not make the best of them its own backup. -/
theorem backup_genuine_iff : BackupGenuine s asn ↔
    ∀ t x, IsLeast {t | 1 ≤ t ∧ ∃ p, s.sched.Due (asn + t) p} t → FirstBest s (asn + t) x →
      ¬ OffersItself s (s.sched.dueLinks (asn + t)) x := by
  cases hbest : (tschScheduleGetNextActiveLink s asn).currBest with
  | none =>
      -- no link is installed
      have hempty := (nextActiveLink_choice hfree hfit asn).1.mp hbest
      have hdue : ∀ t p, ¬ s.sched.Due t p := by
        intro t p hp
        have hmem := Due.mem_allLinks hp
        rw [hempty] at hmem
        cases hmem
      have hnil : ∀ t, s.sched.dueLinks t = [] := by
        intro t
        refine List.eq_nil_iff_forall_not_mem.mpr ?_
        intro x hx
        exact hdue t x.2 (due_iff.mpr ⟨x.1, hx⟩)
      refine iff_of_true ?_ fun t x ht => absurd ht.1.2.choose_spec (hdue _ _)
      have hbackup : (tschScheduleGetNextActiveLink s asn).currBackup = none := by
        cases hk : (tschScheduleGetNextActiveLink s asn).currBackup with
        | none => rfl
        | some q =>
            have hq := ((bestOf_nextActiveLink hfree asn).backup q hk).1
            exact absurd hq ((bestOf_nextActiveLink hfree asn).empty hbest _ q)
      simp [BackupGenuine, hnil, hbackup]
  | some l =>
      have hleast := isLeast_timeToCurrBest hfree hfit hbest
      obtain ⟨b, hb⟩ := firstBest_currBest hfree hwf hfit hbest
      rw [backupGenuine_iff_ne hfree hwf hfit hbest, ne_eq,
        (backupOf_nextActiveLink hfree hwf hfit hbest).self, ← offersItself_iff hwf hb.mem]
      constructor
      · intro hself t x ht hx
        obtain rfl := ht.unique hleast
        have hsame : some x.2 = some l :=
          ((firstBest_iff hwf hx.mem).mp hx).symm.trans ((firstBest_iff hwf hb.mem).mp hb)
        rw [eq_of_mem_dueLinks hwf hx.mem hb.mem (Option.some.inj hsame)]
        exact hself
      · intro h
        exact h _ _ hleast hb

end

/-! ## Overlapping links -/

/-- With the links of `crossing` the best one cannot receive, and the backup is genuine. -/
theorem backup_genuine_crossed : BackupGenuine crossed 5 := by
  have hwf : crossed.sched.WellFormed :=
    ⟨by decide +kernel, by decide +kernel, by decide +kernel, by decide +kernel, by decide +kernel,
      by decide +kernel⟩
  have hfit : crossed.sched.TimeslotsFit := by decide +kernel
  have hfree : crossed.lock.tschLocked = false := by decide +kernel
  have hbest : (tschScheduleGetNextActiveLink crossed 5).currBest = some 1 := by decide +kernel
  have hleast := isLeast_timeToCurrBest hfree hfit hbest
  obtain ⟨b, hb⟩ := firstBest_currBest hfree hwf hfit hbest
  refine (backup_genuine_iff hfree hwf hfit).mpr ?_
  rintro t x ht hx ⟨hrx, -⟩
  obtain rfl := ht.unique hleast
  have hsame : some x.2 = some 1 :=
    ((firstBest_iff hwf hx.mem).mp hx).symm.trans ((firstBest_iff hwf hb.mem).mp hb)
  rw [Option.some.inj hsame] at hrx
  have hnorx : (crossed.link 1).linkOptions.rx = false := by decide +kernel
  rw [hnorx] at hrx
  cases hrx

/-- The schedule as `init_tsch_schedule` sets it up. -/
def qlStart : TschState :=
  match (initTschSchedule (smallBuild 8) 3).exec (TschState.boot (smallBuild 8)) with
  | some (_, s) => s
  | none => TschState.boot (smallBuild 8)

/-- The link of the broadcast slotframe is selected and is its own backup, not the link
of the unicast slotframe that could receive in that slot. -/
theorem own_backup :
    qlStart.lock.tschLocked = false ∧ qlStart.sched.WellFormed ∧ qlStart.sched.TimeslotsFit ∧
      (∃ x ∈ qlStart.sched.dueLinks 7, x.2 ≠ 0 ∧ (qlStart.link x.2).linkOptions.rx = true) ∧
      (tschScheduleGetNextActiveLink qlStart 6).timeToCurrBest = 1 ∧
      (tschScheduleGetNextActiveLink qlStart 6).currBest = some 0 ∧
      (tschScheduleGetNextActiveLink qlStart 6).currBackup = some 0 ∧
      ¬ BackupGenuine qlStart 6 := by
  have hbest : (tschScheduleGetNextActiveLink qlStart 6).currBest = some 0 := by decide +kernel
  have hbackup : (tschScheduleGetNextActiveLink qlStart 6).currBackup = some 0 := by decide +kernel
  refine ⟨by decide +kernel, ?_, by decide +kernel, by decide +kernel, by decide +kernel, hbest,
    hbackup, fun h => (h.2 0 hbackup).1 hbest⟩
  exact ⟨by decide +kernel, by decide +kernel, by decide +kernel, by decide +kernel,
    by decide +kernel, by decide +kernel⟩

end QlTsch
