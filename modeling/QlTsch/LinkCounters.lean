/-
# `QlTsch.LinkCounters` — the link counters of a neighbor

`tx_links_count` and `dedicated_tx_links_count` are kept by increments in
`tsch_schedule_add_link` and decrements in `tsch_schedule_remove_link`, after the
lock is released, each through a lookup of the neighbor.  Neighbors come and go
independently: with packets, with `tsch_queue_add_nbr`, with
`tsch_queue_free_unused_neighbors`.

The two functions do not skip the same links.  An increment is skipped when
the table has no room for the neighbor, a decrement when the neighbor is not in
the table *then*; a link that was never counted in can be counted out.

* `counters_match`: in every run of calls in which each new Tx link finds its
  neighbor in the table or room for it, every counter is the number of installed
  links after each call, and no counter is negative at any point.
* `counter_drifts`: a Tx link added with the table full, its neighbor added
  later, the link removed: the counter is -1.
-/
import QlTsch.QueueCalls

namespace QlTsch

open Interleave Interleave.Prog ScheduleVars

variable {cfg : Config}

/-! ## What the counters count -/

/-- The installed links of a kind to an address. -/
def ScheduleVars.countLinks (kind : LinkOptions → Bool) (v : ScheduleVars) (n : LinkAddr) : Nat :=
  v.allLinks.countP fun p => kind (v.links p).linkOptions && (v.links p).addr == n

/-- The links `tx_links_count` is about. -/
def LinkOptions.isTx (o : LinkOptions) : Bool := o.tx

/-- The links `dedicated_tx_links_count` is about. -/
def LinkOptions.isDedicatedTx (o : LinkOptions) : Bool := o.tx && !o.shared

/-- One link more or less. -/
def one (kind : LinkOptions → Bool) (o : LinkOptions) (a n : LinkAddr) : Nat :=
  if kind o && a == n then 1 else 0

theorem countLinks_unlink {v : View} {b p : Nat} (h : v.sched.WellFormed)
    (hb : b ∈ v.sched.slotframeList) (hp : p ∈ (v.slotframe b).linksList)
    (kind : LinkOptions → Bool) (n : LinkAddr) :
    v.sched.countLinks kind n = (v.unlink b p).sched.countLinks kind n +
      one kind (v.link p).linkOptions (v.link p).addr n := by
  have hperm := View.perm_unlink h hb hp
  rw [countLinks, hperm.countP_eq, List.countP_cons]
  rfl

theorem countLinks_install {v : View} {b p : Nat} {o : LinkOptions} {ty : LinkType} {a : LinkAddr}
    {ts off : Nat} (h : v.sched.WellFormed) (hb : b ∈ v.sched.slotframeList)
    (hp : p ∉ v.sched.allLinks) (kind : LinkOptions → Bool) (n : LinkAddr) :
    (v.install b p o ty a ts off).sched.countLinks kind n =
      v.sched.countLinks kind n + one kind o a n := by
  have hnew : (v.install b p o ty a ts off).link p =
      ⟨v.sched.currentLinkHandle % 65536, a, (v.slotframe b).handle, ts, off, o, ty,
        v.sched.currentLinkHandle⟩ := by
    simp only [View.install, View.setSched, View.link, Function.update_self]
  have hold : ∀ q ∈ v.sched.allLinks, (v.install b p o ty a ts off).link q = v.link q := fun q hq =>
    View.install_link_of_ne fun hqp => hp (hqp ▸ hq)
  rw [countLinks, (View.perm_install h hb).countP_eq, List.countP_cons, countLinks]
  congr 1
  · refine List.countP_congr ?_
    intro q hq
    have := hold q hq
    simp only [View.link] at this
    rw [this]
  · have : (v.install b p o ty a ts off).sched.links p = _ := hnew
    rw [this]
    rfl

theorem countLinks_of_perm {v w : ScheduleVars} (hperm : w.allLinks.Perm v.allLinks)
    (hlinks : w.links = v.links) (kind : LinkOptions → Bool) (n : LinkAddr) :
    w.countLinks kind n = v.countLinks kind n := by
  simp only [countLinks, hlinks, hperm.countP_eq]

/-! ## The counters as functions of the calls -/

theorem countTx_txLinks (v : View) (a n : LinkAddr) (o : LinkOptions) (d : Int) :
    (v.countTx a o d).txLinks n = v.txLinks n + if a = n then d else 0 := by
  by_cases h : a = n
  · subst h
    simp only [View.countTx, Function.update_self, if_true]
  · simp only [View.countTx, Function.update_of_ne (Ne.symm h), if_neg h, add_zero]

theorem countTx_dedicatedTxLinks (v : View) (a n : LinkAddr) (o : LinkOptions) (d : Int) :
    (v.countTx a o d).dedicatedTxLinks n =
      v.dedicatedTxLinks n + if o.shared = false ∧ a = n then d else 0 := by
  cases hs : o.shared with
  | true => simp [View.countTx, hs]
  | false =>
      by_cases h : a = n
      · subst h
        simp [View.countTx, hs]
      · simp [View.countTx, hs, Function.update_of_ne (Ne.symm h), h]

/-- Counting a Tx link in or out changes each counter by the link it counts. -/
theorem countTx_counters (v : View) (a n : LinkAddr) {o : LinkOptions} (htx : o.tx = true) (d : Int) :
    (v.countTx a o d).txLinks n = v.txLinks n + d * one LinkOptions.isTx o a n ∧
      (v.countTx a o d).dedicatedTxLinks n =
        v.dedicatedTxLinks n + d * one LinkOptions.isDedicatedTx o a n := by
  rw [countTx_txLinks, countTx_dedicatedTxLinks]
  by_cases h : a = n
  · cases hs : o.shared <;> simp [one, LinkOptions.isTx, LinkOptions.isDedicatedTx, htx, hs, h]
  · have h' : (a == n) = false := beq_false_of_ne h
    simp [one, h, h']

theorem one_of_not_tx {o : LinkOptions} (htx : o.tx = false) (a n : LinkAddr) :
    one LinkOptions.isTx o a n = 0 ∧ one LinkOptions.isDedicatedTx o a n = 0 := by
  simp [one, LinkOptions.isTx, LinkOptions.isDedicatedTx, htx]

theorem one_of_ne {kind : LinkOptions → Bool} {o : LinkOptions} {a n : LinkAddr} (h : a ≠ n) :
    one kind o a n = 0 := by
  have h' : (a == n) = false := beq_false_of_ne h
  simp [one, h']

theorem uncount_counters {v : View} {n : LinkAddr} (hn : n ∈ v.nbrs) (o : LinkOptions) (a : LinkAddr) :
    (v.uncount o a).txLinks n = v.txLinks n - one LinkOptions.isTx o a n ∧
      (v.uncount o a).dedicatedTxLinks n =
        v.dedicatedTxLinks n - one LinkOptions.isDedicatedTx o a n := by
  simp only [View.uncount]
  split
  · rename_i h
    obtain ⟨ht, hd⟩ := countTx_counters v a n h.1 (-1)
    exact ⟨by rw [ht]; omega, by rw [hd]; omega⟩
  · rename_i h
    -- not counted: not a Tx link, or a link to somebody else
    have hzero : one LinkOptions.isTx o a n = 0 ∧ one LinkOptions.isDedicatedTx o a n = 0 := by
      cases htx : o.tx with
      | false => exact one_of_not_tx htx a n
      | true =>
          have hne : a ≠ n := fun han => h ⟨htx, han ▸ hn⟩
          exact ⟨one_of_ne hne, one_of_ne hne⟩
    rw [hzero.1, hzero.2]
    simp

/-! ## The invariant -/

/-- The counters are those of the schedule. -/
structure CountersMatch (v : View) : Prop where
  tx : ∀ n ∈ v.nbrs, v.txLinks n = v.sched.countLinks LinkOptions.isTx n
  dedicated : ∀ n ∈ v.nbrs, v.dedicatedTxLinks n = v.sched.countLinks LinkOptions.isDedicatedTx n

/-- Between calls: the counters match, and whoever has a Tx link is in the
table. -/
structure CountersInv (v : View) : Prop where
  wellFormed : v.sched.WellFormed
  counters : CountersMatch v
  known : ∀ p ∈ v.sched.allLinks, (v.link p).linkOptions.tx = true → (v.link p).addr ∈ v.nbrs

/-- No counter has been taken below zero. -/
def NonNeg (v : View) : Prop := ∀ n ∈ v.nbrs, 0 ≤ v.txLinks n ∧ 0 ≤ v.dedicatedTxLinks n

theorem CountersInv.nonNeg {v : View} (h : CountersInv v) : NonNeg v := fun n hn =>
  ⟨by rw [h.counters.tx n hn]; exact Int.natCast_nonneg _,
    by rw [h.counters.dedicated n hn]; exact Int.natCast_nonneg _⟩

theorem CountersInv.unknown {v : View} (h : CountersInv v) (kind : LinkOptions → Bool)
    (hkind : ∀ o, kind o = true → o.tx = true) {a : LinkAddr} (ha : a ∉ v.nbrs) :
    v.sched.countLinks kind a = 0 := by
  rw [countLinks, List.countP_eq_zero]
  intro p hp hk
  obtain ⟨hk, haddr⟩ := Bool.and_eq_true_iff.mp hk
  exact ha (beq_iff_eq.mp haddr ▸ h.known p hp (hkind _ hk))

theorem isDedicatedTx_tx (o : LinkOptions) (h : o.isDedicatedTx = true) : o.tx = true :=
  (Bool.and_eq_true_iff.mp h).1

theorem CountersInv.congr {v w : View} (h : CountersInv v) (hs : w.sched.WellFormed)
    (hperm : w.sched.allLinks.Perm v.sched.allLinks) (hlinks : w.sched.links = v.sched.links)
    (hn : w.nbrs = v.nbrs) (ht : w.txLinks = v.txLinks) (hd : w.dedicatedTxLinks = v.dedicatedTxLinks) :
    CountersInv w := by
  refine ⟨hs, ⟨?_, ?_⟩, ?_⟩
  · intro n hnw
    rw [ht, countLinks_of_perm hperm hlinks]
    exact h.counters.tx n (hn ▸ hnw)
  · intro n hnw
    rw [hd, countLinks_of_perm hperm hlinks]
    exact h.counters.dedicated n (hn ▸ hnw)
  · intro p hp htx
    have hlink : w.link p = v.link p := congrArg (fun f : Nat → TschLink => f p) hlinks
    rw [hlink] at htx ⊢
    rw [hn]
    exact h.known p (hperm.mem_iff.mp hp) htx

/-! ### Neighbors -/

theorem mem_addNbr {v : View} {a m : LinkAddr} (h : m ∈ v.nbrs) : m ∈ (View.addNbr cfg a v).2.nbrs := by
  simp only [View.addNbr]
  split
  · exact h
  · split
    · rename_i i hi
      exact (List.mem_insertIdx (cfg.nbrTableAdd_le hi)).mpr (.inr h)
    · exact h

variable (cfg) in
/-- A new entry starts with the counters of a neighbor without links. -/
theorem countersInv_addNbr {v : View} (h : CountersInv v) (a : LinkAddr) :
    CountersInv (View.addNbr cfg a v).2 := by
  have hsched := View.addNbr_sched cfg v a
  have hknown : ∀ p ∈ (View.addNbr cfg a v).2.sched.allLinks,
      ((View.addNbr cfg a v).2.link p).linkOptions.tx = true →
        ((View.addNbr cfg a v).2.link p).addr ∈ (View.addNbr cfg a v).2.nbrs := by
    simp only [View.link, hsched]
    exact fun p hp htx => mem_addNbr (h.known p hp htx)
  refine ⟨hsched ▸ h.wellFormed, ?_, hknown⟩
  by_cases ha : a ∈ v.nbrs
  · simp only [View.addNbr, ha, if_true]
    exact h.counters
  · cases hi : cfg.nbrTableAdd v.nbrs a with
    | none =>
        simp only [View.addNbr, ha, if_false, hi]
        exact h.counters
    | some i =>
        simp only [View.addNbr, ha, if_false, hi]
        constructor
        · intro n hn
          dsimp only at hn ⊢
          by_cases hna : n = a
          · subst hna
            rw [Function.update_self, h.unknown LinkOptions.isTx (fun _ hk => hk) ha, Nat.cast_zero]
          · rw [Function.update_of_ne hna]
            have hn := (List.mem_insertIdx (cfg.nbrTableAdd_le hi)).mp hn
            exact h.counters.tx n (hn.resolve_left hna)
        · intro n hn
          dsimp only at hn ⊢
          by_cases hna : n = a
          · subst hna
            rw [Function.update_self, h.unknown LinkOptions.isDedicatedTx isDedicatedTx_tx ha, Nat.cast_zero]
          · rw [Function.update_of_ne hna]
            have hn := (List.mem_insertIdx (cfg.nbrTableAdd_le hi)).mp hn
            exact h.counters.dedicated n (hn.resolve_left hna)

theorem countersInv_removeNbr {v : View} (h : CountersInv v) {n : LinkAddr} (hzero : v.txLinks n = 0) :
    CountersInv { v with nbrs := v.nbrs.erase n } := by
  refine ⟨h.wellFormed, ⟨fun m hm => h.counters.tx m (List.mem_of_mem_erase hm),
    fun m hm => h.counters.dedicated m (List.mem_of_mem_erase hm)⟩, fun p hp htx => ?_⟩
  have hmem := h.known p hp htx
  have hne : (v.link p).addr ≠ n := by
    intro hpn
    have hcount := h.counters.tx n (hpn ▸ hmem)
    rw [hzero] at hcount
    have hpos : 0 < v.sched.countLinks LinkOptions.isTx n := by
      rw [countLinks, List.countP_pos_iff]
      exact ⟨p, hp, Bool.and_eq_true_iff.mpr ⟨htx, beq_iff_eq.mpr hpn⟩⟩
    omega
  exact (List.mem_erase_of_ne hne).mpr hmem

/-! ### Links -/

theorem countersInv_removeLink {v : View} {b p : Nat} (h : CountersInv v)
    (hb : b ∈ v.sched.slotframeList) (hp : p ∈ (v.slotframe b).linksList) :
    NonNeg (v.unlink b p) ∧ CountersInv (v.removeLink b p).2 := by
  refine ⟨h.nonNeg, ?_⟩
  have hsched := View.removeLink_sched h.wellFormed hb hp
  have hnbrs : (v.removeLink b p).2.nbrs = v.nbrs := View.removeLink_nbrs
  rw [View.removeLink_of_mem h.wellFormed hb hp] at hsched hnbrs ⊢
  have hunlink := View.wellFormed_unlink h.wellFormed hb hp
  refine ⟨hsched ▸ hunlink, ⟨fun n hn => ?_, fun n hn => ?_⟩, fun q hq htx => ?_⟩
  · have hn : n ∈ v.nbrs := hnbrs ▸ hn
    have hv : n ∈ (v.unlink b p).nbrs := hn
    have hcount := countLinks_unlink h.wellFormed hb hp LinkOptions.isTx n
    have hold := h.counters.tx n hn
    rw [(uncount_counters hv _ _).1, hsched]
    have hsame : (v.unlink b p).txLinks n = v.txLinks n := rfl
    rw [hsame, hold, hcount]
    omega
  · have hn : n ∈ v.nbrs := hnbrs ▸ hn
    have hv : n ∈ (v.unlink b p).nbrs := hn
    have hcount := countLinks_unlink h.wellFormed hb hp LinkOptions.isDedicatedTx n
    have hold := h.counters.dedicated n hn
    rw [(uncount_counters hv _ _).2, hsched]
    have hsame : (v.unlink b p).dedicatedTxLinks n = v.dedicatedTxLinks n := rfl
    rw [hsame, hold, hcount]
    omega
  · rw [hsched] at hq
    have hlink : ((v.unlink b p).uncount (v.link p).linkOptions (v.link p).addr).link q =
        (v.unlink b p).link q :=
      congrArg (fun w : ScheduleVars => w.links q) (View.uncount_sched _ _)
    rw [hlink] at htx ⊢
    rw [hnbrs]
    exact h.known q ((View.mem_unlink h.wellFormed hb hp).mp hq).1 htx

/-- A new Tx link finds its neighbor in the table, or room for it. -/
def roomForTx (cfg : Config) (ns : List LinkAddr) (o : LinkOptions) (a : LinkAddr) : Bool :=
  !o.tx || decide (a ∈ ns) || (cfg.nbrTableAdd ns a).isSome

theorem addNbr_room {v : View} {o : LinkOptions} {a : LinkAddr} (htx : o.tx = true)
    (h : roomForTx cfg v.nbrs o a = true) :
    (View.addNbr cfg a v).1 = some a ∧ a ∈ (View.addNbr cfg a v).2.nbrs := by
  by_cases ha : a ∈ v.nbrs
  · simp only [View.addNbr, ha, if_true]
    exact ⟨trivial, trivial⟩
  · simp only [roomForTx, htx, ha, Bool.not_true, decide_false, Bool.false_or] at h
    obtain ⟨i, hi⟩ := Option.isSome_iff_exists.mp h
    simp only [View.addNbr, ha, if_false, hi]
    exact ⟨trivial, (List.mem_insertIdx (cfg.nbrTableAdd_le hi)).mpr (.inl rfl)⟩

variable (cfg) in
theorem addNbr_setSched (v : View) (x : ScheduleVars) (a : LinkAddr) :
    View.addNbr cfg a (v.setSched x) =
      ((View.addNbr cfg a v).1, (View.addNbr cfg a v).2.setSched x) := by
  by_cases ha : a ∈ v.nbrs
  · have ha' : a ∈ (v.setSched x).nbrs := ha
    simp only [View.addNbr, ha, ha', if_true]
  · have ha' : a ∉ (v.setSched x).nbrs := ha
    simp only [View.addNbr, ha, ha', if_false]
    cases hi : cfg.nbrTableAdd v.nbrs a with
    | none =>
        have hi' : cfg.nbrTableAdd (v.setSched x).nbrs a = none := hi
        rw [hi']
    | some i =>
        have hi' : cfg.nbrTableAdd (v.setSched x).nbrs a = some i := hi
        rw [hi']
        rfl

theorem countersInv_count {v : View} {b p : Nat} {o : LinkOptions} {a : LinkAddr} (ty : LinkType)
    (ts off : Nat) (h : CountersInv v) (hb : b ∈ v.sched.slotframeList) (hp : p ∉ v.sched.allLinks)
    {u : View} (hu : CountersInv u) (hus : u.sched = v.sched) (hsub : ∀ n ∈ v.nbrs, n ∈ u.nbrs)
    {w : View} (hws : w.sched = (v.install b p o ty a ts off).sched) (hwn : w.nbrs = u.nbrs)
    (htx : o.tx = true → a ∈ u.nbrs)
    (ht : ∀ n, w.txLinks n = u.txLinks n + one LinkOptions.isTx o a n)
    (hd : ∀ n, w.dedicatedTxLinks n = u.dedicatedTxLinks n + one LinkOptions.isDedicatedTx o a n) :
    CountersInv w := by
  refine ⟨hws ▸ View.wellFormed_install h.wellFormed hb hp, ⟨fun n hn => ?_, fun n hn => ?_⟩,
    fun q hq hqtx => ?_⟩
  · rw [ht, hu.counters.tx n (hwn ▸ hn), hws, hus,
      countLinks_install h.wellFormed hb hp LinkOptions.isTx n, Nat.cast_add]
  · rw [hd, hu.counters.dedicated n (hwn ▸ hn), hws, hus,
      countLinks_install h.wellFormed hb hp LinkOptions.isDedicatedTx n, Nat.cast_add]
  · have hlink : w.link q = (v.install b p o ty a ts off).link q :=
      congrArg (fun x : ScheduleVars => x.links q) hws
    rw [hlink] at hqtx ⊢
    rw [hws] at hq
    rw [hwn]
    rcases List.mem_cons.mp ((View.perm_install h.wellFormed hb).mem_iff.mp hq) with rfl | hq
    · simp only [View.install, View.setSched, View.link, Function.update_self] at hqtx ⊢
      exact htx hqtx
    · have hne : q ≠ p := fun hqp => hp (hqp ▸ hq)
      rw [View.install_link_of_ne hne] at hqtx ⊢
      exact hsub _ (h.known q hq hqtx)

theorem countersInv_installLink {v : View} {b p : Nat} {o : LinkOptions} {a : LinkAddr}
    (ty : LinkType) (ts off : Nat) (h : CountersInv v) (hb : b ∈ v.sched.slotframeList)
    (hp : p ∉ v.sched.linkMemb) (hroom : roomForTx cfg v.nbrs o a = true) :
    NonNeg (v.install b p o ty a ts off) ∧
      (o.tx = true → NonNeg (View.addNbr cfg a (v.install b p o ty a ts off)).2) ∧
      CountersInv ((v.install b p o ty a ts off).count cfg o a) := by
  have hp' : p ∉ v.sched.allLinks := fun hmem => hp (h.wellFormed.linkMemb p hmem)
  have hadd := addNbr_setSched cfg v (v.install b p o ty a ts off).sched a
  have hinst : v.setSched (v.install b p o ty a ts off).sched = v.install b p o ty a ts off := rfl
  rw [hinst] at hadd
  have hu := countersInv_addNbr cfg h a
  refine ⟨h.nonNeg, fun _ => ?_, ?_⟩
  · rw [hadd]
    exact hu.nonNeg
  · cases htx : o.tx with
    | false =>
        have hcount : (v.install b p o ty a ts off).count cfg o a = v.install b p o ty a ts off := by
          simp only [View.count, htx, Bool.false_eq_true, if_false]
        rw [hcount]
        refine countersInv_count ty ts off h hb hp' h rfl (fun _ hn => hn) rfl rfl
          (fun hc => absurd (htx.symm.trans hc) (by decide)) (fun n => ?_) fun n => ?_
        · rw [(one_of_not_tx htx a n).1]
          exact (add_zero _).symm
        · rw [(one_of_not_tx htx a n).2]
          exact (add_zero _).symm
    | true =>
        obtain ⟨hsome, hmem⟩ := addNbr_room htx hroom
        have hcount : (v.install b p o ty a ts off).count cfg o a =
            ((View.addNbr cfg a v).2.setSched (v.install b p o ty a ts off).sched).countTx a o 1 := by
          simp only [View.count, htx, if_true, hadd, hsome]
        rw [hcount]
        refine countersInv_count ty ts off h hb hp' hu (View.addNbr_sched cfg v a)
          (fun _ hn => mem_addNbr hn) rfl rfl (fun _ => hmem) (fun n => ?_) fun n => ?_
        · rw [(countTx_counters _ a n htx 1).1, one_mul]
          rfl
        · rw [(countTx_counters _ a n htx 1).2, one_mul]
          rfl

/-- The counters through any sequence of schedule calls. -/
theorem callInv_counters : CallInv cfg (roomForTx cfg) CountersInv NonNeg where
  wellFormed h := h.wellFormed
  visible h := h.nonNeg
  removeLink h hb hp := countersInv_removeLink h hb hp
  installLink ty ts off h hb hp hroom := countersInv_installLink ty ts off h hb hp hroom
  addSlotframe {v} handle size h := by
    obtain ⟨hwf, hall⟩ := View.wellFormed_addSlotframe cfg handle size h.wellFormed
    obtain ⟨x, hx, hlinks⟩ := View.addSlotframe_eq cfg v handle size
    rw [hx] at hwf hall ⊢
    exact h.congr hwf (hall ▸ .refl _) hlinks rfl rfl rfl
  dropSlotframe {v b} h hb he := by
    obtain ⟨hwf, hall⟩ := View.wellFormed_dropSlotframe h.wellFormed hb he
    exact h.congr hwf hall rfl rfl rfl rfl

/-! ## The proof context -/

/-- What holds at every moment: no counter is negative. -/
abbrev CountersSafe : TschState → Prop := VisibleSafe NonNeg

abbrev countersCtx (cfg : Config) : Ctx TschState := visibleCtx cfg NonNeg

theorem queueCtx_counters : QueueCtx cfg (countersCtx cfg) CountersInv NonNeg where
  toSchedCtx := schedCtx_visible
  notLive := id
  visible h := h.nonNeg
  addNbr a h := countersInv_addNbr cfg h a
  removeNbr h hzero := countersInv_removeNbr h hzero
  queueAct {s s' v} hi hat hg := by
    refine ⟨⟨?_, ?_⟩, fun _ => ?_⟩
    · rw [hg.slot]
      exact hi.flags.inSlot
    · rw [hg.slot, hg.lock]
      exact hi.flags.tx
    · rw [hg.view]
      exact hi.visible (by rw [hat.lock])
  nbrTableRemove {s v} n hi hat hok := by
    refine ⟨⟨hi.flags.inSlot, hi.flags.tx⟩, fun _ => ?_⟩
    rw [← hat.view] at hok
    exact hok

/-! ## Any sequence of calls -/

/-- A call that may change the table, the schedule or a counter. -/
inductive CounterCall where
  | schedule (c : ScheduleCall)
  | queue (c : QueueCall)
deriving DecidableEq, Repr

def CounterCall.perform (cfg : Config) (room : List LinkAddr → LinkOptions → LinkAddr → Bool)
    (fuel : Nat) : CounterCall → Prog TschState Unit
  | .schedule c => makeCall cfg room fuel c
  | .queue c => c.perform cfg fuel

theorem wp_counterCall (fuel : Nat) (c : CounterCall) {s : TschState} (hi : CountersSafe s)
    (h : Ready CountersInv s) :
    Wp (countersCtx cfg) (c.perform cfg (roomForTx cfg) fuel) (fun _ t => Ready CountersInv t) s := by
  cases c with
  | schedule c => exact queueCtx_counters.wp_makeCall callInv_counters (by exact id) fuel c hi h
  | queue c => exact queueCtx_counters.wp_queueCall fuel c hi h

theorem countersInv_boot : CountersInv (TschState.boot cfg).view where
  wellFormed := wellFormed_boot cfg
  counters := by
    constructor <;> intro n _ <;>
      simp [TschState.view, TschState.boot, newNeighbor, tschQueueBackoffReset, countLinks, allLinks]
  known := by simp [TschState.view, TschState.boot, allLinks]

/-- **The counters match the schedule**, for every sequence of calls whose new Tx
links find their neighbor in the table or room for it, and every interleaving
with slot interrupts: while the lock is free no counter is negative, and after
the calls each is the number of installed links it is about. -/
theorem counters_match (fuel : Nat) (calls : List CounterCall) {s : TschState} (hflags : SlotFlags s)
    (hlock : s.lock = ⟨false, false⟩) (hflux : s.ghost.linkInFlux = none)
    (hinv : CountersInv s.view) {c : Prog TschState Unit × TschState}
    (hr : Run (fun s s' => ∃ i, slotStep cfg i s = some s') (fun _ _ => True)
      (Prog.forEach calls (CounterCall.perform cfg (roomForTx cfg) fuel), s) c) :
    (c.2.lock.tschLocked = false → NonNeg c.2.view) ∧
      (c.1 = .ret () → CountersMatch c.2.view) := by
  have hi : CountersSafe s := ⟨hflags, fun _ => hinv.nonNeg⟩
  have hwp : Wp (countersCtx cfg) (Prog.forEach calls (CounterCall.perform cfg (roomForTx cfg) fuel))
      (fun _ t => Ready CountersInv t) s :=
    Wp.forEach (J := fun _ t => Ready CountersInv t) (fun c _ _ hi h => wp_counterCall fuel c hi h) calls
      hi ⟨_, hinv, rfl, hlock, hflux⟩
  obtain ⟨hsafe, t, hit, hrel, hrest⟩ := Wp.run hi hwp hr
  refine ⟨hsafe.visible, ?_⟩
  intro hret
  rw [hret] at hrest
  obtain ⟨v, hI, hat⟩ := hrest
  rw [(queueCtx_counters.at_rely hit hat hrel).view]
  exact hI.counters

/-- A slotframe, and a Tx link to neighbor 5 with room for it. -/
def countedCalls : List CounterCall :=
  [.schedule (.addSlotframe 0 7), .schedule (.addLink (some 0) txShared .normal (some 5) 1 0 false)]

/-- One Tx link is installed, and it is counted. -/
theorem counters_match_added :
    ∃ c : Prog TschState Unit × TschState,
      Run (fun s s' => ∃ i, slotStep (smallBuild 8) i s = some s') (fun _ _ => True)
        (Prog.forEach countedCalls
          (CounterCall.perform (smallBuild 8) (roomForTx (smallBuild 8)) 3),
          TschState.boot (smallBuild 8)) c ∧
      5 ∈ c.2.view.nbrs ∧ c.2.sched.countLinks LinkOptions.isTx 5 = 1 ∧ c.2.view.txLinks 5 = 1 := by
  obtain ⟨c, hrun, hc⟩ := exists_run (slotStep (smallBuild 8)) (fun _ _ => true)
    (fun s s' => ∃ i, slotStep (smallBuild 8) i s = some s') (fun _ _ => True)
    (fun i _ _ h => ⟨i, h⟩) (fun _ _ _ => trivial) (List.replicate 35 none)
    (Prog.forEach countedCalls (CounterCall.perform (smallBuild 8) (roomForTx (smallBuild 8)) 3),
      TschState.boot (smallBuild 8))
    (fun c => decide (c.1.result = some () ∧ 5 ∈ c.2.view.nbrs ∧
      c.2.sched.countLinks LinkOptions.isTx 5 = 1)) (by decide +kernel)
  obtain ⟨hret, hmem, hcount⟩ := of_decide_eq_true hc
  have hmatch := (counters_match 3 countedCalls ⟨by decide +kernel, by decide +kernel⟩ rfl rfl
    countersInv_boot hrun).2 (Prog.eq_ret_of_result hret)
  refine ⟨c, hrun, hmem, hcount, ?_⟩
  rw [hmatch.tx 5 hmem]
  exact congrArg Nat.cast hcount

/-! ## A link that was never counted in -/

/-- With a table of three, neighbor 9 takes the last entry; a Tx link to 5 is
added; 9 is freed, 5 is added, and the link is removed. -/
def driftCalls : List CounterCall :=
  [.schedule (.addSlotframe 0 7), .queue (.addNbr 9),
    .schedule (.addLink (some 0) txShared .normal (some 5) 1 0 false),
    .queue .freeUnusedNeighbors, .queue (.addNbr 5),
    .schedule (.removeLinkByTimeslot (some 0) 1 0)]

/-- No link is installed, and `tx_links_count` of neighbor 5 is -1. -/
theorem counter_drifts :
    ∃ c : Prog TschState Unit × TschState,
      Run (fun s s' => ∃ i, slotStep (smallBuild 3) i s = some s') (fun _ _ => True)
        (Prog.forEach driftCalls (CounterCall.perform (smallBuild 3) (fun _ _ _ => true) 3),
          TschState.boot (smallBuild 3)) c ∧
      c.1 = .ret () ∧ 5 ∈ c.2.view.nbrs ∧ c.2.sched.countLinks LinkOptions.isTx 5 = 0 ∧
      c.2.view.txLinks 5 = -1 := by
  obtain ⟨c, hrun, hc⟩ := exists_run (slotStep (smallBuild 3)) (fun _ _ => true)
    (fun s s' => ∃ i, slotStep (smallBuild 3) i s = some s') (fun _ _ => True)
    (fun i _ _ h => ⟨i, h⟩) (fun _ _ _ => trivial) (List.replicate 85 none)
    (Prog.forEach driftCalls (CounterCall.perform (smallBuild 3) (fun _ _ _ => true) 3),
      TschState.boot (smallBuild 3))
    (fun c => decide (c.1.result = some () ∧ 5 ∈ c.2.view.nbrs ∧
      c.2.sched.countLinks LinkOptions.isTx 5 = 0 ∧ c.2.view.txLinks 5 = -1)) (by decide +kernel)
  obtain ⟨hret, hrest⟩ := of_decide_eq_true hc
  exact ⟨c, hrun, Prog.eq_ret_of_result hret, hrest⟩

end QlTsch
