/-
# `QlTsch.LinkHandles` — do handles identify links?

`tsch_schedule_add_link` numbers the links with a counter of its own and stores
the low 16 bits of the number as the handle; whether an installed link has that
handle already is not looked at.  `TschLink.serial` keeps the whole number.

Two installed links have the same handle exactly if one of them was added a
multiple of 65536 additions after the other.  So handles identify links along
every run in which no link is added that late after an installed one
(`handles_identify`), and they do not once it happens: QL-TSCH keeps its broadcast
link while it replaces two links at each change of action (`handle_used_twice`).
-/
import QlTsch.ScheduleRepresentation

namespace QlTsch

open Interleave Interleave.Prog ScheduleVars

variable {cfg : Config}

/-! ## Handles of installed links -/

def HandlesDistinct (v : View) : Prop :=
  ∀ p ∈ v.sched.allLinks, ∀ q ∈ v.sched.allLinks, (v.link p).handle = (v.link q).handle → p = q

/-- The lookup finds each link by its handle. -/
structure HandlesIdentify (s : TschState) : Prop where
  distinct : HandlesDistinct s.view
  lookup : ∀ p ∈ s.sched.allLinks, tschScheduleGetLinkByHandle s (s.link p).handle = some p

theorem getLinkByHandle_some {s : TschState} {handle q : Nat}
    (h : tschScheduleGetLinkByHandle s handle = some q) :
    q ∈ s.sched.allLinks ∧ (s.link q).handle = handle := by
  simp only [tschScheduleGetLinkByHandle] at h
  split at h
  · cases h
  · obtain ⟨b, hb, hfind⟩ := List.exists_of_findSome?_eq_some h
    exact ⟨mem_allLinks.mpr ⟨b, hb, List.mem_of_find?_eq_some hfind⟩,
      beq_iff_eq.mp (List.find?_some (p := fun p => (s.link p).handle == handle) hfind)⟩

theorem HandlesDistinct.identify {s : TschState} (h : HandlesDistinct s.view)
    (hfree : s.lock.tschLocked = false) : HandlesIdentify s := by
  refine ⟨h, ?_⟩
  intro p hp
  cases hget : tschScheduleGetLinkByHandle s (s.link p).handle with
  | some q =>
      obtain ⟨hq, hh⟩ := getLinkByHandle_some hget
      rw [h q hq p hp hh]
  | none =>
      -- the link itself would have been found
      obtain ⟨b, hb, hpb⟩ := mem_allLinks.mp hp
      simp only [tschScheduleGetLinkByHandle, tschIsLocked, hfree, Bool.false_eq_true, if_false] at hget
      have hnone := List.findSome?_eq_none_iff.mp hget b hb
      exact absurd (beq_self_eq_true _) (List.find?_eq_none.mp hnone p hpb)

/-! ## What additions and removals keep -/

structure HandleInv (v : View) : Prop where
  wellFormed : v.sched.WellFormed
  serials : ∀ p ∈ v.sched.allLinks, (v.link p).serial < v.sched.currentLinkHandle
  handles : ∀ p ∈ v.sched.allLinks, (v.link p).handle = (v.link p).serial % 65536
  distinct : HandlesDistinct v

/-- No installed link was added a multiple of 65536 additions ago. -/
def View.agesDiffer (v : View) : Bool :=
  v.sched.allLinks.all fun p => (v.sched.currentLinkHandle - (v.link p).serial) % 65536 != 0

namespace HandleInv

variable {v : View}

theorem sub {w : View} (h : HandleInv v) (hwf : w.sched.WellFormed)
    (hsub : ∀ p ∈ w.sched.allLinks, p ∈ v.sched.allLinks) (hlinks : w.sched.links = v.sched.links)
    (hcurrent : w.sched.currentLinkHandle = v.sched.currentLinkHandle) : HandleInv w := by
  have hlink : ∀ p, w.link p = v.link p := fun p => congrFun hlinks p
  refine ⟨hwf, ?_, ?_, ?_⟩
  · intro p hp
    rw [hlink, hcurrent]
    exact h.serials p (hsub p hp)
  · intro p hp
    rw [hlink]
    exact h.handles p (hsub p hp)
  · intro p hp q hq hpq
    rw [hlink, hlink] at hpq
    exact h.distinct p (hsub p hp) q (hsub q hq) hpq

theorem congr {w : View} (h : HandleInv v) (hw : w.sched = v.sched) : HandleInv w :=
  h.sub (hw ▸ h.wellFormed) (fun _ hp => hw ▸ hp) (by rw [hw]) (by rw [hw])

theorem unlink {b p : Nat} (h : HandleInv v) (hb : b ∈ v.sched.slotframeList)
    (hp : p ∈ (v.slotframe b).linksList) : HandleInv (v.unlink b p) :=
  h.sub (View.wellFormed_unlink h.wellFormed hb hp)
    (fun _ hq => ((View.mem_unlink h.wellFormed hb hp).mp hq).1) rfl rfl

/-- A new link, at an age at which no installed link has its handle. -/
theorem install {b p : Nat} {o : LinkOptions} {ty : LinkType} {a : LinkAddr} {ts off : Nat}
    (h : HandleInv v) (hb : b ∈ v.sched.slotframeList) (hp : p ∉ v.sched.linkMemb)
    (hages : v.agesDiffer = true) : HandleInv (v.install b p o ty a ts off) := by
  have hnew : p ∉ v.sched.allLinks := fun hmem => hp (h.wellFormed.linkMemb p hmem)
  have hcase : ∀ q ∈ (v.install b p o ty a ts off).sched.allLinks, q = p ∨ q ∈ v.sched.allLinks :=
    fun q hq => List.mem_cons.mp ((View.perm_install h.wellFormed hb).mem_iff.mp hq)
  have hold : ∀ q ∈ v.sched.allLinks, (v.install b p o ty a ts off).link q = v.link q := by
    intro q hq
    exact View.install_link_of_ne fun hqp => hnew (hqp ▸ hq)
  have hself : ((v.install b p o ty a ts off).link p).handle = v.sched.currentLinkHandle % 65536 ∧
      ((v.install b p o ty a ts off).link p).serial = v.sched.currentLinkHandle := by
    simp only [View.install, View.setSched, View.link, Function.update_self, and_self]
  have hcurrent : (v.install b p o ty a ts off).sched.currentLinkHandle =
      v.sched.currentLinkHandle + 1 := rfl
  -- the low 16 bits differ because the age is not a multiple
  have hother : ∀ q ∈ v.sched.allLinks, (v.link q).handle ≠ v.sched.currentLinkHandle % 65536 := by
    intro q hq heq
    have hage := List.all_eq_true.mp hages q hq
    rw [bne_iff_ne] at hage
    have hserial := h.serials q hq
    rw [h.handles q hq] at heq
    omega
  refine ⟨View.wellFormed_install h.wellFormed hb hnew, ?_, ?_, ?_⟩
  · intro q hq
    rw [hcurrent]
    rcases hcase q hq with hqp | hq
    · rw [hqp, hself.2]
      exact Nat.lt_succ_self _
    · rw [hold q hq]
      exact Nat.lt_succ_of_lt (h.serials q hq)
  · intro q hq
    rcases hcase q hq with hqp | hq
    · rw [hqp, hself.1, hself.2]
    · rw [hold q hq]
      exact h.handles q hq
  · intro q hq r hr hqr
    rcases hcase q hq with hqp | hq <;> rcases hcase r hr with hrp | hr
    · rw [hqp, hrp]
    · rw [hqp, hself.1, hold r hr] at hqr
      exact absurd hqr.symm (hother r hr)
    · rw [hrp, hself.1, hold q hq] at hqr
      exact absurd hqr (hother q hq)
    · rw [hold q hq, hold r hr] at hqr
      exact h.distinct q hq r hr hqr

theorem boot : HandleInv (TschState.boot cfg).view := by
  refine ⟨wellFormed_boot cfg, ?_, ?_, ?_⟩
  · intro p hp
    cases hp
  · intro p hp
    cases hp
  · intro p hp
    cases hp

end HandleInv

theorem callInv_handles : CallInv cfg (fun _ _ _ => false) HandleInv HandlesDistinct where
  wellFormed h := h.wellFormed
  visible h := h.distinct
  removeLink {v b p} h hb hp :=
    ⟨(h.unlink hb hp).distinct, (h.unlink hb hp).congr (View.removeLink_sched h.wellFormed hb hp)⟩
  installLink _ _ _ _ _ _ hroom := by cases hroom
  addSlotframe {v} handle size h := by
    obtain ⟨hwf, hall⟩ := View.wellFormed_addSlotframe cfg handle size h.wellFormed
    obtain ⟨x, hx, hlinks⟩ := View.addSlotframe_eq cfg v handle size
    refine h.sub hwf (fun p hp => hall ▸ hp) (by rw [hx]; exact hlinks) ?_
    simp only [View.addSlotframe]
    split
    · rfl
    · split <;> rfl
  dropSlotframe h hb he := by
    obtain ⟨hwf, hall⟩ := View.wellFormed_dropSlotframe h.wellFormed hb he
    exact h.sub hwf (fun p hp => hall.mem_iff.mp hp) rfl rfl

/-! ## Calls -/

/-- If the call installs a link, then none that is still installed was added a
multiple of 65536 additions before. -/
def ScheduleCall.freshHandle (cfg : Config) (v : View) : ScheduleCall → Bool
  | .addLink (some b) o ty a ts off rm =>
      !(v.addLink cfg b o ty a ts off rm).1.isSome ||
        (if rm then (v.removeLinkByTimeslot b ts off).2 else v).agesDiffer
  | _ => true

/-- The call, if its pointers are valid and it meets the condition. -/
def makeFreshCall (cfg : Config) (fuel : Nat) (c : ScheduleCall) : Prog TschState Unit := do
  if ← Prog.read (fun s => c.pointersValid s.view && c.freshHandle cfg s.view) then
    c.perform cfg fuel
  else pure ()

theorem HandleInv.installLink {v : View} {b ts off : Nat} {o : LinkOptions} {ty : LinkType}
    {a : LinkAddr} (h : HandleInv v) (hb : b ∈ v.sched.slotframeList)
    (hages : (v.installLink cfg b o ty a ts off).1.isSome = true → v.agesDiffer = true) :
    (∀ w ∈ v.installLinkVisible cfg b o ty a ts off, HandlesDistinct w) ∧
      HandleInv (v.installLink cfg b o ty a ts off).2 := by
  simp only [View.installLinkVisible, View.installLink] at hages ⊢
  cases hpick : cfg.memb.pick v.sched.linkMemb cfg.tschScheduleMaxLinks with
  | none =>
      simp only
      refine ⟨fun w hw => ?_, h⟩
      rw [List.mem_singleton.mp hw]
      exact h.distinct
  | some p =>
      simp only [hpick] at hages
      simp only
      have hw : HandleInv (v.install b p o ty a ts off) :=
        h.install hb (cfg.memb.pick_fresh hpick) (hages rfl)
      have hcount : HandleInv ((v.install b p o ty a ts off).count cfg o a) :=
        hw.congr (View.count_sched o a)
      refine ⟨fun w hmem => ?_, hcount⟩
      split at hmem
      · simp only [List.mem_cons, List.not_mem_nil, or_false] at hmem
        rcases hmem with rfl | rfl | rfl
        · exact hw.distinct
        · exact (hw.congr (View.addNbr_sched cfg _ a)).distinct
        · exact hcount.distinct
      · rw [List.mem_singleton.mp hmem]
        exact hw.distinct

theorem wp_freshCall (fuel : Nat) (c : ScheduleCall) {s : TschState}
    (hi : VisibleSafe HandlesDistinct s) (h : ∃ v, HandleInv v ∧ At none false v s) :
    Wp (visibleCtx cfg HandlesDistinct) (makeFreshCall cfg fuel c)
      (fun _ t => ∃ w, HandleInv w ∧ At none false w t) s := by
  have S : SchedCtx cfg (visibleCtx cfg HandlesDistinct) HandlesDistinct := schedCtx_visible
  have hcall : CallInv cfg (fun _ _ _ => false) HandleInv HandlesDistinct := callInv_handles
  obtain ⟨v, hI, hat⟩ := h
  refine Wp.call (S.wp_read hi hat (a := c.pointersValid v && c.freshHandle cfg v)
    (fun t ht => by rw [ht.view])) hi ?_
  rintro ok t hit ⟨rfl, hat⟩
  cases hadm : c.pointersValid v && c.freshHandle cfg v with
  | false => exact Wp.ret ⟨v, hI, hat⟩
  | true =>
      obtain ⟨hptr, hfresh⟩ := Bool.and_eq_true_iff.mp hadm
      cases c with
      | addLink sf o ty a ts off rm =>
          cases sf with
          | none => exact Wp.ret ⟨v, hI, hat⟩
          | some b =>
              have hb : b ∈ v.sched.slotframeList := of_decide_eq_true hptr
              simp only [ScheduleCall.freshHandle, Bool.or_eq_true, Bool.not_eq_true'] at hfresh
              by_cases hvalid : (ts : Int) > (v.slotframe b).size - 1
              · -- the timeslot is rejected
                refine Wp.call (P := fun _ t => At none false v t) ?_ hit fun _ t _ hat =>
                  Wp.ret ⟨v, hI, hat⟩
                refine Wp.call (S.wp_read hit hat (a := decide ((ts : Int) > (v.slotframe b).size - 1))
                  (fun t ht => by rw [← ht.view]; rfl)) hit ?_
                rintro r u _ ⟨rfl, hau⟩
                rw [decide_eq_true hvalid]
                exact Wp.ret hau
              · simp only [View.addLink, if_neg hvalid] at hfresh
                have hboth : (∀ w ∈ v.addLinkVisible cfg b o ty a ts off rm, HandlesDistinct w) ∧
                    HandleInv (v.addLink cfg b o ty a ts off rm).2 := by
                  simp only [View.addLinkVisible, View.addLink, if_neg hvalid]
                  cases rm with
                  | false =>
                      simp only [Bool.false_eq_true, if_false] at hfresh ⊢
                      exact hI.installLink hb fun hsome => hfresh.resolve_left (by rw [hsome]; decide)
                  | true =>
                      simp only [if_true, View.removeLinkByTimeslot] at hfresh ⊢
                      obtain ⟨hvis, hI', hb', -⟩ := hcall.removeLinksAt b ts off
                        (v.slotframe b).linksList hI hb (hI.wellFormed.nodup_linksList hb)
                        fun _ hp => hp
                      obtain ⟨hvis', hI''⟩ := hI'.installLink hb' fun hsome =>
                        hfresh.resolve_left (by rw [hsome]; decide)
                      exact ⟨fun w hw => (List.mem_append.mp hw).elim (hvis w) (hvis' w), hI''⟩
                refine Wp.call (S.wp_tschScheduleAddLink hit hat b o ty a ts off rm hboth.1) hit ?_
                rintro _ u _ ⟨_, hau⟩
                exact Wp.ret ⟨_, hboth.2, hau⟩
      | addSlotframe handle size =>
          exact S.wp_perform hcall (by exact id) fuel hit hat hI hptr rfl
      | removeSlotframe sf =>
          exact S.wp_perform hcall (by exact id) fuel hit hat hI hptr rfl
      | removeLink sf l => exact S.wp_perform hcall (by exact id) fuel hit hat hI hptr rfl
      | removeLinkByTimeslot sf ts off =>
          exact S.wp_perform hcall (by exact id) fuel hit hat hI hptr rfl

/-- **Handles identify links** in every state of every run of additions and
removals, under every interleaving with slot interrupts, if no link is added a
multiple of 65536 additions after one that is still installed. -/
theorem handles_identify (fuel : Nat) (calls : List ScheduleCall) {s : TschState}
    (hflags : SlotFlags s) (hlock : s.lock = ⟨false, false⟩) (hflux : s.ghost.linkInFlux = none)
    (hinv : HandleInv s.view) {c : Prog TschState Unit × TschState}
    (hr : Run (fun s s' => ∃ i, slotStep cfg i s = some s') (fun _ _ => True)
      (Prog.forEach calls (makeFreshCall cfg fuel), s) c) (hfree : c.2.lock.tschLocked = false) :
    HandlesIdentify c.2 := by
  have hi : VisibleSafe HandlesDistinct s := ⟨hflags, fun _ => hinv.distinct⟩
  have hwp : Wp (visibleCtx cfg HandlesDistinct) (Prog.forEach calls (makeFreshCall cfg fuel))
      (fun _ t => ∃ w, HandleInv w ∧ At none false w t) s :=
    Wp.forEach (J := fun _ t => ∃ w, HandleInv w ∧ At none false w t)
      (fun c _ _ hi h => wp_freshCall fuel c hi h) calls hi ⟨_, hinv, rfl, hlock, hflux⟩
  exact ((Wp.run hi hwp hr).1.visible hfree).identify hfree

/-! ## A broadcast link and a link that is replaced -/

/-- A slotframe with two links. -/
def twoLinks : List ScheduleCall :=
  [.addSlotframe 0 7, .addLink (some 0) ⟨true, true, true, false⟩ .normal (some 255) 0 0 true,
    .addLink (some 0) rxShared .normal none 1 0 true]

/-- Two links at different places, and the second replaced. -/
def replaced : ScheduleCall := .addLink (some 0) rxShared .normal none 1 0 true

theorem handles_identify_replaced :
    ∃ c : Prog TschState Unit × TschState,
      Run (fun s s' => ∃ i, slotStep (smallBuild 8) i s = some s') (fun _ _ => True)
        (Prog.forEach (twoLinks ++ [replaced]) (makeFreshCall (smallBuild 8) 3),
          TschState.boot (smallBuild 8)) c ∧
      c.1 = .ret () ∧ (c.2.link 1).handle = 2 ∧ HandlesIdentify c.2 := by
  obtain ⟨c, hrun, hc⟩ := exists_run (slotStep (smallBuild 8)) (fun _ _ => true)
    (fun s s' => ∃ i, slotStep (smallBuild 8) i s = some s') (fun _ _ => True)
    (fun i _ _ h => ⟨i, h⟩) (fun _ _ _ => trivial) (List.replicate 71 none)
    (Prog.forEach (twoLinks ++ [replaced]) (makeFreshCall (smallBuild 8) 3),
      TschState.boot (smallBuild 8))
    (fun c => decide (c.1.result = some () ∧ (c.2.link 1).handle = 2 ∧
      c.2.lock.tschLocked = false)) (by decide +kernel)
  obtain ⟨hret, hhandle, hfree⟩ := of_decide_eq_true hc
  exact ⟨c, hrun, Prog.eq_ret_of_result hret, hhandle,
    handles_identify 3 (twoLinks ++ [replaced]) ⟨by decide +kernel, by decide +kernel⟩ rfl rfl
      .boot hrun hfree⟩

/-- After `n` additions of the second link. -/
structure Replaced (n : Nat) (v : View) : Prop where
  slotframeList : v.sched.slotframeList = [0]
  slotframe : v.slotframe 0 = ⟨0, 7, [0, 1]⟩
  linkMemb : v.sched.linkMemb = {0, 1}
  first : (v.link 0).handle = 0 ∧ (v.link 0).timeslot = 0
  second : ∃ a, v.link 1 = ⟨n % 65536, a, 0, 1, 0, rxShared, .normal, n⟩
  current : v.sched.currentLinkHandle = n + 1

theorem Replaced.step {n : Nat} {v : View} (h : Replaced n v) :
    Replaced (n + 1) (v.addLink (smallBuild 8) 0 rxShared .normal none 1 0 true).2 := by
  obtain ⟨a, hsecond⟩ := h.second
  have hvalid : ¬ ((1 : Nat) : Int) > (v.slotframe 0).size - 1 := by
    rw [h.slotframe]
    decide
  have hremove : (v.removeLinkByTimeslot 0 1 0).2 = v.unlink 0 1 := by
    simp only [View.removeLinkByTimeslot, View.removeLinksAt, View.removeLinkIfAt, View.removeLink,
      h.slotframe, h.first.2, hsecond, View.uncount, rxShared, Nat.zero_ne_one, false_and, if_false,
      and_self, if_true, Bool.false_eq_true]
  have hmemb : (v.unlink 0 1).sched.linkMemb = {0} := by
    simp only [View.unlink, View.setSched, h.linkMemb]
    decide
  have hpick : (smallBuild 8).memb.pick (v.unlink 0 1).sched.linkMemb
      (smallBuild 8).tschScheduleMaxLinks = some 1 := by
    rw [hmemb]
    decide +kernel
  have hadd : (v.addLink (smallBuild 8) 0 rxShared .normal none 1 0 true).2 =
      (v.unlink 0 1).install 0 1 rxShared .normal 0 1 0 := by
    simp only [View.addLink, if_neg hvalid, if_true, hremove, View.installLink, hpick, View.count,
      rxShared, Bool.false_eq_true, if_false]
    rfl
  have hframe : (v.unlink 0 1).slotframe 0 = ⟨0, 7, [0]⟩ := by
    rw [View.unlink_slotframe, h.slotframe]
    rfl
  rw [hadd]
  refine ⟨h.slotframeList, ?_, ?_, ?_, ⟨0, ?_⟩, ?_⟩
  · simp only [View.install, View.setSched, View.slotframe, Function.update_self]
    show (⟨((v.unlink 0 1).slotframe 0).handle, ((v.unlink 0 1).slotframe 0).size,
      ((v.unlink 0 1).slotframe 0).linksList ++ [1]⟩ : TschSlotframe) = _
    rw [hframe]
    rfl
  · show insert 1 (v.unlink 0 1).sched.linkMemb = _
    rw [hmemb]
    decide
  · rw [View.install_link_of_ne Nat.zero_ne_one]
    exact h.first
  · simp only [View.install, View.setSched, View.link, Function.update_self, hframe]
    show (⟨v.sched.currentLinkHandle % 65536, _, _, _, _, _, _, v.sched.currentLinkHandle⟩ :
      TschLink) = _
    rw [h.current]
  · show v.sched.currentLinkHandle + 1 = _
    rw [h.current]

theorem wp_replaced {n : Nat} {s : TschState} (hi : (qlCtx (smallBuild 8) True).inv s)
    (h : ∃ v, Replaced n v ∧ At none false v s) :
    Wp (qlCtx (smallBuild 8) True) (makeCall (smallBuild 8) (fun _ _ _ => true) 3 replaced)
      (fun _ t => ∃ v, Replaced (n + 1) v ∧ At none false v t) s := by
  have S : SchedCtx (smallBuild 8) (qlCtx (smallBuild 8) True) (fun _ => True) := schedCtx_ql _
  obtain ⟨v, hv, hat⟩ := h
  have hadm : (replaced.pointersValid v && replaced.hasRoom (smallBuild 8) (fun _ _ _ => true) v) =
      true := by
    simp only [replaced, ScheduleCall.pointersValid, ScheduleCall.hasRoom, hv.slotframeList,
      Option.all_some, List.mem_singleton, decide_true, Bool.and_self]
  refine Wp.call (S.wp_read hi hat (a := true) fun t ht => by rw [ht.view]; exact hadm) hi ?_
  rintro _ t hit ⟨rfl, hat⟩
  refine Wp.call (S.wp_tschScheduleAddLink hit hat 0 rxShared .normal none 1 0 true
    fun _ _ => trivial) hit ?_
  rintro _ u _ ⟨_, hau⟩
  exact Wp.ret ⟨_, hv.step, hau⟩

theorem exec_replaced (k : Nat) {n : Nat} {s : TschState} (hi : (qlCtx (smallBuild 8) True).inv s)
    (h : ∃ v, Replaced n v ∧ At none false v s) :
    ∃ t, (Prog.forEach (List.replicate k replaced)
        (makeCall (smallBuild 8) (fun _ _ _ => true) 3)).exec s = some ((), t) ∧
      ∃ v, Replaced (n + k) v ∧ At none false v t := by
  suffices hwp : Wp (qlCtx (smallBuild 8) True) (Prog.forEach (List.replicate k replaced)
      (makeCall (smallBuild 8) (fun _ _ _ => true) 3))
      (fun _ t => ∃ v, Replaced (n + k) v ∧ At none false v t) s by
    obtain ⟨_, t, hexec, ht⟩ := Wp.exec trivial (fun _ _ => trivial) hwp
    exact ⟨t, hexec, ht⟩
  induction k generalizing n s with
  | zero => exact Wp.ret h
  | succ k ih =>
      refine Wp.call (wp_replaced hi h) hi fun _ t hit ht => ?_
      have hk := ih hit ht
      rw [show n + 1 + k = n + (k + 1) by omega] at hk
      exact hk

/-- A node whose broadcast link has been replaced around 65535 times keeps the
first link and has another with its handle; the lookup returns the first one. -/
theorem handle_used_twice :
    ∃ c : Prog TschState Unit × TschState,
      Run (fun s s' => ∃ i, slotStep (smallBuild 8) i s = some s') (fun _ _ => True)
        (Prog.forEach (twoLinks ++ List.replicate 65535 replaced)
          (makeCall (smallBuild 8) (fun _ _ _ => true) 3), TschState.boot (smallBuild 8)) c ∧
      c.1 = .ret () ∧ 0 ∈ c.2.sched.allLinks ∧ 1 ∈ c.2.sched.allLinks ∧
      (c.2.link 0).handle = 0 ∧ (c.2.link 1).handle = 0 ∧
      tschScheduleGetLinkByHandle c.2 0 = some 0 := by
  -- the two links
  obtain ⟨r, hr⟩ : ∃ r, (Prog.forEach twoLinks (makeCall (smallBuild 8) (fun _ _ _ => true) 3)).exec
      (TschState.boot (smallBuild 8)) = some r := Option.isSome_iff_exists.mp (by decide +kernel)
  have hfirst : ((Prog.forEach twoLinks (makeCall (smallBuild 8) (fun _ _ _ => true) 3)).exec
      (TschState.boot (smallBuild 8))).any (fun r => decide (r.2.sched.slotframeList = [0] ∧
        r.2.slotframe 0 = ⟨0, 7, [0, 1]⟩ ∧ r.2.sched.linkMemb = {0, 1} ∧
        ((r.2.link 0).handle = 0 ∧ (r.2.link 0).timeslot = 0) ∧
        r.2.link 1 = ⟨1, 0, 0, 1, 0, rxShared, .normal, 1⟩ ∧ r.2.sched.currentLinkHandle = 2 ∧
        r.2.lock = ⟨false, false⟩ ∧ r.2.ghost.linkInFlux = none ∧ r.2.slot.pc = .asleep ∧
        r.2.slot.tschInSlotOperation = false)) = true := by
    decide +kernel
  rw [hr, Option.any_some, decide_eq_true_eq] at hfirst
  obtain ⟨hlist, hframe, hmemb, hlink, hsecond, hcurrent, hlock, hflux, hpc, hidle⟩ := hfirst
  have hi : (qlCtx (smallBuild 8) True).inv r.2 := by
    refine ⟨⟨?_, fun htx => ?_⟩, fun _ => hidle⟩
    · rw [hidle, hpc]
      decide
    · rw [hpc] at htx
      cases htx
  -- the replacements
  obtain ⟨t, hexec, v, hv, hat⟩ := exec_replaced 65535 (n := 1) hi
    ⟨r.2.view, ⟨hlist, hframe, hmemb, hlink, ⟨0, hsecond⟩, hcurrent⟩, rfl, hlock, hflux⟩
  obtain ⟨a, hlast⟩ := hv.second
  have hall : (Prog.forEach (twoLinks ++ List.replicate 65535 replaced)
      (makeCall (smallBuild 8) (fun _ _ _ => true) 3)).exec (TschState.boot (smallBuild 8)) =
      some ((), t) := by
    rw [Prog.forEach_append, Prog.exec_bind, hr]
    exact hexec
  have hsched : t.sched = v.sched := congrArg View.sched hat.view
  have hlinks : t.sched.allLinks = [0, 1] := by
    rw [hsched]
    show v.sched.slotframeList.flatMap (fun b => (v.slotframe b).linksList) = _
    rw [hv.slotframeList, List.flatMap_singleton, hv.slotframe]
  have h0 : (t.link 0).handle = 0 := by
    show (t.sched.links 0).handle = 0
    rw [hsched]
    exact hv.first.1
  have h1 : (t.link 1).handle = 0 := by
    show (t.sched.links 1).handle = 0
    rw [hsched]
    exact congrArg TschLink.handle hlast
  have hslotframes : t.sched.slotframeList = [0] ∧ (t.slotframe 0).linksList = [0, 1] := by
    refine ⟨hsched ▸ hv.slotframeList, ?_⟩
    show (t.sched.slotframes 0).linksList = _
    rw [hsched]
    exact congrArg TschSlotframe.linksList hv.slotframe
  refine ⟨_, Run.of_exec hall, rfl, ?_, ?_, h0, h1, ?_⟩
  · rw [hlinks]
    decide
  · rw [hlinks]
    decide
  · simp only [tschScheduleGetLinkByHandle, tschIsLocked, hat.lock, Bool.false_eq_true, if_false,
      hslotframes.1, List.findSome?_cons, hslotframes.2, List.find?_cons, h0, beq_self_eq_true]

end QlTsch
