/-
# `QlTsch.ScheduleRefine` — the schedule programs compute their functions

Each program of `tsch-schedule.c` computes its function on views
(`QlTsch.ScheduleView`), from any state in which the lock is free and under every
interleaving with slot interrupts.  A proof that uses this brings a context
(`SchedCtx`): an invariant that the interrupts keep and that each single write of
the programs keeps too, given what is known at that point.  `ok` is what the
invariant needs of the views that are visible outside the lock.

The contexts differ from one use to the next (who may point to which link, what
has been recorded); the programs are gone through here, once.
-/
import QlTsch.LockRules
import QlTsch.ScheduleView

namespace QlTsch

open Interleave Interleave.Prog

variable {cfg : Config}

/-! ## Writes, seen in the view -/

/-- Where a schedule program stands: the view, the lock, and the link block it is
working on. -/
structure At (flux : Option Nat) (locked : Bool) (v : View) (s : TschState) : Prop where
  view : s.view = v
  lock : s.lock = ⟨locked, false⟩
  flux : s.ghost.linkInFlux = flux

theorem At.of_owned {x : Option Nat} {b : Bool} {v : View} {s s' : TschState} (h : At x b v s)
    (ho : s'.owned = s.owned) : At x b v s' :=
  ⟨(view_of_owned ho).trans h.view, (lock_of_owned ho).trans h.lock,
    (congrArg Owned.linkInFlux ho).trans h.flux⟩

theorem field_modifyNeighbor (g : TschNeighbor → Int) (n : LinkAddr) (f : TschNeighbor → TschNeighbor)
    (s : TschState) : (fun m => g ((s.modifyNeighbor n f).queue.neighbors m)) =
      Function.update (fun m => g (s.queue.neighbors m)) n (g (f (s.queue.neighbors n))) :=
  Function.comp_update g s.queue.neighbors n (f (s.queue.neighbors n))

theorem view_countTxLink (n : LinkAddr) (o : LinkOptions) (d : Int) (s : TschState) :
    (s.countTxLink n o d).view = s.view.countTx n o d := by
  have hfield := fun g => field_modifyNeighbor g n (fun e =>
    { e with
      txLinksCount := e.txLinksCount + d
      dedicatedTxLinksCount :=
        if o.shared then e.dedicatedTxLinksCount else e.dedicatedTxLinksCount + d }) s
  refine View.ext rfl rfl (hfield TschNeighbor.txLinksCount) ?_ rfl rfl
  refine (hfield TschNeighbor.dedicatedTxLinksCount).trans ?_
  cases hs : o.shared with
  | true =>
      simp only [View.countTx, hs, if_true, Function.update_eq_self]
      rfl
  | false =>
      simp only [View.countTx, hs, Bool.false_eq_true, if_false]
      rfl

variable (cfg) in
theorem view_newNeighbor (n a : LinkAddr) (s : TschState) :
    (s.modifyNeighbor n fun _ => newNeighbor cfg a).view =
      { s.view with
        txLinks := Function.update s.view.txLinks n 0
        dedicatedTxLinks := Function.update s.view.dedicatedTxLinks n 0 } := by
  have hfield := fun g => field_modifyNeighbor g n (fun _ => newNeighbor cfg a) s
  exact View.ext rfl rfl (hfield TschNeighbor.txLinksCount)
    (hfield TschNeighbor.dedicatedTxLinksCount) rfl rfl

theorem clearCurrentLink_at {v : View} {s : TschState} (h : At none true v s) (p : Nat) :
    At (some p) true v (s.clearCurrentLink p) := ⟨h.view, h.lock, rfl⟩

/-- A link that is the next one is not in hand before `current_link` is cleared. -/
theorem testCurrentLink_at {v : View} {s : TschState} (h : At none true v s) (p : Nat) :
    At (if (s.testCurrentLink p).1 then none else some p) true v (s.testCurrentLink p).2 := by
  simp only [TschState.testCurrentLink]
  split
  · exact h
  · exact ⟨h.view, h.lock, rfl⟩

/-! ## Contexts -/

/-- A context for the schedule programs: its invariant is kept by each of their
writes. -/
structure SchedCtx (cfg : Config) (C : Ctx TschState) (ok : View → Prop) : Prop
    extends LockCtx cfg C where
  unlock : ∀ {s v}, C.inv s → At none true v s → ok v → C.inv (s.setLocked false)
  allocLink : ∀ {s v p}, C.inv s → At none true v s →
    cfg.memb.pick v.sched.linkMemb cfg.tschScheduleMaxLinks = some p →
    C.inv (s.allocLink cfg).2
  listAddLink : ∀ {s v p} b, C.inv s → At (some p) true v s → C.inv (s.listAddLink b p)
  initLink : ∀ {s v p} b o ty a ts off, C.inv s → At (some p) true v s →
    C.inv (s.initLink b p o ty a ts off)
  testLink : ∀ {s v} p, C.inv s → At none true v s → C.cond s (s.testCurrentLink p).2 →
    C.inv (s.testCurrentLink p).2
  clearLink : ∀ {s v} p, C.inv s → At none true v s → C.cond s (s.clearCurrentLink p) →
    C.inv (s.clearCurrentLink p)
  listRemoveLink : ∀ {s v p} b, C.inv s → At (some p) true v s → C.inv (s.listRemoveLink b p)
  freeLink : ∀ {s v p}, C.inv s → At (some p) true v s → C.inv (s.freeLink p)
  countTxLink : ∀ {s v} n o d, C.inv s → At none false v s → ok (v.countTx n o d) →
    C.inv (s.countTxLink n o d)
  nbrTableAdd : ∀ {s v} a, C.inv s → At none true v s → C.inv (s.nbrTableAddLladdr cfg a).2
  newNeighbor : ∀ {s v} a, C.inv s → At none true v s →
    C.inv (s.modifyNeighbor a fun _ => newNeighbor cfg a)
  allocSlotframe : ∀ {s v}, C.inv s → At none true v s → C.inv (s.allocSlotframe cfg).2
  initSlotframe : ∀ {s v} b h n, C.inv s → At none true v s → b ∉ v.sched.slotframeList →
    C.inv (s.initSlotframe b h n)
  listAddSlotframe : ∀ {s v} b, C.inv s → At none true v s → C.inv (s.listAddSlotframe b)
  freeSlotframe : ∀ {s v} b, C.inv s → At none true v s → C.inv (s.freeSlotframe b)
  listRemoveSlotframe : ∀ {s v} b, C.inv s → At none true v s →
    (v.slotframe b).linksList = [] → C.inv (s.listRemoveSlotframe b)

variable {C : Ctx TschState} {ok : View → Prop}

namespace SchedCtx

variable (S : SchedCtx cfg C ok)
include S

theorem at_rely {x : Option Nat} {b : Bool} {v : View} {s s' : TschState} (hi : C.inv s)
    (h : At x b v s) (hr : C.rely s s') : At x b v s' :=
  h.of_owned (S.toLockCtx.owned_rely hi hr)

theorem wp_read {β : Type} {x : Option Nat} {b : Bool} {v : View} {s : TschState} (hi : C.inv s)
    (h : At x b v s) {g : TschState → β} {a : β} (hg : ∀ t, At x b v t → g t = a) :
    Wp C (Prog.read g) (fun r t => r = a ∧ At x b v t) s :=
  Wp.read hi fun t ht _ => ⟨hg t (S.at_rely hi h ht), S.at_rely hi h ht⟩

theorem wp_modify {x y : Option Nat} {b c : Bool} {v w : View} {s : TschState} (hi : C.inv s)
    (h : At x b v s) {f : TschState → TschState}
    (hinv : ∀ t, C.inv t → At x b v t → C.cond t (f t) → C.inv (f t))
    (hf : ∀ t, At x b v t → At y c w (f t)) :
    Wp C (Prog.modify f) (fun _ t => At y c w t) s :=
  Wp.modify hi fun t ht hit hc =>
    ⟨hinv t hit (S.at_rely hi h ht) hc, hf t (S.at_rely hi h ht)⟩

theorem wp_getLock {v : View} {s : TschState} (hi : C.inv s) (h : At none false v s) :
    Wp C tschGetLock (fun got t => got = true ∧ At none true v t) s := by
  have hfree : s.lock.tschLocked = false := by rw [h.lock]
  refine (wp_tschGetLock_free S.toLockCtx hi hfree).mono hi ?_
  rintro got t _ ⟨hgot, ho⟩
  refine ⟨hgot, ?_, congrArg Owned.lock ho, ?_⟩
  · exact (congrArg Owned.view ho).trans h.view
  · exact (congrArg Owned.linkInFlux ho).trans h.flux

theorem wp_releaseLock {v : View} {s : TschState} (hi : C.inv s) (h : At none true v s)
    (hok : ok v) : Wp C tschReleaseLock (fun _ t => At none false v t) s :=
  S.wp_modify hi h (fun _ hit hat _ => S.unlock hit hat hok) fun t ht =>
    ⟨ht.view, by simp only [TschState.setLocked, ht.lock], ht.flux⟩

/-! ## Neighbors -/

omit S in
theorem getNbr_at {x : Option Nat} {v : View} {t : TschState} (h : At x false v t) (a : LinkAddr) :
    tschQueueGetNbr t a = if a ∈ v.nbrs then some a else none := by
  rw [← h.view]
  simp only [tschQueueGetNbr, tschIsLocked, h.lock]
  rfl

theorem wp_tschQueueAddNbr {v : View} {s : TschState} (hi : C.inv s) (h : At none false v s)
    (a : LinkAddr) (hok : ok (View.addNbr cfg a v).2) :
    Wp C (tschQueueAddNbr cfg a)
      (fun r t => r = (View.addNbr cfg a v).1 ∧ At none false (View.addNbr cfg a v).2 t) s := by
  refine Wp.call (S.wp_read hi h fun t ht => getNbr_at ht a) hi ?_
  rintro r t hit ⟨hr, hat⟩
  subst hr
  by_cases ha : a ∈ v.nbrs
  · simp only [View.addNbr, ha, if_true]
    exact Wp.ret ⟨rfl, hat⟩
  · simp only [View.addNbr, ha, if_false] at hok ⊢
    refine Wp.call (S.wp_getLock hit hat) hit ?_
    rintro got u hiu ⟨hgot, hau⟩
    subst hgot
    -- the entry, then its contents
    refine Wp.bind (Wp.update hiu fun w hw hiw _ => ⟨S.nbrTableAdd a hiw (S.at_rely hiu hau hw), ?_⟩)
    have haw := S.at_rely hiu hau hw
    have hiw' := S.nbrTableAdd a hiw haw
    have hnbrs : w.queue.tschNeighbors = v.nbrs := congrArg View.nbrs haw.view
    simp only [TschState.nbrTableAddLladdr, hnbrs, ha, if_false] at hiw' ⊢
    cases hadd : cfg.nbrTableAdd v.nbrs a with
    | none =>
        simp only [hadd] at hok hiw' ⊢
        refine Wp.call (S.wp_releaseLock hiw' haw hok) hiw' fun _ x hix hax => ?_
        exact Wp.ret ⟨rfl, hax⟩
    | some i =>
        simp only [hadd] at hok hiw' ⊢
        have hat' : At none true { v with nbrs := v.nbrs.insertIdx i a }
            { w with queue := { w.queue with tschNeighbors := v.nbrs.insertIdx i a } } := by
          refine ⟨?_, haw.lock, haw.flux⟩
          rw [← haw.view]
          rfl
        refine Wp.call (S.wp_modify (y := none) (c := true) hiw' hat'
          (fun x hix hax _ => S.newNeighbor a hix hax)
          (fun x hax => ⟨(view_newNeighbor cfg a a x).trans (by rw [hax.view]), hax.lock,
            hax.flux⟩)) hiw' fun _ x hix hax => ?_
        refine Wp.call (S.wp_releaseLock hix hax hok) hix fun _ y hiy hay => ?_
        exact Wp.ret ⟨rfl, hay⟩

theorem wp_countTxLink {v : View} {s : TschState} (hi : C.inv s) (h : At none false v s)
    (n : LinkAddr) (o : LinkOptions) (d : Int) (hok : ok (v.countTx n o d)) :
    Wp C (Prog.modify (TschState.countTxLink n o d)) (fun _ t => At none false (v.countTx n o d) t)
      s :=
  S.wp_modify hi h (fun _ hit hat _ => S.countTxLink n o d hit hat hok) fun t ht =>
    ⟨(view_countTxLink n o d t).trans (by rw [ht.view]), ht.lock, ht.flux⟩

theorem wp_uncountLink {v : View} {s : TschState} (hi : C.inv s) (h : At none false v s)
    (o : LinkOptions) (a : LinkAddr) (hok : ok (v.uncount o a)) :
    Wp C (uncountLink o a) (fun _ t => At none false (v.uncount o a) t) s := by
  cases htx : o.tx with
  | false =>
      simp only [uncountLink, View.uncount, htx, Bool.false_eq_true, if_false, false_and]
      exact Wp.ret h
  | true =>
      simp only [uncountLink, View.uncount, htx, if_true, true_and] at hok ⊢
      refine Wp.call (S.wp_read hi h fun t ht => getNbr_at ht a) hi ?_
      rintro r t hit ⟨hr, hat⟩
      subst hr
      by_cases ha : a ∈ v.nbrs
      · simp only [ha, if_true] at hok ⊢
        exact S.wp_countTxLink hit hat a o (-1) hok
      · simp only [ha, if_false]
        exact Wp.ret hat

theorem wp_countLink {v : View} {s : TschState} (hi : C.inv s) (h : At none false v s)
    (o : LinkOptions) (a : LinkAddr) (hadd : o.tx = true → ok (View.addNbr cfg a v).2)
    (hok : o.tx = true → ok (v.count cfg o a)) :
    Wp C (countLink cfg o a) (fun _ t => At none false (v.count cfg o a) t) s := by
  cases htx : o.tx with
  | false =>
      simp only [countLink, View.count, htx, Bool.false_eq_true, if_false]
      exact Wp.ret h
  | true =>
      have hok' := hok htx
      simp only [countLink, View.count, htx, if_true] at hok' ⊢
      refine Wp.call (S.wp_tschQueueAddNbr hi h a (hadd htx)) hi ?_
      rintro r t hit ⟨hr, hat⟩
      subst hr
      cases hr : View.addNbr cfg a v with
      | mk n w =>
          rw [hr] at hat hok'
          cases n with
          | none => exact Wp.ret hat
          | some n => exact S.wp_countTxLink hit hat n o 1 hok'

/-! ## Removing links -/

/-- However the test comes out, the link is in hand after it. -/
theorem wp_abortCurrentLink {v : View} {s : TschState} (hi : C.inv s) (h : At none true v s)
    (p : Nat) : Wp C (abortCurrentLink p) (fun _ t => At (some p) true v t) s := by
  refine Wp.bind (Wp.update hi fun t ht hit hc => ?_)
  have hat := S.at_rely hi h ht
  have hit' := S.testLink p hit hat hc
  have hat' := testCurrentLink_at hat p
  refine ⟨hit', ?_⟩
  cases htest : (t.testCurrentLink p).1 with
  | true =>
      rw [htest] at hat'
      exact S.wp_modify hit' hat' (fun x hix hax hc => S.clearLink p hix hax hc)
        (fun x hax => clearCurrentLink_at hax p)
  | false =>
      rw [htest] at hat'
      exact Wp.ret hat'

/-- **`tsch_schedule_remove_link`.** -/
theorem wp_tschScheduleRemoveLink {v : View} {s : TschState} (hi : C.inv s) (h : At none false v s)
    (b p : Nat) (hok : ∀ w ∈ v.removeLinkVisible b p, ok w) :
    Wp C (tschScheduleRemoveLink (some b) (some p))
      (fun r t => r = (v.removeLink b p).1 ∧ At none false (v.removeLink b p).2 t) s := by
  refine Wp.call (S.wp_read hi h
    (a := (v.link p).slotframeHandle == (v.slotframe b).handle)
    (fun t ht => by rw [← ht.view]; rfl)) hi ?_
  rintro r t hit ⟨hr, hat⟩
  subst hr
  by_cases hh : (v.link p).slotframeHandle = (v.slotframe b).handle
  · simp only [View.removeLinkVisible, View.removeLink, hh, if_true] at hok ⊢
    have hunlink := hok _ List.mem_cons_self
    have hremove := hok _ (List.mem_cons_of_mem _ List.mem_cons_self)
    rw [beq_self_eq_true]
    refine Wp.call (S.wp_getLock hit hat) hit ?_
    rintro got u hiu ⟨hgot, hau⟩
    subst hgot
    refine Wp.call (S.wp_read hiu hau (a := ((v.link p).linkOptions, (v.link p).addr))
      (fun t ht => by rw [← ht.view]; rfl)) hiu ?_
    rintro saved w hiw ⟨hsaved, haw⟩
    subst hsaved
    -- the pointer, the list, the block
    refine Wp.call (S.wp_abortCurrentLink hiw haw p) hiw fun _ x hix hax => ?_
    refine Wp.call (S.wp_modify (y := some p) (c := true)
      (w := v.setSched (v.sched.setSlotframe b
        { v.slotframe b with linksList := (v.slotframe b).linksList.erase p })) hix hax
      (fun y hiy hay _ => S.listRemoveLink b hiy hay) (fun y hay => by
        refine ⟨?_, hay.lock, hay.flux⟩
        rw [← hay.view]
        rfl)) hix fun _ y hiy hay => ?_
    refine Wp.call (S.wp_modify (y := none) (c := true) (w := v.unlink b p) hiy hay
      (fun z hiz haz _ => S.freeLink hiz haz) (fun z haz => by
        refine ⟨?_, haz.lock, rfl⟩
        have hz : (z.freeLink p).view = z.view.setSched
            { z.view.sched with linkMemb := z.view.sched.linkMemb.erase p } := rfl
        rw [hz, haz.view]
        rfl)) hiy fun _ z hiz haz => ?_
    refine Wp.call (S.wp_releaseLock hiz haz hunlink) hiz fun _ z' hiz' haz' => ?_
    refine Wp.call (S.wp_uncountLink hiz' haz' _ _ hremove) hiz' fun _ z'' _ haz'' => ?_
    exact Wp.ret ⟨rfl, haz''⟩
  · simp only [View.removeLink, hh, if_false]
    rw [beq_false_of_ne hh]
    exact Wp.ret ⟨rfl, hat⟩

theorem wp_removeLinkIfAt {v : View} {s : TschState} (hi : C.inv s) (h : At none false v s)
    (b ts off p : Nat) (hok : ∀ w ∈ v.removeLinkIfAtVisible b ts off p, ok w) :
    Wp C (removeLinkIfAt b ts off p) (fun r t => r = (v.removeLinkIfAt b ts off p).1 ∧
      At none false (v.removeLinkIfAt b ts off p).2 t) s := by
  refine Wp.call (S.wp_read hi h
    (a := decide ((v.link p).timeslot = ts ∧ (v.link p).channelOffset = off))
    (fun t ht => by
      rw [← ht.view, Bool.decide_and]
      rfl)) hi ?_
  rintro r t hit ⟨hr, hat⟩
  subst hr
  by_cases hhere : (v.link p).timeslot = ts ∧ (v.link p).channelOffset = off
  · simp only [View.removeLinkIfAtVisible, View.removeLinkIfAt, hhere, and_self, if_true] at hok ⊢
    exact S.wp_tschScheduleRemoveLink hit hat b p hok
  · simp only [View.removeLinkIfAt, hhere, if_false, decide_false]
    exact Wp.ret ⟨rfl, hat⟩

theorem wp_removeLinksAt (b ts off : Nat) : ∀ (ls : List Nat) {v : View} {s : TschState},
    C.inv s → At none false v s → (∀ w ∈ v.removeLinksAtVisible b ts off ls, ok w) →
    Wp C (removeLinksAt b ts off ls) (fun r t => r = (v.removeLinksAt b ts off ls).1 ∧
      At none false (v.removeLinksAt b ts off ls).2 t) s
  | [], v, s, _, h, _ => ⟨rfl, h⟩
  | p :: ls, v, s, hi, h, hok => by
      simp only [View.removeLinksAtVisible, List.mem_append] at hok
      refine Wp.call (S.wp_removeLinkIfAt hi h b ts off p fun w hw => hok w (.inl hw)) hi ?_
      rintro r t hit ⟨hr, hat⟩
      refine Wp.call (wp_removeLinksAt b ts off ls hit hat fun w hw => hok w (.inr hw)) hit ?_
      rintro r' u _ ⟨hr', hau⟩
      exact Wp.ret ⟨by rw [hr, hr']; rfl, hau⟩

/-- **`tsch_schedule_remove_link_by_timeslot`.** -/
theorem wp_tschScheduleRemoveLinkByTimeslot {v : View} {s : TschState} (hi : C.inv s)
    (h : At none false v s) (b ts off : Nat)
    (hok : ∀ w ∈ v.removeLinksAtVisible b ts off (v.slotframe b).linksList, ok w) :
    Wp C (tschScheduleRemoveLinkByTimeslot (some b) ts off)
      (fun r t => r = (v.removeLinkByTimeslot b ts off).1 ∧
        At none false (v.removeLinkByTimeslot b ts off).2 t) s := by
  refine Wp.call (S.wp_read hi h (a := false) (fun t ht => by simp only [tschIsLocked, ht.lock]))
    hi ?_
  rintro r t hit ⟨hr, hat⟩
  subst hr
  refine Wp.call (S.wp_read hit hat (a := (v.slotframe b).linksList)
    (fun u hu => by rw [← hu.view]; rfl)) hit ?_
  rintro ls u hiu ⟨hls, hau⟩
  subst hls
  exact S.wp_removeLinksAt b ts off _ hiu hau hok

/-! ## Adding links -/

theorem wp_installLink {v : View} {s : TschState} (hi : C.inv s) (h : At none false v s)
    (b : Nat) (o : LinkOptions) (ty : LinkType) (a : LinkAddr) (ts off : Nat)
    (hok : ∀ w ∈ v.installLinkVisible cfg b o ty a ts off, ok w) :
    Wp C (installLink cfg b o ty a ts off)
      (fun r t => r = (v.installLink cfg b o ty a ts off).1 ∧
        At none false (v.installLink cfg b o ty a ts off).2 t) s := by
  refine Wp.call (S.wp_getLock hi h) hi ?_
  rintro got t hit ⟨hgot, hat⟩
  subst hgot
  refine Wp.bind (Wp.update hit fun u hu hiu _ => ?_)
  have hau := S.at_rely hit hat hu
  have hmemb : u.sched.linkMemb = v.sched.linkMemb := congrArg (fun w => w.sched.linkMemb) hau.view
  cases hp : cfg.memb.pick v.sched.linkMemb cfg.tschScheduleMaxLinks with
  | none =>
      simp only [View.installLinkVisible, View.installLink, hp, TschState.allocLink, hmemb] at hok ⊢
      refine ⟨hiu, ?_⟩
      refine Wp.call (S.wp_releaseLock hiu hau (hok v (by simp))) hiu fun _ x _ hax => ?_
      exact Wp.ret ⟨rfl, hax⟩
  | some p =>
      have halloc := S.allocLink hiu hau hp
      simp only [View.installLinkVisible, View.installLink, hp, TschState.allocLink, hmemb]
        at hok halloc ⊢
      refine ⟨halloc, ?_⟩
      have hax : At (some p) true (v.setSched { v.sched with
          linkMemb := insert p v.sched.linkMemb }) ((u.setSched { u.sched with
            linkMemb := insert p v.sched.linkMemb }).setLinkInFlux (some p)) := by
        refine ⟨?_, hau.lock, rfl⟩
        rw [← hau.view]
        rfl
      refine Wp.call (S.wp_modify (y := some p) (c := true)
        (w := v.setSched { v.sched.setSlotframe b
          { v.slotframe b with linksList := (v.slotframe b).linksList ++ [p] } with
          linkMemb := insert p v.sched.linkMemb }) halloc hax
        (fun x hix hax _ => S.listAddLink b hix hax) (fun x hax => by
          refine ⟨?_, hax.lock, hax.flux⟩
          have hx : (x.listAddLink b p).view = x.view.setSched (x.view.sched.setSlotframe b
              { x.view.slotframe b with linksList := (x.view.slotframe b).linksList ++ [p] }) := rfl
          rw [hx, hax.view]
          rfl)) halloc fun _ x hix hax => ?_
      refine Wp.call (S.wp_modify (y := none) (c := true) (w := v.install b p o ty a ts off) hix hax
        (fun y hiy hay _ => S.initLink b o ty a ts off hiy hay) (fun y hay => by
          refine ⟨?_, hay.lock, rfl⟩
          have hy : (y.initLink b p o ty a ts off).view = y.view.setSched { y.view.sched.setLink p
              { handle := y.view.sched.currentLinkHandle % 65536
                addr := a
                slotframeHandle := (y.view.slotframe b).handle
                timeslot := ts
                channelOffset := off
                linkOptions := o
                linkType := ty
                serial := y.view.sched.currentLinkHandle } with
              currentLinkHandle := y.view.sched.currentLinkHandle + 1 } := rfl
          rw [hy, hay.view]
          simp only [View.install, View.setSched, View.slotframe, ScheduleVars.setLink,
            ScheduleVars.setSlotframe, Function.update_self])) hix fun _ y hiy hay => ?_
      refine Wp.call (S.wp_releaseLock hiy hay (hok _ (by split <;> simp))) hiy
        fun _ z hiz haz => ?_
      refine Wp.call (S.wp_countLink hiz haz o a (fun htx => hok _ (by simp [htx]))
        (fun htx => hok _ (by simp [htx]))) hiz fun _ z' _ haz' => ?_
      exact Wp.ret ⟨rfl, haz'⟩

/-- **`tsch_schedule_add_link`.** -/
theorem wp_tschScheduleAddLink {v : View} {s : TschState} (hi : C.inv s) (h : At none false v s)
    (b : Nat) (o : LinkOptions) (ty : LinkType) (a : Option LinkAddr) (ts off : Nat) (rm : Bool)
    (hok : ∀ w ∈ v.addLinkVisible cfg b o ty a ts off rm, ok w) :
    Wp C (tschScheduleAddLink cfg (some b) o ty a ts off rm)
      (fun r t => r = (v.addLink cfg b o ty a ts off rm).1 ∧
        At none false (v.addLink cfg b o ty a ts off rm).2 t) s := by
  refine Wp.call (S.wp_read hi h (a := decide ((ts : Int) > (v.slotframe b).size - 1))
    (fun t ht => by rw [← ht.view]; rfl)) hi ?_
  rintro r t hit ⟨hr, hat⟩
  subst hr
  by_cases hbad : (ts : Int) > (v.slotframe b).size - 1
  · simp only [View.addLink, hbad, if_true, decide_true]
    exact Wp.ret ⟨rfl, hat⟩
  · simp only [View.addLink, hbad, if_false, decide_false, Bool.false_eq_true]
    cases rm with
    | false =>
        simp only [View.addLinkVisible, Bool.false_eq_true, if_false] at hok ⊢
        exact S.wp_installLink hit hat b o ty _ ts off hok
    | true =>
        simp only [View.addLinkVisible, if_true, List.mem_append] at hok ⊢
        refine Wp.call (S.wp_tschScheduleRemoveLinkByTimeslot hit hat b ts off
          fun w hw => hok w (.inl hw)) hit ?_
        rintro _ u hiu ⟨_, hau⟩
        exact S.wp_installLink hiu hau b o ty _ ts off fun w hw => hok w (.inr hw)

/-! ## Slotframes -/

/-- **`tsch_schedule_add_slotframe`.** -/
theorem wp_tschScheduleAddSlotframe {v : View} {s : TschState} (hi : C.inv s)
    (h : At none false v s) (handle size : Nat)
    (hfresh : ∀ b ∈ v.sched.slotframeList, b ∈ v.sched.slotframeMemb)
    (hok : ok v ∧ ok (v.addSlotframe cfg handle size).2) :
    Wp C (tschScheduleAddSlotframe cfg handle size)
      (fun r t => r = (v.addSlotframe cfg handle size).1 ∧
        At none false (v.addSlotframe cfg handle size).2 t) s := by
  simp only [tschScheduleAddSlotframe]
  by_cases hsize : size = 0
  · simp only [View.addSlotframe, hsize, true_or, if_true]
    exact Wp.ret ⟨rfl, h⟩
  · simp only [hsize, if_false]
    refine Wp.call (S.wp_read hi h
      (a := v.sched.slotframeList.find? fun b => (v.slotframe b).handle == handle)
      (fun t ht => by
        rw [← ht.view]
        simp only [tschScheduleGetSlotframeByHandle, tschIsLocked, ht.lock]
        rfl)) hi ?_
    rintro r t hit ⟨hr, hat⟩
    subst hr
    cases hfind : v.sched.slotframeList.find? fun b => (v.slotframe b).handle == handle with
    | some b =>
        have hany : (v.sched.slotframeList.any fun b => (v.slotframe b).handle == handle) = true :=
          List.any_eq_true.mpr ⟨b, List.mem_of_find?_eq_some hfind,
            List.find?_some (p := fun b => (v.slotframe b).handle == handle) hfind⟩
        simp only [View.addSlotframe, hany, or_true, if_true]
        exact Wp.ret ⟨rfl, hat⟩
    | none =>
        have hany : (v.sched.slotframeList.any fun b => (v.slotframe b).handle == handle) = false := by
          rw [Bool.eq_false_iff]
          intro hc
          obtain ⟨b, hb, hh⟩ := List.any_eq_true.mp hc
          exact List.find?_eq_none.mp hfind b hb hh
        simp only [View.addSlotframe, hsize, hany, Bool.false_eq_true, or_self, if_false] at hok ⊢
        refine Wp.call (S.wp_getLock hit hat) hit ?_
        rintro got u hiu ⟨hgot, hau⟩
        subst hgot
        refine Wp.bind (Wp.update hiu fun w hw hiw _ => ?_)
        have haw := S.at_rely hiu hau hw
        have halloc := S.allocSlotframe hiw haw
        have hmemb : w.sched.slotframeMemb = v.sched.slotframeMemb :=
          congrArg (fun w => w.sched.slotframeMemb) haw.view
        refine ⟨halloc, ?_⟩
        cases hp : cfg.memb.pick v.sched.slotframeMemb cfg.tschScheduleMaxSlotframes with
        | none =>
            simp only [TschState.allocSlotframe, hmemb, hp] at halloc hok ⊢
            refine Wp.call (S.wp_releaseLock halloc haw hok.1) halloc fun _ x _ hax => ?_
            exact Wp.ret ⟨rfl, hax⟩
        | some b =>
            simp only [TschState.allocSlotframe, hmemb, hp] at halloc hok ⊢
            have hax : At none true (v.setSched { v.sched with
                slotframeMemb := insert b v.sched.slotframeMemb }) (w.setSched { w.sched with
                  slotframeMemb := insert b v.sched.slotframeMemb }) := by
              refine ⟨?_, haw.lock, haw.flux⟩
              rw [← haw.view]
              rfl
            have hnew : b ∉ v.sched.slotframeList := fun hb =>
              cfg.memb.pick_fresh hp (hfresh b hb)
            refine Wp.call (S.wp_modify (y := none) (c := true)
              (w := v.setSched { v.sched.setSlotframe b ⟨handle, size, []⟩ with
                slotframeMemb := insert b v.sched.slotframeMemb }) halloc hax
              (fun x hix hax _ => S.initSlotframe b handle size hix hax hnew) (fun x hax => by
                refine ⟨?_, hax.lock, hax.flux⟩
                have hx : (x.initSlotframe b handle size).view =
                    x.view.setSched (x.view.sched.setSlotframe b ⟨handle, size, []⟩) := rfl
                rw [hx, hax.view]
                rfl)) halloc fun _ x hix hax => ?_
            refine Wp.call (S.wp_modify (y := none) (c := true)
              (w := v.setSched { v.sched.setSlotframe b ⟨handle, size, []⟩ with
                slotframeMemb := insert b v.sched.slotframeMemb
                slotframeList := v.sched.slotframeList ++ [b] }) hix hax
              (fun y hiy hay _ => S.listAddSlotframe b hiy hay) (fun y hay => by
                refine ⟨?_, hay.lock, hay.flux⟩
                have hy : (y.listAddSlotframe b).view = y.view.setSched { y.view.sched with
                    slotframeList := y.view.sched.slotframeList ++ [b] } := rfl
                rw [hy, hay.view]
                rfl)) hix fun _ y hiy hay => ?_
            refine Wp.call (S.wp_releaseLock hiy hay hok.2) hiy fun _ z _ haz => ?_
            exact Wp.ret ⟨rfl, haz⟩

theorem wp_dropSlotframe {v : View} {s : TschState} (hi : C.inv s) (h : At none false v s) (b : Nat)
    (hempty : (v.slotframe b).linksList = []) (hok : ok (v.dropSlotframe b)) :
    Wp C (do
      if ← tschGetLock then
        Prog.modify (TschState.freeSlotframe b)
        Prog.modify (TschState.listRemoveSlotframe b)
        tschReleaseLock
        pure true
      else pure false) (fun r t => r = true ∧ At none false (v.dropSlotframe b) t) s := by
  refine Wp.call (S.wp_getLock hi h) hi ?_
  rintro got t hit ⟨hgot, hat⟩
  subst hgot
  refine Wp.call (S.wp_modify (y := none) (c := true)
    (w := v.setSched { v.sched with slotframeMemb := v.sched.slotframeMemb.erase b }) hit hat
    (fun u hiu hau _ => S.freeSlotframe b hiu hau) (fun u hau => by
      refine ⟨?_, hau.lock, hau.flux⟩
      rw [← hau.view]
      rfl)) hit fun _ u hiu hau => ?_
  refine Wp.call (S.wp_modify (y := none) (c := true) (w := v.dropSlotframe b) hiu hau
    (fun w hiw haw _ => S.listRemoveSlotframe b hiw haw hempty) (fun w haw => by
      refine ⟨?_, haw.lock, haw.flux⟩
      have hw : (w.listRemoveSlotframe b).view = w.view.setSched { w.view.sched with
          slotframeList := w.view.sched.slotframeList.erase b } := rfl
      rw [hw, haw.view]
      rfl)) hiu fun _ w hiw haw => ?_
  refine Wp.call (S.wp_releaseLock hiw haw hok) hiw fun _ x _ hax => ?_
  exact Wp.ret ⟨rfl, hax⟩

/-- **`tsch_schedule_remove_slotframe`.**  The loop over the links is followed by
what each removal keeps (`I`); it ends because each removal shortens the list. -/
theorem wp_tschScheduleRemoveSlotframe {I : View → Prop} {fuel b : Nat}
    (hstep : ∀ v p, I v → (v.slotframe b).linksList.head? = some p →
      I (v.removeLink b p).2 ∧ ∀ w ∈ v.removeLinkVisible b p, ok w)
    (hless : C.live → ∀ v p, I v → (v.slotframe b).linksList.head? = some p →
      ((v.removeLink b p).2.slotframe b).linksList.length < (v.slotframe b).linksList.length)
    (hdrop : ∀ v, I v → (v.slotframe b).linksList = [] → ok (v.dropSlotframe b))
    {v : View} {s : TschState} (hi : C.inv s) (h : At none false v s) (hI : I v)
    (hfuel : C.live → (v.slotframe b).linksList.length < fuel) :
    Wp C (tschScheduleRemoveSlotframe fuel (some b)) (fun r t => r = true ∧
      ∃ w, I w ∧ (w.slotframe b).linksList = [] ∧ At none false (w.dropSlotframe b) t) s := by
  have hloop : Wp C (Prog.loop fuel (Prog.read fun s => (s.slotframe b).linksList.head?)
      (removeHead b)) (fun _ t => ∃ w, I w ∧ (w.slotframe b).linksList = [] ∧ At none false w t)
      s := by
    refine Wp.loop (J := fun n t => ∃ w, I w ∧ At none false w t ∧
      (C.live → (w.slotframe b).linksList.length ≤ n)) (fun n t hit ⟨w, hIw, hat, hn⟩ => ?_)
      fuel hfuel hi ⟨v, hI, h, fun _ => le_rfl⟩
    refine (S.wp_read hit hat (a := (w.slotframe b).linksList.head?)
      (fun u hu => by rw [← hu.view]; rfl)).mono hit ?_
    rintro x u hiu ⟨hx, hau⟩
    subst hx
    cases hhead : (w.slotframe b).linksList.head? with
    | none => exact ⟨w, hIw, List.head?_eq_none_iff.mp hhead, hau⟩
    | some p =>
        obtain ⟨hIp, hokp⟩ := hstep w p hIw hhead
        have hpos : 0 < (w.slotframe b).linksList.length := by
          rw [List.length_pos_iff, ne_eq, ← List.head?_eq_none_iff, hhead]
          exact Option.some_ne_none p
        refine ⟨fun hl => by have := hn hl; omega, ?_⟩
        refine Wp.call (S.wp_tschScheduleRemoveLink hiu hau b p hokp) hiu ?_
        rintro _ x _ ⟨_, hax⟩
        refine Wp.ret ⟨_, hIp, hax, fun hl => ?_⟩
        have := hless hl w p hIw hhead
        have := hn hl
        omega
  refine Wp.call hloop hi ?_
  rintro _ t hit ⟨w, hIw, hempty, hat⟩
  refine (S.wp_dropSlotframe hit hat b hempty (hdrop w hIw hempty)).mono hit ?_
  rintro r u _ ⟨hr, hau⟩
  exact ⟨hr, w, hIw, hempty, hau⟩

end SchedCtx
end QlTsch
