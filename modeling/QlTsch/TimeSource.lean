/-
# `QlTsch.TimeSource` — at most one time source

A node synchronises to one of its neighbors.  Which one is a flag in each entry of the
neighbor table, so that it is one is nobody's field but the work of
`tsch_queue_update_time_source`: it clears the first entry it finds flagged, after it has
flagged the new one.

What the calls need is small: the lock, which addresses the table lists, and the flags
(`Sources`).  Everything else may change at any moment (`Aside`): slots go by, the node
becomes coordinator or not, queues and link counters move.  `one_time_source` is about every
sequence of the three calls that write the table or the flags, from any state with a free
lock and at most one time source.
-/
import QlTsch.Lib.Guarantee
import QlTsch.NodeCalls

namespace QlTsch

open Interleave Interleave.Prog

variable {cfg : Config}

/-! ## The time source -/

/-- What decides who is the time source. -/
structure Sources where
  lock : LockVars
  nbrs : List LinkAddr
  flag : LinkAddr → Bool

def TschState.sources (s : TschState) : Sources where
  lock := s.lock
  nbrs := s.queue.tschNeighbors
  flag n := (s.queue.neighbors n).isTimeSource

/-- `n` has an entry, and the entry is flagged. -/
def IsTimeSource (v : Sources) (n : LinkAddr) : Prop := n ∈ v.nbrs ∧ v.flag n = true

/-- `a` is the one time source; `none` if there is none. -/
def SourceIs (v : Sources) (a : Option LinkAddr) : Prop := ∀ n, IsTimeSource v n ↔ a = some n

def AtMostOneSource (v : Sources) : Prop := ∀ m n, IsTimeSource v m → IsTimeSource v n → m = n

theorem SourceIs.atMostOne {v : Sources} {a : Option LinkAddr} (h : SourceIs v a) :
    AtMostOneSource v := by
  intro m n hm hn
  exact Option.some.inj (((h m).mp hm).symm.trans ((h n).mp hn))

theorem AtMostOneSource.exists {v : Sources} (h : AtMostOneSource v) : ∃ a, SourceIs v a := by
  by_cases hnone : ∃ n, IsTimeSource v n
  · obtain ⟨n, hn⟩ := hnone
    refine ⟨some n, fun m => ⟨fun hm => ?_, ?_⟩⟩
    · rw [h n m hn hm]
    · rintro ⟨rfl⟩
      exact hn
  · refine ⟨none, fun m => ⟨fun hm => absurd ⟨m, hm⟩ hnone, fun hm => ?_⟩⟩
    cases hm

theorem SourceIs.getTimeSource {s : TschState} {a : Option LinkAddr} (h : SourceIs s.sources a)
    (hfree : tschIsLocked s = false) : tschQueueGetTimeSource s = a := by
  simp only [tschQueueGetTimeSource, hfree, Bool.false_eq_true, if_false]
  cases hfind : s.queue.tschNeighbors.find? fun n => (s.queue.neighbors n).isTimeSource with
  | some n => exact ((h n).mp ⟨List.mem_of_find?_eq_some hfind, List.find?_some hfind⟩).symm
  | none =>
      cases a with
      | none => rfl
      | some m =>
          obtain ⟨hmem, hflag⟩ := (h m).mpr rfl
          exact absurd hflag (List.find?_eq_none.mp hfind m hmem)

/-! ## Steps on the table -/

namespace SourceIs

variable {v w : Sources} {a : Option LinkAddr}

theorem congr (h : SourceIs v a) (hnbrs : w.nbrs = v.nbrs) (hflag : w.flag = v.flag) :
    SourceIs w a := by
  intro n
  rw [IsTimeSource, hnbrs, hflag]
  exact h n

theorem add (h : SourceIs v a) {m : LinkAddr} (hm : m ∉ v.nbrs)
    (hnbrs : ∀ n, n ∈ w.nbrs ↔ n = m ∨ n ∈ v.nbrs)
    (hflag : w.flag = Function.update v.flag m false) : SourceIs w a := by
  intro n
  rw [← h n, IsTimeSource, IsTimeSource, hnbrs, hflag]
  by_cases hn : n = m
  · subst hn
    simp [hm]
  · simp [hn]

theorem remove (h : SourceIs v a) {m : LinkAddr} (hm : v.flag m = false)
    (hnbrs : w.nbrs = v.nbrs.erase m) (hflag : w.flag = v.flag) : SourceIs w a := by
  intro n
  rw [← h n, IsTimeSource, IsTimeSource, hnbrs, hflag]
  by_cases hn : n = m
  · subst hn
    simp [hm]
  · rw [List.mem_erase_of_ne hn]

theorem switch (h : SourceIs v a) {b : Option LinkAddr} (hnew : ∀ m, b = some m → m ∈ v.nbrs)
    (hnbrs : w.nbrs = v.nbrs)
    (hflag : ∀ n, w.flag n = if b = some n then true else if a = some n then false else v.flag n) :
    SourceIs w b := by
  intro n
  rw [IsTimeSource, hnbrs, hflag]
  by_cases hb : b = some n
  · simp [hb, hnew n hb]
  · by_cases ha : a = some n
    · simp [hb, ha]
    · rw [if_neg hb, if_neg ha]
      exact ⟨fun hn => absurd ((h n).mp hn) ha, fun hn => absurd hn hb⟩

end SourceIs

/-! ## What may come between -/

/-- The slot operation, or a change that has nothing to do with the time source. -/
inductive Aside (cfg : Config) : TschState → TschState → Prop
  | slot {i : SlotInput} {s s' : TschState} : slotStep cfg i s = some s' → Aside cfg s s'
  | other {s s' : TschState} : s'.sources = s.sources → Aside cfg s s'

theorem Aside.sources {s s' : TschState} (h : Aside cfg s s') : s'.sources = s.sources := by
  cases h with
  | slot hs =>
      have howned := slotStep_owned hs
      exact congrArg (fun o : Owned => (⟨o.lock, o.view.nbrs, o.isTimeSource⟩ : Sources)) howned
  | other h => exact h

/-- The time source keeps its entry. -/
def KeepsSource (s s' : TschState) : Prop :=
  ∀ n, IsTimeSource s.sources n → n ∈ s'.queue.tschNeighbors

theorem KeepsSource.of_nbrs {s s' : TschState} (h : s'.queue.tschNeighbors = s.queue.tschNeighbors) :
    KeepsSource s s' := by
  intro n hn
  rw [h]
  exact hn.1

def sourceCtx (cfg : Config) : Ctx TschState where
  irq := Aside cfg
  cond _ _ := True
  inv _ := True
  live := False
  stable _ _ _ _ := trivial

/-- A call, by its effect on the sources. -/
abbrev SourceWp (cfg : Config) {α : Type} (p : Prog TschState α) (Q : α → TschState → Prop)
    (s : TschState) : Prop :=
  Wpg (sourceCtx cfg) KeepsSource p Q s

theorem rely_sources {s s' : TschState} (h : (sourceCtx cfg).rely s s') : s'.sources = s.sources := by
  induction h with
  | refl => rfl
  | tail _ hst ih => exact (Aside.sources hst).trans ih

section
variable {α β : Type} {s : TschState} {Q : α → TschState → Prop}

theorem lock_of_sources {s s' : TschState} (h : s'.sources = s.sources) : s'.lock = s.lock :=
  congrArg Sources.lock h

theorem SourceWp.read {g : TschState → β} {k : β → Prog TschState α}
    (hk : ∀ t, t.sources = s.sources → SourceWp cfg (k (g t)) Q t) :
    SourceWp cfg (Prog.read g >>= k) Q s := by
  intro t ht _
  exact ⟨trivial, .of_nbrs rfl, hk t (rely_sources ht)⟩

theorem SourceWp.modify {f : TschState → TschState} {k : Unit → Prog TschState α}
    (hk : ∀ t, t.sources = s.sources → KeepsSource t (f t) ∧ SourceWp cfg (k ()) Q (f t)) :
    SourceWp cfg (Prog.modify f >>= k) Q s := by
  intro t ht _
  exact ⟨trivial, hk t (rely_sources ht)⟩

theorem SourceWp.update {f : TschState → β × TschState} {k : β → Prog TschState α}
    (hk : ∀ t, t.sources = s.sources →
      KeepsSource t (f t).2 ∧ SourceWp cfg (k (f t).1) Q (f t).2) :
    SourceWp cfg (Prog.update f >>= k) Q s := by
  intro t ht _
  exact ⟨trivial, hk t (rely_sources ht)⟩

theorem SourceWp.getLock {k : Bool → Prog TschState α} (hfree : s.lock = .free)
    (hk : ∀ t, t.sources = { s.sources with lock := .held } → SourceWp cfg (k true) Q t) :
    SourceWp cfg (tschGetLock >>= k) Q s := by
  rw [tschGetLock_bind]
  have hunlocked : ∀ {t : TschState}, t.lock = .free ∨ t.lock = .requested →
      ¬ tschIsLocked t = true := by
    rintro t (ht | ht) <;> simp [tschIsLocked, ht, LockVars.free, LockVars.requested]
  intro s₁ h₁ _
  have e₁ := rely_sources h₁
  refine ⟨trivial, .of_nbrs rfl, ?_⟩
  simp only [if_neg (hunlocked (.inl ((lock_of_sources e₁).trans hfree)))]
  -- raise the request, and wait
  intro s₂ h₂ _
  have e₂ : (s₂.setLockRequested true).sources = { s.sources with lock := .requested } := by
    have hlock : s₂.lock = .free := (lock_of_sources ((rely_sources h₂).trans e₁)).trans hfree
    have hsame : s₂.sources = s.sources := (rely_sources h₂).trans e₁
    rw [← hsame]
    simp only [TschState.sources, TschState.setLockRequested, hlock]
    rfl
  refine ⟨trivial, .of_nbrs rfl, ?_⟩
  intro s₃ h₃
  refine ⟨fun hl => hl.elim, fun _ => ?_⟩
  -- look again, and take the lock
  intro s₄ h₄ _
  have e₄ := (rely_sources h₄).trans ((rely_sources h₃).trans e₂)
  refine ⟨trivial, .of_nbrs rfl, ?_⟩
  simp only [if_neg (hunlocked (.inr (congrArg Sources.lock e₄)))]
  intro s₅ h₅ _
  have e₅ : (s₅.setLocked true).sources = { s.sources with lock := .taken } := by
    have hsame := (rely_sources h₅).trans e₄
    have hlock : s₅.lock = .requested := congrArg Sources.lock hsame
    have hset : (s₅.setLocked true).sources = { s₅.sources with lock := .taken } := by
      simp only [TschState.sources, TschState.setLocked, hlock]
      rfl
    rw [hset, hsame]
  refine ⟨trivial, .of_nbrs rfl, ?_⟩
  intro s₆ h₆ _
  refine ⟨trivial, .of_nbrs rfl, hk _ ?_⟩
  have hsame := (rely_sources h₆).trans e₅
  have hlock : s₆.lock = .taken := congrArg Sources.lock hsame
  have hset : (s₆.setLockRequested false).sources = { s₆.sources with lock := .held } := by
    simp only [TschState.sources, TschState.setLockRequested, hlock]
    rfl
  rw [hset, hsame]

end

/-! ## The calls -/

/-- Between two calls, `a` the time source. -/
structure SourceAtRest (a : Option LinkAddr) (s : TschState) : Prop where
  free : s.lock = .free
  source : SourceIs s.sources a

theorem SourceAtRest.congr {a : Option LinkAddr} {s t : TschState} (h : SourceAtRest a s)
    (ht : t.sources = s.sources) : SourceAtRest a t :=
  ⟨(lock_of_sources ht).trans h.free, ht ▸ h.source⟩

theorem SourceAtRest.unlocked {a : Option LinkAddr} {s : TschState} (h : SourceAtRest a s) :
    tschIsLocked s = false := by
  rw [tschIsLocked, h.free]
  rfl

section
variable {s : TschState} {a : Option LinkAddr}

theorem SourceWp.releaseLock {α : Type} {k : Unit → Prog TschState α} {Q : α → TschState → Prop}
    (hheld : s.lock = .held)
    (hk : ∀ t, t.sources = { s.sources with lock := .free } → SourceWp cfg (k ()) Q t) :
    SourceWp cfg (tschReleaseLock >>= k) Q s := by
  refine SourceWp.modify fun t ht => ⟨.of_nbrs rfl, hk _ ?_⟩
  have hlock : t.lock = .held := (lock_of_sources ht).trans hheld
  rw [← ht]
  simp only [TschState.sources, TschState.setLocked, hlock]
  rfl

variable (cfg) in
theorem nbrTableAdd_new {addr : LinkAddr} {s : TschState} (hnew : addr ∉ s.queue.tschNeighbors) :
    s.nbrTableAddLladdr cfg addr = (none, s) ∨
      ∃ ns, (∀ n, n ∈ ns ↔ n = addr ∨ n ∈ s.queue.tschNeighbors) ∧
        s.nbrTableAddLladdr cfg addr =
          (some addr, { s with queue := { s.queue with tschNeighbors := ns } }) := by
  simp only [TschState.nbrTableAddLladdr, if_neg hnew]
  cases hadd : cfg.nbrTableAdd s.queue.tschNeighbors addr with
  | none => exact .inl rfl
  | some i => exact .inr ⟨_, fun n => List.mem_insertIdx (cfg.nbrTableAdd_le hadd), rfl⟩

theorem SourceWp.addNbr (addr : LinkAddr) (hs : SourceAtRest a s) :
    SourceWp cfg (tschQueueAddNbr cfg addr)
      (fun r t => SourceAtRest a t ∧ ∀ n, r = some n → n = addr ∧ n ∈ t.queue.tschNeighbors) s := by
  refine SourceWp.read fun t ht => ?_
  have hat : SourceAtRest a t := hs.congr ht
  simp only [tschQueueGetNbr, hat.unlocked, Bool.false_eq_true, if_false]
  by_cases hmem : addr ∈ t.queue.tschNeighbors
  · rw [if_pos hmem]
    refine ⟨hat, ?_⟩
    rintro n ⟨rfl⟩
    exact ⟨rfl, hmem⟩
  · rw [if_neg hmem]
    refine SourceWp.getLock hat.free fun u hu => ?_
    refine SourceWp.update fun v hv => ?_
    have hv' : v.sources = { t.sources with lock := .held } := hv.trans hu
    have hvnbrs : v.queue.tschNeighbors = t.queue.tschNeighbors := congrArg Sources.nbrs hv'
    have hvlock : v.lock = .held := congrArg Sources.lock hv'
    have hnew : addr ∉ v.queue.tschNeighbors := by
      rw [hvnbrs]
      exact hmem
    rcases nbrTableAdd_new cfg hnew with hfull | ⟨ns, hns, hadd⟩
    · -- the table is full
      rw [hfull]
      refine ⟨.of_nbrs rfl, SourceWp.releaseLock hvlock fun w hw => ⟨?_, fun n hn => by cases hn⟩⟩
      rw [hv'] at hw
      exact ⟨congrArg Sources.lock hw, hat.source.congr (by rw [hw]) (by rw [hw])⟩
    · rw [hadd]
      refine ⟨fun n hn => (hns n).mpr (.inr hn.1), ?_⟩
      refine SourceWp.modify fun w hw => ⟨.of_nbrs rfl, ?_⟩
      have hwlock : w.lock = .held := (congrArg Sources.lock hw).trans hvlock
      refine SourceWp.releaseLock hwlock fun x hx => ?_
      have hxnbrs : x.queue.tschNeighbors = ns :=
        (congrArg Sources.nbrs hx).trans (congrArg Sources.nbrs hw)
      have hxflag : x.sources.flag = Function.update t.sources.flag addr false := by
        rw [hx]
        funext n
        have hwflag : (w.queue.neighbors n).isTimeSource = t.sources.flag n :=
          (congrFun (congrArg Sources.flag hw) n).trans (congrFun (congrArg Sources.flag hv') n)
        show ((w.modifyNeighbor addr fun _ => newNeighbor cfg addr).queue.neighbors n).isTimeSource = _
        by_cases hn : n = addr
        · subst hn
          simp [TschState.modifyNeighbor, QueueVars.modifyNeighbor, newNeighbor, tschQueueBackoffReset]
        · simp [TschState.modifyNeighbor, QueueVars.modifyNeighbor, hn, hwflag]
      refine ⟨⟨congrArg Sources.lock hx, ?_⟩, ?_⟩
      · refine hat.source.add hmem (fun n => ?_) hxflag
        show n ∈ x.queue.tschNeighbors ↔ _
        rw [hxnbrs, hns, hvnbrs]
        rfl
      · rintro n ⟨rfl⟩
        exact ⟨rfl, by rw [hxnbrs]; exact (hns _).mpr (.inl rfl)⟩

theorem sources_setFlag (n : LinkAddr) (b : Bool) (s : TschState) :
    (s.modifyNeighbor n fun e => { e with isTimeSource := b }).sources =
      { s.sources with flag := Function.update s.sources.flag n b } := by
  have hflag : ∀ m, ((s.modifyNeighbor n fun e => { e with isTimeSource := b }).queue.neighbors
      m).isTimeSource = Function.update s.sources.flag n b m := by
    intro m
    by_cases hm : m = n
    · subst hm
      simp [TschState.modifyNeighbor, QueueVars.modifyNeighbor]
    · simp [TschState.modifyNeighbor, QueueVars.modifyNeighbor, hm, TschState.sources]
  simp only [TschState.sources, hflag]
  rfl

theorem SourceWp.switchTimeSource {b : Option LinkAddr} (hs : SourceAtRest a s)
    (hb : ∀ m, b = some m → m ∈ s.queue.tschNeighbors) :
    SourceWp cfg (switchTimeSource a b) (fun _ t => SourceAtRest b t) s := by
  -- what the writes leave behind
  have hdone : ∀ (t : TschState) (f : LinkAddr → Bool), t.sources = { s.sources with flag := f } →
      (∀ n, f n = if b = some n then true else if a = some n then false else s.sources.flag n) →
      SourceAtRest b t := by
    intro t f ht hf
    refine ⟨(congrArg Sources.lock ht).trans hs.free, hs.source.switch hb (by rw [ht]) fun n => ?_⟩
    rw [ht]
    exact hf n
  simp only [QlTsch.switchTimeSource]
  split
  · rename_i hsame
    rw [hsame]
    exact hs
  · rename_i hne
    cases b with
    | none =>
        cases a with
        | none => exact absurd rfl hne
        | some n =>
            refine Wpg.modify trivial fun t ht _ => ⟨trivial, .of_nbrs rfl, ?_⟩
            refine hdone _ (Function.update s.sources.flag n false) ?_ fun m => ?_
            · rw [sources_setFlag, rely_sources ht]
            · simp [Function.update_apply, eq_comm]
    | some m =>
        cases a with
        | none =>
            refine SourceWp.modify fun t ht => ⟨.of_nbrs rfl, ?_⟩
            refine hdone _ (Function.update s.sources.flag m true) ?_ fun n => ?_
            · rw [sources_setFlag, ht]
            · simp [Function.update_apply, eq_comm]
        | some k =>
            refine SourceWp.modify fun t ht => ⟨.of_nbrs rfl, ?_⟩
            refine Wpg.modify trivial fun u hu _ => ⟨trivial, .of_nbrs rfl, ?_⟩
            refine hdone _ (Function.update (Function.update s.sources.flag m true) k false) ?_
              fun n => ?_
            · rw [sources_setFlag, rely_sources hu, sources_setFlag, ht]
            · have hkm : k ≠ m := fun h => hne (congrArg some h.symm)
              by_cases hn : n = k
              · subst hn
                simp [hkm.symm]
              · simp [Function.update_apply, hn, Ne.symm hn, eq_comm]

theorem SourceWp.updateTimeSource (b : Option LinkAddr) (hs : SourceAtRest a s) :
    SourceWp cfg (tschQueueUpdateTimeSource cfg b)
      (fun r t => SourceAtRest (if r then b else a) t) s := by
  refine SourceWp.read fun t ht => ?_
  have hat : SourceAtRest a t := hs.congr ht
  simp only [hat.unlocked, Bool.false_eq_true, if_false]
  refine SourceWp.read fun u hu => ?_
  have hau : SourceAtRest a u := hat.congr hu
  split
  · exact hau
  refine SourceWp.read fun v hv => ?_
  have hav : SourceAtRest a v := hau.congr hv
  rw [hav.source.getTimeSource hav.unlocked]
  cases b with
  | none =>
      exact Wpg.call (SourceWp.switchTimeSource hav fun m hm => by cases hm) trivial fun _ w _ hw => hw
  | some addr =>
      refine Wpg.call (SourceWp.addNbr addr hav) trivial ?_
      rintro r w - ⟨haw, hr⟩
      cases r with
      | none => exact haw
      | some n =>
          obtain ⟨rfl, hmem⟩ := hr n rfl
          refine Wpg.call (SourceWp.switchTimeSource haw ?_) trivial fun _ x _ hx => hx
          rintro m ⟨rfl⟩
          exact hmem

/-- An action that has nothing to do with the time source. -/
def SameSources (s s' : TschState) : Prop := s'.sources = s.sources

theorem SourceWp.of_same {α : Type} {p : Prog TschState α} (hp : p.Guar SameSources) :
    SourceWp cfg p (fun _ t => t.sources = s.sources) s := by
  have hkeeps : p.Guar KeepsSource := hp.mono fun _ _ h => .of_nbrs (congrArg Sources.nbrs h)
  refine Wpg.of_guar ?_ hkeeps
  refine Wp.of_guar (C := sourceCtx cfg) (J := SameSources s) (fun hl => hl) ?_ ?_ hp trivial rfl
  · intro t u _ ht hirq
    exact (Aside.sources hirq).trans ht
  · intro t u _ ht hsame _
    exact ⟨trivial, hsame.trans ht⟩

theorem noteTaken_sources (p : Option Nat) (s : TschState) : (s.noteTaken p).sources = s.sources := by
  cases p <;> rfl

theorem guar_flushNbrQueue (fuel : Nat) (n : LinkAddr) :
    (tschQueueFlushNbrQueue fuel n).Guar SameSources := by
  have hrefl : ∀ s, SameSources s s := fun _ => rfl
  refine Guar.loop (Guar.read hrefl _) (fun _ => ?_) fuel
  refine (Guar.update fun s => ?_).bind fun p => ?_
  · have howned := removePacketFromQueue_owned n s
    have hsame : (tschQueueRemovePacketFromQueue n s).2.sources = s.sources :=
      congrArg (fun o : Owned => (⟨o.lock, o.view.nbrs, o.isTimeSource⟩ : Sources)) howned
    exact (noteTaken_sources _ _).trans hsame
  · cases p with
    | none => trivial
    | some p =>
        refine (Guar.modify (G := SameSources) fun _ => rfl).bind fun _ => ?_
        refine (Guar.modify (G := SameSources) fun _ => rfl).bind fun _ => ?_
        exact Guar.modify fun _ => rfl

theorem SourceWp.removeNbr (fuel : Nat) {n : LinkAddr} (hs : SourceAtRest a s)
    (hn : s.sources.flag n = false) :
    SourceWp cfg (tschQueueRemoveNbr fuel n) (fun _ t => SourceAtRest a t) s := by
  refine SourceWp.getLock hs.free fun t ht => ?_
  refine SourceWp.releaseLock (congrArg Sources.lock ht) fun u hu => ?_
  have hus : u.sources = s.sources := by
    rw [hu, ht, ← hs.free]
    rfl
  refine Wpg.call (SourceWp.of_same (guar_flushNbrQueue fuel n)) trivial fun _ v _ hv => ?_
  refine Wpg.modify trivial ?_
  intro w hw _
  have hws : w.sources = s.sources := (rely_sources hw).trans (hv.trans hus)
  have hwn : w.sources.flag n = false := by rw [hws]; exact hn
  refine ⟨trivial, ?_, (lock_of_sources hws).trans hs.free, ?_⟩
  · intro m hm
    refine (List.mem_erase_of_ne ?_).mpr hm.1
    rintro rfl
    cases hwn.symm.trans hm.2
  · have hsource : SourceIs w.sources a := hws ▸ hs.source
    exact hsource.remove hwn rfl rfl

theorem SourceWp.freeUnusedNeighbors (fuel : Nat) (hs : SourceAtRest a s) :
    SourceWp cfg (tschQueueFreeUnusedNeighbors fuel) (fun _ t => SourceAtRest a t) s := by
  refine SourceWp.read fun t ht => ?_
  have hat : SourceAtRest a t := hs.congr ht
  simp only [hat.unlocked, Bool.false_eq_true, if_false]
  refine SourceWp.read fun u hu => ?_
  refine Wpg.forEach (J := SourceAtRest a) (fun n v _ hv => ?_) _ trivial (hat.congr hu)
  refine SourceWp.read fun w hw => ?_
  have haw : SourceAtRest a w := hv.congr hw
  split
  · rename_i hunused
    refine SourceWp.removeNbr fuel haw ?_
    simp only [neighborUnused, Bool.and_eq_true, Bool.not_eq_true'] at hunused
    exact hunused.1.1.2
  · exact haw

end

/-! ## Any sequence of calls -/

inductive SourceCall where
  | addNbr (addr : LinkAddr)
  | updateTimeSource (newAddr : Option LinkAddr)
  | freeUnusedNeighbors
deriving DecidableEq, Repr

def SourceCall.perform (cfg : Config) (fuel : Nat) : SourceCall → Prog TschState Unit
  | .addNbr addr => do
      let _ ← tschQueueAddNbr cfg addr
  | .updateTimeSource newAddr => do
      let _ ← tschQueueUpdateTimeSource cfg newAddr
  | .freeUnusedNeighbors => tschQueueFreeUnusedNeighbors fuel

/-- At rest with some time source, or none. -/
def HasSource (s : TschState) : Prop := ∃ a, SourceAtRest a s

theorem SourceWp.perform (fuel : Nat) (c : SourceCall) {s : TschState} (hs : HasSource s) :
    SourceWp cfg (c.perform cfg fuel) (fun _ t => HasSource t) s := by
  obtain ⟨a, ha⟩ := hs
  cases c with
  | addNbr addr => exact Wpg.call (SourceWp.addNbr addr ha) trivial fun _ t _ ht => ⟨a, ht.1⟩
  | updateTimeSource b => exact Wpg.call (SourceWp.updateTimeSource b ha) trivial fun _ t _ ht => ⟨_, ht⟩
  | freeUnusedNeighbors =>
      exact (SourceWp.freeUnusedNeighbors fuel ha).mono trivial fun _ t _ ht => ⟨a, ht⟩

/-- **At most one time source.**  From a free lock and at most one time source, in every run
of any sequence of the three calls: between calls there is at most one; the next
`tsch_queue_update_time_source` makes the neighbor of its address the time source, or none,
if it returns `1`, and leaves it as it was if it returns `0`; and no step of a call takes
the time source out of the table. -/
theorem one_time_source (fuel : Nat) (calls : List SourceCall) {s : TschState}
    (hfree : s.lock = .free) (hone : AtMostOneSource s.sources) :
    (∀ t, Run (Aside cfg) (fun _ _ => True)
        (Prog.forEach calls (SourceCall.perform cfg fuel), s) (.ret (), t) →
      AtMostOneSource t.sources ∧
      ∀ newAddr r u, Run (Aside cfg) (fun _ _ => True)
          (tschQueueUpdateTimeSource cfg newAddr, t) (.ret r, u) →
        (r = true → SourceIs u.sources newAddr) ∧
        (r = false → ∀ n, IsTimeSource u.sources n ↔ IsTimeSource t.sources n)) ∧
    ∀ c c', Run (Aside cfg) (fun _ _ => True)
        (Prog.forEach calls (SourceCall.perform cfg fuel), s) c →
      Step (Aside cfg) (fun _ _ => True) c c' →
      ∀ n, IsTimeSource c.2.sources n → n ∈ c'.2.queue.tschNeighbors := by
  obtain ⟨a₀, ha₀⟩ := hone.exists
  have hcalls : SourceWp cfg (Prog.forEach calls (SourceCall.perform cfg fuel))
      (fun _ t => HasSource t) s :=
    Wpg.forEach (fun c t _ ht => SourceWp.perform fuel c ht) calls trivial ⟨a₀, hfree, ha₀⟩
  refine ⟨?_, ?_⟩
  · intro t hr
    obtain ⟨-, t', -, hrel, a, ha⟩ := hcalls.run (fun _ _ => trivial) trivial hr
    have hat : SourceAtRest a t := ha.congr (rely_sources hrel)
    refine ⟨hat.source.atMostOne, ?_⟩
    intro newAddr r u hru
    obtain ⟨-, u', -, hrel', hu⟩ :=
      (SourceWp.updateTimeSource newAddr hat).run (fun _ _ => trivial) trivial hru
    have hau : SourceAtRest (if r then newAddr else a) u := SourceAtRest.congr hu (rely_sources hrel')
    refine ⟨?_, ?_⟩
    · rintro rfl
      exact hau.source
    · rintro rfl n
      exact (hau.source n).trans (hat.source n).symm
  · intro c c' hr hst
    refine hcalls.step (fun _ _ => trivial) trivial (fun _ => .of_nbrs rfl) ?_ hr hst
    intro t u hirq
    exact .of_nbrs (congrArg Sources.nbrs (Aside.sources hirq))

/-- Node 5 becomes the time source and fills the table; node 6 finds no room, and 5 stays. -/
def fillTable : Prog TschState Unit :=
  Prog.forEach [.updateTimeSource (some 5), .addNbr 6, .freeUnusedNeighbors]
    (SourceCall.perform (smallBuild 3) 2)

theorem one_time_source_full :
    ∃ t u, fillTable.exec (TschState.boot (smallBuild 3)) = some ((), t) ∧
      (tschQueueUpdateTimeSource (smallBuild 3) (some 6)).exec t = some (false, u) ∧
      AtMostOneSource t.sources ∧ IsTimeSource u.sources 5 := by
  obtain ⟨x, hx⟩ : ∃ x, fillTable.exec (TschState.boot (smallBuild 3)) = some x :=
    Option.isSome_iff_exists.mp (by decide +kernel)
  have hstate : (fillTable.exec (TschState.boot (smallBuild 3))).any (fun x =>
      ((tschQueueUpdateTimeSource (smallBuild 3) (some 6)).exec x.2).any (fun y => y.1 == false) &&
        decide (5 ∈ x.2.queue.tschNeighbors ∧ (x.2.queue.neighbors 5).isTimeSource = true)) = true := by
    decide +kernel
  rw [hx, Option.any_some, Bool.and_eq_true, decide_eq_true_eq] at hstate
  obtain ⟨hfails, h5⟩ := hstate
  obtain ⟨y, hy, hret⟩ := (Option.any_eq_true _ _).mp hfails
  have hret : y.1 = false := beq_iff_eq.mp hret
  have hempty : AtMostOneSource (TschState.boot (smallBuild 3)).sources := by
    rintro m n ⟨-, hm⟩
    cases hm
  obtain ⟨hone, hnext⟩ := (one_time_source 2 _ rfl hempty).1 x.2 (Run.of_exec hx)
  refine ⟨x.2, y.2, hx, ?_, hone, ?_⟩
  · rw [hy, ← hret]
  · exact ((hnext (some 6) y.1 y.2 (Run.of_exec hy)).2 hret 5).mpr h5

end QlTsch
