/-
# `QlTsch.QueueCalls` — the calls of the queue module, beside the schedule

Most of what `tsch-queue.c` does is about packets and queues (`QueueAct`): the schedule, the
neighbor table and the counters of links stay as they are.  What is left are new neighbors
(`tsch_queue_add_nbr`, alone or with a packet or a time source) and the neighbors that
`tsch_queue_free_unused_neighbors` removes, which have no Tx links.

So a property of the schedule and the neighbors that survives these two survives every call of
the module and the consumer of the dequeued ring, under interrupts at every point
(`QueueCtx.wp_queueCall`).
-/
import QlTsch.ScheduleCalls

namespace QlTsch

open Interleave Interleave.Prog

variable {cfg : Config}

/-! ## Actions on packets and queues -/

/-- An action on packets and queues. -/
structure QueueAct (s s' : TschState) : Prop where
  view : s'.view = s.view
  lock : s'.lock = s.lock
  slot : s'.slot = { s.slot with dequeuedRingbuf := s'.slot.dequeuedRingbuf }
  ghost : s'.ghost = { s.ghost with
    accepted := s'.ghost.accepted
    taken := s'.ghost.taken
    called := s'.ghost.called
    freed := s'.ghost.freed }

theorem view_modifyNeighbor {f : TschNeighbor → TschNeighbor}
    (htx : ∀ e, (f e).txLinksCount = e.txLinksCount)
    (hdedicated : ∀ e, (f e).dedicatedTxLinksCount = e.dedicatedTxLinksCount) (n : LinkAddr)
    (s : TschState) : (s.modifyNeighbor n f).view = s.view := by
  have key : ∀ (g : TschNeighbor → Int), (∀ e, g (f e) = g e) → ∀ m,
      g ((s.modifyNeighbor n f).queue.neighbors m) = g (s.queue.neighbors m) := by
    intro g hg m
    by_cases hm : m = n
    · subst hm
      simp only [TschState.modifyNeighbor, QueueVars.modifyNeighbor, Function.update_self, hg]
    · simp only [TschState.modifyNeighbor, QueueVars.modifyNeighbor, Function.update_of_ne hm]
  ext1
  · rfl
  · rfl
  · exact funext (key _ htx)
  · exact funext (key _ hdedicated)
  · rfl
  · rfl

namespace QueueAct

theorem refl (s : TschState) : QueueAct s s := ⟨rfl, rfl, rfl, rfl⟩

theorem noteTaken {s s' : TschState} (h : QueueAct s s') (p : Option Nat) :
    QueueAct s (s'.noteTaken p) := by
  cases p with
  | none => exact h
  | some p => exact ⟨h.view, h.lock, h.slot, by simp only [TschState.noteTaken]; rw [h.ghost]⟩

theorem removePacket (n : LinkAddr) (s : TschState) :
    QueueAct s (tschQueueRemovePacketFromQueue n s).2 := by
  obtain ⟨q, hq⟩ := removePacketFromQueue_queue n s
  exact ⟨view_of_owned (removePacketFromQueue_owned n s), by rw [hq], by rw [hq], by rw [hq]⟩

theorem modifyNeighbor {f : TschNeighbor → TschNeighbor}
    (htx : ∀ e, (f e).txLinksCount = e.txLinksCount)
    (hdedicated : ∀ e, (f e).dedicatedTxLinksCount = e.dedicatedTxLinksCount) (n : LinkAddr)
    (s : TschState) : QueueAct s (s.modifyNeighbor n f) :=
  ⟨view_modifyNeighbor htx hdedicated n s, rfl, rfl, rfl⟩

theorem putPacket (n : LinkAddr) (p : Nat) (s : TschState) : QueueAct s (s.putPacket n p) := by
  have hview := view_modifyNeighbor (f := fun e => { e with txRingbuf := e.txRingbuf ++ [p] })
    (fun _ => rfl) (fun _ => rfl) n (s.modifyPacket p fun e => { e with uid := s.ghost.accepted })
  exact ⟨hview, rfl, rfl, rfl⟩

theorem finishPacket (p : Nat) : (finishPacket p).Guar QueueAct :=
  Guar.bind (Guar.modify fun _ => ⟨rfl, rfl, rfl, rfl⟩) fun _ =>
    Guar.modify fun _ => ⟨rfl, rfl, rfl, rfl⟩

theorem flushNbrQueue (fuel : Nat) (n : LinkAddr) : (tschQueueFlushNbrQueue fuel n).Guar QueueAct := by
  refine Guar.loop (Guar.read .refl _) (fun _ => ?_) fuel
  refine Guar.bind (Guar.update fun s => (removePacket n s).noteTaken _) fun p => ?_
  cases p with
  | none => trivial
  | some p => exact Guar.bind (Guar.modify fun _ => ⟨rfl, rfl, rfl, rfl⟩) fun _ => finishPacket p

theorem backoffReset (n : LinkAddr) :
    (Prog.modify (TschState.modifyNeighbor n (tschQueueBackoffReset cfg))).Guar QueueAct :=
  Guar.modify fun s => modifyNeighbor (f := tschQueueBackoffReset cfg) (fun _ => rfl)
    (fun _ => rfl) n s

theorem unlessLocked {α : Type} {x : α} {rest : Prog TschState α} (h : rest.Guar QueueAct) :
    (Prog.read tschIsLocked >>= fun locked => if locked = true then pure x else rest).Guar
      QueueAct := by
  refine Guar.bind (Guar.read .refl _) fun locked => ?_
  cases locked with
  | true => trivial
  | false => exact h

theorem freePacketsTo (fuel : Nat) (a : LinkAddr) :
    (tschQueueFreePacketsTo fuel a).Guar QueueAct := by
  refine unlessLocked (Guar.bind (Guar.read .refl _) fun n => ?_)
  cases n with
  | none => trivial
  | some n => exact flushNbrQueue fuel n

theorem reset (fuel : Nat) : (tschQueueReset cfg fuel).Guar QueueAct :=
  unlessLocked (Guar.bind (Guar.read .refl _) fun ns =>
    Guar.forEach (fun n => (flushNbrQueue fuel n).bind fun _ => backoffReset n) ns)

theorem customReset : (customResetAllBackoffExponents cfg).Guar QueueAct :=
  unlessLocked (Guar.bind (Guar.read .refl _) fun ns => Guar.forEach backoffReset ns)

theorem takeDequeued : QlTsch.takeDequeued.Guar QueueAct := by
  refine Guar.bind (Guar.update fun s => ?_) fun p => ?_
  · cases hring : s.slot.dequeuedRingbuf with
    | nil => exact .refl s
    | cons p rest =>
        have htake : QueueAct s { s with slot := { s.slot with dequeuedRingbuf := rest } } :=
          ⟨rfl, rfl, rfl, rfl⟩
        exact htake.noteTaken (some p)
  · cases p with
    | none => trivial
    | some p => exact finishPacket p

theorem switchTimeSource (old new : Option LinkAddr) : (switchTimeSource old new).Guar QueueAct := by
  have hset : ∀ n b, (Prog.modify (TschState.modifyNeighbor n fun e =>
      { e with isTimeSource := b })).Guar QueueAct := fun n b =>
    Guar.modify fun s => modifyNeighbor (f := fun e => { e with isTimeSource := b })
      (fun _ => rfl) (fun _ => rfl) n s
  simp only [QlTsch.switchTimeSource]
  split
  · trivial
  · cases new with
    | none =>
        cases old with
        | none => trivial
        | some n => exact hset n false
    | some m =>
        refine (hset m true).bind fun _ => ?_
        cases old with
        | none => trivial
        | some n => exact hset n false

end QueueAct

/-! ## Calls in a proof context -/

/-- Between two calls. -/
def Ready (I : View → Prop) (s : TschState) : Prop := ∃ v, I v ∧ At none false v s

/-- A context in which packets are queued and served, and neighbors come and go; `I` is about
the schedule and the neighbors between two calls. -/
structure QueueCtx (cfg : Config) (C : Ctx TschState) (I ok : View → Prop) : Prop
    extends SchedCtx cfg C ok where
  notLive : ¬ C.live
  visible : ∀ {v}, I v → ok v
  addNbr : ∀ {v} a, I v → I (View.addNbr cfg a v).2
  removeNbr : ∀ {v n}, I v → v.txLinks n = 0 → I { v with nbrs := v.nbrs.erase n }
  queueAct : ∀ {s s' v}, C.inv s → At none false v s → QueueAct s s' → C.inv s'
  nbrTableRemove : ∀ {s v} n, C.inv s → At none false v s →
    ok { v with nbrs := v.nbrs.erase n } → C.inv (s.nbrTableRemove n)

/-- The calls of `tsch-queue.c`, and the consumer of the dequeued ring. -/
inductive QueueCall where
  | addNbr (addr : LinkAddr)
  | addPacket (addr : LinkAddr) (maxTransmissions sent ptr : Nat) (queuebufOk : Bool)
  | updateTimeSource (newAddr : Option LinkAddr)
  | freePacketsTo (addr : LinkAddr)
  | reset
  | customResetAllBackoffExponents
  | freeUnusedNeighbors
  | takeDequeued
deriving DecidableEq, Repr

def QueueCall.perform (cfg : Config) (fuel : Nat) : QueueCall → Prog TschState Unit
  | .addNbr addr => do
      let _ ← tschQueueAddNbr cfg addr
  | .addPacket addr maxTransmissions sent ptr queuebufOk => do
      let _ ← tschQueueAddPacket cfg addr maxTransmissions sent ptr queuebufOk
  | .updateTimeSource newAddr => do
      let _ ← tschQueueUpdateTimeSource cfg newAddr
  | .freePacketsTo addr => tschQueueFreePacketsTo fuel addr
  | .reset => tschQueueReset cfg fuel
  | .customResetAllBackoffExponents => QlTsch.customResetAllBackoffExponents cfg
  | .freeUnusedNeighbors => tschQueueFreeUnusedNeighbors fuel
  | .takeDequeued => QlTsch.takeDequeued

namespace QueueCtx

variable {C : Ctx TschState} {I ok : View → Prop} (Q : QueueCtx cfg C I ok) {s : TschState}
include Q

/-- A program of queue actions leaves the schedule and the counters alone. -/
theorem wp_of_queueAct {α : Type} {p : Prog TschState α} (hp : p.Guar QueueAct) {v : View}
    (hi : C.inv s) (h : At none false v s) : Wp C p (fun _ t => At none false v t) s := by
  refine Wp.of_guar (J := At none false v) Q.notLive (fun _ _ _ hat hirq => ?_)
    (fun s s' hi hat hg _ => ?_) hp hi h
  · obtain ⟨_, hstep⟩ := Q.irq hirq
    exact hat.of_owned (slotStep_owned hstep)
  · have hflux : s'.ghost.linkInFlux = s.ghost.linkInFlux := by rw [hg.ghost]
    exact ⟨Q.queueAct hi hat hg, hg.view.trans hat.view, hg.lock.trans hat.lock,
      hflux.trans hat.flux⟩

theorem ready_of_queueAct {p : Prog TschState Unit} (hp : p.Guar QueueAct) (hi : C.inv s)
    (h : Ready I s) : Wp C p (fun _ t => Ready I t) s := by
  obtain ⟨v, hI, hat⟩ := h
  exact (Q.wp_of_queueAct hp hi hat).mono hi fun _ _ _ hat => ⟨v, hI, hat⟩

theorem wp_unlessLocked {α : Type} {x : α} {rest : Prog TschState α} {R : α → TschState → Prop}
    (hi : C.inv s) (h : Ready I s) (hrest : ∀ t, C.inv t → Ready I t → Wp C rest R t) :
    Wp C (Prog.read tschIsLocked >>= fun locked => if locked = true then pure x else rest) R s := by
  obtain ⟨v, hI, hat⟩ := h
  refine Wp.call (Q.wp_read hi hat (a := false)
    (fun t ht => by simp only [tschIsLocked, ht.lock])) hi ?_
  rintro _ t hit ⟨rfl, hat⟩
  exact hrest t hit ⟨v, hI, hat⟩

theorem wp_readyAddNbr (a : LinkAddr) (hi : C.inv s) (h : Ready I s) :
    Wp C (tschQueueAddNbr cfg a) (fun _ t => Ready I t) s := by
  obtain ⟨v, hI, hat⟩ := h
  have hI' := Q.addNbr a hI
  refine (Q.wp_tschQueueAddNbr hi hat a (Q.visible hI')).mono hi ?_
  rintro _ t _ ⟨_, hat⟩
  exact ⟨_, hI', hat⟩

theorem wp_addPacket (addr : LinkAddr) (maxTransmissions sent ptr : Nat) (queuebufOk : Bool)
    (hi : C.inv s) (h : Ready I s) :
    Wp C (tschQueueAddPacket cfg addr maxTransmissions sent ptr queuebufOk)
      (fun _ t => Ready I t) s := by
  refine Q.wp_unlessLocked hi h fun t hit h => ?_
  refine Wp.call (Q.wp_readyAddNbr addr hit h) hit ?_
  rintro n u hiu ⟨v, hI, hau⟩
  -- the rest is about packets
  refine (Q.wp_of_queueAct ?_ hiu hau).mono hiu fun _ w _ haw => ⟨v, hI, haw⟩
  cases n with
  | none => trivial
  | some n =>
      refine Guar.bind (Guar.read .refl _) ?_
      intro room
      cases room with
      | false => trivial
      | true =>
          refine Guar.bind (Guar.update fun s => ?_) fun p => ?_
          · simp only [TschState.allocPacket]
            split <;> exact ⟨rfl, rfl, rfl, rfl⟩
          · cases p with
            | none => trivial
            | some p =>
                cases queuebufOk with
                | false => exact Guar.bind (Guar.modify fun _ => ⟨rfl, rfl, rfl, rfl⟩) fun _ => trivial
                | true =>
                    refine Guar.bind (Guar.modify fun _ => ⟨rfl, rfl, rfl, rfl⟩) fun _ => ?_
                    exact Guar.bind (Guar.modify fun s => .putPacket n p s) fun _ => trivial

theorem wp_updateTimeSource (a : Option LinkAddr) (hi : C.inv s) (h : Ready I s) :
    Wp C (tschQueueUpdateTimeSource cfg a) (fun _ t => Ready I t) s := by
  refine Q.wp_unlessLocked hi h fun t hit h => ?_
  have hread : ∀ {β : Type} (g : TschState → β) {t}, C.inv t → Ready I t →
      Wp C (Prog.read g) (fun _ u => Ready I u) t := by
    rintro β g t hit ⟨v, hI, hat⟩
    exact Wp.read hit fun u hu _ => ⟨v, hI, Q.at_rely hit hat hu⟩
  refine Wp.call (hread _ hit h) hit fun coordinator u hiu h => ?_
  cases coordinator with
  | true => exact Wp.ret h
  | false =>
      refine Wp.call (hread _ hiu h) hiu fun old w hiw h => ?_
      cases a with
      | none =>
          refine Wp.call (Q.ready_of_queueAct (QueueAct.switchTimeSource old none) hiw h) hiw ?_
          exact fun _ _ _ h => Wp.ret h
      | some a =>
          refine Wp.call (Q.wp_readyAddNbr a hiw h) hiw fun n x hix h => ?_
          cases n with
          | none => exact Wp.ret h
          | some n =>
              refine Wp.call (Q.ready_of_queueAct (QueueAct.switchTimeSource old (some n)) hix h) hix ?_
              exact fun _ _ _ h => Wp.ret h

theorem wp_removeNbr (fuel : Nat) (n : LinkAddr) {v : View} (hi : C.inv s) (hI : I v)
    (h : At none false v s) (hzero : v.txLinks n = 0) :
    Wp C (tschQueueRemoveNbr fuel n) (fun _ t => Ready I t) s := by
  refine Wp.call (Q.wp_getLock hi h) hi ?_
  rintro got t hit ⟨hgot, hat⟩
  subst hgot
  refine Wp.call (Q.wp_releaseLock hit hat (Q.visible hI)) hit fun _ u hiu hau => ?_
  refine Wp.call (Q.wp_of_queueAct (QueueAct.flushNbrQueue fuel n) hiu hau) hiu fun _ w hiw haw => ?_
  have hI' := Q.removeNbr hI hzero
  refine Wp.modify hiw fun x hx hix _ => ?_
  have hax := Q.at_rely hiw haw hx
  refine ⟨Q.nbrTableRemove n hix hax (Q.visible hI'), _, hI', ?_, hax.lock, hax.flux⟩
  rw [← hax.view]
  rfl

theorem wp_freeUnusedNeighbors (fuel : Nat) (hi : C.inv s) (h : Ready I s) :
    Wp C (tschQueueFreeUnusedNeighbors fuel) (fun _ t => Ready I t) s := by
  refine Q.wp_unlessLocked hi h fun t hit h => ?_
  obtain ⟨v, hI, hat⟩ := h
  refine Wp.call (Q.wp_read hit hat (a := v.nbrs) fun u hu => by rw [← hu.view]; rfl) hit ?_
  rintro ns u hiu ⟨hns, hau⟩
  subst hns
  refine Wp.forEach (J := fun _ t => Ready I t) ?_ _ hiu ⟨v, hI, hau⟩
  rintro n _ t hit ⟨w, hIw, hat⟩
  refine Wp.bind (Wp.read hit fun x hx hix => ?_)
  have hax := Q.at_rely hit hat hx
  cases hun : neighborUnused x n with
  | false => exact Wp.ret ⟨w, hIw, hax⟩
  | true =>
      refine Q.wp_removeNbr fuel n hix hIw hax ?_
      -- the test of the source: no Tx links
      have hcount : (x.queue.neighbors n).txLinksCount = 0 := by
        simp only [neighborUnused, Bool.and_eq_true, beq_iff_eq] at hun
        exact hun.1.2
      rw [← hax.view]
      exact hcount

/-- **A call of the queue module** leaves the schedule and the neighbors as `I` says. -/
theorem wp_queueCall (fuel : Nat) (c : QueueCall) (hi : C.inv s) (h : Ready I s) :
    Wp C (c.perform cfg fuel) (fun _ t => Ready I t) s := by
  cases c with
  | addNbr a => exact Wp.call (Q.wp_readyAddNbr a hi h) hi fun _ _ _ h => Wp.ret h
  | addPacket a max sent ptr ok =>
      exact Wp.call (Q.wp_addPacket a max sent ptr ok hi h) hi fun _ _ _ h => Wp.ret h
  | updateTimeSource a => exact Wp.call (Q.wp_updateTimeSource a hi h) hi fun _ _ _ h => Wp.ret h
  | freePacketsTo a => exact Q.ready_of_queueAct (QueueAct.freePacketsTo fuel a) hi h
  | reset => exact Q.ready_of_queueAct (QueueAct.reset fuel) hi h
  | customResetAllBackoffExponents => exact Q.ready_of_queueAct QueueAct.customReset hi h
  | freeUnusedNeighbors => exact Q.wp_freeUnusedNeighbors fuel hi h
  | takeDequeued => exact Q.ready_of_queueAct QueueAct.takeDequeued hi h

end QueueCtx

end QlTsch
