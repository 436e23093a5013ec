/-
# `QlTsch.VirtualNeighbors` — the broadcast and the EB neighbor

`tsch_queue_init` adds two neighbors that stand for no node: packets to the broadcast
address and EBs wait in their queues.  Nothing a process does removes them or makes a
neighbor virtual (`VirtualOk`, `virtual_run`).
-/
import QlTsch.CsmaState

namespace QlTsch

open Interleave Interleave.Prog

variable {cfg : Config}

/-! ## The virtual neighbors -/

theorem Config.ne_broadcast {n : LinkAddr} (hn : cfg.isVirtual n = false) :
    cfg.tschBroadcastAddress ≠ n := by
  rintro rfl
  simp only [Config.isVirtual, beq_self_eq_true, Bool.or_true] at hn
  cases hn

/-- The broadcast and the EB neighbor are what `tsch_queue_init` made them. -/
structure VirtualOk (cfg : Config) (s : TschState) : Prop where
  isBroadcast : ∀ n, (s.queue.neighbors n).isBroadcast = cfg.isVirtual n
  nBroadcast : s.queue.nBroadcast = some cfg.tschBroadcastAddress
  nEb : s.queue.nEb = some cfg.tschEbAddress
  member : cfg.tschBroadcastAddress ∈ s.queue.tschNeighbors

namespace VirtualOk

variable {s s' : TschState}

theorem boot : VirtualOk cfg (TschState.boot cfg) :=
  ⟨fun _ => rfl, rfl, rfl, List.mem_cons_of_mem _ List.mem_cons_self⟩

theorem of_queue (h : VirtualOk cfg s)
    (hb : ∀ n, (s'.queue.neighbors n).isBroadcast = (s.queue.neighbors n).isBroadcast)
    (hbr : s'.queue.nBroadcast = s.queue.nBroadcast) (heb : s'.queue.nEb = s.queue.nEb)
    (hmem : cfg.tschBroadcastAddress ∈ s.queue.tschNeighbors →
      cfg.tschBroadcastAddress ∈ s'.queue.tschNeighbors) : VirtualOk cfg s' :=
  ⟨fun n => (hb n).trans (h.isBroadcast n), hbr.trans h.nBroadcast, heb.trans h.nEb, hmem h.member⟩

theorem of_same (h : VirtualOk cfg s) (hq : s'.queue = s.queue) : VirtualOk cfg s' :=
  h.of_queue (fun _ => by rw [hq]) (by rw [hq]) (by rw [hq]) fun hm => by rw [hq]; exact hm

theorem modify (h : VirtualOk cfg s) (n : LinkAddr) {f : TschNeighbor → TschNeighbor}
    (hf : ∀ e, e.isBroadcast = cfg.isVirtual n → (f e).isBroadcast = cfg.isVirtual n) :
    VirtualOk cfg (s.modifyNeighbor n f) := by
  refine ⟨fun m => ?_, h.nBroadcast, h.nEb, h.member⟩
  by_cases hm : m = n
  · subst hm
    simp only [TschState.modifyNeighbor, QueueVars.modifyNeighbor, Function.update_self]
    exact hf _ (h.isBroadcast m)
  · simp only [TschState.modifyNeighbor, QueueVars.modifyNeighbor, Function.update_of_ne hm]
    exact h.isBroadcast m

theorem of_owned (h : VirtualOk cfg s) (ho : s'.owned = s.owned) : VirtualOk cfg s' :=
  h.of_queue (fun n => congrFun (congrArg Owned.isBroadcast ho) n) (congrArg Owned.nBroadcast ho)
    (congrArg Owned.nEb ho) fun hm => by
      have hnbrs : s'.queue.tschNeighbors = s.queue.tschNeighbors :=
        congrArg (fun o => o.view.nbrs) ho
      rw [hnbrs]
      exact hm

theorem step (h : VirtualOk cfg s) (hs : CsmaStep cfg s s') : VirtualOk cfg s' := by
  cases hs with
  | slot hs => exact h.of_owned (slotStep_owned hs)
  | packetSent n p link st rand => exact h.of_owned (packetSent_owned cfg n p link st rand s)
  | updateAll a =>
      obtain ⟨w, hw⟩ : ∃ w, tschQueueUpdateAllBackoffWindows cfg a s = _ :=
        updateAllBackoffWindows_spec a s
      rw [hw]
      exact h.of_owned rfl
  | slotVars => exact h.of_same rfl

end VirtualOk

def virtualCtx (cfg : Config) : Ctx TschState where
  irq := CsmaStep cfg
  cond _ _ := True
  inv := VirtualOk cfg
  live := False
  stable _ _ h hs := h.step hs

/-- An action of the process keeps the virtual neighbors. -/
def KeepsVirtual (cfg : Config) (s s' : TschState) : Prop := VirtualOk cfg s → VirtualOk cfg s'

theorem nodeWrites_keepsVirtual : NodeWrites cfg (KeepsVirtual cfg) where
  refl _ h := h
  nbrTableAdd a s h := by
    simp only [TschState.nbrTableAddLladdr]
    split
    · exact h
    · split
      · rename_i i hadd
        exact h.of_queue (fun _ => rfl) rfl rfl fun hm =>
          (List.mem_insertIdx (cfg.nbrTableAdd_le hadd)).mpr (.inr hm)
      · exact h
  newNeighbor a s h := h.modify a fun _ _ => rfl
  countTxLink n o d s h := h.modify n fun _ he => he
  testCurrentLink p s h := by
    simp only [TschState.testCurrentLink]
    split <;> exact h.of_same rfl
  clearCurrentLink _ _ h := h.of_same rfl
  allocLink s h := by
    simp only [TschState.allocLink]
    split <;> exact h.of_same rfl
  listAddLink _ _ _ h := h.of_same rfl
  listRemoveLink _ _ _ h := h.of_same rfl
  freeLink _ _ h := h.of_same rfl
  allocSlotframe s h := by
    simp only [TschState.allocSlotframe]
    split <;> exact h.of_same rfl
  listAddSlotframe _ _ h := h.of_same rfl
  freeSlotframe _ _ h := h.of_same rfl
  listRemoveSlotframe _ _ h := h.of_same rfl
  setTimeSource n _ _ h := h.modify n fun _ he => he
  allocPacket s h := by
    simp only [TschState.allocPacket]
    split
    · exact h.of_queue (fun _ => rfl) rfl rfl id
    · exact h
  freePacketBlock _ _ h := h.of_queue (fun _ => rfl) rfl rfl id
  fillPacket _ _ _ h := h.of_queue (fun _ => rfl) rfl rfl id
  putPacket n p s h := by
    have hput : VirtualOk cfg (s.modifyNeighbor n fun e => { e with txRingbuf := e.txRingbuf ++ [p] }) :=
      h.modify n fun _ he => he
    exact hput.of_queue (fun _ => rfl) rfl rfl id
  takePacket n s h := by
    have hrm := h.of_owned (removePacketFromQueue_owned n s)
    cases (tschQueueRemovePacketFromQueue n s).1 <;> exact hrm.of_same rfl
  takeDequeued _ p _ h := by cases p <;> exact h.of_same rfl
  callSentCallback _ _ h := h.of_same rfl
  freePacket _ _ h := h.of_queue (fun _ => rfl) rfl rfl id
  backoffReset n _ h := h.modify n fun _ he => he
  initLink _ _ _ _ _ _ _ _ h := h.of_same rfl
  initSlotframe _ _ _ _ h := h.of_same rfl
  setNode _ _ h := h.of_same rfl
  readStatus _ h := h.of_same rfl
  credit _ _ _ h := h.of_same rfl
  notePending _ _ h := h.of_same rfl
  finishRound _ _ h := h.of_same rfl

theorem wp_virtualClient {α : Type} {p : Prog TschState α} (hp : LockClient (KeepsVirtual cfg) p)
    {s : TschState} (h : VirtualOk cfg s) : Wp (virtualCtx cfg) p (fun _ _ => True) s :=
  Wp.of_guar_inv id (fun _ _ h hg _ => hg h)
    (hp.guar (fun _ _ h => h) (fun _ h => h) (fun _ _ h => h.of_same rfl) fun _ _ h => h.of_same rfl)
    h

theorem wp_freeUnused (fuel : Nat) {s : TschState} (h : VirtualOk cfg s) :
    Wp (virtualCtx cfg) (tschQueueFreeUnusedNeighbors fuel) (fun _ _ => True) s := by
  refine Wp.bind (Wp.read h fun t _ ht => ?_)
  cases tschIsLocked t with
  | true => exact Wp.ret trivial
  | false =>
      refine Wp.bind (Wp.read ht fun u _ hu => ?_)
      refine Wp.forEach (J := fun _ _ => True) ?_ _ hu trivial
      intro n _ v hv _
      refine Wp.bind (Wp.read hv fun w _ hw => ?_)
      cases hunused : neighborUnused w n with
      | false => exact Wp.ret trivial
      | true =>
          have hn : cfg.isVirtual n = false := by
            rw [← hw.isBroadcast n, ← Bool.not_eq_true']
            simp only [neighborUnused, Bool.and_eq_true] at hunused
            exact hunused.1.1.1
          have hne := Config.ne_broadcast hn
          refine wp_virtualClient (nodeWrites_keepsVirtual.removeNbr fuel fun x hx => ?_) hw
          exact hx.of_queue (fun _ => rfl) rfl rfl fun hm => (List.mem_erase_of_ne hne).mpr hm

theorem wp_virtualCall (fuel : Nat) (c : NodeCall) {s : TschState} (h : VirtualOk cfg s) :
    Wp (virtualCtx cfg) (c.perform cfg fuel) (fun _ _ => True) s := by
  by_cases hfree : c = .call .freeUnusedNeighbors
  · subst hfree
    refine Wp.call (P := fun _ _ => True) ?_ h fun _ _ _ _ => Wp.ret trivial
    exact Wp.call (wp_freeUnused fuel h) h fun _ _ _ _ => Wp.ret trivial
  · exact wp_virtualClient (nodeWrites_keepsVirtual.perform fuel c fun hc => absurd hc hfree) h

theorem virtual_run (fuel : Nat) (calls : List NodeCall) {c : Prog TschState Unit × TschState}
    (hr : Run (CsmaStep cfg) (fun _ _ => True)
      (Prog.forEach calls (NodeCall.perform cfg fuel), TschState.boot cfg) c) :
    VirtualOk cfg c.2 := by
  have hwp : Wp (virtualCtx cfg) (Prog.forEach calls (NodeCall.perform cfg fuel)) (fun _ _ => True)
      (TschState.boot cfg) :=
    Wp.forEach (J := fun _ _ => True) (fun c _ _ h _ => wp_virtualCall fuel c h) calls
      VirtualOk.boot trivial
  exact (Wp.run (C := virtualCtx cfg) VirtualOk.boot hwp hr).1

theorem VirtualOk.not_eb {s : TschState} {n : LinkAddr} (h : VirtualOk cfg s)
    (hn : cfg.isVirtual n = false) : s.queue.nEb ≠ some n := by
  rw [h.nEb]
  rintro ⟨⟩
  simp only [Config.isVirtual, beq_self_eq_true, Bool.true_or] at hn
  cases hn

end QlTsch
