/-
# `QlTsch.PacketCalls` — every call that takes no packet out of a queue

The rules of `QlTsch.QueueRules` for the rest of the process: the schedule, the neighbors,
the initial schedule and the rounds of the scheduler.  None of them touches a queued
packet, so all they have to be followed for is the lock.  A program `KeepsPackets` if it
does so from free lock to free lock, and `KeepsPacketsLocked` if it is begun under the lock.

With this the record of the queues (`QlTsch.FifoRetries`) is right in every run of a whole
node, its scheduler included (`node_queues`).
-/
import QlTsch.FifoRetries
import QlTsch.LockBalance

namespace QlTsch

open Interleave Interleave.Prog

variable {cfg : Config} {α β : Type}

/-! ## Programs that keep the packets -/

/-- From between two calls to between two calls. -/
def KeepsPackets (cfg : Config) (p : Prog TschState α) : Prop :=
  ∀ s, PacketsHeld s → Between s →
    Wpg (queueCtx cfg) (PacketAct (· < 256)) p (fun _ t => Between t) s

/-- The same, begun under the lock. -/
def KeepsPacketsLocked (cfg : Config) (p : Prog TschState α) : Prop :=
  ∀ s, PacketsHeld s → s.lock = .held → s.ledger.Settled →
    Wpg (queueCtx cfg) (PacketAct (· < 256)) p (fun _ t => Between t) s

theorem Relinked.refl (s : TschState) : Relinked s s := ⟨rfl, rfl, rfl, rfl, rfl, rfl, rfl⟩

theorem Relinked.packetAct {ok : Nat → Prop} {s s' : TschState} (h : Relinked s s') :
    PacketAct ok s s' := by
  have hpackets : ∀ n, ∀ p ∈ s.ledger.queue n, s'.kept.packets p = s.kept.packets p := by
    intro n p _
    show ({ s'.queue.packets p with framePending := false } : TschPacket) = _
    rw [h.packets]
    rfl
  exact .keep (congrArg Ledger.queue h.ledger) hpackets (congrArg Ledger.accepted h.ledger)

namespace KeepsPackets

theorem ret (a : α) : KeepsPackets cfg (.ret a : Prog TschState α) := fun _ _ hb => hb

theorem bind {p : Prog TschState α} {g : α → Prog TschState β} (hp : KeepsPackets cfg p)
    (hg : ∀ a, KeepsPackets cfg (g a)) : KeepsPackets cfg (p >>= g) :=
  fun s hi hb => Wpg.call (hp s hi hb) hi fun a t hit hbt => hg a t hit hbt

theorem update {f : TschState → β × TschState} (hf : ∀ s, Relinked s (f s).2) :
    KeepsPackets cfg (Prog.update f) := by
  intro s hi hb
  refine Wpg.update hi fun t ht hit => ?_
  have hbt := hb.rely hi ht
  exact ⟨PacketsHeld.relinked hit (hf t), (hf t).packetAct, (hf t).lock.trans hbt.free,
    (hf t).ledger ▸ hbt.settled⟩

theorem modify {f : TschState → TschState} (hf : ∀ s, Relinked s (f s)) :
    KeepsPackets cfg (Prog.modify f) := update (f := fun s => ((), f s)) hf

theorem read (g : TschState → β) : KeepsPackets cfg (Prog.read g) :=
  update (f := fun s => (g s, s)) fun s => .refl s

theorem waitFor (c : TschState → Bool) : KeepsPackets cfg (Prog.waitFor c) :=
  fun _ hi hb _ ht => ⟨fun hl => hl.elim, fun _ => hb.rely hi ht⟩

theorem forEach {body : β → Prog TschState Unit} {xs : List β}
    (hbody : ∀ x ∈ xs, KeepsPackets cfg (body x)) : KeepsPackets cfg (Prog.forEach xs body) := by
  induction xs with
  | nil => exact ret ()
  | cons x xs ih =>
      refine (hbody x List.mem_cons_self).bind fun _ => ih fun y hy => ?_
      exact hbody y (List.mem_cons_of_mem x hy)

theorem loop {head : Prog TschState (Option β)} {body : β → Prog TschState Unit}
    (hhead : KeepsPackets cfg head) (hbody : ∀ x, KeepsPackets cfg (body x)) (fuel : Nat) :
    KeepsPackets cfg (Prog.loop fuel head body) := by
  induction fuel with
  | zero =>
      intro s _ _ t _
      exact ⟨fun hl => hl.elim, fun hc => by cases hc⟩
  | succ fuel ih =>
      refine hhead.bind fun x => ?_
      cases x with
      | none => exact ret ()
      | some x => exact (hbody x).bind fun _ => ih

theorem unlessLocked {x : α} {rest : Prog TschState α} (h : KeepsPackets cfg rest) :
    KeepsPackets cfg
      (Prog.read tschIsLocked >>= fun locked => if locked = true then pure x else rest) := by
  refine (read _).bind fun locked => ?_
  cases locked with
  | true => exact ret x
  | false => exact h

theorem tschGetLock {k : Bool → Prog TschState α} (hk : KeepsPacketsLocked cfg (k true)) :
    KeepsPackets cfg (QlTsch.tschGetLock >>= k) := by
  intro s hi hb
  have hfree : s.lock.tschLocked = false := by rw [hb.free]
  refine Wpg.call (.of_guar (wp_tschGetLock_free lockCtx_queue hi hfree) guar_tschGetLock) hi
    fun got t hit hgot => ?_
  obtain ⟨rfl, hto⟩ := hgot
  have htaken : t.ledger.taken = s.ledger.taken := congrArg Owned.taken hto
  have hcalled : t.ledger.called = s.ledger.called := congrArg Owned.called hto
  have hfreed : t.ledger.freed = s.ledger.freed := congrArg Owned.freed hto
  refine hk t hit (congrArg Owned.lock hto) ⟨?_, ?_⟩
  · rw [hcalled, htaken, hb.settled.called]
  · rw [hfreed, hcalled, hb.settled.freed]

end KeepsPackets

namespace KeepsPacketsLocked

theorem update {f : TschState → β × TschState} {k : β → Prog TschState α}
    (hf : ∀ s, Relinked s (f s).2) (hk : ∀ b, KeepsPacketsLocked cfg (k b)) :
    KeepsPacketsLocked cfg (Prog.update f >>= k) := by
  intro s hi hl hs
  refine Wpg.bind (Wpg.update hi fun t ht hit => ?_)
  have hlt : t.lock = .held := (lock_of_owned (lockCtx_queue.owned_rely hi ht)).trans hl
  have hit' := PacketsHeld.relinked hit (hf t)
  refine ⟨hit', (hf t).packetAct, hk _ _ hit' ((hf t).lock.trans hlt) ?_⟩
  rw [(hf t).ledger]
  exact .served (served_rely hi ht) hs

theorem modify {f : TschState → TschState} {k : Unit → Prog TschState α}
    (hf : ∀ s, Relinked s (f s)) (hk : KeepsPacketsLocked cfg (k ())) :
    KeepsPacketsLocked cfg (Prog.modify f >>= k) := update (f := fun s => ((), f s)) hf fun _ => hk

theorem read {g : TschState → β} {k : β → Prog TschState α}
    (hk : ∀ b, KeepsPacketsLocked cfg (k b)) : KeepsPacketsLocked cfg (Prog.read g >>= k) :=
  update (f := fun s => (g s, s)) (fun s => .refl s) hk

theorem tschReleaseLock {k : Unit → Prog TschState α} (hk : KeepsPackets cfg (k ())) :
    KeepsPacketsLocked cfg (QlTsch.tschReleaseLock >>= k) :=
  fun _ hi hl hs => Wpg.call (wpg_release hi hl hs) hi fun _ t hit ht => hk t hit ht.1

end KeepsPacketsLocked

/-! ## The neighbors -/

theorem keepsPackets_addNbr (a : LinkAddr) : KeepsPackets cfg (tschQueueAddNbr cfg a) :=
  fun _ hi hb => (wpg_tschQueueAddNbr a hi hb).mono hi fun _ _ _ h => h.1

theorem relinked_modifyNeighbor {n : LinkAddr} {f : TschNeighbor → TschNeighbor}
    (hf : ∀ e, (f e).txRingbuf = e.txRingbuf) (s : TschState) : Relinked s (s.modifyNeighbor n f) :=
  ⟨rfl, ledger_neighbor (hf _), rfl, rfl, rfl, rfl, rfl⟩

theorem keepsPackets_switchTimeSource (old new : Option LinkAddr) :
    KeepsPackets cfg (switchTimeSource old new) := by
  have hset : ∀ (n : LinkAddr) (b : Bool), KeepsPackets cfg
      (Prog.modify (TschState.modifyNeighbor n fun e => { e with isTimeSource := b })) :=
    fun _ _ => .modify (relinked_modifyNeighbor fun _ => rfl)
  simp only [switchTimeSource]
  split
  · exact .ret _
  · cases new with
    | none =>
        cases old with
        | none => exact .ret _
        | some n => exact hset n false
    | some m =>
        refine (hset m true).bind fun _ => ?_
        cases old with
        | none => exact .ret _
        | some n => exact hset n false

theorem keepsPackets_updateTimeSource (a : Option LinkAddr) :
    KeepsPackets cfg (tschQueueUpdateTimeSource cfg a) := by
  refine KeepsPackets.unlessLocked ?_
  refine (KeepsPackets.read _).bind fun coordinator => ?_
  cases coordinator with
  | true => exact .ret _
  | false =>
      refine (KeepsPackets.read _).bind fun old => ?_
      cases a with
      | none => exact (keepsPackets_switchTimeSource _ _).bind fun _ => .ret _
      | some a =>
          refine (keepsPackets_addNbr a).bind fun n => ?_
          cases n with
          | none => exact .ret _
          | some n => exact (keepsPackets_switchTimeSource _ _).bind fun _ => .ret _

theorem keepsPackets_customReset : KeepsPackets cfg (customResetAllBackoffExponents cfg) := by
  refine KeepsPackets.unlessLocked ?_
  refine (KeepsPackets.read _).bind fun ns => ?_
  refine KeepsPackets.forEach ?_
  intro n _
  exact .modify (relinked_modifyNeighbor fun _ => rfl)

/-! ## The schedule -/

theorem keepsPackets_addSlotframe (handle size : Nat) :
    KeepsPackets cfg (tschScheduleAddSlotframe cfg handle size) := by
  simp only [tschScheduleAddSlotframe]
  split
  · exact .ret _
  · refine (KeepsPackets.read _).bind fun sf => ?_
    cases sf with
    | some b => exact .ret _
    | none =>
        refine KeepsPackets.tschGetLock (KeepsPacketsLocked.update (fun s => ?_) fun b => ?_)
        · simp only [TschState.allocSlotframe]
          split <;> exact ⟨rfl, rfl, rfl, rfl, rfl, rfl, rfl⟩
        · cases b with
          | none => exact .tschReleaseLock (.ret _)
          | some b =>
              refine .modify (fun _ => ⟨rfl, rfl, rfl, rfl, rfl, rfl, rfl⟩) ?_
              refine .modify (fun _ => ⟨rfl, rfl, rfl, rfl, rfl, rfl, rfl⟩) ?_
              exact .tschReleaseLock (.ret _)

theorem keepsPackets_countTx (n : LinkAddr) (o : LinkOptions) (d : Int) :
    KeepsPackets cfg (Prog.modify (TschState.countTxLink n o d)) :=
  .modify (relinked_modifyNeighbor fun _ => rfl)

theorem keepsPackets_uncountLink (o : LinkOptions) (a : LinkAddr) :
    KeepsPackets cfg (uncountLink o a) := by
  simp only [uncountLink]
  split
  · refine (KeepsPackets.read _).bind fun n => ?_
    cases n with
    | none => exact .ret _
    | some n => exact keepsPackets_countTx n o (-1)
  · exact .ret _

theorem keepsPacketsLocked_abortCurrentLink (p : Nat) {k : Unit → Prog TschState α}
    (hk : KeepsPacketsLocked cfg (k ())) : KeepsPacketsLocked cfg (abortCurrentLink p >>= k) := by
  rw [abortCurrentLink, Prog.bind_assoc]
  refine KeepsPacketsLocked.update (fun s => ?_) fun current => ?_
  · simp only [TschState.testCurrentLink]
    split <;> exact ⟨rfl, rfl, rfl, rfl, rfl, rfl, rfl⟩
  · cases current with
    | true => exact .modify (fun _ => ⟨rfl, rfl, rfl, rfl, rfl, rfl, rfl⟩) hk
    | false => exact hk

theorem keepsPackets_removeLink (sf l : Option Nat) :
    KeepsPackets cfg (tschScheduleRemoveLink sf l) := by
  cases sf with
  | none => exact .ret _
  | some b =>
      cases l with
      | none => exact .ret _
      | some p =>
          refine (KeepsPackets.read _).bind fun ours => ?_
          cases ours with
          | false => exact .ret _
          | true =>
              refine KeepsPackets.tschGetLock (KeepsPacketsLocked.read fun saved => ?_)
              refine keepsPacketsLocked_abortCurrentLink p ?_
              refine .modify (fun _ => ⟨rfl, rfl, rfl, rfl, rfl, rfl, rfl⟩) ?_
              refine .modify (fun _ => ⟨rfl, rfl, rfl, rfl, rfl, rfl, rfl⟩) ?_
              exact .tschReleaseLock ((keepsPackets_uncountLink _ _).bind fun _ => .ret _)

theorem keepsPackets_removeLinksAt (b timeslot channelOffset : Nat) (ls : List Nat) :
    KeepsPackets cfg (removeLinksAt b timeslot channelOffset ls) := by
  induction ls with
  | nil => exact .ret _
  | cons p ls ih =>
      refine KeepsPackets.bind ?_ fun removed => ih.bind fun rest => .ret _
      refine (KeepsPackets.read _).bind fun here => ?_
      cases here with
      | true => exact keepsPackets_removeLink (some b) (some p)
      | false => exact .ret _

theorem keepsPackets_removeLinkByTimeslot (sf : Option Nat) (timeslot channelOffset : Nat) :
    KeepsPackets cfg (tschScheduleRemoveLinkByTimeslot sf timeslot channelOffset) := by
  refine KeepsPackets.unlessLocked ?_
  cases sf with
  | none => exact .ret _
  | some b => exact (KeepsPackets.read _).bind fun ls => keepsPackets_removeLinksAt _ _ _ ls

theorem keepsPackets_countLink (o : LinkOptions) (a : LinkAddr) :
    KeepsPackets cfg (countLink cfg o a) := by
  simp only [countLink]
  split
  · refine (keepsPackets_addNbr a).bind fun n => ?_
    cases n with
    | none => exact .ret _
    | some n => exact keepsPackets_countTx n o 1
  · exact .ret _

theorem keepsPackets_installLink (b : Nat) (o : LinkOptions) (ty : LinkType) (a : LinkAddr)
    (timeslot channelOffset : Nat) :
    KeepsPackets cfg (installLink cfg b o ty a timeslot channelOffset) := by
  refine KeepsPackets.tschGetLock (KeepsPacketsLocked.update (fun s => ?_) fun p => ?_)
  · simp only [TschState.allocLink]
    split <;> exact ⟨rfl, rfl, rfl, rfl, rfl, rfl, rfl⟩
  · cases p with
    | none => exact .tschReleaseLock (.ret _)
    | some p =>
        refine .modify (fun _ => ⟨rfl, rfl, rfl, rfl, rfl, rfl, rfl⟩) ?_
        refine .modify (fun _ => ⟨rfl, rfl, rfl, rfl, rfl, rfl, rfl⟩) ?_
        exact .tschReleaseLock ((keepsPackets_countLink _ _).bind fun _ => .ret _)

theorem keepsPackets_addLink (sf : Option Nat) (o : LinkOptions) (ty : LinkType)
    (a : Option LinkAddr) (timeslot channelOffset : Nat) (doRemove : Bool) :
    KeepsPackets cfg (tschScheduleAddLink cfg sf o ty a timeslot channelOffset doRemove) := by
  cases sf with
  | none => exact .ret _
  | some b =>
      refine (KeepsPackets.read _).bind fun invalid => ?_
      cases invalid with
      | true => exact .ret _
      | false =>
          cases doRemove with
          | false => exact keepsPackets_installLink _ _ _ _ _ _
          | true =>
              refine (keepsPackets_removeLinkByTimeslot _ _ _).bind fun _ => ?_
              exact keepsPackets_installLink _ _ _ _ _ _

theorem keepsPackets_removeSlotframe (fuel : Nat) (sf : Option Nat) :
    KeepsPackets cfg (tschScheduleRemoveSlotframe fuel sf) := by
  cases sf with
  | none => exact .ret _
  | some b =>
      refine (KeepsPackets.loop (.read _) (fun p => ?_) fuel).bind fun _ => ?_
      · exact (keepsPackets_removeLink _ _).bind fun _ => .ret _
      · refine KeepsPackets.tschGetLock ?_
        refine KeepsPacketsLocked.modify (fun _ => ⟨rfl, rfl, rfl, rfl, rfl, rfl, rfl⟩) ?_
        refine .modify (fun _ => ⟨rfl, rfl, rfl, rfl, rfl, rfl, rfl⟩) ?_
        exact .tschReleaseLock (.ret _)

theorem keepsPackets_removeAllSlotframes (fuel n : Nat) :
    KeepsPackets cfg (tschScheduleRemoveAllSlotframes fuel n) := by
  induction n with
  | zero =>
      intro s _ _ t _
      exact ⟨fun hl => hl.elim, fun hc => by cases hc⟩
  | succ n ih =>
      refine (KeepsPackets.read _).bind fun head => ?_
      cases head with
      | none => exact .ret _
      | some b =>
          refine (keepsPackets_removeSlotframe fuel (some b)).bind fun removed => ?_
          cases removed with
          | true => exact ih
          | false => exact .ret _

/-! ## The application -/

theorem keepsPackets_assignUnicastLink (o : LinkOptions) (timeslot : Nat) (doRemove : Bool) :
    KeepsPackets cfg (assignUnicastLink cfg o timeslot doRemove) := by
  refine (KeepsPackets.read _).bind fun sf => ?_
  refine (keepsPackets_addLink _ _ _ _ _ _ _).bind fun l => ?_
  exact .modify fun _ => ⟨rfl, rfl, rfl, rfl, rfl, rfl, rfl⟩

theorem keepsPackets_initTschSchedule (fuel : Nat) :
    KeepsPackets cfg (initTschSchedule cfg fuel) := by
  refine (keepsPackets_removeAllSlotframes fuel fuel).bind fun _ => ?_
  refine (keepsPackets_addSlotframe _ _).bind fun sfb => ?_
  refine KeepsPackets.bind (.modify fun _ => ⟨rfl, rfl, rfl, rfl, rfl, rfl, rfl⟩) fun _ => ?_
  refine (keepsPackets_addSlotframe _ _).bind fun sfu => ?_
  refine KeepsPackets.bind (.modify fun _ => ⟨rfl, rfl, rfl, rfl, rfl, rfl, rfl⟩) fun _ => ?_
  refine (KeepsPackets.read _).bind fun sf => ?_
  refine (keepsPackets_addLink _ _ _ _ _ _ _).bind fun l => ?_
  refine (keepsPackets_assignUnicastLink _ _ _).bind fun _ => ?_
  exact KeepsPackets.forEach fun i _ => keepsPackets_assignUnicastLink _ _ _

theorem keepsPackets_setUpNewSchedule (action : Nat) :
    KeepsPackets cfg (setUpNewSchedule cfg action) := by
  refine (KeepsPackets.read _).bind fun new => ?_
  cases new with
  | false => exact .ret _
  | true =>
      refine (keepsPackets_assignUnicastLink _ _ _).bind fun _ => ?_
      refine (KeepsPackets.read _).bind fun current => ?_
      refine (keepsPackets_assignUnicastLink _ _ _).bind fun _ => ?_
      exact .modify fun _ => ⟨rfl, rfl, rfl, rfl, rfl, rfl, rfl⟩

theorem keepsPackets_settle (d : Draws) : KeepsPacketsLocked cfg (do
    let action ← settleAndChoose cfg d
    tschReleaseLock
    setUpNewSchedule cfg action
    Prog.waitFor fun s => !tschIsLocked s
    Prog.modify (TschState.finishRound action)) := by
  have hrest : KeepsPacketsLocked cfg (Prog.update (TschState.pickAction cfg d) >>= fun action => do
      tschReleaseLock
      setUpNewSchedule cfg action
      Prog.waitFor fun s => !tschIsLocked s
      Prog.modify (TschState.finishRound action)) := by
    refine .update (fun _ => ⟨rfl, rfl, rfl, rfl, rfl, rfl, rfl⟩) fun action => ?_
    refine .tschReleaseLock ((keepsPackets_setUpNewSchedule action).bind fun _ => ?_)
    refine (KeepsPackets.waitFor _).bind fun _ => ?_
    exact .modify fun _ => ⟨rfl, rfl, rfl, rfl, rfl, rfl, rfl⟩
  simp only [settleAndChoose, settleReward, bind_assoc]
  refine .update (fun _ => ⟨rfl, rfl, rfl, rfl, rfl, rfl, rfl⟩) fun status => ?_
  split
  · exact .modify (fun _ => ⟨rfl, rfl, rfl, rfl, rfl, rfl, rfl⟩) hrest
  · exact hrest

theorem keepsPackets_schedulerRound (fuel : Nat) (d : Draws) :
    KeepsPackets cfg (schedulerRound cfg fuel d) := by
  cases fuel with
  | zero =>
      intro s _ _ t _
      exact ⟨fun hl => hl.elim, fun hc => by cases hc⟩
  | succ fuel =>
      simp only [schedulerRound, spinUntil, Prog.loop, bind_assoc]
      exact .tschGetLock (keepsPackets_settle d)

/-! ## Any sequence of calls -/

/-- A call that takes no packet out of a neighbor's queue; a new packet may be tried as
often as a byte can say. -/
def NodeCall.NoFlush : NodeCall → Prop
  | .call (.addPacket _ maxTransmissions _ _ _) => maxTransmissions < 256
  | .call (.freePacketsTo _) | .call .reset | .call .freeUnusedNeighbors => False
  | _ => True

theorem keepsPackets_nodeCall (fuel : Nat) {c : NodeCall} (hc : c.NoFlush) :
    KeepsPackets cfg (c.perform cfg fuel) := by
  cases c with
  | call c =>
      refine KeepsPackets.bind ?_ fun _ => .ret _
      cases c with
      | addSlotframe handle size => exact (keepsPackets_addSlotframe _ _).bind fun _ => .ret _
      | removeSlotframe sf => exact (keepsPackets_removeSlotframe _ _).bind fun _ => .ret _
      | removeAllSlotframes => exact (keepsPackets_removeAllSlotframes _ _).bind fun _ => .ret _
      | addLink sf o ty a ts off rm => exact (keepsPackets_addLink _ _ _ _ _ _ _).bind fun _ => .ret _
      | removeLink sf l => exact (keepsPackets_removeLink _ _).bind fun _ => .ret _
      | removeLinkByTimeslot sf ts off =>
          exact (keepsPackets_removeLinkByTimeslot _ _ _).bind fun _ => .ret _
      | addNbr a => exact (keepsPackets_addNbr _).bind fun _ => .ret _
      | addPacket a m sent ptr qb =>
          refine KeepsPackets.bind ?_ fun _ => .ret _
          intro s hi hb
          refine wpg_tschQueueAddPacket a ?_ sent ptr qb hi hb
          exact hc
      | updateTimeSource a => exact (keepsPackets_updateTimeSource _).bind fun _ => .ret _
      | freePacketsTo a => exact hc.elim
      | reset => exact hc.elim
      | freeUnusedNeighbors => exact hc.elim
  | customResetAllBackoffExponents => exact keepsPackets_customReset
  | takeDequeued => exact fun s hi hb => wpg_takeDequeued hi hb
  | initTschSchedule => exact keepsPackets_initTschSchedule fuel
  | schedulerRound d => exact keepsPackets_schedulerRound fuel d

theorem keepsPackets_nodeCalls (fuel : Nat) {calls : List NodeCall}
    (hcalls : ∀ c ∈ calls, c.NoFlush) :
    KeepsPackets cfg (Prog.forEach calls (NodeCall.perform cfg fuel)) :=
  .forEach fun c hc => keepsPackets_nodeCall fuel (hcalls c hc)

/-- **The queues of a whole node**, in every run of its scheduler, of changes of the
schedule, of new packets and of slots, without a flush:

* every packet is in one place, and when the calls have returned, each one taken out has
  been called back and freed;
* the packets of a neighbor leave in the order in which they were accepted, each tried
  within its bounds;
* a packet that is still queued has been tried without success and fewer times than it may be:
  a success makes it leave, and so does its last attempt. -/
theorem node_queues (fuel : Nat) {calls : List NodeCall} (hcalls : ∀ c ∈ calls, c.NoFlush)
    {s : TschState} (h : Quiescent s) (hempty : ∀ n, s.ledger.queue n = []) {es : List FifoEvent}
    {c : Prog TschState Unit × TschState}
    (hr : History (FifoStep cfg) queueEvents (Prog.forEach calls (NodeCall.perform cfg fuel), s) es c) :
    c.2.ledger.Balanced ∧ (c.1 = .ret () → c.2.ledger.Settled) ∧
    (∀ n, acceptedFor n es = leftFrom n es ++ (c.2.ledger.queue n).map c.2.ledger.uid) ∧
    (∀ n u ret, .left n u ret ∈ es → ∃ maxTransmissions, .accepted n u maxTransmissions ∈ es ∧
      Retries maxTransmissions ret (attemptsOf u es)) ∧
    (∀ n, ∀ p ∈ c.2.ledger.queue n,
      .accepted n (c.2.ledger.uid p) (c.2.queue.packets p).maxTransmissions ∈ es ∧
      MayRetry (c.2.queue.packets p).maxTransmissions (attemptsOf (c.2.ledger.uid p) es)) ∧
    ∀ n u maxTransmissions, .accepted n u maxTransmissions ∈ es →
      .ok ∈ attemptsOf u es ∨ max 1 maxTransmissions ≤ (attemptsOf u es).length →
      ∃ ret, .left n u ret ∈ es := by
  have hkeeps : KeepsPackets cfg (Prog.forEach calls (NodeCall.perform cfg fuel)) :=
    keepsPackets_nodeCalls fuel hcalls
  have hw := hkeeps s h.held h.toBetween
  obtain ⟨hi, hf⟩ := fifoInv_of_wpg h.held hw hempty hr
  refine ⟨hi.balanced, fun hret => ?_, hf.order, hf.hasLeft, fun _ _ => hf.queued,
    fun _ _ _ => hf.leaves_of_spent⟩
  have hrun : Run (queueCtx cfg).irq (fun _ _ => True)
      (Prog.forEach calls (NodeCall.perform cfg fuel), s) c := by
    refine Run.mono ?_ (fun _ _ h => h) hr.run
    rintro a b ⟨_, ⟨hs⟩⟩
    exact ⟨_, hs⟩
  obtain ⟨-, t, hit, hrel, hq⟩ := hw.run (fun _ _ => trivial) h.held hrun
  rw [hret] at hq
  have hb : Between t := hq
  exact (hb.rely hit hrel).settled

theorem empty_oneTxLink (n : LinkAddr) : oneTxLink.ledger.queue n = [] := by
  have hledger : oneTxLink.ledger = ⟨[254, 255], fun _ => [], [], ∅, fun _ => 0, 0, [], [], []⟩ :=
    ledger_neighbor rfl
  rw [hledger]

theorem node_queues_second :
    ∃ es c, History (FifoStep (smallBuild 8)) queueEvents
        (Prog.forEach [.schedulerRound ⟨0, 0, 0⟩, .call (.addPacket 255 2 0 0 true)]
          (NodeCall.perform (smallBuild 8) 1), oneTxLink) es c ∧
      c.2.ledger.Settled ∧ attemptsOf 0 es = [.err, .ok] ∧
      ∃ maxTransmissions, .accepted 255 0 maxTransmissions ∈ es ∧
        Retries maxTransmissions .ok (attemptsOf 0 es) := by
  obtain ⟨es, c, hr, hc⟩ := History.exists_historyOf (fifoMove (smallBuild 8)) queueEvents
    (Prog.forEach [.schedulerRound ⟨0, 0, 0⟩, .call (.addPacket 255 2 0 0 true)]
      (NodeCall.perform (smallBuild 8) 1), oneTxLink) fifoMove_step
    (List.replicate 18 none ++ [some (.quiet 0), some (.quiet 328),
      some { SlotInput.quiet 328 with transmitOk := false }, some (.quiet 656), some (.quiet 656)])
    (fun r => decide (.left 255 0 .ok ∈ r.1 ∧ attemptsOf 0 r.1 = [.err, .ok] ∧
      r.2.1.result = some ())) (by decide +kernel)
  obtain ⟨hleft, htries, hret⟩ := of_decide_eq_true hc
  have hcalls : ∀ c ∈ [NodeCall.schedulerRound ⟨0, 0, 0⟩, .call (.addPacket 255 2 0 0 true)],
      c.NoFlush := by
    intro c hc
    rcases List.mem_cons.mp hc with rfl | hc
    · trivial
    · cases List.mem_singleton.mp hc
      exact (by decide : 2 < 256)
  obtain ⟨-, hsettled, -, hretries, -⟩ := node_queues 1 hcalls quiescent_oneTxLink empty_oneTxLink hr
  exact ⟨es, c, hr, hsettled (Prog.eq_ret_of_result hret), htries, hretries 255 0 .ok hleft⟩

end QlTsch
