/-
# `QlTsch.NodeCalls` — everything a process may do

`NodeCall` collects the calls of the three source files that a process makes, in any
order and with any arguments: the schedule, the neighbors and their queues, the
dequeued ring, the initial schedule and the rounds of the scheduler.

Whatever all their single writes are within, every action of every such sequence is
within (`NodeWrites.perform`).
-/
import QlTsch.LockedCalls
import QlTsch.ProcessFrame

namespace QlTsch

open Interleave Interleave.Prog

variable {cfg : Config}

/-! ## The queues -/

/-- The writes of `tsch-queue.c`, all within `G`; the removal of a neighbor is asked for
where it is used. -/
structure QueueWrites (cfg : Config) (G : TschState → TschState → Prop) : Prop
    extends SchedWrites cfg G where
  setTimeSource : ∀ n b s, G s (s.modifyNeighbor n fun e => { e with isTimeSource := b })
  allocPacket : ∀ s, G s (s.allocPacket cfg).2
  freePacketBlock : ∀ p s, G s (s.freePacketBlock p)
  fillPacket : ∀ p f s, G s (s.modifyPacket p f)
  putPacket : ∀ n p s, G s (s.putPacket n p)
  takePacket : ∀ n s, G s ((tschQueueRemovePacketFromQueue n s).2.noteTaken
    (tschQueueRemovePacketFromQueue n s).1)
  takeDequeued : ∀ r p s, G s (({ s with slot := { s.slot with dequeuedRingbuf := r } }).noteTaken p)
  callSentCallback : ∀ p s, G s (s.callSentCallback p)
  freePacket : ∀ p s, G s (s.tschQueueFreePacket p)
  backoffReset : ∀ n s, G s (s.modifyNeighbor n (tschQueueBackoffReset cfg))

namespace QueueWrites

variable {G : TschState → TschState → Prop} (W : QueueWrites cfg G)
include W

theorem mono {G' : TschState → TschState → Prop} (hG : ∀ s s', G s s' → G' s s') :
    QueueWrites cfg G' where
  toSchedWrites := W.toSchedWrites.mono hG
  setTimeSource n b s := hG _ _ (W.setTimeSource n b s)
  allocPacket s := hG _ _ (W.allocPacket s)
  freePacketBlock p s := hG _ _ (W.freePacketBlock p s)
  fillPacket p f s := hG _ _ (W.fillPacket p f s)
  putPacket n p s := hG _ _ (W.putPacket n p s)
  takePacket n s := hG _ _ (W.takePacket n s)
  takeDequeued r p s := hG _ _ (W.takeDequeued r p s)
  callSentCallback p s := hG _ _ (W.callSentCallback p s)
  freePacket p s := hG _ _ (W.freePacket p s)
  backoffReset n s := hG _ _ (W.backoffReset n s)

theorem switchTimeSource (old new : Option LinkAddr) : LockClient G (switchTimeSource old new) := by
  simp only [QlTsch.switchTimeSource]
  split
  · exact .ret _
  · cases new with
    | none =>
        cases old with
        | none => exact .ret _
        | some n => exact LockClient.modify (W.setTimeSource n false)
    | some m =>
        refine (LockClient.modify (W.setTimeSource m true)).bind fun _ => ?_
        cases old with
        | none => exact .ret _
        | some n => exact LockClient.modify (W.setTimeSource n false)

theorem updateTimeSource (a : Option LinkAddr) : LockClient G (tschQueueUpdateTimeSource cfg a) := by
  refine LockClient.unlessLocked W.refl ?_
  refine (LockClient.read W.refl _).bind fun coordinator => ?_
  cases coordinator with
  | true => exact .ret _
  | false =>
      refine (LockClient.read W.refl _).bind fun old => ?_
      cases a with
      | none => exact (W.switchTimeSource _ _).bind fun _ => .ret _
      | some a =>
          refine (W.addNbr a).bind fun n => ?_
          cases n with
          | none => exact .ret _
          | some n => exact (W.switchTimeSource _ _).bind fun _ => .ret _

theorem addPacket (a : LinkAddr) (max sent ptr : Nat) (ok : Bool) :
    LockClient G (tschQueueAddPacket cfg a max sent ptr ok) := by
  refine LockClient.unlessLocked W.refl ?_
  refine (W.addNbr a).bind fun n => ?_
  cases n with
  | none => exact .ret _
  | some n =>
      refine (LockClient.read W.refl _).bind fun room => ?_
      cases room with
      | false => exact .ret _
      | true =>
          refine (LockClient.update W.allocPacket).bind fun p => ?_
          cases p with
          | none => exact .ret _
          | some p =>
              cases ok with
              | false => exact (LockClient.modify (W.freePacketBlock p)).bind fun _ => .ret _
              | true =>
                  refine (LockClient.modify (W.fillPacket p _)).bind fun _ => ?_
                  exact (LockClient.modify (W.putPacket n p)).bind fun _ => .ret _

theorem finishPacket (p : Nat) : LockClient G (finishPacket p) :=
  (LockClient.modify (W.callSentCallback p)).bind fun _ => LockClient.modify (W.freePacket p)

theorem flushNbrQueue (fuel : Nat) (n : LinkAddr) : LockClient G (tschQueueFlushNbrQueue fuel n) := by
  refine LockClient.loop (LockClient.read W.refl _) (fun _ => ?_) fuel
  refine (LockClient.update fun s => W.takePacket n s).bind fun p => ?_
  cases p with
  | none => exact .ret _
  | some p => exact (LockClient.modify (W.fillPacket p _)).bind fun _ => W.finishPacket p

theorem removeNbr (fuel : Nat) {n : LinkAddr} (hremove : ∀ s, G s (s.nbrTableRemove n)) :
    LockClient G (tschQueueRemoveNbr fuel n) := by
  refine LockClient.withLock ?_
  refine LockClient.tschReleaseLock.bind fun _ => ?_
  exact (W.flushNbrQueue fuel n).bind fun _ => LockClient.modify hremove

theorem freePacketsTo (fuel : Nat) (a : LinkAddr) : LockClient G (tschQueueFreePacketsTo fuel a) := by
  refine LockClient.unlessLocked W.refl ?_
  refine (LockClient.read W.refl _).bind fun n => ?_
  cases n with
  | none => exact .ret _
  | some n => exact W.flushNbrQueue fuel n

theorem reset (fuel : Nat) : LockClient G (tschQueueReset cfg fuel) := by
  refine LockClient.unlessLocked W.refl ?_
  refine (LockClient.read W.refl _).bind fun ns => ?_
  exact LockClient.forEach (fun n => (W.flushNbrQueue fuel n).bind fun _ =>
    LockClient.modify (W.backoffReset n)) ns

theorem customReset : LockClient G (customResetAllBackoffExponents cfg) := by
  refine LockClient.unlessLocked W.refl ?_
  refine (LockClient.read W.refl _).bind fun ns => ?_
  exact LockClient.forEach (fun n => LockClient.modify (W.backoffReset n)) ns

theorem freeUnusedNeighbors (fuel : Nat) (hremove : ∀ n s, G s (s.nbrTableRemove n)) :
    LockClient G (tschQueueFreeUnusedNeighbors fuel) := by
  refine LockClient.unlessLocked W.refl ?_
  refine (LockClient.read W.refl _).bind fun ns => ?_
  refine LockClient.forEach (fun n => (LockClient.read W.refl _).bind fun unused => ?_) ns
  cases unused with
  | false => exact .ret _
  | true => exact W.removeNbr fuel (hremove n)

theorem dequeue : LockClient G QlTsch.takeDequeued := by
  refine (LockClient.update fun s => ?_).bind fun p => ?_
  · cases hring : s.slot.dequeuedRingbuf with
    | nil => exact W.refl s
    | cons p rest => exact W.takeDequeued rest (some p) s
  · cases p with
    | none => exact .ret _
    | some p => exact W.finishPacket p

theorem call (fuel : Nat) (c : HeldCall)
    (hlink : ∀ b p o ty a ts off s, G s (s.initLink b p o ty a ts off))
    (hframe : ∀ b handle size s, G s (s.initSlotframe b handle size))
    (hremove : c = .freeUnusedNeighbors → ∀ n s, G s (s.nbrTableRemove n)) :
    LockClient G (c.perform cfg fuel) := by
  cases c with
  | addSlotframe handle size =>
      exact (W.addSlotframe fun b => hframe b handle size).bind fun _ => .ret _
  | removeSlotframe sf => exact (W.removeSlotframe fuel sf).bind fun _ => .ret _
  | removeAllSlotframes => exact (W.removeAllSlotframes fuel fuel).bind fun _ => .ret _
  | addLink sf o ty a ts off rm =>
      exact (W.addLink fun b p => hlink b p o ty _ ts off).bind fun _ => .ret _
  | removeLink sf l => exact (W.removeLink sf l).bind fun _ => .ret _
  | removeLinkByTimeslot sf ts off => exact (W.removeLinkByTimeslot sf ts off).bind fun _ => .ret _
  | addNbr a => exact (W.addNbr a).bind fun _ => .ret _
  | addPacket a max sent ptr ok => exact (W.addPacket a max sent ptr ok).bind fun _ => .ret _
  | updateTimeSource a => exact (W.updateTimeSource a).bind fun _ => .ret _
  | freePacketsTo a => exact (W.freePacketsTo fuel a).bind fun _ => .ret _
  | reset => exact (W.reset fuel).bind fun _ => .ret _
  | freeUnusedNeighbors => exact (W.freeUnusedNeighbors fuel (hremove rfl)).bind fun _ => .ret _

end QueueWrites

/-! ## The application -/

theorem SchedWrites.initTschSchedule {G : TschState → TschState → Prop} (W : SchedWrites cfg G)
    (hlink : ∀ b p o ty a ts off s, G s (s.initLink b p o ty a ts off))
    (hframe : ∀ b handle size s, G s (s.initSlotframe b handle size))
    (hbroadcast : ∀ sf s, G s (s.setSfBroadcast sf)) (hunicast : ∀ sf s, G s (s.setSfUnicast sf))
    (hset : ∀ ts l s, G s (s.setLinkUnicast ts l)) (fuel : Nat) :
    LockClient G (initTschSchedule cfg fuel) := by
  have hassign := W.assignUnicastLink hlink hset
  refine (W.removeAllSlotframes fuel fuel).bind fun _ => ?_
  refine (W.addSlotframe fun b => hframe b _ _).bind fun _ => ?_
  refine (LockClient.modify (hbroadcast _)).bind fun _ => ?_
  refine (W.addSlotframe fun b => hframe b _ _).bind fun _ => ?_
  refine (LockClient.modify (hunicast _)).bind fun _ => ?_
  refine (LockClient.read W.refl _).bind fun _ => ?_
  refine (W.addLink fun b p => hlink b p _ _ _ _ _).bind fun _ => ?_
  refine (hassign _ _ _).bind fun _ => ?_
  exact LockClient.forEach (fun _ => hassign _ _ _) _

theorem SchedWrites.schedulerRound {G : TschState → TschState → Prop} (W : SchedWrites cfg G)
    (hlink : ∀ b p o ty a ts off s, G s (s.initLink b p o ty a ts off))
    (hset : ∀ ts l s, G s (s.setLinkUnicast ts l)) (haction : ∀ a s, G s (s.setCurrentAction a))
    (hread : ∀ s, G s s.getAndResetTxSlotStatus.2)
    (hcredit : ∀ rand reward s, G s (s.creditAction rand reward))
    (hpending : ∀ a s, G s (s.notePending a)) (hfinish : ∀ a s, G s (s.finishRound a))
    (fuel : Nat) (d : Draws) : LockClient G (schedulerRound cfg fuel d) := by
  refine LockClient.bind ?_ fun _ => ?_
  · refine LockClient.loop (LockClient.tschGetLock.bind fun got => ?_) (fun _ => .ret _) fuel
    cases got <;> exact .ret _
  refine LockClient.bind ((LockClient.bind ?_ fun status => ?_).bind fun _ => ?_) fun action => ?_
  · exact LockClient.update hread
  · split
    · exact LockClient.modify (hcredit _ _)
    · exact .ret _
  · exact LockClient.update fun _ => hpending _ _
  refine LockClient.tschReleaseLock.bind fun _ => ?_
  refine (W.setUpNewSchedule hlink hset haction action).bind fun _ => ?_
  exact LockClient.bind (.await (.ret _)) fun _ => LockClient.modify (hfinish action)

/-- The writes of `node.c` as well. -/
structure NodeWrites (cfg : Config) (G : TschState → TschState → Prop) : Prop
    extends QueueWrites cfg G where
  initLink : ∀ b p o ty a ts off s, G s (s.initLink b p o ty a ts off)
  initSlotframe : ∀ b handle size s, G s (s.initSlotframe b handle size)
  setNode : ∀ v s, G s (s.setNode v)
  readStatus : ∀ s, G s s.getAndResetTxSlotStatus.2
  credit : ∀ rand reward s, G s (s.creditAction rand reward)
  notePending : ∀ a s, G s (s.notePending a)
  finishRound : ∀ a s, G s (s.finishRound a)

namespace NodeWrites

variable {G : TschState → TschState → Prop} (W : NodeWrites cfg G)
include W

theorem call (fuel : Nat) (c : HeldCall)
    (hremove : c = .freeUnusedNeighbors → ∀ n s, G s (s.nbrTableRemove n)) :
    LockClient G (c.perform cfg fuel) :=
  W.toQueueWrites.call fuel c W.initLink W.initSlotframe hremove

theorem assignUnicastLink (o : LinkOptions) (ts : Nat) (rm : Bool) :
    LockClient G (assignUnicastLink cfg o ts rm) :=
  W.toSchedWrites.assignUnicastLink W.initLink (fun _ _ _ => W.setNode _ _) o ts rm

theorem initTschSchedule (fuel : Nat) : LockClient G (initTschSchedule cfg fuel) :=
  W.toSchedWrites.initTschSchedule W.initLink W.initSlotframe (fun _ _ => W.setNode _ _)
    (fun _ _ => W.setNode _ _) (fun _ _ _ => W.setNode _ _) fuel

theorem setUpNewSchedule (action : Nat) : LockClient G (setUpNewSchedule cfg action) :=
  W.toSchedWrites.setUpNewSchedule W.initLink (fun _ _ _ => W.setNode _ _) (fun _ _ => W.setNode _ _)
    action

theorem schedulerRound (fuel : Nat) (d : Draws) : LockClient G (schedulerRound cfg fuel d) :=
  W.toSchedWrites.schedulerRound W.initLink (fun _ _ _ => W.setNode _ _) (fun _ _ => W.setNode _ _)
    W.readStatus W.credit W.notePending W.finishRound fuel d

end NodeWrites

/-! ## Any sequence of calls -/

inductive NodeCall where
  | call (c : HeldCall)
  | customResetAllBackoffExponents
  | takeDequeued
  | initTschSchedule
  | schedulerRound (d : Draws)

def NodeCall.perform (cfg : Config) (fuel : Nat) : NodeCall → Prog TschState Unit
  | .call c => do
      let _ ← c.perform cfg fuel
  | .customResetAllBackoffExponents => QlTsch.customResetAllBackoffExponents cfg
  | .takeDequeued => QlTsch.takeDequeued
  | .initTschSchedule => QlTsch.initTschSchedule cfg fuel
  | .schedulerRound d => QlTsch.schedulerRound cfg fuel d

theorem NodeWrites.perform {G : TschState → TschState → Prop} (W : NodeWrites cfg G) (fuel : Nat)
    (c : NodeCall)
    (hremove : c = .call .freeUnusedNeighbors → ∀ n s, G s (s.nbrTableRemove n)) :
    LockClient G (c.perform cfg fuel) := by
  cases c with
  | call c =>
      exact (W.call fuel c fun hc => hremove (congrArg NodeCall.call hc)).bind fun _ => .ret _
  | customResetAllBackoffExponents => exact W.customReset
  | takeDequeued => exact W.dequeue
  | initTschSchedule => exact W.initTschSchedule fuel
  | schedulerRound d => exact W.schedulerRound fuel d

/-! ## What only a round of the scheduler writes -/

/-- The queues, the schedule and the functions that write the schedule: of the slot operation
they write `current_link` and the dequeued ring, of `node.c` `current_action` and the pointers
into the schedule, and of what is recorded only what becomes of packets and links. -/
structure KeepsRecord (s s' : TschState) : Prop where
  slot : s'.slot = { s.slot with
    currentLink := s'.slot.currentLink
    dequeuedRingbuf := s'.slot.dequeuedRingbuf }
  node : s'.node = { s.node with
    sfBroadcast := s'.node.sfBroadcast
    sfUnicast := s'.node.sfUnicast
    linksUnicastSf := s'.node.linksUnicastSf
    currentAction := s'.node.currentAction }
  ghost : s'.ghost = { s.ghost with
    accepted := s'.ghost.accepted
    taken := s'.ghost.taken
    called := s'.ghost.called
    freed := s'.ghost.freed
    linkInFlux := s'.ghost.linkInFlux }

theorem KeepsRecord.refl (s : TschState) : KeepsRecord s s := ⟨rfl, rfl, rfl⟩

theorem queueWrites_keepsRecord : QueueWrites cfg KeepsRecord where
  refl := .refl
  nbrTableAdd a s := by
    simp only [TschState.nbrTableAddLladdr]
    split
    · exact .refl s
    · split <;> exact ⟨rfl, rfl, rfl⟩
  newNeighbor _ _ := ⟨rfl, rfl, rfl⟩
  countTxLink _ _ _ _ := ⟨rfl, rfl, rfl⟩
  testCurrentLink p s := by
    simp only [TschState.testCurrentLink]
    split <;> exact ⟨rfl, rfl, rfl⟩
  clearCurrentLink _ _ := ⟨rfl, rfl, rfl⟩
  allocLink s := by
    simp only [TschState.allocLink]
    split <;> exact ⟨rfl, rfl, rfl⟩
  listAddLink _ _ _ := ⟨rfl, rfl, rfl⟩
  listRemoveLink _ _ _ := ⟨rfl, rfl, rfl⟩
  freeLink _ _ := ⟨rfl, rfl, rfl⟩
  allocSlotframe s := by
    simp only [TschState.allocSlotframe]
    split <;> exact ⟨rfl, rfl, rfl⟩
  listAddSlotframe _ _ := ⟨rfl, rfl, rfl⟩
  freeSlotframe _ _ := ⟨rfl, rfl, rfl⟩
  listRemoveSlotframe _ _ := ⟨rfl, rfl, rfl⟩
  setTimeSource _ _ _ := ⟨rfl, rfl, rfl⟩
  allocPacket s := by
    simp only [TschState.allocPacket]
    split <;> exact ⟨rfl, rfl, rfl⟩
  freePacketBlock _ _ := ⟨rfl, rfl, rfl⟩
  fillPacket _ _ _ := ⟨rfl, rfl, rfl⟩
  putPacket _ _ _ := ⟨rfl, rfl, rfl⟩
  takePacket n s := by
    obtain ⟨q, hq⟩ := removePacketFromQueue_queue n s
    rw [hq]
    cases (tschQueueRemovePacketFromQueue n s).1 <;> exact ⟨rfl, rfl, rfl⟩
  takeDequeued _ p _ := by cases p <;> exact ⟨rfl, rfl, rfl⟩
  callSentCallback _ _ := ⟨rfl, rfl, rfl⟩
  freePacket _ _ := ⟨rfl, rfl, rfl⟩
  backoffReset _ _ := ⟨rfl, rfl, rfl⟩

/-- The calls of a process that are not a round of the scheduler. -/
def NodeCall.IsRound : NodeCall → Prop
  | .schedulerRound _ => True
  | _ => False

theorem NodeCall.keepsRecord (fuel : Nat) {c : NodeCall} (hc : ¬ c.IsRound) :
    LockClient KeepsRecord (c.perform cfg fuel) := by
  have W : QueueWrites cfg KeepsRecord := queueWrites_keepsRecord
  cases c with
  | call c =>
      have hcall : LockClient KeepsRecord (c.perform cfg fuel) :=
        W.call fuel c (fun _ _ _ _ _ _ _ _ => ⟨rfl, rfl, rfl⟩) (fun _ _ _ _ => ⟨rfl, rfl, rfl⟩)
          fun _ _ _ => ⟨rfl, rfl, rfl⟩
      exact hcall.bind fun _ => .ret _
  | customResetAllBackoffExponents => exact W.customReset
  | takeDequeued => exact W.dequeue
  | initTschSchedule =>
      exact W.toSchedWrites.initTschSchedule (fun _ _ _ _ _ _ _ _ => ⟨rfl, rfl, rfl⟩)
        (fun _ _ _ _ => ⟨rfl, rfl, rfl⟩) (fun _ _ => ⟨rfl, rfl, rfl⟩) (fun _ _ => ⟨rfl, rfl, rfl⟩)
        (fun _ _ _ => ⟨rfl, rfl, rfl⟩) fuel
  | schedulerRound d => exact absurd trivial hc

/-! ## What is left to the slot operation -/

/-- What a process leaves to the slot operation: of its variables it writes
`current_link`, and only to set it to NULL, the dequeued ring and `trans_status`. -/
structure LeavesSlot (s s' : TschState) : Prop where
  slot : s'.slot = { s.slot with
    currentLink := s'.slot.currentLink
    dequeuedRingbuf := s'.slot.dequeuedRingbuf
    transStatus := s'.slot.transStatus }
  currentLink : s'.slot.currentLink = s.slot.currentLink ∨ s'.slot.currentLink = none

namespace LeavesSlot

theorem of_slot {s s' : TschState} (hs : s'.slot = s.slot) : LeavesSlot s s' :=
  ⟨by rw [hs], .inl (by rw [hs])⟩

theorem refl (s : TschState) : LeavesSlot s s := of_slot rfl

theorem trans {a b c : TschState} (h : LeavesSlot a b) (h' : LeavesSlot b c) : LeavesSlot a c := by
  refine ⟨?_, ?_⟩
  · rw [h'.slot, h.slot]
  · rcases h'.currentLink with hsame | hnone
    · rw [hsame]
      exact h.currentLink
    · exact .inr hnone

end LeavesSlot

/-- The same, with the lock left alone. -/
structure LeavesLock (s s' : TschState) : Prop extends LeavesSlot s s' where
  lock : s'.lock = s.lock

theorem nodeWrites_leavesLock : NodeWrites cfg LeavesLock where
  refl _ := ⟨.refl _, rfl⟩
  nbrTableAdd a s := by
    simp only [TschState.nbrTableAddLladdr]
    split
    · exact ⟨.refl s, rfl⟩
    · split <;> exact ⟨.of_slot rfl, rfl⟩
  newNeighbor _ _ := ⟨.of_slot rfl, rfl⟩
  countTxLink _ _ _ _ := ⟨.of_slot rfl, rfl⟩
  testCurrentLink p s := by
    simp only [TschState.testCurrentLink]
    split <;> exact ⟨.of_slot rfl, rfl⟩
  clearCurrentLink _ _ := ⟨⟨rfl, .inr rfl⟩, rfl⟩
  allocLink s := by
    simp only [TschState.allocLink]
    split <;> exact ⟨.of_slot rfl, rfl⟩
  listAddLink _ _ _ := ⟨.of_slot rfl, rfl⟩
  listRemoveLink _ _ _ := ⟨.of_slot rfl, rfl⟩
  freeLink _ _ := ⟨.of_slot rfl, rfl⟩
  allocSlotframe s := by
    simp only [TschState.allocSlotframe]
    split <;> exact ⟨.of_slot rfl, rfl⟩
  listAddSlotframe _ _ := ⟨.of_slot rfl, rfl⟩
  freeSlotframe _ _ := ⟨.of_slot rfl, rfl⟩
  listRemoveSlotframe _ _ := ⟨.of_slot rfl, rfl⟩
  setTimeSource _ _ _ := ⟨.of_slot rfl, rfl⟩
  allocPacket s := by
    simp only [TschState.allocPacket]
    split <;> exact ⟨.of_slot rfl, rfl⟩
  freePacketBlock _ _ := ⟨.of_slot rfl, rfl⟩
  fillPacket _ _ _ := ⟨.of_slot rfl, rfl⟩
  putPacket _ _ _ := ⟨.of_slot rfl, rfl⟩
  takePacket n s := by
    obtain ⟨q, hq⟩ := removePacketFromQueue_queue n s
    rw [hq]
    cases (tschQueueRemovePacketFromQueue n s).1 <;> exact ⟨.of_slot rfl, rfl⟩
  takeDequeued _ p _ := by cases p <;> exact ⟨⟨rfl, .inl rfl⟩, rfl⟩
  callSentCallback _ _ := ⟨.of_slot rfl, rfl⟩
  freePacket _ _ := ⟨.of_slot rfl, rfl⟩
  backoffReset _ _ := ⟨.of_slot rfl, rfl⟩
  initLink _ _ _ _ _ _ _ _ := ⟨.of_slot rfl, rfl⟩
  initSlotframe _ _ _ _ := ⟨.of_slot rfl, rfl⟩
  setNode _ _ := ⟨.of_slot rfl, rfl⟩
  readStatus _ := ⟨⟨rfl, .inl rfl⟩, rfl⟩
  credit _ _ _ := ⟨.of_slot rfl, rfl⟩
  notePending _ _ := ⟨.of_slot rfl, rfl⟩
  finishRound _ _ := ⟨.of_slot rfl, rfl⟩

theorem guar_leavesSlot (fuel : Nat) (calls : List NodeCall) :
    (Prog.forEach calls (NodeCall.perform cfg fuel)).Guar LeavesSlot :=
  Guar.forEach (fun c => (nodeWrites_leavesLock.perform fuel c fun _ _ _ => ⟨.of_slot rfl, rfl⟩).guar
    (fun _ _ h => h.toLeavesSlot) (fun _ => .of_slot rfl) (fun _ _ => .of_slot rfl)
    fun _ _ => .of_slot rfl) calls

end QlTsch
