/-
# `QlTsch.SlotFrame` — what the slot operation leaves alone

`Owned` is the part of the state that only processes write: the lock, the
schedule, the neighbor table with its link counters, the packet pool and the
variables of `node.c`.  No interrupt changes it (`slotStep_owned`), so a process
that has read any of it may rely on it until its own next write.

The second result is about the flags: a slot operation is in progress exactly
when `tsch_in_slot_operation` is set, and a transmit slot is never in progress
under the lock (`SlotFlags.step`), because under the lock every queue looks
empty.
-/
import QlTsch.SlotOutline

namespace QlTsch

variable {cfg : Config}

/-! ## The part of the processes -/

/-- What the programs of `tsch-schedule.c` and `node.c` read and write. -/
@[ext] structure View where
  sched : ScheduleVars
  nbrs : List LinkAddr
  txLinks : LinkAddr → Int
  dedicatedTxLinks : LinkAddr → Int
  node : NodeVars
  pendingAction : Option Nat

def TschState.view (s : TschState) : View where
  sched := s.sched
  nbrs := s.queue.tschNeighbors
  txLinks n := (s.queue.neighbors n).txLinksCount
  dedicatedTxLinks n := (s.queue.neighbors n).dedicatedTxLinksCount
  node := s.node
  pendingAction := s.ghost.pendingAction

/-- What only processes write. -/
@[ext] structure Owned where
  lock : LockVars
  view : View
  packetMemb : Finset Nat
  isBroadcast : LinkAddr → Bool
  isTimeSource : LinkAddr → Bool
  nBroadcast : Option LinkAddr
  nEb : Option LinkAddr
  accepted : Nat
  taken : List Nat
  called : List Nat
  freed : List Nat
  linkInFlux : Option Nat
  readOutcome : Option TxOutcome
  credits : List Credit

def TschState.owned (s : TschState) : Owned where
  lock := s.lock
  view := s.view
  packetMemb := s.queue.packetMemb
  isBroadcast n := (s.queue.neighbors n).isBroadcast
  isTimeSource n := (s.queue.neighbors n).isTimeSource
  nBroadcast := s.queue.nBroadcast
  nEb := s.queue.nEb
  accepted := s.ghost.accepted
  taken := s.ghost.taken
  called := s.ghost.called
  freed := s.ghost.freed
  linkInFlux := s.ghost.linkInFlux
  readOutcome := s.ghost.readOutcome
  credits := s.ghost.credits

/-- A change of a neighbor entry that keeps the fields of the processes. -/
structure TschNeighbor.Keeps (f : TschNeighbor → TschNeighbor) : Prop where
  isBroadcast : ∀ e, (f e).isBroadcast = e.isBroadcast
  isTimeSource : ∀ e, (f e).isTimeSource = e.isTimeSource
  txLinksCount : ∀ e, (f e).txLinksCount = e.txLinksCount
  dedicatedTxLinksCount : ∀ e, (f e).dedicatedTxLinksCount = e.dedicatedTxLinksCount

theorem owned_of_neighbors {s s' : TschState}
    (h : s' = { s with queue := { s.queue with neighbors := s'.queue.neighbors } })
    (hb : ∀ n, (s'.queue.neighbors n).isBroadcast = (s.queue.neighbors n).isBroadcast)
    (ht : ∀ n, (s'.queue.neighbors n).isTimeSource = (s.queue.neighbors n).isTimeSource)
    (hc : ∀ n, (s'.queue.neighbors n).txLinksCount = (s.queue.neighbors n).txLinksCount)
    (hd : ∀ n, (s'.queue.neighbors n).dedicatedTxLinksCount =
      (s.queue.neighbors n).dedicatedTxLinksCount) : s'.owned = s.owned := by
  simp only [TschState.owned, TschState.view, hb, ht, hc, hd]
  rw [h]

theorem owned_modifyNeighbor {f : TschNeighbor → TschNeighbor} (hf : TschNeighbor.Keeps f)
    (n : LinkAddr) (s : TschState) : (s.modifyNeighbor n f).owned = s.owned := by
  have key : ∀ {β : Type} (g : TschNeighbor → β), (∀ e, g (f e) = g e) → ∀ m,
      g ((s.modifyNeighbor n f).queue.neighbors m) = g (s.queue.neighbors m) := by
    intro β g hg m
    by_cases hm : m = n
    · subst hm
      simp only [TschState.modifyNeighbor, QueueVars.modifyNeighbor, Function.update_self, hg]
    · simp only [TschState.modifyNeighbor, QueueVars.modifyNeighbor, Function.update_of_ne hm]
  exact owned_of_neighbors rfl (key _ hf.isBroadcast) (key _ hf.isTimeSource)
    (key _ hf.txLinksCount) (key _ hf.dedicatedTxLinksCount)

/-! ## Backoff -/

theorem keeps_backoffReset : TschNeighbor.Keeps (tschQueueBackoffReset cfg) :=
  ⟨fun _ => rfl, fun _ => rfl, fun _ => rfl, fun _ => rfl⟩

theorem keeps_backoffInc (rand : Nat) : TschNeighbor.Keeps (tschQueueBackoffInc cfg rand) :=
  ⟨fun _ => rfl, fun _ => rfl, fun _ => rfl, fun _ => rfl⟩

theorem keeps_txRingbuf (r : List Nat) :
    TschNeighbor.Keeps fun e => { e with txRingbuf := r } :=
  ⟨fun _ => rfl, fun _ => rfl, fun _ => rfl, fun _ => rfl⟩

theorem updateAllBackoffWindows_spec (a : LinkAddr) (s : TschState) :
    ∃ w : LinkAddr → Nat, tschQueueUpdateAllBackoffWindows cfg a s =
      { s with queue := { s.queue with
          neighbors := fun n => { s.queue.neighbors n with backoffWindow := w n } } } := by
  simp only [tschQueueUpdateAllBackoffWindows]
  split
  · exact ⟨fun n => (s.queue.neighbors n).backoffWindow, rfl⟩
  · refine ⟨fun n => if n ∈ s.queue.tschNeighbors ∧
      backoffWindowCounts cfg a n (s.queue.neighbors n) then
        (s.queue.neighbors n).backoffWindow - 1 else (s.queue.neighbors n).backoffWindow, ?_⟩
    congr 3
    funext n
    dsimp only
    split <;> rfl

variable (cfg) in
theorem updateLinkBackoff_spec (l : Option Nat) (s : TschState) :
    ∃ w : LinkAddr → Nat, updateLinkBackoff cfg l s =
      { s with queue := { s.queue with
          neighbors := fun n => { s.queue.neighbors n with backoffWindow := w n } } } := by
  have hsame : ∃ w : LinkAddr → Nat, s = { s with queue := { s.queue with
      neighbors := fun n => { s.queue.neighbors n with backoffWindow := w n } } } :=
    ⟨fun n => (s.queue.neighbors n).backoffWindow, rfl⟩
  cases l with
  | none => exact hsame
  | some p =>
      simp only [updateLinkBackoff]
      split
      · exact updateAllBackoffWindows_spec _ s
      · exact hsame

theorem updateLinkBackoff_locked {s : TschState} (h : s.lock.tschLocked = true) (l : Option Nat) :
    updateLinkBackoff cfg l s = s := by
  cases l with
  | none => rfl
  | some p =>
      simp only [updateLinkBackoff, tschQueueUpdateAllBackoffWindows, tschIsLocked, h, if_true,
        ite_self]

section
variable (cfg) (l : Option Nat) (s : TschState)

@[simp] theorem updateLinkBackoff_slot : (updateLinkBackoff cfg l s).slot = s.slot := by
  obtain ⟨w, hw⟩ := updateLinkBackoff_spec cfg l s
  rw [hw]

@[simp] theorem updateLinkBackoff_ghost : (updateLinkBackoff cfg l s).ghost = s.ghost := by
  obtain ⟨w, hw⟩ := updateLinkBackoff_spec cfg l s
  rw [hw]

@[simp] theorem updateLinkBackoff_lock : (updateLinkBackoff cfg l s).lock = s.lock := by
  obtain ⟨w, hw⟩ := updateLinkBackoff_spec cfg l s
  rw [hw]

@[simp] theorem updateLinkBackoff_owned : (updateLinkBackoff cfg l s).owned = s.owned := by
  obtain ⟨w, hw⟩ := updateLinkBackoff_spec cfg l s
  rw [hw]
  rfl

end

/-! ## The parts of a slot -/

theorem removePacketFromQueue_owned (n : LinkAddr) (s : TschState) :
    (tschQueueRemovePacketFromQueue n s).2.owned = s.owned := by
  simp only [tschQueueRemovePacketFromQueue]
  split
  · rfl
  · split
    · rfl
    · exact owned_modifyNeighbor (keeps_txRingbuf _) n s

variable (cfg) in
theorem packetSent_owned (n : LinkAddr) (p : Nat) (link : TschLink) (st : MacStatus) (rand : Nat)
    (s : TschState) : (tschQueuePacketSent cfg n p link st rand s).2.owned = s.owned := by
  have hrm := removePacketFromQueue_owned n s
  simp only [tschQueuePacketSent]
  split
  · split
    · exact (owned_modifyNeighbor keeps_backoffReset n _).trans hrm
    · exact hrm
  · -- whether the packet is dropped, then whether the backoff grows
    have hdrop : ∀ d : Prop, [Decidable d] →
        (if d then (tschQueueRemovePacketFromQueue n s).2 else s).owned = s.owned := by
      intro d _
      split
      · exact hrm
      · rfl
    split
    · exact (owned_modifyNeighbor (keeps_backoffInc rand) n _).trans (hdrop _)
    · exact hdrop _

theorem removePacketFromQueue_queue (n : LinkAddr) (s : TschState) :
    ∃ q, (tschQueueRemovePacketFromQueue n s).2 = { s with queue := q } := by
  simp only [tschQueueRemovePacketFromQueue]
  split
  · exact ⟨_, rfl⟩
  · split
    · exact ⟨_, rfl⟩
    · exact ⟨_, rfl⟩

variable (cfg) in
theorem packetSent_queue (n : LinkAddr) (p : Nat) (link : TschLink) (st : MacStatus) (rand : Nat)
    (s : TschState) : ∃ q, (tschQueuePacketSent cfg n p link st rand s).2 = { s with queue := q } := by
  obtain ⟨q, hq⟩ := removePacketFromQueue_queue n s
  have hdrop : ∀ d : Prop, [Decidable d] →
      ∃ q, (if d then (tschQueueRemovePacketFromQueue n s).2 else s) = { s with queue := q } := by
    intro d _
    split
    · exact ⟨q, hq⟩
    · exact ⟨s.queue, rfl⟩
  simp only [tschQueuePacketSent]
  split
  · rw [hq]
    split
    · exact ⟨_, rfl⟩
    · exact ⟨_, rfl⟩
  · obtain ⟨q', hq'⟩ := hdrop ((s.queue.packets p).transmissions ≥ (s.queue.packets p).maxTransmissions)
    rw [hq']
    split
    · exact ⟨_, rfl⟩
    · exact ⟨_, rfl⟩

theorem recordOutcome_owned (p l : Nat) (st : MacStatus) (s : TschState) :
    (recordOutcome p l st s).owned = s.owned := by
  simp only [recordOutcome]
  split <;> rfl

theorem finishTx_owned (n : LinkAddr) (p l : Nat) (st : MacStatus) (rand : Nat) (s : TschState) :
    (finishTx cfg n p l st rand s).owned = s.owned := by
  have h := packetSent_owned cfg n p ((recordOutcome p l st s).link l) st rand
    (recordOutcome p l st s)
  simp only [finishTx, dequeueOutcome]
  split
  · exact h.trans (recordOutcome_owned p l st s)
  · exact h.trans (recordOutcome_owned p l st s)

variable (cfg) in
/-- Once the outcome is recorded, the end of a transmit slot writes the queues and
the dequeued ring. -/
theorem finishTx_spec (n : LinkAddr) (p l : Nat) (st : MacStatus) (rand : Nat) (s : TschState) :
    ∃ q d, finishTx cfg n p l st rand s =
      { recordOutcome p l st s with
        queue := q
        slot := { (recordOutcome p l st s).slot with dequeuedRingbuf := d } } := by
  obtain ⟨q, hq⟩ := packetSent_queue cfg n p ((recordOutcome p l st s).link l) st rand
    (recordOutcome p l st s)
  simp only [finishTx, dequeueOutcome]
  rw [hq]
  split
  · exact ⟨q, (recordOutcome p l st s).slot.dequeuedRingbuf, rfl⟩
  · exact ⟨q, _, rfl⟩

theorem chooseLink_owned (l : Nat) (s : TschState) : (chooseLink cfg l s).owned = s.owned := by
  simp only [chooseLink]
  split
  · rfl
  · exact updateLinkBackoff_owned cfg (some l) (getCurrentPacket l s)

variable (cfg) in
theorem setChannel_spec (l : Nat) (s : TschState) :
    ∃ b o c, setChannel cfg l s = { s with slot := { s.slot with
      burstLinkScheduled := b, tschCurrentChannelOffset := o, tschCurrentChannel := c } } := by
  simp only [setChannel]
  split
  · exact ⟨_, s.slot.tschCurrentChannelOffset, s.slot.tschCurrentChannel, rfl⟩
  · exact ⟨s.slot.burstLinkScheduled, _, _, rfl⟩

theorem setChannel_owned (l : Nat) (s : TschState) : (setChannel cfg l s).owned = s.owned := by
  obtain ⟨b, o, c, h⟩ := setChannel_spec cfg l s
  rw [h]
  rfl

theorem countReception_spec (l : Nat) (s : TschState) :
    ∃ t, countReception l s = { s with slot := { s.slot with aptTable := t } } := by
  simp only [countReception]
  split
  · exact ⟨_, rfl⟩
  · exact ⟨s.slot.aptTable, rfl⟩

theorem countReception_owned (l : Nat) (s : TschState) :
    (countReception l s).owned = s.owned := by
  obtain ⟨t, h⟩ := countReception_spec l s
  rw [h]
  rfl

/-- The outline of the frame: at every stage the part of the processes is `o`. -/
def ownedOutline (cfg : Config) (o : Owned) : SlotOutline cfg where
  asleep s := s.owned = o
  starting s := s.owned = o
  sending _ _ s := s.owned = o
  listening s := s.owned = o
  receiving s := s.owned = o
  ending s := s.owned = o
  chosen s := s.owned = o
  leave h _ := h
  skip h _ _ _ := h
  startTx h _ _ _ _ _ := (setChannel_owned _ _).trans ((chooseLink_owned _ _).trans h)
  startRx h _ _ _ _ := (setChannel_owned _ _).trans ((chooseLink_owned _ _).trans h)
  startIdle h _ _ _ := (chooseLink_owned _ _).trans h
  full h := h
  frame h _ _ := h
  framePending _ h := h
  sendingPc _ h := h
  transmit _ h := h
  acknowledge _ h := h
  syncFromAck _ _ h := h
  requestBurst h := h
  finish _ _ h _ _ _ _ := (finishTx_owned _ _ _ _ _ _).trans h
  listeningPc _ h := h
  deaf h := h
  receive h := h
  receiveBurst _ h := h
  syncFromFrame _ _ h := h
  deliver _ h _ := (countReception_owned _ _).trans h
  keepTime _ h := h
  again h := h
  disassociate h := h
  backoff _ h := (updateLinkBackoff_owned _ _ _).trans h
  replay h _ _ := h
  select h _ := h
  advance _ _ h := h
  armTimer _ h := h
  sleep h := h

theorem holds_ownedOutline {o : Owned} {s : TschState} :
    (ownedOutline cfg o).Holds s ↔ s.owned = o := by
  simp only [SlotOutline.Holds, ownedOutline]
  split <;> rfl

/-- **The frame of an interrupt.** -/
theorem slotStep_owned {i : SlotInput} {s s' : TschState} (h : slotStep cfg i s = some s') :
    s'.owned = s.owned :=
  holds_ownedOutline.mp ((ownedOutline cfg s.owned).step (holds_ownedOutline.mpr rfl)
    (fun _ => trivial) (fun _ => trivial) h)

section
variable {s s' : TschState} (h : s'.owned = s.owned)
include h

theorem lock_of_owned : s'.lock = s.lock := congrArg Owned.lock h
theorem view_of_owned : s'.view = s.view := congrArg Owned.view h
theorem sched_of_owned : s'.sched = s.sched := congrArg (fun o => o.view.sched) h
theorem node_of_owned : s'.node = s.node := congrArg (fun o => o.view.node) h

end

/-! ## The packet of a slot -/

theorem getPacketForNbr_some {s : TschState} {n : Option LinkAddr} {link : TschLink} {p : Nat}
    (h : tschQueueGetPacketForNbr s n link = some p) :
    s.lock.tschLocked = false ∧ ∃ m, n = some m ∧ (s.queue.neighbors m).txRingbuf.head? = some p := by
  simp only [tschQueueGetPacketForNbr] at h
  split at h
  · cases h
  · rename_i hlock
    refine ⟨Bool.eq_false_iff.mpr hlock, ?_⟩
    split at h
    · cases h
    · rename_i m
      refine ⟨m, rfl, ?_⟩
      split at h
      · cases h
      · rename_i q hq
        split at h
        · cases h
        · cases h
          exact hq

theorem getUnicastPacketForAny_some {s : TschState} {link : TschLink} {n : LinkAddr} {p : Nat}
    (h : tschQueueGetUnicastPacketForAny s link = some (n, p)) :
    s.lock.tschLocked = false ∧ n ∈ s.queue.tschNeighbors ∧
      (s.queue.neighbors n).txRingbuf.head? = some p ∧
      (s.queue.neighbors n).isBroadcast = false ∧ (s.queue.neighbors n).txLinksCount = 0 := by
  simp only [tschQueueGetUnicastPacketForAny] at h
  split at h
  · cases h
  · obtain ⟨m, hm, hp⟩ := List.exists_of_findSome?_eq_some h
    split at hp
    · rename_i heligible
      obtain ⟨q, hq, hmq⟩ := Option.map_eq_some_iff.mp hp
      cases hmq
      obtain ⟨hlock, k, hk, hhead⟩ := getPacketForNbr_some hq
      cases hk
      rw [Bool.and_eq_true, Bool.not_eq_true', beq_iff_eq] at heligible
      exact ⟨hlock, hm, hhead, heligible⟩
    · cases hp

theorem getNbr_some {s : TschState} {a n : LinkAddr} (h : tschQueueGetNbr s a = some n) :
    s.lock.tschLocked = false ∧ n = a ∧ n ∈ s.queue.tschNeighbors := by
  simp only [tschQueueGetNbr] at h
  split at h
  · cases h
  · rename_i hlock
    split at h
    · cases h
      exact ⟨Bool.eq_false_iff.mpr hlock, rfl, ‹_›⟩
    · cases h

theorem getDataPacket_some {s : TschState} {link : TschLink} {p : Nat}
    (h : (getDataPacket s link).1 = some p) :
    s.lock.tschLocked = false ∧ ∃ n, (getDataPacket s link).2 = some n ∧
      n ∈ s.queue.tschNeighbors ∧ (s.queue.neighbors n).txRingbuf.head? = some p := by
  simp only [getDataPacket] at h ⊢
  split at h
  · rename_i hif
    rw [if_pos hif]
    split at h
    · rename_i n' p' hany
      cases h
      obtain ⟨hlock, hn, hhead, -⟩ := getUnicastPacketForAny_some hany
      exact ⟨hlock, n', rfl, hn, hhead⟩
    · cases h
  · rename_i hif
    rw [if_neg hif]
    obtain ⟨hlock, m, hm, hhead⟩ := getPacketForNbr_some h
    exact ⟨hlock, m, hm, (getNbr_some hm).2.2, hhead⟩

/-- A packet is found only outside the lock, and is the head of the queue of
the neighbor that comes with it. -/
theorem getPacketAndNeighbor_some {s : TschState} {link : TschLink} {p : Nat}
    (h : (getPacketAndNeighborForLink s link).1 = some p) :
    s.lock.tschLocked = false ∧ ∃ n, (getPacketAndNeighborForLink s link).2 = some n ∧
      (n ∈ s.queue.tschNeighbors ∨ s.queue.nEb = some n) ∧
      (s.queue.neighbors n).txRingbuf.head? = some p := by
  simp only [getPacketAndNeighborForLink] at h ⊢
  split at h
  · rename_i htx
    rw [if_pos htx]
    split at h
    · rename_i hdata
      rw [if_pos hdata]
      obtain ⟨hlock, n, hn, hmem, hhead⟩ := getDataPacket_some h
      exact ⟨hlock, n, hn, .inl hmem, hhead⟩
    · rename_i hdata
      rw [if_neg hdata]
      simp only [getEbPacket] at h ⊢
      split at h
      · rename_i hadv
        rw [if_pos hadv]
        obtain ⟨hlock, m, hm, hhead⟩ := getPacketForNbr_some h
        exact ⟨hlock, m, hm, .inr hm, hhead⟩
      · cases h
  · cases h

/-- What `chooseLink` leaves: a chosen packet is the head of its neighbor's
queue, and the lock is free. -/
theorem chooseLink_packet {l p : Nat} {s : TschState}
    (h : (chooseLink cfg l s).slot.currentPacket = some p) :
    s.lock.tschLocked = false ∧ ∃ n, (chooseLink cfg l s).slot.currentNeighbor = some n ∧
      (n ∈ s.queue.tschNeighbors ∨ s.queue.nEb = some n) ∧
      ((chooseLink cfg l s).queue.neighbors n).txRingbuf.head? = some p := by
  simp only [chooseLink] at h ⊢
  split at h
  · exact getPacketAndNeighbor_some h
  · rename_i b _
    obtain ⟨w, hw⟩ := updateLinkBackoff_spec cfg (some l) (getCurrentPacket l s)
    rw [hw] at h ⊢
    exact getPacketAndNeighbor_some h

/-! ## The flags -/

/-- A slot operation is in progress when the flag says so, and a transmit slot
only outside the lock. -/
structure SlotFlags (s : TschState) : Prop where
  inSlot : s.slot.tschInSlotOperation = true ↔ s.slot.pc ≠ .asleep
  tx : s.slot.pc.inTx = true → s.lock.tschLocked = false

variable (cfg) in
theorem setChannel_flags (l : Nat) (s : TschState) :
    (setChannel cfg l s).slot.tschInSlotOperation = s.slot.tschInSlotOperation ∧
      (setChannel cfg l s).lock = s.lock := by
  obtain ⟨b, o, c, h⟩ := setChannel_spec cfg l s
  rw [h]
  exact ⟨rfl, rfl⟩

theorem chooseLink_inSlot (l : Nat) (s : TschState) :
    (chooseLink cfg l s).slot.tschInSlotOperation = s.slot.tschInSlotOperation := by
  simp only [chooseLink]
  split
  · rfl
  · exact congrArg (·.tschInSlotOperation) (updateLinkBackoff_slot cfg _ _)

def flagsOutline (cfg : Config) : SlotOutline cfg where
  asleep s := s.slot.tschInSlotOperation = false
  starting s := s.slot.tschInSlotOperation = true ∧ s.lock.tschLocked = false
  sending _ _ s := s.slot.tschInSlotOperation = true ∧ s.lock.tschLocked = false
  listening s := s.slot.tschInSlotOperation = true
  receiving _ := True
  ending _ := True
  chosen _ := True
  leave h _ := h
  skip _ _ _ _ := trivial
  startTx := by
    intro s l l' _ _ _ _ _ hp
    obtain ⟨p, hp⟩ := Option.isSome_iff_exists.mp hp
    obtain ⟨hin, hlock⟩ := setChannel_flags cfg l' (chooseLink cfg l s.disarm.enterSlot)
    rw [hin, hlock, chooseLink_inSlot, lock_of_owned (chooseLink_owned l _)]
    exact ⟨rfl, (chooseLink_packet hp).1⟩
  startRx := by
    intro s l l' _ _ _ _ _
    rw [(setChannel_flags _ _ _).1, chooseLink_inSlot]
    rfl
  startIdle _ _ _ _ := trivial
  full _ := trivial
  frame h _ _ := h
  framePending _ h := h
  sendingPc _ h := h
  transmit _ h := h
  acknowledge _ h := h
  syncFromAck _ _ h := h
  requestBurst h := h
  finish _ _ _ _ _ _ _ := trivial
  listeningPc _ h := h
  deaf _ := trivial
  receive _ := trivial
  receiveBurst _ h := h
  syncFromFrame _ _ h := h
  deliver _ _ _ := trivial
  keepTime _ h := h
  again h := h
  disassociate _ := rfl
  backoff _ _ := trivial
  replay h _ _ := h
  select h _ := h
  advance _ _ h := h
  armTimer _ h := h
  sleep _ := rfl

theorem holds_flagsOutline {s : TschState} : (flagsOutline cfg).Holds s ↔ SlotFlags s := by
  constructor
  · intro h
    simp only [SlotOutline.Holds, flagsOutline] at h
    split at h <;> rename_i hpc <;> refine ⟨?_, ?_⟩ <;> simp_all [SlotPc.inTx]
  · rintro ⟨hin, htx⟩
    simp only [SlotOutline.Holds, flagsOutline]
    split <;> rename_i hpc <;> simp_all [SlotPc.inTx]

theorem SlotFlags.step {i : SlotInput} {s s' : TschState} (h : SlotFlags s)
    (hs : slotStep cfg i s = some s') : SlotFlags s' :=
  holds_flagsOutline.mp ((flagsOutline cfg).step (holds_flagsOutline.mpr h) (fun _ => trivial)
    (fun _ => trivial) hs)

end QlTsch
