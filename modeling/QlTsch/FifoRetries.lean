/-
# `QlTsch.FifoRetries` — the life of a packet in its queue

`tsch_queue_add_packet` puts a packet at the end of the queue of its neighbor.
Attempts to send it are spread over many slots, on any links, among attempts to other
neighbors and new packets.  The record of a run (`FifoEvent`) is what becomes of the
queues between two states, and the attempts that come to their end.

`fifo_bounded_retries`: in every run without a flush the packets of a neighbor leave in
the order in which they were accepted.  Each has then been tried at least once and at
most `max(1, max_transmissions)` times; it leaves with the status of its last attempt,
the only one that may have succeeded; and when that one failed, after the last attempt
allowed.  And it does leave: one that is still queued has no success, and an attempt left.
A slot that starts with a full dequeued ring does nothing of all this.
-/
import QlTsch.PacketConservation

namespace QlTsch

open Interleave Interleave.Prog

variable {cfg : Config}

/-! ## The record of a run -/

inductive FifoEvent where
  /-- a packet has been put at the end of the queue of `n` -/
  | accepted (n : LinkAddr) (uid maxTransmissions : Nat)
  /-- an attempt to send a packet to `n` has come to its end -/
  | attempt (n : LinkAddr) (uid : Nat) (macTxStatus : MacStatus)
  /-- a packet has left the queue of `n` -/
  | left (n : LinkAddr) (uid : Nat) (ret : MacStatus)
deriving DecidableEq, Repr

/-- What the queue of `n` has lost at its head and won at its end. -/
def queueEventsOf (s s' : TschState) (n : LinkAddr) : List FifoEvent :=
  (((s.queue.neighbors n).txRingbuf.take
      ((s.queue.neighbors n).txRingbuf.length - (s'.queue.neighbors n).txRingbuf.length)).map fun p =>
    .left n (s.queue.packets p).uid (s'.queue.packets p).ret) ++
  (((s'.queue.neighbors n).txRingbuf.drop (s.queue.neighbors n).txRingbuf.length).map fun p =>
    .accepted n (s'.queue.packets p).uid (s'.queue.packets p).maxTransmissions)

def queueEvents (s s' : TschState) : List FifoEvent :=
  s.queue.tschNeighbors.flatMap (queueEventsOf s s')

/-- The attempt that an interrupt brings to its end. -/
def attemptEvents (cfg : Config) (i : SlotInput) (s : TschState) : List FifoEvent :=
  match slotEvent cfg i s with
  | .attempt n p _ st => [.attempt n (s.queue.packets p).uid st]
  | .quiet | .reception _ _ => []

inductive FifoStep (cfg : Config) : List FifoEvent → TschState → TschState → Prop
  | slot {i : SlotInput} {s s' : TschState} :
      slotStep cfg i s = some s' → FifoStep cfg (attemptEvents cfg i s ++ queueEvents s s') s s'

/-! ## Reading the record -/

def FifoEvent.acceptedBy (n : LinkAddr) : FifoEvent → Option Nat
  | .accepted m u _ => if m = n then some u else none
  | .attempt _ _ _ | .left _ _ _ => none

def FifoEvent.leftBy (n : LinkAddr) : FifoEvent → Option Nat
  | .left m u _ => if m = n then some u else none
  | .accepted _ _ _ | .attempt _ _ _ => none

def FifoEvent.attemptOf (u : Nat) : FifoEvent → Option MacStatus
  | .attempt _ v st => if v = u then some st else none
  | .accepted _ _ _ | .left _ _ _ => none

/-- The packets accepted for `n`, in order. -/
def acceptedFor (n : LinkAddr) (h : List FifoEvent) : List Nat := h.filterMap (FifoEvent.acceptedBy n)

/-- The packets that have left the queue of `n`, in order. -/
def leftFrom (n : LinkAddr) (h : List FifoEvent) : List Nat := h.filterMap (FifoEvent.leftBy n)

/-- The attempts to send packet `u`, in order. -/
def attemptsOf (u : Nat) (h : List FifoEvent) : List MacStatus := h.filterMap (FifoEvent.attemptOf u)

section
variable (n m : LinkAddr) (u v : Nat) (st : MacStatus) (h h' : List FifoEvent)

@[simp] theorem acceptedFor_append :
    acceptedFor n (h ++ h') = acceptedFor n h ++ acceptedFor n h' := List.filterMap_append

@[simp] theorem leftFrom_append : leftFrom n (h ++ h') = leftFrom n h ++ leftFrom n h' :=
  List.filterMap_append

@[simp] theorem attemptsOf_append : attemptsOf u (h ++ h') = attemptsOf u h ++ attemptsOf u h' :=
  List.filterMap_append

@[simp] theorem acceptedFor_accepted (max : Nat) :
    acceptedFor n [.accepted m u max] = if m = n then [u] else [] := by
  by_cases hm : m = n <;> simp [acceptedFor, FifoEvent.acceptedBy, hm]

@[simp] theorem leftFrom_left : leftFrom n [.left m u st] = if m = n then [u] else [] := by
  by_cases hm : m = n <;> simp [leftFrom, FifoEvent.leftBy, hm]

@[simp] theorem attemptsOf_attempt : attemptsOf u [.attempt n v st] = if v = u then [st] else [] := by
  by_cases hv : v = u <;> simp [attemptsOf, FifoEvent.attemptOf, hv]

@[simp] theorem acceptedFor_attempt : acceptedFor n [.attempt m u st] = [] := rfl
@[simp] theorem acceptedFor_left : acceptedFor n [.left m u st] = [] := rfl
@[simp] theorem leftFrom_accepted (max : Nat) : leftFrom n [.accepted m u max] = [] := rfl
@[simp] theorem leftFrom_attempt : leftFrom n [.attempt m u st] = [] := rfl
@[simp] theorem attemptsOf_accepted (max : Nat) : attemptsOf u [.accepted n v max] = [] := rfl
@[simp] theorem attemptsOf_left : attemptsOf u [.left n v st] = [] := rfl

end

theorem mem_acceptedFor {n : LinkAddr} {u : Nat} {es : List FifoEvent} :
    u ∈ acceptedFor n es ↔ ∃ maxTransmissions, .accepted n u maxTransmissions ∈ es := by
  simp only [acceptedFor, List.mem_filterMap]
  constructor
  · rintro ⟨e, he, hu⟩
    cases e with
    | accepted m v a =>
        simp only [FifoEvent.acceptedBy] at hu
        split at hu
        · rename_i hm
          cases hm
          cases hu
          exact ⟨a, he⟩
        · cases hu
    | attempt m v st => cases hu
    | left m v st => cases hu
  · rintro ⟨a, he⟩
    exact ⟨_, he, if_pos rfl⟩

theorem mem_leftFrom {n : LinkAddr} {u : Nat} {es : List FifoEvent} :
    u ∈ leftFrom n es ↔ ∃ ret, .left n u ret ∈ es := by
  simp only [leftFrom, List.mem_filterMap]
  constructor
  · rintro ⟨e, he, hu⟩
    cases e with
    | left m v ret =>
        simp only [FifoEvent.leftBy] at hu
        split at hu
        · rename_i hm
          cases hm
          cases hu
          exact ⟨ret, he⟩
        · cases hu
    | accepted m v a => cases hu
    | attempt m v st => cases hu
  · rintro ⟨ret, he⟩
    exact ⟨_, he, if_pos rfl⟩

/-! ## What the queues lose and win -/

section
variable {s s' : TschState} {n : LinkAddr} {p : Nat}

theorem uid_of_kept (h : s'.kept.packets p = s.kept.packets p) : s'.ledger.uid p = s.ledger.uid p := by
  have huid := congrArg TschPacket.uid h
  exact huid

theorem queueEventsOf_same (h : s'.ledger.queue n = s.ledger.queue n) : queueEventsOf s s' n = [] := by
  have hring : (s'.queue.neighbors n).txRingbuf = (s.queue.neighbors n).txRingbuf := h
  simp only [queueEventsOf, hring, Nat.sub_self, List.take_zero, List.map_nil, List.drop_length,
    List.append_nil]

theorem queueEvents_same (h : s'.ledger.queue = s.ledger.queue) : queueEvents s s' = [] :=
  List.flatMap_eq_nil_iff.mpr fun n _ => queueEventsOf_same (congrFun h n)

theorem queueEvents_update {q : List Nat} (hbal : s.ledger.Balanced) (hn : n ∈ s.ledger.keys)
    (h : s'.ledger.queue = Function.update s.ledger.queue n q) :
    queueEvents s s' = queueEventsOf s s' n := by
  refine flatMap_of_unique hbal.keys hn fun m hm => queueEventsOf_same ?_
  rw [h, Function.update_of_ne hm]

theorem queueEvents_accept (hbal : s.ledger.Balanced) (hn : n ∈ s.ledger.keys)
    (h : s'.ledger.queue = Function.update s.ledger.queue n (s.ledger.queue n ++ [p])) :
    queueEvents s s' = [.accepted n (s'.ledger.uid p) (s'.queue.packets p).maxTransmissions] := by
  have hring : (s'.queue.neighbors n).txRingbuf = (s.queue.neighbors n).txRingbuf ++ [p] := by
    have hq := congrFun h n
    rw [Function.update_self] at hq
    exact hq
  rw [queueEvents_update hbal hn h]
  simp only [queueEventsOf, hring, List.length_append, List.length_singleton]
  rw [Nat.sub_eq_zero_of_le (Nat.le_succ _), List.take_zero, List.drop_left]
  rfl

theorem queueEvents_serve {rest : List Nat} (hbal : s.ledger.Balanced)
    (hq : s.ledger.queue n = p :: rest)
    (h : s'.ledger.queue = Function.update s.ledger.queue n rest) :
    queueEvents s s' = [.left n (s.ledger.uid p) (s'.queue.packets p).ret] := by
  have hring : (s.queue.neighbors n).txRingbuf = p :: rest := hq
  have hring' : (s'.queue.neighbors n).txRingbuf = rest := by
    have hq' := congrFun h n
    rw [Function.update_self] at hq'
    exact hq'
  rw [queueEvents_update hbal (hbal.mem_of_queue hq) h]
  have hone : rest.length + 1 - rest.length = 1 := by omega
  simp only [queueEventsOf, hring, hring', List.length_cons, hone, List.take_succ_cons, List.take_zero,
    List.map_cons, List.map_nil]
  rw [List.drop_eq_nil_of_le (Nat.le_succ _)]
  rfl

end

/-! ## The invariant -/

/-- The attempts of a packet that has left with status `ret`. -/
structure Retries (maxTransmissions : Nat) (ret : MacStatus) (tries : List MacStatus) : Prop where
  tried : 1 ≤ tries.length
  bounded : tries.length ≤ max 1 maxTransmissions
  last : tries.getLast? = some ret
  /-- no attempt before the last one has succeeded -/
  failed : .ok ∉ tries.dropLast
  exhausted : ret ≠ .ok → tries.length = max 1 maxTransmissions

/-- A packet in the queue of `n`: its counter is the number of its attempts, all failed. -/
structure Pending (h : List FifoEvent) (n : LinkAddr) (e : TschPacket) : Prop where
  tries : (attemptsOf e.uid h).length = e.transmissions
  failed : .ok ∉ attemptsOf e.uid h
  below : e.transmissions = 0 ∨ e.transmissions < e.maxTransmissions
  bound : e.maxTransmissions < 256
  accepted : .accepted n e.uid e.maxTransmissions ∈ h

/-- A packet that has left the queue of `n`. -/
def HasLeft (h : List FifoEvent) (n : LinkAddr) (u : Nat) (ret : MacStatus) : Prop :=
  ∃ maxTransmissions, .accepted n u maxTransmissions ∈ h ∧ Retries maxTransmissions ret (attemptsOf u h)

/-- The attempts of a packet that is still queued. -/
structure MayRetry (maxTransmissions : Nat) (tries : List MacStatus) : Prop where
  failed : .ok ∉ tries
  below : tries.length < max 1 maxTransmissions

theorem Pending.mayRetry {h : List FifoEvent} {n : LinkAddr} {e : TschPacket} (hp : Pending h n e) :
    MayRetry e.maxTransmissions (attemptsOf e.uid h) := by
  have hbelow := hp.below
  refine ⟨hp.failed, ?_⟩
  rw [hp.tries]
  omega

structure FifoInv (h : List FifoEvent) (s : TschState) : Prop where
  order : ∀ n, acceptedFor n h = leftFrom n h ++ (s.ledger.queue n).map s.ledger.uid
  /-- numbers that are not given out yet -/
  fresh : ∀ u, s.ledger.accepted ≤ u → attemptsOf u h = []
  pending : ∀ n, ∀ p ∈ s.ledger.queue n, Pending h n (s.kept.packets p)
  hasLeft : ∀ n u ret, .left n u ret ∈ h → HasLeft h n u ret
  gone : ∀ n u ret, .left n u ret ∈ h →
    u < s.ledger.accepted ∧ ∀ m, ∀ p ∈ s.ledger.queue m, s.ledger.uid p ≠ u
  known : ∀ n u a, .accepted n u a ∈ h → u < s.ledger.accepted
  once : ∀ n m u a b, .accepted n u a ∈ h → .accepted m u b ∈ h → n = m ∧ a = b

section
variable {h : List FifoEvent} {s : TschState} {n : LinkAddr}

/-- A packet in a queue was accepted for it, and has an attempt left. -/
theorem FifoInv.queued (hf : FifoInv h s) {p : Nat} (hp : p ∈ s.ledger.queue n) :
    .accepted n (s.ledger.uid p) (s.queue.packets p).maxTransmissions ∈ h ∧
      MayRetry (s.queue.packets p).maxTransmissions (attemptsOf (s.ledger.uid p) h) :=
  ⟨(hf.pending n p hp).accepted, (hf.pending n p hp).mayRetry⟩

/-- A packet without an attempt left has left its queue. -/
theorem FifoInv.leaves_of_spent (hf : FifoInv h s) {u maxTransmissions : Nat}
    (hacc : .accepted n u maxTransmissions ∈ h)
    (hspent : .ok ∈ attemptsOf u h ∨ max 1 maxTransmissions ≤ (attemptsOf u h).length) :
    ∃ ret, .left n u ret ∈ h := by
  have hmem := mem_acceptedFor.mpr ⟨_, hacc⟩
  rw [hf.order n] at hmem
  rcases List.mem_append.mp hmem with hleft | hqueued
  · exact mem_leftFrom.mp hleft
  · exfalso
    obtain ⟨p, hp, rfl⟩ := List.mem_map.mp hqueued
    obtain ⟨hacc', hmay⟩ := hf.queued hp
    obtain ⟨-, rfl⟩ := hf.once _ _ _ _ _ hacc hacc'
    exact hspent.elim hmay.failed (Nat.not_le.mpr hmay.below)

end

section
variable {h h' : List FifoEvent} {n : LinkAddr}

theorem Pending.mono {e : TschPacket} (hp : Pending h n e) (hsame : attemptsOf e.uid h' = []) :
    Pending (h ++ h') n e := by
  have hattempts : attemptsOf e.uid (h ++ h') = attemptsOf e.uid h := by
    rw [attemptsOf_append, hsame, List.append_nil]
  exact ⟨hattempts ▸ hp.tries, hattempts ▸ hp.failed, hp.below, hp.bound,
    List.mem_append_left _ hp.accepted⟩

theorem HasLeft.mono {u : Nat} {ret : MacStatus} (hl : HasLeft h n u ret)
    (hsame : attemptsOf u h' = []) : HasLeft (h ++ h') n u ret := by
  obtain ⟨max, hacc, hr⟩ := hl
  refine ⟨max, List.mem_append_left _ hacc, ?_⟩
  rw [attemptsOf_append, hsame, List.append_nil]
  exact hr

theorem Pending.retry {e : TschPacket} {st : MacStatus} (hp : Pending h n e)
    (hstays : ¬ e.LeavesAfter st) (m : LinkAddr) :
    Pending (h ++ [.attempt m e.uid st]) n (e.tried st) := by
  obtain ⟨hok, hmax⟩ := not_or.mp hstays
  have hbelow := hp.below
  have hbound := hp.bound
  have hcount : (e.tried st).transmissions = e.transmissions + 1 := by
    show (e.transmissions + 1) % 256 = _
    omega
  have hattempts : attemptsOf e.uid (h ++ [.attempt m e.uid st]) = attemptsOf e.uid h ++ [st] := by
    rw [attemptsOf_append, attemptsOf_attempt, if_pos rfl]
  refine ⟨?_, ?_, .inr ?_, hbound, List.mem_append_left _ hp.accepted⟩
  · show (attemptsOf e.uid _).length = _
    rw [hattempts, hcount, List.length_append, hp.tries]
    rfl
  · show .ok ∉ attemptsOf e.uid _
    rw [hattempts]
    intro hmem
    rcases List.mem_append.mp hmem with hmem | hmem
    · exact hp.failed hmem
    · exact hok (List.mem_singleton.mp hmem).symm
  · exact Nat.not_le.mp hmax

theorem Pending.leave {e : TschPacket} {st : MacStatus} (hp : Pending h n e)
    (hleaves : e.LeavesAfter st) :
    HasLeft (h ++ [.attempt n e.uid st] ++ [.left n e.uid st]) n e.uid st := by
  have hbelow := hp.below
  have hbound := hp.bound
  have htries := hp.tries
  refine ⟨e.maxTransmissions, by simp [hp.accepted], ?_⟩
  rw [attemptsOf_append, attemptsOf_append, attemptsOf_attempt, if_pos rfl, attemptsOf_left,
    List.append_nil]
  have hlength : (attemptsOf e.uid h ++ [st]).length = e.transmissions + 1 := by
    rw [List.length_append, htries]
    rfl
  refine ⟨?_, ?_, List.getLast?_concat, ?_, fun hst => ?_⟩
  · rw [hlength]
    exact Nat.le_add_left _ _
  · rw [hlength]
    omega
  · rw [List.dropLast_concat]
    exact hp.failed
  · have hmax : e.maxTransmissions ≤ (e.transmissions + 1) % 256 := hleaves.resolve_left hst
    rw [hlength]
    omega

end

/-! ## One step -/

section
variable {h : List FifoEvent} {s s' : TschState}

theorem FifoInv.same (hf : FifoInv h s) (hqueue : s'.ledger.queue = s.ledger.queue)
    (hpackets : ∀ n, ∀ p ∈ s.ledger.queue n, s'.kept.packets p = s.kept.packets p)
    (hacc : s'.ledger.accepted = s.ledger.accepted) : FifoInv h s' := by
  have huid : ∀ n, ∀ p ∈ s.ledger.queue n, s'.ledger.uid p = s.ledger.uid p := fun n p hp =>
    uid_of_kept (hpackets n p hp)
  refine ⟨fun n => ?_, fun u hu => hf.fresh u (hacc ▸ hu), fun n p hp => ?_, hf.hasLeft,
    fun n u ret hl => ⟨hacc ▸ (hf.gone n u ret hl).1, fun m p hp => ?_⟩,
    fun n u a ha => hacc ▸ hf.known n u a ha, hf.once⟩
  · rw [hf.order n, hqueue, List.map_congr_left (huid n)]
  · rw [hqueue] at hp
    rw [hpackets n p hp]
    exact hf.pending n p hp
  · rw [hqueue] at hp
    rw [huid m p hp]
    exact (hf.gone n u ret hl).2 m p hp

/-- **An action of the process.** -/
theorem FifoInv.act (hbal : s.ledger.Balanced) (hf : FifoInv h s)
    (ha : PacketAct (· < 256) s s') : FifoInv (h ++ queueEvents s s') s' := by
  cases ha with
  | keep hqueue hpackets hacc =>
      rw [queueEvents_same hqueue, List.append_nil]
      exact hf.same hqueue hpackets hacc
  | accept n p hqueue hkey hfresh hpackets huid htrans hmax hacc =>
      rw [queueEvents_accept hbal hkey hqueue]
      have hnew : s'.ledger.uid p = s.ledger.accepted := huid
      have hlt : ∀ m, ∀ q ∈ s.ledger.queue m, s.ledger.uid q < s.ledger.accepted := fun m q hq =>
        hbal.uid_lt (hbal.mem_live hq)
      have hold : ∀ m, ∀ q ∈ s.ledger.queue m, s'.ledger.uid q = s.ledger.uid q := fun m q hq =>
        uid_of_kept (hpackets m q hq)
      have hmem : ∀ m q, q ∈ s'.ledger.queue m → q ∈ s.ledger.queue m ∨ m = n ∧ q = p := by
        intro m q hq
        rw [hqueue] at hq
        by_cases hm : m = n
        · subst hm
          rw [Function.update_self] at hq
          exact (List.mem_append.mp hq).imp_right fun hq => ⟨rfl, List.mem_singleton.mp hq⟩
        · rw [Function.update_of_ne hm] at hq
          exact .inl hq
      have haccepted : ∀ m u a, .accepted m u a ∈
          h ++ [.accepted n (s'.ledger.uid p) (s'.queue.packets p).maxTransmissions] →
          .accepted m u a ∈ h ∨ m = n ∧ u = s.ledger.accepted ∧
            a = (s'.queue.packets p).maxTransmissions := by
        intro m u a ha
        rw [hnew] at ha
        simpa using ha
      refine ⟨fun m => ?_, fun u hu => ?_, fun m q hq => ?_, fun m u ret hl => ?_, fun m u ret hl => ?_,
        fun m u a ha => ?_, fun m k u a b ha hb => ?_⟩
      · rw [acceptedFor_append, leftFrom_append, leftFrom_accepted, List.append_nil, hf.order m,
          acceptedFor_accepted, hqueue]
        by_cases hm : m = n
        · subst hm
          rw [if_pos rfl, Function.update_self, List.map_append, List.map_congr_left (hold m),
            List.append_assoc]
          rfl
        · rw [if_neg (Ne.symm hm), Function.update_of_ne hm, List.append_nil,
            List.map_congr_left (hold m)]
      · rw [attemptsOf_append, attemptsOf_accepted, List.append_nil]
        exact hf.fresh u (by omega)
      · rcases hmem m q hq with hq | ⟨rfl, rfl⟩
        · rw [hpackets m q hq]
          exact (hf.pending m q hq).mono (attemptsOf_accepted _ _ _ _)
        · -- a new packet has not been tried
          have hnone : attemptsOf (s'.kept.packets q).uid
              (h ++ [.accepted m (s'.ledger.uid q) (s'.queue.packets q).maxTransmissions]) = [] := by
            rw [attemptsOf_append, attemptsOf_accepted, List.append_nil]
            exact hf.fresh _ (by rw [huid])
          exact ⟨by rw [hnone, htrans]; rfl, by rw [hnone]; exact List.not_mem_nil, .inl htrans, hmax,
            List.mem_append_right _ (List.mem_singleton.mpr rfl)⟩
      · have hl : .left m u ret ∈ h := by simpa using hl
        exact (hf.hasLeft m u ret hl).mono (attemptsOf_accepted _ _ _ _)
      · have hl : .left m u ret ∈ h := by simpa using hl
        obtain ⟨hu, hgone⟩ := hf.gone m u ret hl
        refine ⟨by omega, ?_⟩
        intro k q hq
        rcases hmem k q hq with hq | ⟨rfl, rfl⟩
        · rw [hold k q hq]
          exact hgone k q hq
        · rw [hnew]
          omega
      · rcases haccepted m u a ha with ha | ⟨-, rfl, -⟩
        · have hu := hf.known m u a ha
          omega
        · omega
      · rcases haccepted m u a ha with ha | ⟨rfl, rfl, rfl⟩
        · rcases haccepted k u b hb with hb | ⟨-, rfl, -⟩
          · exact hf.once m k u a b ha hb
          · exact absurd (hf.known m _ a ha) (Nat.lt_irrefl _)
        · rcases haccepted k _ b hb with hb | ⟨rfl, -, rfl⟩
          · exact absurd (hf.known k _ b hb) (Nat.lt_irrefl _)
          · exact ⟨rfl, rfl⟩

section
variable {n : LinkAddr} {p : Nat} {st : MacStatus} {rest : List Nat}

/-- A packet that was tried is the only one with its number. -/
theorem uid_ne_of_tried (hbal : s.ledger.Balanced) (hq : s.ledger.queue n = p :: rest) {m : LinkAddr}
    {q : Nat} (hm : q ∈ s.ledger.queue m) (hqp : q ≠ p) :
    (s.kept.packets p).uid ≠ (s.kept.packets q).uid := by
  intro hu
  have hp : p ∈ s.ledger.queue n := by
    rw [hq]
    exact List.mem_cons_self
  exact hqp (hbal.uid_inj (hbal.mem_live hp) (hbal.mem_live hm) hu).symm

theorem FifoInv.stays (hbal : s.ledger.Balanced) (hf : FifoInv h s)
    (hq : s.ledger.queue n = p :: rest)
    (hpackets : s'.kept.packets = Function.update s.kept.packets p ((s.kept.packets p).tried st))
    (hstays : ¬ (s.kept.packets p).LeavesAfter st) (hledger : s'.ledger = s.ledger) :
    FifoInv (h ++ [.attempt n (s.kept.packets p).uid st]) s' := by
  have hp : p ∈ s.ledger.queue n := by
    rw [hq]
    exact List.mem_cons_self
  have hlt : (s.kept.packets p).uid < s.ledger.accepted := hbal.uid_lt (hbal.mem_live hp)
  have haccepted : ∀ m u a, .accepted m u a ∈ h ++ [.attempt n (s.kept.packets p).uid st] →
      .accepted m u a ∈ h := fun m u a ha => by simpa using ha
  refine ⟨fun m => ?_, fun u hu => ?_, fun m q hm => ?_, fun m u ret hl => ?_, fun m u ret hl => ?_,
    fun m u a ha => hledger ▸ hf.known m u a (haccepted m u a ha),
    fun m k u a b ha hb => hf.once m k u a b (haccepted m u a ha) (haccepted k u b hb)⟩
  · rw [acceptedFor_append, leftFrom_append, acceptedFor_attempt, leftFrom_attempt, List.append_nil,
      List.append_nil, hledger]
    exact hf.order m
  · rw [hledger] at hu
    rw [attemptsOf_append, attemptsOf_attempt, if_neg (by omega), List.append_nil]
    exact hf.fresh u hu
  · rw [hledger] at hm
    rw [hpackets]
    by_cases hqp : q = p
    · subst hqp
      rw [Function.update_self]
      exact (hf.pending m q hm).retry hstays n
    · rw [Function.update_of_ne hqp]
      refine (hf.pending m q hm).mono ?_
      rw [attemptsOf_attempt, if_neg (uid_ne_of_tried hbal hq hm hqp)]
  · have hl : .left m u ret ∈ h := by simpa using hl
    have hne : (s.kept.packets p).uid ≠ u := (hf.gone m u ret hl).2 n p hp
    refine (hf.hasLeft m u ret hl).mono ?_
    rw [attemptsOf_attempt, if_neg hne]
  · have hl : .left m u ret ∈ h := by simpa using hl
    rw [hledger]
    exact hf.gone m u ret hl

theorem FifoInv.leaves (hbal : s.ledger.Balanced) (hbal' : s'.ledger.Balanced) (hf : FifoInv h s)
    (hq : s.ledger.queue n = p :: rest)
    (hpackets : s'.kept.packets = Function.update s.kept.packets p ((s.kept.packets p).tried st))
    (hleaves : (s.kept.packets p).LeavesAfter st) (hledger : s'.ledger = s.ledger.serve n p rest) :
    FifoInv (h ++ [.attempt n (s.kept.packets p).uid st] ++ [.left n (s.kept.packets p).uid st])
      s' := by
  have hp : p ∈ s.ledger.queue n := by
    rw [hq]
    exact List.mem_cons_self
  have hlt : (s.kept.packets p).uid < s.ledger.accepted := hbal.uid_lt (hbal.mem_live hp)
  have huid : s'.ledger.uid = s.ledger.uid := by rw [hledger]; rfl
  have hacc : s'.ledger.accepted = s.ledger.accepted := by rw [hledger]; rfl
  -- what is queued now was queued before, and is not `p`
  have hmem : ∀ m, ∀ q ∈ s'.ledger.queue m, q ∈ s.ledger.queue m ∧ q ≠ p := by
    intro m q hm
    refine ⟨?_, ?_⟩
    · rw [hledger] at hm
      by_cases hmn : m = n
      · subst hmn
        have hm : q ∈ Function.update s.ledger.queue m rest m := hm
        rw [Function.update_self] at hm
        rw [hq]
        exact List.mem_cons_of_mem p hm
      · have hm : q ∈ Function.update s.ledger.queue n rest m := hm
        rwa [Function.update_of_ne hmn] at hm
    · rintro rfl
      have hkey : m ∈ s'.ledger.keys := by
        by_contra hno
        rw [hbal'.outside m hno] at hm
        cases hm
      have hout : q ∈ s'.ledger.outbox := by
        rw [hledger]
        exact List.mem_append_right _ (List.mem_singleton.mpr rfl)
      exact (List.nodup_append.mp hbal'.live).2.2 q (List.mem_flatMap.mpr ⟨m, hkey, hm⟩) q hout rfl
  have hattempts : ∀ u, u ≠ (s.kept.packets p).uid → attemptsOf u
      ([.attempt n (s.kept.packets p).uid st] ++ [.left n (s.kept.packets p).uid st]) = [] := by
    intro u hu
    rw [attemptsOf_append, attemptsOf_attempt, attemptsOf_left, if_neg hu.symm, List.append_nil]
  rw [List.append_assoc]
  have haccepted : ∀ m u a, .accepted m u a ∈ h ++ ([.attempt n (s.kept.packets p).uid st] ++
      [.left n (s.kept.packets p).uid st]) → .accepted m u a ∈ h := fun m u a ha => by simpa using ha
  refine ⟨fun m => ?_, fun u hu => ?_, fun m q hm => ?_, fun m u ret hl => ?_, fun m u ret hl => ?_,
    fun m u a ha => hacc ▸ hf.known m u a (haccepted m u a ha),
    fun m k u a b ha hb => hf.once m k u a b (haccepted m u a ha) (haccepted k u b hb)⟩
  · rw [acceptedFor_append, leftFrom_append, acceptedFor_append, leftFrom_append, acceptedFor_attempt,
      acceptedFor_left, leftFrom_attempt, leftFrom_left, List.append_nil, List.append_nil,
      List.nil_append, hf.order m, huid, hledger]
    by_cases hm : m = n
    · subst hm
      have hserved : (s.ledger.serve m p rest).queue m = rest := Function.update_self ..
      rw [if_pos rfl, hserved, hq, List.map_cons, List.append_assoc]
      rfl
    · have hserved : (s.ledger.serve n p rest).queue m = s.ledger.queue m := Function.update_of_ne hm ..
      rw [if_neg (Ne.symm hm), hserved, List.append_nil]
  · rw [hacc] at hu
    rw [attemptsOf_append, hattempts u (by omega), List.append_nil]
    exact hf.fresh u hu
  · obtain ⟨hold, hqp⟩ := hmem m q hm
    rw [hpackets, Function.update_of_ne hqp]
    exact (hf.pending m q hold).mono (hattempts _ (uid_ne_of_tried hbal hq hold hqp).symm)
  · rcases List.mem_append.mp hl with hl | hl
    · exact (hf.hasLeft m u ret hl).mono (hattempts u ((hf.gone m u ret hl).2 n p hp).symm)
    · have hl : m = n ∧ u = (s.kept.packets p).uid ∧ ret = st := by simpa using hl
      obtain ⟨rfl, rfl, rfl⟩ := hl
      rw [← List.append_assoc]
      exact (hf.pending m p hp).leave hleaves
  · rw [hacc, huid]
    rcases List.mem_append.mp hl with hl | hl
    · refine ⟨(hf.gone m u ret hl).1, ?_⟩
      intro k q hk
      exact (hf.gone m u ret hl).2 k q (hmem k q hk).1
    · have hl : m = n ∧ u = (s.kept.packets p).uid ∧ ret = st := by simpa using hl
      obtain ⟨rfl, rfl, rfl⟩ := hl
      refine ⟨hlt, ?_⟩
      intro k q hk
      exact (uid_ne_of_tried hbal hq (hmem k q hk).1 (hmem k q hk).2).symm

end

/-- **An interrupt.** -/
theorem FifoInv.slot {i : SlotInput} (hi : PacketsHeld s) (hi' : PacketsHeld s') (hf : FifoInv h s)
    (hs : slotStep cfg i s = some s') :
    FifoInv (h ++ (attemptEvents cfg i s ++ queueEvents s s')) s' := by
  have heffect := hi.slotEffect hs
  have hquiet : s'.kept.packets = s.kept.packets ∧ s'.ledger = s.ledger →
      FifoInv (h ++ ([] ++ queueEvents s s')) s' := by
    rintro ⟨hpackets, hledger⟩
    rw [queueEvents_same (congrArg Ledger.queue hledger), List.append_nil, List.append_nil]
    exact hf.same (congrArg Ledger.queue hledger) (fun n p _ => congrFun hpackets p)
      (congrArg Ledger.accepted hledger)
  simp only [attemptEvents]
  cases he : slotEvent cfg i s with
  | quiet =>
      rw [he] at heffect
      exact hquiet heffect
  | reception l f =>
      rw [he] at heffect
      exact hquiet heffect
  | attempt n p l st =>
      rw [he] at heffect
      obtain ⟨rest, hq, hpackets, hledger⟩ := heffect
      by_cases hleaves : (s.kept.packets p).LeavesAfter st
      · rw [if_pos hleaves] at hledger
        have hret : (s'.queue.packets p).ret = st := by
          have hp := congrFun hpackets p
          rw [Function.update_self] at hp
          exact congrArg TschPacket.ret hp
        have hqueue : s'.ledger.queue = Function.update s.ledger.queue n rest := by rw [hledger]; rfl
        rw [queueEvents_serve hi.balanced hq hqueue, hret, ← List.append_assoc]
        exact hf.leaves hi.balanced hi'.balanced hq hpackets hleaves hledger
      · rw [if_neg hleaves] at hledger
        rw [queueEvents_same (congrArg Ledger.queue hledger), List.append_nil]
        exact hf.stays hi.balanced hq hpackets hleaves hledger

end

/-! ## The process -/

/-- Schedule, link pointers, counters and clocks may be anything; what is about packets is
as before. -/
structure Relinked (s s' : TschState) : Prop where
  lock : s'.lock = s.lock
  ledger : s'.ledger = s.ledger
  packets : s'.queue.packets = s.queue.packets
  pc : s'.slot.pc = s.slot.pc
  inSlot : s'.slot.tschInSlotOperation = s.slot.tschInSlotOperation
  currentPacket : s'.slot.currentPacket = s.slot.currentPacket
  currentNeighbor : s'.slot.currentNeighbor = s.slot.currentNeighbor

theorem PacketsHeld.relinked {s s' : TschState} (h : PacketsHeld s) (hr : Relinked s s') :
    PacketsHeld s' := by
  refine ⟨⟨?_, ?_⟩, fun htx => ?_, hr.ledger ▸ h.balanced⟩
  · rw [hr.inSlot, hr.pc]
    exact h.flags.inSlot
  · rw [hr.pc, hr.lock]
    exact h.flags.tx
  · rw [hr.pc] at htx
    obtain ⟨n, p, hn, hp, hhead⟩ := h.head htx
    have hring : (s'.queue.neighbors n).txRingbuf = (s.queue.neighbors n).txRingbuf :=
      congrArg (fun L : Ledger LinkAddr Nat => L.queue n) hr.ledger
    exact ⟨n, p, hr.currentNeighbor.trans hn, hr.currentPacket.trans hp, hring ▸ hhead⟩

/-- A packet is queued, an entry of the dequeued ring is served, or the node goes on with
any other links. -/
inductive FifoCall where
  | addPacket (addr : LinkAddr) (maxTransmissions : UInt8) (sent ptr : Nat) (queuebufOk : Bool)
  | takeDequeued
  | relink (f : TschState → TschState) (hf : ∀ s, Relinked s (f s))

def FifoCall.perform (cfg : Config) : FifoCall → Prog TschState Unit
  | .addPacket addr maxTransmissions sent ptr queuebufOk => do
      let _ ← tschQueueAddPacket cfg addr maxTransmissions.toNat sent ptr queuebufOk
      pure ()
  | .takeDequeued => QlTsch.takeDequeued
  | .relink f _ => Prog.modify f

theorem wpg_fifoCall (c : FifoCall) {s : TschState} (hi : PacketsHeld s) (hb : Between s) :
    Wpg (queueCtx cfg) (PacketAct (· < 256)) (c.perform cfg) (fun _ t => Between t) s := by
  cases c with
  | addPacket addr max sent ptr ok =>
      have hadd : Wpg (queueCtx cfg) (PacketAct (· < 256))
          (tschQueueAddPacket cfg addr max.toNat sent ptr ok) (fun _ t => Between t) s := by
        refine wpg_tschQueueAddPacket addr ?_ sent ptr ok hi hb
        exact max.toNat_lt
      exact Wpg.call hadd hi fun _ _ _ hb => hb
  | takeDequeued => exact wpg_takeDequeued hi hb
  | relink f hf =>
      refine Wpg.modify hi ?_
      intro t ht hit
      have hbt := hb.rely hi ht
      have hr := hf t
      have hpackets : ∀ n, ∀ p ∈ t.ledger.queue n, (f t).kept.packets p = t.kept.packets p := by
        intro n p _
        show ({ (f t).queue.packets p with framePending := false } : TschPacket) = _
        rw [hr.packets]
        rfl
      refine ⟨PacketsHeld.relinked hit hr, .keep (congrArg Ledger.queue hr.ledger) hpackets
        (congrArg Ledger.accepted hr.ledger), hr.lock.trans hbt.free, hr.ledger ▸ hbt.settled⟩

theorem FifoInv.start {s : TschState} (hempty : ∀ n, s.ledger.queue n = []) : FifoInv [] s := by
  refine ⟨fun n => ?_, fun _ _ => rfl, fun n p hp => ?_, fun _ _ _ hl => ?_, fun _ _ _ hl => ?_,
    fun _ _ _ ha => ?_, fun _ _ _ _ _ ha => ?_⟩
  · rw [hempty n]
    rfl
  · rw [hempty n] at hp
    cases hp
  · cases hl
  · cases hl
  · cases ha
  · cases ha

/-- The record is right for every process whose actions are actions of the record. -/
theorem fifoInv_of_wpg {p : Prog TschState Unit} {Q : Unit → TschState → Prop} {s : TschState}
    (hi : PacketsHeld s) (hw : Wpg (queueCtx cfg) (PacketAct (· < 256)) p Q s)
    (hempty : ∀ n, s.ledger.queue n = []) {es : List FifoEvent} {c : Prog TschState Unit × TschState}
    (hr : History (FifoStep cfg) queueEvents (p, s) es c) : PacketsHeld c.2 ∧ FifoInv es c.2 := by
  refine History.of_wpg (C := queueCtx cfg) ?_ (fun _ _ => trivial) hi hw (FifoInv.start hempty) ?_ ?_ hr
  · rintro _ s s' ⟨hs⟩
    exact ⟨_, hs⟩
  · intro es s s' hi _ hf ha
    exact hf.act (PacketsHeld.balanced hi) ha
  · rintro es _ s s' hi hi' hf ⟨hs⟩
    exact hf.slot hi hi' hs

theorem fifoInv_history (calls : List FifoCall) {s : TschState} (h : Quiescent s)
    (hempty : ∀ n, s.ledger.queue n = []) {es : List FifoEvent} {c : Prog TschState Unit × TschState}
    (hr : History (FifoStep cfg) queueEvents (Prog.forEach calls (FifoCall.perform cfg), s) es c) :
    PacketsHeld c.2 ∧ FifoInv es c.2 :=
  fifoInv_of_wpg h.held (Wpg.forEach (fun c _ hi hb => wpg_fifoCall c hi hb) calls h.held h.toBetween)
    hempty hr

/-! ## A full dequeued ring -/

theorem startEvent_full {i : SlotInput} {s : TschState}
    (hfull : cfg.dequeuedRingbufCapacity ≤ s.slot.dequeuedRingbuf.length) :
    startEvent cfg i s = .quiet := by
  simp only [startEvent]
  split
  · exact if_neg (Nat.not_lt.mpr hfull)
  · rfl

/-- A slot that starts with a full dequeued ring leaves packets and queues alone, and is
not a transmit slot. -/
theorem slotStep_full {i : SlotInput} {s s' : TschState} (hpc : s.slot.pc = .asleep)
    (hfull : cfg.dequeuedRingbufCapacity ≤ s.slot.dequeuedRingbuf.length)
    (hs : slotStep cfg i s = some s') : s'.slot.pc.inTx = false ∧ s'.rest = s.rest := by
  have hend : ∀ {w : TschState}, w.rest = s.rest → endOfSlot cfg i w = some s' →
      s'.slot.pc.inTx = false ∧ s'.rest = s.rest := by
    intro w hw he
    have hpc' := endOfSlot_asleep he
    exact ⟨by rw [hpc']; rfl, (endOfSlot_rest he).trans hw⟩
  by_cases hstart : SlotStarts s
  · obtain ⟨l, hl⟩ := Option.isSome_iff_exists.mp hstart.link
    simp only [slotStep, hpc] at hs
    split at hs
    · simp only [wakeUp, hstart.associated, hl, hstart.notRequested, Bool.false_eq_true, if_false,
        if_true, beginSlot, runSlot] at hs
      have hchosen : (chooseLink cfg l s.disarm.enterSlot).rest = s.rest := chooseLink_rest _ _
      have hchannel : ∀ l', (setChannel cfg l' (chooseLink cfg l s.disarm.enterSlot)).rest = s.rest := by
        intro l'
        obtain ⟨b, o, c, hc⟩ := setChannel_spec cfg l' (chooseLink cfg l s.disarm.enterSlot)
        rw [hc]
        exact hchosen
      split at hs
      · cases hs
      · rename_i l' _
        split at hs
        · have hring : (setChannel cfg l' (chooseLink cfg l s.disarm.enterSlot)).slot.dequeuedRingbuf =
              s.slot.dequeuedRingbuf := congrArg Rest.dequeuedRingbuf (hchannel l')
          simp only [txSlotBegin, hring, if_neg (Nat.not_lt.mpr hfull)] at hs
          exact hend (hchannel l') hs
        · split at hs
          · simp only [rxSlotBegin] at hs
            split at hs
            · cases hs
              exact ⟨rfl, hchannel l'⟩
            · exact hend (hchannel l') hs
          · exact hend (w := (chooseLink cfg l s.disarm.enterSlot).setBurstLinkScheduled false)
              hchosen hs
    · cases hs
  · rcases slotStep_skipped hpc hstart hs with rfl | he
    · have hpc' : s.disarm.slot.pc = .asleep := hpc
      exact ⟨by rw [hpc']; rfl, rfl⟩
    · exact hend (w := s.disarm) rfl he

/-! ## Order and retries -/

/-- **Per-neighbor FIFO with bounded retries**, in every run of new packets, slots on any
links and service of the dequeued ring:

* what has been accepted for a neighbor is what has left its queue and then what is still
  in it, in this order;
* a packet that has left was accepted once, and has been tried within its bounds;
* one that is still queued has been tried without success, and fewer times than it may be: so
  a success makes it leave, and so does its last attempt;
* a slot that starts with a full dequeued ring is no transmit slot, and leaves packets
  and queues as they are. -/
theorem fifo_bounded_retries (calls : List FifoCall) {s : TschState} (h : Quiescent s)
    (hempty : ∀ n, s.ledger.queue n = []) {es : List FifoEvent} {c : Prog TschState Unit × TschState}
    (hr : History (FifoStep cfg) queueEvents (Prog.forEach calls (FifoCall.perform cfg), s) es c) :
    (∀ n, acceptedFor n es = leftFrom n es ++ (c.2.ledger.queue n).map c.2.ledger.uid) ∧
    (∀ n u ret, .left n u ret ∈ es → ∃ maxTransmissions, .accepted n u maxTransmissions ∈ es ∧
      Retries maxTransmissions ret (attemptsOf u es)) ∧
    (∀ n, ∀ p ∈ c.2.ledger.queue n,
      .accepted n (c.2.ledger.uid p) (c.2.queue.packets p).maxTransmissions ∈ es ∧
      MayRetry (c.2.queue.packets p).maxTransmissions (attemptsOf (c.2.ledger.uid p) es)) ∧
    (∀ n u maxTransmissions, .accepted n u maxTransmissions ∈ es →
      .ok ∈ attemptsOf u es ∨ max 1 maxTransmissions ≤ (attemptsOf u es).length →
      ∃ ret, .left n u ret ∈ es) ∧
    (∀ n m u a b, .accepted n u a ∈ es → .accepted m u b ∈ es → n = m ∧ a = b) ∧
    ∀ i s', slotStep cfg i c.2 = some s' → c.2.slot.pc = .asleep →
      cfg.dequeuedRingbufCapacity ≤ c.2.slot.dequeuedRingbuf.length →
      s'.slot.pc.inTx = false ∧ attemptEvents cfg i c.2 = [] ∧ queueEvents c.2 s' = [] ∧
        s'.queue.packets = c.2.queue.packets ∧ s'.ledger.queue = c.2.ledger.queue := by
  obtain ⟨-, hf⟩ := fifoInv_history calls h hempty hr
  refine ⟨hf.order, hf.hasLeft, fun _ _ => hf.queued, fun _ _ _ => hf.leaves_of_spent, hf.once, ?_⟩
  intro i s' hs hpc hfull
  obtain ⟨htx, hrest⟩ := slotStep_full hpc hfull hs
  have hqueue : s'.ledger.queue = c.2.ledger.queue := congrArg Rest.txRingbuf hrest
  refine ⟨htx, ?_, queueEvents_same hqueue, congrArg Rest.packets hrest, hqueue⟩
  have hring : (takeUp cfg c.2).slot.dequeuedRingbuf = c.2.slot.dequeuedRingbuf :=
    congrArg Rest.dequeuedRingbuf (takeUp_rest cfg c.2)
  have hquiet : slotEvent cfg i c.2 = .quiet := by
    simp only [slotEvent, hpc]
    split
    · exact startEvent_full (hring ▸ hfull)
    · rfl
  simp only [attemptEvents, hquiet]

def fifoMove (cfg : Config) (i : SlotInput) (s : TschState) : Option (List FifoEvent × TschState) :=
  (slotStep cfg i s).map fun s' => (attemptEvents cfg i s ++ queueEvents s s', s')

theorem fifoMove_step (i : SlotInput) (s : TschState) (es : List FifoEvent) (s' : TschState)
    (h : fifoMove cfg i s = some (es, s')) : FifoStep cfg es s s' := by
  obtain ⟨hs, rfl⟩ := eq_of_map_events h
  exact .slot hs

/-- A broadcast packet is sent at the second of two attempts. -/
theorem fifo_bounded_retries_second :
    ∃ es c, History (FifoStep (smallBuild 8)) queueEvents
        (Prog.forEach [.addPacket 255 2 0 0 true] (FifoCall.perform (smallBuild 8)), oneTxLink) es c ∧
      attemptsOf 0 es = [.err, .ok] ∧
      ∃ maxTransmissions, .accepted 255 0 maxTransmissions ∈ es ∧
        Retries maxTransmissions .ok (attemptsOf 0 es) := by
  obtain ⟨es, c, hr, hc⟩ := History.exists_historyOf (fifoMove (smallBuild 8)) queueEvents
    (Prog.forEach [.addPacket 255 2 0 0 true] (FifoCall.perform (smallBuild 8)), oneTxLink) fifoMove_step
    (List.replicate 6 none ++ [some (.quiet 0), some (.quiet 328),
      some { SlotInput.quiet 328 with transmitOk := false }, some (.quiet 656), some (.quiet 656)])
    (fun r => decide (.left 255 0 .ok ∈ r.1 ∧ attemptsOf 0 r.1 = [.err, .ok])) (by decide +kernel)
  obtain ⟨hleft, htries⟩ := of_decide_eq_true hc
  have hempty : ∀ n, oneTxLink.ledger.queue n = [] := by
    intro n
    have hledger : oneTxLink.ledger = ⟨[254, 255], fun _ => [], [], ∅, fun _ => 0, 0, [], [], []⟩ :=
      ledger_neighbor rfl
    rw [hledger]
  refine ⟨es, c, hr, htries, ?_⟩
  exact (fifo_bounded_retries _ quiescent_oneTxLink hempty hr).2.1 255 0 .ok hleft

end QlTsch
