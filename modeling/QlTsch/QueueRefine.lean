/-
# `QlTsch.QueueRefine` — the queue of a neighbor is a retry queue

What becomes of the queue of a neighbor is settled by what is accepted for it and by how the
attempts to send to it end: whatever the schedule, the other queues, the scheduler and the
interrupts do, it is a run of the machine of `QlTsch.Lib.RetryQueue` (`queue_refines`).  The
counters of the packets in the queue are the retries they have left.

So a packet waits for attempts to its own neighbor only, and for no more than those ahead of
it and it itself may take (`bounded_waiting`).
-/
import QlTsch.Lib.RetryQueue
import QlTsch.PacketCalls

namespace QlTsch

open Interleave Interleave.Prog RetryQueue

variable {cfg : Config}

/-! ## Reading the record as a run of the machine -/

def MacStatus.isOk (st : MacStatus) : Bool := decide (st = .ok)

def FifoEvent.retryOp (n : LinkAddr) : FifoEvent → Option (Op Nat MacStatus)
  | .accepted m u maxTransmissions => if m = n then some (.accept u (maxTransmissions - 1)) else none
  | .attempt m u st => if m = n then some (.attempt u st) else none
  | .left _ _ _ => none

def FifoEvent.departure (n : LinkAddr) : FifoEvent → Option (Nat × MacStatus)
  | .left m u st => if m = n then some (u, st) else none
  | .accepted _ _ _ | .attempt _ _ _ => none

/-- What happens to the queue of `n` from outside: new packets, and how attempts end. -/
def retryOps (n : LinkAddr) (es : List FifoEvent) : List (Op Nat MacStatus) :=
  es.filterMap (FifoEvent.retryOp n)

/-- What leaves it. -/
def departures (n : LinkAddr) (es : List FifoEvent) : List (Nat × MacStatus) :=
  es.filterMap (FifoEvent.departure n)

def TschPacket.job (e : TschPacket) : Job Nat := ⟨e.uid, e.maxTransmissions - e.transmissions - 1⟩

/-- The jobs of the queue of `n`. -/
def jobs (n : LinkAddr) (s : TschState) : List (Job Nat) :=
  (s.ledger.queue n).map fun p => (s.kept.packets p).job

/-- The queue of `n` after the record `es`, and what has left it. -/
def retryState (n : LinkAddr) (es : List FifoEvent) (s : TschState) : State Nat MacStatus :=
  ⟨jobs n s, departures n es⟩

section
variable (n m : LinkAddr) (es es' : List FifoEvent)

@[simp] theorem retryOps_append : retryOps n (es ++ es') = retryOps n es ++ retryOps n es' :=
  List.filterMap_append

@[simp] theorem departures_append :
    departures n (es ++ es') = departures n es ++ departures n es' := List.filterMap_append

theorem retryOps_accepted (u max : Nat) : retryOps n [.accepted m u max] =
    if m = n then [.accept u (max - 1)] else [] := by
  by_cases hm : m = n <;> simp [retryOps, FifoEvent.retryOp, hm]

theorem retryOps_attempt (u : Nat) (st : MacStatus) : retryOps n [.attempt m u st] =
    if m = n then [.attempt u st] else [] := by
  by_cases hm : m = n <;> simp [retryOps, FifoEvent.retryOp, hm]

theorem departures_left (u : Nat) (ret : MacStatus) : departures n [.left m u ret] =
    if m = n then [(u, ret)] else [] := by
  by_cases hm : m = n <;> simp [departures, FifoEvent.departure, hm]

@[simp] theorem retryOps_left (u : Nat) (ret : MacStatus) : retryOps n [.left m u ret] = [] := rfl
@[simp] theorem departures_accepted (u max : Nat) : departures n [.accepted m u max] = [] := rfl
@[simp] theorem departures_attempt (u : Nat) (st : MacStatus) : departures n [.attempt m u st] = [] :=
  rfl

end

/-! ## One packet -/

theorem tried_job {e : TschPacket} (st : MacStatus)
    (hbelow : e.transmissions = 0 ∨ e.transmissions < e.maxTransmissions)
    (hbound : e.maxTransmissions < 256) :
    e.job.tried st.isOk = if e.LeavesAfter st then none else some (e.tried st).job := by
  have hcount : (e.transmissions + 1) % 256 = e.transmissions + 1 := Nat.mod_eq_of_lt (by omega)
  by_cases hok : st = .ok
  · rw [if_pos (.inl hok), MacStatus.isOk, decide_eq_true hok, Job.tried_true]
  · rw [MacStatus.isOk, decide_eq_false hok]
    by_cases hlast : e.maxTransmissions ≤ e.transmissions + 1
    · have hnone : e.job.retries = 0 := by
        show e.maxTransmissions - e.transmissions - 1 = 0
        omega
      rw [if_pos (.inr (by rw [hcount]; exact hlast)), Job.tried_zero hnone]
    · have hleaves : ¬ e.LeavesAfter st := by
        rintro (h | h)
        · exact hok h
        · rw [hcount] at h
          exact hlast h
      have hsome : e.job.retries = e.maxTransmissions - (e.transmissions + 1) - 1 + 1 := by
        show e.maxTransmissions - e.transmissions - 1 = _
        omega
      rw [if_neg hleaves, Job.tried_succ hsome]
      show _ = some (⟨e.uid, e.maxTransmissions - (e.transmissions + 1) % 256 - 1⟩ : Job Nat)
      rw [hcount]
      rfl

/-! ## One step -/

/-- Every queue is where its record brings the machine. -/
def QueueRuns (es : List FifoEvent) (s : TschState) : Prop :=
  ∀ n, run MacStatus.isOk ⟨[], []⟩ (retryOps n es) = some (retryState n es s)

section
variable {es : List FifoEvent} {s s' : TschState}

theorem jobs_congr {n : LinkAddr} (hqueue : s'.ledger.queue n = s.ledger.queue n)
    (hpackets : ∀ p ∈ s.ledger.queue n, s'.kept.packets p = s.kept.packets p) :
    jobs n s' = jobs n s := by
  rw [jobs, hqueue]
  refine List.map_congr_left fun p hp => ?_
  rw [hpackets p hp]

theorem QueueRuns.same (h : QueueRuns es s) (hqueue : s'.ledger.queue = s.ledger.queue)
    (hpackets : ∀ n, ∀ p ∈ s.ledger.queue n, s'.kept.packets p = s.kept.packets p) :
    QueueRuns es s' := by
  intro n
  rw [h n, retryState, retryState, jobs_congr (congrFun hqueue n) (hpackets n)]

theorem QueueRuns.other {fs : List FifoEvent} (h : QueueRuns es s) {n : LinkAddr}
    (hops : retryOps n fs = []) (hleft : departures n fs = []) (hjobs : jobs n s' = jobs n s) :
    run MacStatus.isOk ⟨[], []⟩ (retryOps n (es ++ fs)) = some (retryState n (es ++ fs) s') := by
  rw [retryOps_append, hops, List.append_nil, h n, retryState, retryState, departures_append, hleft,
    List.append_nil, hjobs]

theorem QueueRuns.next {fs : List FifoEvent} (h : QueueRuns es s) {n : LinkAddr}
    (hnext : run MacStatus.isOk (retryState n es s) (retryOps n fs) =
      some ⟨jobs n s', departures n es ++ departures n fs⟩) :
    run MacStatus.isOk ⟨[], []⟩ (retryOps n (es ++ fs)) = some (retryState n (es ++ fs) s') := by
  rw [retryOps_append, run_append, h n, Option.bind_some, hnext, retryState, departures_append]

/-- **An action of the process.** -/
theorem QueueRuns.act (h : QueueRuns es s) (hbal : s.ledger.Balanced)
    (ha : PacketAct (· < 256) s s') : QueueRuns (es ++ queueEvents s s') s' := by
  cases ha with
  | keep hqueue hpackets _ =>
      rw [queueEvents_same hqueue, List.append_nil]
      exact h.same hqueue hpackets
  | accept m p hqueue hkey _ hpackets huid htrans _ _ =>
      rw [queueEvents_accept hbal hkey hqueue]
      intro n
      by_cases hn : m = n
      · subst hn
        refine h.next ?_
        have hold : (s.ledger.queue m).map (fun q => (s'.kept.packets q).job) = jobs m s :=
          List.map_congr_left fun q hq => by rw [hpackets m q hq]
        have hjobs : jobs m s' = jobs m s ++ [(s'.kept.packets p).job] := by
          rw [jobs, hqueue, Function.update_self, List.map_append, hold]
          rfl
        have hnew : (s'.kept.packets p).job =
            ⟨s'.ledger.uid p, (s'.queue.packets p).maxTransmissions - 1⟩ := by
          show (⟨_, _ - (s'.kept.packets p).transmissions - 1⟩ : Job Nat) = _
          rw [htrans]
          rfl
        rw [retryOps_accepted, if_pos rfl, departures_accepted, List.append_nil, hjobs, hnew]
        rfl
      · refine h.other ?_ rfl (jobs_congr ?_ (hpackets n))
        · rw [retryOps_accepted, if_neg hn]
        · rw [hqueue, Function.update_of_ne (Ne.symm hn)]

section
variable {m : LinkAddr} {p : Nat} {st : MacStatus} {rest : List Nat}

variable (st) in
theorem run_attempt (hq : s.ledger.queue m = p :: rest)
    (hp : Pending es m (s.kept.packets p)) :
    run MacStatus.isOk (retryState m es s) [.attempt (s.ledger.uid p) st] =
      some (if (s.kept.packets p).LeavesAfter st then
        ⟨rest.map fun q => (s.kept.packets q).job, departures m es ++ [(s.ledger.uid p, st)]⟩
      else ⟨((s.kept.packets p).tried st).job :: rest.map fun q => (s.kept.packets q).job,
        departures m es⟩) := by
  have hjobs : jobs m s = (s.kept.packets p).job :: rest.map fun q => (s.kept.packets q).job := by
    rw [jobs, hq, List.map_cons]
  have hid : (s.kept.packets p).job.id = s.ledger.uid p := rfl
  have htried := tried_job st hp.below hp.bound
  rw [run, List.foldlM_cons, retryState, hjobs]
  simp only [step, hid, if_true]
  by_cases hleaves : (s.kept.packets p).LeavesAfter st
  · rw [if_pos hleaves] at htried ⊢
    rw [htried]
    rfl
  · rw [if_neg hleaves] at htried ⊢
    rw [htried]
    rfl

/-- The head of a queue is in no queue once it has left it. -/
theorem head_notMem (hbal : s.ledger.Balanced) (hq : s.ledger.queue m = p :: rest) (n : LinkAddr) :
    p ∉ Function.update s.ledger.queue m rest n := by
  intro hmem
  have hnodup := (hbal.queue_perm hq).nodup_iff.mp hbal.live.of_append_left
  have hn : n ∈ s.ledger.keys := by
    by_contra hno
    rw [hbal.outside_update (hbal.mem_of_queue hq) rest n hno] at hmem
    cases hmem
  exact (List.nodup_cons.mp hnodup).1 (List.mem_flatMap.mpr ⟨n, hn, hmem⟩)

theorem jobs_other (hbal : s.ledger.Balanced) (hq : s.ledger.queue m = p :: rest)
    (hpackets : s'.kept.packets = Function.update s.kept.packets p ((s.kept.packets p).tried st))
    {n : LinkAddr} (hn : m ≠ n) (hqueue : s'.ledger.queue n = s.ledger.queue n) :
    jobs n s' = jobs n s := by
  refine jobs_congr hqueue fun q hmem => ?_
  have hne : q ≠ p := by
    rintro rfl
    refine head_notMem hbal hq n ?_
    rwa [Function.update_of_ne (Ne.symm hn)]
  rw [hpackets, Function.update_of_ne hne]

theorem jobs_rest (hbal : s.ledger.Balanced) (hq : s.ledger.queue m = p :: rest)
    (hpackets : s'.kept.packets = Function.update s.kept.packets p ((s.kept.packets p).tried st)) :
    (rest.map fun q => (s'.kept.packets q).job) = rest.map fun q => (s.kept.packets q).job := by
  refine List.map_congr_left fun q hmem => ?_
  have hne : q ≠ p := by
    rintro rfl
    refine head_notMem hbal hq m ?_
    rwa [Function.update_self]
  rw [hpackets, Function.update_of_ne hne]

end

/-- **An interrupt.** -/
theorem QueueRuns.slot {i : SlotInput} (h : QueueRuns es s) (hi : PacketsHeld s) (hf : FifoInv es s)
    (hs : slotStep cfg i s = some s') :
    QueueRuns (es ++ (attemptEvents cfg i s ++ queueEvents s s')) s' := by
  have heffect := hi.slotEffect hs
  have hquiet : s'.kept.packets = s.kept.packets ∧ s'.ledger = s.ledger →
      QueueRuns (es ++ ([] ++ queueEvents s s')) s' := by
    rintro ⟨hpackets, hledger⟩
    rw [queueEvents_same (congrArg Ledger.queue hledger), List.append_nil, List.append_nil]
    exact h.same (congrArg Ledger.queue hledger) fun n p _ => congrFun hpackets p
  simp only [attemptEvents]
  cases he : slotEvent cfg i s with
  | quiet =>
      rw [he] at heffect
      exact hquiet heffect
  | reception l f =>
      rw [he] at heffect
      exact hquiet heffect
  | attempt m p l st =>
      rw [he] at heffect
      obtain ⟨rest, hq, hpackets, hledger⟩ := heffect
      have hpending := hf.pending m p (by rw [hq]; exact List.mem_cons_self)
      have hnext := run_attempt st hq hpending
      show QueueRuns (es ++ ([.attempt m (s.ledger.uid p) st] ++ queueEvents s s')) s'
      by_cases hleaves : (s.kept.packets p).LeavesAfter st
      · -- the packet leaves
        rw [if_pos hleaves] at hledger hnext
        have hqueue : s'.ledger.queue = Function.update s.ledger.queue m rest := by rw [hledger]; rfl
        have hret : (s'.queue.packets p).ret = st := by
          have hp := congrFun hpackets p
          rw [Function.update_self] at hp
          exact congrArg TschPacket.ret hp
        rw [queueEvents_serve hi.balanced hq hqueue, hret]
        intro n
        by_cases hn : m = n
        · subst hn
          refine h.next ?_
          rw [retryOps_append, retryOps_attempt, if_pos rfl, retryOps_left, List.append_nil,
            departures_append, departures_attempt, departures_left, if_pos rfl, List.nil_append, hnext,
            jobs, hqueue, Function.update_self, jobs_rest hi.balanced hq hpackets]
        · refine h.other ?_ ?_ (jobs_other hi.balanced hq hpackets hn ?_)
          · rw [retryOps_append, retryOps_attempt, if_neg hn, retryOps_left, List.append_nil]
          · rw [departures_append, departures_attempt, departures_left, if_neg hn, List.append_nil]
          · rw [hqueue, Function.update_of_ne (Ne.symm hn)]
      · -- the packet stays at the head
        rw [if_neg hleaves] at hledger hnext
        rw [queueEvents_same (congrArg Ledger.queue hledger), List.append_nil]
        intro n
        by_cases hn : m = n
        · subst hn
          refine h.next ?_
          have hhead : s'.kept.packets p = (s.kept.packets p).tried st := by
            rw [hpackets, Function.update_self]
          rw [retryOps_attempt, if_pos rfl, departures_attempt, List.append_nil, hnext, jobs, hledger, hq,
            List.map_cons, hhead, jobs_rest hi.balanced hq hpackets]
        · refine h.other ?_ rfl (jobs_other hi.balanced hq hpackets hn ?_)
          · rw [retryOps_attempt, if_neg hn]
          · rw [hledger]

end

/-! ## Runs -/

section
variable {fuel : Nat} {calls : List NodeCall} {s : TschState} {es : List FifoEvent}
  {c : Prog TschState Unit × TschState}

/-- **The queue of a neighbor is a retry queue.**  In every run of a whole node without a flush
what has become of the queue of each neighbor is what the machine makes of the packets
accepted for it and of the ends of the attempts to send to it; these are attempts of its head,
and the counter of each packet in it tells the retries left. -/
theorem queue_refines (hcalls : ∀ c ∈ calls, c.NoFlush) (h : Quiescent s)
    (hempty : ∀ n, s.ledger.queue n = [])
    (hr : History (FifoStep cfg) queueEvents (Prog.forEach calls (NodeCall.perform cfg fuel), s) es c)
    (n : LinkAddr) :
    run MacStatus.isOk ⟨[], []⟩ (retryOps n es) = some ⟨jobs n c.2, departures n es⟩ := by
  have hkeeps : KeepsPackets cfg (Prog.forEach calls (NodeCall.perform cfg fuel)) :=
    keepsPackets_nodeCalls fuel hcalls
  have hstart : QueueRuns [] s := by
    intro m
    have hjobs : jobs m s = [] := by rw [jobs, hempty m]; rfl
    rw [retryState, hjobs]
    rfl
  refine (History.of_wpg (C := queueCtx cfg) (R := fun es s => FifoInv es s ∧ QueueRuns es s) ?_
    (fun _ _ => trivial) h.held (hkeeps s h.held h.toBetween) ⟨FifoInv.start hempty, hstart⟩ ?_ ?_
    hr).2.2 n
  · rintro _ s s' ⟨hs⟩
    exact ⟨_, hs⟩
  · rintro es s s' hi _ ⟨hf, hruns⟩ ha
    exact ⟨hf.act (PacketsHeld.balanced hi) ha, hruns.act (PacketsHeld.balanced hi) ha⟩
  · rintro es _ s s' hi hi' ⟨hf, hruns⟩ ⟨hs⟩
    exact ⟨hf.slot hi hi' hs, hruns.slot hi hf hs⟩

/-- The attempts to send to `n` that have come to their end. -/
def attemptsTo (n : LinkAddr) (es : List FifoEvent) : Nat := (retryOps n es).countP Op.isAttempt

/-- How often a packet may still be tried. -/
def TschPacket.attemptsLeft (e : TschPacket) : Nat := max 1 (e.maxTransmissions - e.transmissions)

/-- The attempts that the first `i + 1` packets in the queue of `n` may still take. -/
def attemptsAhead (n : LinkAddr) (i : Nat) (s : TschState) : Nat :=
  (((s.queue.neighbors n).txRingbuf.take (i + 1)).map fun p =>
    (s.queue.packets p).attemptsLeft).sum

theorem backlog_jobs (n : LinkAddr) (i : Nat) (s : TschState) :
    backlog (jobs n s) i = attemptsAhead n i s := by
  rw [backlog, jobs, ← List.map_take, List.map_map]
  refine congrArg List.sum (List.map_congr_left fun p _ => ?_)
  show (s.queue.packets p).maxTransmissions - (s.queue.packets p).transmissions - 1 + 1 = _
  rw [TschPacket.attemptsLeft]
  omega

/-- **Bounded waiting.**  In every run of a whole node without a flush: a packet has left its
queue as soon as as many attempts to send to its neighbor have ended as it and the packets
ahead of it may still take.  Nothing else makes it wait, and nothing overtakes it. -/
theorem bounded_waiting (hcalls : ∀ c ∈ calls, c.NoFlush) (h : Quiescent s)
    (hempty : ∀ n, s.ledger.queue n = [])
    (hr : History (FifoStep cfg) queueEvents (Prog.forEach calls (NodeCall.perform cfg fuel), s) es c)
    {fs : List FifoEvent} {c' : Prog TschState Unit × TschState}
    (hr' : History (FifoStep cfg) queueEvents c fs c') {n : LinkAddr} {i p : Nat}
    (hp : (c.2.queue.neighbors n).txRingbuf[i]? = some p)
    (henough : attemptsAhead n i c.2 ≤ attemptsTo n fs) :
    ∃ ret, (departures n fs)[i]? = some ((c.2.queue.packets p).uid, ret) := by
  have hbefore := queue_refines hcalls h hempty hr n
  have hafter := queue_refines hcalls h hempty (hr.trans hr') n
  rw [retryOps_append, run_append, hbefore, Option.bind_some, departures_append] at hafter
  have hjob : (jobs n c.2)[i]? = some (c.2.kept.packets p).job := by
    rw [jobs, List.getElem?_map]
    exact congrArg (Option.map _) hp
  rw [← backlog_jobs] at henough
  obtain ⟨ret, hret⟩ := run_backlog_left hafter hjob henough
  rw [List.getElem?_append_right (Nat.le_add_right _ _), Nat.add_sub_cancel_left] at hret
  exact ⟨ret, hret⟩

end

/-! ### Two packets -/

/-- The first packet may be tried twice, the second once. -/
def queueTwo : List NodeCall :=
  [.call (.addPacket 255 2 0 0 true), .call (.addPacket 255 1 0 0 true)]

theorem noFlush_queueTwo : ∀ c ∈ queueTwo, c.NoFlush := by
  intro c hc
  rcases List.mem_cons.mp hc with rfl | hc
  · exact (by decide : 2 < 256)
  · cases List.mem_singleton.mp hc
    exact (by decide : 1 < 256)

/-- The second attempt succeeds, the third fails. -/
def threeAttempts : List (Option SlotInput) :=
  [some (.quiet 0), some (.quiet 328), some { SlotInput.quiet 328 with transmitOk := false },
    some (.quiet 656), some (.quiet 656), some (.quiet 984),
    some { SlotInput.quiet 984 with transmitOk := false }]

theorem queue_refines_two :
    ∃ es c, History (FifoStep (smallBuild 8)) queueEvents
        (Prog.forEach queueTwo (NodeCall.perform (smallBuild 8) 1), oneTxLink) es c ∧
      departures 255 es = [(0, .ok)] ∧
      run MacStatus.isOk ⟨[], []⟩ (retryOps 255 es) = some ⟨jobs 255 c.2, departures 255 es⟩ := by
  obtain ⟨es, c, hr, hc⟩ := History.exists_historyOf (fifoMove (smallBuild 8)) queueEvents
    (Prog.forEach queueTwo (NodeCall.perform (smallBuild 8) 1), oneTxLink) fifoMove_step
    (List.replicate 12 none ++ threeAttempts.take 5)
    (fun r => decide (departures 255 r.1 = [(0, .ok)])) (by decide +kernel)
  exact ⟨es, c, hr, of_decide_eq_true hc,
    queue_refines noFlush_queueTwo quiescent_oneTxLink empty_oneTxLink hr 255⟩

theorem bounded_waiting_two :
    ∃ es c fs c', History (FifoStep (smallBuild 8)) queueEvents
        (Prog.forEach queueTwo (NodeCall.perform (smallBuild 8) 1), oneTxLink) es c ∧
      History (FifoStep (smallBuild 8)) queueEvents c fs c' ∧ attemptsAhead 255 1 c.2 = 3 ∧
      ∃ ret, (departures 255 fs)[1]? = some ((c.2.queue.packets 1).uid, ret) := by
  obtain ⟨es, c, hr, hc⟩ := History.exists_historyOf (fifoMove (smallBuild 8)) queueEvents
    (Prog.forEach queueTwo (NodeCall.perform (smallBuild 8) 1), oneTxLink) fifoMove_step
    (List.replicate 12 none)
    (fun r => decide ((r.2.2.queue.neighbors 255).txRingbuf[1]? = some 1 ∧
        attemptsAhead 255 1 r.2.2 = 3) &&
      (historyOf (fifoMove (smallBuild 8)) queueEvents threeAttempts r.2).any fun r' =>
        decide (3 ≤ attemptsTo 255 r'.1)) (by decide +kernel)
  obtain ⟨hbefore, hafter⟩ := Bool.and_eq_true_iff.mp hc
  obtain ⟨hp, hahead⟩ := of_decide_eq_true hbefore
  obtain ⟨fs, c', hr', hc'⟩ := History.exists_historyOf (fifoMove (smallBuild 8)) queueEvents c
    fifoMove_step threeAttempts (fun r' => decide (3 ≤ attemptsTo 255 r'.1)) hafter
  have henough : attemptsAhead 255 1 c.2 ≤ attemptsTo 255 fs := hahead ▸ of_decide_eq_true hc'
  exact ⟨es, c, fs, c', hr, hr', hahead, bounded_waiting noFlush_queueTwo quiescent_oneTxLink
    empty_oneTxLink hr hr' hp henough⟩

end QlTsch
