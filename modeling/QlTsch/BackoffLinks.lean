/-
# `QlTsch.BackoffLinks` — which links count a backoff window down

Two functions decide which links a neighbor may use, in different words:
`get_packet_and_neighbor_for_link` when it selects a packet, and
`tsch_queue_update_all_backoff_windows` when it counts windows down "for all
neighbors able to transmit over this Tx, Shared link".

* A packet of `n` can be selected if the link is not for EBs only and is a link to `n`,
  or a broadcast link while `n` has no Tx link of its own (`couldSelect_iff`).
* The window of `n` is counted down if `n` has Tx links and the link is to `n`, or `n`
  has none and the link is a broadcast link (`countsDown_iff`).

So they disagree on links for EBs only, which count windows down, and on a link to a
neighbor that has no Tx link by its counter.  The latter is left behind when the link
was added while the neighbor table was full (`backoff_counts_usable_links`,
`window_not_counted_down`).
-/
import QlTsch.PacketLookup

namespace QlTsch

open Interleave Interleave.Prog

variable {cfg : Config}

/-! ## Which links a neighbor may use -/

/-- The same node with other packets in its queues and other backoff windows. -/
def TschState.withQueues (rings : LinkAddr → List Nat) (windows : LinkAddr → Nat) (s : TschState) :
    TschState :=
  { s with queue := { s.queue with
      neighbors := fun n =>
        { s.queue.neighbors n with txRingbuf := rings n, backoffWindow := windows n } } }

/-- Once its window is 0, and depending on what is queued, a packet of `n` can be
selected on `link`. -/
def CouldSelect (s : TschState) (link : TschLink) (n : LinkAddr) : Prop :=
  ∃ rings windows p, windows n = 0 ∧
    getPacketAndNeighborForLink (s.withQueues rings windows) link = (some p, some n)

/-- The end of a slot on link `l` counts the window of `n` down. -/
def CountsDown (cfg : Config) (s : TschState) (l : Nat) (n : LinkAddr) : Prop :=
  ((updateLinkBackoff cfg (some l) s).queue.neighbors n).backoffWindow + 1 =
    (s.queue.neighbors n).backoffWindow

section
variable {s : TschState} {n : LinkAddr}

theorem countsDown_iff {l : Nat} (htx : (s.link l).linkOptions.tx = true)
    (hsh : (s.link l).linkOptions.shared = true) (hlock : tschIsLocked s = false)
    (hn : n ∈ s.queue.tschNeighbors) (hw : (s.queue.neighbors n).backoffWindow ≠ 0) :
    CountsDown cfg s l n ↔
      ((s.queue.neighbors n).txLinksCount = 0 ∧ (s.link l).addr = cfg.tschBroadcastAddress ∨
        (s.queue.neighbors n).txLinksCount ≠ 0 ∧ (s.link l).addr = n) := by
  have hcounts : backoffWindowCounts cfg (s.link l).addr n (s.queue.neighbors n) = true ↔
      ((s.queue.neighbors n).txLinksCount = 0 ∧ (s.link l).addr = cfg.tschBroadcastAddress ∨
        (s.queue.neighbors n).txLinksCount ≠ 0 ∧ (s.link l).addr = n) := by
    simp only [backoffWindowCounts, Bool.and_eq_true, Bool.or_eq_true, bne_iff_ne, beq_iff_eq, ne_eq,
      hw, not_false_eq_true, true_and]
  rw [← hcounts]
  simp only [CountsDown, updateLinkBackoff, htx, hsh, Bool.and_self, if_true,
    tschQueueUpdateAllBackoffWindows, hlock, Bool.false_eq_true, if_false, hn, true_and]
  split
  · rename_i hc
    exact iff_of_true (Nat.sub_one_add_one hw) hc
  · rename_i hc
    exact iff_of_false (Nat.succ_ne_self _) hc

theorem countsDown_locked {l : Nat} (hlock : tschIsLocked s = true) : ¬ CountsDown cfg s l n := by
  intro h
  simp only [CountsDown, updateLinkBackoff_locked hlock] at h
  exact Nat.succ_ne_self _ h

theorem couldSelect_locked {link : TschLink} (hlock : tschIsLocked s = true) :
    ¬ CouldSelect s link n := by
  rintro ⟨rings, windows, p, -, h⟩
  have hfree := (getPacketAndNeighbor_some (congrArg Prod.fst h)).1
  exact Bool.false_ne_true (hfree.symm.trans hlock)

/-- A packet for `n`, no other, and no backoff. -/
def TschState.onlyQueued (n : LinkAddr) (s : TschState) : TschState :=
  s.withQueues (fun m => if m = n then [0] else []) fun _ => 0

theorem onlyQueued_waiting {link : TschLink} (m : LinkAddr) :
    waiting (s.onlyQueued n) link m = decide (m = n) := by
  have hring : ((s.onlyQueued n).queue.neighbors m).txRingbuf = if m = n then [0] else [] := rfl
  have hexpired : tschQueueBackoffExpired ((s.onlyQueued n).queue.neighbors m) = true := rfl
  simp only [waiting, hring, hexpired, Bool.or_true, Bool.and_true]
  by_cases hm : m = n
  · rw [if_pos hm, decide_eq_true hm]
    rfl
  · rw [if_neg hm, decide_eq_false hm]
    rfl

/-- What can be selected are the candidates; which of them is selected depends on the queues. -/
theorem couldSelect_iff_mem {link : TschLink} (h : VirtualOk cfg s) (hlock : tschIsLocked s = false)
    (htx : link.linkOptions.tx = true) : CouldSelect s link n ↔ n ∈ candidates cfg s link := by
  have hwith : ∀ rings windows, VirtualOk cfg (s.withQueues rings windows) := fun rings windows =>
    h.of_queue (fun _ => rfl) rfl rfl id
  have hfirst : ∀ rings windows, firstWaiting cfg (s.withQueues rings windows) link =
      (candidates cfg s link).find? (waiting (s.withQueues rings windows) link) := by
    intro rings windows
    have hfree : tschIsLocked (s.withQueues rings windows) = false := hlock
    simp only [firstWaiting, hfree, htx, and_self, if_true]
    rfl
  constructor
  · rintro ⟨rings, windows, p, -, hsel⟩
    have hn := (getPacketAndNeighbor_some_iff (hwith rings windows)).mp ⟨p, hsel⟩
    rw [hfirst] at hn
    exact List.mem_of_find?_eq_some hn
  · intro hmem
    have hfound : firstWaiting cfg (s.onlyQueued n) link = some n := by
      rw [TschState.onlyQueued, hfirst]
      cases hf : (candidates cfg s link).find? (waiting (s.onlyQueued n) link) with
      | none =>
          have hno := List.find?_eq_none.mp hf n hmem
          rw [onlyQueued_waiting] at hno
          exact absurd (decide_eq_true rfl) hno
      | some m =>
          have hm := List.find?_some hf
          rw [onlyQueued_waiting] at hm
          exact hf.trans (congrArg some (of_decide_eq_true hm))
    obtain ⟨p, hp⟩ := (getPacketAndNeighbor_some_iff (hwith _ _)).mpr hfound
    exact ⟨_, _, p, rfl, hp⟩

theorem couldSelect_iff {link : TschLink} (h : VirtualOk cfg s) (hlock : tschIsLocked s = false)
    (hvirt : cfg.isVirtual n = false) (hn : n ∈ s.queue.tschNeighbors)
    (htx : link.linkOptions.tx = true) :
    CouldSelect s link n ↔ link.linkType ≠ .advertisingOnly ∧
      (link.addr = n ∨
        link.addr = cfg.tschBroadcastAddress ∧ (s.queue.neighbors n).txLinksCount = 0) :=
  (couldSelect_iff_mem h hlock htx).trans (mem_candidates h hvirt hn)

end

/-! ## Whether they agree -/

/-- A link for EBs only does not count the window of `n` down, any other link to `n` is
one of the Tx links counted for `n`. -/
def CountedAsUsed (cfg : Config) (link : TschLink) (n : LinkAddr) (e : TschNeighbor) : Prop :=
  (link.linkType = .advertisingOnly →
    ¬ (e.txLinksCount = 0 ∧ link.addr = cfg.tschBroadcastAddress) ∧
    ¬ (e.txLinksCount ≠ 0 ∧ link.addr = n)) ∧
  (link.linkType ≠ .advertisingOnly → link.addr = n → e.txLinksCount ≠ 0)

/-- **Backoff counts the links a neighbor could use**, in every state of every run, for
every Tx, Shared link and every neighbor in backoff, exactly if the lock is held or the
link is counted as it is used. -/
theorem backoff_counts_usable_links (fuel : Nat) (calls : List NodeCall)
    {c : Prog TschState Unit × TschState}
    (hr : Run (CsmaStep cfg) (fun _ _ => True)
      (Prog.forEach calls (NodeCall.perform cfg fuel), TschState.boot cfg) c)
    {l : Nat} (htx : (c.2.link l).linkOptions.tx = true)
    (hsh : (c.2.link l).linkOptions.shared = true) {n : LinkAddr}
    (hn : n ∈ c.2.queue.tschNeighbors) (hb : (c.2.queue.neighbors n).isBroadcast = false)
    (hw : (c.2.queue.neighbors n).backoffWindow ≠ 0) :
    (CountsDown cfg c.2 l n ↔ CouldSelect c.2 (c.2.link l) n) ↔
      tschIsLocked c.2 = true ∨ CountedAsUsed cfg (c.2.link l) n (c.2.queue.neighbors n) := by
  have h := virtual_run fuel calls hr
  have hvirt : cfg.isVirtual n = false := (h.isBroadcast n).symm.trans hb
  have hbcast := Config.ne_broadcast hvirt
  cases hlock : tschIsLocked c.2 with
  | true =>
      exact iff_of_true (iff_of_false (countsDown_locked hlock) (couldSelect_locked hlock)) (.inl rfl)
  | false =>
      rw [countsDown_iff htx hsh hlock hn hw, couldSelect_iff h hlock hvirt hn htx]
      simp only [Bool.false_eq_true, false_or, CountedAsUsed]
      by_cases hty : (c.2.link l).linkType = .advertisingOnly
      · simp only [hty, ne_eq, not_true_eq_false, false_and, iff_false, not_or, true_imp_iff,
          false_imp_iff, and_true]
      · simp only [hty, ne_eq, not_false_eq_true, true_and, false_imp_iff, true_imp_iff]
        by_cases hto : (c.2.link l).addr = n
        · simp only [hto, hbcast.symm, and_false, and_true, false_or, true_or, iff_true, true_imp_iff]
        · simp only [hto, and_false, or_false, false_or, false_imp_iff, iff_true]
          exact and_comm

/-- The neighbor table is full when the link to neighbor 5 is added. -/
def fullTableCalls : List NodeCall :=
  [.call (.addSlotframe 0 7), .call (.addNbr 9),
    .call (.addLink (some 0) txShared .normal (some 5) 1 0 false), .call .freeUnusedNeighbors,
    .call (.addPacket 5 3 0 0 true)]

/-- An interrupt, or the node joins a network. -/
def csmaMove (cfg : Config) : Option SlotInput → TschState → Option TschState
  | some i, s => slotStep cfg i s
  | none, s => some (s.joined 0)

theorem csmaMove_step (i : Option SlotInput) (s s' : TschState) (h : csmaMove cfg i s = some s') :
    CsmaStep cfg s s' := by
  cases i with
  | none =>
      cases h
      exact .slotVars _ s
  | some i => exact .slot h

/-- The packet to neighbor 5 is sent in slot 1 and not acknowledged. -/
theorem uncounted_link :
    ∃ c, Run (CsmaStep (smallBuild 3)) (fun _ _ => True)
        (Prog.forEach fullTableCalls (NodeCall.perform (smallBuild 3) 5),
          TschState.boot (smallBuild 3)) c ∧
      decide (0 ∈ c.2.sched.allLinks ∧ (c.2.link 0).linkOptions = txShared ∧
        (c.2.link 0).linkType = .normal ∧ (c.2.link 0).addr = 5 ∧ 5 ∈ c.2.queue.tschNeighbors ∧
        (c.2.queue.neighbors 5).isBroadcast = false ∧ (c.2.queue.neighbors 5).backoffWindow = 2 ∧
        (c.2.queue.neighbors 5).txLinksCount = 0 ∧ tschIsLocked c.2 = false ∧
        c.2.slot.tschCurrentAsn = 8) = true := by
  refine exists_run (csmaMove (smallBuild 3)) (fun _ _ => true) _ _
    csmaMove_step (fun _ _ _ => trivial)
    (List.replicate 70 none ++ [some none, some (some (.quiet 0)), some (some (.quiet 328)),
      some (some (.quiet 328)), some (some { SlotInput.quiet 328 with rand := 64 })]) _ _ ?_
  decide +kernel

theorem backoff_counts_usable_links_uncounted :
    ∃ c : Prog TschState Unit × TschState,
      Run (CsmaStep (smallBuild 3)) (fun _ _ => True)
        (Prog.forEach fullTableCalls (NodeCall.perform (smallBuild 3) 5),
          TschState.boot (smallBuild 3)) c ∧
      ((CountsDown (smallBuild 3) c.2 0 5 ↔ CouldSelect c.2 (c.2.link 0) 5) ↔
        tschIsLocked c.2 = true ∨
          CountedAsUsed (smallBuild 3) (c.2.link 0) 5 (c.2.queue.neighbors 5)) := by
  obtain ⟨c, hrun, hc⟩ := uncounted_link
  obtain ⟨-, hopt, -, -, hn, hb, hw, -⟩ := of_decide_eq_true hc
  refine ⟨c, hrun, backoff_counts_usable_links 5 fullTableCalls hrun ?_ ?_ hn hb ?_⟩
  · rw [hopt]
    rfl
  · rw [hopt]
    rfl
  · rw [hw]
    decide

/-- The link to neighbor 5 was not counted, so the window of neighbor 5 is not counted
down there. -/
theorem window_not_counted_down :
    ∃ c : Prog TschState Unit × TschState,
      Run (CsmaStep (smallBuild 3)) (fun _ _ => True)
        (Prog.forEach fullTableCalls (NodeCall.perform (smallBuild 3) 5),
          TschState.boot (smallBuild 3)) c ∧
      0 ∈ c.2.sched.allLinks ∧ (c.2.link 0).linkOptions = txShared ∧
      5 ∈ c.2.queue.tschNeighbors ∧ (c.2.queue.neighbors 5).isBroadcast = false ∧
      (c.2.queue.neighbors 5).backoffWindow ≠ 0 ∧
      ¬ CountsDown (smallBuild 3) c.2 0 5 ∧ CouldSelect c.2 (c.2.link 0) 5 := by
  obtain ⟨c, hrun, hc⟩ := uncounted_link
  obtain ⟨hl, hopt, hty, haddr, hn, hb, hwindow, hcount, hlock, -⟩ := of_decide_eq_true hc
  have hw : (c.2.queue.neighbors 5).backoffWindow ≠ 0 := by
    rw [hwindow]
    decide
  have htx : (c.2.link 0).linkOptions.tx = true := by
    rw [hopt]
    rfl
  have hsh : (c.2.link 0).linkOptions.shared = true := by
    rw [hopt]
    rfl
  refine ⟨c, hrun, hl, hopt, hn, hb, hw, ?_, ?_⟩
  · rw [countsDown_iff htx hsh hlock hn hw, hcount, haddr]
    decide
  · refine (couldSelect_iff (virtual_run 5 fullTableCalls hrun) hlock (by decide) hn htx).mpr ?_
    rw [hty, haddr]
    exact ⟨fun h => (by cases h), .inl rfl⟩

end QlTsch
