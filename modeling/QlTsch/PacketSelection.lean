/-
# `QlTsch.PacketSelection` — which packet a link gets

`get_packet_and_neighbor_for_link` looks in three places: the EB queue, the queue of
the link's neighbor, and on a broadcast link the queues of all neighbors that have no
Tx link of their own.  What it returns in two places, the packet and the neighbor, is
a pair that belongs together (`packet_selection`):

* the packet is the head of the neighbor's queue, and the backoff lets it out;
* the neighbor is admissible on the link, and none that is preferred to it could send;
* no packet at all means that no admissible neighbor could send.

The table, the queues and the windows are arbitrary.  Of `tsch_queue_init` one thing is
asked: that `n_broadcast` is not NULL.  If it were, a link to an unknown address would be
taken for a broadcast link.
-/
import QlTsch.PacketLookup

namespace QlTsch

/-! ## Admissible neighbors -/

/-- In what capacity a neighbor may send on a link, in the order of preference. -/
inductive Capacity where
  | eb
  | linkNeighbor
  /-- without a Tx link of its own, on a broadcast link -/
  | stranded
deriving DecidableEq, Repr

def Capacity.rank : Capacity → Nat
  | .eb => 0
  | .linkNeighbor => 1
  | .stranded => 2

/-- `n` is the neighbor in the table with address `a`. -/
def NeighborOf (s : TschState) (a n : LinkAddr) : Prop := n = a ∧ a ∈ s.queue.tschNeighbors

def Admissible (s : TschState) (link : TschLink) (n : LinkAddr) : Capacity → Prop
  | .eb => link.linkType ≠ .normal ∧ s.queue.nEb = some n
  | .linkNeighbor => link.linkType ≠ .advertisingOnly ∧ NeighborOf s link.addr n
  | .stranded => link.linkType ≠ .advertisingOnly ∧
      (∃ b, s.queue.nBroadcast = some b ∧ NeighborOf s link.addr b) ∧ n ∈ s.queue.tschNeighbors ∧
        (s.queue.neighbors n).isBroadcast = false ∧ (s.queue.neighbors n).txLinksCount = 0

/-- The queue of `n` is not empty, its head is `p`, and the backoff of `n` lets it out. -/
structure Sendable (s : TschState) (link : TschLink) (n : LinkAddr) (p : Nat) : Prop where
  head : (s.queue.neighbors n).txRingbuf.head? = some p
  backoff : link.linkOptions.shared = true → (s.queue.neighbors n).backoffWindow = 0

/-- The packet `p` of `n` is rightly the one for the link. -/
structure RightPacket (s : TschState) (link : TschLink) (p : Nat) (n : LinkAddr) : Prop where
  tx : link.linkOptions.tx = true
  sendable : Sendable s link n p
  preferred : ∃ c, Admissible s link n c ∧ ∀ c', c'.rank < c.rank →
    ∀ m, Admissible s link m c' → ∀ q, ¬ Sendable s link m q
  onlyEb : link.linkType = .advertisingOnly → s.queue.nEb = some n

section
variable {s : TschState} {link : TschLink} {n : LinkAddr} {c : Capacity}

theorem Admissible.eb_of_advertisingOnly (h : Admissible s link n c)
    (hty : link.linkType = .advertisingOnly) : s.queue.nEb = some n := by
  cases c with
  | eb => exact h.2
  | linkNeighbor => exact absurd hty h.1
  | stranded => exact absurd hty h.1

theorem waiting_iff : waiting s link n = true ↔ ∃ p, Sendable s link n p := by
  constructor
  · intro hw
    obtain ⟨p, hp⟩ := waiting_head hw
    refine ⟨p, hp, ?_⟩
    intro hshared
    simp only [waiting, hshared, Bool.not_true, Bool.false_or, Bool.and_eq_true,
      tschQueueBackoffExpired, beq_iff_eq] at hw
    exact hw.2
  · rintro ⟨p, hp, hb⟩
    cases hring : (s.queue.neighbors n).txRingbuf with
    | nil =>
        rw [hring] at hp
        cases hp
    | cons q qs =>
        by_cases hshared : link.linkOptions.shared = true
        · simp [waiting, hring, tschQueueBackoffExpired, hb hshared]
        · simp [waiting, hring, hshared]

/-! ## The three places -/

/-- What the lookup of one kind of neighbors comes to. -/
structure Looked (s : TschState) (link : TschLink) (c : Capacity)
    (r : Option Nat × Option LinkAddr) : Prop where
  found : ∀ p, r.1 = some p → ∃ n, r.2 = some n ∧ Admissible s link n c ∧ Sendable s link n p
  none : r.1 = none → ∀ n, Admissible s link n c → ∀ p, ¬ Sendable s link n p

theorem getPacketForNbr_some_iff (hlock : tschIsLocked s = false) {p : Nat} :
    tschQueueGetPacketForNbr s (some n) link = some p ↔ Sendable s link n p := by
  rw [getPacketForNbr_eq hlock]
  constructor
  · intro h
    split at h
    · rename_i hw
      obtain ⟨q, hq⟩ := waiting_iff.mp hw
      have hqp : q = p := Option.some.inj (hq.head.symm.trans h)
      exact hqp ▸ hq
    · cases h
  · intro h
    rw [if_pos (waiting_iff.mpr ⟨p, h⟩)]
    exact h.head

theorem looked_one (hlock : tschIsLocked s = false) {o : Option LinkAddr}
    (ho : ∀ n, Admissible s link n c ↔ o = some n) :
    Looked s link c (tschQueueGetPacketForNbr s o link, o) := by
  cases o with
  | none =>
      have hnone : tschQueueGetPacketForNbr s none link = none := by
        simp only [tschQueueGetPacketForNbr, ite_self]
      refine ⟨?_, ?_⟩
      · intro p hp
        rw [hnone] at hp
        cases hp
      · intro _ n hn
        cases (ho n).mp hn
  | some m =>
      refine ⟨?_, ?_⟩
      · intro p hp
        exact ⟨m, rfl, (ho m).mpr rfl, (getPacketForNbr_some_iff hlock).mp hp⟩
      · intro hnone n hn p hp
        cases (ho n).mp hn
        have hsome := (getPacketForNbr_some_iff hlock).mpr hp
        rw [hsome] at hnone
        cases hnone

theorem looked_eb (hlock : tschIsLocked s = false) : Looked s link .eb (getEbPacket s link) := by
  by_cases hty : link.linkType = .normal
  · have hnone : getEbPacket s link = (none, none) := by
      simp only [getEbPacket, hty, reduceCtorEq, or_self, if_false]
    rw [hnone]
    refine ⟨?_, ?_⟩
    · intro p hp
      cases hp
    · intro _ n hn
      exact absurd hty hn.1
  · have hadv : link.linkType = .advertising ∨ link.linkType = .advertisingOnly := by
      cases hl : link.linkType with
      | normal => exact absurd hl hty
      | advertising => exact .inl rfl
      | advertisingOnly => exact .inr rfl
    rw [getEbPacket, if_pos hadv]
    refine looked_one hlock ?_
    intro n
    exact and_iff_right hty

theorem looked_linkNeighbor (hlock : tschIsLocked s = false)
    (hty : link.linkType ≠ .advertisingOnly) :
    Looked s link .linkNeighbor
      (tschQueueGetPacketForNbr s (tschQueueGetNbr s link.addr) link, tschQueueGetNbr s link.addr) := by
  refine looked_one hlock ?_
  intro n
  rw [getNbr_eq hlock]
  simp only [Admissible, NeighborOf, hty, ne_eq, not_false_eq_true, true_and]
  by_cases hmem : link.addr ∈ s.queue.tschNeighbors
  · simp only [hmem, and_true, if_true, Option.some.injEq]
    exact eq_comm
  · simp only [hmem, and_false, if_false, reduceCtorEq]

/-- The neighbors that have to make do with broadcast links, in the order of the table. -/
theorem looked_stranded (hlock : tschIsLocked s = false) (hty : link.linkType ≠ .advertisingOnly)
    {b : LinkAddr} (hb : s.queue.nBroadcast = some b) (hlink : NeighborOf s link.addr b) :
    (∀ n p, tschQueueGetUnicastPacketForAny s link = some (n, p) →
      Admissible s link n .stranded ∧ Sendable s link n p) ∧
    (tschQueueGetUnicastPacketForAny s link = none →
      ∀ n, Admissible s link n .stranded → ∀ p, ¬ Sendable s link n p) := by
  have hany : tschQueueGetUnicastPacketForAny s link =
      ((s.queue.tschNeighbors.filter fun n => (s.queue.neighbors n).withoutLinks).find?
        (waiting s link)).bind fun n => (s.queue.neighbors n).txRingbuf.head?.map fun p => (n, p) := by
    simp only [tschQueueGetUnicastPacketForAny, hlock, Bool.false_eq_true, if_false]
    exact findSome_others hlock _
  have hmem : ∀ n, Admissible s link n .stranded ↔
      n ∈ s.queue.tschNeighbors.filter fun n => (s.queue.neighbors n).withoutLinks := by
    intro n
    rw [List.mem_filter, TschNeighbor.withoutLinks, Bool.and_eq_true, Bool.not_eq_true', beq_iff_eq]
    exact ⟨fun h => h.2.2, fun h => ⟨hty, ⟨b, hb, hlink⟩, h⟩⟩
  rw [hany]
  cases hfirst : (s.queue.tschNeighbors.filter fun n => (s.queue.neighbors n).withoutLinks).find?
      (waiting s link) with
  | none =>
      refine ⟨?_, ?_⟩
      · intro n p h
        cases h
      · intro _ n hn p hp
        exact absurd (waiting_iff.mpr ⟨p, hp⟩) (List.find?_eq_none.mp hfirst n ((hmem n).mp hn))
  | some m =>
      obtain ⟨q, hq⟩ := waiting_iff.mp (List.find?_some hfirst)
      rw [Option.bind_some, hq.head]
      refine ⟨?_, ?_⟩
      · intro n p h
        cases h
        exact ⟨(hmem m).mpr (List.mem_of_find?_eq_some hfirst), hq⟩
      · intro hnone
        cases hnone

/-! ## The data part -/

theorem no_data (hown : ∀ n, Admissible s link n .linkNeighbor → ∀ p, ¬ Sendable s link n p)
    (hothers : ∀ n, Admissible s link n .stranded → ∀ p, ¬ Sendable s link n p) :
    ∀ n c, Admissible s link n c → c ≠ .eb → ∀ p, ¬ Sendable s link n p := by
  intro n c hn hc
  cases c with
  | eb => exact absurd rfl hc
  | linkNeighbor => exact hown n hn
  | stranded => exact hothers n hn

theorem looked_data (hlock : tschIsLocked s = false) (hb : s.queue.nBroadcast ≠ none)
    (hty : link.linkType ≠ .advertisingOnly) :
    (∀ p, (getDataPacket s link).1 = some p → ∃ n c, (getDataPacket s link).2 = some n ∧
      Admissible s link n c ∧ Sendable s link n p ∧ c ≠ .eb ∧
      (c = .stranded → ∀ m, Admissible s link m .linkNeighbor → ∀ q, ¬ Sendable s link m q)) ∧
    ((getDataPacket s link).1 = none →
      ∀ n c, Admissible s link n c → c ≠ .eb → ∀ p, ¬ Sendable s link n p) := by
  obtain ⟨b, hb⟩ := Option.ne_none_iff_exists'.mp hb
  have hown := looked_linkNeighbor hlock hty
  by_cases hnone : tschQueueGetPacketForNbr s (tschQueueGetNbr s link.addr) link = none
  · have hown := hown.none hnone
    by_cases hbcast : tschQueueGetNbr s link.addr = s.queue.nBroadcast
    · -- a broadcast link
      obtain ⟨-, hbl, hmem⟩ := getNbr_some (hbcast.trans hb)
      obtain ⟨hfound, hnot⟩ := looked_stranded hlock hty hb ⟨hbl, hbl ▸ hmem⟩
      simp only [getDataPacket, if_pos (And.intro hnone hbcast)]
      cases hany : tschQueueGetUnicastPacketForAny s link with
      | none =>
          refine ⟨?_, ?_⟩
          · intro p h
            cases h
          · intro _
            exact no_data hown (hnot hany)
      | some r =>
          obtain ⟨hn, hp⟩ := hfound r.1 r.2 hany
          refine ⟨?_, ?_⟩
          · intro p h
            cases h
            exact ⟨r.1, .stranded, rfl, hn, hp, Capacity.noConfusion, fun _ => hown⟩
          · intro h
            cases h
    · -- then nobody is stranded on it
      rw [getDataPacket, if_neg fun h => hbcast h.2, hnone]
      refine ⟨?_, ?_⟩
      · intro p h
        cases h
      · intro _
        refine no_data hown ?_
        rintro n ⟨-, ⟨b', hb', hlink⟩, -⟩
        refine absurd ?_ hbcast
        rw [getNbr_eq hlock, if_pos hlink.2, hb', hlink.1]
  · rw [getDataPacket, if_neg fun h => hnone h.1]
    refine ⟨?_, ?_⟩
    · intro p hp
      obtain ⟨n, hn, hadm, hcan⟩ := hown.found p hp
      exact ⟨n, .linkNeighbor, hn, hadm, hcan, Capacity.noConfusion, Capacity.noConfusion⟩
    · intro h
      exact absurd h hnone

/-! ## The lookup -/

/-- **Packet selection is sound and complete.** -/
theorem packet_selection (hlock : tschIsLocked s = false) (hb : s.queue.nBroadcast ≠ none)
    (link : TschLink) :
    (∀ p, (getPacketAndNeighborForLink s link).1 = some p →
      ∃ n, (getPacketAndNeighborForLink s link).2 = some n ∧ RightPacket s link p n) ∧
    (link.linkOptions.tx = true → (getPacketAndNeighborForLink s link).1 = none →
      ∀ n c, Admissible s link n c → ∀ p, ¬ Sendable s link n p) := by
  by_cases htx : link.linkOptions.tx = true
  · have heb : Looked s link .eb (getEbPacket s link) := looked_eb hlock
    rw [getPacketAndNeighborForLink, if_pos htx]
    by_cases hdata : link.linkType ≠ .advertisingOnly ∧ (getEbPacket s link).1 = none
    · have hnoEb := heb.none hdata.2
      obtain ⟨hfound, hnone⟩ := looked_data hlock hb hdata.1
      rw [if_pos hdata]
      refine ⟨?_, ?_⟩
      · intro p hp
        obtain ⟨n, c, hn, hadm, hcan, hc, hown⟩ := hfound p hp
        refine ⟨n, hn, htx, hcan, ⟨c, hadm, fun c' hlt m hm => ?_⟩, fun hty => absurd hty hdata.1⟩
        -- what is preferred to `c` has been looked at
        cases c' with
        | eb => exact hnoEb m hm
        | linkNeighbor =>
            cases c with
            | eb => exact absurd rfl hc
            | linkNeighbor => exact absurd hlt (lt_irrefl _)
            | stranded => exact hown rfl m hm
        | stranded => cases c <;> exact absurd hlt (by decide)
      · intro _ hnot n c hn
        by_cases hc : c = .eb
        · subst hc
          exact hnoEb n hn
        · exact hnone hnot n c hn hc
    · rw [if_neg hdata]
      refine ⟨?_, ?_⟩
      · intro p hp
        obtain ⟨n, hn, hadm, hcan⟩ := heb.found p hp
        exact ⟨n, hn, htx, hcan, ⟨.eb, hadm, fun c' hlt => absurd hlt (Nat.not_lt_zero _)⟩,
          hadm.eb_of_advertisingOnly⟩
      · intro _ hnot n c hn
        -- the link is for EBs only
        have hty : link.linkType = .advertisingOnly := not_not.mp fun hne => hdata ⟨hne, hnot⟩
        refine heb.none hnot n ⟨?_, hn.eb_of_advertisingOnly hty⟩
        rw [hty]
        exact LinkType.noConfusion
  · rw [getPacketAndNeighborForLink, if_neg htx]
    refine ⟨?_, ?_⟩
    · intro p h
      cases h
    · intro h
      exact absurd h htx

end

/-- A packet to a node without links goes out on a broadcast link. -/
theorem packet_selection_stranded :
    ∃ p, RightPacket (oneQueued 9) { emptyLink with addr := 255, linkOptions := txShared } p 9 := by
  have hfree : tschIsLocked (oneQueued 9) = false := by decide +kernel
  have hb : (oneQueued 9).queue.nBroadcast ≠ none := by decide +kernel
  obtain ⟨hfound, -⟩ := packet_selection hfree hb { emptyLink with addr := 255, linkOptions := txShared }
  have hpacket : getPacketAndNeighborForLink (oneQueued 9)
      { emptyLink with addr := 255, linkOptions := txShared } = (some 0, some 9) := by decide +kernel
  obtain ⟨n, hn, hright⟩ := hfound 0 (congrArg Prod.fst hpacket)
  rw [hpacket] at hn
  cases hn
  exact ⟨0, hright⟩

end QlTsch
