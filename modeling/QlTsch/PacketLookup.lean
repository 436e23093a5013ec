/-
# `QlTsch.PacketLookup` — the order in which a slot looks for its packet

`get_packet_and_neighbor_for_link` goes through three functions, each with its own
tests.  What they come to is one list of neighbors (`candidates`) and one test
(`waiting`): the packet is the head of the first queue in the list whose packet may
go out on the link (`getPacketAndNeighbor_chooses`).  The list:

* the EB neighbor, on a link for EBs;
* the neighbor of the link, unless the link is for EBs only;
* on a broadcast link, all others without Tx links of their own, in the order of the
  neighbor table.
-/
import QlTsch.VirtualNeighbors

namespace QlTsch

variable {cfg : Config}

/-! ## The order -/

/-- The queue of `n` has a packet that may go out on `link`; on a Shared link its
backoff has to be over. -/
def waiting (s : TschState) (link : TschLink) (n : LinkAddr) : Bool :=
  !(s.queue.neighbors n).txRingbuf.isEmpty &&
    (!link.linkOptions.shared || tschQueueBackoffExpired (s.queue.neighbors n))

/-- A neighbor that has to make do with broadcast links. -/
def TschNeighbor.withoutLinks (e : TschNeighbor) : Bool := !e.isBroadcast && e.txLinksCount == 0

def ebCandidates (cfg : Config) (link : TschLink) : List LinkAddr :=
  if link.linkType = .normal then [] else [cfg.tschEbAddress]

def ownCandidates (s : TschState) (link : TschLink) : List LinkAddr :=
  if link.addr ∈ s.queue.tschNeighbors then [link.addr] else []

def otherCandidates (cfg : Config) (s : TschState) (link : TschLink) : List LinkAddr :=
  if link.addr = cfg.tschBroadcastAddress then
    s.queue.tschNeighbors.filter fun n => (s.queue.neighbors n).withoutLinks
  else []

def candidates (cfg : Config) (s : TschState) (link : TschLink) : List LinkAddr :=
  ebCandidates cfg link ++
    if link.linkType = .advertisingOnly then [] else ownCandidates s link ++ otherCandidates cfg s link

/-- The neighbor whose packet a slot on `link` gets, if any. -/
def firstWaiting (cfg : Config) (s : TschState) (link : TschLink) : Option LinkAddr :=
  if tschIsLocked s = false ∧ link.linkOptions.tx = true then
    (candidates cfg s link).find? (waiting s link)
  else none

/-- The lookup comes to the head of the queue of `n`, or to no packet. -/
def Chooses (s : TschState) : Option LinkAddr → Option Nat × Option LinkAddr → Prop
  | some n, r => ∃ p, (s.queue.neighbors n).txRingbuf.head? = some p ∧ r = (some p, some n)
  | none, r => r.1 = none

/-! ## The three parts of the lookup -/

section
variable {s : TschState} {link : TschLink}

theorem getPacketForNbr_eq (hlock : tschIsLocked s = false) (n : LinkAddr) :
    tschQueueGetPacketForNbr s (some n) link =
      if waiting s link n then (s.queue.neighbors n).txRingbuf.head? else none := by
  simp only [tschQueueGetPacketForNbr, hlock, Bool.false_eq_true, if_false]
  cases hring : (s.queue.neighbors n).txRingbuf with
  | nil => simp only [List.head?_nil, ite_self]
  | cons p ps =>
      have hw : waiting s link n =
          (!link.linkOptions.shared || tschQueueBackoffExpired (s.queue.neighbors n)) := by
        simp only [waiting, hring, List.isEmpty_cons, Bool.not_false, Bool.true_and]
      rw [hw]
      cases link.linkOptions.shared <;> cases tschQueueBackoffExpired (s.queue.neighbors n) <;> rfl

theorem waiting_head {n : LinkAddr} (hw : waiting s link n = true) :
    ∃ p, (s.queue.neighbors n).txRingbuf.head? = some p := by
  cases hring : (s.queue.neighbors n).txRingbuf with
  | nil => simp [waiting, hring] at hw
  | cons p ps => exact ⟨p, rfl⟩

theorem chooses_one (hlock : tschIsLocked s = false) (n : LinkAddr) :
    Chooses s ([n].find? (waiting s link)) (tschQueueGetPacketForNbr s (some n) link, some n) := by
  rw [getPacketForNbr_eq hlock]
  cases hw : waiting s link n with
  | true =>
      obtain ⟨p, hp⟩ := waiting_head hw
      rw [List.find?_singleton, hw]
      exact ⟨p, hp, by rw [hp]; rfl⟩
  | false =>
      rw [List.find?_singleton, hw]
      rfl

theorem chooses_eb (h : VirtualOk cfg s) (hlock : tschIsLocked s = false) :
    Chooses s ((ebCandidates cfg link).find? (waiting s link)) (getEbPacket s link) := by
  simp only [ebCandidates, getEbPacket, h.nEb]
  cases link.linkType with
  | normal => rfl
  | advertising => exact chooses_one hlock cfg.tschEbAddress
  | advertisingOnly => exact chooses_one hlock cfg.tschEbAddress

theorem findSome_others (hlock : tschIsLocked s = false) (ns : List LinkAddr) :
    (ns.findSome? fun n =>
      if !(s.queue.neighbors n).isBroadcast && (s.queue.neighbors n).txLinksCount == 0 then
        (tschQueueGetPacketForNbr s (some n) link).map fun p => (n, p)
      else none) =
    ((ns.filter fun n => (s.queue.neighbors n).withoutLinks).find? (waiting s link)).bind fun n =>
      (s.queue.neighbors n).txRingbuf.head?.map fun p => (n, p) := by
  induction ns with
  | nil => rfl
  | cons n ns ih =>
      rw [List.findSome?_cons, ih, getPacketForNbr_eq hlock]
      cases hb : (s.queue.neighbors n).withoutLinks with
      | false =>
          rw [List.filter_cons_of_neg (by simp [hb])]
          simp only [TschNeighbor.withoutLinks] at hb
          simp only [hb, Bool.false_eq_true, if_false]
      | true =>
          rw [List.filter_cons_of_pos (by simp [hb])]
          simp only [TschNeighbor.withoutLinks] at hb
          cases hw : waiting s link n with
          | false => simp only [hb, hw, Bool.false_eq_true, if_true, if_false, Option.map_none,
              List.find?_cons]
          | true =>
              obtain ⟨p, hp⟩ := waiting_head hw
              simp only [hb, hw, hp, if_true, Option.map_some, List.find?_cons, Option.bind_some]

theorem getNbr_eq (hlock : tschIsLocked s = false) (a : LinkAddr) :
    tschQueueGetNbr s a = if a ∈ s.queue.tschNeighbors then some a else none := by
  simp only [tschQueueGetNbr, hlock, Bool.false_eq_true, if_false]

theorem chooses_data (h : VirtualOk cfg s) (hlock : tschIsLocked s = false) :
    Chooses s ((ownCandidates s link ++ otherCandidates cfg s link).find? (waiting s link))
      (getDataPacket s link) := by
  -- the neighbor of the link first
  have hown : Chooses s ((ownCandidates s link).find? (waiting s link))
      (tschQueueGetPacketForNbr s (tschQueueGetNbr s link.addr) link, tschQueueGetNbr s link.addr) := by
    simp only [ownCandidates, getNbr_eq hlock]
    split
    · exact chooses_one hlock link.addr
    · simp only [tschQueueGetPacketForNbr, hlock, Bool.false_eq_true, if_false, List.find?_nil, Chooses]
  have hbcast : tschQueueGetNbr s link.addr = s.queue.nBroadcast ↔
      link.addr = cfg.tschBroadcastAddress := by
    rw [getNbr_eq hlock, h.nBroadcast]
    constructor
    · intro hn
      split at hn
      · exact Option.some.inj hn
      · cases hn
    · rintro haddr
      rw [haddr, if_pos h.member]
  rw [List.find?_append]
  simp only [getDataPacket, hbcast, otherCandidates]
  cases hfirst : (ownCandidates s link).find? (waiting s link) with
  | some n =>
      rw [hfirst] at hown
      obtain ⟨p, hp, hr⟩ := hown
      obtain ⟨hpacket, hnbr⟩ := Prod.ext_iff.mp hr
      simp only at hpacket hnbr
      rw [Option.some_or, hpacket, hnbr, if_neg fun hnone => (by cases hnone.1)]
      exact ⟨p, hp, rfl⟩
  | none =>
      rw [hfirst] at hown
      have hnone : tschQueueGetPacketForNbr s (tschQueueGetNbr s link.addr) link = none := hown
      rw [Option.none_or, hnone]
      by_cases haddr : link.addr = cfg.tschBroadcastAddress
      · -- then the others
        simp only [haddr, and_self, if_true, tschQueueGetUnicastPacketForAny, hlock,
          Bool.false_eq_true, if_false, findSome_others hlock]
        cases hany : (s.queue.tschNeighbors.filter fun n => (s.queue.neighbors n).withoutLinks).find?
            (waiting s link) with
        | none => rfl
        | some n =>
            obtain ⟨p, hp⟩ := waiting_head (List.find?_some hany)
            simp only [Option.bind_some, hp, Option.map_some]
            exact ⟨p, hp, rfl⟩
      · simp only [haddr, and_false, if_false, List.find?_nil, Chooses]

/-! ## The lookup -/

/-- **The packet of a slot** is the head of the first queue with a packet waiting. -/
theorem getPacketAndNeighbor_chooses (h : VirtualOk cfg s) :
    Chooses s (firstWaiting cfg s link) (getPacketAndNeighborForLink s link) := by
  simp only [firstWaiting, getPacketAndNeighborForLink]
  by_cases htx : link.linkOptions.tx = true
  · rw [if_pos htx]
    by_cases hlock : tschIsLocked s = false
    · rw [if_pos (And.intro hlock htx), candidates, List.find?_append]
      have heb : Chooses s ((ebCandidates cfg link).find? (waiting s link)) (getEbPacket s link) :=
        chooses_eb h hlock
      cases hfirst : (ebCandidates cfg link).find? (waiting s link) with
      | some n =>
          rw [hfirst] at heb
          obtain ⟨p, hp, hr⟩ := heb
          rw [Option.some_or, hr, if_neg fun hnone => (by cases hnone.2)]
          exact ⟨p, hp, rfl⟩
      | none =>
          rw [hfirst] at heb
          have hnone : (getEbPacket s link).1 = none := heb
          rw [Option.none_or]
          by_cases hty : link.linkType = .advertisingOnly
          · rw [if_pos hty, if_neg fun hne => hne.1 hty]
            exact hnone
          · rw [if_neg hty, if_pos (And.intro hty hnone)]
            exact chooses_data h hlock
    · rw [if_neg fun hfree => hlock hfree.1]
      cases hp : (getPacketAndNeighborForLink s link).1 with
      | none =>
          simp only [getPacketAndNeighborForLink, if_pos htx] at hp
          exact hp
      | some p => exact absurd (getPacketAndNeighbor_some hp).1 hlock
  · rw [if_neg htx, if_neg fun hyes => htx hyes.2]
    rfl

/-- A packet of `n` is found if `n` is the first with one waiting. -/
theorem getPacketAndNeighbor_some_iff (h : VirtualOk cfg s) {n : LinkAddr} :
    (∃ p, getPacketAndNeighborForLink s link = (some p, some n)) ↔
      firstWaiting cfg s link = some n := by
  have hch : Chooses s (firstWaiting cfg s link) (getPacketAndNeighborForLink s link) :=
    getPacketAndNeighbor_chooses h
  cases hfirst : firstWaiting cfg s link with
  | none =>
      rw [hfirst] at hch
      have hnone : (getPacketAndNeighborForLink s link).1 = none := hch
      refine iff_of_false ?_ fun hc => (by cases hc)
      rintro ⟨p, hp⟩
      rw [hp] at hnone
      cases hnone
  | some m =>
      rw [hfirst] at hch
      obtain ⟨p, -, hr⟩ := hch
      rw [hr]
      constructor
      · rintro ⟨q, heq⟩
        exact (Prod.ext_iff.mp heq).2
      · intro hm
        exact ⟨p, by rw [hm]⟩

/-- Of the nodes in the neighbor table, the candidates are the neighbor of the link and, on
a broadcast link, those without Tx links. -/
theorem mem_candidates (h : VirtualOk cfg s) {n : LinkAddr} (hvirt : cfg.isVirtual n = false)
    (hn : n ∈ s.queue.tschNeighbors) :
    n ∈ candidates cfg s link ↔ link.linkType ≠ .advertisingOnly ∧
      (link.addr = n ∨
        link.addr = cfg.tschBroadcastAddress ∧ (s.queue.neighbors n).txLinksCount = 0) := by
  have heb : n ∉ ebCandidates cfg link := by
    simp only [ebCandidates]
    split
    · exact List.not_mem_nil
    · rw [List.mem_singleton]
      rintro rfl
      exact h.not_eb hvirt h.nEb
  have hown : n ∈ ownCandidates s link ↔ link.addr = n := by
    simp only [ownCandidates]
    split
    · rw [List.mem_singleton]
      exact eq_comm
    · rename_i hno
      refine iff_of_false List.not_mem_nil ?_
      rintro rfl
      exact hno hn
  have hothers : n ∈ otherCandidates cfg s link ↔
      link.addr = cfg.tschBroadcastAddress ∧ (s.queue.neighbors n).txLinksCount = 0 := by
    have hb : (s.queue.neighbors n).isBroadcast = false := (h.isBroadcast n).trans hvirt
    simp only [otherCandidates]
    split
    · rename_i haddr
      simp [List.mem_filter, TschNeighbor.withoutLinks, hn, hb, haddr]
    · rename_i haddr
      exact iff_of_false List.not_mem_nil fun hc => haddr hc.1
  simp only [candidates, List.mem_append, heb, false_or]
  split
  · rename_i hty
    exact iff_of_false List.not_mem_nil fun hc => hc.1 hty
  · rename_i hty
    rw [List.mem_append, hown, hothers]
    exact (and_iff_right hty).symm

end

end QlTsch
