/-
# `QlTsch.Lib.Ledger` — what a store-and-forward queue owes its clients

A component accepts items, keeps each in the queue of some key, moves it to an
outbox when it has been served, and takes it out of either to finish it: first the
item's callback is run, then its block is freed.  A `Ledger` is the state of that
business, with the history it is judged by; nothing in it says who acts, or when.

`Balanced` is the account.  Every item accepted so far is in exactly one place,
in a queue, in the outbox, or taken; and what was called back and freed was taken
before, in that order.  The operations below keep it.  Each names in its
hypotheses what its caller has to know: that the item served is the head of the
queue, and that the block taken for a new item is not in use.
-/
import Mathlib.Data.Finset.Basic
import Mathlib.Data.List.Nodup
import Mathlib.Data.List.Perm.Basic
import Mathlib.Logic.Function.Basic

namespace Interleave

variable {κ β : Type}

/-! ## Lists of queues -/

section Queues
variable [DecidableEq κ]

theorem flatMap_update_of_notMem {ks : List κ} {k : κ} (f : κ → List β) (q : List β) (h : k ∉ ks) :
    ks.flatMap (Function.update f k q) = ks.flatMap f := by
  refine List.flatMap_congr ?_
  intro j hj
  have hjk : j ≠ k := fun he => h (he ▸ hj)
  exact Function.update_of_ne hjk q f

/-- What one queue loses, the queues lose together. -/
theorem flatMap_perm_update {ks : List κ} {k : κ} {f : κ → List β} {l q : List β}
    (hnd : ks.Nodup) (hk : k ∈ ks) (h : (f k).Perm (l ++ q)) :
    (ks.flatMap f).Perm (l ++ ks.flatMap (Function.update f k q)) := by
  have hsplit : ∀ g : κ → List β, (ks.flatMap g).Perm (g k ++ (ks.erase k).flatMap g) := fun g =>
    List.Perm.flatMap_right g (List.perm_cons_erase hk)
  have hrest := flatMap_update_of_notMem (k := k) f q hnd.not_mem_erase
  calc ks.flatMap f
      |>.Perm (f k ++ (ks.erase k).flatMap f) := hsplit f
    _ |>.Perm (l ++ q ++ (ks.erase k).flatMap f) := h.append_right _
    _ |>.Perm (l ++ (q ++ (ks.erase k).flatMap f)) := by rw [List.append_assoc]
    _ |>.Perm (l ++ ks.flatMap (Function.update f k q)) := by
        refine (List.Perm.append_left l ?_).symm
        have hu := hsplit (Function.update f k q)
        rwa [Function.update_self, hrest] at hu

omit [DecidableEq κ] in
theorem flatMap_of_unique {ks : List κ} {k : κ} {f : κ → List β} (hnd : ks.Nodup) (hk : k ∈ ks)
    (h : ∀ j, j ≠ k → f j = []) : ks.flatMap f = f k := by
  induction ks with
  | nil => cases hk
  | cons j ks ih =>
      obtain ⟨hj, hnd⟩ := List.nodup_cons.mp hnd
      rw [List.flatMap_cons]
      by_cases hjk : j = k
      · subst hjk
        have hrest : ks.flatMap f = [] := List.flatMap_eq_nil_iff.mpr fun i hi =>
          h i fun he => hj (he ▸ hi)
        rw [hrest, List.append_nil]
      · rw [h j hjk, List.nil_append]
        exact ih hnd ((List.mem_cons.mp hk).resolve_left (Ne.symm hjk))

end Queues

/-! ## Ledgers -/

/-- The items in the store, and what has become of the others.  An item is the
block that holds it; `uid` is its number among the accepted ones. -/
@[ext] structure Ledger (κ β : Type) where
  keys : List κ
  queue : κ → List β
  outbox : List β
  memb : Finset β
  uid : β → Nat
  accepted : Nat
  taken : List Nat
  called : List Nat
  freed : List Nat

namespace Ledger

/-- The blocks of the items in the store. -/
def live (L : Ledger κ β) : List β := L.keys.flatMap L.queue ++ L.outbox

/-- The account. -/
structure Balanced (L : Ledger κ β) : Prop where
  keys : L.keys.Nodup
  outside : ∀ k, k ∉ L.keys → L.queue k = []
  /-- no block holds two items -/
  live : L.live.Nodup
  /-- no block in the store has been freed -/
  memb : ∀ b ∈ L.live, b ∈ L.memb
  /-- every item accepted is in one place -/
  places : (L.live.map L.uid ++ L.taken).Perm (List.range L.accepted)
  called : L.called <+: L.taken
  freed : L.freed <+: L.called

/-- No item is half finished. -/
structure Settled (L : Ledger κ β) : Prop where
  called : L.called = L.taken
  freed : L.freed = L.called

/-- `b` has been taken, and nothing else is half finished. -/
structure InHand (L : Ledger κ β) (b : β) : Prop where
  fresh : b ∉ L.live
  taken : L.taken = L.called ++ [L.uid b]
  freed : L.freed = L.called

/-- `b` has been called back and is not yet freed. -/
structure CalledBack (L : Ledger κ β) (b : β) : Prop where
  fresh : b ∉ L.live
  taken : L.called = L.taken
  freed : L.called = L.freed ++ [L.uid b]

/-- `L'` is `L` after some items have been served: they left the heads of their
queues for the outbox, and all else is as it was. -/
structure Served (L L' : Ledger κ β) : Prop where
  keys : L'.keys = L.keys
  queue : ∀ k, L'.queue k <:+ L.queue k
  live : L'.live.Perm L.live
  memb : L'.memb = L.memb
  uid : L'.uid = L.uid
  accepted : L'.accepted = L.accepted
  taken : L'.taken = L.taken
  called : L'.called = L.called
  freed : L'.freed = L.freed

theorem Served.refl (L : Ledger κ β) : L.Served L :=
  ⟨rfl, fun _ => List.suffix_refl _, .refl _, rfl, rfl, rfl, rfl, rfl, rfl⟩

section Served
variable {L L' L'' : Ledger κ β} (h : L.Served L')
include h

theorem Served.trans (h' : L'.Served L'') : L.Served L'' :=
  ⟨h'.keys.trans h.keys, fun k => (h'.queue k).trans (h.queue k), h'.live.trans h.live,
    h'.memb.trans h.memb, h'.uid.trans h.uid, h'.accepted.trans h.accepted, h'.taken.trans h.taken,
    h'.called.trans h.called, h'.freed.trans h.freed⟩

theorem Served.queue_nil {k : κ} (hk : L.queue k = []) : L'.queue k = [] :=
  List.suffix_nil.mp (hk ▸ h.queue k)

theorem Served.notMem {b : β} (hb : b ∉ L.live) : b ∉ L'.live := fun hb' =>
  hb (h.live.mem_iff.mp hb')

theorem Settled.served (hs : L.Settled) : L'.Settled :=
  ⟨by rw [h.called, h.taken, hs.called], by rw [h.freed, h.called, hs.freed]⟩

theorem InHand.served {b : β} (hb : L.InHand b) : L'.InHand b :=
  ⟨h.notMem hb.fresh, by rw [h.taken, h.called, h.uid, hb.taken], by rw [h.freed, h.called, hb.freed]⟩

theorem CalledBack.served {b : β} (hb : L.CalledBack b) : L'.CalledBack b :=
  ⟨h.notMem hb.fresh, by rw [h.taken, h.called, hb.taken], by rw [h.freed, h.called, h.uid, hb.freed]⟩

end Served

/-! ## Operations -/

section Operations
variable [DecidableEq κ] [DecidableEq β]

def addKey (L : Ledger κ β) (i : Nat) (k : κ) : Ledger κ β := { L with keys := L.keys.insertIdx i k }

/-- A free block is taken from the pool. -/
def allocate (L : Ledger κ β) (b : β) : Ledger κ β := { L with memb := insert b L.memb }

/-- A block is given back unused. -/
def release (L : Ledger κ β) (b : β) : Ledger κ β := { L with memb := L.memb.erase b }

/-- A new item at the end of a queue. -/
def accept (L : Ledger κ β) (k : κ) (b : β) : Ledger κ β :=
  { L with
    queue := Function.update L.queue k (L.queue k ++ [b])
    uid := Function.update L.uid b L.accepted
    accepted := L.accepted + 1 }

/-- The head of a queue has been served. -/
def serve (L : Ledger κ β) (k : κ) (b : β) (rest : List β) : Ledger κ β :=
  { L with queue := Function.update L.queue k rest, outbox := L.outbox ++ [b] }

/-- The head of a queue is taken out unserved. -/
def takeHead (L : Ledger κ β) (k : κ) (b : β) (rest : List β) : Ledger κ β :=
  { L with queue := Function.update L.queue k rest, taken := L.taken ++ [L.uid b] }

/-- The head of the outbox is taken out. -/
def takeServed (L : Ledger κ β) (b : β) (rest : List β) : Ledger κ β :=
  { L with outbox := rest, taken := L.taken ++ [L.uid b] }

def call (L : Ledger κ β) (b : β) : Ledger κ β := { L with called := L.called ++ [L.uid b] }

def free (L : Ledger κ β) (b : β) : Ledger κ β :=
  { L with memb := L.memb.erase b, freed := L.freed ++ [L.uid b] }

end Operations

/-! ## What the account says -/

namespace Balanced

variable {L L' : Ledger κ β} (h : L.Balanced) {k : κ} {b : β} {rest : List β}
include h

theorem mem_of_queue (hq : L.queue k = b :: rest) : k ∈ L.keys := by
  by_contra hk
  rw [h.outside k hk] at hq
  cases hq

theorem mem_live (hb : b ∈ L.queue k) : b ∈ L.live := by
  have hk : k ∈ L.keys := by
    by_contra hk
    rw [h.outside k hk] at hb
    cases hb
  exact List.mem_append_left _ (List.mem_flatMap.mpr ⟨k, hk, hb⟩)

/-- The numbers of the items in the store and of those taken are all different. -/
theorem nodup_places : (L.live.map L.uid ++ L.taken).Nodup := h.places.nodup_iff.mpr List.nodup_range

theorem uid_lt (hb : b ∈ L.live) : L.uid b < L.accepted :=
  List.mem_range.mp (h.places.mem_iff.mp (List.mem_append_left _ (List.mem_map_of_mem hb)))

theorem uid_inj {c : β} (hb : b ∈ L.live) (hc : c ∈ L.live) (hu : L.uid b = L.uid c) : b = c :=
  List.inj_on_of_nodup_map h.nodup_places.of_append_left hb hc hu

theorem taken_nodup : L.taken.Nodup := h.nodup_places.of_append_right

theorem called_nodup : L.called.Nodup := h.taken_nodup.sublist h.called.sublist

theorem freed_nodup : L.freed.Nodup := h.called_nodup.sublist h.freed.sublist

/-! ## Items that leave the store -/

theorem take (hkeys : L'.keys = L.keys) (hout : ∀ j, j ∉ L.keys → L'.queue j = [])
    (hlive : L.live.Perm (b :: L'.live)) (hmemb : L'.memb = L.memb) (huid : L'.uid = L.uid)
    (hacc : L'.accepted = L.accepted) (htaken : L'.taken = L.taken ++ [L.uid b])
    (hcalled : L'.called = L.called) (hfreed : L'.freed = L.freed) : L'.Balanced := by
  refine ⟨hkeys ▸ h.keys, hkeys ▸ hout, (List.nodup_cons.mp (hlive.nodup_iff.mp h.live)).2,
    fun c hc => hmemb ▸ h.memb c (hlive.mem_iff.mpr (List.mem_cons_of_mem b hc)), ?_, ?_, ?_⟩
  · rw [huid, hacc, htaken, ← List.append_assoc]
    refine (List.perm_append_singleton _ _).trans (List.Perm.trans ?_ h.places)
    exact ((hlive.map L.uid).append_right L.taken).symm
  · rw [hcalled, htaken]
    exact h.called.trans (List.prefix_append _ _)
  · rw [hfreed, hcalled]
    exact h.freed

theorem inHand_of_take (hs : L.Settled) (hlive : L.live.Perm (b :: L'.live)) (huid : L'.uid = L.uid)
    (htaken : L'.taken = L.taken ++ [L.uid b]) (hcalled : L'.called = L.called)
    (hfreed : L'.freed = L.freed) : L'.InHand b :=
  ⟨(List.nodup_cons.mp (hlive.nodup_iff.mp h.live)).1, by rw [htaken, hcalled, huid, hs.called],
    by rw [hfreed, hcalled, hs.freed]⟩

theorem takeServed (hs : L.Settled) (hq : L.outbox = b :: rest) :
    (L.takeServed b rest).Balanced ∧ (L.takeServed b rest).InHand b := by
  have hlive : L.live.Perm (b :: (L.takeServed b rest).live) := by
    simp only [Ledger.live, Ledger.takeServed, hq]
    exact List.perm_middle
  exact ⟨h.take rfl h.outside hlive rfl rfl rfl rfl rfl rfl,
    h.inHand_of_take hs hlive rfl rfl rfl rfl⟩

theorem call (hb : L.InHand b) : (L.call b).Balanced ∧ (L.call b).CalledBack b := by
  have hcalled : L.called ++ [L.uid b] = L.taken := hb.taken.symm
  refine ⟨⟨h.keys, h.outside, h.live, h.memb, h.places, ?_, ?_⟩, ⟨hb.fresh, hcalled, ?_⟩⟩
  · exact hcalled ▸ List.prefix_refl _
  · exact h.freed.trans (List.prefix_append _ _)
  · exact congrArg (· ++ [L.uid b]) hb.freed.symm

/-! ## Blocks and keys -/

theorem addKey {i : Nat} (hi : i ≤ L.keys.length) (hk : k ∉ L.keys) : (L.addKey i k).Balanced := by
  have hkeys : (L.keys.insertIdx i k).Perm (k :: L.keys) := List.perm_insertIdx k L.keys hi
  have hlive : (L.addKey i k).live.Perm L.live := by
    refine List.Perm.append_right L.outbox ((hkeys.flatMap_right L.queue).trans ?_)
    rw [List.flatMap_cons, h.outside k hk, List.nil_append]
  refine ⟨hkeys.nodup_iff.mpr (List.nodup_cons.mpr ⟨hk, h.keys⟩), fun j hj => ?_,
    hlive.nodup_iff.mpr h.live, fun c hc => h.memb c (hlive.mem_iff.mp hc),
    ((hlive.map L.uid).append_right L.taken).trans h.places, h.called, h.freed⟩
  exact h.outside j fun hjk => hj (hkeys.mem_iff.mpr (List.mem_cons_of_mem k hjk))

section
variable [DecidableEq β]

theorem allocate (b : β) : (L.allocate b).Balanced :=
  ⟨h.keys, h.outside, h.live, fun c hc => Finset.mem_insert_of_mem (h.memb c hc), h.places, h.called,
    h.freed⟩

theorem memb_erase (hb : b ∉ L.live) : ∀ c ∈ L.live, c ∈ L.memb.erase b := fun c hc =>
  Finset.mem_erase.mpr ⟨fun he => hb (he ▸ hc), h.memb c hc⟩

theorem release (hb : b ∉ L.live) : (L.release b).Balanced :=
  ⟨h.keys, h.outside, h.live, h.memb_erase hb, h.places, h.called, h.freed⟩

theorem free (hb : L.CalledBack b) : (L.free b).Balanced ∧ (L.free b).Settled := by
  refine ⟨⟨h.keys, h.outside, h.live, h.memb_erase hb.fresh, h.places, h.called, ?_⟩,
    ⟨hb.taken, hb.freed.symm⟩⟩
  exact hb.freed ▸ List.prefix_refl _

end

/-! ## Queues -/

section
variable [DecidableEq κ]

theorem outside_update (hk : k ∈ L.keys) (q : List β) :
    ∀ j, j ∉ L.keys → Function.update L.queue k q j = [] := fun j hj => by
  have hjk : j ≠ k := fun he => hj (he ▸ hk)
  rw [Function.update_of_ne hjk]
  exact h.outside j hj

theorem queue_perm (hq : L.queue k = b :: rest) :
    (L.keys.flatMap L.queue).Perm (b :: L.keys.flatMap (Function.update L.queue k rest)) :=
  flatMap_perm_update (l := [b]) h.keys (h.mem_of_queue hq) (by rw [hq]; exact .refl _)

theorem live_serve (hq : L.queue k = b :: rest) : (L.serve k b rest).live.Perm L.live := by
  refine List.Perm.trans ?_ ((h.queue_perm hq).append_right L.outbox).symm
  simp only [Ledger.live, Ledger.serve, ← List.append_assoc]
  exact List.perm_append_singleton b _

theorem served (hq : L.queue k = b :: rest) : L.Served (L.serve k b rest) := by
  refine ⟨rfl, fun j => ?_, h.live_serve hq, rfl, rfl, rfl, rfl, rfl, rfl⟩
  by_cases hj : j = k
  · subst hj
    simp only [Ledger.serve, Function.update_self, hq]
    exact List.suffix_cons b rest
  · simp only [Ledger.serve, Function.update_of_ne hj]
    exact List.suffix_refl _

theorem serve (hq : L.queue k = b :: rest) : (L.serve k b rest).Balanced := by
  have hlive := h.live_serve hq
  exact ⟨h.keys, h.outside_update (h.mem_of_queue hq) rest, hlive.nodup_iff.mpr h.live,
    fun c hc => h.memb c (hlive.mem_iff.mp hc), ((hlive.map L.uid).append_right L.taken).trans h.places,
    h.called, h.freed⟩

theorem takeHead (hs : L.Settled) (hq : L.queue k = b :: rest) :
    (L.takeHead k b rest).Balanced ∧ (L.takeHead k b rest).InHand b := by
  have hlive : L.live.Perm (b :: (L.takeHead k b rest).live) :=
    (h.queue_perm hq).append_right L.outbox
  exact ⟨h.take rfl (h.outside_update (h.mem_of_queue hq) rest) hlive rfl rfl rfl rfl rfl rfl,
    h.inHand_of_take hs hlive rfl rfl rfl rfl⟩

theorem live_accept [DecidableEq β] (hk : k ∈ L.keys) : (L.accept k b).live.Perm (b :: L.live) := by
  have hperm := flatMap_perm_update (f := Function.update L.queue k (L.queue k ++ [b])) (l := [b])
    (q := L.queue k) h.keys hk (by rw [Function.update_self]; exact List.perm_append_comm)
  rw [Function.update_idem, Function.update_eq_self] at hperm
  exact hperm.append_right L.outbox

theorem accept [DecidableEq β] (hk : k ∈ L.keys) (hb : b ∉ L.live) (hm : b ∈ L.memb) :
    (L.accept k b).Balanced := by
  have hlive := h.live_accept (b := b) hk
  refine ⟨h.keys, h.outside_update hk _, hlive.nodup_iff.mpr (List.nodup_cons.mpr ⟨hb, h.live⟩),
    fun c hc => ?_, ?_, h.called, h.freed⟩
  · rcases List.mem_cons.mp (hlive.mem_iff.mp hc) with rfl | hc
    · exact hm
    · exact h.memb c hc
  · -- the new item has the next number, the others keep theirs
    have hsame : L.live.map (Function.update L.uid b L.accepted) = L.live.map L.uid :=
      List.map_congr_left fun c hc => by
        have hcb : c ≠ b := fun he => hb (he ▸ hc)
        exact Function.update_of_ne hcb _ _
    have hmap : ((L.accept k b).live.map (L.accept k b).uid).Perm (L.accepted :: L.live.map L.uid) := by
      refine (hlive.map _).trans ?_
      simp only [Ledger.accept, List.map_cons, Function.update_self, hsame]
      exact .refl _
    refine (hmap.append_right L.taken).trans ?_
    have hnext : (List.range (L.accepted + 1)).Perm (L.accepted :: List.range L.accepted) := by
      rw [List.range_succ]
      exact List.perm_append_singleton _ _
    exact (h.places.cons _).trans hnext.symm

end
end Balanced
end Ledger
end Interleave
