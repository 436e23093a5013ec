/-
# `QlTsch.QueueRules` — queueing packets and serving the dequeued ring

Rules for `tsch_queue_add_packet` and for the consumer of the dequeued ring, the calls
that take no packet out of a neighbor's queue.  Under any interrupts they keep the
account (`PacketsHeld`), and each of their actions leaves the queued packets alone or
puts one new packet at the end of one queue (`PacketAct`).
-/
import QlTsch.Lib.Guarantee
import QlTsch.TransmitAttempts

namespace QlTsch

open Interleave Interleave.Prog

variable {cfg : Config}

/-- What an action does to the packets in the queues.  `ok` is asked of the number of
attempts that a new packet is given. -/
inductive PacketAct (ok : Nat → Prop) (s s' : TschState) : Prop
  | keep (queue : s'.ledger.queue = s.ledger.queue)
      (packets : ∀ n, ∀ p ∈ s.ledger.queue n, s'.kept.packets p = s.kept.packets p)
      (accepted : s'.ledger.accepted = s.ledger.accepted)
  | accept (n : LinkAddr) (p : Nat)
      (queue : s'.ledger.queue = Function.update s.ledger.queue n (s.ledger.queue n ++ [p]))
      (key : n ∈ s.ledger.keys) (fresh : ∀ m, p ∉ s.ledger.queue m)
      (packets : ∀ m, ∀ q ∈ s.ledger.queue m, s'.kept.packets q = s.kept.packets q)
      (uid : (s'.kept.packets p).uid = s.ledger.accepted)
      (transmissions : (s'.kept.packets p).transmissions = 0)
      (maxTransmissions : ok (s'.kept.packets p).maxTransmissions)
      (accepted : s'.ledger.accepted = s.ledger.accepted + 1)

theorem PacketAct.of_queue {ok : Nat → Prop} {s s' : TschState}
    (hn : s'.queue.neighbors = s.queue.neighbors) (hp : s'.queue.packets = s.queue.packets)
    (ha : s'.ghost.accepted = s.ghost.accepted) : PacketAct ok s s' := by
  refine .keep ?_ (fun n p _ => ?_) ha
  · funext n
    show (s'.queue.neighbors n).txRingbuf = _
    rw [hn]
    rfl
  · show ({ s'.queue.packets p with framePending := false } : TschPacket) = _
    rw [hp]
    rfl

theorem PacketAct.refl {ok : Nat → Prop} (s : TschState) : PacketAct ok s s := .of_queue rfl rfl rfl

/-- `packetCtx` without its side condition. -/
def queueCtx (cfg : Config) : Ctx TschState where
  irq := (packetCtx cfg).irq
  cond _ _ := True
  inv := PacketsHeld
  live := False
  stable := (packetCtx cfg).stable

theorem lockCtx_queue : LockCtx cfg (queueCtx cfg) := by
  have h : LockCtx cfg (packetCtx cfg) := lockCtx_packet
  exact ⟨h.irq, h.flags, h.live, h.request, h.lock, h.unrequest⟩

section
variable {ok : Nat → Prop}

theorem guar_tschGetLock : tschGetLock.Guar (PacketAct ok) :=
  (LockClient.tschGetLock (G := PacketAct ok)).guar (fun _ _ h => h) .refl
    (fun _ _ => .of_queue rfl rfl rfl) fun _ _ => .of_queue rfl rfl rfl

/-- A block that holds no queued packet is left alone by the slot operation. -/
theorem packets_rely {p : Nat} {s s' : TschState} (hi : PacketsHeld s) (hp : p ∉ s.ledger.live)
    (hr : (queueCtx cfg).rely s s') : s'.kept.packets p = s.kept.packets p := by
  have hR := (queueCtx cfg).rely_lift
    (R := fun a b => p ∉ a.ledger.live → b.kept.packets p = a.kept.packets p ∧ p ∉ b.ledger.live)
    (fun _ h => ⟨rfl, h⟩) ?_ ?_ hi hr
  · exact (hR hp).1
  · intro a b c hab hbc ha
    exact ⟨(hbc (hab ha).2).1.trans (hab ha).1, (hbc (hab ha).2).2⟩
  · rintro a b hia ⟨i, hs⟩ ha
    have hia : PacketsHeld a := hia
    refine ⟨?_, ((hia.sent hs).1.served hia.balanced).1.notMem ha⟩
    have heffect := hia.slotEffect hs
    cases he : slotEvent cfg i a with
    | quiet =>
        rw [he] at heffect
        exact congrFun heffect.1 p
    | reception l f =>
        rw [he] at heffect
        exact congrFun heffect.1 p
    | attempt n q l st =>
        rw [he] at heffect
        obtain ⟨rest, hq, hpackets, -⟩ := heffect
        have hqp : p ≠ q := by
          rintro rfl
          exact ha (hia.balanced.mem_live (by rw [hq]; exact List.mem_cons_self))
        rw [hpackets, Function.update_of_ne hqp]

/-! ## The consumer -/

theorem wpg_finishPacket {s : TschState} {p : Nat} (hi : PacketsHeld s) (hf : Free s)
    (hp : s.ledger.InHand p) :
    Wpg (queueCtx cfg) (PacketAct ok) (finishPacket p) (fun _ t => Between t) s := by
  refine Wpg.bind (Wpg.modify hi fun t ht hit => ?_)
  have hft := hf.rely hi ht
  obtain ⟨hbal, hcalled⟩ := hit.balanced.call (hp.served (served_rely hi ht))
  have hit' : PacketsHeld (t.callSentCallback p) := hit.act (fun _ _ _ => rfl) rfl rfl hbal
  refine ⟨hit', .of_queue rfl rfl rfl, Wpg.modify hit' fun u hu hiu => ?_⟩
  have hfu : Free u := Free.rely hit' hu hft
  obtain ⟨hbal, hsettled⟩ := hiu.balanced.free (hcalled.served (served_rely hit' hu))
  exact ⟨hiu.act (fun _ _ _ => rfl) rfl rfl hbal, .of_queue rfl rfl rfl, hfu, hsettled⟩

theorem wpg_takeDequeued {s : TschState} (hi : PacketsHeld s) (hb : Between s) :
    Wpg (queueCtx cfg) (PacketAct ok) takeDequeued (fun _ t => Between t) s := by
  refine Wpg.bind (Wpg.update hi fun t ht hit => ?_)
  have hbt := hb.rely hi ht
  cases hq : t.slot.dequeuedRingbuf with
  | nil => exact ⟨hit, .refl t, hbt⟩
  | cons p rest =>
      obtain ⟨hbal, hhand⟩ := hit.balanced.takeServed hbt.settled hq
      have hiu : PacketsHeld ({ t with slot := { t.slot with dequeuedRingbuf := rest } }.noteTaken
          (some p)) := hit.act (fun _ _ _ => rfl) rfl rfl hbal
      exact ⟨hiu, .of_queue rfl rfl rfl, wpg_finishPacket hiu hbt.free hhand⟩

/-! ## New neighbors -/

theorem wpg_release {s : TschState} (hi : PacketsHeld s) (hl : s.lock = ⟨true, false⟩)
    (hs : s.ledger.Settled) :
    Wpg (queueCtx cfg) (PacketAct ok) tschReleaseLock
      (fun _ t => Between t ∧ s.ledger.Served t.ledger) s := by
  refine Wpg.modify hi ?_
  intro t ht hit
  have hlt : t.lock = ⟨true, false⟩ := (lock_of_owned (lockCtx_queue.owned_rely hi ht)).trans hl
  have hserved := served_rely hi ht
  refine ⟨hit.update (fun _ _ _ => rfl) rfl ⟨hit.flags.inSlot, fun _ => rfl⟩ hit.balanced,
    .of_queue rfl rfl rfl, ⟨?_, ?_⟩, hserved⟩
  · simp only [Free, TschState.setLocked, hlt]
  · exact .served hserved hs

theorem wpg_tschQueueAddNbr (a : LinkAddr) {s : TschState} (hi : PacketsHeld s) (hb : Between s) :
    Wpg (queueCtx cfg) (PacketAct ok) (tschQueueAddNbr cfg a)
      (fun r t => Between t ∧ ∀ n, r = some n → n ∈ t.ledger.keys) s := by
  refine Wpg.bind (Wpg.read .refl hi fun t ht hit => ?_)
  have hbt := hb.rely hi ht
  have hfree : t.lock.tschLocked = false := by rw [hbt.free]
  cases hn : tschQueueGetNbr t a with
  | some n => exact ⟨hbt, fun m hm => Option.some.inj hm ▸ (getNbr_some hn).2.1 ▸ (getNbr_some hn).2.2⟩
  | none =>
      have hnew : a ∉ t.ledger.keys := fun hmem => by
        have hfound : tschQueueGetNbr t a = some a := by
          simp only [tschQueueGetNbr, tschIsLocked, hfree]
          exact if_pos hmem
        rw [hn] at hfound
        cases hfound
      refine Wpg.call (.of_guar (wp_tschGetLock_free lockCtx_queue hit hfree) guar_tschGetLock) hit
        fun got u hiu hgot => ?_
      obtain ⟨rfl, huo⟩ := hgot
      have hlock : u.lock = ⟨true, false⟩ := congrArg Owned.lock huo
      have hkeys : u.ledger.keys = t.ledger.keys := congrArg (fun o : Owned => o.view.nbrs) huo
      have hsettled : u.ledger.Settled := by
        have htaken : u.ledger.taken = t.ledger.taken := congrArg Owned.taken huo
        have hcalled : u.ledger.called = t.ledger.called := congrArg Owned.called huo
        have hfreed : u.ledger.freed = t.ledger.freed := congrArg Owned.freed huo
        exact ⟨by rw [hcalled, htaken, hbt.settled.called], by rw [hfreed, hcalled, hbt.settled.freed]⟩
      -- under the lock: a new entry, whose queue is empty
      refine Wpg.bind (Wpg.update hiu fun v hv hiv => ?_)
      have hserved := served_rely hiu hv
      have hvlock : v.lock = ⟨true, false⟩ := (lock_of_owned (lockCtx_queue.owned_rely hiu hv)).trans hlock
      have hvnew : a ∉ v.ledger.keys := by
        rw [hserved.keys, hkeys]
        exact hnew
      have hvs : v.ledger.Settled := .served hserved hsettled
      cases hadd : cfg.nbrTableAdd v.queue.tschNeighbors a with
      | none =>
          have hnone : v.nbrTableAddLladdr cfg a = (none, v) := by
            simp only [TschState.nbrTableAddLladdr, hadd]
            exact if_neg hvnew
          rw [hnone]
          refine ⟨hiv, .refl v, Wpg.call (wpg_release hiv hvlock hvs) hiv fun _ w _ hw => ?_⟩
          exact ⟨hw.1, fun m hm => by cases hm⟩
      | some i =>
          have hsome : v.nbrTableAddLladdr cfg a = (some a, { v with queue := { v.queue with
              tschNeighbors := v.queue.tschNeighbors.insertIdx i a } }) := by
            simp only [TschState.nbrTableAddLladdr, hadd]
            exact if_neg hvnew
          rw [hsome]
          have hbal : (v.ledger.addKey i a).Balanced := hiv.balanced.addKey (cfg.nbrTableAdd_le hadd) hvnew
          have hiv' : PacketsHeld { v with queue := { v.queue with
              tschNeighbors := v.queue.tschNeighbors.insertIdx i a } } :=
            hiv.act (fun _ _ _ => rfl) rfl rfl hbal
          refine ⟨hiv', .of_queue rfl rfl rfl, Wpg.bind (Wpg.modify hiv' fun w hw hiw => ?_)⟩
          have hserved' := served_rely hiv' hw
          have hempty : (w.queue.neighbors a).txRingbuf = [] :=
            hserved'.queue_nil (hiv.balanced.outside a hvnew)
          have hledger : (w.modifyNeighbor a fun _ => newNeighbor cfg a).ledger = w.ledger :=
            ledger_neighbor hempty.symm
          have hqueue : ∀ n, ((w.modifyNeighbor a fun _ => newNeighbor cfg a).queue.neighbors n).txRingbuf =
              (w.queue.neighbors n).txRingbuf := fun n =>
            congrArg (fun L : Ledger LinkAddr Nat => L.queue n) hledger
          have hiw' := hiw.act (fun _ n _ => congrArg List.head? (hqueue n)) rfl rfl
            (hledger ▸ hiw.balanced)
          have hwlock : w.lock = ⟨true, false⟩ :=
            (lock_of_owned (lockCtx_queue.owned_rely hiv' hw)).trans hvlock
          have hws : w.ledger.Settled := .served hserved' ⟨hvs.called, hvs.freed⟩
          refine ⟨hiw', .keep (congrArg Ledger.queue hledger) (fun _ _ _ => rfl) rfl,
            Wpg.call (wpg_release hiw' hwlock (hledger ▸ hws)) hiw' fun _ x _ hx => ?_⟩
          refine ⟨hx.1, ?_⟩
          intro m hm
          rw [hx.2.keys, hledger, hserved'.keys, ← Option.some.inj hm]
          exact (List.mem_insertIdx (cfg.nbrTableAdd_le hadd)).mpr (.inl rfl)

/-! ## New packets -/

/-- A block for a packet that is not yet queued. -/
structure Prepared (n : LinkAddr) (p : Nat) (s : TschState) : Prop where
  between : Between s
  key : n ∈ s.ledger.keys
  fresh : p ∉ s.ledger.live
  memb : p ∈ s.ledger.memb

theorem Prepared.rely {n : LinkAddr} {p : Nat} {s s' : TschState} (h : Prepared n p s)
    (hi : PacketsHeld s) (hr : (queueCtx cfg).rely s s') : Prepared n p s' := by
  have hserved := served_rely hi hr
  exact ⟨h.between.rely hi hr, hserved.keys ▸ h.key, hserved.notMem h.fresh, hserved.memb ▸ h.memb⟩

theorem Prepared.fill {n : LinkAddr} {p : Nat} {s : TschState} {f : TschPacket → TschPacket}
    (h : Prepared n p s) (hf : (f (s.queue.packets p)).uid = (s.queue.packets p).uid) :
    Prepared n p (s.modifyPacket p f) := by
  have hledger := ledger_packet (s := s) hf
  exact ⟨⟨h.between.free, hledger ▸ h.between.settled⟩, hledger ▸ h.key, hledger ▸ h.fresh,
    hledger ▸ h.memb⟩

theorem modifyPacket_kept {p q : Nat} {f : TschPacket → TschPacket} {s : TschState} (hq : q ≠ p) :
    (s.modifyPacket p f).kept.packets q = s.kept.packets q := by
  show ({ (s.modifyPacket p f).queue.packets q with framePending := false } : TschPacket) = _
  simp only [TschState.modifyPacket, QueueVars.modifyPacket, Function.update_of_ne hq]
  rfl

theorem putPacket_ledger (n : LinkAddr) (p : Nat) (s : TschState) :
    (s.putPacket n p).ledger = s.ledger.accept n p := by
  have hqueue := congrArg Ledger.queue (ledger_modifyNeighbor n
    (fun e => { e with txRingbuf := e.txRingbuf ++ [p] }) s)
  have huid := congrArg Ledger.uid (ledger_modifyPacket p (fun e => { e with uid := s.ghost.accepted }) s)
  exact Ledger.ext rfl hqueue rfl rfl huid rfl rfl rfl rfl

theorem putPacket_keepsHead {s : TschState} (hi : PacketsHeld s) (n : LinkAddr) (p : Nat) :
    KeepsHead s (s.putPacket n p) := by
  intro htx m hm
  obtain ⟨k, q, hk, -, hhead⟩ := hi.head htx
  cases hk.symm.trans hm
  have hqueue : ((s.putPacket n p).queue.neighbors m).txRingbuf =
      Function.update s.ledger.queue n (s.ledger.queue n ++ [p]) m :=
    congrArg (fun L : Ledger LinkAddr Nat => L.queue m) (putPacket_ledger n p s)
  rw [hqueue]
  by_cases hmn : m = n
  · subst hmn
    obtain ⟨rest, hring⟩ := List.head?_eq_some_iff.mp hhead
    have hring' : s.ledger.queue m = q :: rest := hring
    rw [Function.update_self, hring', hring]
    rfl
  · rw [Function.update_of_ne hmn]
    rfl

/-- A packet as `tsch_queue_add_packet` fills it in. -/
def newPacket (maxTransmissions sent ptr : Nat) (e : TschPacket) : TschPacket :=
  { e with
    hasQueuebuf := true, sent := sent, ptr := ptr, ret := .deferred
    transmissions := 0, maxTransmissions := maxTransmissions
    framePending := false }

theorem wpg_enqueue {n : LinkAddr} {p max : Nat} (hmax : ok max) (sent ptr : Nat) (b : Bool)
    {s : TschState} (hi : PacketsHeld s) (hp : Prepared n p s) :
    Wpg (queueCtx cfg) (PacketAct ok) (do
      if b then
        Prog.modify (TschState.modifyPacket p (newPacket max sent ptr))
        Prog.modify (TschState.putPacket n p)
        pure (some p)
      else
        Prog.modify (TschState.freePacketBlock p)
        pure none) (fun _ t => Between t) s := by
  have hqueued : ∀ {u : TschState}, PacketsHeld u → p ∉ u.ledger.live → ∀ m, p ∉ u.ledger.queue m :=
    fun hiu hfresh m hm => hfresh (hiu.balanced.mem_live hm)
  cases b with
  | true =>
      refine Wpg.bind (Wpg.modify hi fun t ht hit => ?_)
      have hpt := hp.rely hi ht
      have hfill : (t.modifyPacket p (newPacket max sent ptr)).ledger = t.ledger := ledger_packet rfl
      have hiu : PacketsHeld (t.modifyPacket p (newPacket max sent ptr)) :=
        hit.act (fun _ _ _ => rfl) rfl rfl (hfill ▸ hit.balanced)
      have hpu : Prepared n p (t.modifyPacket p (newPacket max sent ptr)) := hpt.fill rfl
      refine ⟨hiu, .keep (congrArg Ledger.queue hfill) (fun m q hq => modifyPacket_kept ?_) rfl,
        Wpg.bind (Wpg.modify hiu fun v hv hiv => ?_)⟩
      · rintro rfl
        exact hqueued hit hpt.fresh m hq
      have hpv := hpu.rely hiu hv
      have hput := putPacket_ledger n p v
      have hbal := hiv.balanced.accept hpv.key hpv.fresh hpv.memb
      -- the block is still as it was filled in
      have hsame : v.kept.packets p = { newPacket max sent ptr (t.queue.packets p) with
          framePending := false } := by
        rw [packets_rely hiu hpu.fresh hv]
        simp only [TschState.kept, TschState.modifyPacket, QueueVars.modifyPacket, Function.update_self]
      have hnew : (v.putPacket n p).kept.packets p =
          { v.kept.packets p with uid := v.ghost.accepted } := by
        simp only [TschState.kept, TschState.putPacket, TschState.modifyNeighbor,
          TschState.modifyPacket, QueueVars.modifyNeighbor, QueueVars.modifyPacket, Function.update_self]
      refine ⟨hiv.act (putPacket_keepsHead hiv n p) rfl rfl (hput ▸ hbal),
        .accept n p (congrArg Ledger.queue hput) hpv.key (hqueued hiv hpv.fresh) (fun m q hq => ?_)
          ?_ ?_ ?_ rfl, hpv.between.free, hput ▸ ⟨hpv.between.settled.called, hpv.between.settled.freed⟩⟩
      · have hqp : q ≠ p := by
          rintro rfl
          exact hqueued hiv hpv.fresh m hq
        have hother : (v.modifyPacket p fun e => { e with uid := v.ghost.accepted }).kept.packets q =
            v.kept.packets q := modifyPacket_kept hqp
        exact hother
      · rw [hnew]
        rfl
      · rw [hnew, hsame]
        rfl
      · rw [hnew, hsame]
        exact hmax
  | false =>
      refine Wpg.bind (Wpg.modify hi fun t ht hit => ?_)
      have hpt := hp.rely hi ht
      exact ⟨hit.act (fun _ _ _ => rfl) rfl rfl (hit.balanced.release hpt.fresh), .of_queue rfl rfl rfl,
        hpt.between.free, ⟨hpt.between.settled.called, hpt.between.settled.freed⟩⟩

theorem wpg_tschQueueAddPacket (a : LinkAddr) {max : Nat} (hmax : ok max) (sent ptr : Nat) (b : Bool)
    {s : TschState} (hi : PacketsHeld s) (hb : Between s) :
    Wpg (queueCtx cfg) (PacketAct ok) (tschQueueAddPacket cfg a max sent ptr b)
      (fun _ t => Between t) s := by
  rw [tschQueueAddPacket, if_neg (by decide)]
  refine Wpg.bind (Wpg.read .refl hi fun t ht hit => ?_)
  have hbt := hb.rely hi ht
  split
  · exact hbt
  · refine Wpg.call (wpg_tschQueueAddNbr a hit hbt) hit ?_
    intro r u hiu hu
    cases r with
    | none => exact hu.1
    | some n =>
        refine Wpg.bind (Wpg.read .refl hiu fun v hv hiv => ?_)
        have hbv := hu.1.rely hiu hv
        have hkey : n ∈ v.ledger.keys := (served_rely hiu hv).keys ▸ hu.2 n rfl
        split
        · refine Wpg.bind (Wpg.update hiv fun w hw hiw => ?_)
          have hbw := hbv.rely hiv hw
          simp only [TschState.allocPacket]
          cases hp : cfg.memb.pick w.queue.packetMemb cfg.queuebufNum with
          | none => exact ⟨hiw, .refl w, hbw⟩
          | some p =>
              have hfresh : p ∉ w.ledger.live := fun hmem =>
                cfg.memb.pick_fresh hp (hiw.balanced.memb p hmem)
              have hix : PacketsHeld { w with queue := { w.queue with
                  packetMemb := insert p w.queue.packetMemb } } :=
                hiw.act (fun _ _ _ => rfl) rfl rfl (hiw.balanced.allocate p)
              refine ⟨hix, .of_queue rfl rfl rfl, wpg_enqueue hmax sent ptr b hix ?_⟩
              exact ⟨⟨hbw.free, ⟨hbw.settled.called, hbw.settled.freed⟩⟩,
                (served_rely hiv hw).keys ▸ hkey, hfresh, Finset.mem_insert_self p _⟩
        · exact hbv

end

end QlTsch
