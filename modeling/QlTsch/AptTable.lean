/-
# `QlTsch.AptTable` — the APT table and the receptions it counts

`tsch_rx_slot` counts a frame received through a link of slotframe 1 at the index
of the link's timeslot, and `reset_apt_table` clears the table.  The entries are
8 bits wide.

* Every index is inside the table: the links of slotframe 1 have timeslots below
  its length.  This holds of *every* link block at every moment, installed or not,
  because `tsch_schedule_add_link` tests the timeslot before it writes a block and
  nothing else writes one; so it also holds of a link that the slot operation
  still uses after its removal.
* Entry `t` is the number of frames received through slot `t` since the last reset,
  modulo 256.

So the entries order the slots by use as long as no slot has received more than 255
frames since the reset (`apt_orders_slots`).  The frame after that sets the entry
back to 0 (`apt_wraps`).
-/
import Mathlib.Order.OrderDual
import QlTsch.Lib.History
import QlTsch.NodeCalls
import QlTsch.SlotEvents

namespace QlTsch

open Interleave Interleave.Prog

variable {cfg : Config}

/-! ## Receptions and resets -/

inductive AptEvent where
  /-- a frame was received through a link of slotframe 1 at this timeslot -/
  | received (timeslot : Nat)
  | reset
deriving DecidableEq, Repr

/-- The reception of an interrupt, if it was through slotframe 1. -/
def aptEvents (cfg : Config) (i : SlotInput) (s : TschState) : List AptEvent :=
  match slotEvent cfg i s with
  | .reception l _ => if (s.link l).slotframeHandle = 1 then [.received (s.link l).timeslot] else []
  | .quiet | .attempt _ _ _ _ => []

/-- What happens between two actions of the schedule programs: an interrupt, a reset, or
the consumer of the input ring takes some frames. -/
inductive AptStep (cfg : Config) : List AptEvent → TschState → TschState → Prop
  | slot {i : SlotInput} {s s' : TschState} :
      slotStep cfg i s = some s' → AptStep cfg (aptEvents cfg i s) s s'
  | reset (s : TschState) : AptStep cfg [.reset] s s.resetAptTable
  | takeInput (n : Nat) (s : TschState) : AptStep cfg [] s
      { s with slot := { s.slot with inputRingbuf := s.slot.inputRingbuf.drop n } }

/-- Frames received through slot `t`, counted on from `n`. -/
def countReceived (t : Nat) : List AptEvent → Nat → Nat
  | [], n => n
  | .received u :: h, n => countReceived t h (if u = t then n + 1 else n)
  | .reset :: h, _ => countReceived t h 0

/-- Frames received through slot `t` since the last reset. -/
def receivedSinceReset (t : Nat) (h : List AptEvent) : Nat := countReceived t h 0

theorem countReceived_append (t : Nat) (h h' : List AptEvent) (n : Nat) :
    countReceived t (h ++ h') n = countReceived t h' (countReceived t h n) := by
  induction h generalizing n with
  | nil => rfl
  | cons e h ih =>
      cases e with
      | received u => exact ih _
      | reset => exact ih _

theorem receivedSinceReset_received (t u : Nat) (h : List AptEvent) :
    receivedSinceReset t (h ++ [.received u]) =
      if u = t then receivedSinceReset t h + 1 else receivedSinceReset t h :=
  countReceived_append t h _ 0

theorem receivedSinceReset_reset (t : Nat) (h : List AptEvent) :
    receivedSinceReset t (h ++ [.reset]) = 0 :=
  countReceived_append t h _ 0

/-! ## Timeslots of slotframe 1 -/

/-- In every block: slotframes with handle 1 have the length of the table, and links with
this slotframe handle a timeslot inside it. -/
structure UnicastInRange (v : ScheduleVars) : Prop where
  size : ∀ b, (v.slotframes b).handle = 1 → (v.slotframes b).size ≤ unicastSlotframeLength
  timeslot : ∀ p, (v.links p).slotframeHandle = 1 → (v.links p).timeslot < unicastSlotframeLength

/-- Handles, sizes and links are as before. -/
structure KeepsBlocks (s s' : TschState) : Prop where
  links : s'.sched.links = s.sched.links
  handle : ∀ b, (s'.slotframe b).handle = (s.slotframe b).handle
  size : ∀ b, (s'.slotframe b).size = (s.slotframe b).size

theorem KeepsBlocks.of_sched {s s' : TschState} (h : s'.sched = s.sched) : KeepsBlocks s s' := by
  refine ⟨by rw [h], fun b => ?_, fun b => ?_⟩
  · show (s'.sched.slotframes b).handle = _
    rw [h]
    rfl
  · show (s'.sched.slotframes b).size = _
    rw [h]
    rfl

theorem KeepsBlocks.of_linksList {s s' : TschState} {b : Nat} {ls : List Nat}
    (h : s'.sched = s.sched.setSlotframe b { s.slotframe b with linksList := ls }) :
    KeepsBlocks s s' := by
  have hblock : ∀ {β : Type} (g : TschSlotframe → β), (∀ e, g { e with linksList := ls } = g e) →
      ∀ c, g (s'.sched.slotframes c) = g (s.sched.slotframes c) := by
    intro β g hg c
    rw [h]
    by_cases hc : c = b
    · subst hc
      rw [ScheduleVars.setSlotframe_self]
      exact hg _
    · rw [ScheduleVars.setSlotframe_of_ne hc]
  exact ⟨by rw [h]; rfl, hblock _ fun _ => rfl, hblock _ fun _ => rfl⟩

theorem UnicastInRange.keeps {s s' : TschState} (h : UnicastInRange s.sched)
    (hk : KeepsBlocks s s') : UnicastInRange s'.sched := by
  refine ⟨fun b hb => ?_, fun p hp => ?_⟩
  · have hs : (s'.sched.slotframes b).size = (s.sched.slotframes b).size := hk.size b
    rw [hs]
    exact h.size b ((hk.handle b).symm.trans hb)
  · rw [hk.links] at hp ⊢
    exact h.timeslot p hp

variable (cfg) in
theorem schedWrites_keepsBlocks : SchedWrites cfg KeepsBlocks where
  refl _ := .of_sched rfl
  nbrTableAdd a s := by
    refine .of_sched ?_
    simp only [TschState.nbrTableAddLladdr]
    split
    · rfl
    · split <;> rfl
  newNeighbor _ _ := .of_sched rfl
  countTxLink _ _ _ _ := .of_sched rfl
  testCurrentLink p s := by
    refine .of_sched ?_
    simp only [TschState.testCurrentLink]
    split <;> rfl
  clearCurrentLink _ _ := .of_sched rfl
  allocLink s := by
    simp only [TschState.allocLink]
    split <;> exact ⟨rfl, fun _ => rfl, fun _ => rfl⟩
  listAddLink _ _ _ := .of_linksList rfl
  listRemoveLink _ _ _ := .of_linksList rfl
  freeLink _ _ := ⟨rfl, fun _ => rfl, fun _ => rfl⟩
  allocSlotframe s := by
    simp only [TschState.allocSlotframe]
    split <;> exact ⟨rfl, fun _ => rfl, fun _ => rfl⟩
  listAddSlotframe _ _ := ⟨rfl, fun _ => rfl, fun _ => rfl⟩
  freeSlotframe _ _ := ⟨rfl, fun _ => rfl, fun _ => rfl⟩
  listRemoveSlotframe _ _ := ⟨rfl, fun _ => rfl, fun _ => rfl⟩

/-! ## The schedule programs keep the timeslots in range -/

/-- The interrupts, and the invariant of every state. -/
def aptCtx (cfg : Config) : Ctx TschState where
  irq s s' := ∃ es, AptStep cfg es s s'
  cond _ _ := True
  inv s := UnicastInRange s.sched
  live := False
  stable := by
    rintro s s' h ⟨es, hs⟩
    cases hs with
    | slot hs =>
        rw [sched_of_owned (slotStep_owned hs)]
        exact h
    | reset => exact h
    | takeInput => exact h

theorem irq_keepsBlocks {s s' : TschState} (h : (aptCtx cfg).irq s s') : KeepsBlocks s s' := by
  obtain ⟨es, hs⟩ := h
  cases hs with
  | slot hs => exact .of_sched (sched_of_owned (slotStep_owned hs))
  | reset => exact .of_sched rfl
  | takeInput => exact .of_sched rfl

/-- From every state in range, the program stays in range. -/
def StaysInRange {α : Type} (cfg : Config) (p : Prog TschState α) : Prop :=
  ∀ s, UnicastInRange s.sched → Wp (aptCtx cfg) p (fun _ _ => True) s

theorem StaysInRange.bind {α β : Type} {p : Prog TschState α} {f : α → Prog TschState β}
    (hp : StaysInRange cfg p) (hf : ∀ a, StaysInRange cfg (f a)) : StaysInRange cfg (p >>= f) :=
  fun s hs => Wp.call (hp s hs) hs fun a t ht _ => hf a t ht

theorem StaysInRange.of_keeps {α : Type} {p : Prog TschState α} (hp : p.Guar KeepsBlocks) :
    StaysInRange cfg p :=
  fun _ hs => Wp.of_guar_inv (C := aptCtx cfg) id
    (fun s _ (h : UnicastInRange s.sched) hg _ => h.keeps hg) hp hs

theorem guar_of_client {α : Type} {p : Prog TschState α} {G : TschState → TschState → Prop}
    (hG : ∀ s s', s'.sched = s.sched → s'.slot = s.slot → G s s') (hp : LockClient G p) : p.Guar G :=
  hp.guar (fun _ _ h => h) (fun _ => hG _ _ rfl rfl) (fun _ _ => hG _ _ rfl rfl)
    fun _ _ => hG _ _ rfl rfl

/-- A link at timeslot `ts` of the slotframe in block `b` may be filled in, if the
slotframe is longer than `ts`. -/
structure WritesLink (b ts : Nat) (s s' : TschState) : Prop where
  size : (s'.slotframe b).size = (s.slotframe b).size
  inRange : ts < (s.slotframe b).size → UnicastInRange s.sched → UnicastInRange s'.sched

theorem WritesLink.of_keeps {b ts : Nat} {s s' : TschState} (h : KeepsBlocks s s') :
    WritesLink b ts s s' :=
  ⟨h.size b, fun _ hs => hs.keeps h⟩

theorem WritesLink.initLink (b p : Nat) (o : LinkOptions) (ty : LinkType) (a : LinkAddr)
    (ts off : Nat) (s : TschState) : WritesLink b ts s (s.initLink b p o ty a ts off) := by
  refine ⟨rfl, fun hts hs => ⟨hs.size, fun q hq => ?_⟩⟩
  by_cases hqp : q = p
  · subst hqp
    simp only [TschState.initLink, TschState.setLinkInFlux, TschState.setSched, ScheduleVars.setLink,
      Function.update_self] at hq ⊢
    exact hts.trans_le (hs.size b hq)
  · simp only [TschState.initLink, TschState.setLinkInFlux, TschState.setSched, ScheduleVars.setLink,
      Function.update_of_ne hqp] at hq ⊢
    exact hs.timeslot q hq

theorem staysInRange_addLink (sf : Option Nat) (o : LinkOptions) (ty : LinkType)
    (a : Option LinkAddr) (ts off : Nat) (rm : Bool) :
    StaysInRange cfg (tschScheduleAddLink cfg sf o ty a ts off rm) := by
  intro s hs
  cases sf with
  | none => exact Wp.ret trivial
  | some b =>
      refine Wp.bind (Wp.read hs fun t _ ht => ?_)
      cases hbad : decide ((ts : Int) > (t.slotframe b).size - 1) with
      | true => exact Wp.ret trivial
      | false =>
          have hts : ts < (t.slotframe b).size := by
            have := of_decide_eq_false hbad
            omega
          have W : SchedWrites cfg (WritesLink b ts) :=
            (schedWrites_keepsBlocks cfg).mono fun _ _ => WritesLink.of_keeps
          have hinstall : LockClient (WritesLink b ts)
              (installLink cfg b o ty (a.getD cfg.linkaddrNull) ts off) :=
            W.installLink fun p u => WritesLink.initLink b p o ty _ ts off u
          have hrest : ∀ {β : Type} {p : Prog TschState β}, LockClient (WritesLink b ts) p →
              Wp (aptCtx cfg) p (fun _ _ => True) t := by
            intro β p hp
            refine (Wp.of_guar (C := aptCtx cfg) (J := fun u => ts < (u.slotframe b).size) id ?_ ?_
              (guar_of_client (fun _ _ hsched _ => .of_keeps (.of_sched hsched)) hp) ht hts).mono ht
              fun _ _ _ _ => trivial
            · intro u u' _ hu hirq
              rw [(irq_keepsBlocks hirq).size b]
              exact hu
            · intro u u' hiu hu hg _
              exact ⟨hg.inRange hu hiu, hg.size ▸ hu⟩
          cases rm with
          | false => exact hrest hinstall
          | true => exact hrest ((W.removeLinkByTimeslot _ ts off).bind fun _ => hinstall)

/-- A slotframe of handle 1 is added with the length of the table. -/
def KeepsInRange (s s' : TschState) : Prop := UnicastInRange s.sched → UnicastInRange s'.sched

theorem staysInRange_addSlotframe {handle size : Nat}
    (hsize : handle = 1 → size ≤ unicastSlotframeLength) :
    StaysInRange cfg (tschScheduleAddSlotframe cfg handle size) := by
  have W : SchedWrites cfg KeepsInRange :=
    (schedWrites_keepsBlocks cfg).mono fun _ _ h hs => hs.keeps h
  have hclient : LockClient KeepsInRange (tschScheduleAddSlotframe cfg handle size) := by
    refine W.addSlotframe fun b s hs => ⟨fun c hc => ?_, hs.timeslot⟩
    by_cases hcb : c = b
    · subst hcb
      simp only [TschState.initSlotframe, TschState.setSched, ScheduleVars.setSlotframe_self] at hc ⊢
      exact hsize hc
    · simp only [TschState.initSlotframe, TschState.setSched,
        ScheduleVars.setSlotframe_of_ne hcb] at hc ⊢
      exact hs.size c hc
  intro s hs
  exact Wp.of_guar_inv (C := aptCtx cfg) id (fun _ _ h hg _ => hg h)
    (guar_of_client (fun _ _ hsched _ h => hsched ▸ h) hclient) hs

/-- Slotframe 1 is the unicast slotframe. -/
def NodeCall.UnicastSized : NodeCall → Prop
  | .call (.addSlotframe handle size) => handle = 1 → size ≤ unicastSlotframeLength
  | _ => True

theorem staysInRange_read {β : Type} (g : TschState → β) : StaysInRange cfg (Prog.read g) :=
  .of_keeps (Guar.read (fun _ => .of_sched rfl) g)

theorem staysInRange_modify {f : TschState → TschState} (hf : ∀ s, (f s).sched = s.sched) :
    StaysInRange cfg (Prog.modify f) :=
  .of_keeps (Guar.modify fun s => .of_sched (hf s))

theorem staysInRange_client {α : Type} {p : Prog TschState α} (hp : LockClient KeepsBlocks p) :
    StaysInRange cfg p :=
  .of_keeps (guar_of_client (fun _ _ h _ => .of_sched h) hp)

theorem staysInRange_assignUnicastLink (o : LinkOptions) (ts : Nat) (rm : Bool) :
    StaysInRange cfg (assignUnicastLink cfg o ts rm) :=
  (staysInRange_read _).bind fun _ => (staysInRange_addLink _ _ _ _ _ _ _).bind fun _ =>
    staysInRange_modify fun _ => rfl

theorem staysInRange_forEach {β : Type} {body : β → Prog TschState Unit}
    (hb : ∀ x, StaysInRange cfg (body x)) : ∀ xs, StaysInRange cfg (Prog.forEach xs body)
  | [] => fun _ _ => Wp.ret trivial
  | x :: xs => (hb x).bind fun _ => staysInRange_forEach hb xs

theorem staysInRange_initTschSchedule (fuel : Nat) :
    StaysInRange cfg (initTschSchedule cfg fuel) := by
  refine (staysInRange_client ((schedWrites_keepsBlocks cfg).removeAllSlotframes fuel fuel)).bind
    fun _ => ?_
  refine (staysInRange_addSlotframe fun h => absurd h (by decide)).bind fun b => ?_
  refine (staysInRange_modify (f := TschState.setSfBroadcast b) fun _ => rfl).bind fun _ => ?_
  refine (staysInRange_addSlotframe fun _ => le_refl _).bind fun b => ?_
  refine (staysInRange_modify (f := TschState.setSfUnicast b) fun _ => rfl).bind fun _ => ?_
  refine (staysInRange_read _).bind fun _ => ?_
  refine (staysInRange_addLink _ _ _ _ _ _ _).bind fun _ => ?_
  refine (staysInRange_assignUnicastLink _ _ _).bind fun _ => ?_
  exact staysInRange_forEach (fun _ => staysInRange_assignUnicastLink _ _ _) _

theorem staysInRange_schedulerRound (fuel : Nat) (d : Draws) :
    StaysInRange cfg (schedulerRound cfg fuel d) := by
  refine (staysInRange_client ?_).bind fun _ => ?_
  · refine LockClient.loop (LockClient.tschGetLock.bind fun got => ?_) (fun _ => .ret _) fuel
    cases got <;> exact .ret _
  refine (StaysInRange.of_keeps ?_).bind fun action => ?_
  · refine Guar.bind (Guar.bind (Guar.update fun _ => .of_sched rfl) fun status => ?_) fun _ =>
      Guar.update fun _ => .of_sched rfl
    split
    · exact Guar.modify fun _ => .of_sched rfl
    · trivial
  refine (staysInRange_client LockClient.tschReleaseLock).bind fun _ => ?_
  refine StaysInRange.bind ?_ fun _ => ?_
  · refine (staysInRange_read _).bind fun new => ?_
    cases new with
    | false => exact fun _ _ => Wp.ret trivial
    | true =>
        refine (staysInRange_assignUnicastLink _ _ _).bind fun _ => ?_
        refine (staysInRange_read _).bind fun _ => ?_
        refine (staysInRange_assignUnicastLink _ _ _).bind fun _ => ?_
        exact staysInRange_modify fun _ => rfl
  · exact (staysInRange_client (.await (.ret _))).bind fun _ => staysInRange_modify fun _ => rfl

theorem queueWrites_keepsBlocks : QueueWrites cfg KeepsBlocks where
  toSchedWrites := schedWrites_keepsBlocks cfg
  setTimeSource _ _ _ := .of_sched rfl
  allocPacket s := by
    refine .of_sched ?_
    simp only [TschState.allocPacket]
    split <;> rfl
  freePacketBlock _ _ := .of_sched rfl
  fillPacket _ _ _ := .of_sched rfl
  putPacket _ _ _ := .of_sched rfl
  takePacket n s := by
    refine .of_sched ?_
    obtain ⟨q, hq⟩ := removePacketFromQueue_queue n s
    rw [hq]
    cases (tschQueueRemovePacketFromQueue n s).1 <;> rfl
  takeDequeued _ p s := by
    refine .of_sched ?_
    cases p <;> rfl
  callSentCallback _ _ := .of_sched rfl
  freePacket _ _ := .of_sched rfl
  backoffReset _ _ := .of_sched rfl

theorem staysInRange_perform (fuel : Nat) {c : NodeCall} (hc : c.UnicastSized) :
    StaysInRange cfg (c.perform cfg fuel) := by
  have W : QueueWrites cfg KeepsBlocks := queueWrites_keepsBlocks
  have hdrop : ∀ {α β : Type} {p : Prog TschState α} {g : α → β}, StaysInRange cfg p →
      StaysInRange cfg ((p >>= fun r => pure (g r)) >>= fun _ => pure ()) := fun hp =>
    (hp.bind fun _ _ _ => Wp.ret trivial).bind fun _ _ _ => Wp.ret trivial
  cases c with
  | call c =>
      cases c with
      | addSlotframe handle size => exact hdrop (staysInRange_addSlotframe hc)
      | addLink sf o ty a ts off rm => exact hdrop (staysInRange_addLink sf o ty a ts off rm)
      | removeSlotframe sf => exact hdrop (staysInRange_client (W.removeSlotframe fuel sf))
      | removeAllSlotframes => exact hdrop (staysInRange_client (W.removeAllSlotframes fuel fuel))
      | removeLink sf l => exact hdrop (staysInRange_client (W.removeLink sf l))
      | removeLinkByTimeslot sf ts off =>
          exact hdrop (staysInRange_client (W.removeLinkByTimeslot sf ts off))
      | addNbr a => exact hdrop (staysInRange_client (W.addNbr a))
      | addPacket a max sent ptr ok =>
          exact hdrop (staysInRange_client (W.addPacket a max sent ptr ok))
      | updateTimeSource a => exact hdrop (staysInRange_client (W.updateTimeSource a))
      | freePacketsTo a => exact hdrop (staysInRange_client (W.freePacketsTo fuel a))
      | reset => exact hdrop (staysInRange_client (W.reset fuel))
      | freeUnusedNeighbors =>
          exact hdrop (staysInRange_client (W.freeUnusedNeighbors fuel fun _ _ => .of_sched rfl))
  | customResetAllBackoffExponents => exact staysInRange_client W.customReset
  | takeDequeued => exact staysInRange_client W.dequeue
  | initTschSchedule => exact staysInRange_initTschSchedule fuel
  | schedulerRound d => exact staysInRange_schedulerRound fuel d

/-! ## The process leaves the table alone -/

def KeepsAptTable (s s' : TschState) : Prop := s'.slot.aptTable = s.slot.aptTable

theorem nodeWrites_keepsAptTable : NodeWrites cfg KeepsAptTable where
  toSchedWrites := (schedWrites_schedAct cfg).mono fun s s' h => by
    show s'.slot.aptTable = s.slot.aptTable
    rcases h.slot with hs | hs <;> rw [hs]
  setTimeSource _ _ _ := rfl
  allocPacket s := by
    simp only [KeepsAptTable, TschState.allocPacket]
    split <;> rfl
  freePacketBlock _ _ := rfl
  fillPacket _ _ _ := rfl
  putPacket _ _ _ := rfl
  takePacket n s := by
    obtain ⟨q, hq⟩ := removePacketFromQueue_queue n s
    rw [hq]
    cases (tschQueueRemovePacketFromQueue n s).1 <;> rfl
  takeDequeued _ p _ := by cases p <;> rfl
  callSentCallback _ _ := rfl
  freePacket _ _ := rfl
  backoffReset _ _ := rfl
  initLink _ _ _ _ _ _ _ _ := rfl
  initSlotframe _ _ _ _ := rfl
  setNode _ _ := rfl
  readStatus _ := rfl
  credit _ _ _ := rfl
  notePending _ _ := rfl
  finishRound _ _ := rfl

theorem guar_perform (fuel : Nat) (c : NodeCall) : (c.perform cfg fuel).Guar KeepsAptTable :=
  guar_of_client (fun _ _ _ h => congrArg SlotVars.aptTable h)
    (nodeWrites_keepsAptTable.perform fuel c fun _ _ _ => rfl)

/-! ## The table counts the receptions -/

/-- An interrupt writes the table for the frame it receives. -/
theorem slotStep_aptTable {i : SlotInput} {s s' : TschState} (h : slotStep cfg i s = some s') :
    s'.slot.aptTable = match slotEvent cfg i s with
      | .reception l _ => (countReception l s).slot.aptTable
      | .quiet | .attempt _ _ _ _ => s.slot.aptTable := by
  have htake : (takeUp cfg s).slot.aptTable = s.slot.aptTable :=
    congrArg Rest.aptTable (takeUp_rest cfg s)
  rcases slotStep_event h with ⟨he, hk⟩ | ⟨w, hk, hend⟩
  · rw [he]
    exact (congrArg Kept.aptTable hk).trans htake
  · have hw : w.slot.aptTable = s.slot.aptTable := (congrArg Kept.aptTable hk).trans htake
    have hrest := congrArg Rest.aptTable (endOfSlot_rest hend)
    cases he : slotEvent cfg i s with
    | quiet =>
        rw [he] at hrest
        exact hrest.trans hw
    | attempt n p l st =>
        rw [he] at hrest
        obtain ⟨q, d, hfin⟩ := finishTx_spec cfg n p l st i.rand w
        refine hrest.trans (Eq.trans ?_ hw)
        show (finishTx cfg n p l st i.rand w).slot.aptTable = _
        rw [hfin]
        simp only [recordOutcome]
        split <;> rfl
    | reception l f =>
        rw [he] at hrest
        have hlink : w.link l = s.link l := by
          have hsched : w.sched = s.sched := congrArg (fun k => k.owned.view.sched) hk |>.trans
            (congrArg (fun r => r.owned.view.sched) (takeUp_rest cfg s))
          exact congrArg (fun v : ScheduleVars => v.links l) hsched
        refine hrest.trans ?_
        show (countReception l w).slot.aptTable = (countReception l s).slot.aptTable
        simp only [countReception, hlink]
        split
        · show Function.update w.slot.aptTable _ _ = Function.update s.slot.aptTable _ _
          rw [hw]
        · exact hw

/-- The table, the history and what was there at the start. -/
structure AptCounts (start : Nat → Nat) (h : List AptEvent) (s : TschState) : Prop where
  inside : ∀ t, .received t ∈ h → t < unicastSlotframeLength
  counts : ∀ t < unicastSlotframeLength, s.slot.aptTable t = receivedSinceReset t h % 256
  outside : ∀ t, unicastSlotframeLength ≤ t → s.slot.aptTable t = start t

theorem AptCounts.received {start : Nat → Nat} {h : List AptEvent} {s s' : TschState} {t : Nat}
    (hc : AptCounts start h s) (ht : t < unicastSlotframeLength)
    (happ : s'.slot.aptTable = Function.update s.slot.aptTable t ((s.slot.aptTable t + 1) % 256)) :
    AptCounts start (h ++ [.received t]) s' := by
  refine ⟨fun u hu => ?_, fun u hu => ?_, fun u hu => ?_⟩
  · rcases List.mem_append.mp hu with hu | hu
    · exact hc.inside u hu
    · cases List.mem_singleton.mp hu
      exact ht
  · rw [happ, receivedSinceReset_received]
    by_cases hut : t = u
    · subst hut
      rw [Function.update_self, if_pos rfl, hc.counts t ht]
      omega
    · rw [Function.update_of_ne (Ne.symm hut), if_neg hut]
      exact hc.counts u hu
  · rw [happ, Function.update_of_ne (by omega)]
    exact hc.outside u hu

theorem AptCounts.quiet {start : Nat → Nat} {h : List AptEvent} {s s' : TschState}
    (hc : AptCounts start h s) (happ : s'.slot.aptTable = s.slot.aptTable) :
    AptCounts start (h ++ []) s' := by
  rw [List.append_nil]
  exact ⟨hc.inside, fun t ht => happ ▸ hc.counts t ht, fun t ht => happ ▸ hc.outside t ht⟩

theorem AptCounts.step {start : Nat → Nat} {h es : List AptEvent} {s s' : TschState}
    (hrange : UnicastInRange s.sched) (hc : AptCounts start h s) (hs : AptStep cfg es s s') :
    AptCounts start (h ++ es) s' := by
  cases hs with
  | @slot i _ _ hs =>
      have happ := slotStep_aptTable hs
      simp only [aptEvents]
      cases he : slotEvent cfg i s with
      | quiet =>
          rw [he] at happ
          exact hc.quiet happ
      | attempt n p l st =>
          rw [he] at happ
          exact hc.quiet happ
      | reception l f =>
          simp only [he, countReception] at happ
          simp only
          split
          · rename_i hl
            rw [if_pos hl] at happ
            exact hc.received (hrange.timeslot l hl) happ
          · rename_i hl
            rw [if_neg hl] at happ
            exact hc.quiet happ
  | reset =>
      refine ⟨fun t ht => ?_, fun t ht => ?_, fun t ht => ?_⟩
      · rcases List.mem_append.mp ht with ht | ht
        · exact hc.inside t ht
        · cases List.mem_singleton.mp ht
      · rw [receivedSinceReset_reset]
        exact if_pos ht
      · exact (if_neg (Nat.not_lt.mpr ht)).trans (hc.outside t ht)
  | takeInput n => exact hc.quiet rfl

/-- In every run: every index is inside the table, and the entries are the counts modulo
256. -/
theorem aptCounts_history {fuel : Nat} {calls : List NodeCall} (hcalls : ∀ c ∈ calls, c.UnicastSized)
    {s : TschState} (hrange : UnicastInRange s.sched)
    (hzero : ∀ t < unicastSlotframeLength, s.slot.aptTable t = 0) {h : List AptEvent}
    {c : Prog TschState Unit × TschState}
    (hr : History (AptStep cfg) (fun _ _ => []) (Prog.forEach calls (NodeCall.perform cfg fuel), s) h c) :
    AptCounts s.slot.aptTable h c.2 := by
  have hwp : Wp (aptCtx cfg) (Prog.forEach calls (NodeCall.perform cfg fuel)) (fun _ _ => True) s := by
    refine (Wp.forEach (J := fun calls _ => ∀ c ∈ calls, c.UnicastSized) ?_ calls hrange hcalls).mono
      hrange fun _ _ _ _ => trivial
    intro c rest t ht hall
    refine (staysInRange_perform fuel (hall c List.mem_cons_self) t ht).mono ht fun _ _ _ _ => ?_
    exact fun c hc => hall c (List.mem_cons_of_mem _ hc)
  refine hr.invariant (G := KeepsAptTable) (I := fun s => UnicastInRange s.sched)
    (R := AptCounts s.slot.aptTable) (fun hrun => (Wp.run (C := aptCtx cfg) hrange hwp hrun).1)
    (Guar.forEach (guar_perform fuel) calls) ?_ ?_ ?_
  · exact ⟨fun _ ht => absurd ht List.not_mem_nil, fun t ht => hzero t ht, fun _ _ => rfl⟩
  · intro h s s' _ hc hg
    exact hc.quiet hg
  · intro h es s s' hi hc hs
    exact hc.step hi hs

/-! ## The order of the slots -/

/-- No slot has received more frames since the last reset than an entry can hold. -/
def NoOverflow (h : List AptEvent) : Prop :=
  ∀ t < unicastSlotframeLength, receivedSinceReset t h ≤ 255

/-- The exploration step returns an entry that is minimal among those it looks at. -/
theorem aptTableMin_le {rand k : Nat} (hk : 1 ≤ k ∨ k = rand % unicastSlotframeLength)
    (hlt : k < unicastSlotframeLength) (table : Nat → Nat) :
    table (getSlotWithAptTableMinValue rand table) ≤ table k := by
  have hb : ∀ i m, table i < table m ↔ OrderDual.toDual (table m) < OrderDual.toDual (table i) :=
    fun _ _ => OrderDual.toDual_lt_toDual.symm
  rcases hk with hk | rfl
  · exact OrderDual.toDual_le_toDual.mp
      (le_scan hb _ hk hlt)
  · exact OrderDual.toDual_le_toDual.mp
      (start_le_scan hb _ _)

/-- **The APT table orders the slots by use.**  In every run of receptions, resets and
schedule calls every index written is inside the table.  As long as no slot has received
more than 255 frames since the last reset, a slot that received more frames than another
has the larger entry, and the exploration step returns a slot that received no more than
any it looks at. -/
theorem apt_orders_slots (fuel : Nat) (calls : List NodeCall) (hcalls : ∀ c ∈ calls, c.UnicastSized)
    {s : TschState} (hrange : UnicastInRange s.sched)
    (hzero : ∀ t < unicastSlotframeLength, s.slot.aptTable t = 0) {h : List AptEvent}
    {c : Prog TschState Unit × TschState}
    (hr : History (AptStep cfg) (fun _ _ => []) (Prog.forEach calls (NodeCall.perform cfg fuel), s) h c) :
    (∀ t, .received t ∈ h → t < unicastSlotframeLength) ∧
    (∀ t, unicastSlotframeLength ≤ t → c.2.slot.aptTable t = s.slot.aptTable t) ∧
    (NoOverflow h →
      (∀ i j, i < unicastSlotframeLength → j < unicastSlotframeLength →
        receivedSinceReset j h < receivedSinceReset i h →
        c.2.slot.aptTable j < c.2.slot.aptTable i) ∧
      ∀ rand k, 1 ≤ k ∨ k = rand % unicastSlotframeLength → k < unicastSlotframeLength →
        receivedSinceReset (getSlotWithAptTableMinValue rand c.2.slot.aptTable) h ≤
          receivedSinceReset k h) := by
  have hc := aptCounts_history hcalls hrange hzero hr
  refine ⟨hc.inside, hc.outside, ?_⟩
  intro hno
  have hentry : ∀ t < unicastSlotframeLength, c.2.slot.aptTable t = receivedSinceReset t h := by
    intro t ht
    rw [hc.counts t ht]
    exact Nat.mod_eq_of_lt (Nat.lt_succ_of_le (hno t ht))
  refine ⟨fun i j hi hj hij => ?_, fun rand k hk hlt => ?_⟩
  · rw [hentry i hi, hentry j hj]
    exact hij
  · have hmin := aptTableMin_le hk hlt c.2.slot.aptTable
    have hpick : getSlotWithAptTableMinValue rand c.2.slot.aptTable < unicastSlotframeLength :=
      scan_lt (Nat.mod_lt _ (by decide))
    rw [hentry k hlt, hentry _ hpick] at hmin
    exact hmin

/-! ## A slot that receives 256 frames -/

/-- The unicast slotframe with one Rx link, at timeslot 1. -/
def oneRxLink : List NodeCall :=
  [.call (.addSlotframe 1 15), .call (.addLink (some 0) rxShared .normal none 1 0 true)]

def dataFrame : RxFrame := ⟨true, true, true, 1, 2, false, false, false, 0⟩

/-- Moves of the environment: an interrupt, or all received frames are taken. -/
def aptMove (cfg : Config) (m : Option SlotInput) (s : TschState) :
    Option (List AptEvent × TschState) :=
  match m with
  | some i => (slotStep cfg i s).map fun s' => (aptEvents cfg i s, s')
  | none => some ([], { s with slot := { s.slot with
      inputRingbuf := s.slot.inputRingbuf.drop s.slot.inputRingbuf.length } })

theorem aptMove_step (m : Option SlotInput) (s : TschState) (es : List AptEvent) (s' : TschState)
    (h : aptMove cfg m s = some (es, s')) : AptStep cfg es s s' := by
  cases m with
  | some i =>
      obtain ⟨hs, rfl⟩ := eq_of_map_events h
      exact .slot hs
  | none =>
      cases h
      exact .takeInput _ s

/-- Cycle `k` of the slotframe: the slot starts, a frame is received and taken. -/
def receiveInCycle (k : Nat) : List (Option (Option SlotInput)) :=
  let i := { SlotInput.quiet 0 with loop := [⟨0, 328 + 328 * 15 * k, true⟩] }
  [some (some i), some (some { i with received := some dataFrame }), some none]

/-- The schedule is set up and a first slot skipped; then a frame in each of `n` cycles. -/
def receiveFrames (n : Nat) : List (Option (Option SlotInput)) :=
  List.replicate 24 none ++ [some (some (.quiet 0))] ++ (List.range n).flatMap receiveInCycle

/-- Two frames through slot 1. -/
theorem apt_orders_slots_twice :
    ∃ h c, History (AptStep (smallBuild 8)) (fun _ _ => [])
        (Prog.forEach oneRxLink (NodeCall.perform (smallBuild 8) 3),
          (TschState.boot (smallBuild 8)).joined 0) h c ∧
      receivedSinceReset 1 h = 2 ∧ receivedSinceReset 2 h = 0 ∧
      c.2.slot.aptTable 2 < c.2.slot.aptTable 1 := by
  obtain ⟨h, c, hr, hcounts⟩ := History.exists_historyOf (aptMove (smallBuild 8))
    (fun _ _ => []) (Prog.forEach oneRxLink (NodeCall.perform (smallBuild 8) 3),
      (TschState.boot (smallBuild 8)).joined 0) aptMove_step (receiveFrames 2)
    (fun r => decide (receivedSinceReset 1 r.1 = 2 ∧ receivedSinceReset 2 r.1 = 0 ∧
      ∀ t < unicastSlotframeLength, receivedSinceReset t r.1 ≤ 255)) (by decide +kernel)
  obtain ⟨h1, h2, hno⟩ := of_decide_eq_true hcounts
  refine ⟨h, c, hr, h1, h2, ?_⟩
  refine ((apt_orders_slots 3 oneRxLink ?_ ?_ (fun _ _ => rfl) hr).2.2 hno).1 1 2 (by decide)
    (by decide) (by rw [h1, h2]; decide)
  · intro c hc
    simp only [oneRxLink, List.mem_cons, List.not_mem_nil, or_false] at hc
    rcases hc with rfl | rfl
    · exact fun _ => le_refl _
    · trivial
  · exact ⟨fun _ hb => absurd (show (0 : Nat) = 1 from hb) (by decide),
      fun _ hp => absurd (show (0 : Nat) = 1 from hp) (by decide)⟩

set_option maxRecDepth 4000 in
/-- 256 frames through slot 1 and none through slot 2: both entries are 0, and the
exploration step returns slot 1. -/
theorem apt_wraps :
    ∃ h c, History (AptStep (smallBuild 8)) (fun _ _ => [])
        (Prog.forEach oneRxLink (NodeCall.perform (smallBuild 8) 3),
          (TschState.boot (smallBuild 8)).joined 0) h c ∧
      receivedSinceReset 1 h = 256 ∧ receivedSinceReset 2 h = 0 ∧
      c.2.slot.aptTable 1 = 0 ∧ c.2.slot.aptTable 2 = 0 ∧
      getSlotWithAptTableMinValue 1 c.2.slot.aptTable = 1 := by
  obtain ⟨h, c, hr, hcounts⟩ := History.exists_historyOf (aptMove (smallBuild 8))
    (fun _ _ => []) (Prog.forEach oneRxLink (NodeCall.perform (smallBuild 8) 3),
      (TschState.boot (smallBuild 8)).joined 0) aptMove_step (receiveFrames 256)
    (fun r => decide (receivedSinceReset 1 r.1 = 256 ∧ receivedSinceReset 2 r.1 = 0 ∧
      r.2.2.slot.aptTable 1 = 0 ∧ r.2.2.slot.aptTable 2 = 0 ∧
      getSlotWithAptTableMinValue 1 r.2.2.slot.aptTable = 1)) (by decide +kernel)
  exact ⟨h, c, hr, of_decide_eq_true hcounts⟩

end QlTsch
