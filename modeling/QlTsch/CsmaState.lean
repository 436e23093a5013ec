/-
# `QlTsch.CsmaState` — backoff exponents and windows

Six operations write the backoff state of a neighbor: it is set up by
`tsch_queue_add_nbr`; `tsch_queue_packet_sent` resets it or raises the exponent and
draws a window; `tsch_queue_update_all_backoff_windows` counts windows down;
`tsch_queue_reset` and `custom_reset_all_backoff_exponents` reset it.  `CsmaOk` is the
invariant they share, one neighbor at a time, and a single lemma for each kind of
write carries it through (`reset`, `inc`, `countDown`).

The entry of an address that is not in the table is the one it had last, or the one of
a new neighbor; the invariant is about these too.
-/
import QlTsch.NodeCalls

namespace QlTsch

open Interleave Interleave.Prog

variable {cfg : Config}

/-! ## One neighbor -/

/-- `TSCH_MAC_MIN_BE < TSCH_MAC_MAX_BE <= 7`. -/
structure Config.BackoffExponents (cfg : Config) : Prop where
  min_lt_max : cfg.tschMacMinBe < cfg.tschMacMaxBe
  max_le : cfg.tschMacMaxBe ≤ 7

/-- The addresses of the virtual neighbors. -/
def Config.isVirtual (cfg : Config) (n : LinkAddr) : Bool :=
  n == cfg.tschEbAddress || n == cfg.tschBroadcastAddress

/-- The backoff state of the entry of `n`. -/
structure CsmaOk (cfg : Config) (n : LinkAddr) (e : TschNeighbor) : Prop where
  isBroadcast : e.isBroadcast = cfg.isVirtual n
  min_le : cfg.tschMacMinBe ≤ e.backoffExponent
  le_max : e.backoffExponent ≤ cfg.tschMacMaxBe
  window_le : e.backoffWindow ≤ 2 ^ e.backoffExponent
  /-- a nonzero window comes with an exponent that was raised -/
  raised : e.backoffWindow ≠ 0 → cfg.tschMacMinBe < e.backoffExponent
  virtual : cfg.isVirtual n = true → e.backoffWindow = 0 ∧ e.backoffExponent = cfg.tschMacMinBe

namespace CsmaOk

variable {n : LinkAddr} {e : TschNeighbor}

theorem congr {e' : TschNeighbor} (h : CsmaOk cfg n e) (hb : e'.isBroadcast = e.isBroadcast)
    (hw : e'.backoffWindow = e.backoffWindow) (he : e'.backoffExponent = e.backoffExponent) :
    CsmaOk cfg n e' := by
  refine ⟨hb.trans h.isBroadcast, ?_, ?_, ?_, ?_, ?_⟩ <;> rw [he]
  · exact h.min_le
  · exact h.le_max
  · rw [hw]
    exact h.window_le
  · rw [hw]
    exact h.raised
  · rw [hw]
    exact h.virtual

theorem reset (hcfg : cfg.BackoffExponents) (hb : e.isBroadcast = cfg.isVirtual n) :
    CsmaOk cfg n (tschQueueBackoffReset cfg e) :=
  ⟨hb, le_refl _, hcfg.min_lt_max.le, Nat.zero_le _, fun h => absurd rfl h, fun _ => ⟨rfl, rfl⟩⟩

theorem new (hcfg : cfg.BackoffExponents) (n : LinkAddr) : CsmaOk cfg n (newNeighbor cfg n) :=
  reset hcfg rfl

theorem inc_exponent (hcfg : cfg.BackoffExponents) (rand : Nat) (e : TschNeighbor) :
    (tschQueueBackoffInc cfg rand e).backoffExponent =
      min (e.backoffExponent + 1) cfg.tschMacMaxBe := by
  have hmax := hcfg.max_le
  exact Nat.mod_eq_of_lt (by omega)

/-- The window that it draws: nothing is cut off. -/
theorem inc_window (hcfg : cfg.BackoffExponents) (rand : Nat) (e : TschNeighbor) :
    (tschQueueBackoffInc cfg rand e).backoffWindow =
      (rand >>> 6) % 2 ^ min (e.backoffExponent + 1) cfg.tschMacMaxBe + 1 ∧
    (tschQueueBackoffInc cfg rand e).backoffWindow < 256 := by
  have hmax := hcfg.max_le
  have hbe : min (e.backoffExponent + 1) cfg.tschMacMaxBe % 256 =
      min (e.backoffExponent + 1) cfg.tschMacMaxBe := Nat.mod_eq_of_lt (by omega)
  have hpow : 2 ^ min (e.backoffExponent + 1) cfg.tschMacMaxBe ≤ 2 ^ 7 :=
    Nat.pow_le_pow_right (by decide) (by omega)
  have hlt : (rand >>> 6) % 2 ^ min (e.backoffExponent + 1) cfg.tschMacMaxBe <
      2 ^ min (e.backoffExponent + 1) cfg.tschMacMaxBe := Nat.mod_lt _ (Nat.two_pow_pos _)
  have hwindow : (tschQueueBackoffInc cfg rand e).backoffWindow =
      (rand >>> 6) % 2 ^ min (e.backoffExponent + 1) cfg.tschMacMaxBe + 1 := by
    simp only [tschQueueBackoffInc, hbe, Nat.one_shiftLeft]
    omega
  exact ⟨hwindow, by omega⟩

theorem inc (hcfg : cfg.BackoffExponents) (h : CsmaOk cfg n e) (hn : cfg.isVirtual n = false)
    (rand : Nat) : CsmaOk cfg n (tschQueueBackoffInc cfg rand e) := by
  have hexp := inc_exponent hcfg rand e
  have hmin := h.min_le
  have hlt := hcfg.min_lt_max
  refine ⟨h.isBroadcast, ?_, ?_, ?_, ?_, ?_⟩
  · rw [hexp]
    omega
  · rw [hexp]
    omega
  · rw [(inc_window hcfg rand e).1, hexp]
    exact Nat.mod_lt _ (Nat.two_pow_pos _)
  · intro _
    rw [hexp]
    omega
  · intro hv
    rw [hn] at hv
    cases hv

theorem countDown (h : CsmaOk cfg n e) (hw : e.backoffWindow ≠ 0) :
    CsmaOk cfg n { e with backoffWindow := e.backoffWindow - 1 } := by
  refine ⟨h.isBroadcast, h.min_le, h.le_max, (Nat.sub_le _ _).trans h.window_le,
    fun _ => h.raised hw, fun hv => absurd (h.virtual hv).1 hw⟩

end CsmaOk

/-! ## All neighbors -/

def Csma (cfg : Config) (s : TschState) : Prop := ∀ n, CsmaOk cfg n (s.queue.neighbors n)

namespace Csma

variable {s : TschState}

theorem modify (h : Csma cfg s) (n : LinkAddr) {f : TschNeighbor → TschNeighbor}
    (hf : ∀ e, CsmaOk cfg n e → CsmaOk cfg n (f e)) : Csma cfg (s.modifyNeighbor n f) := by
  intro m
  by_cases hm : m = n
  · subst hm
    simp only [TschState.modifyNeighbor, QueueVars.modifyNeighbor, Function.update_self]
    exact hf _ (h m)
  · simp only [TschState.modifyNeighbor, QueueVars.modifyNeighbor, Function.update_of_ne hm]
    exact h m

theorem of_neighbors {s' : TschState} (h : Csma cfg s)
    (hn : s'.queue.neighbors = s.queue.neighbors) : Csma cfg s' := by
  intro n
  rw [hn]
  exact h n

theorem keep (h : Csma cfg s) (n : LinkAddr) {f : TschNeighbor → TschNeighbor}
    (hb : ∀ e, (f e).isBroadcast = e.isBroadcast) (hw : ∀ e, (f e).backoffWindow = e.backoffWindow)
    (he : ∀ e, (f e).backoffExponent = e.backoffExponent) : Csma cfg (s.modifyNeighbor n f) :=
  h.modify n fun e ho => ho.congr (hb e) (hw e) (he e)

/-- **`tsch_queue_update_all_backoff_windows`.** -/
theorem updateAllBackoffWindows (h : Csma cfg s) (a : LinkAddr) :
    Csma cfg (tschQueueUpdateAllBackoffWindows cfg a s) := by
  simp only [tschQueueUpdateAllBackoffWindows]
  split
  · exact h
  · intro n
    show CsmaOk cfg n (if _ then _ else _)
    split
    · rename_i hcounts
      have hw : (s.queue.neighbors n).backoffWindow ≠ 0 :=
        bne_iff_ne.mp (Bool.and_eq_true_iff.mp hcounts.2).1
      exact (h n).countDown hw
    · exact h n

theorem updateLinkBackoff (h : Csma cfg s) (l : Option Nat) :
    Csma cfg (updateLinkBackoff cfg l s) := by
  cases l with
  | none => exact h
  | some p =>
      simp only [QlTsch.updateLinkBackoff]
      split
      · exact h.updateAllBackoffWindows _
      · exact h

theorem removePacketFromQueue (h : Csma cfg s) (n : LinkAddr) :
    Csma cfg (tschQueueRemovePacketFromQueue n s).2 := by
  simp only [tschQueueRemovePacketFromQueue]
  split
  · exact h
  · split
    · exact h
    · exact h.keep n (fun _ => rfl) (fun _ => rfl) fun _ => rfl

/-- **`tsch_queue_packet_sent`**, with any link and any status. -/
theorem packetSent (hcfg : cfg.BackoffExponents) (h : Csma cfg s) (n : LinkAddr) (p : Nat)
    (link : TschLink) (st : MacStatus) (rand : Nat) :
    Csma cfg (tschQueuePacketSent cfg n p link st rand s).2 := by
  have hrm := h.removePacketFromQueue n
  simp only [tschQueuePacketSent]
  split
  · split
    · exact hrm.modify n fun e he => .reset hcfg he.isBroadcast
    · exact hrm
  · have hdrop : ∀ d : Prop, [Decidable d] →
        Csma cfg (if d then (tschQueueRemovePacketFromQueue n s).2 else s) := by
      intro d _
      split
      · exact hrm
      · exact h
    split
    · rename_i hinc
      -- only unicast neighbors back off
      have hn : cfg.isVirtual n = false := by
        rw [← (h n).isBroadcast]
        exact Bool.not_eq_true' _ ▸ (Bool.and_eq_true_iff.mp hinc).1
      exact (hdrop _).modify n fun e he => he.inc hcfg hn rand
    · exact hdrop _

/-! ## The slot operation -/

theorem chooseLink (h : Csma cfg s) (l : Nat) : Csma cfg (chooseLink cfg l s) := by
  simp only [QlTsch.chooseLink]
  split
  · exact h
  · exact updateLinkBackoff (s := getCurrentPacket l s) h (some l)

theorem finishTx (hcfg : cfg.BackoffExponents) (h : Csma cfg s) (n : LinkAddr) (p l : Nat)
    (st : MacStatus) (rand : Nat) : Csma cfg (finishTx cfg n p l st rand s) := by
  have hrec : Csma cfg (recordOutcome p l st s) := by
    simp only [recordOutcome]
    split <;> exact h
  have hsent := hrec.packetSent hcfg n p ((recordOutcome p l st s).link l) st rand
  simp only [QlTsch.finishTx, dequeueOutcome]
  split <;> exact hsent

end Csma

/-- At every stage of a slot. -/
def csmaOutline (cfg : Config) (hcfg : cfg.BackoffExponents) : SlotOutline cfg where
  asleep := Csma cfg
  starting := Csma cfg
  sending _ _ := Csma cfg
  listening := Csma cfg
  receiving := Csma cfg
  ending := Csma cfg
  chosen := Csma cfg
  leave h _ := h
  skip h _ _ _ := h
  startTx {s l _} h _ _ _ _ _ := by
    obtain ⟨b, o, c, hch⟩ := setChannel_spec cfg _ (chooseLink cfg l s.disarm.enterSlot)
    rw [hch]
    exact Csma.chooseLink (s := s.disarm.enterSlot) h l
  startRx {s l _} h _ _ _ _ := by
    obtain ⟨b, o, c, hch⟩ := setChannel_spec cfg _ (chooseLink cfg l s.disarm.enterSlot)
    rw [hch]
    exact Csma.chooseLink (s := s.disarm.enterSlot) h l
  startIdle {s l} h _ _ _ := Csma.chooseLink (s := s.disarm.enterSlot) h l
  full h := h
  frame h _ _ := h
  framePending _ h := h
  sendingPc _ h := h
  transmit _ h := h
  acknowledge _ h := h
  syncFromAck _ _ h := h
  requestBurst h := h
  finish st rand h _ _ _ _ := h.finishTx hcfg _ _ _ st rand
  listeningPc _ h := h
  deaf h := h
  receive h := h
  receiveBurst _ h := h
  syncFromFrame _ _ h := h
  deliver {s l} _ h _ := by
    obtain ⟨t, ht⟩ := countReception_spec l s
    rw [ht]
    exact h
  keepTime _ h := h
  again h := h
  disassociate h := h
  backoff l h := h.updateLinkBackoff l
  replay h _ _ := h
  select h _ := h
  advance _ _ h := h
  armTimer _ h := h
  sleep h := h

theorem Csma.slotStep (hcfg : cfg.BackoffExponents) {i : SlotInput} {s s' : TschState}
    (h : Csma cfg s) (hs : slotStep cfg i s = some s') : Csma cfg s' := by
  have hholds : ∀ t, (csmaOutline cfg hcfg).Holds t ↔ Csma cfg t := by
    intro t
    simp only [SlotOutline.Holds, csmaOutline]
    split <;> rfl
  exact (hholds s').mp ((csmaOutline cfg hcfg).step ((hholds s).mpr h) (fun _ => trivial)
    (fun _ => trivial) hs)

/-! ## The process -/

/-- An action of the process keeps the invariant. -/
def KeepsCsma (cfg : Config) (s s' : TschState) : Prop := Csma cfg s → Csma cfg s'

theorem nodeWrites_keepsCsma (hcfg : cfg.BackoffExponents) : NodeWrites cfg (KeepsCsma cfg) where
  refl _ h := h
  nbrTableAdd a s h := by
    refine h.of_neighbors ?_
    simp only [TschState.nbrTableAddLladdr]
    split
    · rfl
    · split <;> rfl
  newNeighbor a s h := h.modify a fun _ _ => .new hcfg a
  countTxLink n o d s h := h.keep n (fun _ => rfl) (fun _ => rfl) fun _ => rfl
  testCurrentLink p s h := by
    refine h.of_neighbors ?_
    simp only [TschState.testCurrentLink]
    split <;> rfl
  clearCurrentLink _ _ h := h
  allocLink s h := by
    refine h.of_neighbors ?_
    simp only [TschState.allocLink]
    split <;> rfl
  listAddLink _ _ _ h := h
  listRemoveLink _ _ _ h := h
  freeLink _ _ h := h
  allocSlotframe s h := by
    refine h.of_neighbors ?_
    simp only [TschState.allocSlotframe]
    split <;> rfl
  listAddSlotframe _ _ h := h
  freeSlotframe _ _ h := h
  listRemoveSlotframe _ _ h := h
  setTimeSource n _ _ h := h.keep n (fun _ => rfl) (fun _ => rfl) fun _ => rfl
  allocPacket s h := by
    refine h.of_neighbors ?_
    simp only [TschState.allocPacket]
    split <;> rfl
  freePacketBlock _ _ h := h
  fillPacket _ _ _ h := h
  putPacket n p s h := by
    have hput : Csma cfg (s.modifyNeighbor n fun e => { e with txRingbuf := e.txRingbuf ++ [p] }) :=
      h.keep n (fun _ => rfl) (fun _ => rfl) fun _ => rfl
    exact hput
  takePacket n s h := by
    refine (h.removePacketFromQueue n).of_neighbors ?_
    cases (tschQueueRemovePacketFromQueue n s).1 <;> rfl
  takeDequeued _ p _ h := by
    refine h.of_neighbors ?_
    cases p <;> rfl
  callSentCallback _ _ h := h
  freePacket _ _ h := h
  backoffReset n _ h := h.modify n fun _ he => .reset hcfg he.isBroadcast
  initLink _ _ _ _ _ _ _ _ h := h
  initSlotframe _ _ _ _ h := h
  setNode _ _ h := h
  readStatus _ h := h
  credit _ _ _ h := h
  notePending _ _ h := h
  finishRound _ _ h := h

/-! ## Any sequence of operations -/

/-- What happens between two actions of the process: a slot interrupt, a call of one of
the two operations that interrupts make, with any arguments, or a change of the other
variables of the slot operation (association, the timer). -/
inductive CsmaStep (cfg : Config) : TschState → TschState → Prop
  | slot {i : SlotInput} {s s' : TschState} : slotStep cfg i s = some s' → CsmaStep cfg s s'
  | packetSent (n : LinkAddr) (p : Nat) (link : TschLink) (st : MacStatus) (rand : Nat)
      (s : TschState) : CsmaStep cfg s (tschQueuePacketSent cfg n p link st rand s).2
  | updateAll (a : LinkAddr) (s : TschState) :
      CsmaStep cfg s (tschQueueUpdateAllBackoffWindows cfg a s)
  | slotVars (v : SlotVars) (s : TschState) : CsmaStep cfg s { s with slot := v }

theorem Csma.step (hcfg : cfg.BackoffExponents) {s s' : TschState} (h : Csma cfg s)
    (hs : CsmaStep cfg s s') : Csma cfg s' := by
  cases hs with
  | slot hs => exact h.slotStep hcfg hs
  | packetSent n p link st rand => exact h.packetSent hcfg n p link st rand
  | updateAll a => exact h.updateAllBackoffWindows a
  | slotVars => exact h

theorem csma_boot (hcfg : cfg.BackoffExponents) : Csma cfg (TschState.boot cfg) :=
  fun n => .new hcfg n

def csmaCtx (cfg : Config) (hcfg : cfg.BackoffExponents) : Ctx TschState where
  irq := CsmaStep cfg
  cond _ _ := True
  inv := Csma cfg
  live := False
  stable _ _ h hs := h.step hcfg hs

/-- Along every run, from any state that satisfies the invariant. -/
theorem csma_run (hcfg : cfg.BackoffExponents) (fuel : Nat) (calls : List NodeCall) {s : TschState}
    (h : Csma cfg s) {c : Prog TschState Unit × TschState}
    (hr : Run (CsmaStep cfg) (fun _ _ => True) (Prog.forEach calls (NodeCall.perform cfg fuel), s) c) :
    Csma cfg c.2 := by
  have hguar : (Prog.forEach calls (NodeCall.perform cfg fuel)).Guar (KeepsCsma cfg) :=
    Guar.forEach (fun c => ((nodeWrites_keepsCsma hcfg).perform fuel c fun _ _ _ h => h).guar
      (fun _ _ h => h) (fun _ h => h) (fun _ _ h => h) fun _ _ h => h) calls
  have hwp : Wp (csmaCtx cfg hcfg) (Prog.forEach calls (NodeCall.perform cfg fuel))
      (fun _ _ => True) s :=
    Wp.of_guar_inv id (fun _ _ h hg _ => hg h) hguar h
  exact (Wp.run (C := csmaCtx cfg hcfg) h hwp hr).1

theorem countDown_window (a n : LinkAddr) (s : TschState) :
    ((tschQueueUpdateAllBackoffWindows cfg a s).queue.neighbors n).backoffWindow =
        (s.queue.neighbors n).backoffWindow ∨
      ((tschQueueUpdateAllBackoffWindows cfg a s).queue.neighbors n).backoffWindow + 1 =
        (s.queue.neighbors n).backoffWindow := by
  simp only [tschQueueUpdateAllBackoffWindows]
  split
  · exact .inl rfl
  · by_cases hcounts : n ∈ s.queue.tschNeighbors ∧
        backoffWindowCounts cfg a n (s.queue.neighbors n) = true
    · have hw : (s.queue.neighbors n).backoffWindow ≠ 0 :=
        bne_iff_ne.mp (Bool.and_eq_true_iff.mp hcounts.2).1
      simp only [if_pos hcounts]
      exact .inr (Nat.sub_one_add_one hw)
    · simp only [if_neg hcounts]
      exact .inl trivial

/-- **The CSMA state invariant.**  In every state of every run, whatever is drawn, the
exponent of every neighbor is within its bounds and the window within what the exponent
allows; a nonzero window comes with a raised exponent; the next increment draws its
window without a wrap of exponent or window, and counting down never goes below 0; the
virtual neighbors never back off. -/
theorem csma_invariant (hcfg : cfg.BackoffExponents) (fuel : Nat) (calls : List NodeCall)
    {c : Prog TschState Unit × TschState}
    (hr : Run (CsmaStep cfg) (fun _ _ => True)
      (Prog.forEach calls (NodeCall.perform cfg fuel), TschState.boot cfg) c) (n : LinkAddr) :
    (cfg.tschMacMinBe ≤ (c.2.queue.neighbors n).backoffExponent ∧
      (c.2.queue.neighbors n).backoffExponent ≤ cfg.tschMacMaxBe) ∧
    (c.2.queue.neighbors n).backoffWindow ≤ 2 ^ (c.2.queue.neighbors n).backoffExponent ∧
    ((c.2.queue.neighbors n).backoffWindow ≠ 0 →
      cfg.tschMacMinBe < (c.2.queue.neighbors n).backoffExponent) ∧
    (∀ rand, (tschQueueBackoffInc cfg rand (c.2.queue.neighbors n)).backoffExponent =
        min ((c.2.queue.neighbors n).backoffExponent + 1) cfg.tschMacMaxBe ∧
      (tschQueueBackoffInc cfg rand (c.2.queue.neighbors n)).backoffWindow =
        (rand >>> 6) % 2 ^ min ((c.2.queue.neighbors n).backoffExponent + 1) cfg.tschMacMaxBe + 1 ∧
      (tschQueueBackoffInc cfg rand (c.2.queue.neighbors n)).backoffWindow < 256) ∧
    (∀ a, ((tschQueueUpdateAllBackoffWindows cfg a c.2).queue.neighbors n).backoffWindow =
        (c.2.queue.neighbors n).backoffWindow ∨
      ((tschQueueUpdateAllBackoffWindows cfg a c.2).queue.neighbors n).backoffWindow + 1 =
        (c.2.queue.neighbors n).backoffWindow) ∧
    (n = cfg.tschEbAddress ∨ n = cfg.tschBroadcastAddress →
      (c.2.queue.neighbors n).backoffWindow = 0 ∧
        (c.2.queue.neighbors n).backoffExponent = cfg.tschMacMinBe) := by
  have h := csma_run hcfg fuel calls (csma_boot hcfg) hr n
  refine ⟨⟨h.min_le, h.le_max⟩, h.window_le, h.raised, fun rand => ?_,
    fun a => countDown_window a n c.2, fun hn => h.virtual ?_⟩
  · exact ⟨CsmaOk.inc_exponent hcfg rand _, CsmaOk.inc_window hcfg rand _⟩
  · simp only [Config.isVirtual, Bool.or_eq_true, beq_iff_eq]
    exact hn

/-- A failed transmission to a new neighbor. -/
theorem csma_invariant_failed :
    ∃ c : Prog TschState Unit × TschState,
      Run (CsmaStep (smallBuild 8)) (fun _ _ => True)
        (Prog.forEach [.call (.addNbr 5)] (NodeCall.perform (smallBuild 8) 3),
          TschState.boot (smallBuild 8)) c ∧
      (c.2.queue.neighbors 5).backoffWindow = 4 ∧
      (c.2.queue.neighbors 5).backoffWindow ≤ 2 ^ (c.2.queue.neighbors 5).backoffExponent := by
  obtain ⟨r, hr⟩ : ∃ r, (Prog.forEach [.call (.addNbr 5)] (NodeCall.perform (smallBuild 8) 3)).exec
      (TschState.boot (smallBuild 8)) = some r := Option.isSome_iff_exists.mp (by decide +kernel)
  have hwindow : ((Prog.forEach [.call (.addNbr 5)] (NodeCall.perform (smallBuild 8) 3)).exec
      (TschState.boot (smallBuild 8))).any (fun r => decide
        (((tschQueuePacketSent (smallBuild 8) 5 0 { emptyLink with linkOptions := txShared } .noack 192
          r.2).2.queue.neighbors 5).backoffWindow = 4)) = true := by
    decide +kernel
  rw [hr, Option.any_some, decide_eq_true_eq] at hwindow
  have hrun : Run (CsmaStep (smallBuild 8)) (fun _ _ => True) _ _ :=
    (Run.of_exec hr).tail (.irq (.packetSent 5 0 { emptyLink with linkOptions := txShared } .noack
      192 r.2))
  exact ⟨_, hrun, hwindow, (csma_invariant ⟨by decide, by decide⟩ 3 [.call (.addNbr 5)] hrun 5).2.1⟩

end QlTsch
