/-
# `QlTsch.Delivery` — from the queue of one node to the input ring of another

What the acknowledgements are for, in every run of a network (`QlTsch.Network`): any
number of nodes, any processes that flush no queue, slots on any links, any losses of
frames and of acknowledgements, all in any order.

* `sent_delivered`: a packet that has left its queue with `MAC_TX_OK`, its neighbor a real
  one, has been put into the input ring of a node with the address of that neighbor.
* `delivered_in_order`: a node takes in the packets that another one has queued for a
  neighbor in the order in which they were accepted.
* `delivered_bounded`: it takes in no packet more often than the packet may be tried.  A
  packet can arrive twice, as its acknowledgement may be lost.

The heart of the last two is that what a node takes in of the frames of another is a
subsequence of what that one has sent (`framesFrom_sublist`).
-/
import QlTsch.AirSender

namespace QlTsch

open Interleave Interleave.Prog

variable {ι : Type} [DecidableEq ι] {cfg : ι → Config}

/-! ## A node in the network -/

theorem guar_keepsVirtual {cfg : Config} (fuel : Nat) {calls : List NodeCall}
    (hcalls : ∀ c ∈ calls, c.NoFlush) :
    (Prog.forEach calls (NodeCall.perform cfg fuel)).Guar (KeepsVirtual cfg) := by
  induction calls with
  | nil => trivial
  | cons c calls ih =>
      have hclient : LockClient (KeepsVirtual cfg) (c.perform cfg fuel) := by
        refine nodeWrites_keepsVirtual.perform fuel c fun hc => ?_
        have hno := hcalls c List.mem_cons_self
        rw [hc] at hno
        exact hno.elim
      have hguar : (c.perform cfg fuel).Guar (KeepsVirtual cfg) :=
        hclient.guar (fun _ _ h => h) (fun _ h => h) (fun _ _ h => h.of_same rfl)
          fun _ _ h => h.of_same rfl
      exact hguar.bind fun _ => ih fun c' hc' => hcalls c' (List.mem_cons_of_mem c hc')

/-- What a process of a node may do in one action. -/
abbrev ProcessStep (cfg : Config) (s s' : TschState) : Prop :=
  (PacketAct (· < 256) s s' ∧ LeavesSlot s s') ∧ KeepsVirtual cfg s s'

variable {T : TschNetwork cfg} {log : List (ι × AirEvent ι)} {N : ι → Prog TschState Unit × TschState}

/-- A relation between the record of a node and its state, kept by what its processes do
and by its slots.  Of the processes, all that `G` says may be used. -/
theorem TschNetwork.Runs.invariant_of (hr : T.Runs log N) (n : ι) {G : TschState → TschState → Prop}
    (hG : (T.boot n).1.Guar G) {R : List (AirEvent ι) → TschState → Prop} (h0 : R [] (T.state n))
    (hact : ∀ h s s', PacketsHeld s → R h s → ProcessStep (cfg n) s s' → G s s' →
      R (h ++ processEvents s s') s')
    (hslot : ∀ log i es s s', PacketsHeld s → PacketsHeld s' → R (eventsOf n log) s →
      T.driver n i.slot → airMove cfg n log i s = some (es, s') → R (eventsOf n log ++ es) s') :
    PacketsHeld (N n).2 ∧ R (eventsOf n log) (N n).2 := by
  have hstart := T.start n
  have hkeeps : KeepsPackets (cfg n) (T.boot n).1 := keepsPackets_nodeCalls (T.fuel n) (T.noFlush n)
  have hw := (((hkeeps _ hstart.held hstart.toBetween).and_guar
    (guar_leavesSlot (T.fuel n) (T.calls n))).and_guar
    (guar_keepsVirtual (T.fuel n) (T.noFlush n))).and_guar hG
  refine NetHistory.of_wpg (C := queueCtx (cfg n)) rfl ?_ (fun _ _ => trivial) hstart.held hw h0 ?_ ?_ hr
  · rintro log es s s' ⟨i, -, hm⟩
    exact ⟨i.slot, (airMove_spec hm).1⟩
  · intro h s s' hi _ hR hg
    exact hact h s s' hi hR hg.1 hg.2
  · rintro log es s s' hi hi' hR ⟨i, hd, hm⟩
    exact hslot log i es s s' hi hi' hR hd hm

theorem TschNetwork.Runs.invariant (hr : T.Runs log N) (n : ι)
    {R : List (AirEvent ι) → TschState → Prop} (h0 : R [] (T.state n))
    (hact : ∀ h s s', PacketsHeld s → R h s → ProcessStep (cfg n) s s' →
      R (h ++ processEvents s s') s')
    (hslot : ∀ log i es s s', PacketsHeld s → PacketsHeld s' → R (eventsOf n log) s →
      airMove cfg n log i s = some (es, s') → R (eventsOf n log ++ es) s') :
    PacketsHeld (N n).2 ∧ R (eventsOf n log) (N n).2 :=
  hr.invariant_of n (guar_leavesSlot (T.fuel n) (T.calls n)) h0
    (fun h s s' hi hR hp _ => hact h s s' hi hR hp)
    fun log i es s s' hi hi' hR _ hm => hslot log i es s s' hi hi' hR hm

theorem senderInv_runs (hr : T.Runs log N) (n : ι) :
    PacketsHeld (N n).2 ∧ SenderInv (cfg n) (eventsOf n log) (N n).2 := by
  refine hr.invariant n (R := SenderInv (cfg n)) (SenderInv.start (T.start n)) ?_ ?_
  · rintro h s s' hi hI ⟨⟨ha, hl⟩, hv⟩
    exact hI.act hi ha hl hv
  · intro log i es s s' hi hi' hI hm
    exact hI.slot hi hi' hm

/-! ## The receiver -/

theorem slotEvent_frames {cfg : Config} {i : SlotInput} {s : TschState}
    (hlisten : s.slot.pc ≠ .rxBeforeListen) (hack : ∀ f, s.slot.pc ≠ .rxBeforeAck f) :
    (slotEvent cfg i s).frames = [] := by
  have hattempt : ∀ (st : MacStatus) (w : TschState), (attemptEvent st w).frames = [] := by
    intro st w
    simp only [attemptEvent]
    split <;> rfl
  simp only [slotEvent]
  split
  · split
    · simp only [startEvent]
      split
      · split
        · split
          · exact hattempt _ _
          · split
            · rfl
            · exact hattempt _ _
        · rfl
      · rfl
    · rfl
  · split
    · rfl
    · exact hattempt _ _
  · split
    · split
      · rfl
      · exact hattempt _ _
    · exact hattempt _ _
  · exact hattempt _ _
  · rename_i hpc
    exact absurd hpc hlisten
  · rename_i f hpc
    exact absurd hpc (hack f)

theorem ringGrowth_slotStep {cfg : Config} {i : SlotInput} {s s' : TschState}
    (hs : slotStep cfg i s = some s') : ringGrowth s s' = (slotEvent cfg i s).frames := by
  rw [ringGrowth, slotStep_ring hs, List.drop_left]

theorem rxSlotDeliver_frames {cfg : Config} {f : RxFrame} {i : SlotInput} {s w s' : TschState}
    (hw : w.slot.currentLink = s.slot.currentLink) (h : rxSlotDeliver cfg f i w = some s') :
    (receptionEvent f s).frames = [f] ∧ s'.slot.pc = .asleep := by
  simp only [rxSlotDeliver] at h
  split at h
  · cases h
  · rename_i l hl
    refine ⟨?_, endOfSlot_asleep h⟩
    simp only [receptionEvent, ← hw, hl]
    rfl

/-- The frame that node `n` has read is the one that it is about to acknowledge. -/
def OpenedAt (h : List (AirEvent ι)) (s : TschState) : Prop :=
  ∀ f, s.slot.pc = .rxBeforeAck f ↔ ∃ sender k, openRead h = some (sender, k, f)

/-- What becomes of the frame that a node has read, `opened` before the step. -/
inductive ReceiverStep (opened : Option (ι × Nat × RxFrame)) (i : AirInput ι) (s' : TschState)
    (growth : List RxFrame) : List (AirEvent ι) → Prop
  | quiet (fs : List AirFrame) : opened = none → (∀ f, s'.slot.pc ≠ .rxBeforeAck f) → growth = [] →
      ReceiverStep opened i s' growth (fs.map .sent)
  /-- a frame is read, and its acknowledgement prepared -/
  | opens (f : RxFrame) : opened = none → s'.slot.pc = .rxBeforeAck f → growth = [] →
      ReceiverStep opened i s' growth [.read i.sender i.frame f]
  /-- a frame that asks for no acknowledgement -/
  | takes (f : RxFrame) : opened = none → s'.slot.pc = .asleep → growth = [f] →
      ReceiverStep opened i s' growth [.read i.sender i.frame f, .delivered i.sender i.frame f]
  | closes (sender : ι) (k : Nat) (f : RxFrame) : opened = some (sender, k, f) →
      s'.slot.pc = .asleep → growth = [f] →
      ReceiverStep opened i s' growth [.acked sender k, .delivered sender k f]

/-- **One step of a receiver.** -/
theorem airMove_reception {log : List (ι × AirEvent ι)} {n : ι} {i : AirInput ι}
    {s s' : TschState} {es : List (AirEvent ι)} (hopen : OpenedAt (eventsOf n log) s)
    (hm : airMove cfg n log i s = some (es, s')) :
    ∃ ds, ReceiverStep (openRead (eventsOf n log)) i s' (ringGrowth s s') ds ∧
      es = ds ++ (attemptEvents (cfg n) i.slot s ++ queueEvents s s').map .queue := by
  obtain ⟨hs, as, has, rfl⟩ := airMove_spec hm
  refine ⟨_, ?_, rfl⟩
  have hgrowth := ringGrowth_slotStep hs
  have hyields : ∀ f, s'.slot.pc = .rxBeforeAck f →
      s.slot.pc = .rxBeforeListen ∧ i.slot.received = some f := by
    intro f hf
    have h := slotStep_yields hs (by rw [hf]; exact SlotPc.noConfusion)
    rw [hf] at h
    generalize hpc : s.slot.pc = pc at h
    cases h with
    | reads _ hreceived => exact ⟨rfl, hreceived⟩
  have hclosed : (∀ f, s.slot.pc ≠ .rxBeforeAck f) → openRead (eventsOf n log) = none := by
    intro hno
    cases ho : openRead (eventsOf n log) with
    | none => rfl
    | some r => exact absurd ((hopen r.2.2).mpr ⟨r.1, r.2.1, ho⟩) (hno r.2.2)
  -- outside a receive slot
  have hquiet : ∀ fs : List AirFrame, as = fs.map .sent → s.slot.pc ≠ .rxBeforeListen →
      (∀ f, s.slot.pc ≠ .rxBeforeAck f) → ReceiverStep (openRead (eventsOf n log)) i s' (ringGrowth s s')
        (as ++ deliveries (eventsOf n log ++ as) s s') := by
    rintro fs rfl hlisten hack
    have hnone : deliveries (eventsOf n log ++ fs.map .sent) s s' = [] := by
      simp only [deliveries, openRead_sent, hclosed hack]
    rw [hnone, List.append_nil]
    exact .quiet fs (hclosed hack) (fun f hf => hlisten (hyields f hf).1)
      (hgrowth.trans (slotEvent_frames hlisten hack))
  simp only [airEvents] at has
  cases hpc : s.slot.pc with
  | asleep =>
      simp only [hpc] at has
      cases has
      exact hquiet [] rfl (by rw [hpc]; exact SlotPc.noConfusion)
        fun f => by rw [hpc]; exact SlotPc.noConfusion
  | txBeforeCca loc =>
      simp only [hpc] at has
      cases has
      exact hquiet [] rfl (by rw [hpc]; exact SlotPc.noConfusion)
        fun f => by rw [hpc]; exact SlotPc.noConfusion
  | txBeforeTx loc =>
      simp only [hpc] at has
      obtain ⟨a, -, rfl⟩ := Option.map_eq_some_iff.mp has
      exact hquiet [a] rfl (by rw [hpc]; exact SlotPc.noConfusion)
        fun f => by rw [hpc]; exact SlotPc.noConfusion
  | txBeforeAck loc =>
      simp only [hpc] at has
      split at has
      · cases has
      · cases has
        exact hquiet [] rfl (by rw [hpc]; exact SlotPc.noConfusion)
          fun f => by rw [hpc]; exact SlotPc.noConfusion
  | rxBeforeListen =>
      simp only [hpc] at has
      have hnone := hclosed fun f => by rw [hpc]; exact SlotPc.noConfusion
      have hsilent : as = [] → (∀ f, s'.slot.pc ≠ .rxBeforeAck f) →
          (slotEvent (cfg n) i.slot s).frames = [] →
          ReceiverStep (openRead (eventsOf n log)) i s' (ringGrowth s s')
            (as ++ deliveries (eventsOf n log ++ as) s s') := by
        rintro rfl hpc' hframes
        have hdeliveries : deliveries (eventsOf n log ++ []) s s' = [] := by
          simp only [deliveries, List.append_nil, hnone]
        rw [hdeliveries]
        exact .quiet [] hnone hpc' (hgrowth.trans hframes)
      have hend : ∀ {w : TschState}, endOfSlot (cfg n) i.slot w = some s' →
          ∀ f, s'.slot.pc ≠ .rxBeforeAck f := fun h f => by
        rw [endOfSlot_asleep h]
        exact SlotPc.noConfusion
      simp only [slotStep, hpc, rxSlotListen] at hs
      cases hreceived : i.slot.received with
      | none =>
          simp only [hreceived] at has hs
          cases has
          exact hsilent rfl (hend hs) (by simp only [slotEvent, hpc, hreceived, SlotEvent.frames])
      | some f =>
          simp only [hreceived] at has hs
          by_cases hus : frameIsForUs (cfg n) f = true
          · rw [if_pos hus] at has hs
            split at has
            · cases has
              have hopened : openRead (eventsOf n log ++ [.read i.sender i.frame f]) =
                  some (i.sender, i.frame, f) := openRead_concat _ _
              simp only [deliveries, hopened]
              by_cases hack : (f.ackRequired && f.eackBuilt) = true
              · -- its acknowledgement is prepared
                rw [if_pos hack] at hs
                cases hs
                have hframes : ringGrowth s (s.setPc (.rxBeforeAck f)) = [] := by
                  rw [hgrowth]
                  simp only [slotEvent, hpc, hreceived, hus, hack, Bool.not_true, Bool.and_false,
                    Bool.false_eq_true, if_false, SlotEvent.frames]
                rw [hframes]
                exact .opens f hnone rfl rfl
              · -- it goes into the ring at once
                rw [if_neg hack] at hs
                obtain ⟨hevent, hpc'⟩ := rxSlotDeliver_frames rfl hs
                have hframes : ringGrowth s s' = [f] := by
                  rw [hgrowth, ← hevent]
                  simp only [slotEvent, hpc, hreceived, hus, Bool.eq_false_iff.mpr hack, Bool.not_false,
                    Bool.and_self, if_true]
                rw [hframes]
                exact .takes f hnone hpc' rfl
            · cases has
          · rw [if_neg hus] at has hs
            cases has
            refine hsilent rfl (hend hs) ?_
            simp only [slotEvent, hpc, hreceived, Bool.eq_false_iff.mpr hus, Bool.false_and,
              Bool.false_eq_true, if_false, SlotEvent.frames]
  | rxBeforeAck f =>
      simp only [hpc] at has
      obtain ⟨sender, k, ho⟩ := (hopen f).mp hpc
      rw [ho] at has
      cases has
      have hopened : openRead (eventsOf n log ++ [.acked sender k]) = some (sender, k, f) :=
        (openRead_concat _ _).trans ho
      simp only [slotStep, hpc, rxSlotAck] at hs
      obtain ⟨hevent, hpc'⟩ :=
        rxSlotDeliver_frames (s := s) (w := s.setBurstLinkScheduled f.framePending) rfl hs
      have hframes : ringGrowth s s' = [f] := by
        rw [hgrowth, ← hevent]
        simp only [slotEvent, hpc]
      rw [hframes]
      have hds : deliveries (eventsOf n log ++ [.acked sender k]) s s' = [.delivered sender k f] := by
        simp only [deliveries, hopened, hframes, List.map_cons, List.map_nil]
      show ReceiverStep _ _ _ _ ([.acked sender k] ++ deliveries (eventsOf n log ++ [.acked sender k]) s s')
      rw [hds]
      exact .closes sender k f ho hpc' rfl

/-- What a step records as delivered is what its input ring wins. -/
theorem airMove_ring {log : List (ι × AirEvent ι)} {n : ι} {i : AirInput ι}
    {s s' : TschState} {es : List (AirEvent ι)} (hopen : OpenedAt (eventsOf n log) s)
    (hm : airMove cfg n log i s = some (es, s')) :
    s'.slot.inputRingbuf = s.slot.inputRingbuf ++ ringLog es := by
  have hring : s'.slot.inputRingbuf = s.slot.inputRingbuf ++ ringGrowth s s' := by
    rw [ringGrowth_slotStep (airMove_spec hm).1]
    exact slotStep_ring (airMove_spec hm).1
  obtain ⟨ds, hds, rfl⟩ := airMove_reception hopen hm
  rw [hring, ringLog_append, ringLog_queue, List.append_nil]
  refine congrArg (s.slot.inputRingbuf ++ ·) ?_
  cases hds with
  | quiet fs _ _ hgrowth =>
      rw [hgrowth, ringLog, List.filterMap_map]
      exact (List.filterMap_eq_nil_iff.mpr fun _ _ => rfl).symm
  | opens f _ _ hgrowth => exact hgrowth
  | takes f _ _ hgrowth => exact hgrowth
  | closes sender k f _ _ hgrowth => exact hgrowth

/-- The frame of `S` that is read and not delivered yet. -/
def openFrom (S : ι) (h : List (AirEvent ι)) : List Nat :=
  match openRead h with
  | some (sender, k, _) => if sender = S then [k] else []
  | none => []

/-- A record in which what is delivered has been read before, and what is read is delivered
next. -/
structure ReadLog (h : List (AirEvent ι)) : Prop where
  taken : ∀ S, heard S h = received S h ++ openFrom S h
  asRead : ∀ S k f, .delivered S k f ∈ h ∨ openRead h = some (S, k, f) → .read S k f ∈ h

namespace ReadLog

variable {h : List (AirEvent ι)}

theorem append (hI : ReadLog h) {es : List (AirEvent ι)} (hopen : openRead (h ++ es) = openRead h)
    (hheard : ∀ S, heard S es = []) (hreceived : ∀ S, received S es = [])
    (hdelivered : ∀ S k f, .delivered S k f ∉ es) : ReadLog (h ++ es) where
  taken S := by
    rw [heard_append, received_append, hheard, hreceived, openFrom, hopen, List.append_nil,
      List.append_nil]
    exact hI.taken S
  asRead S k f hf := by
    rw [hopen, List.mem_append, or_iff_left (hdelivered S k f)] at hf
    exact List.mem_append_left es (hI.asRead S k f hf)

theorem read (hI : ReadLog h) (ho : openRead h = none) (sender : ι) (k : Nat) (f : RxFrame) :
    ReadLog (h ++ [.read sender k f]) where
  taken S := by
    have htaken := hI.taken S
    rw [openFrom, ho, List.append_nil] at htaken
    have hreceived : received S [AirEvent.read sender k f] = [] := rfl
    rw [heard_append, received_append, htaken, hreceived, List.append_nil, openFrom, openRead_concat]
    refine congrArg (received S h ++ ·) ?_
    simp only [heard, List.filterMap_cons, List.filterMap_nil, AirEvent.heardFrom, AirEvent.openRead]
    by_cases hS : sender = S
    · rw [if_pos hS, if_pos hS]
    · rw [if_neg hS, if_neg hS]
  asRead S j g hg := by
    rw [openRead_concat, List.mem_append] at hg
    rcases hg with (hg | hg) | hg
    · exact List.mem_append_left _ (hI.asRead S j g (.inl hg))
    · cases List.mem_singleton.mp hg
    · cases hg
      exact List.mem_append_right _ List.mem_cons_self

theorem delivered (hI : ReadLog h) {sender : ι} {k : Nat} {f : RxFrame}
    (ho : openRead h = some (sender, k, f)) : ReadLog (h ++ [.delivered sender k f]) where
  taken S := by
    have hheard : heard S [AirEvent.delivered sender k f] = [] := rfl
    have hnone : openRead (h ++ [.delivered sender k f]) = none := openRead_concat _ _
    rw [heard_append, received_append, hheard, List.append_nil, hI.taken S, openFrom, openFrom, ho,
      hnone, List.append_nil]
    refine congrArg (received S h ++ ·) ?_
    simp only [received, List.filterMap_cons, List.filterMap_nil, AirEvent.receivedFrom]
    by_cases hS : sender = S
    · rw [if_pos hS, if_pos hS]
    · rw [if_neg hS, if_neg hS]
  asRead S j g hg := by
    rw [openRead_concat, List.mem_append] at hg
    rcases hg with (hg | hg) | hg
    · exact List.mem_append_left _ (hI.asRead S j g (.inl hg))
    · cases List.mem_singleton.mp hg
      exact List.mem_append_left _ (hI.asRead _ _ _ (.inr ho))
    · cases hg

end ReadLog

/-- A frame that is read is put into the ring, after its acknowledgement if it asks for one. -/
structure ReceiverInv (h : List (AirEvent ι)) (s : TschState) : Prop extends ReadLog h where
  opened : OpenedAt h s
  acked : ∀ S k, .acked S k ∈ h → ∃ f, .delivered S k f ∈ h

namespace ReceiverInv

variable {h : List (AirEvent ι)} {s s' : TschState} {n : ι} {i : AirInput ι}

omit [DecidableEq ι] in
theorem opened_none (hnone : openRead h = none) (hpc : ∀ f, s.slot.pc ≠ .rxBeforeAck f) :
    OpenedAt h s := by
  intro f
  rw [hnone]
  exact ⟨fun hf => absurd hf (hpc f), fun ⟨_, _, ho⟩ => (by cases ho)⟩

theorem start (hpc : s.slot.pc = .asleep) : ReceiverInv ([] : List (AirEvent ι)) s where
  taken _ := rfl
  asRead _ _ _ hf := by
    rcases hf with hf | hf <;> cases hf
  opened := opened_none rfl fun f => by
    rw [hpc]
    exact SlotPc.noConfusion
  acked _ _ hk := by cases hk

theorem queue (hI : ReceiverInv h s') (es : List FifoEvent) : ReceiverInv (h ++ es.map .queue) s' where
  toReadLog := hI.toReadLog.append (openRead_queue h es) (fun S => heard_queue es S)
    (fun S => received_queue es S) fun _ _ _ => by simp
  opened f := by
    rw [openRead_queue]
    exact hI.opened f
  acked S k hk := by
    have hk : .acked S k ∈ h := by simpa using hk
    exact (hI.acked S k hk).imp fun f hf => List.mem_append_left _ hf

theorem reception (hI : ReceiverInv h s) {growth : List RxFrame} {ds : List (AirEvent ι)}
    (hds : ReceiverStep (openRead h) i s' growth ds) : ReceiverInv (h ++ ds) s' := by
  have hacked : ∀ {S k}, .acked S k ∈ h → ∃ f, .delivered S k f ∈ h ++ ds := fun hk =>
    (hI.acked _ _ hk).imp fun f hf => List.mem_append_left _ hf
  have hpc : s'.slot.pc = .asleep → ∀ f, s'.slot.pc ≠ .rxBeforeAck f := by
    intro hasleep f
    rw [hasleep]
    exact SlotPc.noConfusion
  cases hds with
  | quiet fs hnone hpc' _ =>
      refine ⟨hI.toReadLog.append (openRead_sent h fs) (fun S => heard_sent S fs)
        (fun S => received_sent S fs) fun _ _ _ => by simp, ?_, fun S k hk => ?_⟩
      · exact opened_none ((openRead_sent h fs).trans hnone) hpc'
      · exact hacked (by simpa using hk)
  | opens f hnone hpc' _ =>
      refine ⟨hI.toReadLog.read hnone _ _ f, fun g => ?_, fun S k hk => hacked (by simpa using hk)⟩
      rw [hpc', openRead_concat]
      constructor
      · rintro ⟨⟩
        exact ⟨i.sender, i.frame, rfl⟩
      · rintro ⟨S, k, ho⟩
        cases ho
        rfl
  | takes f hnone hpc' _ =>
      have hread := hI.toReadLog.read hnone i.sender i.frame f
      have hlog := hread.delivered (openRead_concat _ _)
      rw [List.append_assoc] at hlog
      refine ⟨hlog, opened_none ?_ (hpc hpc'), fun S k hk => hacked (by simpa using hk)⟩
      rw [openRead, List.foldl_append]
      rfl
  | closes sender k f ho hpc' _ =>
      have hack : ReadLog (h ++ [.acked sender k]) :=
        hI.toReadLog.append (openRead_concat _ _) (fun _ => rfl) (fun _ => rfl) fun _ _ _ => by simp
      have hlog := hack.delivered ((openRead_concat h (.acked sender k)).trans ho)
      rw [List.append_assoc] at hlog
      refine ⟨hlog, opened_none ?_ (hpc hpc'), fun S j hk => ?_⟩
      · rw [openRead, List.foldl_append]
        rfl
      · rcases List.mem_append.mp hk with hk | hk
        · exact hacked hk
        · simp only [List.mem_cons, AirEvent.acked.injEq, reduceCtorEq, List.not_mem_nil,
            or_false] at hk
          obtain ⟨rfl, rfl⟩ := hk
          exact ⟨f, by simp⟩

theorem slot {log : List (ι × AirEvent ι)} (hI : ReceiverInv (eventsOf n log) s)
    {es : List (AirEvent ι)} (hm : airMove cfg n log i s = some (es, s')) :
    ReceiverInv (eventsOf n log ++ es) s' := by
  obtain ⟨ds, hds, rfl⟩ := airMove_reception hI.opened hm
  rw [← List.append_assoc]
  exact (hI.reception hds).queue _

end ReceiverInv

/-- **The record and the ring.**  The frames that are recorded as delivered are those in the
input ring: what takes them out of it again is outside the source. -/
theorem ring_runs (hr : T.Runs log N) (n : ι) : ReceiverInv (eventsOf n log) (N n).2 ∧
    (N n).2.slot.inputRingbuf = (T.state n).slot.inputRingbuf ++ ringLog (eventsOf n log) := by
  refine (hr.invariant n (R := fun h s => ReceiverInv h s ∧
    s.slot.inputRingbuf = (T.state n).slot.inputRingbuf ++ ringLog h) ?_ ?_ ?_).2
  · exact ⟨.start (T.start n).asleep, (List.append_nil _).symm⟩
  · rintro h s s' - ⟨hI, hring⟩ ⟨⟨-, hl⟩, -⟩
    have hpc : s'.slot.pc = s.slot.pc := by rw [hl.slot]
    have hsame : s'.slot.inputRingbuf = s.slot.inputRingbuf := by rw [hl.slot]
    refine ⟨ReceiverInv.queue ⟨hI.toReadLog, fun f => ?_, hI.acked⟩ _, ?_⟩
    · rw [hpc]
      exact hI.opened f
    · rw [hsame, hring, processEvents, ringLog_append, ringLog_queue, List.append_nil]
  · rintro log i es s s' - - ⟨hI, hring⟩ hm
    refine ⟨hI.slot hm, ?_⟩
    rw [airMove_ring hI.opened hm, hring, ringLog_append, List.append_assoc]

theorem receiverInv_runs (hr : T.Runs log N) (n : ι) : ReceiverInv (eventsOf n log) (N n).2 :=
  (ring_runs hr n).1

/-! ## The air -/

section
variable {n : ι} {i : AirInput ι} {s s' : TschState} {as : List (AirEvent ι)}

theorem airEvents_heard (h : airEvents cfg log n i s = some as) : (∀ S, heard S as = []) ∨
    ∃ f, frameIsForUs (cfg n) f = true ∧ Audible cfg log n i.sender i.frame f ∧
      as = [.read i.sender i.frame f] := by
  simp only [airEvents] at h
  split at h
  · cases h
    exact .inl fun _ => rfl
  · cases h
    exact .inl fun _ => rfl
  · obtain ⟨f, -, rfl⟩ := Option.map_eq_some_iff.mp h
    exact .inl fun _ => rfl
  · split at h
    · cases h
    · cases h
      exact .inl fun _ => rfl
  · split at h
    · cases h
      exact .inl fun _ => rfl
    · rename_i f _
      split at h
      · rename_i hus
        split at h
        · rename_i haudible
          cases h
          exact .inr ⟨f, hus, haudible, rfl⟩
        · cases h
      · cases h
        exact .inl fun _ => rfl
  · cases h
    cases openRead (eventsOf n log) <;> exact .inl fun _ => rfl

end

theorem sent_append {S : ι} {k : Nat} {f : AirFrame} (es : List (ι × AirEvent ι))
    (h : (sentLog (eventsOf S log))[k]? = some f) :
    (sentLog (eventsOf S (log ++ es)))[k]? = some f := by
  obtain ⟨hk, -⟩ := List.getElem?_eq_some_iff.mp h
  rw [eventsOf_append, sentLog_append, List.getElem?_append_left hk]
  exact h

variable (cfg) in
/-- Frame `k` of `S`, read by `r` as `g`: another node has sent it, to `r` or to every node. -/
structure ReadAs (r S : ι) (k : Nat) (g : RxFrame) (log : List (ι × AirEvent ι)) (f : AirFrame) :
    Prop where
  sent : (sentLog (eventsOf S log))[k]? = some f
  other : S ≠ r
  source : g.sourceAddress = (cfg S).linkaddrNodeAddr
  destination : g.destinationAddress = f.destination (cfg S)
  addressed : g.destinationAddress = (cfg r).linkaddrNodeAddr ∨
    g.destinationAddress = (cfg r).linkaddrNull

variable (cfg) in
/-- What `r` has read of the frames of `S`: none twice, in the order in which they were
sent. -/
structure HeardFrames (r S : ι) (log : List (ι × AirEvent ι)) : Prop where
  increasing : (heard S (eventsOf r log)).Pairwise (· < ·)
  readAs : ∀ k g, .read S k g ∈ eventsOf r log → ∃ f, ReadAs cfg r S k g log f

theorem HeardFrames.append {r S : ι} (h : HeardFrames cfg r S log) {es : List (ι × AirEvent ι)}
    (hes : heard S (eventsOf r es) = []) : HeardFrames cfg r S (log ++ es) := by
  have hsame : heard S (eventsOf r (log ++ es)) = heard S (eventsOf r log) := by
    rw [eventsOf_append, heard_append, hes, List.append_nil]
  refine ⟨hsame ▸ h.increasing, fun k g hg => ?_⟩
  rw [eventsOf_append, List.mem_append] at hg
  rcases hg with hg | hg
  · obtain ⟨f, hf⟩ := h.readAs k g hg
    exact ⟨f, { hf with sent := sent_append es hf.sent }⟩
  · have hk : k ∈ heard S (eventsOf r es) := (mem_heard _ _).mpr ⟨g, hg⟩
    rw [hes] at hk
    cases hk

theorem HeardFrames.read {r : ι} {i : AirInput ι} {f : RxFrame} {es : List (ι × AirEvent ι)}
    (h : HeardFrames cfg r i.sender log) (hus : frameIsForUs (cfg r) f = true)
    (haudible : Audible cfg log r i.sender i.frame f)
    (hheard : heard i.sender (eventsOf r es) = [i.frame])
    (hread : ∀ k g, .read i.sender k g ∈ eventsOf r es → k = i.frame ∧ g = f) :
    HeardFrames cfg r i.sender (log ++ es) := by
  obtain ⟨hother, hlast, hnew, hsource, hcontent⟩ := haudible
  refine ⟨?_, fun k g hg => ?_⟩
  · -- the new frame is the last one, and the others are not it
    rw [eventsOf_append, heard_append, hheard]
    refine List.pairwise_append.mpr ⟨h.increasing, List.pairwise_singleton _ _, ?_⟩
    intro k hk j hj
    cases List.mem_singleton.mp hj
    obtain ⟨g, hg⟩ := (mem_heard _ _).mp hk
    obtain ⟨a, ha⟩ := h.readAs k g hg
    obtain ⟨hlt, -⟩ := List.getElem?_eq_some_iff.mp ha.sent
    have hne : k ≠ i.frame := by
      rintro rfl
      exact hnew hk
    omega
  · rw [eventsOf_append, List.mem_append] at hg
    rcases hg with hg | hg
    · obtain ⟨a, ha⟩ := h.readAs k g hg
      exact ⟨a, { ha with sent := sent_append es ha.sent }⟩
    · obtain ⟨rfl, rfl⟩ := hread k g hg
      obtain ⟨a, ha, hdest⟩ := Option.map_eq_some_iff.mp hcontent
      refine ⟨a, sent_append es ha, hother, hsource, hdest.symm, ?_⟩
      simp only [frameIsForUs, Bool.and_eq_true, Bool.or_eq_true, beq_iff_eq] at hus
      exact hus.1.2

theorem heardFrames_runs (hr : T.Runs log N) (r S : ι) : HeardFrames cfg r S log := by
  refine NetHistory.record (R := HeardFrames cfg r S)
    ⟨List.Pairwise.nil, fun k g hg => (by cases hg)⟩ ?_ ?_ hr
  · intro log N n s' _ h
    refine h.append ?_
    by_cases hn : n = r
    · subst hn
      rw [eventsOf_atNode]
      exact heard_queue _ _
    · rw [eventsOf_atNode_of_ne _ hn]
      rfl
  · rintro log N n es s' _ ⟨i, -, hm⟩ h
    obtain ⟨-, as, has, rfl⟩ := airMove_spec hm
    by_cases hn : n = r
    · subst hn
      rcases airEvents_heard has with hnone | ⟨f, hus, haudible, rfl⟩
      · refine h.append ?_
        rw [eventsOf_atNode, heard_append, heard_append, hnone, heard_deliveries, heard_queue]
        rfl
      · have hheard : heard S [AirEvent.read i.sender i.frame f] =
            if i.sender = S then [i.frame] else [] := by
          simp only [heard, List.filterMap_cons, List.filterMap_nil, AirEvent.heardFrom]
          by_cases hS : i.sender = S
          · rw [if_pos hS, if_pos hS]
          · rw [if_neg hS, if_neg hS]
        by_cases hS : i.sender = S
        · subst hS
          refine h.read hus haudible ?_ fun k g hg => ?_
          · rw [eventsOf_atNode, heard_append, heard_append, hheard, if_pos rfl, heard_deliveries,
              heard_queue]
            rfl
          · rw [eventsOf_atNode, List.mem_append, List.mem_append] at hg
            rcases hg with (hg | hg) | hg
            · cases List.mem_singleton.mp hg
              exact ⟨rfl, rfl⟩
            · obtain ⟨_, _, _, he⟩ := mem_deliveries hg
              cases he
            · obtain ⟨_, -, he⟩ := List.mem_map.mp hg
              cases he
        · refine h.append ?_
          rw [eventsOf_atNode, heard_append, heard_append, hheard, if_neg hS, heard_deliveries,
            heard_queue]
          rfl
    · refine h.append ?_
      rw [eventsOf_atNode_of_ne _ hn]
      rfl

/-! ## An acknowledged attempt -/

theorem attempt_notMem_queueEvents {s s' : TschState} {m : LinkAddr} {u : Nat} {st : MacStatus} :
    .attempt m u st ∉ queueEvents s s' := by
  intro h
  obtain ⟨k, -, h⟩ := List.mem_flatMap.mp h
  rcases List.mem_append.mp h with h | h
  · obtain ⟨p, -, hp⟩ := List.mem_map.mp h
    cases hp
  · obtain ⟨p, -, hp⟩ := List.mem_map.mp h
    cases hp

theorem attemptEvent_status {s : TschState} {st st' : MacStatus} {m : LinkAddr} {p l : Nat}
    (h : attemptEvent st s = .attempt m p l st') : st' = st := by
  simp only [attemptEvent] at h
  split at h
  · cases h
    rfl
  · cases h

theorem slotEvent_ok {cfg : Config} {i : SlotInput} {s : TschState} {m : LinkAddr} {p l : Nat}
    (h : slotEvent cfg i s = .attempt m p l .ok) :
    (∃ loc, s.slot.pc = .txBeforeTx loc) ∨ ∃ loc, s.slot.pc = .txBeforeAck loc := by
  cases hpc : s.slot.pc with
  | asleep =>
      simp only [slotEvent, hpc] at h
      split at h
      · simp only [startEvent] at h
        split at h
        · split at h
          · split at h
            · cases attemptEvent_status h
            · split at h
              · cases h
              · cases attemptEvent_status h
          · cases h
        · cases h
      · cases h
  | txBeforeCca loc =>
      simp only [slotEvent, hpc] at h
      split at h
      · cases h
      · cases attemptEvent_status h
  | txBeforeTx loc => exact .inl ⟨loc, rfl⟩
  | txBeforeAck loc => exact .inr ⟨loc, rfl⟩
  | rxBeforeListen =>
      simp only [slotEvent, hpc] at h
      split at h
      · split at h
        · exact absurd h receptionEvent_not_attempt
        · cases h
      · cases h
  | rxBeforeAck f =>
      simp only [slotEvent, hpc] at h
      exact absurd h receptionEvent_not_attempt

/-- The frame of a successful attempt, and who has acknowledged it. -/
def Answered (log : List (ι × AirEvent ι)) (n : ι) (m : LinkAddr) (u : Nat) : Prop :=
  ∃ k f, (sentLog (eventsOf n log))[k]? = some f ∧ f.neighbor = m ∧ f.uid = u ∧
    (f.unicast = true → ∃ r, (r, .acked n k) ∈ log)

theorem Answered.append {n : ι} {m : LinkAddr} {u : Nat} (h : Answered log n m u)
    (es : List (ι × AirEvent ι)) : Answered (log ++ es) n m u := by
  obtain ⟨k, f, hf, hm, hu, hack⟩ := h
  refine ⟨k, f, sent_append es hf, hm, hu, fun hunicast => ?_⟩
  obtain ⟨r, hr⟩ := hack hunicast
  exact ⟨r, List.mem_append_left es hr⟩

theorem answered_slot {n : ι} {i : AirInput ι} {s s' : TschState} {es : List (AirEvent ι)}
    {m : LinkAddr} {u : Nat} (hread : i.slot.ReadOk) (hi : PacketsHeld s)
    (hI : SenderInv (cfg n) (eventsOf n log) s)
    (hm : airMove cfg n log i s = some (es, s'))
    (hok : .attempt m u .ok ∈ attemptEvents (cfg n) i.slot s) :
    Answered (log ++ atNode n es) n m u := by
  obtain ⟨hs, as, has, rfl⟩ := airMove_spec hm
  have hevent : ∃ p l, slotEvent (cfg n) i.slot s = .attempt m p l .ok := by
    simp only [attemptEvents] at hok
    split at hok
    · rename_i n' p l st he
      cases List.mem_singleton.mp hok
      exact ⟨p, l, he⟩
    · cases hok
    · cases hok
  obtain ⟨p, l, hevent⟩ := hevent
  rcases slotEvent_ok hevent with ⟨loc, hpc⟩ | ⟨loc, hpc⟩
  · -- the frame that has just gone out
    simp only [airEvents, hpc] at has
    obtain ⟨f, hf, rfl⟩ := Option.map_eq_some_iff.mp has
    obtain ⟨-, -, -, -, -, -, hunicast⟩ := SenderInv.airFrame_head hi (by rw [hpc]; rfl) hf
    rcases slotStep_txBeforeTx hi hs hpc hf with ⟨hnil, -, -⟩ | ⟨st, hattempt, hno⟩
    · rw [hnil] at hok
      cases hok
    · rw [hattempt] at hok
      cases List.mem_singleton.mp hok
      refine ⟨(sentLog (eventsOf n log)).length, f, ?_, rfl, rfl, fun hyes => ?_⟩
      · rw [eventsOf_append, eventsOf_atNode, sentLog_append, List.getElem?_append_right le_rfl,
          Nat.sub_self]
        rfl
      · rw [hunicast, hno rfl] at hyes
        cases hyes
  · -- the last frame, and its acknowledgement
    obtain ⟨-, f, hf, hlast⟩ := hI.waiting loc hpc
    rw [slotStep_txBeforeAck hi hs hpc hf] at hok
    have haccepted : ackAccepted (cfg n) i.slot = true := by
      by_contra hno
      rw [if_neg hno] at hok
      cases List.mem_singleton.mp hok
    have hack := ackReceived_of_accepted (cfg n) hread haccepted
    rw [if_pos haccepted] at hok
    cases List.mem_singleton.mp hok
    simp only [airEvents, hpc, hack, Bool.true_and] at has
    split at has
    · cases has
    · rename_i hanswered
      have hanswered : acknowledged log n = true := by simpa using hanswered
      simp only [acknowledged, List.any_eq_true, Bool.and_eq_true, decide_eq_true_eq] at hanswered
      obtain ⟨⟨r, e⟩, hmem, -, he⟩ := hanswered
      have he : e = .acked n ((sentLog (eventsOf n log)).length - 1) := he
      subst he
      refine Answered.append ⟨_, f, ?_, rfl, rfl, fun _ => ⟨r, hmem⟩⟩ _
      rw [← hlast, List.getLast?_eq_getElem?]

theorem answered_runs (hr : T.Runs log N) {n : ι} (hread : ∀ i, T.driver n i → i.ReadOk)
    (m : LinkAddr) (u : Nat) :
    .attempt m u .ok ∈ queueLog (eventsOf n log) → Answered log n m u := by
  refine NetHistory.record
    (R := fun log => .attempt m u .ok ∈ queueLog (eventsOf n log) → Answered log n m u)
    (fun h => by cases h) ?_ ?_ hr
  · intro log N k s' _ ih h
    refine (ih ?_).append _
    rw [eventsOf_append, queueLog_append] at h
    rcases List.mem_append.mp h with h | h
    · exact h
    · exfalso
      by_cases hk : k = n
      · subst hk
        rw [eventsOf_atNode, processEvents, queueLog_queue] at h
        exact attempt_notMem_queueEvents h
      · rw [eventsOf_atNode_of_ne _ hk] at h
        cases h
  · rintro log N k es s' hrun ⟨i, hd, hm⟩ ih h
    rw [eventsOf_append, queueLog_append] at h
    rcases List.mem_append.mp h with h | h
    · exact (ih h).append _
    · by_cases hk : k = n
      · subst hk
        obtain ⟨hi, hI⟩ := senderInv_runs hrun k
        refine answered_slot (hread _ hd) hi hI hm ?_
        obtain ⟨-, as, has, rfl⟩ := airMove_spec hm
        rw [eventsOf_atNode, queueLog_append, queueLog_append, (airEvents_sent has).1,
          queueLog_deliveries, queueLog_queue, List.nil_append, List.nil_append] at h
        exact (List.mem_append.mp h).resolve_right attempt_notMem_queueEvents
      · rw [eventsOf_atNode_of_ne _ hk] at h
        cases h

/-! ## From queue to ring -/

/-- The frames of `S` that `r` has taken in. -/
def framesFrom (r S : ι) (log : List (ι × AirEvent ι)) : List AirFrame :=
  (received S (eventsOf r log)).filterMap fun k => (sentLog (eventsOf S log))[k]?

/-- The packets of neighbor `m` among them. -/
def takenIn (m : LinkAddr) (r S : ι) (log : List (ι × AirEvent ι)) : List Nat :=
  (framesFrom r S log).filterMap fun f => if f.neighbor = m then some f.uid else none

/-- **The air neither repeats nor reorders**: what a node takes in of the frames of another
is a subsequence of them. -/
theorem framesFrom_sublist (hr : T.Runs log N) (r S : ι) :
    (framesFrom r S log).Sublist (sentLog (eventsOf S log)) := by
  obtain ⟨hincreasing, hreadAs⟩ := heardFrames_runs hr r S
  have htaken := (receiverInv_runs hr r).taken S
  have hsub : (received S (eventsOf r log)).Sublist (heard S (eventsOf r log)) := by
    rw [htaken]
    exact List.sublist_append_left _ _
  refine filterMap_getElem?_sublist (fun k hk => ?_) (hincreasing.sublist hsub)
  obtain ⟨g, hg⟩ := (mem_heard _ _).mp (hsub.subset hk)
  obtain ⟨f, hf⟩ := hreadAs k g hg
  exact (List.getElem?_eq_some_iff.mp hf.sent).1

omit [DecidableEq ι] in
/-- A packet goes on the air no more often than it may be tried. -/
theorem SenderInv.sent_le {cfg : Config} {h : List (AirEvent ι)} {s : TschState} (hi : PacketsHeld s)
    (hI : SenderInv cfg h s) {m : LinkAddr} {u maxTransmissions : Nat}
    (hacc : .accepted m u maxTransmissions ∈ queueLog h) :
    (sentLog h).countP (fun f => f.uid = u) ≤ max 1 maxTransmissions := by
  have hcount := hI.counted u
  have hmem := mem_acceptedFor.mpr ⟨_, hacc⟩
  rw [hI.fifo.order m] at hmem
  rcases List.mem_append.mp hmem with hleft | hqueued
  · -- it has left: all its attempts are over
    obtain ⟨ret, hret⟩ := mem_leftFrom.mp hleft
    obtain ⟨a, ha, hretries⟩ := hI.fifo.hasLeft m u ret hret
    obtain ⟨-, rfl⟩ := hI.fifo.once m m u _ _ ha hacc
    have hnone : waitingUid s ≠ some u := by
      intro hw
      simp only [waitingUid] at hw
      split at hw
      · rename_i loc hpc
        obtain ⟨k, p, -, hp, hhead⟩ := hi.head (by rw [hpc]; rfl)
        rw [hp, Option.map_some, Option.some.injEq] at hw
        exact (hI.fifo.gone m u ret hret).2 k p (List.mem_of_mem_head? hhead) hw
      · cases hw
    rw [if_neg hnone] at hcount
    exact hcount.trans hretries.bounded
  · -- it is queued: one more attempt is allowed
    obtain ⟨p, hp, rfl⟩ := List.mem_map.mp hqueued
    obtain ⟨hacc', hmay⟩ := hI.fifo.queued hp
    obtain ⟨-, rfl⟩ := hI.fifo.once _ _ _ _ _ hacc hacc'
    have hbelow := hmay.below
    split at hcount <;> omega

variable (cfg) in
/-- Frame `k` of `n` is at its receiver: node `r`, with the address `m`, has acknowledged it
and put it into its input ring. -/
structure ArrivedAt (r n : ι) (k : Nat) (m : LinkAddr) (log : List (ι × AirEvent ι)) : Prop where
  other : r ≠ n
  acked : (r, .acked n k) ∈ log
  delivered : ∃ g, (r, .delivered n k g) ∈ log ∧ g.sourceAddress = (cfg n).linkaddrNodeAddr ∧
    g.destinationAddress = m
  address : m = (cfg r).linkaddrNodeAddr ∨ m = (cfg r).linkaddrNull

/-- Who acknowledges a frame has read it, and puts it into the ring. -/
theorem arrivedAt_of_acked (hr : T.Runs log N) {n r : ι} {k : Nat} {f : AirFrame}
    (hf : (sentLog (eventsOf n log))[k]? = some f) (hunicast : f.unicast = true)
    (hacked : (r, .acked n k) ∈ log) : ArrivedAt cfg r n k f.neighbor log := by
  have hI := receiverInv_runs hr r
  obtain ⟨g, hdelivered⟩ := hI.acked n k ((mem_eventsOf _).mpr hacked)
  obtain ⟨f', hread⟩ := (heardFrames_runs hr r n).readAs k g (hI.asRead n k g (.inl hdelivered))
  cases hf.symm.trans hread.sent
  have hdest : g.destinationAddress = f.neighbor := by
    rw [hread.destination, AirFrame.destination, if_pos hunicast]
  exact ⟨hread.other.symm, hacked, ⟨g, (mem_eventsOf _).mp hdelivered, hread.source, hdest⟩,
    hdest ▸ hread.addressed⟩

/-- **What is reported as sent has arrived.**  The radio driver of the sender never returns a
negative length.  Then a packet for a real neighbor that has left its queue with `MAC_TX_OK`
went out in a frame that a node with the address of the neighbor has put into its input
ring. -/
theorem sent_delivered (hr : T.Runs log N) {n : ι} (hread : ∀ i, T.driver n i → i.ReadOk)
    {m : LinkAddr} {u : Nat} (hm : (cfg n).isVirtual m = false)
    (hleft : (n, .queue (.left m u .ok)) ∈ log) :
    ∃ r k f, (sentLog (eventsOf n log))[k]? = some f ∧ f.neighbor = m ∧ f.uid = u ∧
      ArrivedAt cfg r n k m log := by
  obtain ⟨-, hI⟩ := senderInv_runs hr n
  have hqueue : .left m u .ok ∈ queueLog (eventsOf n log) :=
    List.mem_filterMap.mpr ⟨_, (mem_eventsOf _).mpr hleft, rfl⟩
  obtain ⟨a, ha, hretries⟩ := hI.fifo.hasLeft m u .ok hqueue
  -- its last attempt was a good one
  obtain ⟨m', hok⟩ : ∃ m', .attempt m' u .ok ∈ queueLog (eventsOf n log) := by
    have hlast : .ok ∈ attemptsOf u (queueLog (eventsOf n log)) :=
      List.mem_of_getLast? hretries.last
    obtain ⟨e, he, hst⟩ := List.mem_filterMap.mp hlast
    cases e with
    | attempt k v st =>
        simp only [FifoEvent.attemptOf] at hst
        split at hst
        · rename_i hv
          cases hv
          cases hst
          exact ⟨k, he⟩
        · cases hst
    | accepted k v b => cases hst
    | left k v st => cases hst
  obtain ⟨k, f, hf, rfl, rfl, hack⟩ := answered_runs hr hread m' u hok
  have hframe := hI.frames f (List.mem_of_getElem? hf)
  obtain ⟨b, hb⟩ := mem_acceptedFor.mp hframe.accepted
  obtain ⟨rfl, -⟩ := hI.fifo.once _ _ _ _ _ ha hb
  have hunicast : f.unicast = true := by rw [hframe.unicast, hm, Bool.not_false]
  obtain ⟨r, hacked⟩ := hack hunicast
  exact ⟨r, k, f, hf, rfl, rfl, arrivedAt_of_acked hr hf hunicast hacked⟩

/-- **In order.**  What a node takes in of the packets that another has queued for a neighbor
comes in the order in which these were accepted. -/
theorem delivered_in_order (hr : T.Runs log N) (m : LinkAddr) (r S : ι) :
    (acceptedFor m (queueLog (eventsOf S log))).Pairwise (· < ·) ∧
      (takenIn m r S log).Pairwise (· ≤ ·) ∧
      ∀ u ∈ takenIn m r S log, u ∈ acceptedFor m (queueLog (eventsOf S log)) := by
  obtain ⟨-, hI⟩ := senderInv_runs hr S
  have hsub := framesFrom_sublist hr r S
  refine ⟨hI.sorted m, ?_, fun u hu => ?_⟩
  · refine List.Pairwise.filterMap _ ?_ (hI.ordered.sublist hsub)
    intro f g hfg u hu v hv
    split at hu
    · rename_i hf
      split at hv
      · rename_i hg
        cases hu
        cases hv
        exact hfg (hf.trans hg.symm)
      · cases hv
    · cases hu
  · obtain ⟨f, hf, hu⟩ := List.mem_filterMap.mp hu
    split at hu
    · rename_i hm
      cases hu
      have hframe := hI.frames f (hsub.subset hf)
      rw [← hm]
      exact hframe.accepted
    · cases hu

/-- **Bounded copies.**  A node takes in a packet of another no more often than the packet
may be tried. -/
theorem delivered_bounded (hr : T.Runs log N) {m : LinkAddr} {S : ι} {u maxTransmissions : Nat}
    (hacc : (S, .queue (.accepted m u maxTransmissions)) ∈ log) (r : ι) :
    (takenIn m r S log).count u ≤ max 1 maxTransmissions := by
  obtain ⟨hi, hI⟩ := senderInv_runs hr S
  have hqueue : .accepted m u maxTransmissions ∈ queueLog (eventsOf S log) :=
    List.mem_filterMap.mpr ⟨_, (mem_eventsOf _).mpr hacc, rfl⟩
  calc (takenIn m r S log).count u
      = (framesFrom r S log).countP
          fun f => (if f.neighbor = m then some f.uid else none) == some u := List.count_filterMap
    _ ≤ (framesFrom r S log).countP fun f => f.uid = u := by
        refine List.countP_mono_left fun f _ hf => ?_
        split at hf
        · simpa using hf
        · cases hf
    _ ≤ (sentLog (eventsOf S log)).countP fun f => f.uid = u :=
        (framesFrom_sublist hr r S).countP_le
    _ ≤ max 1 maxTransmissions := hI.sent_le hi hqueue

/-! ## Two nodes -/

/-- Nodes `1` and `2`. -/
def pairBuild (n : Bool) : Config := { smallBuild 8 with linkaddrNodeAddr := if n then 2 else 1 }

/-- One slotframe of one slot, in it a link from node `1` to node `2`. -/
def pairNode (n : Bool) : TschState :=
  { (TschState.boot (pairBuild n)).joined 0 with
    sched :=
      { linkMemb := {0}, links := fun _ => ⟨0, 2, 0, 0, 0, ⟨!n, n, false, false⟩, .normal, 0⟩
        slotframeMemb := {0}, slotframes := fun _ => ⟨0, 1, [0]⟩, slotframeList := [0]
        currentLinkHandle := 1 } }

theorem ledger_pairNode (n : Bool) :
    (pairNode n).ledger = ⟨[254, 255], fun _ => [], [], ∅, fun _ => 0, 0, [], [], []⟩ := rfl

theorem start_pairNode (n : Bool) : NodeStart (pairBuild n) (pairNode n) where
  free := rfl
  settled := ⟨rfl, rfl⟩
  flags := ⟨by simp [pairNode, TschState.joined, TschState.boot], fun h => by cases h⟩
  notTx := rfl
  balanced := by
    rw [ledger_pairNode]
    exact ⟨by decide, fun _ _ => rfl, List.nodup_nil, fun _ hb => (by cases hb), .refl _,
      List.prefix_refl _, List.prefix_refl _⟩
  empty _ := rfl
  virtual := VirtualOk.boot.of_same rfl
  asleep := rfl

/-- Node `1` has one packet for node `2`. -/
def pairNetwork : TschNetwork pairBuild where
  state := pairNode
  driver _ i := i.ReadOk
  calls n := if n then [] else [.call (.addPacket 2 3 0 0 true)]
  fuel _ := 1
  start := start_pairNode
  noFlush n c hc := by
    cases n with
    | true => cases hc
    | false =>
        cases List.mem_singleton.mp hc
        exact (by decide : 3 < 256)

/-- A step of a node whose radio driver does what the code expects of it. -/
def airMoveReadOk (n : Bool) (log : List (Bool × AirEvent Bool)) (i : AirInput Bool)
    (s : TschState) : Option (List (AirEvent Bool) × TschState) :=
  if i.slot.ReadOk then airMove pairBuild n log i s else none

theorem airStep_of_readOk {n : Bool} {log : List (Bool × AirEvent Bool)} {i : AirInput Bool}
    {s s' : TschState} {es : List (AirEvent Bool)} (h : airMoveReadOk n log i s = some (es, s')) :
    AirStep pairBuild (fun _ i => i.ReadOk) n log es s s' := by
  simp only [airMoveReadOk] at h
  split at h
  · rename_i hread
    exact ⟨i, hread, h⟩
  · cases h

/-- Both nodes go through a slot at time `t`: frame `k` is read, and acknowledged. -/
def pairSlot (k : Nat) (t : Int) (ackHeard : Bool) : List (Bool × Option (AirInput Bool)) :=
  let air (i : SlotInput) : Option (AirInput Bool) := some ⟨i, false, k⟩
  [(false, air (.quiet t)), (true, air (.quiet t)), (false, air (.quiet t)),
    (true, air { SlotInput.quiet t with received := some ⟨true, true, true, 2, 1, true, false, true, 0⟩ }),
    (true, air (.quiet t)),
    (false, air { SlotInput.quiet t with ackLen := if ackHeard then 1 else 0, eackParsed := true })]

/-- The first acknowledgement is lost, so the packet is sent again, and arrives twice. -/
theorem exists_lostAck : ∃ log N, pairNetwork.Runs log N ∧
    (false, .queue (.accepted 2 0 3)) ∈ log ∧ (false, .queue (.left 2 0 .ok)) ∈ log ∧
    takenIn 2 true false log = [0, 0] := by
  obtain ⟨log, N, hr, hc⟩ := exists_netHistory airMoveReadOk processEvents pairNetwork.boot
    (AirStep pairBuild fun _ i => i.ReadOk) (fun _ _ _ _ _ _ => airStep_of_readOk)
    (List.replicate 15 (false, none) ++
      [(false, some ⟨.quiet 0, false, 0⟩), (true, some ⟨.quiet 0, false, 0⟩)] ++
      pairSlot 0 328 false ++ pairSlot 1 656 true)
    (fun r => decide ((false, .queue (.accepted 2 0 3)) ∈ r.1 ∧ (false, .queue (.left 2 0 .ok)) ∈ r.1 ∧
      takenIn 2 true false r.1 = [0, 0])) (by decide +kernel)
  exact ⟨log, N, hr, of_decide_eq_true hc⟩

theorem sent_delivered_again : ∃ log N, pairNetwork.Runs log N ∧
    ∃ r k f, (sentLog (eventsOf false log))[k]? = some f ∧ f.neighbor = 2 ∧ f.uid = 0 ∧
      ArrivedAt pairBuild r false k 2 log := by
  obtain ⟨log, N, hr, -, hleft, -⟩ := exists_lostAck
  exact ⟨log, N, hr, sent_delivered hr (fun _ hread => hread) (by decide) hleft⟩

theorem delivered_in_order_twice : ∃ log N, pairNetwork.Runs log N ∧
    takenIn 2 true false log = [0, 0] ∧ (takenIn 2 true false log).Pairwise (· ≤ ·) := by
  obtain ⟨log, N, hr, -, -, htaken⟩ := exists_lostAck
  exact ⟨log, N, hr, htaken, (delivered_in_order hr 2 true false).2.1⟩

theorem delivered_bounded_twice : ∃ log N, pairNetwork.Runs log N ∧
    (takenIn 2 true false log).count 0 = 2 ∧ (takenIn 2 true false log).count 0 ≤ max 1 3 := by
  obtain ⟨log, N, hr, hacc, -, htaken⟩ := exists_lostAck
  exact ⟨log, N, hr, by rw [htaken]; rfl, delivered_bounded hr hacc true⟩

end QlTsch
