/-
# `QlTsch.Network` — frames and acknowledgements between nodes

A network is any number of nodes that run this code, each with its own schedule, its own
processes and its own clock: their steps come in any order.  What they have in common is
the air.  Which frames and acknowledgements get through is left open; what the air
guarantees is only this:

* a frame that a node reads is the last one that another node has sent, unchanged, and
  a node reads each transmission once;
* a valid acknowledgement answers the last frame of the node that waits for it: some node
  has read this frame and acknowledged it.

A frame is to the address whose queue its packet is in, and one from a virtual neighbor to
the null address: `tsch_queue_add_packet` is called with the receiver of the frame.

The record of a network is the frames that were sent, read and acknowledged, what the input
rings have won, and what has become of the queues (`AirEvent`).  The air reads nothing else.

What the radio drivers may answer is open as well (`TschNetwork.driver`): a result that needs
something of them says so.
-/
import QlTsch.Lib.Network
import QlTsch.PacketCalls
import QlTsch.VirtualNeighbors

namespace QlTsch

open Interleave Interleave.Prog

/-! ## The record -/

/-- A frame on the air. -/
structure AirFrame where
  /-- the queue of its packet -/
  neighbor : LinkAddr
  uid : Nat
  /-- its sender waits for an acknowledgement -/
  unicast : Bool
deriving DecidableEq, Repr

def AirFrame.destination (cfg : Config) (f : AirFrame) : LinkAddr :=
  if f.unicast then f.neighbor else cfg.linkaddrNull

inductive AirEvent (ι : Type) where
  /-- something has become of the queues -/
  | queue (e : FifoEvent)
  | sent (f : AirFrame)
  /-- frame `k` of `sender` is read, as `f` -/
  | read (sender : ι) (k : Nat) (f : RxFrame)
  /-- an acknowledgement of frame `k` of `sender` goes out -/
  | acked (sender : ι) (k : Nat)
  /-- the input ring wins `f`, read as frame `k` of `sender` -/
  | delivered (sender : ι) (k : Nat) (f : RxFrame)
deriving DecidableEq, Repr

section
variable {ι : Type}

def AirEvent.queueEvent : AirEvent ι → Option FifoEvent
  | .queue e => some e
  | .sent _ | .read _ _ _ | .acked _ _ | .delivered _ _ _ => none

def AirEvent.frame : AirEvent ι → Option AirFrame
  | .sent f => some f
  | .queue _ | .read _ _ _ | .acked _ _ | .delivered _ _ _ => none

/-- The frame that the input ring wins. -/
def AirEvent.ringFrame : AirEvent ι → Option RxFrame
  | .delivered _ _ f => some f
  | .queue _ | .sent _ | .read _ _ _ | .acked _ _ => none

/-- What has become of the queues. -/
def queueLog (h : List (AirEvent ι)) : List FifoEvent := h.filterMap AirEvent.queueEvent

/-- The frames of a node, in order. -/
def sentLog (h : List (AirEvent ι)) : List AirFrame := h.filterMap AirEvent.frame

/-- The frames that the input ring has won, in order. -/
def ringLog (h : List (AirEvent ι)) : List RxFrame := h.filterMap AirEvent.ringFrame

/-- The frame that a node has read and not put into its ring yet. -/
def AirEvent.openRead (r : Option (ι × Nat × RxFrame)) :
    AirEvent ι → Option (ι × Nat × RxFrame)
  | .read sender k f => some (sender, k, f)
  | .delivered _ _ _ => none
  | .queue _ | .sent _ | .acked _ _ => r

def openRead (h : List (AirEvent ι)) : Option (ι × Nat × RxFrame) := h.foldl AirEvent.openRead none

section
variable [DecidableEq ι] (S : ι)

def AirEvent.heardFrom : AirEvent ι → Option Nat
  | .read sender k _ => if sender = S then some k else none
  | .delivered _ _ _ | .acked _ _ | .queue _ | .sent _ => none

def AirEvent.receivedFrom : AirEvent ι → Option Nat
  | .delivered sender k _ => if sender = S then some k else none
  | .read _ _ _ | .acked _ _ | .queue _ | .sent _ => none

/-- The frames of `S` that a node has read. -/
def heard (h : List (AirEvent ι)) : List Nat := h.filterMap (AirEvent.heardFrom S)

/-- The frames of `S` that a node has taken in. -/
def received (h : List (AirEvent ι)) : List Nat := h.filterMap (AirEvent.receivedFrom S)

end

section
variable (h h' : List (AirEvent ι)) (es : List FifoEvent)

@[simp] theorem queueLog_append : queueLog (h ++ h') = queueLog h ++ queueLog h' :=
  List.filterMap_append

@[simp] theorem sentLog_append : sentLog (h ++ h') = sentLog h ++ sentLog h' :=
  List.filterMap_append

@[simp] theorem ringLog_append : ringLog (h ++ h') = ringLog h ++ ringLog h' :=
  List.filterMap_append

@[simp] theorem ringLog_queue : ringLog (es.map (AirEvent.queue (ι := ι))) = [] := by
  simp only [ringLog, List.filterMap_map]
  exact List.filterMap_eq_nil_iff.mpr fun _ _ => rfl

@[simp] theorem queueLog_queue : queueLog (es.map (AirEvent.queue (ι := ι))) = es := by
  simp only [queueLog, List.filterMap_map]
  exact List.filterMap_some

@[simp] theorem sentLog_queue : sentLog (es.map (AirEvent.queue (ι := ι))) = [] := by
  simp only [sentLog, List.filterMap_map]
  exact List.filterMap_eq_nil_iff.mpr fun _ _ => rfl

@[simp] theorem openRead_queue : openRead (h ++ es.map .queue) = openRead h := by
  rw [openRead, List.foldl_append, List.foldl_map]
  induction es with
  | nil => rfl
  | cons e es ih => exact ih

@[simp] theorem openRead_sent (fs : List AirFrame) : openRead (h ++ fs.map .sent) = openRead h := by
  rw [openRead, List.foldl_append, List.foldl_map]
  induction fs with
  | nil => rfl
  | cons f fs ih => exact ih

theorem openRead_concat (e : AirEvent ι) : openRead (h ++ [e]) = e.openRead (openRead h) := by
  rw [openRead, List.foldl_append]
  rfl

variable [DecidableEq ι] (S : ι)

@[simp] theorem heard_append : heard S (h ++ h') = heard S h ++ heard S h' := List.filterMap_append

@[simp] theorem received_append : received S (h ++ h') = received S h ++ received S h' :=
  List.filterMap_append

@[simp] theorem heard_queue : heard S (es.map .queue) = [] := by
  simp only [heard, List.filterMap_map]
  exact List.filterMap_eq_nil_iff.mpr fun _ _ => rfl

@[simp] theorem received_queue : received S (es.map .queue) = [] := by
  simp only [received, List.filterMap_map]
  exact List.filterMap_eq_nil_iff.mpr fun _ _ => rfl

@[simp] theorem heard_sent (fs : List AirFrame) : heard S (fs.map .sent) = [] := by
  simp only [heard, List.filterMap_map]
  exact List.filterMap_eq_nil_iff.mpr fun _ _ => rfl

@[simp] theorem received_sent (fs : List AirFrame) : received S (fs.map .sent) = [] := by
  simp only [received, List.filterMap_map]
  exact List.filterMap_eq_nil_iff.mpr fun _ _ => rfl

theorem mem_heard {k : Nat} : k ∈ heard S h ↔ ∃ f, .read S k f ∈ h := by
  simp only [heard, List.mem_filterMap]
  constructor
  · rintro ⟨e, he, hk⟩
    cases e with
    | read sender j f =>
        simp only [AirEvent.heardFrom] at hk
        split at hk
        · rename_i hS
          cases hS
          cases hk
          exact ⟨f, he⟩
        · cases hk
    | _ => cases hk
  · rintro ⟨f, hf⟩
    exact ⟨_, hf, if_pos rfl⟩

end

end

/-! ## The air -/

section
variable {ι : Type} [DecidableEq ι] (cfg : ι → Config)

/-- The frame of the transmit slot. -/
def airFrame (locals : TxLocals) (s : TschState) : Option AirFrame :=
  match s.slot.currentNeighbor, s.slot.currentPacket with
  | some n, some p => some ⟨n, (s.queue.packets p).uid, locals.doWaitForAck⟩
  | _, _ => none

/-- What a step of the slot operation of one node gets from outside: as in `SlotInput`,
and which transmission the frame it reads is. -/
structure AirInput (ι : Type) where
  slot : SlotInput
  sender : ι
  frame : Nat

/-- Node `n` may read `f` as frame `k` of `S`. -/
def Audible (log : List (ι × AirEvent ι)) (n S : ι) (k : Nat) (f : RxFrame) : Prop :=
  S ≠ n ∧ k + 1 = (sentLog (eventsOf S log)).length ∧ k ∉ heard S (eventsOf n log) ∧
    f.sourceAddress = (cfg S).linkaddrNodeAddr ∧
    ((sentLog (eventsOf S log))[k]?.map (AirFrame.destination (cfg S))) = some f.destinationAddress

instance (log : List (ι × AirEvent ι)) (n S : ι) (k : Nat) (f : RxFrame) :
    Decidable (Audible cfg log n S k f) := by
  unfold Audible
  infer_instance

/-- Some node has acknowledged the last frame of `n`. -/
def acknowledged (log : List (ι × AirEvent ι)) (n : ι) : Bool :=
  log.any fun e => (sentLog (eventsOf n log)).length ≠ 0 &&
    decide (e.2 = .acked n ((sentLog (eventsOf n log)).length - 1))

/-- What a step of node `n` sends, reads or acknowledges; `none` if the air does not allow
it. -/
def airEvents (log : List (ι × AirEvent ι)) (n : ι) (i : AirInput ι) (s : TschState) :
    Option (List (AirEvent ι)) :=
  match s.slot.pc with
  | .asleep | .txBeforeCca _ => some []
  | .txBeforeTx locals => (airFrame locals s).map fun f => [.sent f]
  | .txBeforeAck _ =>
      if ackReceived (cfg n) i.slot && !acknowledged log n then none else some []
  | .rxBeforeListen =>
      match i.slot.received with
      | none => some []
      | some f =>
          if frameIsForUs (cfg n) f then
            if Audible cfg log n i.sender i.frame f then some [.read i.sender i.frame f] else none
          else some []
  | .rxBeforeAck _ => some ((openRead (eventsOf n log)).toList.map fun r => .acked r.1 r.2.1)

/-- The frames that the input ring wins in a step. -/
def ringGrowth (s s' : TschState) : List RxFrame :=
  s'.slot.inputRingbuf.drop s.slot.inputRingbuf.length

/-- What the input ring wins in a step, after the record `h` of its node: the frame that the
node has read. -/
def deliveries (h : List (AirEvent ι)) (s s' : TschState) : List (AirEvent ι) :=
  match openRead h with
  | some (sender, k, _) => (ringGrowth s s').map (.delivered sender k)
  | none => []

/-- A step of node `n` and all that happens in it. -/
def airMove (n : ι) (log : List (ι × AirEvent ι)) (i : AirInput ι) (s : TschState) :
    Option (List (AirEvent ι) × TschState) :=
  match airEvents cfg log n i s, slotStep (cfg n) i.slot s with
  | some as, some s' =>
      some (as ++ deliveries (eventsOf n log ++ as) s s' ++
        (attemptEvents (cfg n) i.slot s ++ queueEvents s s').map .queue, s')
  | _, _ => none

def AirStep (driver : ι → SlotInput → Prop) (n : ι) (log : List (ι × AirEvent ι))
    (es : List (AirEvent ι)) (s s' : TschState) : Prop :=
  ∃ i, driver n i.slot ∧ airMove cfg n log i s = some (es, s')

/-- What a process does, as far as it is in the record. -/
def processEvents (s s' : TschState) : List (AirEvent ι) := (queueEvents s s').map .queue

/-- A node that has just booted and joined: nothing is queued. -/
structure NodeStart (cfg : Config) (s : TschState) : Prop extends Quiescent s where
  empty : ∀ n, s.ledger.queue n = []
  virtual : VirtualOk cfg s
  asleep : s.slot.pc = .asleep

/-- The nodes, what their radio drivers may answer, and what their processes are to do. -/
structure TschNetwork (cfg : ι → Config) where
  state : ι → TschState
  driver : ι → SlotInput → Prop
  calls : ι → List NodeCall
  fuel : ι → Nat
  start : ∀ n, NodeStart (cfg n) (state n)
  noFlush : ∀ n, ∀ c ∈ calls n, c.NoFlush

variable {cfg}

/-- The network before anything has happened. -/
def TschNetwork.boot (T : TschNetwork cfg) (n : ι) : Prog TschState Unit × TschState :=
  (Prog.forEach (T.calls n) (NodeCall.perform (cfg n) (T.fuel n)), T.state n)

/-- The runs of a network, with their record. -/
abbrev TschNetwork.Runs (T : TschNetwork cfg) (log : List (ι × AirEvent ι))
    (N : ι → Prog TschState Unit × TschState) : Prop :=
  NetHistory (AirStep cfg T.driver) processEvents T.boot log N

section
variable {h : List (AirEvent ι)} {s s' : TschState}

omit [DecidableEq ι] in
theorem mem_deliveries {e : AirEvent ι} (he : e ∈ deliveries h s s') :
    ∃ sender k f, e = .delivered sender k f := by
  simp only [deliveries] at he
  split at he
  · obtain ⟨f, -, rfl⟩ := List.mem_map.mp he
    exact ⟨_, _, f, rfl⟩
  · cases he

omit [DecidableEq ι] in
@[simp] theorem queueLog_deliveries : queueLog (deliveries h s s') = [] := by
  refine List.filterMap_eq_nil_iff.mpr fun e he => ?_
  obtain ⟨sender, k, f, rfl⟩ := mem_deliveries he
  rfl

omit [DecidableEq ι] in
@[simp] theorem sentLog_deliveries : sentLog (deliveries h s s') = [] := by
  refine List.filterMap_eq_nil_iff.mpr fun e he => ?_
  obtain ⟨sender, k, f, rfl⟩ := mem_deliveries he
  rfl

@[simp] theorem heard_deliveries (S : ι) : heard S (deliveries h s s') = [] := by
  refine List.filterMap_eq_nil_iff.mpr fun e he => ?_
  obtain ⟨sender, k, f, rfl⟩ := mem_deliveries he
  rfl

end

theorem airMove_spec {n : ι} {log : List (ι × AirEvent ι)} {i : AirInput ι}
    {es : List (AirEvent ι)} {s s' : TschState} (h : airMove cfg n log i s = some (es, s')) :
    slotStep (cfg n) i.slot s = some s' ∧ ∃ as, airEvents cfg log n i s = some as ∧
      es = as ++ deliveries (eventsOf n log ++ as) s s' ++
        (attemptEvents (cfg n) i.slot s ++ queueEvents s s').map .queue := by
  simp only [airMove] at h
  split at h
  · rename_i as t has hs
    cases h
    exact ⟨hs, as, has, rfl⟩
  · cases h

end

end QlTsch
