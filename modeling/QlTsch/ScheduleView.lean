/-
# `QlTsch.ScheduleView` — the schedule calls as functions

A schedule program takes the lock, writes a slotframe, a link or a counter, and
releases it, with slot interrupts in between.  None of the interrupts writes what
the programs read, so each program is a function of the `View`: the schedule, the
neighbor table and the link counters.  Here are these functions; that the
programs compute them under every interleaving is `QlTsch.ScheduleRefine`.

Each call also has its *visible* views: those that are there while the lock is
free, between two of its critical sections.  What an interrupt relies on outside
the lock has to hold of them.
-/
import QlTsch.SlotFrame

namespace QlTsch

variable (cfg : Config)

namespace View

def link (v : View) (p : Nat) : TschLink := v.sched.links p
def slotframe (v : View) (b : Nat) : TschSlotframe := v.sched.slotframes b
def setSched (w : ScheduleVars) (v : View) : View := { v with sched := w }

/-! ## Neighbors -/

/-- Count a Tx link of neighbor `n` in (`d = 1`) or out (`d = -1`). -/
def countTx (n : LinkAddr) (o : LinkOptions) (d : Int) (v : View) : View :=
  { v with
    txLinks := Function.update v.txLinks n (v.txLinks n + d)
    dedicatedTxLinks :=
      if o.shared then v.dedicatedTxLinks
      else Function.update v.dedicatedTxLinks n (v.dedicatedTxLinks n + d) }

/-- `tsch_queue_add_nbr`: a new entry has no links. -/
def addNbr (a : LinkAddr) (v : View) : Option LinkAddr × View :=
  if a ∈ v.nbrs then (some a, v)
  else
    match cfg.nbrTableAdd v.nbrs a with
    | some i => (some a, { v with
        nbrs := v.nbrs.insertIdx i a
        txLinks := Function.update v.txLinks a 0
        dedicatedTxLinks := Function.update v.dedicatedTxLinks a 0 })
    | none => (none, v)

/-! ## Removing links -/

/-- The link is taken off its slotframe and its block freed. -/
def unlink (b p : Nat) (v : View) : View :=
  v.setSched { v.sched.setSlotframe b
      { v.slotframe b with linksList := (v.slotframe b).linksList.erase p } with
    linkMemb := v.sched.linkMemb.erase p }

/-- A Tx link of a known neighbor is counted out. -/
def uncount (o : LinkOptions) (a : LinkAddr) (v : View) : View :=
  if o.tx = true ∧ a ∈ v.nbrs then v.countTx a o (-1) else v

/-- `tsch_schedule_remove_link`. -/
def removeLink (b p : Nat) (v : View) : Bool × View :=
  if (v.link p).slotframeHandle = (v.slotframe b).handle then
    (true, (v.unlink b p).uncount (v.link p).linkOptions (v.link p).addr)
  else (false, v)

/-- One item of the loop of `tsch_schedule_remove_link_by_timeslot`. -/
def removeLinkIfAt (b ts off p : Nat) (v : View) : Bool × View :=
  if (v.link p).timeslot = ts ∧ (v.link p).channelOffset = off then v.removeLink b p else (false, v)

def removeLinksAt (b ts off : Nat) : List Nat → View → Bool × View
  | [], v => (false, v)
  | p :: ls, v =>
      let r := v.removeLinkIfAt b ts off p
      let r' := removeLinksAt b ts off ls r.2
      (r.1 || r'.1, r'.2)

/-- `tsch_schedule_remove_link_by_timeslot` on a slotframe. -/
def removeLinkByTimeslot (b ts off : Nat) (v : View) : Bool × View :=
  v.removeLinksAt b ts off (v.slotframe b).linksList

/-! ## Adding links -/

/-- The new link is written and put on its slotframe. -/
def install (b p : Nat) (o : LinkOptions) (ty : LinkType) (a : LinkAddr) (ts off : Nat)
    (v : View) : View :=
  v.setSched
    { v.sched with
      linkMemb := insert p v.sched.linkMemb
      slotframes := Function.update v.sched.slotframes b
        { v.slotframe b with linksList := (v.slotframe b).linksList ++ [p] }
      links := Function.update v.sched.links p
        { handle := v.sched.currentLinkHandle % 65536
          addr := a
          slotframeHandle := (v.slotframe b).handle
          timeslot := ts
          channelOffset := off
          linkOptions := o
          linkType := ty
          serial := v.sched.currentLinkHandle }
      currentLinkHandle := v.sched.currentLinkHandle + 1 }

/-- A Tx link is counted in, if its neighbor is in the table or fits in. -/
def count (o : LinkOptions) (a : LinkAddr) (v : View) : View :=
  if o.tx then
    match addNbr cfg a v with
    | (some n, w) => w.countTx n o 1
    | (none, w) => w
  else v

/-- `tsch_schedule_add_link` from taking the lock on. -/
def installLink (b : Nat) (o : LinkOptions) (ty : LinkType) (a : LinkAddr) (ts off : Nat)
    (v : View) : Option Nat × View :=
  match cfg.memb.pick v.sched.linkMemb cfg.tschScheduleMaxLinks with
  | some p => (some p, (v.install b p o ty a ts off).count cfg o a)
  | none => (none, v)

/-- `tsch_schedule_add_link`. -/
def addLink (b : Nat) (o : LinkOptions) (ty : LinkType) (a : Option LinkAddr) (ts off : Nat)
    (rm : Bool) (v : View) : Option Nat × View :=
  if (ts : Int) > (v.slotframe b).size - 1 then (none, v)
  else installLink cfg b o ty (a.getD cfg.linkaddrNull) ts off
    (if rm then (v.removeLinkByTimeslot b ts off).2 else v)

/-! ## Slotframes -/

/-- `tsch_schedule_add_slotframe`. -/
def addSlotframe (handle size : Nat) (v : View) : Option Nat × View :=
  if size = 0 ∨ (v.sched.slotframeList.any fun b => (v.slotframe b).handle == handle) = true then
    (none, v)
  else
    match cfg.memb.pick v.sched.slotframeMemb cfg.tschScheduleMaxSlotframes with
    | some b => (some b, v.setSched { v.sched.setSlotframe b ⟨handle, size, []⟩ with
        slotframeMemb := insert b v.sched.slotframeMemb
        slotframeList := v.sched.slotframeList ++ [b] })
    | none => (none, v)

/-- A slotframe without links is taken off the list and freed. -/
def dropSlotframe (b : Nat) (v : View) : View :=
  v.setSched { v.sched with
    slotframeMemb := v.sched.slotframeMemb.erase b
    slotframeList := v.sched.slotframeList.erase b }

/-- The loop of `tsch_schedule_remove_slotframe`, over the links it finds. -/
def removeLinks (b : Nat) : List Nat → View → View
  | [], v => v
  | p :: ls, v => removeLinks b ls (v.removeLink b p).2

/-! ## What is visible outside the lock -/

def removeLinkVisible (b p : Nat) (v : View) : List View :=
  if (v.link p).slotframeHandle = (v.slotframe b).handle then
    [v.unlink b p, (v.removeLink b p).2]
  else []

def removeLinkIfAtVisible (b ts off p : Nat) (v : View) : List View :=
  if (v.link p).timeslot = ts ∧ (v.link p).channelOffset = off then removeLinkVisible b p v else []

def removeLinksAtVisible (b ts off : Nat) : List Nat → View → List View
  | [], _ => []
  | p :: ls, v =>
      removeLinkIfAtVisible b ts off p v ++
        removeLinksAtVisible b ts off ls (v.removeLinkIfAt b ts off p).2

def installLinkVisible (b : Nat) (o : LinkOptions) (ty : LinkType) (a : LinkAddr) (ts off : Nat)
    (v : View) : List View :=
  match cfg.memb.pick v.sched.linkMemb cfg.tschScheduleMaxLinks with
  | some p =>
      let w := v.install b p o ty a ts off
      if o.tx then [w, (addNbr cfg a w).2, w.count cfg o a] else [w]
  | none => [v]

def addLinkVisible (b : Nat) (o : LinkOptions) (ty : LinkType) (a : Option LinkAddr) (ts off : Nat)
    (rm : Bool) (v : View) : List View :=
  if rm then
    v.removeLinksAtVisible b ts off (v.slotframe b).linksList ++
      installLinkVisible cfg b o ty (a.getD cfg.linkaddrNull) ts off
        (v.removeLinkByTimeslot b ts off).2
  else installLinkVisible cfg b o ty (a.getD cfg.linkaddrNull) ts off v

end View

end QlTsch
