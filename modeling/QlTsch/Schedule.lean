/-
# `QlTsch.Schedule` — slotframes and links

`tsch-schedule.c`.  The schedule is read from both contexts and written by
processes only, under the lock.  `tsch_schedule_get_next_active_link` is the one
function here that the slot interrupt calls; the rest are process programs.

`list_item_next` is read before the current item is removed in every loop of
the source, so a loop visits the items the list had when it began: `forEach` on
the list as it was.
-/
import QlTsch.Queue

namespace QlTsch

open Interleave

variable (cfg : Config)

namespace TschState

def link (s : TschState) (p : Nat) : TschLink := s.sched.links p
def slotframe (s : TschState) (b : Nat) : TschSlotframe := s.sched.slotframes b

def setSched (v : ScheduleVars) (s : TschState) : TschState := { s with sched := v }

end TschState

/-! ## Lookups -/

/-- `tsch_schedule_get_slotframe_by_handle`. -/
def tschScheduleGetSlotframeByHandle (s : TschState) (handle : Nat) : Option Nat :=
  if tschIsLocked s then none
  else s.sched.slotframeList.find? fun b => (s.slotframe b).handle == handle

/-- `tsch_schedule_get_link_by_handle`. -/
def tschScheduleGetLinkByHandle (s : TschState) (handle : Nat) : Option Nat :=
  if tschIsLocked s then none
  else s.sched.slotframeList.findSome? fun b =>
    (s.slotframe b).linksList.find? fun p => (s.link p).handle == handle

/-- `tsch_schedule_get_link_by_timeslot`. -/
def tschScheduleGetLinkByTimeslot (s : TschState) (slotframe : Option Nat)
    (timeslot channelOffset : Nat) : Option Nat :=
  if tschIsLocked s then none
  else
    match slotframe with
    | none => none
    | some b => (s.slotframe b).linksList.find? fun p =>
        (s.link p).timeslot == timeslot && (s.link p).channelOffset == channelOffset

/-! ## The next active link -/

/-- The accumulators of `tsch_schedule_get_next_active_link`. -/
structure NextLink where
  timeToCurrBest : Nat
  currBest : Option Nat
  currBackup : Option Nat
deriving DecidableEq, Repr

/-- How many slots from `timeslot` to the link's, in a slotframe of `size`;
a `uint16_t`. -/
def timeToTimeslot (size linkTimeslot timeslot : Nat) : Nat :=
  (if linkTimeslot > timeslot then linkTimeslot - timeslot
   else size + linkTimeslot - timeslot) % 65536

/-- Packets queued for the neighbor of an address. -/
def packetCountFor (s : TschState) (addr : LinkAddr) : Nat :=
  match tschQueueGetNbr s addr with
  | some n => (s.queue.neighbors n).txRingbuf.length
  | none => 0

/-- `default_tsch_link_comparator`. -/
def defaultTschLinkComparator (s : TschState) (a b : Nat) : Nat :=
  if !(s.link a).linkOptions.tx then a
  else if (s.link a).addr != (s.link b).addr then
    if packetCountFor s (s.link a).addr ≥ packetCountFor s (s.link b).addr then a else b
  else a

/-- Which of two links of one time is selected; `none` keeps the current best. -/
def newBest (s : TschState) (best p : Nat) : Option Nat :=
  let b := s.link best
  let l := s.link p
  if b.linkOptions.tx = l.linkOptions.tx then
    if l.slotframeHandle ≠ b.slotframeHandle then
      if l.slotframeHandle < b.slotframeHandle then some p else none
    else some (defaultTschLinkComparator s best p)
  else if l.linkOptions.tx then some p else none

/-- A link that is not selected becomes the backup if it can receive and its
slotframe comes before the backup's. -/
def offerBackup (s : TschState) (selected : Option Nat) (p : Nat) (backup : Option Nat) :
    Option Nat :=
  if selected ≠ some p ∧ (s.link p).linkOptions.rx then
    match backup with
    | none => some p
    | some q => if (s.link p).slotframeHandle < (s.link q).slotframeHandle then some p else some q
  else backup

/-- One link of the inner loop. -/
def considerLink (s : TschState) (size timeslot : Nat) (acc : NextLink) (p : Nat) : NextLink :=
  let t := timeToTimeslot size (s.link p).timeslot timeslot
  match acc.currBest with
  | none => ⟨t, some p, none⟩
  | some best =>
      if t < acc.timeToCurrBest then ⟨t, some p, none⟩
      else if t = acc.timeToCurrBest then
        let sel := newBest s best p
        { acc with
          currBest := some (sel.getD best)
          currBackup := offerBackup s sel best (offerBackup s sel p acc.currBackup) }
      else acc

/-- One slotframe of the outer loop. -/
def considerSlotframe (s : TschState) (asn : Nat) (acc : NextLink) (b : Nat) : NextLink :=
  (s.slotframe b).linksList.foldl
    (considerLink s (s.slotframe b).size (asn % (s.slotframe b).size)) acc

/-- `tsch_schedule_get_next_active_link`; under the lock nothing is looked up,
and `*time_offset` is not written. -/
def tschScheduleGetNextActiveLink (s : TschState) (asn : Nat) : NextLink :=
  if tschIsLocked s then ⟨0, none, none⟩
  else s.sched.slotframeList.foldl (considerSlotframe s asn) ⟨0, none, none⟩

/-! ## Called from processes: the actions under the lock -/

namespace TschState

/-- `memb_init(&link_memb)`. -/
def initLinkMemb (s : TschState) : TschState := s.setSched { s.sched with linkMemb := ∅ }

/-- `memb_init(&slotframe_memb)`. -/
def initSlotframeMemb (s : TschState) : TschState := s.setSched { s.sched with slotframeMemb := ∅ }

/-- `list_init(slotframe_list)`. -/
def initSlotframeList (s : TschState) : TschState := s.setSched { s.sched with slotframeList := [] }

/-- `memb_alloc(&slotframe_memb)`. -/
def allocSlotframe (s : TschState) : Option Nat × TschState :=
  match cfg.memb.pick s.sched.slotframeMemb cfg.tschScheduleMaxSlotframes with
  | some b => (some b, s.setSched { s.sched with
      slotframeMemb := insert b s.sched.slotframeMemb })
  | none => (none, s)

/-- Initialise a slotframe. -/
def initSlotframe (b handle size : Nat) (s : TschState) : TschState :=
  s.setSched (s.sched.setSlotframe b ⟨handle, size, []⟩)

/-- `list_add(slotframe_list, sf)`. -/
def listAddSlotframe (b : Nat) (s : TschState) : TschState :=
  s.setSched { s.sched with slotframeList := s.sched.slotframeList ++ [b] }

/-- `memb_free(&slotframe_memb, slotframe)`. -/
def freeSlotframe (b : Nat) (s : TschState) : TschState :=
  s.setSched { s.sched with slotframeMemb := s.sched.slotframeMemb.erase b }

/-- `list_remove(slotframe_list, slotframe)`. -/
def listRemoveSlotframe (b : Nat) (s : TschState) : TschState :=
  s.setSched { s.sched with slotframeList := s.sched.slotframeList.erase b }

/-- The block that is being added or removed. -/
def setLinkInFlux (p : Option Nat) (s : TschState) : TschState :=
  { s with ghost := { s.ghost with linkInFlux := p } }

/-- `memb_alloc(&link_memb)`. -/
def allocLink (s : TschState) : Option Nat × TschState :=
  match cfg.memb.pick s.sched.linkMemb cfg.tschScheduleMaxLinks with
  | some p => (some p, (s.setSched { s.sched with
      linkMemb := insert p s.sched.linkMemb }).setLinkInFlux (some p))
  | none => (none, s)

/-- `list_add(slotframe->links_list, l)`. -/
def listAddLink (b p : Nat) (s : TschState) : TschState :=
  s.setSched (s.sched.setSlotframe b
    { s.slotframe b with linksList := (s.slotframe b).linksList ++ [p] })

/-- Initialise a link and advance `current_link_handle`. -/
def initLink (b p : Nat) (linkOptions : LinkOptions) (linkType : LinkType) (address : LinkAddr)
    (timeslot channelOffset : Nat) (s : TschState) : TschState :=
  (s.setSched { s.sched.setLink p
      { handle := s.sched.currentLinkHandle % 65536
        addr := address
        slotframeHandle := (s.slotframe b).handle
        timeslot := timeslot
        channelOffset := channelOffset
        linkOptions := linkOptions
        linkType := linkType
        serial := s.sched.currentLinkHandle } with
    currentLinkHandle := s.sched.currentLinkHandle + 1 }).setLinkInFlux none

/-- `if(l == current_link)`.  If it is not, the removal of `l` has begun. -/
def testCurrentLink (p : Nat) (s : TschState) : Bool × TschState :=
  if s.slot.currentLink = some p then (true, s) else (false, s.setLinkInFlux (some p))

/-- `current_link = NULL`. -/
def clearCurrentLink (p : Nat) (s : TschState) : TschState :=
  { s with slot := { s.slot with currentLink := none } }.setLinkInFlux (some p)

@[simp] theorem testCurrentLink_slot (p : Nat) (s : TschState) :
    (s.testCurrentLink p).2.slot = s.slot := by
  simp only [testCurrentLink]
  split <;> rfl

@[simp] theorem testCurrentLink_sched (p : Nat) (s : TschState) :
    (s.testCurrentLink p).2.sched = s.sched := by
  simp only [testCurrentLink]
  split <;> rfl

/-- `list_remove(slotframe->links_list, l)`. -/
def listRemoveLink (b p : Nat) (s : TschState) : TschState :=
  s.setSched (s.sched.setSlotframe b
    { s.slotframe b with linksList := (s.slotframe b).linksList.erase p })

/-- `memb_free(&link_memb, l)`. -/
def freeLink (p : Nat) (s : TschState) : TschState :=
  (s.setSched { s.sched with linkMemb := s.sched.linkMemb.erase p }).setLinkInFlux none

/-- Count a Tx link of neighbor `n` in (`d = 1`) or out (`d = -1`). -/
def countTxLink (n : LinkAddr) (linkOptions : LinkOptions) (d : Int) (s : TschState) : TschState :=
  s.modifyNeighbor n fun e =>
    { e with
      txLinksCount := e.txLinksCount + d
      dedicatedTxLinksCount :=
        if linkOptions.shared then e.dedicatedTxLinksCount else e.dedicatedTxLinksCount + d }

end TschState

/-! ## Called from processes: the programs -/

/-- `tsch_schedule_init`. -/
def tschScheduleInit : Prog TschState Bool := do
  if ← tschGetLock then
    Prog.modify TschState.initLinkMemb
    Prog.modify TschState.initSlotframeMemb
    Prog.modify TschState.initSlotframeList
    tschReleaseLock
    pure true
  else pure false

/-- `tsch_schedule_add_slotframe`. -/
def tschScheduleAddSlotframe (handle size : Nat) : Prog TschState (Option Nat) := do
  if size = 0 then pure none
  else
    match ← Prog.read (fun s => tschScheduleGetSlotframeByHandle s handle) with
    | some _ => pure none
    | none =>
        if ← tschGetLock then
          match ← Prog.update (TschState.allocSlotframe cfg) with
          | some b =>
              Prog.modify (TschState.initSlotframe b handle size)
              Prog.modify (TschState.listAddSlotframe b)
              tschReleaseLock
              pure (some b)
          | none =>
              tschReleaseLock
              pure none
        else pure none

/-- The end of `tsch_schedule_remove_link`, outside the lock: a Tx link is
counted out. -/
def uncountLink (linkOptions : LinkOptions) (addr : LinkAddr) : Prog TschState Unit :=
  if linkOptions.tx then do
    match ← Prog.read (fun s => tschQueueGetNbr s addr) with
    | some n => Prog.modify (TschState.countTxLink n linkOptions (-1))
    | none => pure ()
  else pure ()

/-- `if(l == current_link) current_link = NULL` of `tsch_schedule_remove_link`: an
interrupt may come between the test and the write. -/
def abortCurrentLink (p : Nat) : Prog TschState Unit := do
  if ← Prog.update (TschState.testCurrentLink p) then
    Prog.modify (TschState.clearCurrentLink p)
  else pure ()

/-- `tsch_schedule_remove_link`. -/
def tschScheduleRemoveLink (slotframe l : Option Nat) : Prog TschState Bool := do
  match slotframe, l with
  | some b, some p =>
      if ← Prog.read (fun s => (s.link p).slotframeHandle == (s.slotframe b).handle) then
        if ← tschGetLock then
          -- saved, as they are needed after freeing the link
          let saved ← Prog.read (fun s => ((s.link p).linkOptions, (s.link p).addr))
          abortCurrentLink p
          Prog.modify (TschState.listRemoveLink b p)
          Prog.modify (TschState.freeLink p)
          -- released before the neighbor is updated
          tschReleaseLock
          uncountLink saved.1 saved.2
          pure true
        else pure false
      else pure false
  | _, _ => pure false

/-- One item of the loop of `tsch_schedule_remove_link_by_timeslot`. -/
def removeLinkIfAt (b timeslot channelOffset p : Nat) : Prog TschState Bool := do
  if ← Prog.read (fun s =>
      (s.link p).timeslot == timeslot && (s.link p).channelOffset == channelOffset) then
    tschScheduleRemoveLink (some b) (some p)
  else pure false

/-- The loop of `tsch_schedule_remove_link_by_timeslot` over the links still to
visit; its result is whether a link was removed. -/
def removeLinksAt (b timeslot channelOffset : Nat) : List Nat → Prog TschState Bool
  | [] => pure false
  | p :: ls => do
      let removed ← removeLinkIfAt b timeslot channelOffset p
      let rest ← removeLinksAt b timeslot channelOffset ls
      pure (removed || rest)

/-- `tsch_schedule_remove_link_by_timeslot`. -/
def tschScheduleRemoveLinkByTimeslot (slotframe : Option Nat) (timeslot channelOffset : Nat) :
    Prog TschState Bool := do
  if ← Prog.read tschIsLocked then pure false
  else
    match slotframe with
    | none => pure false
    | some b =>
        let ls ← Prog.read (fun s => (s.slotframe b).linksList)
        removeLinksAt b timeslot channelOffset ls

/-- The end of `tsch_schedule_add_link`, outside the lock: a Tx link is counted
in. -/
def countLink (linkOptions : LinkOptions) (addr : LinkAddr) : Prog TschState Unit :=
  if linkOptions.tx then do
    match ← tschQueueAddNbr cfg addr with
    | some n => Prog.modify (TschState.countTxLink n linkOptions 1)
    | none => pure ()
  else pure ()

/-- `tsch_schedule_add_link` from taking the lock on. -/
def installLink (b : Nat) (linkOptions : LinkOptions) (linkType : LinkType) (address : LinkAddr)
    (timeslot channelOffset : Nat) : Prog TschState (Option Nat) := do
  if ← tschGetLock then
    match ← Prog.update (TschState.allocLink cfg) with
    | none =>
        tschReleaseLock
        pure none
    | some p =>
        Prog.modify (TschState.listAddLink b p)
        Prog.modify (TschState.initLink b p linkOptions linkType address timeslot channelOffset)
        -- released before the neighbor is updated
        tschReleaseLock
        countLink cfg linkOptions address
        pure (some p)
  else pure none

/-- `tsch_schedule_add_link`. -/
def tschScheduleAddLink (slotframe : Option Nat) (linkOptions : LinkOptions)
    (linkType : LinkType) (address : Option LinkAddr) (timeslot channelOffset : Nat)
    (doRemove : Bool) : Prog TschState (Option Nat) :=
  match slotframe with
  | none => pure none
  | some b => do
      if ← Prog.read (fun s => decide ((timeslot : Int) > (s.slotframe b).size - 1)) then pure none
      else if doRemove then
        -- keeps neighbor state in sync with link options
        let _ ← tschScheduleRemoveLinkByTimeslot slotframe timeslot channelOffset
        installLink cfg b linkOptions linkType (address.getD cfg.linkaddrNull) timeslot channelOffset
      else
        installLink cfg b linkOptions linkType (address.getD cfg.linkaddrNull) timeslot channelOffset

/-- The body of the loop of `tsch_schedule_remove_slotframe`. -/
def removeHead (b p : Nat) : Prog TschState Unit := do
  let _ ← tschScheduleRemoveLink (some b) (some p)

/-- `tsch_schedule_remove_slotframe`. -/
def tschScheduleRemoveSlotframe (fuel : Nat) (slotframe : Option Nat) : Prog TschState Bool := do
  match slotframe with
  | none => pure false
  | some b =>
      -- remove all links belonging to this slotframe
      Prog.loop fuel (Prog.read fun s => (s.slotframe b).linksList.head?) (removeHead b)
      if ← tschGetLock then
        Prog.modify (TschState.freeSlotframe b)
        Prog.modify (TschState.listRemoveSlotframe b)
        tschReleaseLock
        pure true
      else pure false

/-- `tsch_schedule_remove_all_slotframes`, with the rest of its loop; stops at
the first slotframe that cannot be removed. -/
def tschScheduleRemoveAllSlotframes (fuel : Nat) : Nat → Prog TschState Bool
  | 0 => do
      Prog.hang
      pure false
  | n + 1 => do
      match ← Prog.read (fun s => s.sched.slotframeList.head?) with
      | none => pure true
      | some b =>
          if ← tschScheduleRemoveSlotframe fuel (some b) then
            tschScheduleRemoveAllSlotframes fuel n
          else pure false

/-- `tsch_schedule_create_minimal`; `defaultLength` is `TSCH_SCHEDULE_DEFAULT_LENGTH`. -/
def tschScheduleCreateMinimal (fuel defaultLength : Nat) : Prog TschState Unit := do
  let _ ← tschScheduleRemoveAllSlotframes fuel fuel
  let sfMin ← tschScheduleAddSlotframe cfg 0 defaultLength
  let _ ← tschScheduleAddLink cfg sfMin ⟨true, true, true, true⟩ .advertising
    (some cfg.tschBroadcastAddress) 0 0 true

end QlTsch
