/-
# `QlTsch.LockBalance` — every operation returns the lock as it found it

The lock has four states: free, requested, taken with the request still up, held.
`lockDiscipline` says how a process may go through them: only from free to free on the
whole, with no busy wait and no return while it is held.  Under the lock the discipline is
blind: a program that asks whether it is locked has to follow it for both answers.  So it
cannot call `tsch_get_lock` there, nor enter the flush loop.

Every operation of the two modules and every round of the scheduler is balanced, on each
of its paths.  `lock_balance` collects what this says about runs.  Between two actions may
come any number of slot interrupts and whatever a sent callback does, if it leaves the lock
as it found it.
-/
import QlTsch.Lib.Discipline
import QlTsch.NodeCalls

namespace QlTsch

open Interleave Interleave.Prog

variable {cfg : Config} {α : Type}

/-! ## The discipline -/

inductive LockChange : LockVars → LockVars → Prop
  | stay (v : LockVars) : LockChange v v
  | request : LockChange .free .requested
  | take : LockChange .requested .taken
  | withdraw : LockChange .taken .held
  | release : LockChange .held .free

/-- With `stuck` a loop may be out of fuel. -/
def lockDiscipline (stuck : Prop) : Discipline TschState LockVars where
  phase s := s.lock
  change := LockChange
  stay := .stay
  wait v c := v.tschLocked = false ∧ (stuck ∨ c = slotEnds ∨ ∀ s : TschState, s.lock = v → c s = true)
  rest v := v = .free
  blind v := v.tschLocked = true

/-- Kept from free to free. -/
abbrev LockBalanced (stuck : Prop) (p : Prog TschState α) : Prop :=
  Balanced (lockDiscipline stuck) p

section
variable {stuck : Prop}

/-- `tsch_get_lock`, the lock free: the rest goes on under the lock. -/
theorem follows_tschGetLock {k : Bool → Prog TschState α}
    (hk : Follows (lockDiscipline stuck) .held (k true)) :
    Follows (lockDiscipline stuck) .free (tschGetLock >>= k) := by
  have hunlocked : ∀ {v : LockVars} {s : TschState}, v.tschLocked = false →
      s.lock = v ∨ v.tschLocked = true → tschIsLocked s = false := by
    rintro v s hv (rfl | hblind)
    · exact hv
    · cases hv.symm.trans hblind
  rw [tschGetLock_bind]
  refine .act (.stay _) (fun _ h => h) fun s hs => ?_
  rw [hunlocked rfl hs]
  refine .act .request (fun s (hs : s.lock = .free) => ?_) fun _ _ => ?_
  · simp only [lockDiscipline, TschState.setLockRequested, hs]
    rfl
  refine .await ⟨rfl, .inr (.inl rfl)⟩ fun _ _ _ => ?_
  refine .act (.stay _) (fun _ h => h) fun s hs => ?_
  rw [hunlocked rfl hs]
  refine .act .take (fun s (hs : s.lock = .requested) => ?_) fun _ _ => ?_
  · simp only [lockDiscipline, TschState.setLocked, hs]
    rfl
  refine .act .withdraw (fun s (hs : s.lock = .taken) => ?_) fun _ _ => hk
  simp only [lockDiscipline, TschState.setLockRequested, hs]
  rfl

theorem follows_tschReleaseLock {k : Unit → Prog TschState α} (hk : LockBalanced stuck (k ())) :
    Follows (lockDiscipline stuck) .held (tschReleaseLock >>= k) := by
  refine .act .release (fun s (hs : s.lock = .held) => ?_) fun _ _ => hk _ rfl
  simp only [lockDiscipline, TschState.setLocked, hs]
  rfl

theorem balanced_tschGetLock {k : Bool → Prog TschState α}
    (hk : Follows (lockDiscipline stuck) .held (k true)) : LockBalanced stuck (tschGetLock >>= k) := by
  rintro v rfl
  exact follows_tschGetLock hk

theorem balanced_unlessLocked {x : α} {rest : Prog TschState α} (h : LockBalanced stuck rest) :
    LockBalanced stuck
      (Prog.read tschIsLocked >>= fun locked => if locked = true then pure x else rest) := by
  refine (Balanced.read _).bind fun locked => ?_
  cases locked with
  | true => exact .ret x
  | false => exact h

/-! ## Actions that leave the lock alone -/

theorem removePacketFromQueue_lock (n : LinkAddr) (s : TschState) :
    (tschQueueRemovePacketFromQueue n s).2.lock = s.lock := by
  obtain ⟨q, hq⟩ := removePacketFromQueue_queue n s
  rw [hq]

theorem noteTaken_lock (p : Option Nat) (s : TschState) : (s.noteTaken p).lock = s.lock := by
  cases p <;> rfl

theorem takePacket_lock (n : LinkAddr) (s : TschState) :
    ((tschQueueRemovePacketFromQueue n s).2.noteTaken (tschQueueRemovePacketFromQueue n s).1).lock =
      s.lock := by
  rw [noteTaken_lock, removePacketFromQueue_lock]

/-! ## What the discipline excludes -/

/-- The lock is never asked for by its holder. -/
theorem unlocked_of_tschGetLock {k : Bool → Prog TschState α} {s : TschState}
    (h : Follows (lockDiscipline stuck) s.lock (tschGetLock >>= k)) : tschIsLocked s = false := by
  cases hlocked : tschIsLocked s with
  | false => rfl
  | true =>
      rw [tschGetLock_bind] at h
      -- the branch of a state that is not locked
      have hask := h.act_same rfl (fun _ => rfl) (s.setLocked false) (.inr hlocked)
      obtain ⟨w, hchange, hphase, hk⟩ := hask.act_inv
      cases hphase s rfl
      have hwait := (hk s (.inr hlocked)).wait_of_await
      cases hwait.1.symm.trans hlocked

/-- The flush loop is not entered under the lock: it would never end. -/
theorem unlocked_of_flush {n : LinkAddr} {k : Unit → Prog TschState α} {s : TschState} (fuel : Nat)
    (h : Follows (lockDiscipline stuck) s.lock (tschQueueFlushNbrQueue fuel n >>= k)) :
    tschIsLocked s = false := by
  cases hlocked : tschIsLocked s with
  | false => rfl
  | true =>
      exfalso
      induction fuel with
      | zero =>
          have hwait := h.wait_of_await
          cases hwait.1.symm.trans hlocked
      | succ fuel ih =>
          have hempty : tschQueueIsEmpty s (some n) = false := by simp [tschQueueIsEmpty, hlocked]
          have htake : tschQueueRemovePacketFromQueue n s = (none, s) := by
            simp [tschQueueRemovePacketFromQueue, hlocked]
          -- the queue does not look empty, and no packet comes out of it
          have hround := h.act_same rfl (fun _ => rfl) s (.inl rfl)
          simp only [hempty] at hround
          have hrest := Follows.act_same rfl (fun t => ?_) hround s (.inl rfl)
          · simp only [htake] at hrest
            exact ih hrest
          · exact takePacket_lock n t

/-! ## The queues -/

theorem balanced_addNbr (a : LinkAddr) : LockBalanced stuck (tschQueueAddNbr cfg a) := by
  refine (Balanced.read _).bind fun n => ?_
  cases n with
  | some n => exact .ret _
  | none =>
      refine balanced_tschGetLock (Follows.update (fun s => ?_) fun n => ?_)
      · simp only [lockDiscipline, TschState.nbrTableAddLladdr]
        split
        · rfl
        · split <;> rfl
      · cases n with
        | some n => exact Follows.modify (fun _ => rfl) (follows_tschReleaseLock (.ret _))
        | none => exact follows_tschReleaseLock (.ret _)

theorem balanced_queueInit : LockBalanced stuck (tschQueueInit cfg) := by
  refine Balanced.bind (.modify fun _ => rfl) fun _ => ?_
  refine (balanced_addNbr _).bind fun nEb => ?_
  refine Balanced.bind (.modify fun _ => rfl) fun _ => ?_
  refine (balanced_addNbr _).bind fun nBroadcast => ?_
  exact .modify fun _ => rfl

theorem balanced_switchTimeSource (old new : Option LinkAddr) :
    LockBalanced stuck (switchTimeSource old new) := by
  have hset : ∀ (n : LinkAddr) (b : Bool), LockBalanced stuck
      (Prog.modify (TschState.modifyNeighbor n fun e => { e with isTimeSource := b })) :=
    fun _ _ => .modify fun _ => rfl
  simp only [switchTimeSource]
  split
  · exact .ret _
  · cases new with
    | none =>
        cases old with
        | none => exact .ret _
        | some n => exact hset n false
    | some m =>
        refine (hset m true).bind fun _ => ?_
        cases old with
        | none => exact .ret _
        | some n => exact hset n false

theorem balanced_updateTimeSource (a : Option LinkAddr) :
    LockBalanced stuck (tschQueueUpdateTimeSource cfg a) := by
  refine balanced_unlessLocked ?_
  refine (Balanced.read _).bind fun coordinator => ?_
  cases coordinator with
  | true => exact .ret _
  | false =>
      refine (Balanced.read _).bind fun old => ?_
      cases a with
      | none => exact (balanced_switchTimeSource _ _).bind fun _ => .ret _
      | some a =>
          refine (balanced_addNbr a).bind fun n => ?_
          cases n with
          | none => exact .ret _
          | some n => exact (balanced_switchTimeSource _ _).bind fun _ => .ret _

theorem balanced_addPacket (a : LinkAddr) (max sent ptr : Nat) (ok : Bool) :
    LockBalanced stuck (tschQueueAddPacket cfg a max sent ptr ok) := by
  refine balanced_unlessLocked ?_
  refine (balanced_addNbr a).bind fun n => ?_
  cases n with
  | none => exact .ret _
  | some n =>
      refine (Balanced.read _).bind fun room => ?_
      cases room with
      | false => exact .ret _
      | true =>
          refine Balanced.bind (.update fun s => ?_) fun p => ?_
          · simp only [lockDiscipline, TschState.allocPacket]
            split <;> rfl
          · cases p with
            | none => exact .ret _
            | some p =>
                cases ok with
                | false => exact Balanced.bind (.modify fun _ => rfl) fun _ => .ret _
                | true =>
                    refine Balanced.bind (.modify fun _ => rfl) fun _ => ?_
                    exact Balanced.bind (.modify fun _ => rfl) fun _ => .ret _

theorem balanced_finishPacket (p : Nat) : LockBalanced stuck (finishPacket p) :=
  Balanced.bind (.modify fun _ => rfl) fun _ => .modify fun _ => rfl

theorem balanced_takeDequeued : LockBalanced stuck takeDequeued := by
  refine Balanced.bind (.update fun s => ?_) fun p => ?_
  · simp only [lockDiscipline]
    split <;> rfl
  · cases p with
    | none => exact .ret _
    | some p => exact balanced_finishPacket p

theorem balanced_forEachNbr {p : Prog TschState Unit} {body : LinkAddr → Prog TschState Unit}
    (hp : p = Prog.read tschIsLocked >>= fun locked => if locked = true then pure () else
      Prog.read (fun s => s.queue.tschNeighbors) >>= fun ns => Prog.forEach ns body)
    (hbody : ∀ n, LockBalanced stuck (body n)) : LockBalanced stuck p := by
  rw [hp]
  refine balanced_unlessLocked ?_
  exact (Balanced.read _).bind fun ns => Balanced.forEach hbody ns

theorem balanced_customReset : LockBalanced stuck (customResetAllBackoffExponents cfg) :=
  balanced_forEachNbr rfl fun _ => .modify fun _ => rfl

section
variable (hstuck : stuck)
include hstuck

theorem balanced_loop {β : Type} {head : Prog TschState (Option β)} {body : β → Prog TschState Unit}
    (hhead : LockBalanced stuck head) (hbody : ∀ x, LockBalanced stuck (body x)) (fuel : Nat) :
    LockBalanced stuck (Prog.loop fuel head body) := by
  refine Balanced.loop ?_ hhead hbody fuel
  rintro v rfl
  exact ⟨rfl, .inl hstuck⟩

theorem balanced_flushNbrQueue (fuel : Nat) (n : LinkAddr) :
    LockBalanced stuck (tschQueueFlushNbrQueue fuel n) := by
  refine balanced_loop hstuck (.read _) (fun _ => ?_) fuel
  refine Balanced.bind (.update (takePacket_lock n)) ?_
  intro p
  cases p with
  | none => exact .ret _
  | some p => exact Balanced.bind (.modify fun _ => rfl) fun _ => balanced_finishPacket p

theorem balanced_removeNbr (fuel : Nat) (n : LinkAddr) :
    LockBalanced stuck (tschQueueRemoveNbr fuel n) := by
  refine balanced_tschGetLock (follows_tschReleaseLock ?_)
  exact (balanced_flushNbrQueue hstuck fuel n).bind fun _ => .modify fun _ => rfl

theorem balanced_freePacketsTo (fuel : Nat) (a : LinkAddr) :
    LockBalanced stuck (tschQueueFreePacketsTo fuel a) := by
  refine balanced_unlessLocked ?_
  refine (Balanced.read _).bind fun n => ?_
  cases n with
  | none => exact .ret _
  | some n => exact balanced_flushNbrQueue hstuck fuel n

theorem balanced_reset (fuel : Nat) : LockBalanced stuck (tschQueueReset cfg fuel) := by
  refine balanced_forEachNbr rfl ?_
  intro n
  exact (balanced_flushNbrQueue hstuck fuel n).bind fun _ => .modify fun _ => rfl

theorem balanced_freeUnusedNeighbors (fuel : Nat) :
    LockBalanced stuck (tschQueueFreeUnusedNeighbors fuel) := by
  refine balanced_forEachNbr rfl ?_
  intro n
  refine (Balanced.read _).bind fun unused => ?_
  cases unused with
  | true => exact balanced_removeNbr hstuck fuel n
  | false => exact .ret _

end

/-! ## The schedule -/

theorem balanced_scheduleInit : LockBalanced stuck tschScheduleInit := by
  refine balanced_tschGetLock ?_
  refine Follows.modify (fun _ => rfl) (Follows.modify (fun _ => rfl) ?_)
  exact Follows.modify (fun _ => rfl) (follows_tschReleaseLock (.ret _))

theorem balanced_addSlotframe (handle size : Nat) :
    LockBalanced stuck (tschScheduleAddSlotframe cfg handle size) := by
  simp only [tschScheduleAddSlotframe]
  split
  · exact .ret _
  · refine (Balanced.read _).bind fun sf => ?_
    cases sf with
    | some b => exact .ret _
    | none =>
        refine balanced_tschGetLock (Follows.update (fun s => ?_) fun b => ?_)
        · simp only [lockDiscipline, TschState.allocSlotframe]
          split <;> rfl
        · cases b with
          | none => exact follows_tschReleaseLock (.ret _)
          | some b =>
              refine Follows.modify (fun _ => rfl) (Follows.modify (fun _ => rfl) ?_)
              exact follows_tschReleaseLock (.ret _)

theorem balanced_uncountLink (o : LinkOptions) (a : LinkAddr) :
    LockBalanced stuck (uncountLink o a) := by
  simp only [uncountLink]
  split
  · refine (Balanced.read _).bind fun n => ?_
    cases n with
    | none => exact .ret _
    | some n => exact .modify fun _ => rfl
  · exact .ret _

theorem follows_abortCurrentLink (p : Nat) {v : LockVars} {k : Unit → Prog TschState α}
    (hk : Follows (lockDiscipline stuck) v (k ())) :
    Follows (lockDiscipline stuck) v (abortCurrentLink p >>= k) := by
  rw [abortCurrentLink, Prog.bind_assoc]
  refine Follows.update (fun s => ?_) fun current => ?_
  · simp only [lockDiscipline, TschState.testCurrentLink]
    split <;> rfl
  · cases current with
    | true => exact Follows.modify (fun _ => rfl) hk
    | false => exact hk

theorem balanced_removeLink (sf l : Option Nat) : LockBalanced stuck (tschScheduleRemoveLink sf l) := by
  cases sf with
  | none => exact .ret _
  | some b =>
      cases l with
      | none => exact .ret _
      | some p =>
          refine (Balanced.read _).bind fun ours => ?_
          cases ours with
          | false => exact .ret _
          | true =>
              refine balanced_tschGetLock (Follows.read fun saved => ?_)
              refine follows_abortCurrentLink p (Follows.modify (fun _ => rfl) ?_)
              refine Follows.modify (fun _ => rfl) (follows_tschReleaseLock ?_)
              exact (balanced_uncountLink _ _).bind fun _ => .ret _

theorem balanced_removeLinksAt (b timeslot channelOffset : Nat) (ls : List Nat) :
    LockBalanced stuck (removeLinksAt b timeslot channelOffset ls) := by
  induction ls with
  | nil => exact .ret _
  | cons p ls ih =>
      refine Balanced.bind ?_ fun removed => ih.bind fun rest => .ret _
      refine (Balanced.read _).bind fun here => ?_
      cases here with
      | true => exact balanced_removeLink (some b) (some p)
      | false => exact .ret _

theorem balanced_removeLinkByTimeslot (sf : Option Nat) (timeslot channelOffset : Nat) :
    LockBalanced stuck (tschScheduleRemoveLinkByTimeslot sf timeslot channelOffset) := by
  refine balanced_unlessLocked ?_
  cases sf with
  | none => exact .ret _
  | some b => exact (Balanced.read _).bind fun ls => balanced_removeLinksAt _ _ _ ls

theorem balanced_countLink (o : LinkOptions) (a : LinkAddr) :
    LockBalanced stuck (countLink cfg o a) := by
  simp only [countLink]
  split
  · refine (balanced_addNbr a).bind fun n => ?_
    cases n with
    | none => exact .ret _
    | some n => exact .modify fun _ => rfl
  · exact .ret _

theorem balanced_installLink (b : Nat) (o : LinkOptions) (ty : LinkType) (a : LinkAddr)
    (timeslot channelOffset : Nat) :
    LockBalanced stuck (installLink cfg b o ty a timeslot channelOffset) := by
  refine balanced_tschGetLock (Follows.update (fun s => ?_) fun p => ?_)
  · simp only [lockDiscipline, TschState.allocLink]
    split <;> rfl
  · cases p with
    | none => exact follows_tschReleaseLock (.ret _)
    | some p =>
        refine Follows.modify (fun _ => rfl) (Follows.modify (fun _ => rfl) ?_)
        exact follows_tschReleaseLock ((balanced_countLink _ _).bind fun _ => .ret _)

theorem balanced_addLink (sf : Option Nat) (o : LinkOptions) (ty : LinkType) (a : Option LinkAddr)
    (timeslot channelOffset : Nat) (doRemove : Bool) :
    LockBalanced stuck (tschScheduleAddLink cfg sf o ty a timeslot channelOffset doRemove) := by
  cases sf with
  | none => exact .ret _
  | some b =>
      refine (Balanced.read _).bind fun invalid => ?_
      cases invalid with
      | true => exact .ret _
      | false =>
          cases doRemove with
          | false => exact balanced_installLink _ _ _ _ _ _
          | true =>
              refine (balanced_removeLinkByTimeslot _ _ _).bind fun _ => ?_
              exact balanced_installLink _ _ _ _ _ _

section
variable (hstuck : stuck)
include hstuck

theorem balanced_removeSlotframe (fuel : Nat) (sf : Option Nat) :
    LockBalanced stuck (tschScheduleRemoveSlotframe fuel sf) := by
  cases sf with
  | none => exact .ret _
  | some b =>
      refine (balanced_loop hstuck (.read _) (fun p => ?_) fuel).bind fun _ => ?_
      · exact (balanced_removeLink _ _).bind fun _ => .ret _
      · refine balanced_tschGetLock (Follows.modify (fun _ => rfl) ?_)
        exact Follows.modify (fun _ => rfl) (follows_tschReleaseLock (.ret _))

theorem balanced_removeAllSlotframes (fuel n : Nat) :
    LockBalanced stuck (tschScheduleRemoveAllSlotframes fuel n) := by
  induction n with
  | zero =>
      rintro v rfl
      exact .await ⟨rfl, .inl hstuck⟩ fun _ _ hc => by cases hc
  | succ n ih =>
      refine (Balanced.read _).bind fun head => ?_
      cases head with
      | none => exact .ret _
      | some b =>
          refine (balanced_removeSlotframe hstuck fuel (some b)).bind fun removed => ?_
          cases removed with
          | true => exact ih
          | false => exact .ret _

theorem balanced_createMinimal (fuel defaultLength : Nat) :
    LockBalanced stuck (tschScheduleCreateMinimal cfg fuel defaultLength) := by
  refine (balanced_removeAllSlotframes hstuck fuel fuel).bind fun _ => ?_
  refine (balanced_addSlotframe _ _).bind fun sfMin => ?_
  exact (balanced_addLink _ _ _ _ _ _ _).bind fun _ => .ret _

end

/-! ## The application -/

theorem balanced_assignUnicastLink (o : LinkOptions) (timeslot : Nat) (doRemove : Bool) :
    LockBalanced stuck (assignUnicastLink cfg o timeslot doRemove) := by
  refine (Balanced.read _).bind fun sf => ?_
  exact (balanced_addLink _ _ _ _ _ _ _).bind fun l => .modify fun _ => rfl

theorem balanced_initTschSchedule (hstuck : stuck) (fuel : Nat) :
    LockBalanced stuck (initTschSchedule cfg fuel) := by
  refine (balanced_removeAllSlotframes hstuck fuel fuel).bind fun _ => ?_
  refine (balanced_addSlotframe _ _).bind fun sfb => ?_
  refine Balanced.bind (.modify fun _ => rfl) fun _ => ?_
  refine (balanced_addSlotframe _ _).bind fun sfu => ?_
  refine Balanced.bind (.modify fun _ => rfl) fun _ => ?_
  refine (Balanced.read _).bind fun sf => ?_
  refine (balanced_addLink _ _ _ _ _ _ _).bind fun l => ?_
  refine (balanced_assignUnicastLink _ _ _).bind fun _ => ?_
  exact Balanced.forEach (fun i => balanced_assignUnicastLink _ _ _) _

theorem balanced_setUpNewSchedule (action : Nat) :
    LockBalanced stuck (setUpNewSchedule cfg action) := by
  refine (Balanced.read _).bind fun new => ?_
  cases new with
  | false => exact .ret _
  | true =>
      refine (balanced_assignUnicastLink _ _ _).bind fun _ => ?_
      refine (Balanced.read _).bind fun current => ?_
      refine (balanced_assignUnicastLink _ _ _).bind fun _ => ?_
      exact .modify fun _ => rfl

/-- `while(1) if(tsch_get_lock() == 1) break;`: one round of it is enough. -/
theorem follows_spinUntil (fuel : Nat) {k : Unit → Prog TschState α}
    (hk : Follows (lockDiscipline stuck) .held (k ())) :
    Follows (lockDiscipline stuck) .free (spinUntil (fuel + 1) tschGetLock >>= k) := by
  simp only [spinUntil, Prog.loop, bind_assoc]
  exact follows_tschGetLock hk

/-- A round of the scheduler, even if no loop may be out of fuel. -/
theorem balanced_schedulerRound (fuel : Nat) (d : Draws) :
    LockBalanced stuck (schedulerRound cfg (fuel + 1) d) := by
  rintro v rfl
  refine follows_spinUntil fuel ?_
  simp only [settleAndChoose, settleReward, bind_assoc]
  refine Follows.update (fun _ => rfl) fun status => ?_
  have hrest : Follows (lockDiscipline stuck) .held
      (Prog.update (TschState.pickAction cfg d) >>= fun action => do
        tschReleaseLock
        setUpNewSchedule cfg action
        Prog.waitFor fun s => !tschIsLocked s
        Prog.modify (TschState.finishRound action)) := by
    refine Follows.update (fun _ => rfl) fun action => follows_tschReleaseLock ?_
    refine (balanced_setUpNewSchedule action).bind fun _ => ?_
    rintro v rfl
    refine .await ⟨rfl, .inr (.inr fun s hs => ?_)⟩ fun _ _ _ => ?_
    · simp only [tschIsLocked, hs, LockVars.free, Bool.not_false]
    · exact Follows.act_stay (fun _ => rfl) fun _ => .ret _ rfl
  split
  · exact Follows.modify (fun _ => rfl) hrest
  · exact hrest

end

/-! ## Every operation -/

/-- An operation that a process may call: those of `NodeCall`, the initialisations, and
those that are a single access. -/
inductive PublicCall where
  | node (c : NodeCall)
  | scheduleInit
  | scheduleCreateMinimal (defaultLength : Nat)
  | queueInit
  | removePacketFromQueue (n : LinkAddr)
  | packetSent (n : LinkAddr) (p : Nat) (link : TschLink) (macTxStatus : MacStatus) (rand : Nat)
  | freePacket (p : Nat)
  | backoffReset (n : LinkAddr)
  | backoffInc (n : LinkAddr) (rand : Nat)
  | updateAllBackoffWindows (destAddr : LinkAddr)

def PublicCall.perform (cfg : Config) (fuel : Nat) : PublicCall → Prog TschState Unit
  | .node c => c.perform cfg fuel
  | .scheduleInit => do
      let _ ← tschScheduleInit
  | .scheduleCreateMinimal defaultLength => tschScheduleCreateMinimal cfg fuel defaultLength
  | .queueInit => tschQueueInit cfg
  | .removePacketFromQueue n => do
      let _ ← Prog.update (tschQueueRemovePacketFromQueue n)
  | .packetSent n p link macTxStatus rand => do
      let _ ← Prog.update (tschQueuePacketSent cfg n p link macTxStatus rand)
  | .freePacket p => Prog.modify (TschState.tschQueueFreePacket p)
  | .backoffReset n => Prog.modify (TschState.modifyNeighbor n (tschQueueBackoffReset cfg))
  | .backoffInc n rand => Prog.modify (TschState.modifyNeighbor n (tschQueueBackoffInc cfg rand))
  | .updateAllBackoffWindows destAddr =>
      Prog.modify (tschQueueUpdateAllBackoffWindows cfg destAddr)

section
variable {stuck : Prop} (hstuck : stuck)
include hstuck

theorem balanced_heldCall (fuel : Nat) (c : HeldCall) : LockBalanced stuck (c.perform cfg fuel) := by
  cases c with
  | addSlotframe handle size => exact (balanced_addSlotframe _ _).bind fun _ => .ret _
  | removeSlotframe sf => exact (balanced_removeSlotframe hstuck _ _).bind fun _ => .ret _
  | removeAllSlotframes => exact (balanced_removeAllSlotframes hstuck _ _).bind fun _ => .ret _
  | addLink sf o ty a ts off rm => exact (balanced_addLink _ _ _ _ _ _ _).bind fun _ => .ret _
  | removeLink sf l => exact (balanced_removeLink _ _).bind fun _ => .ret _
  | removeLinkByTimeslot sf ts off => exact (balanced_removeLinkByTimeslot _ _ _).bind fun _ => .ret _
  | addNbr a => exact (balanced_addNbr _).bind fun _ => .ret _
  | addPacket a m sent ptr qb => exact (balanced_addPacket _ _ _ _ _).bind fun _ => .ret _
  | updateTimeSource a => exact (balanced_updateTimeSource _).bind fun _ => .ret _
  | freePacketsTo a => exact (balanced_freePacketsTo hstuck _ _).bind fun _ => .ret _
  | reset => exact (balanced_reset hstuck _).bind fun _ => .ret _
  | freeUnusedNeighbors => exact (balanced_freeUnusedNeighbors hstuck _).bind fun _ => .ret _

theorem balanced_nodeCall (fuel : Nat) (c : NodeCall) : LockBalanced stuck (c.perform cfg fuel) := by
  cases c with
  | call c => exact (balanced_heldCall hstuck fuel c).bind fun _ => .ret _
  | customResetAllBackoffExponents => exact balanced_customReset
  | takeDequeued => exact balanced_takeDequeued
  | initTschSchedule => exact balanced_initTschSchedule hstuck fuel
  | schedulerRound d =>
      cases fuel with
      | zero =>
          rintro v rfl
          exact .await ⟨rfl, .inl hstuck⟩ fun _ _ hc => by cases hc
      | succ fuel => exact balanced_schedulerRound fuel d

theorem balanced_publicCall (fuel : Nat) (c : PublicCall) :
    LockBalanced stuck (c.perform cfg fuel) := by
  cases c with
  | node c => exact balanced_nodeCall hstuck fuel c
  | scheduleInit => exact balanced_scheduleInit.bind fun _ => .ret _
  | scheduleCreateMinimal defaultLength => exact balanced_createMinimal hstuck fuel defaultLength
  | queueInit => exact balanced_queueInit
  | removePacketFromQueue n => exact Balanced.bind (.update (removePacketFromQueue_lock n)) fun _ => .ret _
  | packetSent n p link st rand =>
      refine Balanced.bind (.update fun s => ?_) fun _ => .ret _
      obtain ⟨q, hq⟩ := packetSent_queue cfg n p link st rand s
      simp only [lockDiscipline, hq]
  | freePacket p => exact .modify fun _ => rfl
  | backoffReset n => exact .modify fun _ => rfl
  | backoffInc n rand => exact .modify fun _ => rfl
  | updateAllBackoffWindows a =>
      refine .modify ?_
      intro s
      simp only [lockDiscipline, tschQueueUpdateAllBackoffWindows]
      split <;> rfl

end

/-! ## Runs -/

/-- What may come between two actions of a call: the slot operation, and whatever a sent
callback does. -/
inductive BetweenActions (cfg : Config) : TschState → TschState → Prop
  | slot {i : SlotInput} {s s' : TschState} : slotStep cfg i s = some s' → BetweenActions cfg s s'
  /-- the callback leaves the lock as it found it -/
  | callback {s s' : TschState} : s'.lock = s.lock → BetweenActions cfg s s'

theorem BetweenActions.lock {s s' : TschState} (h : BetweenActions cfg s s') : s'.lock = s.lock := by
  cases h with
  | slot hs => exact lock_of_owned (slotStep_owned hs)
  | callback hlock => exact hlock

/-- **Lock balance.**  From a free lock, in every run of any operations one after the other:
they return with the lock free, the lock is never asked for by its holder, and the flush
loop is entered with the lock free only.  In a round of `scheduler_process` whose loop for
the lock may go round once, every busy wait but that for the end of the slot in progress
can be passed at once. -/
theorem lock_balance {s : TschState} (hfree : s.lock = .free) :
    (∀ (fuel : Nat) (calls : List PublicCall) (c : Prog TschState Unit × TschState),
      Run (BetweenActions cfg) (fun _ _ => True)
          (Prog.forEach calls (PublicCall.perform cfg fuel), s) c →
        (∀ u, c.1 = .ret u → c.2.lock = .free) ∧
        (∀ k, c.1 = (tschGetLock >>= k) → tschIsLocked c.2 = false) ∧
        ∀ rounds n k, c.1 = (tschQueueFlushNbrQueue rounds n >>= k) → tschIsLocked c.2 = false) ∧
    ∀ (d : Draws) (c : Prog TschState Unit × TschState),
      Run (BetweenActions cfg) (fun _ _ => True) (schedulerRound cfg 1 d, s) c →
        ∀ b k, c.1 = .await b k → b = slotEnds ∨ b c.2 = true := by
  refine ⟨?_, ?_⟩
  · intro fuel calls c hr
    have hbegin : Follows (lockDiscipline True) s.lock
        (Prog.forEach calls (PublicCall.perform cfg fuel)) :=
      Balanced.forEach (balanced_publicCall trivial fuel) calls _ hfree
    have hnow : Follows (lockDiscipline True) c.2.lock c.1 :=
      hbegin.run (fun _ _ h => h.lock) hr
    refine ⟨?_, ?_, ?_⟩
    · intro u hret
      rw [hret] at hnow
      exact hnow.rest_of_ret
    · intro k hget
      rw [hget] at hnow
      exact unlocked_of_tschGetLock hnow
    · intro rounds n k hflush
      rw [hflush] at hnow
      exact unlocked_of_flush rounds hnow
  · intro d c hr b k hawait
    have hbegin : Follows (lockDiscipline False) s.lock (schedulerRound cfg 1 d) :=
      balanced_schedulerRound 0 d _ hfree
    have hnow : Follows (lockDiscipline False) c.2.lock c.1 :=
      hbegin.run (fun _ _ h => h.lock) hr
    rw [hawait] at hnow
    rcases hnow.wait_of_await.2 with hstuck | hslot | hpass
    · exact hstuck.elim
    · exact .inl hslot
    · exact .inr (hpass _ rfl)

/-- The neighbor table is full; then comes a round of the scheduler. -/
theorem lock_balance_full :
    ∃ t, (Prog.forEach [.node (.call (.addNbr 7)), .node (.schedulerRound ⟨0, 0, 0⟩)]
        (PublicCall.perform (smallBuild 2) 1)).exec (TschState.scheduled (smallBuild 2) 20) =
          some ((), t) ∧ t.lock = .free ∧ 7 ∉ t.queue.tschNeighbors := by
  obtain ⟨x, hx⟩ : ∃ x, (Prog.forEach [.node (.call (.addNbr 7)), .node (.schedulerRound ⟨0, 0, 0⟩)]
      (PublicCall.perform (smallBuild 2) 1)).exec (TschState.scheduled (smallBuild 2) 20) = some x :=
    Option.isSome_iff_exists.mp (by decide +kernel)
  have hfull : ((Prog.forEach [.node (.call (.addNbr 7)), .node (.schedulerRound ⟨0, 0, 0⟩)]
      (PublicCall.perform (smallBuild 2) 1)).exec (TschState.scheduled (smallBuild 2) 20)).any
        (fun x => decide (7 ∉ x.2.queue.tschNeighbors)) = true := by decide +kernel
  rw [hx, Option.any_some, decide_eq_true_eq] at hfull
  have hlock : (TschState.scheduled (smallBuild 2) 20).lock = .free := by decide +kernel
  refine ⟨x.2, hx, ?_, hfull⟩
  exact ((lock_balance hlock).1 1 _ _ (Run.of_exec hx)).1 _ rfl

end QlTsch
