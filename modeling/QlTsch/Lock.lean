/-
# `QlTsch.Lock` — the TSCH lock

`tsch_get_lock` and `tsch_release_lock` of `tsch-slot-operation.c`, as process
programs.  The three flags are written in the order of the source: the request
is raised, the running slot operation is waited for, the lock is taken, and
only then is the request withdrawn.
-/
import QlTsch.Lib.Prog
import QlTsch.Types

namespace QlTsch

open Interleave

/-! ## The four states of the lock -/

def LockVars.free : LockVars := ⟨false, false⟩
def LockVars.requested : LockVars := ⟨false, true⟩
def LockVars.taken : LockVars := ⟨true, true⟩
def LockVars.held : LockVars := ⟨true, false⟩

namespace TschState

def setLockRequested (b : Bool) (s : TschState) : TschState :=
  { s with lock := { s.lock with tschLockRequested := b } }

def setLocked (b : Bool) (s : TschState) : TschState :=
  { s with lock := { s.lock with tschLocked := b } }

end TschState

def tschIsLocked (s : TschState) : Bool := s.lock.tschLocked

/-- `tsch_get_lock`. -/
def tschGetLock : Prog TschState Bool := do
  if ← Prog.read tschIsLocked then
    pure false
  else
    -- make sure no new slot operation will start
    Prog.modify (·.setLockRequested true)
    -- wait for the end of the current slot operation
    Prog.waitFor (fun s => !s.slot.tschInSlotOperation)
    if ← Prog.read tschIsLocked then
      pure false
    else
      Prog.modify (·.setLocked true)
      Prog.modify (·.setLockRequested false)
      pure true

/-- The wait of `tsch_get_lock` for the slot in progress. -/
def slotEnds (s : TschState) : Bool := !s.slot.tschInSlotOperation

theorem tschGetLock_bind {α : Type} (k : Bool → Prog TschState α) : tschGetLock >>= k =
    .act id fun s => if tschIsLocked s then k false else
      .act (·.setLockRequested true) fun _ => .await slotEnds <|
        .act id fun s => if tschIsLocked s then k false else
          .act (·.setLocked true) fun _ => .act (·.setLockRequested false) fun _ => k true := by
  refine congrArg (Prog.act id) (funext fun s => ?_)
  show (if tschIsLocked s = true then _ else _ : Prog TschState Bool) >>= k = _
  cases tschIsLocked s with
  | true => rfl
  | false =>
      refine congrArg (Prog.act _) (funext fun _ => congrArg (Prog.await _) ?_)
      refine congrArg (Prog.act id) (funext fun u => ?_)
      show (if tschIsLocked u = true then _ else _ : Prog TschState Bool) >>= k = _
      cases tschIsLocked u <;> rfl

/-- `tsch_release_lock`. -/
def tschReleaseLock : Prog TschState Unit :=
  Prog.modify (·.setLocked false)

end QlTsch
