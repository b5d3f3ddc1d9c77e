import Yalnix.Kernel.PipeCalls

/-!
# Locks, condition variables and `Reclaim`

The status tables are total maps here: a subscript outside the declared bounds
reads and writes storage of its own, zero at boot.
-/

namespace Yalnix

namespace Kernel

def kernelLockInit (s : Kernel) (lockIdpNonNull : Bool) : Kernel :=
  match s.lockList with
  | [] => if lockIdpNonNull then s.ret Rc.error else s.toUndefined
  | lockId :: rest =>
      if !lockIdpNonNull then s.ret Rc.error
      else
        ((s.setLockList rest).setLockStatus lockId freeLock).ret Rc.success

def kernelAcquire (s : Kernel) (lockId : Int) : Kernel :=
  let active := s.activePCB
  if lockId < 0 ∨ maxLocks < lockId then s.ret Rc.error
  else if s.lockStatus lockId = unusedLock then s.ret Rc.error
  else if s.lockStatus lockId = s.pcb.pid active then s.ret Rc.error
  else if s.lockStatus lockId ≠ freeLock then
    (s.setBlockedCode active Blocked.lockAcquire).swapProcess
      (some (.lockAquireQueue lockId)) (.kernelAcquire lockId)
  else (s.setLockStatus lockId (s.pcb.pid active)).ret Rc.success

/-- `KernelAcquire` from the return of its `SwapProcess` on. -/
def kernelAcquireResume (s : Kernel) (lockId : Int) : Kernel :=
  let s := s.setBlockedCode s.activePCB Blocked.notBlocked
  (s.setLockStatus lockId (s.pcb.pid s.activePCB)).ret Rc.success

/-- `KernelRelease`: the result code and the state. -/
def kernelRelease (s : Kernel) (lockId : Int) : Int × Kernel :=
  if lockId < 0 ∨ maxLocks < lockId then (Rc.error, s)
  else if s.lockStatus lockId ≠ s.pcb.pid s.activePCB ∨
      s.lockStatus lockId = unusedLock then (Rc.error, s)
  else
    let s := s.setLockStatus lockId freeLock
    match s.lockAquireQueues lockId with
    | [] => (Rc.success, s)
    | next :: rest =>
        (Rc.success,
          (s.setLockAquireQueue lockId rest).queueAdd (some .readyQ) next)

def kernelCvarInit (s : Kernel) (cvarIdpNonNull : Bool) : Kernel :=
  if !cvarIdpNonNull then s.ret Rc.error
  else
    match s.cvarList with
    | [] => s.ret Rc.error
    | cvarId :: rest =>
        ((s.setCvarList rest).setCvarStatus (cvarId - maxLocks) usedCvar).ret
          Rc.success

def kernelCvarSignal (s : Kernel) (cvarId : Int) : Kernel :=
  let i := cvarId - maxLocks
  if cvarId < 0 ∨ s.cvarStatus i = unusedCvar then s.ret Rc.error
  else
    match s.cvarWaitQueues i with
    | [] => s.ret Rc.success
    | receiver :: rest =>
        ((s.setCvarWaitQueue i rest).queueAdd (some .readyQ) receiver).ret
          Rc.success

def kernelCvarBroadcast (s : Kernel) (cvarId : Int) : Kernel :=
  let i := cvarId - maxLocks
  if cvarId < 0 ∨ s.cvarStatus i = unusedCvar then s.ret Rc.error
  else
    let receivers := s.cvarWaitQueues i
    ((s.setCvarWaitQueue i []).setReadyQ (s.readyQ ++ receivers)).ret
      Rc.success

def kernelCvarWait (s : Kernel) (cvarId lockId : Int) : Kernel :=
  let i := cvarId - maxLocks
  if cvarId < 0 ∨ s.cvarStatus i = unusedCvar ∨ lockId < 0 ∨
      s.lockStatus lockId = unusedLock then s.ret Rc.error
  else
    match s.kernelRelease lockId with
    | (code, s) =>
        if code = Rc.error then s.ret Rc.error
        else s.swapProcess (some (.cvarWaitQueue i)) (.kernelCvarWait lockId)

/-- `KernelReclaim`.  A negative id is reported and then treated as a lock. -/
def kernelReclaim (s : Kernel) (id : Int) : Kernel :=
  if id ≤ maxLocks then (s.setLockList (id :: s.lockList)).ret 0
  else if id ≤ maxCvars + maxLocks then
    (s.setCvarList (id :: s.cvarList)).ret 0
  else s.removePipe id

end Kernel

end Yalnix
