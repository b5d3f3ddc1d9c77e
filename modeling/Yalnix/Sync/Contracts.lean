import Yalnix.Kernel.Runs

/-!
# Locks and condition variables

What the lock and condition variable calls are meant to do, stated for one id
and one state.  The status codes of unused and free locks are the same, and so
are those of unused and used condition variables, so every id that the kernel
issues reads as unused and no call on it gets past its first test.
-/

namespace Yalnix

namespace Kernel

/-- The pid in the status word of a lock is the holder's. -/
def Holds (s : Kernel) (lockId : Int) (p : PcbPtr) : Prop :=
  s.lockStatus lockId = s.pcb.pid p ∧ s.lockStatus lockId ≠ freeLock

/-- A call of the running process that comes back at once with `code`. -/
def Returns (s : Kernel) (c : Syscall) (code : Int) : Prop :=
  ∀ ctx, (s.take (.trap ctx (.kernel c))).mode = .user ∧
    (s.take (.trap ctx (.kernel c))).activePCB = s.activePCB ∧
    (s.take (.trap ctx (.kernel c))).reg0 s.activePCB = code

/-- A call that comes back with `ERROR` and does nothing else. -/
def Refuses (s : Kernel) (c : Syscall) : Prop :=
  ∀ ctx, s.take (.trap ctx (.kernel c)) = (s.enter ctx).ret Rc.error

/-! ## The contracts -/

/-- A mutex, as its calls see it from state `s`. -/
structure Mutex (s : Kernel) (lockId : Int) : Prop where
  exclusive : ∀ p < s.npcb, ∀ q < s.npcb, s.Holds lockId p →
    s.Holds lockId q → p = q
  acquire_free : (∀ p < s.npcb, ¬ s.Holds lockId p) →
    s.Returns (.acquire lockId) Rc.success ∧
      ∀ ctx, (s.take (.trap ctx (.kernel (.acquire lockId)))).Holds lockId
        s.activePCB
  acquire_held : ∀ p < s.npcb, p ≠ s.activePCB → s.Holds lockId p →
    ∀ ctx, s.activePCB ∈
      (s.take (.trap ctx (.kernel (.acquire lockId)))).lockAquireQueues lockId
  resumed : s.mode = .kernel →
    s.pcb.kernelContext s.activePCB = .kernelAcquire lockId →
    ∀ p < s.npcb, (s.take .resume).Holds lockId p ↔ p = s.activePCB
  acquire_own : s.Holds lockId s.activePCB → s.Refuses (.acquire lockId)
  release : s.Holds lockId s.activePCB →
    s.Returns (.release lockId) Rc.success ∧
      ∀ ctx, let s' := s.take (.trap ctx (.kernel (.release lockId)))
        s'.readyQ = s.readyQ ++ (s.lockAquireQueues lockId).take 1 ∧
        s'.lockAquireQueues lockId = (s.lockAquireQueues lockId).tail ∧
        ¬ s'.Holds lockId s.activePCB
  release_other : ¬ s.Holds lockId s.activePCB → s.Refuses (.release lockId)

/-- The waiters of a condition variable. -/
def cvarWaiters (s : Kernel) (cvarId : Int) : List PcbPtr :=
  s.cvarWaitQueues (cvarId - maxLocks)

/-- A condition variable, as its calls see it from state `s`. -/
structure CondVar (s : Kernel) (cvarId : Int) : Prop where
  signal : s.Returns (.cvarSignal cvarId) Rc.success ∧
    ∀ ctx, let s' := s.take (.trap ctx (.kernel (.cvarSignal cvarId)))
      s'.readyQ = s.readyQ ++ (s.cvarWaiters cvarId).take 1 ∧
      s'.cvarWaiters cvarId = (s.cvarWaiters cvarId).tail
  broadcast : s.Returns (.cvarBroadcast cvarId) Rc.success ∧
    ∀ ctx, let s' := s.take (.trap ctx (.kernel (.cvarBroadcast cvarId)))
      s'.readyQ = s.readyQ ++ s.cvarWaiters cvarId ∧ s'.cvarWaiters cvarId = []
  wait : ∀ lockId, s.Holds lockId s.activePCB →
    ∀ ctx, let s' := s.take (.trap ctx (.kernel (.cvarWait cvarId lockId)))
      s'.cvarWaiters cvarId = s.cvarWaiters cvarId ++ [s.activePCB] ∧
      ¬ s'.Holds lockId s.activePCB
  resumed : ∀ lockId, s.mode = .kernel →
    s.pcb.kernelContext s.activePCB = .kernelCvarWait lockId →
    s.activePCB ∉ s.cvarWaiters cvarId ∧
      ((s.take .resume).mode = .user →
        (s.take .resume).reg0 s.activePCB = Rc.success →
          (s.take .resume).Holds lockId s.activePCB)

end Kernel

/-! ## Issued ids -/

/-- The states after a call returned an id and before that id is reclaimed. -/
inductive Issued (init : Syscall) (free : Kernel → List Int) (id : Int) :
    Kernel → Prop where
  | init {s : Kernel} {ctx : UserContext} : Reachable (fun _ _ => True) s →
      (Label.trap ctx (.kernel init)).Enabled s → (free s).head? = some id →
      Issued init free id (s.take (.trap ctx (.kernel init)))
  | next {s s' : Kernel} {a : Label} : Issued init free id s → Step s a s' →
      (∀ ctx, a ≠ .trap ctx (.kernel (.reclaim id))) → Issued init free id s'

/-- A lock id that `LockInit` returned and that is not reclaimed. -/
abbrev IssuedLock : Int → Kernel → Prop :=
  Issued (.lockInit true) Kernel.lockList

/-- A condition variable id that `CvarInit` returned and that is not
reclaimed. -/
abbrev IssuedCvar : Int → Kernel → Prop :=
  Issued (.cvarInit true) Kernel.cvarList

theorem Issued.reachable {init : Syscall} {free : Kernel → List Int} {id : Int}
    {s : Kernel} (h : Issued init free id s) :
    Reachable (fun _ _ => True) s := by
  induction h with
  | init hreach henabled _ => exact .next hreach trivial (.take henabled)
  | next _ hstep _ ih => exact .next ih trivial hstep

/-! ## The calls on unused ids -/

namespace Kernel

variable {s : Kernel}

theorem SyncIdle.not_holds (h : s.SyncIdle) (lockId : Int) (p : PcbPtr) :
    ¬ s.Holds lockId p :=
  fun hholds => hholds.2 (h.lock lockId)

/-- `Acquire` takes every lock for an unused one. -/
theorem SyncIdle.acquire (h : s.SyncIdle) (lockId : Int) :
    s.Refuses (.acquire lockId) := by
  intro ctx
  have hlock : (s.enter ctx).lockStatus lockId = unusedLock := h.lock lockId
  show (s.enter ctx).kernelAcquire lockId = _
  unfold kernelAcquire
  simp only [hlock, if_true, ite_self]

theorem SyncIdle.cvarSignal (h : s.SyncIdle) (cvarId : Int) :
    s.Refuses (.cvarSignal cvarId) := by
  intro ctx
  have hcvar : (s.enter ctx).cvarStatus (cvarId - maxLocks) = unusedCvar :=
    h.cvar _
  show (s.enter ctx).kernelCvarSignal cvarId = _
  unfold kernelCvarSignal
  simp only [hcvar, or_true, if_true]

theorem Refuses.not_success {c : Syscall} (h : s.Refuses c) :
    ¬ s.Returns c Rc.success := by
  intro hreturns
  have hresult := (hreturns ⟨0, 0⟩).2.2
  rw [h ⟨0, 0⟩] at hresult
  have herror : ((s.enter ⟨0, 0⟩).ret Rc.error).reg0 s.activePCB = Rc.error :=
    upd_same _ _ _
  rw [herror] at hresult
  cases hresult

end Kernel

/-- No issued lock is a mutex: nobody ever holds it, and still nobody can
acquire it. -/
theorem lock_is_never_mutex {lockId : Int} {s : Kernel}
    (h : IssuedLock lockId s) (huser : s.mode = .user) :
    s.Refuses (.acquire lockId) ∧ ¬ s.Mutex lockId := by
  have hsync := (Reachable.quiescent h.reachable (.inl huser)).sync
  have hrefuses := hsync.acquire lockId
  refine ⟨hrefuses, fun hmutex => ?_⟩
  have hfree := hmutex.acquire_free fun p _ => hsync.not_holds lockId p
  exact hrefuses.not_success hfree.1

/-- The first id that `LockInit` returns. -/
theorem lock_is_never_mutex_first :
    let s := ((Boot.small 20).kernelStart.run tick).take (call (.lockInit true))
    s.reg0 1 = Rc.success ∧ ¬ s.Mutex 99 := by
  intro s
  have hreach : Reachable (fun _ _ => True)
      ((Boot.small 20).kernelStart.run tick) :=
    reachable_small 20 tick (by decide +kernel) (by decide +kernel)
  have hissued : IssuedLock 99 s :=
    .init hreach (by decide +kernel) (by decide +kernel)
  exact ⟨by decide +kernel,
    (lock_is_never_mutex hissued (by decide +kernel)).2⟩

/-- A lock that was just issued and that nobody holds cannot be acquired. -/
theorem issued_lock_refuses_acquire :
    ¬ ∀ (lockId : Int) (s : Kernel), IssuedLock lockId s → s.mode = .user →
      s.Mutex lockId := by
  intro hall
  let s := (Boot.small 20).kernelStart.run tick
  have hreach : Reachable (fun _ _ => True) s :=
    reachable_small 20 tick (by decide +kernel) (by decide +kernel)
  have hissued : IssuedLock 99 (s.take (call (.lockInit true))) :=
    .init hreach (by decide +kernel) (by decide +kernel)
  have hmutex := hall 99 _ hissued (by decide +kernel)
  have hfree : ∀ p < (s.take (call (.lockInit true))).npcb,
      ¬ (s.take (call (.lockInit true))).Holds 99 p := fun p _ hholds =>
    hholds.2 (by decide +kernel)
  have hresult := ((hmutex.acquire_free hfree).1 ⟨0, 0⟩).2.2
  revert hresult
  decide +kernel

/-- No issued condition variable can be signalled. -/
theorem cvar_is_never_condition {cvarId : Int} {s : Kernel}
    (h : IssuedCvar cvarId s) (huser : s.mode = .user) :
    s.Refuses (.cvarSignal cvarId) ∧ ¬ s.CondVar cvarId := by
  have hsync := (Reachable.quiescent h.reachable (.inl huser)).sync
  have hrefuses := hsync.cvarSignal cvarId
  exact ⟨hrefuses, fun hcond => hrefuses.not_success hcond.signal.1⟩

/-- The first id that `CvarInit` returns. -/
theorem cvar_is_never_condition_first :
    let s := ((Boot.small 20).kernelStart.run tick).take (call (.cvarInit true))
    s.reg0 1 = Rc.success ∧ ¬ s.CondVar 5100 := by
  intro s
  have hreach : Reachable (fun _ _ => True)
      ((Boot.small 20).kernelStart.run tick) :=
    reachable_small 20 tick (by decide +kernel) (by decide +kernel)
  have hissued : IssuedCvar 5100 s :=
    .init hreach (by decide +kernel) (by decide +kernel)
  exact ⟨by decide +kernel,
    (cvar_is_never_condition hissued (by decide +kernel)).2⟩

/-- A condition variable that was just issued cannot be signalled. -/
theorem issued_cvar_refuses_signal :
    ¬ ∀ (cvarId : Int) (s : Kernel), IssuedCvar cvarId s → s.mode = .user →
      s.CondVar cvarId := by
  intro hall
  let s := (Boot.small 20).kernelStart.run tick
  have hreach : Reachable (fun _ _ => True) s :=
    reachable_small 20 tick (by decide +kernel) (by decide +kernel)
  have hissued : IssuedCvar 5100 (s.take (call (.cvarInit true))) :=
    .init hreach (by decide +kernel) (by decide +kernel)
  have hcond := hall 5100 _ hissued (by decide +kernel)
  have hresult := (hcond.signal.1 ⟨0, 0⟩).2.2
  revert hresult
  decide +kernel

end Yalnix
