import Yalnix.Kernel.Effect

/-!
# Invariants of runs

An invariant of the core that every effect preserves holds in every state of
every run in which the machine still goes on.
-/

namespace Yalnix

namespace Kernel

variable {s r : Kernel} {q : Option QueueRef} {k : KernelContext}

/-! ## What a switch leaves alone -/

theorem switched_pcb : (s.switched q k).pcb =
    { s.pcb with
      kernelContext := upd s.pcb.kernelContext s.activePCB k } := by
  rcases q with _ | q
  · rfl
  · cases q <;> rfl

theorem swapped_pcb : (s.swapped q k).pcb =
    { s.pcb with
      kernelContext := upd s.pcb.kernelContext s.activePCB k } := by
  unfold swapped
  split
  · rfl
  · exact switched_pcb

theorem swapped_history : (s.swapped q k).history = s.history := by
  unfold swapped
  split
  · rfl
  · rcases (if s.pcb.pid s.activePCB = s.pcb.pid s.idlePCB then none
      else q) with _ | q
    · rfl
    · cases q <;> rfl

theorem swapped_sync : (s.swapped q k).lockStatus = s.lockStatus ∧
    (s.swapped q k).cvarStatus = s.cvarStatus := by
  unfold swapped
  split
  · exact ⟨rfl, rfl⟩
  · rcases (if s.pcb.pid s.activePCB = s.pcb.pid s.idlePCB then none
      else q) with _ | q
    · exact ⟨rfl, rfl⟩
    · cases q <;> exact ⟨rfl, rfl⟩

theorem swapped_mode : (s.swapped q k).mode = .kernel := by
  unfold swapped
  split
  · rfl
  · rfl

/-- A process becomes active by being resumed. -/
theorem Effect.active {a : Label} (h : Effect s a r) :
    r.activePCB = s.activePCB ∨ r.mode = .kernel := by
  cases h with
  | exit => exact .inr swapped_mode
  | fault => exact .inr swapped_mode
  | waitSleeps => exact .inr swapped_mode
  | delay => exact .inr swapped_mode
  | clock => exact .inr swapped_mode
  | clockResumes _ hscan => exact .inl hscan.woken.1
  | ttyReadSleeps => exact .inr swapped_mode
  | ttyWriteWaits => exact .inr swapped_mode
  | ttyWriteSleeps => exact .inr swapped_mode
  | @ttyWriteReturns _ t s₁ hwrites =>
      have hdone : (s₁.writeDone t).activePCB = s₁.activePCB := by
        unfold writeDone
        split
        · rfl
        · rfl
      cases hwrites with
      | call => exact .inl hdone
      | resume => exact .inl hdone
  | ttyTransmitted _ _ hcheck => exact .inl hcheck.woken.1
  | pipeSleeps => exact .inr swapped_mode
  | _ => exact .inl rfl

/-! ## Locks and condition variables stay unused -/

/-- What `SyncIdle` depends on. -/
structure SameSync (s r : Kernel) : Prop where
  lock : r.lockStatus = s.lockStatus
  cvar : r.cvarStatus = s.cvarStatus
  context : ∀ p, r.pcb.kernelContext p = s.pcb.kernelContext p ∨
    (r.pcb.kernelContext p).isSync = false
  usedPids : ∀ pid ∈ s.history.usedPids, pid ∈ r.history.usedPids

namespace SameSync

theorem of_eq (hlock : r.lockStatus = s.lockStatus)
    (hcvar : r.cvarStatus = s.cvarStatus)
    (hcontext : r.pcb.kernelContext = s.pcb.kernelContext)
    (hused : r.history.usedPids = s.history.usedPids) : SameSync s r :=
  ⟨hlock, hcvar, fun p => .inl (congrFun hcontext p), fun _ h => hused ▸ h⟩

theorem trans {s' : Kernel} (h : SameSync s s') (h' : SameSync s' r) :
    SameSync s r where
  lock := h'.lock.trans h.lock
  cvar := h'.cvar.trans h.cvar
  context := fun p => by
    rcases h'.context p with he | hk
    · rw [he]
      exact h.context p
    · exact .inr hk
  usedPids := fun pid hpid => h'.usedPids pid (h.usedPids pid hpid)

theorem swapped (hk : k.isSync = false) : SameSync s (s.swapped q k) where
  lock := swapped_sync.1
  cvar := swapped_sync.2
  context := fun p => by
    rw [swapped_pcb]
    by_cases hp : p = s.activePCB
    · subst hp
      exact .inr (by simpa using hk)
    · exact .inl (upd_other hp _ _)
  usedPids := fun pid h => by rw [swapped_history]; exact h

theorem then_swapped {s' : Kernel} (h : SameSync s s')
    (hk : k.isSync = false) : SameSync s (s'.swapped q k) :=
  h.trans (swapped hk)

theorem then_setMode {s' : Kernel} {mode : Mode} (h : SameSync s s') :
    SameSync s (s'.setMode mode) :=
  h.trans (of_eq rfl rfl rfl rfl)

theorem recheck {p : PcbPtr} (h : Recheck s p r) : SameSync s r := by
  cases h <;> exact of_eq rfl rfl rfl rfl

theorem scanned {limit : Nat} (h : Scanned limit s r) : SameSync s r := by
  induction h with
  | done => exact of_eq rfl rfl rfl rfl
  | empty _ _ ih => exact ih
  | @next limit s s' r p rest _ hcheck _ ih =>
      have hpop : SameSync s (s.setBlockedQ rest) := of_eq rfl rfl rfl rfl
      exact hpop.trans ((recheck hcheck).trans ih)

theorem exitCleanup (code : Int) : SameSync s (s.exitCleanup code).2 := by
  unfold Kernel.exitCleanup
  simp only
  split
  · unfold exitLoops
    exact of_eq rfl rfl rfl rfl
  · exact of_eq rfl rfl rfl rfl

theorem newProcess (active : Option PcbPtr) (pid : Nat) :
    SameSync s (s.newProcess active pid) where
  lock := rfl
  cvar := rfl
  context := fun _ => .inl rfl
  usedPids := fun _ h => List.mem_cons_of_mem _ h

theorem forked (pid : Nat) : SameSync s (s.forked pid) :=
  (newProcess (some s.activePCB) pid).trans
    { lock := rfl
      cvar := rfl
      context := fun p => by
        by_cases hp : p = s.npcb
        · subst hp
          exact .inr (by
            simp [Kernel.forked, setKernelContext, setPcb,
              KernelContext.isSync])
        · exact .inl (upd_other hp _ _)
      usedPids := fun _ h => h }

theorem writesOn {a : Label} {t : Nat} {s₁ : Kernel}
    (h : WritesOn s a t s₁) : SameSync s s₁ := by
  cases h <;> exact of_eq rfl rfl rfl rfl

theorem writeDone (t : Nat) : SameSync s (s.writeDone t) := by
  unfold Kernel.writeDone
  split <;> exact of_eq rfl rfl rfl rfl

theorem effect {a : Label} (h : Effect s a r) : SameSync s r := by
  cases h with
  | stay => exact of_eq rfl rfl rfl rfl
  | returns => exact of_eq rfl rfl rfl rfl
  | fork => exact (forked _).then_setMode
  | forkFails => exact (newProcess _ _).then_setMode
  | exit =>
      refine then_swapped ?_ rfl
      exact (exitCleanup _).trans (of_eq rfl rfl rfl rfl)
  | fault => exact then_swapped (of_eq rfl rfl rfl rfl) rfl
  | waitFails => exact of_eq rfl rfl rfl rfl
  | waitReaps => exact of_eq rfl rfl rfl rfl
  | waitSleeps => exact then_swapped (of_eq rfl rfl rfl rfl) rfl
  | waitResumes => exact of_eq rfl rfl rfl rfl
  | waitResumesOther => exact of_eq rfl rfl rfl rfl
  | delay => exact then_swapped (of_eq rfl rfl rfl rfl) rfl
  | clock => exact swapped rfl
  | clockResumes _ hscan => exact (scanned hscan).then_setMode
  | ttyReadSleeps => exact then_swapped (of_eq rfl rfl rfl rfl) rfl
  | ttyReadWakes => exact of_eq rfl rfl rfl rfl
  | ttyReceives => exact of_eq rfl rfl rfl rfl
  | ttyWriteWaits => exact then_swapped (of_eq rfl rfl rfl rfl) rfl
  | ttyWriteSleeps _ _ _ _ hwrites =>
      refine then_swapped ?_ rfl
      exact (writesOn hwrites).trans (of_eq rfl rfl rfl rfl)
  | ttyWriteReturns hwrites =>
      exact ((writesOn hwrites).trans (writeDone _)).then_setMode
  | ttyTransmitted _ _ hcheck => exact (recheck hcheck).then_setMode
  | pipeInit => exact of_eq rfl rfl rfl rfl
  | pipeSleeps _ _ hk =>
      refine then_swapped (of_eq rfl rfl rfl rfl) ?_
      cases hk <;> rfl
  | pipeWakes => exact of_eq rfl rfl rfl rfl

theorem syncIdle (h : SameSync s r) (hidle : s.SyncIdle) : r.SyncIdle where
  lock := fun i => by rw [h.lock]; exact hidle.lock i
  cvar := fun i => by rw [h.cvar]; exact hidle.cvar i
  context := fun p => by
    rcases h.context p with he | hk
    · rw [he]
      exact hidle.context p
    · exact hk

end SameSync

/-- No locks are in use and `0` is not handed out again. -/
structure Quiescent (s : Kernel) : Prop where
  sync : s.SyncIdle
  zero_used : 0 ∈ s.history.usedPids

theorem Quiescent.of_core (h : s.Quiescent) (hcore : r.core = s.core) :
    r.Quiescent := by
  have hs : s.core.Quiescent :=
    ⟨⟨h.sync.lock, h.sync.cvar, h.sync.context⟩, h.zero_used⟩
  rw [← hcore] at hs
  exact ⟨⟨hs.sync.lock, hs.sync.cvar, hs.sync.context⟩, hs.zero_used⟩

theorem Quiescent.effect {a : Label} (h : s.Quiescent) (heffect : Effect s a r) :
    r.Quiescent :=
  ⟨(SameSync.effect heffect).syncIdle h.sync,
    (SameSync.effect heffect).usedPids 0 h.zero_used⟩

end Kernel

/-! ## The invariant rule -/

theorem Booted.core {s : Kernel} (h : Booted s) :
    ∃ b : Boot, b.WellFormed ∧ s.core = b.started.core := by
  obtain ⟨b, hb, rfl, hmode⟩ := h
  exact ⟨b, hb, Kernel.core_of_eraseMemory (Boot.kernelStart_eraseMemory hmode)⟩

theorem Boot.started_quiescent (b : Boot) : b.started.Quiescent where
  sync :=
    { lock := fun _ => rfl
      cvar := fun _ => rfl
      context := fun p => by
        by_cases hp : p = 1
        · subst hp
          rfl
        · have hctx : b.started.pcb.kernelContext p = .kernelStart :=
            upd_other hp _ _
          rw [hctx]
          rfl }
  zero_used := List.mem_cons_of_mem _ List.mem_cons_self

theorem Label.Enabled.live {s : Kernel} {a : Label} (h : a.Enabled s) :
    s.Live := by
  cases a with
  | trap ctx t => exact .inl h.1
  | resume => exact .inr h

theorem Reachable.quiescent {guard : Kernel → Label → Prop} {s : Kernel}
    (h : Reachable guard s) (hlive : s.Live) : s.Quiescent := by
  revert hlive
  refine h.invariant (P := fun s => s.Live → s.Quiescent) ?_ ?_
  · intro s hbooted _
    obtain ⟨b, -, hcore⟩ := hbooted.core
    exact b.started_quiescent.of_core hcore
  · intro s a s' _ ih _ hstep hlive
    cases hstep with
    | take henabled =>
        have hs := ih henabled.live
        obtain ⟨r, heffect, hcore⟩ :=
          Kernel.take_hasEffect hs.sync hs.zero_used henabled hlive
        exact ((hs.of_core (Kernel.entered_core a)).effect heffect).of_core
          hcore

/--
The invariant rule for properties of the core.  A guard may look at more than
the core, but not at the user context that the trap replaces.
-/
theorem Reachable.core_invariant {guard : Kernel → Label → Prop}
    {P : Kernel → Prop}
    (hcore : ∀ s s' : Kernel, s'.core = s.core → P s → P s')
    (hguard : ∀ s a, guard s a → guard (s.entered a) a)
    (hboot : ∀ b : Boot, b.WellFormed → P b.started)
    (heffect : ∀ s a r, P s → a.Enabled s → s.entered a = s →
      (s.take a).core = r.core → guard s a → Kernel.Effect s a r → P r)
    {s : Kernel} (h : Reachable guard s) (hlive : s.Live) : P s := by
  revert hlive
  refine h.invariant (P := fun s => s.Live → P s) ?_ ?_
  · intro s hbooted _
    obtain ⟨b, hb, hstart⟩ := hbooted.core
    exact hcore _ _ hstart (hboot b hb)
  · intro s a s' hreach ih hmeets hstep hlive
    cases hstep with
    | take henabled =>
        have hs := Reachable.quiescent hreach henabled.live
        obtain ⟨r, hr, hresult⟩ :=
          Kernel.take_hasEffect hs.sync hs.zero_used henabled hlive
        have hentered := hcore _ _ (Kernel.entered_core a) (ih henabled.live)
        exact hcore _ _ hresult (heffect _ a r hentered
          (Kernel.entered_enabled henabled) (Kernel.entered_entered a)
          (by rw [Kernel.entered_take]; exact hresult) (hguard s a hmeets) hr)

end Yalnix
