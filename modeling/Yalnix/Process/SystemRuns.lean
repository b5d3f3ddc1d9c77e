import Yalnix.Process.OnePlace

/-!
# Runs without terminals, pipes and locks

Runs in which the processes use memory, fork, load programs, exit, wait and
delay, and fault.  Nobody sleeps on a terminal, a pipe or a lock there, so every
step is orderly.
-/

namespace Yalnix

/-- Process and memory calls, faults, clock traps and resumptions. -/
def Label.ofSystem : Label → Bool
  | .trap _ (.kernel (.fork _)) => true
  | .trap _ (.kernel (.exec _)) => true
  | .trap _ (.kernel (.exit _)) => true
  | .trap _ (.kernel (.wait _)) => true
  | .trap _ (.kernel .getPid) => true
  | .trap _ (.kernel (.brk _)) => true
  | .trap _ (.kernel (.delay _)) => true
  | .trap _ .clock => true
  | .trap _ .illegal => true
  | .trap _ .math => true
  | .trap _ (.memory _ _) => true
  | .resume => true
  | _ => false

/-- The contexts that these steps save. -/
def KernelContext.ofSystem : KernelContext → Bool
  | .kernelStart => true
  | .kernelFork => true
  | .trapClockHandler => true
  | .kernelExit => true
  | .trapFault => true
  | .kernelWait _ => true
  | .kernelDelay => true
  | _ => false

namespace Kernel

variable {s r : Kernel} {a : Label}

/-- Every process is suspended in one of these calls. -/
def SystemContexts (s : Kernel) : Prop :=
  ∀ p, (s.pcb.kernelContext p).ofSystem = true

/-- No pipe call is completed. -/
theorem completing_of_system (ha : a.ofSystem = true)
    (hsaved : (s.pcb.kernelContext s.activePCB).ofSystem = true) :
    s.completing a = none := by
  cases a with
  | trap ctx t =>
      cases t with
      | kernel call =>
          cases call with
          | pipeRead _ _ _ => cases ha
          | pipeWrite _ _ _ => cases ha
          | _ => rfl
      | _ => rfl
  | resume =>
      unfold completing
      cases hctx : s.pcb.kernelContext s.activePCB with
      | kernelPipeRead _ _ =>
          rw [hctx] at hsaved
          cases hsaved
      | kernelPipeWrite _ _ _ =>
          rw [hctx] at hsaved
          cases hsaved
      | _ => rfl

/-- Nobody writes to a terminal. -/
theorem not_writesOn_of_system {t : Nat} {s₁ : Kernel}
    (ha : a.ofSystem = true)
    (hsaved : (s.pcb.kernelContext s.activePCB).ofSystem = true) :
    ¬ WritesOn s a t s₁ := by
  intro hwrites
  cases hwrites with
  | call => cases ha
  | resume hctx =>
      rw [hctx] at hsaved
      cases hsaved

/-- Nobody sleeps on a pipe. -/
theorem not_sleepsOn_of_system {p : PipePtr} (ha : a.ofSystem = true)
    (hsaved : (s.pcb.kernelContext s.activePCB).ofSystem = true) :
    ¬ (a = .resume ∧ (s.pcb.kernelContext s.activePCB).SleepsOn p ∨
      a.callsPipe = true ∧ s.activePCB ≠ s.idlePCB) := by
  rintro (⟨-, hctx⟩ | ⟨hcalls, -⟩)
  · cases hsleeps : s.pcb.kernelContext s.activePCB <;>
      rw [hsleeps] at hctx hsaved <;> cases hctx <;> cases hsaved
  · cases a with
    | trap ctx t =>
        cases t with
        | kernel call =>
            cases call with
            | pipeRead _ _ _ => cases ha
            | pipeWrite _ _ _ => cases ha
            | _ => cases hcalls
        | _ => cases hcalls
    | resume => cases hcalls

theorem orderly_of_system (ha : a.ofSystem = true)
    (hsaved : (s.pcb.kernelContext s.activePCB).ofSystem = true) :
    Orderly s a := by
  refine ⟨?_, ?_, ?_⟩
  · cases a with
    | trap ctx t => trivial
    | resume =>
        unfold ReaderAlone
        cases hctx : s.pcb.kernelContext s.activePCB with
        | kernelTtyRead t len =>
            rw [hctx] at hsaved
            cases hsaved
        | _ => trivial
  · cases a with
    | trap ctx t =>
        cases t with
        | ttyTransmit t => cases ha
        | _ => trivial
    | resume => trivial
  · rw [completing_of_system ha hsaved]
    exact nofun

/-! ## Contexts -/

namespace SystemContexts

theorem of_core (h : s.SystemContexts) (hcore : r.core = s.core) :
    r.SystemContexts := by
  have hs : s.core.SystemContexts := h
  rw [← hcore] at hs
  exact hs

theorem of_eq (h : s.SystemContexts)
    (hcontext : r.pcb.kernelContext = s.pcb.kernelContext) :
    r.SystemContexts := by
  intro p
  rw [hcontext]
  exact h p

theorem swapped {q : Option QueueRef} {k : KernelContext}
    (h : s.SystemContexts) (hk : k.ofSystem = true) :
    (s.swapped q k).SystemContexts := by
  intro p
  rw [swapped_pcb]
  change (upd s.pcb.kernelContext s.activePCB k p).ofSystem = true
  by_cases hp : p = s.activePCB
  · rw [hp, upd_same]
    exact hk
  · rw [upd_other hp]
    exact h p

theorem effect (h : s.SystemContexts) (ha : a.ofSystem = true)
    (heffect : Effect s a r) : r.SystemContexts := by
  have hsaved := h s.activePCB
  cases heffect with
  | fork =>
      intro p
      change (upd s.pcb.kernelContext s.npcb .kernelFork p).ofSystem = true
      by_cases hp : p = s.npcb
      · rw [hp, upd_same]
        rfl
      · rw [upd_other hp]
        exact h p
  | @exit _ code =>
      have hc := s.exitCleanup_cleaned code
      have hcleaned : ((s.exitCleanup code).2.setTerminated
          s.activePCB).SystemContexts := h.of_eq hc.context
      exact hcleaned.swapped rfl
  | fault => exact swapped (h.of_eq rfl) rfl
  | waitSleeps => exact swapped (h.of_eq rfl) rfl
  | delay => exact swapped (h.of_eq rfl) rfl
  | clock => exact h.swapped rfl
  | clockResumes _ hscan => exact h.of_eq hscan.context
  | ttyReadSleeps => cases ha
  | ttyReadWakes hctx =>
      rw [hctx] at hsaved
      cases hsaved
  | ttyReceives => cases ha
  | ttyWriteWaits => cases ha
  | ttyWriteSleeps _ _ _ _ hwrites =>
      exact absurd hwrites (not_writesOn_of_system ha hsaved)
  | ttyWriteReturns hwrites =>
      exact absurd hwrites (not_writesOn_of_system ha hsaved)
  | ttyTransmitted => cases ha
  | pipeInit => cases ha
  | pipeSleeps hfrom => exact absurd hfrom (not_sleepsOn_of_system ha hsaved)
  | pipeWakes hcompleting =>
      rw [completing_of_system ha hsaved] at hcompleting
      cases hcompleting
  | _ => exact h.of_eq rfl

theorem started (b : Boot) : b.started.SystemContexts := by
  intro p
  by_cases hp : p = 1
  · subst hp
    rfl
  · have hctx : b.started.pcb.kernelContext p = .kernelStart :=
      upd_other hp _ _
    rw [hctx]
    rfl

end SystemContexts

end Kernel

/-! ## Runs -/

theorem Reachable.system {guard : Kernel → Label → Prop}
    (himp : ∀ s a, guard s a → a.ofSystem = true) {s : Kernel}
    (h : Reachable guard s) (hlive : s.Live) :
    Population s ∧ Settled s ∧ s.SystemContexts := by
  have hrun : Reachable (fun _ a => a.ofSystem = true) s := h.mono himp
  refine hrun.core_invariant
    (P := fun s => Population s ∧ Settled s ∧ s.SystemContexts)
    (fun _ _ hcore hs => ⟨hs.1.of_core hcore, hs.2.1.of_core hcore,
      hs.2.2.of_core hcore⟩)
    (fun _ _ h => h)
    (fun b hb => ⟨Population.started hb, Settled.started hb,
      Kernel.SystemContexts.started b⟩) ?_ hlive
  intro s a r ⟨hpop, hsettled, hcontexts⟩ henabled _ _ ha heffect
  have horderly := Kernel.orderly_of_system ha (hcontexts s.activePCB)
  exact ⟨hpop.effect horderly.clean heffect,
    hsettled.effect hpop henabled horderly heffect,
    hcontexts.effect ha heffect⟩

end Yalnix
