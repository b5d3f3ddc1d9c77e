import Yalnix.Process.SystemRuns

/-!
# Runs of processes

Runs in which the processes only fork, exit, wait and delay, with clock traps at
any time.  Nothing is ever put into a queue of a terminal or a pipe there, and a
step has one of the effects listed in `ProcessEffect`.
-/

namespace Yalnix

/-- `Fork`, `Exit`, `Wait` and `Delay`, clock traps and resumptions. -/
def Label.ofProcesses : Label → Bool
  | .trap _ (.kernel (.fork _)) => true
  | .trap _ (.kernel (.exit _)) => true
  | .trap _ (.kernel (.wait _)) => true
  | .trap _ (.kernel (.delay _)) => true
  | .trap _ .clock => true
  | .resume => true
  | _ => false

namespace KernelContext

/-- A context that goes on in user mode and changes nothing. -/
def goesOn : KernelContext → Bool
  | .kernelStart => true
  | .kernelFork => true
  | .kernelExit => true
  | .kernelDelay => true
  | _ => false

/-- A process that the clock interrupted scans `blocked_q` when it resumes. -/
def scans : KernelContext → Bool
  | .trapClockHandler => true
  | _ => false

def waits : KernelContext → Bool
  | .kernelWait _ => true
  | _ => false

def ofProcesses (k : KernelContext) : Bool := k.goesOn || k.scans || k.waits

end KernelContext

namespace Kernel

/-- Every process is suspended in one of these calls; a PCB that was not made
yet has never been switched away. -/
structure ProcessContexts (s : Kernel) : Prop where
  saved : ∀ p, (s.pcb.kernelContext p).ofProcesses = true
  unmade : ∀ p, s.npcb ≤ p → s.pcb.kernelContext p = .kernelStart

/-- What a step of such a run does to processes and queues. -/
inductive ProcessEffect (s : Kernel) : Label → Kernel → Prop where
  | refused {ctx : UserContext} {ticks : Int} : ticks ≤ 0 →
      ProcessEffect s (.trap ctx (.kernel (.delay ticks))) (s.setMode .user)
  | returns : (s.pcb.kernelContext s.activePCB).goesOn = true →
      ProcessEffect s .resume (s.setMode .user)
  | fork {ctx : UserContext} {pid : Nat} :
      s.activePCB ≠ s.idlePCB → pid ∉ s.history.usedPids →
      ProcessEffect s (.trap ctx (.kernel (.fork pid)))
        ((s.forked pid).setMode .user)
  | forkFails {ctx : UserContext} {pid : Nat} :
      s.activePCB ≠ s.idlePCB → pid ∉ s.history.usedPids →
      ProcessEffect s (.trap ctx (.kernel (.fork pid)))
        ((s.newProcess (some s.activePCB) pid).setMode .user)
  | exit {ctx : UserContext} {code : Int} : s.activePCB ≠ s.idlePCB →
      ProcessEffect s (.trap ctx (.kernel (.exit code))) (s.exited code)
  | waitFails {ctx : UserContext} {nonNull : Bool} :
      s.activePCB ≠ s.idlePCB →
      nonNull = false ∨ s.pcb.numChildren s.activePCB = 0 →
      ProcessEffect s (.trap ctx (.kernel (.wait nonNull)))
        ((s.emit (.waitReturn s.activePCB none none Rc.error)).setMode .user)
  | waitReaps {ctx : UserContext} {child : PcbPtr} {queue : List PcbPtr} :
      s.activePCB ≠ s.idlePCB → s.pcb.numChildren s.activePCB ≠ 0 →
      reapLoop (fun d => decide (s.pcb.ppid d = s.pcb.pid s.activePCB))
        s.defunctQ.length s.defunctQ = (some child, queue) →
      ProcessEffect s (.trap ctx (.kernel (.wait true)))
        ((((s.setDefunctQ queue).setNumChildren s.activePCB
          (s.pcb.numChildren s.activePCB - 1)).emit
            (.waitReturn s.activePCB (some child)
              (some (s.pcb.exitCode child)) 0)).setMode .user)
  | waitSleeps {ctx : UserContext} {queue : List PcbPtr} :
      s.activePCB ≠ s.idlePCB → s.pcb.numChildren s.activePCB ≠ 0 →
      reapLoop (fun d => decide (s.pcb.ppid d = s.pcb.pid s.activePCB))
        s.defunctQ.length s.defunctQ = (none, queue) →
      ProcessEffect s (.trap ctx (.kernel (.wait true)))
        (((s.setDefunctQ queue).setBlockedCode s.activePCB
          Blocked.wait).swapped (some .blockedQ)
            (.kernelWait (s.pcb.pid s.activePCB)))
  | waitResumes {pid : Nat} :
      s.pcb.kernelContext s.activePCB = .kernelWait pid →
      s.pcb.pid s.activePCB = pid →
      ProcessEffect s .resume
        ((((s.emit (.waitReturn s.activePCB (s.history.reporter s.activePCB)
          (some (s.pcb.blockedCode s.activePCB)) 0)).setBlockedCode s.activePCB
            Blocked.notBlocked).setReporter s.activePCB none).setMode .user)
  | waitResumesOther {pid : Nat} :
      s.pcb.kernelContext s.activePCB = .kernelWait pid →
      s.pcb.pid s.activePCB ≠ pid →
      ProcessEffect s .resume
        ((s.emit (.waitReturn s.activePCB none none 0)).setMode .user)
  | delay {ctx : UserContext} {ticks : Int} :
      s.activePCB ≠ s.idlePCB → 0 < ticks →
      ProcessEffect s (.trap ctx (.kernel (.delay ticks)))
        (((s.setClockTicks s.activePCB ticks).setBlockedCode s.activePCB
          Blocked.delay).swapped (some .blockedQ) .kernelDelay)
  | clock {ctx : UserContext} :
      ProcessEffect s (.trap ctx .clock)
        (s.swapped (some .readyQ) .trapClockHandler)
  | clockResumes {r : Kernel} :
      s.pcb.kernelContext s.activePCB = .trapClockHandler →
      Scanned s.blockedQ.length s r →
      ProcessEffect s .resume (r.setMode .user)

variable {s r : Kernel} {a : Label}

theorem Label.ofSystem_of_processes (h : a.ofProcesses = true) :
    a.ofSystem = true := by
  cases a with
  | trap ctx t =>
      cases t with
      | kernel call =>
          cases call with
          | fork _ => rfl
          | exit _ => rfl
          | wait _ => rfl
          | delay _ => rfl
          | _ => cases h
      | clock => rfl
      | _ => cases h
  | resume => rfl

theorem KernelContext.ofSystem_of_processes {k : KernelContext}
    (h : k.ofProcesses = true) : k.ofSystem = true := by
  cases k <;> first | rfl | cases h

theorem Effect.process (h : Effect s a r) (ha : a.ofProcesses = true)
    (hs : s.ProcessContexts) : s.ProcessEffect a r := by
  have hsaved := hs.saved s.activePCB
  have hsystem := Label.ofSystem_of_processes ha
  have hactive := KernelContext.ofSystem_of_processes hsaved
  cases h with
  | @stay ctx t ht =>
      cases t with
      | kernel call =>
          cases call with
          | delay ticks => exact .refused (of_decide_eq_true ht)
          | fork _ => cases ht
          | exit _ => cases ht
          | wait _ => cases ht
          | _ => cases ha
      | clock => cases ht
      | _ => cases ha
  | returns hreturns =>
      refine .returns ?_
      cases hctx : s.pcb.kernelContext s.activePCB with
      | kernelStart => rfl
      | kernelFork => rfl
      | kernelExit => rfl
      | kernelDelay => rfl
      | trapClockHandler =>
          rw [hctx] at hreturns
          cases hreturns
      | kernelWait _ =>
          rw [hctx] at hreturns
          cases hreturns
      | _ =>
          rw [hctx] at hsaved
          cases hsaved
  | fork hne hpid => exact .fork hne hpid
  | forkFails hne hpid => exact .forkFails hne hpid
  | @exit a code hne hends =>
      cases a with
      | trap ctx t =>
          cases t with
          | kernel call =>
              cases call with
              | exit exitCode =>
                  cases hends
                  exact .exit hne
              | fork _ => cases hends
              | wait _ => cases hends
              | delay _ => cases hends
              | _ => cases ha
          | clock => cases hends
          | _ => cases ha
      | resume => cases hends
  | fault _ ht => rcases ht with rfl | rfl <;> cases ha
  | waitFails hne hfails => exact .waitFails hne hfails
  | waitReaps hne hchildren hreap => exact .waitReaps hne hchildren hreap
  | waitSleeps hne hchildren hreap => exact .waitSleeps hne hchildren hreap
  | waitResumes hctx hpid => exact .waitResumes hctx hpid
  | waitResumesOther hctx hpid => exact .waitResumesOther hctx hpid
  | delay hne hticks => exact .delay hne hticks
  | clock => exact .clock
  | clockResumes hctx hscan => exact .clockResumes hctx hscan
  | ttyReadSleeps => cases ha
  | ttyReadWakes hctx =>
      rw [hctx] at hsaved
      cases hsaved
  | ttyReceives => cases ha
  | ttyWriteWaits => cases ha
  | ttyWriteSleeps _ _ _ _ hwrites =>
      exact absurd hwrites (not_writesOn_of_system hsystem hactive)
  | ttyWriteReturns hwrites =>
      exact absurd hwrites (not_writesOn_of_system hsystem hactive)
  | ttyTransmitted => cases ha
  | pipeInit => cases ha
  | pipeSleeps hfrom =>
      exact absurd hfrom (not_sleepsOn_of_system hsystem hactive)
  | pipeWakes hcompleting =>
      rw [completing_of_system hsystem hactive] at hcompleting
      cases hcompleting

theorem ProcessContexts.orderly (hs : s.ProcessContexts)
    (ha : a.ofProcesses = true) : Orderly s a :=
  orderly_of_system (Label.ofSystem_of_processes ha)
    (KernelContext.ofSystem_of_processes (hs.saved s.activePCB))

/-! ## Contexts -/

namespace ProcessContexts

theorem of_core (h : s.ProcessContexts) (hcore : r.core = s.core) :
    r.ProcessContexts := by
  have hs : s.core.ProcessContexts := ⟨h.saved, h.unmade⟩
  rw [← hcore] at hs
  exact ⟨hs.saved, hs.unmade⟩

theorem of_eq (h : s.ProcessContexts)
    (hcontext : r.pcb.kernelContext = s.pcb.kernelContext)
    (hnpcb : s.npcb ≤ r.npcb) : r.ProcessContexts := by
  constructor
  · rw [hcontext]
    exact h.saved
  · rw [hcontext]
    exact fun p hp => h.unmade p (Nat.le_trans hnpcb hp)

theorem swapped {q : Option QueueRef} {k : KernelContext}
    (h : s.ProcessContexts) (hactive : s.activePCB < s.npcb)
    (hk : k.ofProcesses = true) : (s.swapped q k).ProcessContexts := by
  constructor
  · intro p
    rw [swapped_pcb]
    show (upd s.pcb.kernelContext s.activePCB k p).ofProcesses = true
    by_cases hp : p = s.activePCB
    · rw [hp, upd_same]
      exact hk
    · rw [upd_other hp]
      exact h.saved p
  · intro p hp
    rw [swapped_npcb] at hp
    rw [swapped_pcb]
    exact (upd_other (Nat.ne_of_gt (Nat.lt_of_lt_of_le hactive hp)) _ _).trans
      (h.unmade p hp)

theorem effect (h : s.ProcessContexts) (hpop : Population s)
    (heffect : s.ProcessEffect a r) : r.ProcessContexts := by
  cases heffect with
  | refused => exact h.of_eq rfl (Nat.le_refl _)
  | returns => exact h.of_eq rfl (Nat.le_refl _)
  | fork =>
      constructor
      · intro p
        show (upd s.pcb.kernelContext s.npcb .kernelFork p).ofProcesses = true
        by_cases hp : p = s.npcb
        · rw [hp, upd_same]
          rfl
        · rw [upd_other hp]
          exact h.saved p
      · intro p hp
        have hlt : s.npcb < p := hp
        exact (upd_other (Nat.ne_of_gt hlt) _ _).trans
          (h.unmade p (Nat.le_of_lt hlt))
  | forkFails => exact h.of_eq rfl (Nat.le_succ _)
  | @exit _ code =>
      have hc := s.exitCleanup_cleaned code
      have hcleaned : ((s.exitCleanup code).2.setTerminated
          s.activePCB).ProcessContexts :=
        h.of_eq hc.context (Nat.le_of_eq hc.npcb.symm)
      refine hcleaned.swapped ?_ rfl
      show (s.exitCleanup code).2.activePCB < (s.exitCleanup code).2.npcb
      rw [hc.active, hc.npcb]
      exact hpop.active
  | waitFails => exact h.of_eq rfl (Nat.le_refl _)
  | waitReaps => exact h.of_eq rfl (Nat.le_refl _)
  | waitSleeps =>
      refine swapped ?_ hpop.active rfl
      exact h.of_eq rfl (Nat.le_refl _)
  | waitResumes => exact h.of_eq rfl (Nat.le_refl _)
  | waitResumesOther => exact h.of_eq rfl (Nat.le_refl _)
  | delay =>
      refine swapped ?_ hpop.active rfl
      exact h.of_eq rfl (Nat.le_refl _)
  | clock => exact h.swapped hpop.active rfl
  | clockResumes _ hscan =>
      exact h.of_eq hscan.context
        (Nat.le_of_eq (Placement.scanned_same hscan).npcb.symm)

theorem started (b : Boot) : b.started.ProcessContexts := by
  have hctx (p : PcbPtr) : b.started.pcb.kernelContext p = .kernelStart := by
    by_cases hp : p = 1
    · subst hp
      rfl
    · exact upd_other hp _ _
  constructor
  · intro p
    rw [hctx]
    rfl
  · exact fun p _ => hctx p

end ProcessContexts

end Kernel

/-! ## Runs -/

theorem Reachable.processes {guard : Kernel → Label → Prop}
    (himp : ∀ s a, guard s a → a.ofProcesses = true) {s : Kernel}
    (h : Reachable guard s) (hlive : s.Live) :
    Population s ∧ Settled s ∧ s.ProcessContexts := by
  have hrun : Reachable (fun _ a => a.ofProcesses = true) s := h.mono himp
  refine hrun.core_invariant
    (P := fun s => Population s ∧ Settled s ∧ s.ProcessContexts)
    (fun _ _ hcore hs => ⟨hs.1.of_core hcore, hs.2.1.of_core hcore,
      hs.2.2.of_core hcore⟩)
    (fun _ _ h => h)
    (fun b hb => ⟨Population.started hb, Settled.started hb,
      Kernel.ProcessContexts.started b⟩) ?_ hlive
  intro s a r ⟨hpop, hsettled, hcontexts⟩ henabled _ _ ha heffect
  have horderly := hcontexts.orderly ha
  exact ⟨hpop.effect horderly.clean heffect,
    hsettled.effect hpop henabled horderly heffect,
    hcontexts.effect hpop (heffect.process ha hcontexts)⟩

/-- The step of a process run, on the core. -/
theorem Reachable.take_process {guard : Kernel → Label → Prop}
    (himp : ∀ s a, guard s a → a.ofProcesses = true) {s : Kernel} {a : Label}
    (h : Reachable guard s) (ha : guard s a) (henabled : a.Enabled s)
    (hlive : (s.take a).Live) :
    ∃ r, (s.entered a).ProcessEffect a r ∧ (s.take a).core = r.core := by
  obtain ⟨-, -, hcontexts⟩ := h.processes himp henabled.live
  have hquiet := h.quiescent henabled.live
  obtain ⟨r, heffect, hcore⟩ := Kernel.take_hasEffect hquiet.sync
    hquiet.zero_used henabled hlive
  exact ⟨r, heffect.process (himp s a ha)
    (hcontexts.of_core (Kernel.entered_core a)), hcore⟩

end Yalnix
