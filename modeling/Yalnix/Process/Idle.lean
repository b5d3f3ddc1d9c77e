import Yalnix.Process.Placement

/-!
# When idle runs

`SwapProcess` chooses idle when it finds `ready_q` empty.  Handlers that wake a
process leave the choice as it is: the woken process waits in `ready_q` until
the next clock trap.
-/

namespace Yalnix

open Kernel

namespace Kernel

/-- The steps that wake processes while idle runs: the scan at the end of
`TrapClockHandler` and the traps of the terminals. -/
inductive WakesUp (s : Kernel) : Label → Prop where
  | scan : s.pcb.kernelContext s.activePCB = .trapClockHandler →
      WakesUp s .resume
  | receive {ctx : UserContext} {t : Nat} {bytes : List UInt8} :
      WakesUp s (.trap ctx (.ttyReceive t bytes))
  | transmit {ctx : UserContext} {t : Nat} :
      WakesUp s (.trap ctx (.ttyTransmit t))

variable {D : PcbPtr → Prop} {s r : Kernel} {a : Label}

/-- The only calls that idle makes keep the queues. -/
theorem completing_active (h : Census D s) (henabled : a.Enabled s)
    {c : PipeCall} (hc : s.completing a = some c) :
    s.activePCB ≠ s.idlePCB := by
  intro hidle
  cases a with
  | trap ctx t =>
      cases t with
      | kernel call =>
          have hcall : call.idleCall = true :=
            henabled.2.1.resolve_left fun hne => hne hidle
          cases call <;> cases hcall <;> cases hc
      | _ => cases hc
  | resume =>
      rw [completing, hidle, h.idle] at hc
      rcases h.idle_context with hctx | hctx
      · rw [hctx] at hc
        cases hc
      · rw [hctx] at hc
        cases hc

end Kernel

/-! ## A step of idle -/

/-- What a step can do while idle is active. -/
inductive IdleStep (s : Kernel) (a : Label) (r : Kernel) : Prop where
  | stays : r.activePCB = s.idlePCB → r.readyQ = s.readyQ → IdleStep s a r
  | wakes (woken : List PcbPtr) : s.WakesUp a → r.activePCB = s.idlePCB →
      r.readyQ = s.readyQ ++ woken → IdleStep s a r
  | leaves {ctx : UserContext} : a = .trap ctx .clock → s.readyQ ≠ [] →
      r.activePCB = s.readyQ.headD s.idlePCB → IdleStep s a r

namespace Census

variable {D : PcbPtr → Prop} {s r : Kernel} {a : Label}

/-- The queue that idle would be put on is refused. -/
theorem swapped_idle (h : Census D s) (hidle : s.activePCB = s.idlePCB)
    (q : Option QueueRef) (k : KernelContext) :
    (s.swapped q k).activePCB = s.readyQ.headD s.idlePCB ∧
      (s.swapped q k).readyQ = s.readyQ.tail := by
  rw [h.swapped_of_eq hidle]
  exact ⟨rfl, rfl⟩

theorem idleStep (h : Census D s) (hidle : s.activePCB = s.idlePCB)
    (henabled : a.Enabled s) (heffect : Effect s a r) : IdleStep s a r := by
  have hcontext : s.pcb.kernelContext s.activePCB = .kernelStart ∨
      s.pcb.kernelContext s.activePCB = .trapClockHandler := by
    rw [hidle, h.idle]
    exact h.idle_context
  have hother {k : KernelContext} (hk : s.pcb.kernelContext s.activePCB = k)
      (hstart : k ≠ .kernelStart) (hclock : k ≠ .trapClockHandler) :
      IdleStep s a r := by
    rcases hcontext with hctx | hctx
    · exact absurd (hk.symm.trans hctx) hstart
    · exact absurd (hk.symm.trans hctx) hclock
  cases heffect with
  | stay => exact .stays hidle rfl
  | returns => exact .stays hidle rfl
  | fork hne => exact absurd hidle hne
  | forkFails hne => exact absurd hidle hne
  | exit hne => exact absurd hidle hne
  | fault hne => exact absurd hidle hne
  | waitFails hne => exact absurd hidle hne
  | waitReaps hne => exact absurd hidle hne
  | waitSleeps hne => exact absurd hidle hne
  | waitResumes hctx => exact hother hctx nofun nofun
  | waitResumesOther hctx => exact hother hctx nofun nofun
  | delay hne => exact absurd hidle hne
  | clock =>
      obtain ⟨hactive, hready⟩ :=
        h.swapped_idle hidle (some .readyQ) .trapClockHandler
      by_cases hempty : s.readyQ = []
      · refine .stays ?_ ?_
        · rw [hactive, hempty]
          rfl
        · rw [hready, hempty]
          rfl
      · exact .leaves rfl hempty hactive
  | clockResumes hctx hscan =>
      obtain ⟨hactive, woken, hready⟩ := hscan.woken
      exact .wakes woken (.scan hctx) (hactive.trans hidle) hready
  | ttyReadSleeps hne => exact absurd hidle hne
  | ttyReadWakes hctx => exact hother hctx nofun nofun
  | @ttyReceives _ _ _ next => exact .wakes [next] .receive hidle rfl
  | ttyWriteWaits hne => exact absurd hidle hne
  | ttyWriteSleeps _ _ _ _ hwrites =>
      have hne := h.writesOn_active hwrites
      cases hwrites with
      | call => exact absurd hidle hne
      | resume => exact absurd hidle hne
  | ttyWriteReturns hwrites =>
      have hne := h.writesOn_active hwrites
      cases hwrites with
      | call => exact absurd hidle hne
      | resume => exact absurd hidle hne
  | ttyTransmitted _ _ hcheck =>
      obtain ⟨hactive, woken, hready⟩ := hcheck.woken
      exact .wakes woken .transmit (hactive.trans hidle) hready
  | pipeInit =>
      rcases henabled.2.1 with hne | hcall
      · exact absurd hidle hne
      · cases hcall
  | pipeSleeps hfrom =>
      rcases hfrom with ⟨-, hctx⟩ | ⟨-, hne⟩
      · exact absurd hidle (h.sleepsOn_active hctx)
      · exact absurd hidle hne
  | pipeWakes hc => exact absurd hidle (completing_active h henabled hc)

/-! ## Choosing idle -/

/-- A switch that ends with idle found `ready_q` empty. -/
theorem swapped_chosen {q : Option QueueRef} {k : KernelContext}
    (hpid : s.pcb.pid s.activePCB ≠ s.pcb.pid s.idlePCB)
    (hready : ∀ p ∈ s.readyQ, p ≠ s.idlePCB)
    (hidle : (s.swapped q k).activePCB = s.idlePCB) :
    (s.swapped q k).readyQ =
      if q = some .readyQ then [s.activePCB] else [] := by
  have hswitched : s.swapped q k = s.switched q k := by
    simp only [Kernel.swapped, hpid, false_and, if_false]
  rw [hswitched] at hidle ⊢
  rw [Placement.switched_active, nextProcess] at hidle
  have hempty : s.readyQ = [] := by
    cases hcons : s.readyQ with
    | nil => rfl
    | cons p rest =>
        rw [hcons, List.headD_cons] at hidle
        exact absurd hidle (hready p (hcons ▸ List.mem_cons_self))
  rcases q with _ | q
  · exact congrArg List.tail hempty
  · cases q with
    | readyQ => exact congrArg (fun queue => queue.tail ++ [s.activePCB]) hempty
    | _ => exact congrArg List.tail hempty

/-- A step that makes idle active leaves at most the process that the clock has
just interrupted in `ready_q`. -/
theorem chosen (h : Census D s) (hne : s.activePCB ≠ s.idlePCB)
    (heffect : Effect s a r) (hidle : r.activePCB = s.idlePCB) :
    ∀ p ∈ r.readyQ, p = s.activePCB ∧ ∃ ctx, a = .trap ctx .clock := by
  have hpid := mt h.pid_active_eq_iff.1 hne
  have hready (p : PcbPtr) (hp : D p) : p ≠ s.idlePCB := by
    rw [h.idle]
    exact Nat.ne_of_gt (h.member p hp).1
  have hswapped {s₁ : Kernel} {q : Option QueueRef} {k : KernelContext}
      (hr : r = s₁.swapped q k) (hactive : s₁.activePCB = s.activePCB)
      (hidle₁ : s₁.idlePCB = s.idlePCB) (hpid₁ : s₁.pcb.pid = s.pcb.pid)
      (hmem : ∀ p ∈ s₁.readyQ, D p) (hq : q ≠ some .readyQ) :
      ∀ p ∈ r.readyQ, p = s.activePCB ∧ ∃ ctx, a = .trap ctx .clock := by
    subst hr
    rw [swapped_chosen (by rw [hactive, hidle₁, hpid₁]; exact hpid)
      (fun p hp => by rw [hidle₁]; exact hready p (hmem p hp))
      (hidle.trans hidle₁.symm), if_neg hq]
    exact nofun
  cases heffect with
  | stay => exact absurd hidle hne
  | returns => exact absurd hidle hne
  | fork => exact absurd hidle hne
  | forkFails => exact absurd hidle hne
  | @exit _ code =>
      have hc := s.exitCleanup_cleaned code
      refine hswapped rfl hc.active hc.idle hc.pid
        (h.exitCleanup code).ready ?_
      rcases hc.swapQ with hq | hq
      · rw [hq]
        exact nofun
      · rw [hq]
        exact nofun
  | fault => exact hswapped rfl rfl rfl rfl h.ready nofun
  | waitFails => exact absurd hidle hne
  | waitReaps => exact absurd hidle hne
  | waitSleeps => exact hswapped rfl rfl rfl rfl h.ready nofun
  | waitResumes => exact absurd hidle hne
  | waitResumesOther => exact absurd hidle hne
  | delay => exact hswapped rfl rfl rfl rfl h.ready nofun
  | @clock ctx =>
      intro p hp
      rw [swapped_chosen hpid (fun p hp => hready p (h.ready p hp)) hidle,
        if_pos rfl] at hp
      exact ⟨List.mem_singleton.1 hp, ctx, rfl⟩
  | clockResumes _ hscan => exact absurd (hscan.woken.1.symm.trans hidle) hne
  | ttyReadSleeps => exact hswapped rfl rfl rfl rfl h.ready nofun
  | ttyReadWakes => exact absurd hidle hne
  | ttyReceives => exact absurd hidle hne
  | ttyWriteWaits => exact hswapped rfl rfl rfl rfl h.ready nofun
  | ttyWriteSleeps _ _ _ _ hwrites =>
      cases hwrites with
      | call => exact hswapped rfl rfl rfl rfl h.ready nofun
      | resume => exact hswapped rfl rfl rfl rfl h.ready nofun
  | @ttyWriteReturns _ t s₁ hwrites =>
      have hactive : (s₁.writeDone t).activePCB = s₁.activePCB := by
        unfold Kernel.writeDone
        split <;> rfl
      cases hwrites with
      | call => exact absurd (hactive.symm.trans hidle) hne
      | resume => exact absurd (hactive.symm.trans hidle) hne
  | ttyTransmitted _ _ hcheck =>
      exact absurd (hcheck.woken.1.symm.trans hidle) hne
  | pipeInit => exact absurd hidle hne
  | pipeSleeps => exact hswapped rfl rfl rfl rfl h.ready nofun
  | pipeWakes => exact absurd hidle hne

end Census

/-! ## Runs -/

/--
Idle has just become active: the machine was booted, or another process was
replaced and nothing but that process, interrupted by the clock, is ready.
-/
inductive IdleChosen : Kernel → Prop where
  | boot {s : Kernel} : Booted s → IdleChosen s
  | switch {s : Kernel} {a : Label} : Reachable (fun _ _ => True) s →
      a.Enabled s → s.activePCB ≠ s.idlePCB →
      (s.take a).activePCB = (s.take a).idlePCB →
      (∀ p ∈ (s.take a).readyQ, p = s.activePCB ∧ ∃ ctx, a = .trap ctx .clock) →
      IdleChosen (s.take a)

/-- A run in which idle stays active, with the processes that its wake-ups have
put on `ready_q`, in order. -/
inductive IdleRun (s₀ : Kernel) : Kernel → List PcbPtr → Prop where
  | chosen : s₀.activePCB = s₀.idlePCB → IdleRun s₀ s₀ []
  | stays {s : Kernel} {a : Label} {woken : List PcbPtr} :
      IdleRun s₀ s woken → a.Enabled s →
      (s.take a).activePCB = (s.take a).idlePCB →
      (s.take a).readyQ = s.readyQ → IdleRun s₀ (s.take a) woken
  | wakes {s : Kernel} {a : Label} {woken new : List PcbPtr} :
      IdleRun s₀ s woken → a.Enabled s → s.WakesUp a →
      (s.take a).activePCB = (s.take a).idlePCB →
      (s.take a).readyQ = s.readyQ ++ new → IdleRun s₀ (s.take a) (woken ++ new)

theorem IdleRun.readyQ {s₀ s : Kernel} {woken : List PcbPtr}
    (h : IdleRun s₀ s woken) : s.readyQ = s₀.readyQ ++ woken := by
  induction h with
  | chosen => exact (List.append_nil _).symm
  | stays _ _ _ hready ih => rw [hready, ih]
  | wakes _ _ _ _ hready ih => rw [hready, ih, List.append_assoc]

theorem Kernel.WakesUp.of_entered {s : Kernel} {a : Label}
    (h : (s.entered a).WakesUp a) : s.WakesUp a := by
  cases h with
  | scan hctx => exact .scan hctx
  | receive => exact .receive
  | transmit => exact .transmit

/-- Idle was chosen at some point of the run and has been active since. -/
theorem Reachable.idleRun {s : Kernel} (h : Reachable (fun _ _ => True) s)
    (hlive : s.Live) (hidle : s.activePCB = s.idlePCB) :
    ∃ s₀ woken, IdleChosen s₀ ∧ IdleRun s₀ s woken := by
  revert hlive hidle
  refine h.invariant (P := fun s => s.Live → s.activePCB = s.idlePCB →
    ∃ s₀ woken, IdleChosen s₀ ∧ IdleRun s₀ s woken) ?_ ?_
  · intro s hbooted _ hidle
    exact ⟨s, [], .boot hbooted, .chosen hidle⟩
  · intro s a s' hreach ih _ hstep hlive hidle
    cases hstep with
    | take henabled =>
        have hs := Reachable.quiescent hreach henabled.live
        have hbefore := Reachable.census hreach henabled.live
        have hafter := Reachable.census
          (.next hreach trivial (.take henabled)) hlive
        have hcensus := hbefore.of_core (entered_core a)
        obtain ⟨r, heffect, hcore⟩ :=
          take_hasEffect hs.sync hs.zero_used henabled hlive
        have hactive : (s.take a).activePCB = r.activePCB :=
          (congrArg Kernel.activePCB hcore :)
        have hready : (s.take a).readyQ = r.readyQ :=
          (congrArg Kernel.readyQ hcore :)
        have hidles : (s.take a).idlePCB = s.idlePCB :=
          hafter.idle.trans hbefore.idle.symm
        have hs_active : (s.entered a).activePCB = s.activePCB :=
          (congrArg Kernel.activePCB (entered_core a) :)
        have hs_idle : (s.entered a).idlePCB = s.idlePCB :=
          (congrArg Kernel.idlePCB (entered_core a) :)
        have hs_ready : (s.entered a).readyQ = s.readyQ :=
          (congrArg Kernel.readyQ (entered_core a) :)
        by_cases hwas : s.activePCB = s.idlePCB
        · obtain ⟨s₀, woken, hchosen, hrun⟩ := ih henabled.live hwas
          cases hcensus.idleStep (by rw [hs_active, hs_idle]; exact hwas)
            (entered_enabled henabled) heffect with
          | stays _ hr =>
              rw [hs_ready] at hr
              exact ⟨s₀, woken, hchosen,
                hrun.stays henabled hidle (hready.trans hr)⟩
          | wakes new hwakes _ hr =>
              rw [hs_ready] at hr
              exact ⟨s₀, woken ++ new, hchosen, hrun.wakes henabled
                hwakes.of_entered hidle (hready.trans hr)⟩
          | leaves _ hne hr =>
              -- the head of `ready_q` is not idle
              rw [hs_ready] at hne hr
              obtain ⟨p, rest, hcons⟩ := List.exists_cons_of_ne_nil hne
              have hmember : s.Member p :=
                hbefore.ready p (hcons ▸ List.mem_cons_self)
              rw [hcons, List.headD_cons] at hr
              rw [← hr, ← hactive, hidle, hafter.idle] at hmember
              exact absurd hmember.1 (Nat.lt_irrefl _)
        · have hchosen := hcensus.chosen
            (by rw [hs_active, hs_idle]; exact hwas) heffect
            (by rw [← hactive, hidle, hidles, hs_idle])
          rw [← hready, hs_active] at hchosen
          exact ⟨_, [], .switch hreach henabled hwas hidle hchosen,
            .chosen hidle⟩

/-- The clock takes idle off as soon as a process is ready. -/
theorem Census.clock_leaves {D : PcbPtr → Prop} {s : Kernel}
    (h : Census D s)
    (hidle : s.activePCB = s.idlePCB) (ctx : UserContext) :
    (s.take (.trap ctx .clock)).activePCB = s.readyQ.headD s.idlePCB := by
  have hcore : (s.take (.trap ctx .clock)).core =
      (s.swapped (some .readyQ) .trapClockHandler).core := by
    rw [swapped_core]
    exact swapProcess_core _ _
  have hactive : (s.take (.trap ctx .clock)).activePCB =
      (s.swapped (some .readyQ) .trapClockHandler).activePCB :=
    (congrArg Kernel.activePCB hcore :)
  rw [hactive]
  exact (h.swapped_idle hidle _ _).1

/--
Whenever idle runs in user mode, it was chosen when `ready_q` was empty (or
booted), and every process that became ready since was put there by a wake-up;
the next clock trap goes to the first of them.
-/
theorem idle_chosen_when_none_ready {s : Kernel}
    (h : Reachable (fun _ _ => True) s) (huser : s.mode = .user)
    (hidle : s.activePCB = s.idlePCB) :
    (∃ s₀ woken, IdleChosen s₀ ∧ IdleRun s₀ s woken ∧
      s.readyQ = s₀.readyQ ++ woken) ∧
    ∀ ctx, (s.take (.trap ctx .clock)).activePCB =
      s.readyQ.headD s.idlePCB := by
  obtain ⟨s₀, woken, hchosen, hrun⟩ := Reachable.idleRun h (.inl huser) hidle
  have hcensus := Reachable.census h (.inl huser)
  exact ⟨⟨s₀, woken, hchosen, hrun, hrun.readyQ⟩, hcensus.clock_leaves hidle⟩

/-- The first program waits for input and idle runs until a line arrives. -/
def lineForIdle : Kernel :=
  (Boot.small 8).kernelStart.run (tick ++
    [call (.ttyRead 0 5), .resume, .trap ⟨0, 0⟩ (.ttyReceive 0 [10])])

theorem lineForIdle_reachable :
    Reachable (fun _ _ => True) lineForIdle :=
  reachable_small 8 _ (by decide +kernel) (by decide +kernel)

/-- The reader that the line has woken is ready while idle runs. -/
theorem idle_with_reader_ready :
    ¬ ∀ s : Kernel, Reachable (fun _ _ => True) s → s.mode = .user →
      s.activePCB = s.idlePCB → s.readyQ = [] := by
  intro hall
  have hready : lineForIdle.readyQ = [1] := by decide +kernel
  have hempty := hall lineForIdle lineForIdle_reachable (by decide +kernel)
    (by decide +kernel)
  rw [hempty] at hready
  cases hready

theorem idle_chosen_when_none_ready_line :
    lineForIdle.mode = .user ∧ lineForIdle.activePCB = lineForIdle.idlePCB ∧
      (lineForIdle.take (.trap ⟨0, 0⟩ .clock)).activePCB = 1 := by
  have huser : lineForIdle.mode = .user := by decide +kernel
  have hidle : lineForIdle.activePCB = lineForIdle.idlePCB := by
    decide +kernel
  have hready : lineForIdle.readyQ = [1] := by decide +kernel
  have hnext := (idle_chosen_when_none_ready lineForIdle_reachable huser
    hidle).2 ⟨0, 0⟩
  rw [hready] at hnext
  exact ⟨huser, hidle, hnext⟩

end Yalnix
