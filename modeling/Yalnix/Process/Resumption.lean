import Yalnix.Process.Idle
import Yalnix.Safety.Survival

/-!
# The way back to user mode

A process that is resumed inside a system call may sleep once more: on a pipe
that is empty again, or behind its next chunk for a terminal.  `ready_q` gets
shorter each time, and idle never sleeps.
-/

namespace Yalnix

open Kernel

namespace Kernel

variable {s : Kernel} {q : Option QueueRef} {k : KernelContext}

/-- How often the processor can be passed on before idle has it. -/
def turnsLeft (s : Kernel) : Nat :=
  if s.activePCB = s.idlePCB then 0 else s.readyQ.length + 1

theorem switched_readyQ_of_ne (hq : q ≠ some .readyQ) :
    (s.switched q k).readyQ = s.readyQ.tail := by
  rcases q with _ | ref
  · rfl
  · cases ref with
    | readyQ => exact absurd rfl hq
    | _ => rfl

/-- The first ready process, or idle, is one step nearer to the end. -/
theorem swapped_turnsLeft (hpid : s.pcb.pid s.activePCB ≠ s.pcb.pid s.idlePCB)
    (hq : q ≠ some .readyQ) : (s.swapped q k).turnsLeft < s.turnsLeft := by
  have hne : s.activePCB ≠ s.idlePCB := fun heq => hpid (by rw [heq])
  have hidle : (s.switched q k).idlePCB = s.idlePCB :=
    Placement.switched_frame.2.2.1
  have hswitched : s.swapped q k = s.switched q k := by
    simp only [swapped, hpid, false_and, if_false]
  rw [hswitched]
  unfold turnsLeft
  rw [Placement.switched_active, switched_readyQ_of_ne hq, hidle, if_neg hne,
    nextProcess]
  cases s.readyQ with
  | nil => simp
  | cons first rest =>
      split
      · exact Nat.zero_lt_succ _
      · exact Nat.lt_succ_self _

end Kernel

namespace Census

variable {D : PcbPtr → Prop} {s r : Kernel}

/-- A resumed process returns to user mode or passes the processor on. -/
theorem resumes (h : Census D s) (heffect : Effect s .resume r) :
    r.mode = .user ∨ r.mode = .kernel ∧ r.turnsLeft < s.turnsLeft := by
  cases heffect with
  | returns => exact .inl rfl
  | exit _ hends => cases hends
  | waitResumes => exact .inl rfl
  | waitResumesOther => exact .inl rfl
  | clockResumes => exact .inl rfl
  | ttyReadWakes => exact .inl rfl
  | ttyWriteSleeps _ _ _ _ hwrites =>
      have hne := h.writesOn_active hwrites
      cases hwrites with
      | resume =>
          have hpid := mt h.pid_active_eq_iff.1 hne
          exact .inr ⟨swapped_mode, swapped_turnsLeft hpid (by simp)⟩
  | ttyWriteReturns => exact .inl rfl
  | pipeSleeps hfrom =>
      have hne : s.activePCB ≠ s.idlePCB := by
        rcases hfrom with ⟨-, hctx⟩ | ⟨-, hne⟩
        · exact h.sleepsOn_active hctx
        · exact hne
      have hpid := mt h.pid_active_eq_iff.1 hne
      exact .inr ⟨swapped_mode, swapped_turnsLeft hpid (by simp)⟩
  | pipeWakes => exact .inl rfl

end Census

/-! ## Runs -/

namespace Reachable

variable {s : Kernel}

theorem resumes (h : Reachable (fun _ _ => True) s) (hmode : s.mode = .kernel) :
    (s.take .resume).mode = .user ∨
      (s.take .resume).mode = .kernel ∧
        (s.take .resume).turnsLeft < s.turnsLeft := by
  have hs := Reachable.quiescent h (.inr hmode)
  obtain ⟨r, heffect, hcore⟩ :=
    take_hasEffect hs.sync hs.zero_used (a := .resume) hmode resume_live
  have hmode' : (s.take .resume).mode = r.mode :=
    (congrArg Kernel.mode hcore :)
  have hleft : (s.take .resume).turnsLeft = r.turnsLeft :=
    (congrArg Kernel.turnsLeft hcore :)
  rw [hmode', hleft]
  exact (Reachable.census h (.inr hmode)).resumes heffect

/-- Back in user mode after at most two resumptions more than processes are
ready. -/
theorem settles (h : Reachable (fun _ _ => True) s) (hlive : s.Live) :
    ∃ n ≤ s.readyQ.length + 2,
      s.Admits (fun _ _ => True) (List.replicate n .resume) ∧
        (s.run (List.replicate n .resume)).mode = .user := by
  have hturns : s.turnsLeft < s.readyQ.length + 2 := by
    unfold turnsLeft
    split <;> omega
  have hkernel (s : Kernel) (hs : Reachable (fun _ _ => True) s ∧ s.Live)
      (hnot : ¬ s.mode = .user) : s.mode = .kernel :=
    hs.2.resolve_left hnot
  have hsettles : ∃ n ≤ s.readyQ.length + 2,
      TransitionSystem.Admits Kernel.take (fun s a => a.Enabled s ∧ True) s
        (List.replicate n .resume) ∧
      ((List.replicate n .resume).foldl Kernel.take s).mode = .user := by
    refine TransitionSystem.settles
      (I := fun s => Reachable (fun _ _ => True) s ∧ s.Live)
      (fun s => s.mode = .user) turnsLeft ?_ ?_ ?_ ⟨h, hlive⟩ hturns
    · intro s hs hnot
      exact ⟨hkernel s hs hnot, trivial⟩
    · intro s hs hnot
      exact ⟨.next hs.1 trivial (.take (hkernel s hs hnot)), resume_live⟩
    · intro s hs hnot
      exact (hs.1.resumes (hkernel s hs hnot)).imp_right And.right
  obtain ⟨n, hn, hadmits, huser⟩ := hsettles
  exact ⟨n, hn, .of_system hadmits, huser⟩

end Reachable

/--
Every trap is answered: after a step that is sound the machine is back in user
mode after at most two resumptions more than processes are ready.
-/
theorem every_trap_is_answered {s : Kernel}
    (h : Reachable (fun _ _ => True) s) {a : Label} (henabled : a.Enabled s)
    (hsound : s.Sound a) :
    ∃ n ≤ (s.take a).readyQ.length + 2,
      (s.take a).Admits (fun _ _ => True) (List.replicate n .resume) ∧
        ((s.take a).run (List.replicate n .resume)).mode = .user := by
  have hlive : (s.take a).Live := (h.live_iff henabled).2 hsound
  exact Reachable.settles (.next h trivial (.take henabled)) hlive

/-- Of two readers woken for one byte the second finds the pipe empty again and
passes the processor on. -/
theorem every_trap_is_answered_two_readers :
    let s := (Boot.small 30).kernelStart.run (tick ++
      [call (.pipeInit true), call (.fork 2), call (.fork 3),
        call (.pipeRead 5102 true 1), .resume,
        call (.pipeRead 5102 true 1), .resume,
        call (.pipeWrite 5102 (some fun _ => 7) 1)] ++ tick ++ tick)
    ∃ n ≤ (s.take (.trap ⟨0, 0⟩ .clock)).readyQ.length + 2,
      (s.take (.trap ⟨0, 0⟩ .clock)).Admits (fun _ _ => True)
        (List.replicate n .resume) ∧
        ((s.take (.trap ⟨0, 0⟩ .clock)).run
          (List.replicate n .resume)).mode = .user := by
  intro s
  have hreach : Reachable (fun _ _ => True) s :=
    reachable_small 30 _ (by decide +kernel) (by decide +kernel)
  exact every_trap_is_answered hreach (a := .trap ⟨0, 0⟩ .clock)
    ⟨by decide +kernel, trivial⟩ (by decide +kernel)

end Yalnix
