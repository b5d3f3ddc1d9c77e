import Yalnix.Memory.Changes
import Yalnix.Process.Population

/-!
# The memory of the active process is mapped

`REG_PTBR1` and the Region 0 entries of the kernel stack belong to the active
process, and a saved kernel context stays as it is until its process runs again.
-/

namespace Yalnix

open Kernel

/-- The stack of the active process is mapped, and that of every process in `D`
and of idle can be. -/
structure Mapped (D : PcbPtr → Prop) (m : Memory) : Prop where
  ptbr1 : m.ptbr1 = m.active
  stack : ∀ i, i < kernelStackSize →
    m.kPt (kernelStackBase + i) = m.kernelStackPt m.active i
  valid : ∀ p, p = 0 ∨ D p → ∀ i, i < kernelStackSize →
    (m.kernelStackPt p i).valid = true

namespace Mapped

variable {D : PcbPtr → Prop} {m m' : Memory}

theorem reload (h : Mapped D m) (next : PcbPtr) : Mapped D (m.reload next) := by
  unfold Memory.reload
  split
  · exact ⟨h.ptbr1, h.stack, h.valid⟩
  · exact h

/-- `KCSwitch` maps the stack of the next process. -/
theorem switch (h : Mapped D m) (next : PcbPtr) (k : KernelContext) :
    Mapped D (m.switch next k) := by
  suffices hleave : Mapped D (m.leave next k) from hleave.reload next
  refine ⟨rfl, fun i hi => ?_, h.valid⟩
  have hrange : kernelStackBase ≤ kernelStackBase + i ∧
      kernelStackBase + i < kernelStackBase + kernelStackSize :=
    ⟨Nat.le_add_right _ _, Nat.add_lt_add_left hi _⟩
  show (if kernelStackBase ≤ kernelStackBase + i ∧
      kernelStackBase + i < kernelStackBase + kernelStackSize then
        m.kernelStackPt next (kernelStackBase + i - kernelStackBase)
      else m.kPt (kernelStackBase + i)) = m.kernelStackPt next i
  rw [if_pos hrange, Nat.add_sub_cancel_left]

theorem quiet (h : Mapped D m) (hquiet : m.Quiet m') : Mapped D m' := by
  cases hquiet with
  | keeps => exact h
  | parks => exact ⟨h.ptbr1, h.stack, h.valid⟩
  | switches next => exact h.switch next _

theorem rewritten (h : Mapped D m) (hrewritten : m.Rewritten m.active m') :
    Mapped D m' where
  ptbr1 := by
    rw [hrewritten.active]
    rcases hrewritten.ptbr1 with hsame | hactive
    · rw [hsame, h.ptbr1]
    · exact hactive
  stack := fun i hi => by
    rw [hrewritten.kPt, hrewritten.kernelStackPt, hrewritten.active]
    exact h.stack i hi
  valid := fun p hp i hi => by
    rw [hrewritten.kernelStackPt]
    exact h.valid p hp i hi

theorem free (h : Mapped D m) : Mapped D m.free :=
  ⟨h.ptbr1, h.stack, h.valid⟩

/-- The pages that `Fork` copies through are not those of the stack. -/
theorem made {c : PcbPtr} (h : Mapped D m) (hactive : m.active = 0 ∨ D m.active)
    (hD : ∀ p, p = 0 ∨ D p → p ≠ c) (hmade : Made m c m') : Mapped D m' where
  ptbr1 := by rw [hmade.ptbr1, hmade.active, h.ptbr1]
  stack := fun i hi => by
    rw [hmade.active, hmade.kernelStackPt _ (hD _ hactive), ← h.stack i hi]
    rcases hmade.kPt (kernelStackBase + i) with hsame | ⟨-, hinvalid⟩
    · exact hsame
    · rw [h.stack i hi, h.valid _ hactive i hi] at hinvalid
      cases hinvalid
  valid := fun p hp i hi => by
    rw [hmade.kernelStackPt p (hD p hp)]
    exact h.valid p hp i hi

theorem congr {D' : PcbPtr → Prop} (h : Mapped D m)
    (hD : ∀ p, D' p → D p ∨ ∀ i, i < kernelStackSize →
      (m.kernelStackPt p i).valid = true) : Mapped D' m :=
  { h with
    valid := fun p hp i hi => by
      rcases hp with hp | hp
      · exact h.valid p (.inl hp) i hi
      · rcases hD p hp with hp | hvalid
        · exact h.valid p (.inr hp) i hi
        · exact hvalid i hi }

end Mapped

/-! ## Boot -/

/-- After `init_process` idle has the stack that the hardware booted on. -/
theorem Boot.Stages.idle_mapped {b : Boot} (st : b.Stages) (hb : b.WellFormed) :
    Mapped (fun _ => False) ({ st.idleLoaded with
      idlePCB := 0, activePCB := 0 } : Kernel).memory := by
  have hinit := st.idle
  have hloaded := loadProgram_rewritten st.loadIdle
  generalize st.idleMade = made at hinit hloaded
  unfold initProcess at hinit
  cases hinit
  have hkPt (i : Nat) (hi : i < kernelStackSize) :
      b.kPt (kernelStackBase + i) =
        ⟨true, Prot.noXWR, kernelStackBase + i⟩ := by
    have hdata := hb.data_le_brk
    have hbrk := hb.brk_lt_stack
    rw [Boot.kPt, if_neg (by omega), if_pos (.inr ⟨by omega, by omega⟩)]
  have hstack (i : Nat) : st.idleLoaded.memory.kernelStackPt 0 i =
      ⟨true, Prot.noXWR, (b.kPt (kernelStackBase + i)).pfn⟩ := by
    rw [hloaded.kernelStackPt]
    rfl
  refine ⟨?_, fun i hi => ?_, fun p hp i hi => ?_⟩
  · rcases hloaded.ptbr1 with hsame | hidle
    · exact hsame
    · exact hidle
  · show st.idleLoaded.memory.kPt (kernelStackBase + i) =
      st.idleLoaded.memory.kernelStackPt 0 i
    rw [hstack, hkPt i hi, hloaded.kPt]
    exact hkPt i hi
  · rcases hp with rfl | hp
    · show (st.idleLoaded.memory.kernelStackPt 0 i).valid = true
      rw [hstack]
    · exact absurd hp not_false

/-- `KernelStart` makes the first program's stack and maps idle's. -/
theorem Boot.kernelStart_mapped {b : Boot} (hb : b.WellFormed)
    (h : b.kernelStart.mode = .user) :
    Mapped b.started.Member b.kernelStart.memory := by
  obtain ⟨st, heq⟩ := Boot.stages h
  have hnone (p : PcbPtr) (hp : p = 0 ∨ False) : p ≠ 1 := by
    rcases hp with rfl | hp
    · exact Nat.zero_ne_one
    · exact absurd hp not_false
  obtain ⟨hone, -, hmade, -⟩ := initProcess_made st.prog
  have h₂ := (st.idle_mapped hb).made (.inl rfl)
    (fun p hp heq => hnone p hp (heq.trans hone.symm)) hmade
  have hloaded := loadProgram_rewritten st.loadProg
  have hactive : st.progLoaded.activePCB = 0 :=
    hloaded.active.trans hmade.active
  have h₃ : Mapped (fun _ => False) (((st.progLoaded.queueAdd (some .readyQ)
      1).setPtbr1 0).setUctxt 0 (st.progLoaded.pcb.userContext 0)).memory := by
    refine ⟨hactive.symm, fun i hi => ?_, fun p hp i hi => ?_⟩
    · show st.progLoaded.memory.kPt (kernelStackBase + i) =
        st.progLoaded.memory.kernelStackPt st.progLoaded.memory.active i
      rw [hloaded.kPt, hloaded.kernelStackPt, hloaded.active]
      exact h₂.stack i hi
    · show (st.progLoaded.memory.kernelStackPt p i).valid = true
      rw [hloaded.kernelStackPt]
      exact h₂.valid p hp i hi
  rw [heq] at h ⊢
  have hdefined : (startProg st.progLoaded 0 1).mode ≠ .undefined := by
    rw [h]
    exact nofun
  obtain ⟨hcopied, hchild, -⟩ := kcCopy_made hdefined
  refine (h₃.made (.inl hactive) hnone hcopied).congr fun p hp => .inr ?_
  have hone : p = 1 :=
    Nat.le_antisymm (Nat.lt_succ_iff.1 (hp.2 : p < 2)) hp.1
  subst hone
  exact hchild.stack

/-! ## Runs -/

/-- The processes that can run have stacks, and the active one's is mapped. -/
def StacksMapped (s : Kernel) : Prop :=
  ∃ D, Census D s ∧ Mapped D s.memory

namespace StacksMapped

variable {s r : Kernel} {a : Label}

theorem entered (h : StacksMapped s) (a : Label) :
    StacksMapped (s.entered a) := by
  obtain ⟨D, hcensus, hmapped⟩ := h
  refine ⟨D, hcensus.of_core (entered_core a), ?_⟩
  cases a with
  | trap ctx t => exact ⟨hmapped.ptbr1, hmapped.stack, hmapped.valid⟩
  | resume => exact hmapped

/-- The running process has a kernel stack. -/
theorem active_valid (h : StacksMapped s) {i : Nat} (hi : i < kernelStackSize) :
    (s.pcb.kernelStackPt s.activePCB i).valid = true := by
  obtain ⟨D, hcensus, hmapped⟩ := h
  refine hmapped.valid _ ?_ i hi
  by_cases hidle : s.activePCB = s.idlePCB
  · exact .inl (hidle.trans hcensus.idle)
  · exact .inr (hcensus.running hidle)

/-- Every effect on memory keeps the stacks of the old processes. -/
theorem mapped {D : PcbPtr → Prop} {s' : Kernel} (hcensus : Census D s)
    (h : Mapped D s.memory) (hmemory : s.MemoryEffect a s') :
    Mapped D s'.memory := by
  cases hmemory with
  | quiet hquiet => exact h.quiet hquiet
  | brk hrewritten => exact h.rewritten hrewritten
  | grows hrewritten => exact h.rewritten hrewritten
  | exec hexec =>
      have hloaded := h.rewritten (kernelExec_rewritten hexec)
      exact ⟨hloaded.ptbr1, hloaded.stack, hloaded.valid⟩
  | ends _ hrewritten hquiet => exact (h.rewritten hrewritten).free.quiet hquiet
  | forks hmade =>
      refine h.made ?_ (fun p hp => ?_) hmade
      · by_cases hidle : s.activePCB = s.idlePCB
        · exact .inl (hidle.trans hcensus.idle)
        · exact .inr (hcensus.running hidle)
      · rcases hp with rfl | hp
        · exact Nat.ne_of_lt
            (Nat.lt_of_le_of_lt (Nat.zero_le _) hcensus.active)
        · exact Nat.ne_of_lt (hcensus.member p hp).2

theorem step {s' : Kernel} (h : StacksMapped s) (heffect : Effect s a r)
    (hcore : s'.core = r.core) (hmemory : s.MemoryEffect a s') :
    StacksMapped s' := by
  obtain ⟨D, hcensus, hbefore⟩ := h
  have hafter := mapped hcensus hbefore hmemory
  rcases hcensus.effect heffect with
    ⟨hr, -⟩ | ⟨ctx, pid, rfl, hpid, rfl | rfl⟩
  · exact ⟨D, hr.of_core hcore, hafter⟩
  · -- the child is ready, so `KCCopy` has given it a stack
    have hready : s'.readyQ = s.readyQ ++ [s.npcb] :=
      (congrArg Kernel.readyQ hcore :)
    refine ⟨_, ((hcensus.forked hpid).setMode _).of_core hcore,
      hafter.congr fun p hp => ?_⟩
    rcases hp with hp | rfl
    · exact .inl hp
    · refine .inr ?_
      cases hmemory with
      | quiet _ _ hfork => exact absurd rfl (hfork _ _)
      | ends hends => cases hends
      | forks _ hchild =>
          rcases hchild (Nat.ne_of_lt hcensus.active) with hchild | hsame
          · exact hchild.stack
          · exact absurd (congrArg List.length (hready.symm.trans hsame))
              (by simp)
  · exact ⟨D, ((hcensus.newProcess pid).setMode _).of_core hcore, hafter⟩

end StacksMapped

theorem Reachable.stacksMapped {guard : Kernel → Label → Prop} {s : Kernel}
    (h : Reachable guard s) (hlive : s.Live) : StacksMapped s :=
  h.memory_invariant
    (fun b hb hmode => ⟨b.started.Member,
      (Census.started hb).of_core
        (core_of_eraseMemory (Boot.kernelStart_eraseMemory hmode)),
      Boot.kernelStart_mapped hb hmode⟩)
    (fun _ a _ hs _ _ heffect hcore hmemory =>
      (hs.entered a).step heffect hcore hmemory) hlive

/-! ## Saved kernel contexts -/

namespace Kernel

variable {s s' : Kernel} {a : Label}

/-- Only the context of the process that leaves is saved. -/
theorem MemoryEffect.kernelContext {p : PcbPtr} (h : s.MemoryEffect a s')
    (hactive : p ≠ s.activePCB) (hnew : p ≠ s.npcb) :
    s'.pcb.kernelContext p = s.pcb.kernelContext p := by
  have hquiet {m m' : Memory} (h : m.Quiet m') (hp : p ≠ m.active) :
      m'.kernelContext p = m.kernelContext p := by
    cases h with
    | keeps => rfl
    | parks => exact upd_other hp _ _
    | switches next =>
        unfold Memory.switch Memory.reload
        split
        · exact upd_other hp _ _
        · exact upd_other hp _ _
  cases h with
  | quiet h => exact hquiet h hactive
  | brk h => exact congrFun h.kernelContext p
  | grows h => exact congrFun h.kernelContext p
  | exec h => exact congrFun (kernelExec_rewritten h).kernelContext p
  | @ends _ _ s₁ _ _ hrewritten h =>
      have hp : p ≠ s₁.memory.free.active := fun heq =>
        hactive (heq.trans hrewritten.active)
      exact (hquiet h hp).trans (congrFun hrewritten.kernelContext p)
  | forks h => exact h.kernelContext p hnew

end Kernel

/-- A run from `s₀` during which process `p` does not run. -/
inductive Away (p : PcbPtr) (s₀ : Kernel) : Kernel → Prop where
  | left : Away p s₀ s₀
  | step {s : Kernel} {a : Label} : Away p s₀ s → s.activePCB ≠ p →
      a.Enabled s → Away p s₀ (s.take a)

theorem Away.reachable {p : PcbPtr} {s₀ s : Kernel} (h : Away p s₀ s)
    (hreach : Reachable (fun _ _ => True) s₀) :
    Reachable (fun _ _ => True) s := by
  induction h with
  | left => exact hreach
  | step _ _ henabled ih => exact .next ih trivial (.take henabled)

theorem Away.live {p : PcbPtr} {s₀ s : Kernel} (h : Away p s₀ s)
    (hlive : s.Live) : s₀.Live := by
  induction h with
  | left => exact hlive
  | step _ _ henabled ih => exact ih henabled.live

/-- Processes are only added. -/
theorem Reachable.npcb_mono {s : Kernel} {a : Label} {p : PcbPtr}
    (h : Reachable (fun _ _ => True) s) (henabled : a.Enabled s)
    (hlive : (s.take a).Live) (hmade : p < s.npcb) : p < (s.take a).npcb := by
  have hs := Reachable.quiescent h henabled.live
  obtain ⟨r, heffect, hcore⟩ :=
    take_hasEffect hs.sync hs.zero_used henabled hlive
  have hentered := entered_core (s := s) a
  have hcensus := (Reachable.census h henabled.live).of_core hentered
  have hnpcb : (s.entered a).npcb = s.npcb := (congrArg Kernel.npcb hentered :)
  have hr : (s.take a).npcb = r.npcb := (congrArg Kernel.npcb hcore :)
  rw [hr]
  rcases hcensus.effect heffect with ⟨-, hsame⟩ | ⟨_, _, -, -, rfl | rfl⟩
  · rw [hsame, hnpcb]
    exact hmade
  · exact Nat.lt_succ_of_lt (hnpcb.symm ▸ hmade)
  · exact Nat.lt_succ_of_lt (hnpcb.symm ▸ hmade)

/-- What one step leaves of a process that does not run. -/
theorem Reachable.away_step {s : Kernel} {a : Label} {p : PcbPtr}
    (h : Reachable (fun _ _ => True) s) (henabled : a.Enabled s)
    (hlive : (s.take a).Live) (hmade : p < s.npcb) (hp : s.activePCB ≠ p) :
    (s.take a).pcb.kernelContext p = s.pcb.kernelContext p ∧
      ((s.take a).activePCB = p → (s.take a).mode = .kernel) := by
  have hs := Reachable.quiescent h henabled.live
  obtain ⟨r, heffect, hcore⟩ :=
    take_hasEffect hs.sync hs.zero_used henabled hlive
  have hentered := entered_core (s := s) a
  have hnpcb : (s.entered a).npcb = s.npcb := (congrArg Kernel.npcb hentered :)
  have hactive : (s.entered a).activePCB = s.activePCB :=
    (congrArg Kernel.activePCB hentered :)
  have hcontext : (s.entered a).pcb.kernelContext = s.pcb.kernelContext :=
    (congrArg (fun k : Kernel => k.pcb.kernelContext) hentered :)
  refine ⟨?_, fun hback => ?_⟩
  · rw [← hcontext]
    exact (take_memoryEffect hlive).kernelContext (hactive.symm ▸ hp.symm)
      (hnpcb.symm ▸ Nat.ne_of_lt hmade)
  · have hr : (s.take a).activePCB = r.activePCB :=
      (congrArg Kernel.activePCB hcore :)
    have hmode : (s.take a).mode = r.mode := (congrArg Kernel.mode hcore :)
    rcases heffect.active with hsame | hkernel
    · exact absurd (hactive.symm.trans (hsame.symm.trans (hr.symm.trans hback)))
        hp
    · exact hmode.trans hkernel

/-- A saved context stays until its process is resumed there. -/
theorem Away.kernelContext {p : PcbPtr} {s₀ s : Kernel} (h : Away p s₀ s)
    (hreach : Reachable (fun _ _ => True) s₀) (hmade : p < s₀.npcb)
    (hleft : s₀.activePCB ≠ p) (hlive : s.Live) :
    p < s.npcb ∧ s.pcb.kernelContext p = s₀.pcb.kernelContext p ∧
      (s.activePCB = p → s.mode = .kernel) := by
  induction h with
  | left => exact ⟨hmade, rfl, fun hp => absurd hp hleft⟩
  | step haway hp henabled ih =>
      obtain ⟨hmade', hcontext, -⟩ := ih henabled.live
      have hreach' := haway.reachable hreach
      obtain ⟨hcontext', hback⟩ :=
        Reachable.away_step hreach' henabled hlive hmade' hp
      exact ⟨Reachable.npcb_mono hreach' henabled hlive hmade',
        hcontext'.trans hcontext, hback⟩

/--
In every state that the machine goes on from, `REG_PTBR1` and the kernel stack
are those of the active process.  A process that is switched away is resumed at
the context that was saved then.
-/
theorem active_process_is_mapped {s : Kernel}
    (h : Reachable (fun _ _ => True) s) (hlive : s.Live) :
    s.ptbr1 = s.activePCB ∧
      (∀ i, i < kernelStackSize →
        s.kPt (kernelStackBase + i) = s.pcb.kernelStackPt s.activePCB i ∧
          (s.kPt (kernelStackBase + i)).valid = true) ∧
      ∀ a s', a.Enabled s → (s.take a).activePCB ≠ s.activePCB →
        Away s.activePCB (s.take a) s' → s'.Live →
        s'.activePCB = s.activePCB →
        s'.mode = .kernel ∧ s'.pcb.kernelContext s.activePCB =
          (s.take a).pcb.kernelContext s.activePCB := by
  obtain ⟨D, hcensus, hmapped⟩ := Reachable.stacksMapped h hlive
  have hactive : s.activePCB = 0 ∨ D s.activePCB := by
    by_cases hidle : s.activePCB = s.idlePCB
    · exact .inl (hidle.trans hcensus.idle)
    · exact .inr (hcensus.running hidle)
  refine ⟨hmapped.ptbr1, fun i hi => ?_, fun a s' henabled hleft haway hlive'
    hback => ?_⟩
  · have hstack : s.kPt (kernelStackBase + i) =
        s.pcb.kernelStackPt s.activePCB i := hmapped.stack i hi
    refine ⟨hstack, ?_⟩
    rw [hstack]
    exact hmapped.valid _ hactive i hi
  · have hlive₀ := haway.live hlive'
    have hreach₀ : Reachable (fun _ _ => True) (s.take a) :=
      .next h trivial (.take henabled)
    have hmade := Reachable.npcb_mono h henabled hlive₀ hcensus.active
    obtain ⟨-, hcontext, hkernel⟩ :=
      haway.kernelContext hreach₀ hmade hleft hlive'
    exact ⟨hkernel hback, hcontext⟩

/-- The first program is interrupted in favour of idle, which comes back to the
context that it left. -/
def backToIdle : Kernel :=
  (((Boot.small 8).kernelStart.take (.trap ⟨0, 0⟩ .clock)).take
    .resume).take (.trap ⟨0, 0⟩ .clock)

theorem active_process_is_mapped_idle :
    backToIdle.activePCB = 0 ∧ backToIdle.mode = .kernel ∧
      backToIdle.pcb.kernelContext 0 =
        ((Boot.small 8).kernelStart.take
          (.trap ⟨0, 0⟩ .clock)).pcb.kernelContext 0 := by
  have huser : (Boot.small 8).kernelStart.mode = .user := by decide +kernel
  have hidle : (Boot.small 8).kernelStart.activePCB = 0 := by decide +kernel
  have hreach : Reachable (fun _ _ => True) (Boot.small 8).kernelStart :=
    .start ⟨Boot.small 8, Boot.small_wellFormed 8, rfl, huser⟩
  have hback : backToIdle.activePCB = 0 := by decide +kernel
  have haway : Away 0 ((Boot.small 8).kernelStart.take (.trap ⟨0, 0⟩ .clock))
      backToIdle :=
    (Away.left.step (by decide +kernel) (by decide +kernel)).step
      (by decide +kernel) (by decide +kernel)
  have hlive : backToIdle.Live := .inr (by decide +kernel)
  have hmapped := (active_process_is_mapped hreach (.inl huser)).2.2
    (.trap ⟨0, 0⟩ .clock) backToIdle (by decide +kernel) (by decide +kernel)
  rw [hidle] at hmapped
  exact ⟨hback, hmapped haway hlive hback⟩

end Yalnix
