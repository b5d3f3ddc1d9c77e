import Yalnix.Memory.UserContexts
import Yalnix.Memory.UserSpace
import Yalnix.Process.Schedule

/-!
# Preemption

While a process does not have the processor, nothing that the others do changes
its page table, its kernel stack or the contexts it resumes with.  So it goes on
where the clock has interrupted it.
-/

namespace Yalnix

open Kernel

/-- What a process that was switched away resumes with. -/
structure Suspended where
  kernelStack : Nat → Pte
  resumesAt : KernelContext
  context : UserContext

namespace Memory

variable {m m' : Memory} {p : PcbPtr}

def suspended (m : Memory) (p : PcbPtr) : Suspended :=
  { kernelStack := m.kernelStackPt p
    resumesAt := m.kernelContext p
    context := m.keptContext p }

theorem suspended_congr (hstack : m'.kernelStackPt p = m.kernelStackPt p)
    (hcontext : m'.kernelContext p = m.kernelContext p)
    (huser : m'.userContext p = m.userContext p)
    (huctxt : m'.uctxt p = m.uctxt p) : m'.suspended p = m.suspended p := by
  unfold suspended
  rw [hstack, hcontext, Returns.kept_congr hcontext huser huctxt]

/-! ## Switching -/

theorem reload_suspended (next : PcbPtr) :
    (m.reload next).suspended p = m.suspended p := by
  unfold reload
  split
  · rename_i hreloads
    by_cases hp : p = next
    · -- the copy on the stack is not what `next` resumes with
      subst hp
      simp [suspended, keptContext, hreloads]
    · exact suspended_congr rfl rfl rfl (upd_other hp _ _)
  · rfl

theorem leave_suspended (hp : p ≠ m.active) (next : PcbPtr) (k : KernelContext) :
    (m.leave next k).suspended p = m.suspended p :=
  suspended_congr rfl (upd_other hp _ _) (upd_other hp _ _) rfl

theorem switch_suspended (hp : p ≠ m.active) (next : PcbPtr) (k : KernelContext) :
    (m.switch next k).suspended p = m.suspended p :=
  (reload_suspended next).trans (leave_suspended hp next k)

theorem switch_active (next : PcbPtr) (k : KernelContext) :
    (m.switch next k).active = next := by
  unfold switch reload
  split
  · rfl
  · rfl

/-- The process that gets the processor has its context on its stack. -/
theorem switch_uctxt (next : PcbPtr) (k : KernelContext) :
    (m.switch next k).uctxt next =
      ((m.switch next k).suspended next).context := by
  unfold switch
  rw [reload_suspended]
  unfold reload suspended keptContext
  split
  · exact upd_same _ _ _
  · rfl

/-- What the process that leaves will resume with. -/
theorem switch_leaver {k : KernelContext} (hk : k.reloadsUserContext = true)
    (next : PcbPtr) : (m.switch next k).suspended m.active =
      ⟨m.kernelStackPt m.active, k, m.uctxt m.active⟩ := by
  rw [switch, reload_suspended]
  simp [suspended, keptContext, leave, hk]

/-- Nothing that `p` resumes with has changed, and if it has the processor its
context is on its stack. -/
structure Keeps (m : Memory) (p : PcbPtr) (m' : Memory) : Prop where
  suspended : m'.suspended p = m.suspended p
  uctxt : m'.active = p → m'.uctxt p = (m.suspended p).context

namespace Keeps

theorem quiet (hp : p ≠ m.active) (h : m.Quiet m') : m.Keeps p m' := by
  cases h with
  | keeps => exact ⟨rfl, fun heq => absurd heq.symm hp⟩
  | parks =>
      exact ⟨suspended_congr rfl (upd_other hp _ _) rfl rfl,
        fun heq => absurd heq.symm hp⟩
  | switches next _ =>
      refine ⟨switch_suspended hp _ _, fun heq => ?_⟩
      rw [switch_active] at heq
      subst heq
      rw [switch_uctxt, switch_suspended hp]

theorem rewritten (hp : p ≠ m.active) (h : m.Rewritten m.active m') :
    m.Keeps p m' where
  suspended := suspended_congr (congrFun h.kernelStackPt p)
    (congrFun h.kernelContext p) (h.userContext p hp) (congrFun h.uctxt p)
  uctxt := fun heq => absurd (h.active ▸ heq).symm hp

theorem made {c : PcbPtr} (hp : p ≠ m.active) (hc : p ≠ c) (h : Made m c m') :
    m.Keeps p m' where
  suspended := suspended_congr (h.kernelStackPt p hc) (h.kernelContext p hc)
    (h.userContext p hc) (h.uctxt p hc)
  uctxt := fun heq => absurd (h.active ▸ heq).symm hp

theorem trans {m'' : Memory} (h : m.Keeps p m') (h' : m'.Keeps p m'') :
    m.Keeps p m'' where
  suspended := h'.suspended.trans h.suspended
  uctxt := fun heq => (h'.uctxt heq).trans (congrArg _ h.suspended)

end Keeps

end Memory

namespace Kernel

def suspended (s : Kernel) (p : PcbPtr) : Suspended := s.memory.suspended p

variable {s s' : Kernel} {a : Label} {p : PcbPtr}

theorem MemoryEffect.keeps (h : s.MemoryEffect a s') (hp : p ≠ s.activePCB)
    (hold : p ≠ s.npcb) : s.memory.Keeps p s'.memory := by
  cases h with
  | quiet hquiet => exact .quiet hp hquiet
  | brk hrewritten => exact .rewritten hp hrewritten
  | grows hrewritten => exact .rewritten hp hrewritten
  | @exec _ _ code s₁ hexec =>
      have hloaded := kernelExec_rewritten hexec
      have hactive : s₁.activePCB = s.activePCB := hloaded.active
      have hp₁ : p ≠ s₁.activePCB := hactive ▸ hp
      refine (Memory.Keeps.rewritten hp hloaded).trans
        ⟨Memory.suspended_congr rfl rfl rfl (upd_other hp₁ _ _),
          fun heq => absurd heq.symm hp₁⟩
  | @ends _ _ s₁ _ _ hrewritten hquiet =>
      have hfreed : s.memory.Rewritten s.memory.active s₁.memory.free :=
        { hrewritten with }
      have hp₁ : p ≠ s₁.memory.free.active := hfreed.active ▸ hp
      exact (Memory.Keeps.rewritten hp hfreed).trans (.quiet hp₁ hquiet)
  | forks hmade => exact .made hp hold hmade

/-- At no step of the run `p` has the processor. -/
def Away (s : Kernel) (p : PcbPtr) (labels : List Label) : Prop :=
  TransitionSystem.Admits Kernel.take (fun s _ => s.activePCB ≠ p) s labels

instance (s : Kernel) (p : PcbPtr) (labels : List Label) :
    Decidable (s.Away p labels) :=
  inferInstanceAs (Decidable (TransitionSystem.Admits _ _ _ _))

theorem take_keeps (hlive : (s.take a).Live) (hp : p < s.npcb)
    (hother : s.activePCB ≠ p) : s.memory.Keeps p (s.take a).memory := by
  have hactive : (s.entered a).activePCB = s.activePCB :=
    (congrArg Kernel.activePCB (entered_core a) :)
  have hnpcb : (s.entered a).npcb = s.npcb :=
    (congrArg Kernel.npcb (entered_core a) :)
  have hstep := (take_memoryEffect hlive).keeps (p := p)
    (by rw [hactive]; exact hother.symm) (by rw [hnpcb]; exact Nat.ne_of_lt hp)
  cases a with
  | resume => exact hstep
  | trap ctx t =>
      have hentered : s.memory.Keeps p (s.enter ctx).memory :=
        ⟨Memory.suspended_congr rfl rfl rfl (upd_other hother.symm _ _),
          fun heq => absurd heq hother⟩
      exact hentered.trans hstep

end Kernel

/-! ## Runs -/

theorem Kernel.Admits.lives {guard : Kernel → Label → Prop} {s : Kernel}
    {labels : List Label} (h : s.Admits guard labels)
    (hlive : (s.run labels).Live) :
    TransitionSystem.Admits Kernel.take (fun s a => (s.take a).Live) s
      labels := by
  induction labels generalizing s with
  | nil => trivial
  | cons a rest ih => exact ⟨h.2.live hlive, ih h.2 hlive⟩

namespace Reachable

variable {guard : Kernel → Label → Prop} {s : Kernel} {a : Label} {p : PcbPtr}

/-- A process gets the processor by being resumed. -/
theorem take_active (h : Reachable guard s) (henabled : a.Enabled s)
    (hlive : (s.take a).Live) :
    (s.take a).activePCB = s.activePCB ∨ (s.take a).mode = .kernel := by
  have hs := Reachable.quiescent h henabled.live
  obtain ⟨r, heffect, hcore⟩ :=
    take_hasEffect hs.sync hs.zero_used henabled hlive
  have hactive : (s.take a).activePCB = r.activePCB :=
    (congrArg Kernel.activePCB hcore :)
  have hmode : (s.take a).mode = r.mode := (congrArg Kernel.mode hcore :)
  have hentered : (s.entered a).activePCB = s.activePCB :=
    (congrArg Kernel.activePCB (entered_core a) :)
  rw [hactive, hmode, ← hentered]
  exact heffect.active

/-- While others run, a process keeps its space and what it resumes with, and
when it gets the processor it has its context on its stack. -/
theorem run_keeps (h : Reachable guard s) {labels : List Label}
    (hp : p < s.npcb) (hother : s.activePCB ≠ p)
    (hadmits : s.Admits guard labels) (hlive : (s.run labels).Live)
    (haway : s.Away p labels) :
    (s.run labels).space p = s.space p ∧
      (s.run labels).suspended p = s.suspended p ∧
        ((s.run labels).activePCB = p → (s.run labels).mode = .kernel ∧
          (s.run labels).uctxt p = (s.suspended p).context) := by
  refine (TransitionSystem.Admits.invariant
    (I := fun s' => (Reachable guard s' ∧ p < s'.npcb) ∧
      s'.space p = s.space p ∧ s'.suspended p = s.suspended p ∧
        (s'.activePCB = p → s'.mode = .kernel ∧
          s'.uctxt p = (s.suspended p).context)) ?_
    ⟨⟨h, hp⟩, rfl, rfl, fun heq => absurd heq hother⟩
    (hadmits.system.and ((hadmits.lives hlive).and haway))).2
  rintro s' a ⟨⟨hreach, hp'⟩, hspace, hsuspended, -⟩
    ⟨⟨henabled, hguard⟩, hlive', hother'⟩
  have hkeeps := take_keeps hlive' hp' hother'
  refine ⟨⟨.next hreach hguard (.take henabled),
    Nat.lt_of_lt_of_le hp' (take_npcb_le a)⟩, ?_, ?_, fun heq => ⟨?_, ?_⟩⟩
  · exact (take_space hp' (.inl hother')).trans hspace
  · exact hkeeps.suspended.trans hsuspended
  · exact (hreach.take_active henabled hlive').resolve_left
      fun hsame => hother' (hsame.symm.trans heq)
  · exact (hkeeps.uctxt heq).trans (congrArg Suspended.context hsuspended)

/-- A process that waits behind `k` others is resumed for the first time within
`k + 1` clock traps. -/
theorem first_turn (h : Reachable guard s) (labels : List Label)
    (hadmits : s.Admits guard labels) {k : Nat} {p : PcbPtr}
    (hk : s.readyQ[k]? = some p) (hp : p < s.npcb) (hother : s.activePCB ≠ p)
    (hclocks : k + 1 < labels.countP Label.clocks) :
    ∃ front back, labels = front ++ .resume :: back ∧
      front.countP Label.clocks ≤ k + 1 ∧ s.Away p front ∧
        s.Admits guard front ∧ (s.run front).activePCB = p ∧
          (s.run front).mode = .kernel := by
  obtain ⟨upto, rest, rfl, hcount, hturn⟩ :=
    h.turn labels hadmits hk (by omega)
  obtain ⟨front, between, rfl, hfirst, haway⟩ :=
    TransitionSystem.exists_first (P := fun s : Kernel => s.activePCB = p)
      upto hturn
  rw [List.countP_append] at hcount
  rw [List.append_assoc] at hadmits hclocks ⊢
  obtain ⟨hfront, hafter⟩ := hadmits.of_append
  cases hnext : between ++ rest with
  | nil =>
      rw [hnext, List.append_nil] at hclocks
      omega
  | cons b back =>
      rw [hnext] at hafter
      have hkernel := ((h.run_keeps hp hother hfront hafter.1.1.live
        haway).2.2 hfirst).1
      cases b with
      | resume =>
          exact ⟨front, back, rfl, by omega, haway, hfront, hfirst, hkernel⟩
      | trap ctx t =>
          have huser := hafter.1.1.1
          exact absurd (huser.symm.trans hkernel) (by simp)

end Reachable

namespace Kernel

variable {s : Kernel}

theorem clock_memory (ctx : UserContext) :
    (s.take (.trap ctx .clock)).memory =
        (s.enter ctx).memory.park .trapClockHandler ∨
      ∃ next, (s.take (.trap ctx .clock)).memory =
        (s.enter ctx).memory.switch next .trapClockHandler := by
  have hmemory : (s.take (.trap ctx .clock)).memory = _ :=
    swapProcess_memory (some .readyQ) .trapClockHandler
  split at hmemory
  · exact .inl hmemory
  · exact .inr ⟨_, hmemory⟩

/-- The clock interrupts the active process, which goes on at `ctx` even if it
has the processor again at once. -/
theorem clock_suspends (ctx : UserContext) :
    (s.take (.trap ctx .clock)).pcb.kernelContext s.activePCB =
        .trapClockHandler ∧
      (s.take (.trap ctx .clock)).pcb.kernelStackPt s.activePCB =
        s.pcb.kernelStackPt s.activePCB ∧
      ((s.take (.trap ctx .clock)).activePCB ≠ s.activePCB →
        ((s.take (.trap ctx .clock)).suspended s.activePCB).context = ctx) ∧
      ((s.take (.trap ctx .clock)).activePCB = s.activePCB →
        (s.take (.trap ctx .clock)).uctxt s.activePCB = ctx) := by
  have hctx : (s.enter ctx).memory.uctxt s.activePCB = ctx := upd_same _ _ _
  rcases clock_memory (s := s) ctx with hparked | ⟨next, hswitched⟩
  · -- idle keeps the processor
    have hactive : (s.take (.trap ctx .clock)).activePCB = s.activePCB :=
      (congrArg Memory.active hparked :)
    have hcontext := congrFun (congrArg Memory.kernelContext hparked) s.activePCB
    refine ⟨hcontext.trans (upd_same _ _ _), ?_, fun hne => absurd hactive hne,
      fun _ => ?_⟩
    · exact congrFun (congrArg Memory.kernelStackPt hparked) s.activePCB
    · exact (congrFun (congrArg Memory.uctxt hparked) s.activePCB).trans hctx
  · have hleft : (s.take (.trap ctx .clock)).suspended s.activePCB =
        ⟨s.pcb.kernelStackPt s.activePCB, .trapClockHandler, ctx⟩ := by
      have hleaver := Memory.switch_leaver (m := (s.enter ctx).memory)
        (k := .trapClockHandler) rfl next
      rw [← hswitched] at hleaver
      exact hleaver.trans (congrArg (Suspended.mk _ _) hctx)
    have hcontext := congrArg Suspended.context hleft
    refine ⟨congrArg Suspended.resumesAt hleft,
      congrArg Suspended.kernelStack hleft, fun _ => hcontext, fun heq => ?_⟩
    have hnext : (s.take (.trap ctx .clock)).activePCB = next := by
      have hactive : (s.take (.trap ctx .clock)).activePCB = _ :=
        (congrArg Memory.active hswitched :)
      exact hactive.trans (Memory.switch_active _ _)
    have huctxt := Memory.switch_uctxt (m := (s.enter ctx).memory) next
      .trapClockHandler
    rw [← hswitched, ← hnext, heq] at huctxt
    exact huctxt.trans hcontext

end Kernel

/--
A process that the clock has interrupted goes on where it was, with the memory
that it had, as soon as it has the processor again, whatever the others have
done meanwhile.
-/
theorem preempted_process_goes_on {s : Kernel}
    (h : Reachable (fun _ _ => True) s) (ctx : UserContext)
    (labels : List Label)
    (hadmits : s.Admits (fun _ _ => True)
      (.trap ctx .clock :: (labels ++ [.resume])))
    (haway : (s.take (.trap ctx .clock)).Away s.activePCB labels)
    (hback : (s.run (.trap ctx .clock :: labels)).activePCB = s.activePCB) :
    let s' := s.run (.trap ctx .clock :: (labels ++ [.resume]))
    s'.mode = .user ∧ s'.activePCB = s.activePCB ∧
      s'.uctxt s.activePCB = ctx ∧
      s'.space s.activePCB = s.space s.activePCB ∧
      s'.pcb.kernelStackPt s.activePCB = s.pcb.kernelStackPt s.activePCB := by
  intro s'
  obtain ⟨hcontext, hstack, hleaves, hstays⟩ := clock_suspends (s := s) ctx
  have hactive : s.activePCB < s.npcb :=
    (Reachable.census h hadmits.1.1.live).active
  have hspace : (s.take (.trap ctx .clock)).space s.activePCB =
      s.space s.activePCB := take_space hactive (.inr ⟨rfl, rfl, rfl⟩)
  have hnpcb : s.npcb ≤ (s.take (.trap ctx .clock)).npcb := take_npcb_le _
  obtain ⟨hlabels, hresume, -⟩ := Kernel.Admits.of_append hadmits.2
  have hend : s' = (s.run (.trap ctx .clock :: labels)).resume :=
    run_append (.trap ctx .clock :: labels) [.resume]
  -- when it gets the processor back the process is as the clock has left it
  have hkept :
      (s.run (.trap ctx .clock :: labels)).pcb.kernelContext s.activePCB =
        .trapClockHandler ∧
      (s.run (.trap ctx .clock :: labels)).uctxt s.activePCB = ctx ∧
      (s.run (.trap ctx .clock :: labels)).space s.activePCB =
        s.space s.activePCB ∧
      (s.run (.trap ctx .clock :: labels)).pcb.kernelStackPt s.activePCB =
        s.pcb.kernelStackPt s.activePCB := by
    cases labels with
    | nil => exact ⟨hcontext, hstays hback, hspace, hstack⟩
    | cons b rest =>
        have hnext : Reachable (fun _ _ => True) (s.take (.trap ctx .clock)) :=
          .next h trivial (.take hadmits.1.1)
        obtain ⟨hrun, hsuspended, hgets⟩ := hnext.run_keeps
          (Nat.lt_of_lt_of_le hactive hnpcb) haway.1 hlabels hresume.1.live
          haway
        exact ⟨(congrArg Suspended.resumesAt hsuspended).trans hcontext,
          (hgets hback).2.trans (hleaves haway.1), hrun.trans hspace,
          (congrArg Suspended.kernelStack hsuspended).trans hstack⟩
  rw [hend]
  generalize s.run (.trap ctx .clock :: labels) = s₂ at hback hkept
  obtain ⟨hclock, huctxt, hspace₂, hstack₂⟩ := hkept
  have hresumed : s₂.resume = (blockedScan s₂.blockedQ.length s₂).toUser := by
    unfold Kernel.resume
    rw [hback, hclock]
  have hmemory : s₂.resume.memory = s₂.memory := by
    rw [hresumed, toUser_memory, blockedScan_memory]
  refine ⟨by rw [hresumed]; rfl, ?_, ?_, ?_, ?_⟩
  · exact (congrArg Memory.active hmemory :).trans hback
  · exact (congrFun (congrArg Memory.uctxt hmemory) _ :).trans huctxt
  · exact (congrArg (Memory.space · s.activePCB) hmemory :).trans hspace₂
  · exact (congrFun (congrArg Memory.kernelStackPt hmemory) _ :).trans hstack₂

/-- The first program is interrupted while it has a child, which changes its
own break. -/
theorem preempted_process_goes_on_child :
    let s := (Boot.small 30).kernelStart.run (tick ++ [call (.fork 2)])
    let labels := [.resume, call (.brk (vmem1Base + 6 * pageSize)),
      .trap ⟨0, 0⟩ .clock]
    let s' := s.run (.trap ⟨8, 4⟩ .clock :: (labels ++ [.resume]))
    s'.mode = .user ∧ s'.activePCB = s.activePCB ∧
      s'.uctxt s.activePCB = ⟨8, 4⟩ ∧
      s'.space s.activePCB = s.space s.activePCB ∧
      s'.pcb.kernelStackPt s.activePCB = s.pcb.kernelStackPt s.activePCB := by
  intro s labels
  have hreach : Reachable (fun _ _ => True) s :=
    reachable_small 30 _ (by decide +kernel) (by decide +kernel)
  exact preempted_process_goes_on hreach ⟨8, 4⟩ labels (by decide +kernel)
    (by decide +kernel) (by decide +kernel)

end Yalnix
