import Mathlib.Data.Finset.Card
import Yalnix.Process.Countdown

/-!
# Delays

A delay is counted down by the scans of `blocked_q`.  `TrapClockHandler` switches
before it scans, so the scan of a clock trap is made when the process that the
clock interrupted resumes, and scans of clock traps taken before a call to
`Delay` may still be pending.
-/

namespace Yalnix

namespace Kernel

variable {s r : Kernel} {a : Label} {p : PcbPtr}

/-! ## Pending scans -/

/-- The clock interrupted the process and it has not resumed since. -/
def HasScan (s : Kernel) (p : PcbPtr) : Prop :=
  (s.pcb.kernelContext p).scans = true ∧ (p = s.activePCB → s.mode = .kernel)

instance (s : Kernel) (p : PcbPtr) : Decidable (s.HasScan p) :=
  inferInstanceAs (Decidable (_ ∧ _))

def pendingScans (s : Kernel) : Finset PcbPtr :=
  (Finset.range s.npcb).filter s.HasScan

theorem mem_pendingScans :
    p ∈ s.pendingScans ↔ p < s.npcb ∧ s.HasScan p := by
  simp [pendingScans]

theorem active_not_pending (h : s.mode = .user) :
    s.activePCB ∉ s.pendingScans := fun hmem => by
  have hmode := (mem_pendingScans.1 hmem).2.2 rfl
  rw [h] at hmode
  cases hmode

theorem pendingScans_congr (hnpcb : r.npcb = s.npcb)
    (hscan : ∀ p, r.HasScan p ↔ s.HasScan p) :
    r.pendingScans = s.pendingScans := by
  ext p
  rw [mem_pendingScans, mem_pendingScans, hnpcb, hscan]

/-- A step of the running process that changes no context. -/
theorem pendingScans_user (hmode : s.mode = .user) (hr : r.mode = .user)
    (hnpcb : r.npcb = s.npcb) (hactive : r.activePCB = s.activePCB)
    (hcontext : r.pcb.kernelContext = s.pcb.kernelContext) :
    r.pendingScans = s.pendingScans := by
  refine pendingScans_congr hnpcb fun p => ?_
  unfold HasScan
  rw [hcontext, hactive, hmode, hr]

/-- The resuming process has no scan to make any more. -/
theorem pendingScans_resumed (hmode : s.mode = .kernel) (hr : r.mode = .user)
    (hnpcb : r.npcb = s.npcb) (hactive : r.activePCB = s.activePCB)
    (hcontext : r.pcb.kernelContext = s.pcb.kernelContext) :
    r.pendingScans = s.pendingScans.erase s.activePCB := by
  ext p
  rw [Finset.mem_erase, mem_pendingScans, mem_pendingScans, hnpcb]
  unfold HasScan
  rw [hcontext, hactive, hmode, hr]
  constructor
  · rintro ⟨hp, hscans, hne⟩
    exact ⟨fun heq => (nomatch hne heq), hp, hscans, fun _ => rfl⟩
  · rintro ⟨hne, hp, hscans, -⟩
    exact ⟨hp, hscans, fun heq => absurd heq hne⟩

theorem swapped_kernelContext {q : Option QueueRef} {k : KernelContext}
    (p : PcbPtr) : (s.swapped q k).pcb.kernelContext p =
      if p = s.activePCB then k else s.pcb.kernelContext p := by
  rw [swapped_pcb]
  by_cases hp : p = s.activePCB
  · rw [if_pos hp, hp]
    exact upd_same _ _ _
  · rw [if_neg hp]
    exact upd_other hp _ _

/-- A process that is switched away has a scan to make if the clock did it. -/
theorem pendingScans_swapped {q : Option QueueRef} {k : KernelContext}
    (hmode : s.mode = .user) (hactive : s.activePCB < s.npcb) :
    (s.swapped q k).pendingScans =
      if k.scans = true then insert s.activePCB s.pendingScans
      else s.pendingScans := by
  have hscan (p : PcbPtr) : (s.swapped q k).HasScan p ↔
      p = s.activePCB ∧ k.scans = true ∨ s.HasScan p := by
    unfold HasScan
    rw [swapped_kernelContext, swapped_mode, hmode]
    by_cases hp : p = s.activePCB
    · rw [if_pos hp]
      exact ⟨fun h => .inl ⟨hp, h.1⟩, fun h => h.elim
        (fun h => ⟨h.2, fun _ => rfl⟩) fun h => nomatch h.2 hp⟩
    · rw [if_neg hp]
      exact ⟨fun h => .inr ⟨h.1, fun heq => absurd heq hp⟩, fun h => h.elim
        (fun h => absurd h.1 hp) fun h => ⟨h.1, fun _ => rfl⟩⟩
  split
  · rename_i hk
    ext p
    rw [Finset.mem_insert, mem_pendingScans, mem_pendingScans, swapped_npcb,
      hscan]
    constructor
    · rintro ⟨hp, ⟨heq, -⟩ | h⟩
      · exact .inl heq
      · exact .inr ⟨hp, h⟩
    · rintro (rfl | ⟨hp, h⟩)
      · exact ⟨hactive, .inl ⟨rfl, hk⟩⟩
      · exact ⟨hp, .inr h⟩
  · rename_i hk
    refine pendingScans_congr swapped_npcb fun p => ?_
    rw [hscan]
    exact ⟨fun h => h.elim (fun h => absurd h.2 hk) id, .inr⟩

/-- A new process has nothing to scan. -/
theorem pendingScans_made (hmode : s.mode = .user) (hr : r.mode = .user)
    (hnpcb : r.npcb = s.npcb + 1) (hactive : r.activePCB = s.activePCB)
    (hcontext : ∀ p < s.npcb, r.pcb.kernelContext p = s.pcb.kernelContext p)
    (hchild : (r.pcb.kernelContext s.npcb).scans = false) :
    r.pendingScans = s.pendingScans := by
  ext p
  rw [mem_pendingScans, mem_pendingScans, hnpcb]
  unfold HasScan
  rw [hactive, hmode, hr]
  constructor
  · rintro ⟨hp, hscans, hne⟩
    have hlt : p < s.npcb := by
      rcases Nat.lt_or_eq_of_le (Nat.lt_succ_iff.1 hp) with hlt | heq
      · exact hlt
      · rw [heq, hchild] at hscans
        cases hscans
    rw [hcontext p hlt] at hscans
    exact ⟨hlt, hscans, hne⟩
  · rintro ⟨hp, hscans, hne⟩
    rw [hcontext p hp]
    exact ⟨Nat.lt_succ_of_lt hp, hscans, hne⟩

end Kernel

def Label.isClock : Label → Bool
  | .trap _ .clock => true
  | _ => false

namespace Kernel

variable {s r : Kernel} {a : Label} {p : PcbPtr}

/-- A process resumes that the clock did not interrupt. -/
theorem pendingScans_returns (hmode : s.mode = .kernel) (hr : r.mode = .user)
    (hnpcb : r.npcb = s.npcb) (hactive : r.activePCB = s.activePCB)
    (hcontext : r.pcb.kernelContext = s.pcb.kernelContext)
    (hscans : s.scansAt .resume = false) :
    r.pendingScans = s.pendingScans := by
  rw [pendingScans_resumed hmode hr hnpcb hactive hcontext]
  apply Finset.erase_eq_of_notMem
  intro hmem
  have hpending := (mem_pendingScans.1 hmem).2.1
  change (s.pcb.kernelContext s.activePCB).scans = false at hscans
  rw [hpending] at hscans
  cases hscans

/-- A clock trap adds a scan and a scan takes one away. -/
theorem ProcessEffect.pendingScans_card (heffect : s.ProcessEffect a r)
    (hpop : Population s) (hs : s.ProcessContexts) (henabled : a.Enabled s) :
    r.pendingScans.card + (if s.scansAt a = true then 1 else 0) =
      s.pendingScans.card + if a.isClock = true then 1 else 0 := by
  have hsame {r : Kernel} (hpending : r.pendingScans = s.pendingScans) :
      r.pendingScans.card + 0 = s.pendingScans.card + 0 := by
    rw [hpending]
  cases heffect with
  | refused =>
      exact hsame (pendingScans_user henabled.1 rfl rfl rfl rfl)
  | returns hgoes =>
      have hscans : s.scansAt .resume = false := scansAt_goesOn hgoes
      rw [hscans]
      exact hsame (pendingScans_returns henabled rfl rfl rfl rfl hscans)
  | fork =>
      apply hsame
      refine pendingScans_made henabled.1 rfl rfl rfl (fun q hq => ?_) ?_
      · exact upd_other (Nat.ne_of_lt hq) _ _
      · exact congrArg KernelContext.scans (upd_same _ _ _)
  | forkFails =>
      apply hsame
      refine pendingScans_made henabled.1 rfl rfl rfl (fun _ _ => rfl) ?_
      exact congrArg KernelContext.scans (hs.unmade _ (Nat.le_refl _))
  | @exit _ code =>
      have hc := s.exitCleanup_cleaned code
      have hmode : (s.exitCleanup code).2.mode = .user :=
        (s.exitCleanup_mode code).trans henabled.1
      let s₁ := (s.exitCleanup code).2.setTerminated s.activePCB
      have hactive : s₁.activePCB < s₁.npcb := by
        show (s.exitCleanup code).2.activePCB < (s.exitCleanup code).2.npcb
        rw [hc.active, hc.npcb]
        exact hpop.active
      have hset : s₁.pendingScans = s.pendingScans :=
        pendingScans_user henabled.1 hmode hc.npcb hc.active hc.context
      apply hsame
      exact (pendingScans_swapped (s := s₁) hmode hactive).trans hset
  | waitFails =>
      exact hsame (pendingScans_user henabled.1 rfl rfl rfl rfl)
  | waitReaps =>
      exact hsame (pendingScans_user henabled.1 rfl rfl rfl rfl)
  | @waitSleeps _ queue =>
      let s₁ := (s.setDefunctQ queue).setBlockedCode s.activePCB Blocked.wait
      have hset : s₁.pendingScans = s.pendingScans :=
        pendingScans_user henabled.1 henabled.1 rfl rfl rfl
      apply hsame
      exact (pendingScans_swapped (s := s₁) henabled.1 hpop.active).trans hset
  | waitResumes hctx =>
      have hscans : s.scansAt .resume = false := scansAt_waits hctx
      rw [hscans]
      exact hsame (pendingScans_returns henabled rfl rfl rfl rfl hscans)
  | waitResumesOther hctx =>
      have hscans : s.scansAt .resume = false := scansAt_waits hctx
      rw [hscans]
      exact hsame (pendingScans_returns henabled rfl rfl rfl rfl hscans)
  | @delay _ ticks =>
      let s₁ := (s.setClockTicks s.activePCB ticks).setBlockedCode s.activePCB
        Blocked.delay
      have hset : s₁.pendingScans = s.pendingScans :=
        pendingScans_user henabled.1 henabled.1 rfl rfl rfl
      apply hsame
      exact (pendingScans_swapped (s := s₁) henabled.1 hpop.active).trans hset
  | clock =>
      have hscans : KernelContext.trapClockHandler.scans = true := rfl
      rw [pendingScans_swapped henabled.1 hpop.active, if_pos hscans,
        Finset.card_insert_of_notMem (active_not_pending henabled.1)]
      rfl
  | @clockResumes r' hctx hscan =>
      have hscanned := Placement.scanned_same hscan
      have hmem : s.activePCB ∈ s.pendingScans :=
        mem_pendingScans.2 ⟨hpop.active, by rw [hctx]; rfl, fun _ => henabled⟩
      have hscans : s.scansAt .resume = true :=
        congrArg KernelContext.scans hctx
      rw [hscans, pendingScans_resumed (r := r'.setMode .user) henabled rfl
        hscanned.npcb hscanned.active hscan.context]
      exact Finset.card_erase_add_one hmem

/-! ## Asleep in a delay -/

/-- The process is asleep in `Delay`, and at least `left` more clock traps have
to be taken before the pending scans and theirs have counted it down. -/
structure Asleep (p : PcbPtr) (left : Int) (s : Kernel) : Prop where
  code : s.pcb.blockedCode p = Blocked.delay
  blocked : p ∈ s.blockedQ
  ready : p ∉ s.readyQ
  active : p ≠ s.activePCB
  budget : left + s.pendingScans.card ≤ s.pcb.clockTicks p + 1

namespace Asleep

variable {left : Int}

theorem of_core (h : Asleep p left s) (hcore : r.core = s.core) :
    Asleep p left r := by
  have hs : Asleep p left s.core := { h with }
  rw [← hcore] at hs
  exact { hs with }

theorem delayed (h : Asleep p left s) : s.Delayed p (s.pcb.clockTicks p) where
  code := h.code
  blocked := h.blocked
  ready := h.ready
  active := h.active
  left := rfl

theorem of_delayed {ticks : Int} (h : s.Delayed p ticks)
    (hbudget : left + s.pendingScans.card ≤ ticks + 1) : Asleep p left s where
  code := h.code
  blocked := h.blocked
  ready := h.ready
  active := h.active
  budget := by
    rw [h.left]
    exact hbudget

/-- Only a clock trap brings the end of the delay nearer. -/
theorem effect (h : Asleep p left s) (hpop : Population s)
    (hsettled : Settled s) (hs : s.ProcessContexts) (henabled : a.Enabled s)
    (heffect : s.ProcessEffect a r) :
    Asleep p (if a.isClock = true then left - 1 else left) r ∨ left ≤ 0 := by
  have hcard := heffect.pendingScans_card hpop hs henabled
  have hnext := h.delayed.effect hpop hsettled heffect
  have hbudget := h.budget
  split at hnext
  · rename_i hscans
    rw [if_pos hscans] at hcard
    rcases hnext with ⟨-, hnext⟩ | ⟨hdue, -⟩
    · refine .inl (of_delayed hnext ?_)
      split at hcard
      · rename_i hclock
        rw [if_pos hclock]
        omega
      · rename_i hclock
        rw [if_neg hclock]
        omega
    · -- the scan was pending, so the budget is spent
      have hclock : a.isClock = false := by
        cases a with
        | trap ctx t => cases hscans
        | resume => rfl
      rw [hclock] at hcard
      have hpos : 1 ≤ s.pendingScans.card := by
        simp only [Bool.false_eq_true, if_false] at hcard
        omega
      exact .inr (by omega)
  · rename_i hscans
    rw [if_neg hscans] at hcard
    refine .inl (of_delayed hnext ?_)
    split at hcard
    · rename_i hclock
      rw [if_pos hclock]
      omega
    · rename_i hclock
      rw [if_neg hclock]
      omega

/-- The caller of `Delay` is asleep for as many clock traps as it asked for. -/
theorem of_delay (ticks : Int) (hpop : Population s) (hsettled : Settled s)
    (hmode : s.mode = .user) (hne : s.activePCB ≠ s.idlePCB)
    (hpending : s.pendingScans.card ≤ 1) :
    Asleep s.activePCB ticks (((s.setClockTicks s.activePCB
      ticks).setBlockedCode s.activePCB Blocked.delay).swapped
        (some .blockedQ) .kernelDelay) := by
  let s₁ := (s.setClockTicks s.activePCB ticks).setBlockedCode s.activePCB
    Blocked.delay
  have hscans : (s₁.swapped (some .blockedQ) .kernelDelay).pendingScans =
      s.pendingScans := by
    have hsame : s₁.pendingScans = s.pendingScans :=
      pendingScans_user hmode hmode rfl rfl rfl
    exact (pendingScans_swapped (s := s₁) hmode hpop.active).trans hsame
  apply of_delayed (Delayed.of_delay ticks hpop hsettled hne)
  rw [hscans]
  omega

end Asleep

end Kernel

/-! ## Runs -/

/-- The clock traps among the steps of a run. -/
def clockTraps (labels : List Label) : Nat := labels.countP Label.isClock

theorem Kernel.Asleep.run {guard : Kernel → Label → Prop}
    (himp : ∀ s a, guard s a → a.ofProcesses = true) {s : Kernel}
    (hreach : Reachable guard s) {p : PcbPtr} {left : Int}
    (h : Asleep p left s) (labels : List Label)
    (hadmits : s.Admits guard labels) (hlive : (s.run labels).Live)
    (hready : p ∈ (s.run labels).readyQ) : left ≤ clockTraps labels := by
  induction labels generalizing s left with
  | nil => exact absurd hready h.ready
  | cons a rest ih =>
      obtain ⟨⟨henabled, hguard⟩, hrest⟩ := hadmits
      have hgoes : (s.take a).Live := by
        cases rest with
        | nil => exact hlive
        | cons b rest => exact hrest.1.1.live
      obtain ⟨hpop, hsettled, hcontexts⟩ :=
        hreach.processes himp henabled.live
      obtain ⟨r, heffect, hcore⟩ :=
        hreach.take_process himp hguard henabled hgoes
      have hentered := Kernel.entered_core (s := s) a
      have hcount : clockTraps (a :: rest) =
          clockTraps rest + if a.isClock = true then 1 else 0 :=
        List.countP_cons
      rcases (h.of_core hentered).effect (hpop.of_core hentered)
        (hsettled.of_core hentered) (hcontexts.of_core hentered)
        (Kernel.entered_enabled henabled) heffect with hasleep | hdue
      · have hnext : Reachable guard (s.take a) :=
          .next hreach hguard (.take henabled)
        have hle := ih hnext (hasleep.of_core hcore) hrest hlive hready
        rw [hcount]
        split at hle
        · rename_i hclock
          rw [if_pos hclock]
          omega
        · rename_i hclock
          rw [if_neg hclock]
          omega
      · omega

/--
In every run of processes, the caller of `Delay(n)` is not ready again before `n`
clock traps have been taken, if at most one scan is pending when it calls.
-/
theorem delay_never_cut_short {s : Kernel}
    (h : Reachable (fun _ a => a.ofProcesses = true) s)
    (hpending : s.pendingScans.card ≤ 1)
    {ctx : UserContext} {n : Int} (hn : 0 < n) (labels : List Label)
    (hadmits : s.Admits (fun _ a => a.ofProcesses = true)
      (.trap ctx (.kernel (.delay n)) :: labels))
    (hlive : (s.run (.trap ctx (.kernel (.delay n)) :: labels)).Live)
    (hready : s.activePCB ∈
      (s.run (.trap ctx (.kernel (.delay n)) :: labels)).readyQ) :
    n ≤ clockTraps labels := by
  obtain ⟨⟨henabled, hguard⟩, hrest⟩ := hadmits
  have hgoes : (s.take (.trap ctx (.kernel (.delay n)))).Live := by
    cases labels with
    | nil => exact hlive
    | cons b rest => exact hrest.1.1.live
  obtain ⟨hpop, hsettled, -⟩ := h.processes (fun _ _ h => h) henabled.live
  obtain ⟨r, heffect, hcore⟩ :=
    h.take_process (fun _ _ h => h) hguard henabled hgoes
  cases heffect with
  | refused hrefused => exact absurd hn (Int.not_lt.2 hrefused)
  | delay hne _ =>
      have hasleep := Kernel.Asleep.of_delay (s := s.enter ctx) n
        { hpop with } (hsettled.of_core rfl) henabled.1 hne hpending
      have hnext : Reachable (fun _ a => a.ofProcesses = true)
          (s.take (.trap ctx (.kernel (.delay n)))) :=
        .next h hguard (.take henabled)
      exact (hasleep.of_core hcore).run (fun _ _ h => h) hnext labels hrest
        hlive hready

/-- The pending scan of idle and that of the next clock trap end `Delay(1)`. -/
theorem delay_never_cut_short_one :
    let s := (Boot.small 20).kernelStart.run tick
    let labels := Label.resume :: tick
    s.pendingScans.card = 1 ∧
      s.activePCB ∈ (s.run (call (.delay 1) :: labels)).readyQ ∧
      (1 : Int) ≤ clockTraps labels := by
  intro s labels
  have hreach : Reachable (fun _ a => a.ofProcesses = true) s :=
    reachable_small 20 tick (by decide +kernel) (by decide +kernel)
  have hpending : s.pendingScans.card = 1 := by decide +kernel
  have hready : s.activePCB ∈
      (s.run (call (.delay 1) :: labels)).readyQ := by
    decide +kernel
  exact ⟨hpending, hready, delay_never_cut_short hreach
    (Nat.le_of_eq hpending) (by decide) labels (by decide +kernel)
    (.inl (by decide +kernel)) hready⟩

/-- The clock interrupts idle and then the parent.  The child calls `Delay(1)`;
the parent and idle resume, and their scans end the delay before the clock is
heard again. -/
theorem delay_cut_short_by_pending_scans :
    ¬ ∀ (s : Kernel) (ctx : UserContext) (n : Int) (labels : List Label),
      Reachable (fun _ a => a.ofProcesses = true) s → 0 < n →
      s.Admits (fun _ a => a.ofProcesses = true)
        (.trap ctx (.kernel (.delay n)) :: labels) →
      (s.run (.trap ctx (.kernel (.delay n)) :: labels)).Live →
      s.activePCB ∈
        (s.run (.trap ctx (.kernel (.delay n)) :: labels)).readyQ →
      n ≤ clockTraps labels := by
  intro hall
  let start := tick ++ call (.fork 2) :: tick
  let s := (Boot.small 20).kernelStart.run start
  let labels := [.resume, call (.delay 5), .resume]
  have hreach : Reachable (fun _ a => a.ofProcesses = true) s :=
    reachable_small 20 start (by decide +kernel) (by decide +kernel)
  have hle := hall s ⟨0, 0⟩ 1 labels hreach (by decide) (by decide +kernel)
    (.inl (by decide +kernel)) (by decide +kernel)
  exact absurd hle (by decide)

end Yalnix
