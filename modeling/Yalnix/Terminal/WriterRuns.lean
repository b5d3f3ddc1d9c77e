import Yalnix.Terminal.Writing

/-!
# Runs of writers

Runs in which the processes only fork, delay and write to the terminals.  Every
step changes the writers in one of the ways listed in `Change`.
-/

namespace Yalnix

/-- `Fork`, `Delay` and `TtyWrite`, clock and transmit traps, resumptions. -/
def Label.ofWriters : Label → Bool
  | .trap _ (.kernel (.fork _)) => true
  | .trap _ (.kernel (.delay _)) => true
  | .trap _ (.kernel (.ttyWrite _ _ _)) => true
  | .trap _ .clock => true
  | .trap _ (.ttyTransmit _) => true
  | .resume => true
  | _ => false

/-- The contexts that these calls save. -/
def KernelContext.ofWriters : KernelContext → Bool
  | .kernelStart => true
  | .kernelFork => true
  | .trapClockHandler => true
  | .kernelDelay => true
  | .kernelTtyWrite _ _ len left written =>
      decide (0 < left ∧ left + written = len)
  | _ => false

theorem KernelContext.ofWriters_write {t : Nat} {buf : Buffer}
    {len left written : Nat} (hleft : 0 < left) (hlen : left + written = len) :
    (kernelTtyWrite t buf len left written).ofWriters = true :=
  decide_eq_true ⟨hleft, hlen⟩

namespace Writing

/-- A process that does not run and that no queue holds. -/
structure Fresh (v : Writing) (c : PcbPtr) : Prop where
  active : c ≠ v.active
  idle : c ≠ v.idle
  ready : c ∉ v.ready
  queue : ∀ t, c ∉ v.queue t

/-- The active process does not write. -/
def Aside (v : Writing) : Prop := (v.context v.active).writesTo = none

/-- What a step of such a run does to the writers. -/
inductive Change (v : Writing) : Writing → Prop where
  | stays : v.Aside → Change v v.run
  | makes {c : PcbPtr} : v.Fresh c → Change v (v.make c)
  | forks {c : PcbPtr} : v.Fresh c → Change v (v.fork c)
  | delays : v.active ≠ v.idle → v.Aside →
      Change v ((v.block Blocked.delay).swap false .kernelDelay)
  | clock : v.Aside →
      Change v (v.swap (decide (v.active ≠ v.idle)) .trapClockHandler)
  | scans {v' : Writing} : v.Aside → Scanned v v' → Change v v'.run
  | writes {t len : Nat} {buf : Buffer} :
      v.active ≠ v.idle → v.Aside → 0 < len →
      ((v.enter t (bytesOf buf 0 len)).queue t).head? = some v.active →
      Change v ((v.enter t (bytesOf buf 0 len)).write t buf len len 0)
  | waits {t len : Nat} {buf : Buffer} :
      v.active ≠ v.idle → v.Aside → 0 < len →
      ((v.enter t (bytesOf buf 0 len)).queue t).head? ≠ some v.active →
      Change v ((((v.enter t (bytesOf buf 0 len)).block
        Blocked.ttyWrite).setTerminal v.active t).swap false
          (.kernelTtyWrite t buf len len 0))
  | resumes {t len left written : Nat} {buf : Buffer} :
      v.active ≠ v.idle →
      v.context v.active = .kernelTtyWrite t buf len left written →
      Change v (v.write t buf len left written)
  | opens {t : Nat} : v.Aside → v.queue t = [] →
      Change v (v.opened t).run
  | wakes {t : Nat} {head : PcbPtr} {rest : List PcbPtr} (ticks : Int) :
      v.Aside → v.queue t = head :: rest →
      Change v ((v.opened t).recheck head ticks).run

variable {v v' : Writing}

/-! ## What a scan leaves alone -/

theorem recheck_same (p : PcbPtr) (ticks : Int) :
    (v.recheck p ticks).active = v.active ∧
      (v.recheck p ticks).context = v.context ∧
      (v.recheck p ticks).queue = v.queue ∧
      (v.recheck p ticks).events = v.events := by
  unfold recheck
  split
  · split
    · exact ⟨rfl, rfl, rfl, rfl⟩
    · exact ⟨rfl, rfl, rfl, rfl⟩
  · split
    · split
      · exact ⟨rfl, rfl, rfl, rfl⟩
      · exact ⟨rfl, rfl, rfl, rfl⟩
    · exact ⟨rfl, rfl, rfl, rfl⟩

theorem Scanned.same (h : Scanned v v') :
    v'.active = v.active ∧ v'.context = v.context ∧ v'.queue = v.queue ∧
      v'.events = v.events := by
  induction h with
  | done => exact ⟨rfl, rfl, rfl, rfl⟩
  | next p ticks _ ih =>
      obtain ⟨hactive, hcontext, hqueue, hevents⟩ := recheck_same p ticks
      obtain ⟨hactive', hcontext', hqueue', hevents'⟩ := ih
      exact ⟨hactive'.trans hactive, hcontext'.trans hcontext,
        hqueue'.trans hqueue, hevents'.trans hevents⟩

theorem Aside.scanned (h : v.Aside) (hscan : Scanned v v') : v'.Aside := by
  obtain ⟨hactive, hcontext, -⟩ := hscan.same
  unfold Aside
  rw [hactive, hcontext]
  exact h

end Writing

namespace Kernel

variable {s : Kernel} {ctx : UserContext}

theorem writing_aside (h : s.mode = .user) : s.writing.Aside := by
  have hcontext : s.writing.context s.activePCB = .kernelStart := by
    unfold writing
    simp only [h, if_true]
    exact upd_same _ _ _
  unfold Writing.Aside
  rw [show s.writing.active = s.activePCB from rfl, hcontext]
  rfl

theorem writing_fresh (h : Census s.Member s) : s.writing.Fresh s.npcb := by
  have hmember {p : PcbPtr} (hp : s.Member p) : p ≠ s.npcb :=
    Nat.ne_of_lt hp.2
  constructor
  · exact Ne.symm (Nat.ne_of_lt h.active)
  · show s.npcb ≠ s.idlePCB
    rw [h.idle]
    exact Nat.ne_of_gt (Nat.lt_of_le_of_lt (Nat.zero_le _) h.active)
  · exact fun hp => hmember (h.ready _ hp) rfl
  · exact fun t hp => hmember (h.writers t _ hp) rfl

theorem newProcess_writing (hmode : s.mode = .user) (pid : Nat) :
    ((s.newProcess (some s.activePCB) pid).setMode .user).writing =
      s.writing.make s.npcb := by
  unfold writing newProcess setMode Writing.make
  simp only [hmode, if_true]

theorem forked_writing (hmode : s.mode = .user) (hactive : s.activePCB < s.npcb)
    (pid : Nat) : ((s.forked pid).setMode .user).writing =
      s.writing.fork s.npcb := by
  have hne : s.activePCB ≠ s.npcb := Nat.ne_of_lt hactive
  have hcontext : upd (upd s.pcb.kernelContext s.npcb .kernelFork) s.activePCB
      .kernelStart = upd (upd s.pcb.kernelContext s.activePCB .kernelStart)
        s.npcb .kernelFork := Function.update_comm hne.symm _ _ _
  unfold writing forked newProcess setMode setKernelContext setReadyQ
    Writing.fork Writing.make
  simp only [hmode, if_true]
  rw [← hcontext]
  rfl

theorem kernelFork_changes {pid : Nat} (hcensus : Census s.Member s)
    (hmode : s.mode = .user) (hactive : s.activePCB ≠ s.idlePCB)
    (hfresh : pid ∉ s.history.usedPids) (hlive : (s.kernelFork pid).Live) :
    s.writing.Change (s.kernelFork pid).writing := by
  have hfork : s.HasEffect (.trap ⟨0, 0⟩ (.kernel (.fork pid)))
      (s.kernelFork pid) :=
    kernelFork_hasEffect hactive hcensus.zero_used hfresh hlive
  obtain ⟨r, heffect, hcore⟩ := hfork
  have hview (hr : r.devices = s.devices) :
      (s.kernelFork pid).writing = r.writing := by
    apply writing_of_core hcore
    rw [kernelFork_devices, hr]
  cases heffect with
  | stay ht => cases ht
  | fork =>
      rw [hview rfl, forked_writing hmode hcensus.active]
      exact .forks (writing_fresh hcensus)
  | forkFails =>
      rw [hview rfl, newProcess_writing hmode]
      exact .makes (writing_fresh hcensus)
  | exit _ hends => cases hends
  | fault _ ht => rcases ht with ht | ht <;> cases ht
  | ttyWriteSleeps _ _ _ _ hwrites => cases hwrites
  | ttyWriteReturns hwrites => cases hwrites
  | pipeSleeps hfrom =>
      rcases hfrom with ⟨hresume, -⟩ | ⟨hcalls, -⟩
      · cases hresume
      · cases hcalls
  | pipeWakes hcompleting => cases hcompleting

/-- No other process has the pid of the active one. -/
theorem pid_active_ne (hpop : Population s) {p : PcbPtr} (hp : s.Member p)
    (hne : p ≠ s.activePCB) : s.pcb.pid s.activePCB ≠ s.pcb.pid p := by
  by_cases hactive : s.activePCB = s.idlePCB
  · rw [hactive, hpop.idle, hpop.idle_pid]
    exact Ne.symm (hpop.pid_pos p hp)
  · intro heq
    exact hne (hpop.pid_inj _ _ (hpop.running hactive) hp heq).symm

theorem ofWriters_handle {t : Trap} (hpop : Population s)
    (hnot : ∀ t, s.activePCB ∉ s.ttyWriteQueues t) (hmode : s.mode = .user)
    (ha : (Label.trap ctx t).ofWriters = true) (hpossible : t.Possible s)
    (hlive : (s.handle t).Live) : s.writing.Change (s.handle t).writing := by
  have haside := writing_aside hmode
  have hstays : s.writing.Change s.writing := by
    have hstays := Writing.Change.stays haside
    rw [run_of_user hmode] at hstays
    exact hstays
  have hidle := hpop.pid_active_eq_iff.1
  cases t with
  | kernel call =>
      have hcall (hnone : call.idleCall = false) :
          s.activePCB ≠ s.idlePCB := by
        rcases hpossible.1 with hne | hidleCall
        · exact hne
        · rw [hnone] at hidleCall
          cases hidleCall
      cases call with
      | fork pid =>
          have hfresh := hpossible.2 pid rfl
          exact kernelFork_changes hpop.toCensus hmode (hcall rfl) hfresh hlive
      | delay ticks =>
          rcases @kernelDelay_writing s ticks hmode hidle with heq | heq
          · exact heq ▸ hstays
          · exact heq ▸ .delays (hcall rfl) haside
      | ttyWrite ttyId buf len =>
          have hpid (p : PcbPtr) (hp : p ∈ s.ttyWriteQueues ttyId.toNat)
              (heq : s.pcb.pid p = s.pcb.pid s.activePCB) :
              p = s.activePCB := by
            by_contra hne
            exact pid_active_ne hpop (hpop.writers _ p hp) hne heq.symm
          rcases @kernelTtyWrite_writing s ttyId buf len hmode hpid hidle with
            heq | ⟨hlen, -, heq⟩
          · exact heq ▸ hstays
          · have hpos : 0 < len.toNat := by omega
            simp only at heq
            split at heq
            · rename_i hfirst
              exact heq ▸ .writes (hcall rfl) haside hpos hfirst
            · rename_i hfirst
              exact heq ▸ .waits (hcall rfl) haside hpos hfirst
      | _ => cases ha
  | clock =>
      have heq := trapClockHandler_writing hidle
      exact heq ▸ .clock haside
  | ttyTransmit t =>
      have heq := trapTTYTransmitHandler_writing (s := s) (t := t)
        fun p hp => pid_active_ne hpop (hpop.writers t p hp)
          fun hactive => hnot t (hactive ▸ hp)
      show s.writing.Change (s.trapTTYTransmitHandler t).writing
      rw [heq]
      cases hqueue : s.ttyWriteQueues t with
      | nil => exact .opens haside hqueue
      | cons head rest => exact .wakes _ haside hqueue
  | _ => cases ha

theorem ofWriters_resume (hpop : Population s) (hmode : s.mode = .kernel)
    (hsaved : (s.pcb.kernelContext s.activePCB).ofWriters = true) :
    s.writing.Change s.resume.writing := by
  have hcontext : s.writing.context s.writing.active =
      s.pcb.kernelContext s.activePCB := by
    rw [writing_of_kernel hmode]
    rfl
  have haside (hto : (s.pcb.kernelContext s.activePCB).writesTo = none) :
      s.writing.Aside := by
    unfold Writing.Aside
    rw [hcontext]
    exact hto
  unfold resume
  cases hctx : s.pcb.kernelContext s.activePCB with
  | kernelStart =>
      simp only [toUser_writing]
      exact .stays (haside (by rw [hctx]; rfl))
  | kernelFork =>
      simp only [ret_writing]
      exact .stays (haside (by rw [hctx]; rfl))
  | kernelDelay =>
      simp only [ret_writing]
      exact .stays (haside (by rw [hctx]; rfl))
  | trapClockHandler =>
      simp only [toUser_writing]
      exact .scans (haside (by rw [hctx]; rfl)) (blockedScan_writing _)
  | kernelTtyWrite t buf len left written =>
      rw [hctx] at hsaved
      obtain ⟨hleft, -⟩ := of_decide_eq_true hsaved
      simp only
      rw [ttyWriteLoop_writing hleft hpop.pid_active_eq_iff.1]
      refine .resumes ?_ (hcontext.trans hctx)
      intro hidle
      have hidle' : s.activePCB = 0 := Eq.trans hidle hpop.idle
      rw [hidle'] at hctx
      rcases hpop.idle_context with hstart | hclock
      · rw [hctx] at hstart
        cases hstart
      · rw [hctx] at hclock
        cases hclock
  | _ =>
      rw [hctx] at hsaved
      cases hsaved

end Kernel

/-- At boot nobody writes and the terminals are open. -/
theorem Boot.kernelStart_writing {b : Boot} (h : b.kernelStart.mode = .user) :
    b.kernelStart.writing = b.started.writing := by
  apply Kernel.writing_of_core
  · exact Kernel.core_of_eraseMemory (kernelStart_eraseMemory h)
  · exact kernelStart_devices h

theorem Boot.started_writing (b : Boot) : b.started.writing =
    { active := 0
      idle := 0
      ready := [1]
      queue := fun _ => []
      tracker := fun _ => .terminalOpen
      code := upd (upd b.pcb.blockedCode 0 Blocked.notBlocked) 1
        Blocked.notBlocked
      terminal := upd (upd b.pcb.ttyTerminal 0 0) 1 0
      context := fun _ => .kernelStart
      events := [] } := by
  have hcontext : upd (upd (fun _ => .kernelStart) 1 .kernelStart) 0
      .kernelStart = fun _ : PcbPtr => KernelContext.kernelStart := by
    simp [upd]
  rw [← hcontext]
  rfl

open Kernel

/-- Writers wake nobody at a pipe. -/
theorem Label.ofWriters_clean {s : Kernel} {a : Label}
    (ha : a.ofWriters = true)
    (hsaved : a = .resume →
      (s.pcb.kernelContext s.activePCB).ofWriters = true) : CleanWake s a := by
  have hnone : s.completing a = none := by
    cases a with
    | trap ctx t =>
        cases t with
        | kernel call => cases call <;> first | rfl | cases ha
        | _ => rfl
    | resume =>
        have hcontext := hsaved rfl
        unfold completing
        cases hctx : s.pcb.kernelContext s.activePCB with
        | kernelPipeRead _ _ =>
            rw [hctx] at hcontext
            cases hcontext
        | kernelPipeWrite _ _ _ =>
            rw [hctx] at hcontext
            cases hcontext
        | _ => rfl
  intro c hc
  rw [hnone] at hc
  cases hc

/--
The invariant rule for runs of writers.  The invariant says at least which
contexts are saved and that a process in user mode is in no write queue.
-/
theorem Reachable.writers {guard : Kernel → Label → Prop}
    (himp : ∀ s a, guard s a → a.ofWriters = true) {I : Writing → Prop}
    (hsaved : ∀ v, I v → ∀ p, (v.context p).ofWriters = true)
    (haside : ∀ v, I v → v.Aside → ∀ t, v.active ∉ v.queue t)
    (hboot : ∀ b : Boot, b.WellFormed → b.kernelStart.mode = .user →
      I b.kernelStart.writing)
    (hchange : ∀ v v', I v → v.Change v' → I v') {s : Kernel}
    (h : Reachable guard s) (hlive : s.Live) :
    Population s ∧ I s.writing := by
  revert hlive
  refine h.invariant (P := fun s => s.Live → Population s ∧ I s.writing) ?_ ?_
  · intro s hbooted _
    constructor
    · obtain ⟨b, hb, hcore⟩ := hbooted.core
      exact (Population.started hb).of_core hcore
    · obtain ⟨b, hb, rfl, hmode⟩ := hbooted
      exact hboot b hb hmode
  · intro s a s' hreach ih hguard hstep hlive
    cases hstep with
    | take henabled =>
        obtain ⟨hpop, hI⟩ := ih henabled.live
        have ha := himp s a hguard
        have hquiet := Reachable.quiescent hreach henabled.live
        obtain ⟨r, heffect, hcore⟩ :=
          take_hasEffect hquiet.sync hquiet.zero_used henabled hlive
        have hcontext (heq : a = .resume) :
            (s.pcb.kernelContext s.activePCB).ofWriters = true := by
          rw [heq] at henabled
          rw [← writing_of_kernel henabled]
          exact hsaved _ hI _
        have hentered := hpop.of_core (entered_core a)
        have hclean := (Label.ofWriters_clean ha hcontext).entered
        constructor
        · exact (hentered.effect hclean heffect).of_core hcore
        · apply hchange _ _ hI
          cases a with
          | trap ctx t =>
              obtain ⟨hmode, hpossible⟩ := henabled
              exact ofWriters_handle (s := s.enter ctx) hentered
                (haside _ hI (writing_aside hmode)) hmode ha hpossible hlive
          | resume => exact ofWriters_resume hpop henabled (hcontext rfl)

end Yalnix
