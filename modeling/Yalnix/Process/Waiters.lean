import Yalnix.Memory.LostFrames
import Yalnix.Process.Countdown

/-!
# Parents asleep in `Wait`

Runs of process and memory calls in which no fork runs out of frames and no math
or illegal trap comes.  `Waiter` collects what the queues and the PCB say about a
process that may be asleep in `Wait`, or woken from it with the status of a child.
-/

namespace Yalnix

/-- Process and memory calls, clock and memory traps.  A fork finds the frames
for the child, and no process is ended by a math or illegal trap. -/
structure Parental (s : Kernel) (a : Label) : Prop where
  system : a.ofSystem = true
  faults : a.faults = false
  fits : a.forks = true → s.ForkFits

instance (s : Kernel) : Decidable s.ForkFits :=
  inferInstanceAs (Decidable (_ ∧ _ ∧ _))

instance (s : Kernel) (a : Label) : Decidable (Parental s a) :=
  decidable_of_iff
    (a.ofSystem = true ∧ a.faults = false ∧ (a.forks = true → s.ForkFits))
    ⟨fun h => ⟨h.1, h.2.1, h.2.2⟩, fun h => ⟨h.system, h.faults, h.fits⟩⟩

theorem Parental.entered {s : Kernel} {a : Label} (h : Parental s a) :
    Parental (s.entered a) a := by
  refine ⟨h.system, h.faults, fun hforks => ?_⟩
  have hfits := h.fits hforks
  cases a <;> exact hfits

namespace Kernel

variable {s r : Kernel} {a : Label} {p : PcbPtr} {q : Option QueueRef}
  {k : KernelContext}

/-! ## The steps of these runs -/

/-- Every process in `Wait` was suspended under its own pid. -/
def OwnPids (s : Kernel) : Prop :=
  ∀ p < s.npcb, ∀ pid, s.pcb.kernelContext p = .kernelWait pid →
    pid = s.pcb.pid p

/-- What a step does to processes and queues. -/
inductive FamilyEffect (s : Kernel) : Kernel → Prop where
  | goesOn : (s.mode = .kernel →
        (s.pcb.kernelContext s.activePCB).waits = false) →
      FamilyEffect s (s.setMode .user)
  | fork {pid : Nat} : s.mode = .user → s.activePCB ≠ s.idlePCB →
      pid ∉ s.history.usedPids → FamilyEffect s ((s.forked pid).setMode .user)
  | exit {code : Int} : s.mode = .user → s.activePCB ≠ s.idlePCB →
      FamilyEffect s (s.exited code)
  | waitFails : s.mode = .user → s.activePCB ≠ s.idlePCB →
      FamilyEffect s
        ((s.emit (.waitReturn s.activePCB none none Rc.error)).setMode .user)
  | waitReaps {child : PcbPtr} {queue : List PcbPtr} :
      s.mode = .user → s.activePCB ≠ s.idlePCB →
      reapLoop (fun d => decide (s.pcb.ppid d = s.pcb.pid s.activePCB))
        s.defunctQ.length s.defunctQ = (some child, queue) →
      FamilyEffect s
        ((((s.setDefunctQ queue).setNumChildren s.activePCB
          (s.pcb.numChildren s.activePCB - 1)).emit
            (.waitReturn s.activePCB (some child)
              (some (s.pcb.exitCode child)) 0)).setMode .user)
  | waitSleeps : s.mode = .user → s.activePCB ≠ s.idlePCB →
      s.pcb.numChildren s.activePCB ≠ 0 →
      (∀ d ∈ s.defunctQ, s.pcb.ppid d ≠ s.pcb.pid s.activePCB) →
      FamilyEffect s
        ((s.setBlockedCode s.activePCB Blocked.wait).swapped (some .blockedQ)
          (.kernelWait (s.pcb.pid s.activePCB)))
  | waitResumes {pid : Nat} : s.mode = .kernel →
      s.pcb.kernelContext s.activePCB = .kernelWait pid →
      FamilyEffect s
        ((((s.emit (.waitReturn s.activePCB (s.history.reporter s.activePCB)
          (some (s.pcb.blockedCode s.activePCB)) 0)).setBlockedCode s.activePCB
            Blocked.notBlocked).setReporter s.activePCB none).setMode .user)
  | delay {ticks : Int} : s.mode = .user → s.activePCB ≠ s.idlePCB →
      FamilyEffect s
        (((s.setClockTicks s.activePCB ticks).setBlockedCode s.activePCB
          Blocked.delay).swapped (some .blockedQ) .kernelDelay)
  | clock : s.mode = .user →
      FamilyEffect s (s.swapped (some .readyQ) .trapClockHandler)
  | clockResumes {r : Kernel} : s.mode = .kernel →
      s.pcb.kernelContext s.activePCB = .trapClockHandler →
      Scanned s.blockedQ.length s r → FamilyEffect s (r.setMode .user)

theorem Effect.family (h : Effect s a r) (henabled : a.Enabled s)
    (hguard : Parental s a) (hpop : Population s) (hsaved : s.SystemContexts)
    (hown : s.OwnPids) : s.FamilyEffect r := by
  have hactive := hsaved s.activePCB
  have hsystem := hguard.system
  cases h with
  | stay =>
      refine .goesOn fun hmode => ?_
      have huser : s.mode = .user := henabled.1
      simp [hmode] at huser
  | returns hreturns =>
      refine .goesOn fun _ => ?_
      cases hctx : s.pcb.kernelContext s.activePCB <;>
        simp [hctx, KernelContext.returns, KernelContext.waits] at hreturns ⊢
  | fork hne hpid => exact .fork henabled.1 hne hpid
  | forkFails hne hpid hfull =>
      have hself : s.activePCB ≠ s.npcb := Nat.ne_of_lt hpop.active
      exact absurd (hguard.fits rfl) (hfull hself)
  | @exit a code hne hends =>
      cases a with
      | trap ctx t => exact .exit henabled.1 hne
      | resume => cases hends
  | fault _ hfault =>
      have hfaults := hguard.faults
      rcases hfault with rfl | rfl <;> simp [Label.faults] at hfaults
  | waitFails hne => exact .waitFails henabled.1 hne
  | waitReaps hne _ hreap => exact .waitReaps henabled.1 hne hreap
  | waitSleeps hne hchildren hreap =>
      obtain ⟨rfl, hnone⟩ := reapLoop_none hreap
      exact .waitSleeps henabled.1 hne hchildren (by simpa using hnone)
  | waitResumes hctx => exact .waitResumes henabled hctx
  | waitResumesOther hctx hpid =>
      exact absurd (hown _ hpop.active _ hctx).symm hpid
  | delay hne => exact .delay henabled.1 hne
  | clock => exact .clock henabled.1
  | clockResumes hctx hscan => exact .clockResumes henabled hctx hscan
  | ttyReadSleeps => cases hsystem
  | ttyReadWakes hctx => simp [hctx, KernelContext.ofSystem] at hactive
  | ttyReceives => cases hsystem
  | ttyWriteWaits => cases hsystem
  | ttyWriteSleeps _ _ _ _ hwrites =>
      exact absurd hwrites (not_writesOn_of_system hsystem hactive)
  | ttyWriteReturns hwrites =>
      exact absurd hwrites (not_writesOn_of_system hsystem hactive)
  | ttyTransmitted => cases hsystem
  | pipeInit => cases hsystem
  | pipeSleeps hfrom => exact absurd hfrom (not_sleepsOn_of_system hsystem hactive)
  | pipeWakes hcompleting =>
      simp [completing_of_system hsystem hactive] at hcompleting

/-! ## A process as a waiter -/

/-- It will go on behind the switch of a call that it made. -/
def Waking (s : Kernel) (p : PcbPtr) : Prop :=
  p ∈ s.readyQ ∨ p = s.activePCB ∧ p ≠ s.idlePCB ∧ s.mode = .kernel

@[ext]
structure Waiter where
  waking : Prop
  asleep : Prop
  waits : Bool
  code : Int
  reporter : Option PcbPtr

def waiter (s : Kernel) (p : PcbPtr) : Waiter :=
  { waking := s.Waking p
    asleep := p ∈ s.blockedQ
    waits := (s.pcb.kernelContext p).waits
    code := s.pcb.blockedCode p
    reporter := s.history.reporter p }

/-- Exactly the processes woken from `Wait` carry the status of a child, and
exactly those asleep in `Wait` have its code. -/
structure Awaits (v : Waiter) : Prop where
  carries : v.reporter.isSome = true ↔ v.waking ∧ v.waits = true
  sleeps : v.asleep → (v.waits = true ↔ v.code = Blocked.wait)

/-- A process that is in no call to `Wait`. -/
theorem Awaits.of_idle {v : Waiter} (hreporter : v.reporter = none)
    (hwaits : v.waking → v.waits = false)
    (hsleeps : v.asleep → v.waits = false ∧ v.code ≠ Blocked.wait) :
    Awaits v := by
  constructor
  · simp only [hreporter, Option.isSome_none, Bool.false_eq_true, false_iff]
    rintro ⟨hwaking, htrue⟩
    simp [hwaits hwaking] at htrue
  · intro hasleep
    simp [hsleeps hasleep]

theorem swapped_readyQ (hpop : Population s) :
    (s.swapped q k).readyQ = s.readyQ.tail ++
      if s.activePCB ≠ s.idlePCB ∧ q = some .readyQ then [s.activePCB]
      else [] := by
  by_cases hidle : s.activePCB = s.idlePCB
  · simp [hpop.swapped_of_eq hidle, hidle, switched, queueAdd, setReadyQ,
      setActivePCB, setKernelContext, setPcb, setMode]
  · rw [hpop.swapped_of_ne hidle]
    rcases q with _ | ref
    · simp [switched, queueAdd, setReadyQ, setActivePCB, setKernelContext,
        setPcb, setMode]
    · cases ref <;> simp [hidle, switched, queueAdd, setReadyQ, setBlockedQ,
        setDefunctQ, setTtyReadQueue, setLockAquireQueue, setCvarWaitQueue,
        setActivePCB, setKernelContext, setPcb, setMode]

theorem swapped_active (hpop : Population s) :
    (s.swapped q k).activePCB = s.nextProcess := by
  by_cases hidle : s.activePCB = s.idlePCB
  · rw [hpop.swapped_of_eq hidle]
    exact Placement.switched_active
  · rw [hpop.swapped_of_ne hidle]
    exact Placement.switched_active

theorem swapped_idle : (s.swapped q k).idlePCB = s.idlePCB := by
  unfold swapped
  split
  · rfl
  · exact Placement.switched_frame.2.2.1

/-- Whoever was ready goes on, and so does a process sent to `ready_q`. -/
theorem swapped_waking (hpop : Population s) : (s.swapped q k).Waking p ↔
    p ∈ s.readyQ ∨ p = s.activePCB ∧ p ≠ s.idlePCB ∧ q = some .readyQ := by
  have hnot : s.idlePCB ∉ s.readyQ := fun hmem => by
    have hpos := (hpop.ready _ hmem).1
    simp [hpop.idle] at hpos
  have hnext : s.nextProcess = s.readyQ.headD s.idlePCB := rfl
  rw [Waking, swapped_readyQ hpop, swapped_active hpop, swapped_idle,
    swapped_mode, hnext]
  cases hready : s.readyQ with
  | nil =>
      simp only [List.tail_nil, List.nil_append, List.headD_nil,
        List.not_mem_nil, false_or]
      grind
  | cons x rest =>
      have hx : x ≠ s.idlePCB := fun heq => hnot (by simp [hready, heq])
      simp only [List.tail_cons, List.headD_cons, List.mem_append,
        List.mem_cons]
      grind

theorem swapped_blockedQ_mem (hpop : Population s) :
    p ∈ (s.swapped q k).blockedQ ↔ p ∈ s.blockedQ ∨
      p = s.activePCB ∧ p ≠ s.idlePCB ∧ q = some .blockedQ := by
  rw [swapped_blockedQ hpop]
  grind

theorem swapped_defunctQ (hpop : Population s) :
    (s.swapped q k).defunctQ = s.defunctQ ++
      if s.activePCB ≠ s.idlePCB ∧ q = some .defunctQ then [s.activePCB]
      else [] := by
  by_cases hidle : s.activePCB = s.idlePCB
  · simp [hpop.swapped_of_eq hidle, hidle, switched, queueAdd, setReadyQ,
      setActivePCB, setKernelContext, setPcb, setMode]
  · rw [hpop.swapped_of_ne hidle]
    rcases q with _ | ref
    · simp [switched, queueAdd, setReadyQ, setActivePCB, setKernelContext,
        setPcb, setMode]
    · cases ref <;> simp [hidle, switched, queueAdd, setReadyQ, setBlockedQ,
        setDefunctQ, setTtyReadQueue, setLockAquireQueue, setCvarWaitQueue,
        setActivePCB, setKernelContext, setPcb, setMode]

/-- Switching away from another process. -/
theorem swapped_waiter_other (hpop : Population s) (hmode : s.mode = .user)
    (hp : p ≠ s.activePCB) : (s.swapped q k).waiter p = s.waiter p := by
  have hwaking : (s.swapped q k).Waking p ↔ s.Waking p := by
    rw [swapped_waking hpop]
    simp [Waking, hmode, hp]
  refine Waiter.ext (propext hwaking) (propext ?_) ?_ ?_ ?_
  · simp [waiter, swapped_blockedQ_mem hpop, hp]
  · simp [waiter, swapped_pcb, upd_other hp]
  · simp [waiter, swapped_pcb]
  · simp [waiter, swapped_history]

/-- Switching away from the process itself. -/
theorem swapped_waiter_active (hpop : Population s)
    (hready : s.activePCB ∉ s.readyQ) (hblocked : s.activePCB ∉ s.blockedQ) :
    (s.swapped q k).waiter s.activePCB =
      { waking := s.activePCB ≠ s.idlePCB ∧ q = some .readyQ
        asleep := s.activePCB ≠ s.idlePCB ∧ q = some .blockedQ
        waits := k.waits
        code := s.pcb.blockedCode s.activePCB
        reporter := s.history.reporter s.activePCB } := by
  refine Waiter.ext (propext ?_) (propext ?_) ?_ ?_ ?_
  · simp [waiter, swapped_waking hpop, hready]
  · simp [waiter, swapped_blockedQ_mem hpop, hblocked]
  · simp [waiter, swapped_pcb]
  · simp [waiter, swapped_pcb]
  · simp [waiter, swapped_history]

theorem Recheck.history (h : Recheck s p r) : r.history = s.history := by
  cases h <;> rfl

theorem Scanned.history {limit : Nat} (h : Scanned limit s r) :
    r.history = s.history := by
  induction h with
  | done => rfl
  | empty _ _ ih => exact ih
  | next _ hcheck _ ih => exact ih.trans hcheck.history

theorem Scanned.exitCode {limit : Nat} (h : Scanned limit s r) :
    r.pcb.exitCode = s.pcb.exitCode := by
  induction h with
  | done => rfl
  | empty _ _ ih => exact ih
  | next _ hcheck _ ih =>
      rw [ih]
      cases hcheck <;> rfl

/-- A process that the scan leaves in `blocked_q` keeps its code. -/
theorem Scanned.code_kept (h : Scanned s.blockedQ.length s r)
    (hsettled : Settled s) (hstranded : s.NoneStranded)
    (hp : p ∈ r.blockedQ) : r.pcb.blockedCode p = s.pcb.blockedCode p := by
  have hold : p ∈ s.blockedQ := by
    rw [(h.closed (List.append_nil _).symm rfl hsettled.blocked_nodup
      hstranded.kept).1] at hp
    exact List.mem_of_mem_filter hp
  obtain ⟨honce, hready⟩ := hsettled.blocked_once hold
  by_cases hdelay : s.pcb.blockedCode p = Blocked.delay
  · rcases h.delayed (List.append_nil _).symm rfl honce (by simp) hready
      hdelay with ⟨-, hcode, -⟩ | ⟨-, -, hleft⟩
    · exact hcode.trans hdelay.symm
    · exact absurd hp hleft
  · exact h.waiting hdelay (hstranded.kept p hold)

/-- The waiters of a state, and what those asleep in `Wait` wait for. -/
structure Waiting (s : Kernel) : Prop where
  awaits : ∀ p, Awaits (s.waiter p)
  owed : ∀ p ∈ s.blockedQ, s.pcb.blockedCode p = Blocked.wait →
    0 < s.pcb.numChildren p ∧ ∀ d ∈ s.defunctQ, s.pcb.ppid d ≠ s.pcb.pid p

namespace Waiting

/-- Nothing is carried by a process that takes a trap. -/
theorem reporter_active (h : s.Waiting) (hsettled : Settled s)
    (hmode : s.mode = .user) : s.history.reporter s.activePCB = none := by
  have hcarries := (h.awaits s.activePCB).carries
  simpa [waiter, Waking, hmode, hsettled.active_not_ready] using hcarries

/-- A process that is not made yet carries nothing. -/
theorem reporter_fresh (h : s.Waiting) (hpop : Population s)
    (hp : s.npcb ≤ p) : s.history.reporter p = none := by
  have hcarries := (h.awaits p).carries
  have hready : p ∉ s.readyQ := fun hmem =>
    absurd (hpop.ready p hmem).2 (Nat.not_lt.2 hp)
  have hactive : p ≠ s.activePCB := fun heq =>
    absurd hpop.active (Nat.not_lt.2 (heq ▸ hp))
  simpa [waiter, Waking, hready, hactive] using hcarries

theorem of_core (h : s.Waiting) (hcore : r.core = s.core) : r.Waiting := by
  have hs : s.core.Waiting := ⟨h.awaits, h.owed⟩
  rw [← hcore] at hs
  exact ⟨hs.awaits, hs.owed⟩

/-- The running process is switched away. -/
theorem swapped (hpop : Population s) (hmode : s.mode = .user)
    (hready : s.activePCB ∉ s.readyQ) (hblocked : s.activePCB ∉ s.blockedQ)
    (hothers : ∀ p, p ≠ s.activePCB → Awaits (s.waiter p))
    (hreporter : s.history.reporter s.activePCB = none)
    (hk : q = some .readyQ → k.waits = false)
    (hcode : q = some .blockedQ →
      (k.waits = true ↔ s.pcb.blockedCode s.activePCB = Blocked.wait))
    (howed : ∀ p, p ∈ s.blockedQ ∨ p = s.activePCB ∧ q = some .blockedQ →
      s.pcb.blockedCode p = Blocked.wait → 0 < s.pcb.numChildren p ∧
        (∀ d ∈ s.defunctQ, s.pcb.ppid d ≠ s.pcb.pid p) ∧
          (q = some .defunctQ → s.pcb.ppid s.activePCB ≠ s.pcb.pid p)) :
    (s.swapped q k).Waiting := by
  constructor
  · intro p
    by_cases hp : p = s.activePCB
    · subst hp
      rw [swapped_waiter_active hpop hready hblocked]
      refine ⟨?_, fun hasleep => hcode hasleep.2⟩
      simp only [hreporter, Option.isSome_none, Bool.false_eq_true, false_iff]
      rintro ⟨⟨-, hq⟩, htrue⟩
      simp [hk hq] at htrue
    · rw [swapped_waiter_other hpop hmode hp]
      exact hothers p hp
  · intro p hp hwait
    rw [swapped_pcb] at hwait
    have hmem := (swapped_blockedQ_mem hpop).1 hp
    obtain ⟨hpos, hnone, hactive⟩ :=
      howed p (hmem.imp id fun h => ⟨h.1, h.2.2⟩) hwait
    rw [swapped_pcb, swapped_defunctQ hpop]
    refine ⟨hpos, fun d hd => ?_⟩
    rcases List.mem_append.1 hd with hd | hd
    · exact hnone d hd
    · split at hd
      · rename_i hq
        rw [List.mem_singleton.1 hd]
        exact hactive hq.2
      · cases hd

/-- The running process goes on in user mode. -/
theorem toUser (hready : s.activePCB ∉ s.readyQ)
    (hblocked : s.activePCB ∉ s.blockedQ)
    (hothers : ∀ p, p ≠ s.activePCB → Awaits (s.waiter p))
    (hreporter : s.history.reporter s.activePCB = none)
    (howed : ∀ p ∈ s.blockedQ, s.pcb.blockedCode p = Blocked.wait →
      0 < s.pcb.numChildren p ∧
        ∀ d ∈ s.defunctQ, s.pcb.ppid d ≠ s.pcb.pid p) :
    (s.setMode .user).Waiting := by
  refine ⟨fun p => ?_, howed⟩
  by_cases hp : p = s.activePCB
  · subst hp
    refine .of_idle hreporter (fun hwaking => ?_) fun hasleep => ?_
    · simp [waiter, Waking, setMode, hready] at hwaking
    · exact absurd hasleep hblocked
  · have hsame : (s.setMode .user).waiter p = s.waiter p := by
      refine Waiter.ext (propext ?_) rfl rfl rfl rfl
      simp [waiter, Waking, setMode, hp]
    rw [hsame]
    exact hothers p hp

theorem forked (h : s.Waiting) (hpop : Population s) (hsettled : Settled s)
    (hmode : s.mode = .user) (pid : Nat) :
    ((s.forked pid).setMode .user).Waiting := by
  have hself : s.activePCB ≠ s.npcb := Nat.ne_of_lt hpop.active
  refine toUser ?_ hsettled.active_not_blocked (fun p hp => ?_)
    (h.reporter_active hsettled hmode) fun p hp hwait => ?_
  · show s.activePCB ∉ s.readyQ ++ [s.npcb]
    simp [hsettled.active_not_ready, hself]
  · have hp' : p ≠ s.activePCB := hp
    by_cases hnew : p = s.npcb
    · subst hnew
      have hnot : s.npcb ∉ s.blockedQ := fun hmem =>
        absurd (hpop.blocked _ hmem).2 (Nat.lt_irrefl _)
      refine .of_idle (h.reporter_fresh hpop (Nat.le_refl _)) (fun _ => ?_)
        fun hasleep => absurd hasleep hnot
      simp [waiter, Kernel.forked, setKernelContext, setPcb,
        KernelContext.waits]
    · have hsame : (s.forked pid).waiter p = s.waiter p := by
        refine Waiter.ext (propext ?_) rfl ?_ (upd_other hnew _ _) rfl
        · show p ∈ s.readyQ ++ [s.npcb] ∨ p = s.activePCB ∧ _ ↔ _
          simp [waiter, Waking, hnew, hp']
        · exact congrArg KernelContext.waits (upd_other hnew _ _)
      rw [hsame]
      exact h.awaits p
  · have hmember := hpop.blocked p hp
    have hne : p ≠ s.npcb := Nat.ne_of_lt hmember.2
    have hactive : p ≠ s.activePCB := fun heq =>
      hsettled.active_not_blocked (heq ▸ hp)
    have hcode : s.pcb.blockedCode p = Blocked.wait := by
      rw [← hwait]
      exact (upd_other hne _ _).symm
    obtain ⟨hpos, hnone⟩ := h.owed p hp hcode
    refine ⟨?_, fun d hd => ?_⟩
    · have hsame : (s.forked pid).pcb.numChildren p = s.pcb.numChildren p :=
        (upd_other hactive _ _).trans (upd_other hne _ _)
      rw [hsame]
      exact hpos
    · have hd' : d ≠ s.npcb := Nat.ne_of_lt (hpop.defunct d hd).2
      have hppid : (s.forked pid).pcb.ppid d = s.pcb.ppid d :=
        upd_other hd' _ _
      have hpid : (s.forked pid).pcb.pid p = s.pcb.pid p := upd_other hne _ _
      rw [hppid, hpid]
      exact hnone d hd

theorem scanned (h : s.Waiting) (hsettled : Settled s)
    (hstranded : s.NoneStranded)
    (hctx : s.pcb.kernelContext s.activePCB = .trapClockHandler)
    (hscan : Scanned s.blockedQ.length s r) : (r.setMode .user).Waiting := by
  obtain ⟨hblocked, hready⟩ := hscan.closed (List.append_nil _).symm rfl
    hsettled.blocked_nodup hstranded.kept
  have hsame := Placement.scanned_same hscan
  have hkin := hscan.kin
  have hnone : s.history.reporter s.activePCB = none := by
    have hcarries := (h.awaits s.activePCB).carries
    simpa [waiter, hctx, KernelContext.waits] using hcarries
  have hnotReady : s.activePCB ∉ r.readyQ := by
    simp [hready, hsettled.active_not_ready, hsettled.active_not_blocked]
  have hnotBlocked : s.activePCB ∉ r.blockedQ := by
    simp [hblocked, hsettled.active_not_blocked]
  refine toUser (hsame.active ▸ hnotReady) (hsame.active ▸ hnotBlocked)
    (fun p hp => ?_) (by rw [hscan.history, hsame.active]; exact hnone)
    fun p hp hwait => ?_
  · rw [hsame.active] at hp
    have hactive : p ≠ r.activePCB := by rwa [hsame.active]
    have hold := h.awaits p
    -- only a process in `Delay` leaves `blocked_q`
    have hdue (hmem : p ∈ s.blockedQ) (hdue : s.due p = true) :
        (s.pcb.kernelContext p).waits = false := by
      have hcode : s.pcb.blockedCode p = Blocked.delay :=
        (of_decide_eq_true hdue).1
      have hsleeps := (hold.sleeps hmem).not
      simpa [waiter, hcode, Blocked.delay, Blocked.wait] using hsleeps
    constructor
    · have hcarries := hold.carries
      simp only [waiter, Waking, hp, false_and, or_false] at hcarries
      simp only [waiter, Waking, hactive, hscan.history, hscan.context, hready,
        false_and, or_false, List.mem_append, List.mem_filter, hcarries]
      refine ⟨fun hw => ⟨.inl hw.1, hw.2⟩, fun hw => ⟨?_, hw.2⟩⟩
      rcases hw.1 with hmem | ⟨hmem, hmet⟩
      · exact hmem
      · simp [hdue hmem hmet] at hw
    · intro hasleep
      have hmem : p ∈ r.blockedQ := hasleep
      have hold' : p ∈ s.blockedQ := by
        rw [hblocked] at hmem
        exact List.mem_of_mem_filter hmem
      simp only [waiter, hscan.context, hscan.code_kept hsettled hstranded hmem]
      exact hold.sleeps hold'
  · have hold : p ∈ s.blockedQ := by
      rw [hblocked] at hp
      exact List.mem_of_mem_filter hp
    rw [hscan.code_kept hsettled hstranded hp] at hwait
    have howed := h.owed p hold hwait
    have hchildren : r.pcb.numChildren = s.pcb.numChildren :=
      congrArg Kin.numChildren hkin
    have hppid : r.pcb.ppid = s.pcb.ppid := congrArg Kin.ppid hkin
    have hpid : r.pcb.pid = s.pcb.pid := congrArg Kin.pid hkin
    have hdefunct : r.defunctQ = s.defunctQ := congrArg Kin.defunctQ hkin
    rw [hchildren, hppid, hpid, hdefunct]
    exact howed

theorem orphan_ne {ppid : PcbPtr → Nat} {self pid : Nat}
    {queue : List PcbPtr} {d : PcbPtr} (h : ppid d ≠ pid) (hpid : pid ≠ 0) :
    orphan ppid self queue d ≠ pid := by
  unfold orphan
  split
  · exact hpid.symm
  · exact h

/-- The parent is woken with the status of the running process. -/
theorem reported (h : s.Waiting) (hpop : Population s) (hsettled : Settled s)
    (hmode : s.mode = .user) (code : Int) {parent : PcbPtr}
    (hpop' : Population (((s.exiting code).orphaned.reported
      parent).setTerminated s.activePCB))
    (hparent : parent ∈ s.blockedQ)
    (hcode : s.pcb.blockedCode parent = Blocked.wait) :
    ((((s.exiting code).orphaned.reported parent).setTerminated
      s.activePCB).swapped none k).Waiting := by
  have hnodup := hsettled.blocked_nodup
  have hne : s.activePCB ≠ parent := fun heq =>
    hsettled.active_not_blocked (heq ▸ hparent)
  have hreporter := h.reporter_active hsettled hmode
  refine swapped hpop' hmode ?_ ?_ (fun p hp => ?_) ?_ (by simp) (by simp)
    fun p hp hwait => ?_
  · show s.activePCB ∉ s.readyQ ++ [parent]
    simp [hsettled.active_not_ready, hne]
  · exact fun hmem => hsettled.active_not_blocked (List.mem_of_mem_erase hmem)
  · have hp' : p ≠ s.activePCB := hp
    by_cases heq : p = parent
    · subst heq
      have hwaits : (s.pcb.kernelContext p).waits = true :=
        ((h.awaits p).sleeps hparent).2 hcode
      constructor
      · show (upd s.history.reporter p _ p).isSome = true ↔
          (p ∈ s.readyQ ++ [p] ∨ _) ∧ (s.pcb.kernelContext p).waits = true
        simp [hwaits]
      · exact fun hasleep => absurd rfl (hnodup.mem_erase_iff.1 hasleep).1
    · have hsame : (((s.exiting code).orphaned.reported
          parent).setTerminated s.activePCB).waiter p = s.waiter p := by
        refine Waiter.ext (propext ?_) (propext ?_) rfl (upd_other heq _ _)
          (upd_other heq _ _)
        · show (p ∈ s.readyQ ++ [parent] ∨ p = s.activePCB ∧ _) ↔ _
          simp [waiter, Waking, hmode, heq, hp']
        · show p ∈ s.blockedQ.erase parent ↔ p ∈ s.blockedQ
          exact List.mem_erase_of_ne heq
      rw [hsame]
      exact h.awaits p
  · exact (upd_other hne _ _).trans hreporter
  · have hmem := hnodup.mem_erase_iff.1 (hp.resolve_right (by simp))
    have hold : s.pcb.blockedCode p = Blocked.wait := by
      rw [← hwait]
      exact (upd_other hmem.1 _ _).symm
    obtain ⟨hpos, hnone⟩ := h.owed p hmem.2 hold
    have hchildren : upd s.pcb.numChildren parent
        (s.pcb.numChildren parent - 1) p = s.pcb.numChildren p :=
      upd_other hmem.1 _ _
    refine ⟨?_, fun d hd => ?_, by simp⟩
    · rw [← hchildren] at hpos
      exact hpos
    · exact orphan_ne (hnone d (List.mem_of_mem_filter hd))
        (hpop.pid_pos p (hpop.blocked p hmem.2))

/-- The running process ends and wakes nobody. -/
theorem unreported (h : s.Waiting) (hpop : Population s) (hsettled : Settled s)
    (hmode : s.mode = .user) {s₁ : Kernel} (hpop₁ : Population s₁)
    (hmode₁ : s₁.mode = s.mode) (hactive : s₁.activePCB = s.activePCB)
    (hwaiter : s₁.waiter = s.waiter)
    (hchildren : s₁.pcb.numChildren = s.pcb.numChildren)
    (hpid : s₁.pcb.pid = s.pcb.pid) (hqueue : s₁.readyQ = s.readyQ)
    (hppid : ∀ d, s₁.pcb.ppid d = s.pcb.ppid d ∨ s₁.pcb.ppid d = 0)
    (hdefunct : s₁.defunctQ.Sublist s.defunctQ)
    (hq : q = none ∨ q = some .defunctQ)
    (hparent : q = some .defunctQ → ∀ p ∈ s.blockedQ,
      s.pcb.blockedCode p = Blocked.wait →
        s.pcb.ppid s.activePCB ≠ s.pcb.pid p) :
    (s₁.swapped q k).Waiting := by
  have hblocked (p : PcbPtr) : p ∈ s₁.blockedQ ↔ p ∈ s.blockedQ :=
    (congrArg Waiter.asleep (congrFun hwaiter p)).to_iff
  have hcode (p : PcbPtr) : s₁.pcb.blockedCode p = s.pcb.blockedCode p :=
    congrArg Waiter.code (congrFun hwaiter p)
  have hreporter (p : PcbPtr) : s₁.history.reporter p = s.history.reporter p :=
    congrArg Waiter.reporter (congrFun hwaiter p)
  have hnot : q ≠ some .readyQ ∧ q ≠ some .blockedQ := by
    rcases hq with rfl | rfl <;> simp
  refine swapped hpop₁ (hmode₁.trans hmode) ?_ ?_ (fun p _ => ?_) ?_
    (fun hr => absurd hr hnot.1) (fun hb => absurd hb hnot.2)
    fun p hp hwait => ?_
  · rw [hactive, hqueue]
    exact hsettled.active_not_ready
  · rw [hactive, hblocked]
    exact hsettled.active_not_blocked
  · rw [hwaiter]
    exact h.awaits p
  · rw [hactive, hreporter]
    exact h.reporter_active hsettled hmode
  · have hmem := (hblocked p).1 (hp.resolve_right fun hb => hnot.2 hb.2)
    rw [hcode] at hwait
    obtain ⟨hpos, hnone⟩ := h.owed p hmem hwait
    have hpid_pos := hpop.pid_pos p (hpop.blocked p hmem)
    have hlink {d : PcbPtr} (hd : s.pcb.ppid d ≠ s.pcb.pid p) :
        s₁.pcb.ppid d ≠ s.pcb.pid p := by
      rcases hppid d with heq | heq
      · rwa [heq]
      · rw [heq]
        exact hpid_pos.symm
    rw [hchildren, hpid, hactive]
    exact ⟨hpos, fun d hd => hlink (hnone d (hdefunct.subset hd)),
      fun hd => hlink (hparent hd p hmem hwait)⟩

theorem exited (h : s.Waiting) (hpop : Population s) (hsettled : Settled s)
    (htree : Tree s.kin) (hmode : s.mode = .user)
    (hne : s.activePCB ≠ s.idlePCB) (hfamily : s.FamilyQueued) (code : Int) :
    (s.exited code).Waiting := by
  have hcase := exitCleanup_case hpop hsettled htree hne hfamily code
  have hclean := hpop.exitCleanup code
  have hset : Population ((s.exitCleanup code).2.setTerminated s.activePCB) :=
    { hclean with }
  have horphan (d : PcbPtr) : orphan s.pcb.ppid (s.pcb.pid s.activePCB)
      (s.readyQ ++ s.blockedQ) d = s.pcb.ppid d ∨
        orphan s.pcb.ppid (s.pcb.pid s.activePCB) (s.readyQ ++ s.blockedQ) d =
          0 := by
    unfold orphan
    split
    · exact .inr rfl
    · exact .inl rfl
  unfold Kernel.exited
  generalize s.exitCleanup code = result at hcase hset ⊢
  cases hcase with
  | reported _ hparent hcode =>
      exact h.reported hpop hsettled hmode code hset hparent hcode
  | @stays parent hpid hwhere =>
      refine h.unreported hpop hsettled hmode hset rfl rfl rfl rfl rfl rfl
        horphan List.filter_sublist (.inr rfl) fun _ p hp hwait heq => ?_
      have hmember : s.Member parent :=
        hwhere.elim (hpop.ready _) fun hb => hpop.blocked _ hb.1
      have hsame := hpop.pid_inj _ _ hmember (hpop.blocked p hp)
        (hpid.trans heq)
      subst hsame
      rcases hwhere with hready | ⟨-, hcode⟩
      · exact (hsettled.blocked_once hp).2 hready
      · exact hcode hwait
  | alone =>
      exact h.unreported hpop hsettled hmode hset rfl rfl rfl rfl rfl rfl
        horphan List.filter_sublist (.inl rfl) nofun
  | childless =>
      exact h.unreported hpop hsettled hmode hset rfl rfl rfl rfl rfl rfl
        (fun _ => .inl rfl) (List.Sublist.refl _) (.inl rfl) nofun

theorem reaped (h : s.Waiting) (hsettled : Settled s) (hmode : s.mode = .user)
    {child : PcbPtr} {queue : List PcbPtr} {status : Int}
    (hsub : ∀ d ∈ queue, d ∈ s.defunctQ) :
    ((((s.setDefunctQ queue).setNumChildren s.activePCB
      (s.pcb.numChildren s.activePCB - 1)).emit
        (.waitReturn s.activePCB (some child) (some status) 0)).setMode
          .user).Waiting := by
  refine toUser hsettled.active_not_ready hsettled.active_not_blocked
    (fun p _ => h.awaits p) (h.reporter_active hsettled hmode)
    fun p hp hwait => ?_
  have hne : p ≠ s.activePCB := fun heq =>
    hsettled.active_not_blocked (heq ▸ hp)
  obtain ⟨hpos, hnone⟩ := h.owed p hp hwait
  have hchildren : upd s.pcb.numChildren s.activePCB
      (s.pcb.numChildren s.activePCB - 1) p = s.pcb.numChildren p :=
    upd_other hne _ _
  rw [← hchildren] at hpos
  exact ⟨hpos, fun d hd => hnone d (hsub d hd)⟩

theorem resumed (h : s.Waiting) (hsettled : Settled s) {e : Event} :
    ((((s.emit e).setBlockedCode s.activePCB
      Blocked.notBlocked).setReporter s.activePCB none).setMode
        .user).Waiting := by
  refine toUser hsettled.active_not_ready hsettled.active_not_blocked
    (fun p hp => ?_) (upd_same _ _ _) fun p hp hwait => ?_
  · have hp' : p ≠ s.activePCB := hp
    have hsame : (((s.emit e).setBlockedCode s.activePCB
        Blocked.notBlocked).setReporter s.activePCB none).waiter p =
        s.waiter p :=
      Waiter.ext rfl rfl rfl (upd_other hp' _ _) (upd_other hp' _ _)
    rw [hsame]
    exact h.awaits p
  · have hne : p ≠ s.activePCB := fun heq =>
      hsettled.active_not_blocked (heq ▸ hp)
    refine h.owed p hp ?_
    rw [← hwait]
    exact (upd_other hne _ _).symm

/-- The running process goes to sleep in `blocked_q`. -/
theorem sleeps (h : s.Waiting) (hpop : Population s) (hsettled : Settled s)
    (hmode : s.mode = .user) {code : Int}
    (hk : k.waits = true ↔ code = Blocked.wait)
    (howed : code = Blocked.wait → 0 < s.pcb.numChildren s.activePCB ∧
      ∀ d ∈ s.defunctQ, s.pcb.ppid d ≠ s.pcb.pid s.activePCB) :
    ((s.setBlockedCode s.activePCB code).swapped (some .blockedQ)
      k).Waiting := by
  have hset : (s.setBlockedCode s.activePCB code).pcb.blockedCode
      s.activePCB = code := upd_same _ _ _
  refine swapped { hpop with } hmode hsettled.active_not_ready
    hsettled.active_not_blocked (fun p hp => ?_)
    (h.reporter_active hsettled hmode) nofun (fun _ => ?_) fun p hp hwait => ?_
  · have hp' : p ≠ s.activePCB := hp
    have hsame : (s.setBlockedCode s.activePCB code).waiter p = s.waiter p :=
      Waiter.ext rfl rfl rfl (upd_other hp' _ _) rfl
    rw [hsame]
    exact h.awaits p
  · have hcode : (s.setBlockedCode s.activePCB code).pcb.blockedCode
        s.activePCB = Blocked.wait ↔ code = Blocked.wait := by rw [hset]
    exact hk.trans hcode.symm
  · rcases hp with hp | ⟨rfl, -⟩
    · have hne : p ≠ s.activePCB := fun heq =>
        hsettled.active_not_blocked (heq ▸ hp)
      have hold : s.pcb.blockedCode p = Blocked.wait := by
        rw [← hwait]
        exact (upd_other hne _ _).symm
      obtain ⟨hpos, hnone⟩ := h.owed p hp hold
      exact ⟨hpos, hnone, nofun⟩
    · obtain ⟨hpos, hnone⟩ := howed (hset.symm.trans hwait)
      exact ⟨hpos, hnone, nofun⟩

theorem effect (h : s.Waiting) (hpop : Population s) (hsettled : Settled s)
    (htree : Tree s.kin) (hstranded : s.NoneStranded)
    (hfamily : s.activePCB ≠ s.idlePCB → s.FamilyQueued)
    (heffect : s.FamilyEffect r) : r.Waiting := by
  have hready := hsettled.active_not_ready
  have hblocked := hsettled.active_not_blocked
  cases heffect with
  | goesOn hctx =>
      refine toUser hready hblocked (fun p _ => h.awaits p) ?_ h.owed
      have hcarries := (h.awaits s.activePCB).carries
      by_cases hmode : s.mode = .kernel
      · simpa [waiter, hctx hmode] using hcarries
      · simpa [waiter, Waking, hready, hmode] using hcarries
  | fork hmode => exact h.forked hpop hsettled hmode _
  | exit hmode hne =>
      exact h.exited hpop hsettled htree hmode hne (hfamily hne) _
  | waitFails hmode =>
      exact toUser hready hblocked (fun p _ => h.awaits p)
        (h.reporter_active hsettled hmode) h.owed
  | waitReaps hmode _ hreap =>
      refine h.reaped hsettled hmode fun d hd => ?_
      exact (reapLoop_some hreap).2.subset (List.mem_cons_of_mem _ hd)
  | waitSleeps hmode hne hchildren hnone =>
      refine h.sleeps hpop hsettled hmode (by simp [KernelContext.waits])
        fun _ => ⟨?_, hnone⟩
      have hactive := hpop.active_member hne
      have hcount : s.pcb.numChildren s.activePCB =
          (s.kin.children s.activePCB).card :=
        htree.count _ hactive.1 hactive.2 hsettled.live
      omega
  | waitResumes => exact h.resumed hsettled
  | @delay ticks hmode =>
      have hset : (s.setClockTicks s.activePCB ticks).Waiting :=
        ⟨h.awaits, h.owed⟩
      exact hset.sleeps { hpop with } { hsettled with } hmode (by
        simp [KernelContext.waits, Blocked.delay, Blocked.wait]) nofun
  | clock hmode =>
      exact swapped hpop hmode hready hblocked (fun p _ => h.awaits p)
        (h.reporter_active hsettled hmode) (fun _ => rfl) nofun
        fun p hp hwait => ⟨(h.owed p (hp.resolve_right nofun) hwait).1,
          (h.owed p (hp.resolve_right nofun) hwait).2, nofun⟩
  | clockResumes _ hctx hscan => exact h.scanned hsettled hstranded hctx hscan

theorem started (b : Boot) : b.started.Waiting := by
  refine ⟨fun p => .of_idle rfl (fun _ => ?_) nofun, nofun⟩
  by_cases hp : p = 1
  · subst hp
    rfl
  · have hctx : b.started.pcb.kernelContext p = .kernelStart :=
      upd_other hp _ _
    simp [waiter, hctx, KernelContext.waits]

end Waiting

/-! ## The pids that `Wait` compares -/

namespace OwnPids

theorem of_core (h : s.OwnPids) (hcore : r.core = s.core) : r.OwnPids := by
  have hs : s.core.OwnPids := h
  rw [← hcore] at hs
  exact hs

theorem of_eq (h : s.OwnPids) (hnpcb : r.npcb = s.npcb)
    (hpid : r.pcb.pid = s.pcb.pid)
    (hcontext : r.pcb.kernelContext = s.pcb.kernelContext) : r.OwnPids := by
  intro p hp pid hctx
  rw [hnpcb] at hp
  rw [hcontext] at hctx
  rw [hpid]
  exact h p hp pid hctx

theorem swapped (h : s.OwnPids)
    (hk : ∀ pid, k = .kernelWait pid → pid = s.pcb.pid s.activePCB) :
    (s.swapped q k).OwnPids := by
  intro p hp pid hctx
  rw [swapped_npcb] at hp
  rw [swapped_pcb] at hctx ⊢
  by_cases heq : p = s.activePCB
  · subst heq
    exact hk pid ((upd_same _ _ _).symm.trans hctx)
  · exact h p hp pid ((upd_other heq _ _).symm.trans hctx)

theorem effect (h : s.OwnPids) (heffect : s.FamilyEffect r) : r.OwnPids := by
  cases heffect with
  | goesOn => exact h.of_eq rfl rfl rfl
  | @fork pid =>
      intro p hp pid' hctx
      have hctx' : upd s.pcb.kernelContext s.npcb .kernelFork p =
          .kernelWait pid' := hctx
      show pid' = upd s.pcb.pid s.npcb pid p
      by_cases heq : p = s.npcb
      · simp [heq] at hctx'
      · have hlt : p < s.npcb :=
          Nat.lt_of_le_of_ne (Nat.lt_succ_iff.1 hp) heq
        rw [upd_other heq] at hctx' ⊢
        exact h p hlt pid' hctx'
  | @exit code =>
      have hc := s.exitCleanup_cleaned code
      exact swapped (h.of_eq hc.npcb hc.pid hc.context) (by simp)
  | waitFails => exact h.of_eq rfl rfl rfl
  | waitReaps => exact h.of_eq rfl rfl rfl
  | waitSleeps =>
      exact swapped (h.of_eq rfl rfl rfl) fun pid hpid =>
        (KernelContext.kernelWait.inj hpid).symm
  | waitResumes => exact h.of_eq rfl rfl rfl
  | delay => exact swapped (h.of_eq rfl rfl rfl) (by simp)
  | clock => exact swapped h (by simp)
  | clockResumes _ _ hscan =>
      have hpids := hscan.pids
      exact h.of_eq hpids.2.1 hpids.1 hscan.context

theorem started (b : Boot) : b.started.OwnPids := by
  intro p _ pid hctx
  by_cases hp : p = 1
  · subst hp
    cases hctx
  · rw [show b.started.pcb.kernelContext p = .kernelStart from
      upd_other hp _ _] at hctx
    cases hctx

end OwnPids

end Kernel

end Yalnix
