import Yalnix.Kernel.Runs
import Yalnix.Pipe.Wakeup
import Yalnix.Process.ExitLoops

/-!
# Processes and their pids

In every run idle is the only process with pid `0`, and the queues hold
processes other than idle.  In a run whose pipe wake-ups are clean, every
process has a pid of its own.
-/

namespace Yalnix

/-- A process that was made, other than idle. -/
def Kernel.Member (s : Kernel) (p : PcbPtr) : Prop := 0 < p ∧ p < s.npcb

/-- Idle is apart from the processes `D`, and only these run and are queued. -/
structure Census (D : PcbPtr → Prop) (s : Kernel) : Prop where
  idle : s.idlePCB = 0
  idle_pid : s.pcb.pid 0 = 0
  active : s.activePCB < s.npcb
  running : s.activePCB ≠ s.idlePCB → D s.activePCB
  member : ∀ p, D p → s.Member p
  pid_pos : ∀ p, D p → s.pcb.pid p ≠ 0
  zero_used : 0 ∈ s.history.usedPids
  ready : ∀ p ∈ s.readyQ, D p
  blocked : ∀ p ∈ s.blockedQ, D p
  defunct : ∀ p ∈ s.defunctQ, D p
  readers : ∀ t, ∀ p ∈ s.ttyReadQueues t, D p
  writers : ∀ t, ∀ p ∈ s.ttyWriteQueues t, D p
  pipes : ∀ x, ∀ p ∈ (s.pipes x).queue, D p
  idle_context : s.pcb.kernelContext 0 = .kernelStart ∨
    s.pcb.kernelContext 0 = .trapClockHandler

/-- The pids of the processes are distinct. -/
structure Population (s : Kernel) : Prop extends Census s.Member s where
  pid_inj : ∀ p q, s.Member p → s.Member q →
    s.pcb.pid p = s.pcb.pid q → p = q
  used : ∀ p, s.Member p → s.pcb.pid p ∈ s.history.usedPids

/-! ## What leaves the pids alone -/

namespace Kernel

variable {s r : Kernel}

theorem Recheck.pids {p : PcbPtr} (h : Recheck s p r) :
    r.pcb.pid = s.pcb.pid ∧ r.npcb = s.npcb ∧
      r.history.usedPids = s.history.usedPids := by
  cases h <;> exact ⟨rfl, rfl, rfl⟩

theorem Scanned.pids {limit : Nat} (h : Scanned limit s r) :
    r.pcb.pid = s.pcb.pid ∧ r.npcb = s.npcb ∧
      r.history.usedPids = s.history.usedPids := by
  induction h with
  | done => exact ⟨rfl, rfl, rfl⟩
  | empty _ _ ih => exact ih
  | next _ hcheck _ ih =>
      obtain ⟨hpid, hnpcb, hused⟩ := hcheck.pids
      exact ⟨ih.1.trans hpid, ih.2.1.trans hnpcb, ih.2.2.trans hused⟩

theorem WritesOn.pids {a : Label} {t : Nat} {s₁ : Kernel}
    (h : WritesOn s a t s₁) : s₁.pcb.pid = s.pcb.pid ∧ s₁.npcb = s.npcb ∧
      s₁.history.usedPids = s.history.usedPids := by
  cases h <;> exact ⟨rfl, rfl, rfl⟩

theorem writeDone_pids (t : Nat) : (s.writeDone t).pcb.pid = s.pcb.pid ∧
    (s.writeDone t).npcb = s.npcb ∧
      (s.writeDone t).history.usedPids = s.history.usedPids := by
  unfold writeDone
  split <;> exact ⟨rfl, rfl, rfl⟩

theorem swapped_npcb {q : Option QueueRef} {k : KernelContext} :
    (s.swapped q k).npcb = s.npcb := by
  unfold swapped
  split
  · rfl
  · rcases (if s.pcb.pid s.activePCB = s.pcb.pid s.idlePCB then none
      else q) with _ | q
    · rfl
    · cases q <;> rfl

end Kernel

/-! ## The census -/

namespace Census

open Kernel

variable {D : PcbPtr → Prop} {s r : Kernel} {q : Option QueueRef}
  {k : KernelContext}

theorem of_core (h : Census D s) (hcore : r.core = s.core) :
    Census D r := by
  have hs : Census D s.core := { h with }
  rw [← hcore] at hs
  exact { hs with }

theorem of_core_member (h : Census s.Member s) (hcore : r.core = s.core) :
    Census r.Member r := by
  have hnpcb : r.npcb = s.npcb := (congrArg Kernel.npcb hcore :)
  have hmember : r.Member = s.Member := by
    unfold Member
    rw [hnpcb]
  rw [hmember]
  exact h.of_core hcore

theorem active_member (h : Census D s) (hne : s.activePCB ≠ s.idlePCB) :
    s.Member s.activePCB :=
  h.member _ (h.running hne)

/-- The same census for an equivalent description of the processes. -/
theorem congr {D' : PcbPtr → Prop} (h : Census D s) (hD : ∀ p, D p ↔ D' p) :
    Census D' s := by
  have heq : D = D' := funext fun p => propext (hD p)
  exact heq ▸ h

theorem pid_active_eq_iff (h : Census D s) :
    s.pcb.pid s.activePCB = s.pcb.pid s.idlePCB ↔
      s.activePCB = s.idlePCB := by
  constructor
  · intro heq
    by_contra hne
    rw [h.idle, h.idle_pid] at heq
    exact h.pid_pos _ (h.running hne) heq
  · intro heq
    rw [heq]

/-! ## Switching -/

/-- A process other than idle is queued and the next one runs. -/
theorem swapped_of_ne (h : Census D s) (hne : s.activePCB ≠ s.idlePCB) :
    s.swapped q k = s.switched q k := by
  have hpid := mt h.pid_active_eq_iff.1 hne
  simp only [swapped, hpid, false_and, if_false]

/-- Idle is never queued. -/
theorem swapped_of_eq (h : Census D s) (heq : s.activePCB = s.idlePCB) :
    s.swapped q k = s.switched none k := by
  have hpid := h.pid_active_eq_iff.2 heq
  simp only [swapped, hpid, true_and, if_true]
  split
  · rename_i hready
    rcases s with ⟨⟩
    simp only at heq hready
    subst heq hready
    rfl
  · rfl

theorem nextProcess_lt (h : Census D s) : s.nextProcess < s.npcb := by
  unfold nextProcess
  cases hready : s.readyQ with
  | nil =>
      rw [List.headD_nil, h.idle]
      exact Nat.lt_of_le_of_lt (Nat.zero_le _) h.active
  | cons p rest =>
      exact (h.member p (h.ready p (hready ▸ List.mem_cons_self))).2

theorem nextProcess_in (h : Census D s) (hne : s.nextProcess ≠ s.idlePCB) :
    D s.nextProcess := by
  unfold nextProcess at hne ⊢
  cases hready : s.readyQ with
  | nil =>
      rw [hready, List.headD_nil] at hne
      exact absurd rfl hne
  | cons p rest => exact h.ready p (hready ▸ List.mem_cons_self)

private theorem idle_context_upd (h : Census D s)
    (hk : s.activePCB = s.idlePCB → k = .trapClockHandler) :
    upd s.pcb.kernelContext s.activePCB k 0 = .kernelStart ∨
      upd s.pcb.kernelContext s.activePCB k 0 = .trapClockHandler := by
  by_cases hactive : s.activePCB = 0
  · refine .inr ?_
    rw [hactive, upd_same]
    exact hk (hactive.trans h.idle.symm)
  · rw [upd_other (Ne.symm hactive)]
    exact h.idle_context

/-- The next process runs, before the old one is queued. -/
theorem switched_none (h : Census D s)
    (hk : s.activePCB = s.idlePCB → k = .trapClockHandler) :
    Census D (s.switched none k) :=
  { h with
    active := h.nextProcess_lt
    running := h.nextProcess_in
    ready := fun p hp => h.ready p (List.mem_of_mem_tail hp)
    idle_context := idle_context_upd h hk }

theorem switched_some (h : Census D s) (hne : s.activePCB ≠ s.idlePCB)
    (ref : QueueRef) : Census D (s.switched (some ref) k) := by
  have hnone := h.switched_none (k := k) fun heq => absurd heq hne
  have hmember := h.running hne
  have hadd {queue : List PcbPtr} (hqueue : ∀ p ∈ queue, D p) :
      ∀ p ∈ queue ++ [s.activePCB], D p := by
    intro p hp
    rcases List.mem_append.1 hp with hp | hp
    · exact hqueue p hp
    · rw [List.mem_singleton.1 hp]
      exact hmember
  cases ref with
  | readyQ => exact { hnone with ready := hadd hnone.ready }
  | blockedQ => exact { hnone with blocked := hadd h.blocked }
  | defunctQ => exact { hnone with defunct := hadd h.defunct }
  | ttyReadQueue t =>
      refine { hnone with readers := fun t' p hp => ?_ }
      by_cases ht : t' = t
      · subst ht
        exact hadd (h.readers t') p (by
          simpa [switched, queueAdd, setTtyReadQueue, setReadyQ, setActivePCB,
            setKernelContext, setPcb, setMode] using hp)
      · exact h.readers t' p (by
          simpa [switched, queueAdd, setTtyReadQueue, setReadyQ, setActivePCB,
            setKernelContext, setPcb, setMode, ht] using hp)
  | lockAquireQueue i => exact { hnone with }
  | cvarWaitQueue i => exact { hnone with }

theorem swapped (h : Census D s)
    (hk : s.activePCB = s.idlePCB → k = .trapClockHandler) :
    Census D (s.swapped q k) := by
  by_cases heq : s.activePCB = s.idlePCB
  · rw [h.swapped_of_eq heq]
    exact h.switched_none hk
  · rw [h.swapped_of_ne heq]
    rcases q with _ | ref
    · exact h.switched_none hk
    · exact h.switched_some heq ref

/-! ## Waking -/

/-- A member is appended to `ready_q`. -/
theorem setReadyQ_append (h : Census D s) {p : PcbPtr} (hp : D p) :
    Census D (s.setReadyQ (s.readyQ ++ [p])) :=
  { h with
    ready := fun x hx => by
      rcases List.mem_append.1 hx with hx | hx
      · exact h.ready x hx
      · rw [List.mem_singleton.1 hx]
        exact hp }

theorem setBlockedQ_append (h : Census D s) {p : PcbPtr} (hp : D p) :
    Census D (s.setBlockedQ (s.blockedQ ++ [p])) :=
  { h with
    blocked := fun x hx => by
      rcases List.mem_append.1 hx with hx | hx
      · exact h.blocked x hx
      · rw [List.mem_singleton.1 hx]
        exact hp }

theorem setTtyWriteQueue (h : Census D s) {t : Nat} {queue : List PcbPtr}
    (hqueue : ∀ p ∈ queue, D p) :
    Census D (s.setTtyWriteQueue t queue) := by
  refine { h with writers := fun t' p hp => ?_ }
  by_cases ht : t' = t
  · subst ht
    exact hqueue p (by simpa [Kernel.setTtyWriteQueue] using hp)
  · exact h.writers t' p (by simpa [Kernel.setTtyWriteQueue, ht] using hp)

theorem setTtyReadQueue (h : Census D s) {t : Nat} {queue : List PcbPtr}
    (hqueue : ∀ p ∈ queue, D p) :
    Census D (s.setTtyReadQueue t queue) := by
  refine { h with readers := fun t' p hp => ?_ }
  by_cases ht : t' = t
  · subst ht
    exact hqueue p (by simpa [Kernel.setTtyReadQueue] using hp)
  · exact h.readers t' p (by simpa [Kernel.setTtyReadQueue, ht] using hp)

theorem setPipeQueue (h : Census D s) {x : PipePtr} {queue : List PcbPtr}
    (hqueue : ∀ p ∈ queue, D p) :
    Census D (s.setPipeQueue x queue) := by
  refine { h with pipes := fun x' p hp => ?_ }
  by_cases hx : x' = x
  · subst hx
    exact hqueue p (by simpa [Kernel.setPipeQueue, setPipe] using hp)
  · exact h.pipes x' p (by simpa [Kernel.setPipeQueue, setPipe, hx] using hp)

theorem recheck {p : PcbPtr} (h : Census D s) (hp : D p)
    (hcheck : Recheck s p r) : Census D r := by
  cases hcheck with
  | ticking =>
      have hset : Census D (s.setClockTicks p (s.pcb.clockTicks p - 1)) :=
        { h with }
      exact hset.setBlockedQ_append hp
  | due =>
      have hset : Census D (s.setBlockedCode p Blocked.notBlocked) :=
        { h with }
      exact hset.setReadyQ_append hp
  | opened =>
      have hset : Census D ((s.setBlockedCode p
          Blocked.notBlocked).setTtyTerminal p 0) := { h with }
      exact hset.setReadyQ_append hp
  | closed => exact h
  | other => exact h.setBlockedQ_append hp

theorem scanned {limit : Nat} (h : Census D s) (hscan : Scanned limit s r) :
    Census D r := by
  induction hscan with
  | done => exact h
  | empty _ _ ih => exact ih h
  | @next limit s s' r p rest hcons hcheck _ ih =>
      have hmem := h.blocked p (hcons ▸ List.mem_cons_self)
      have hpop : Census D (s.setBlockedQ rest) :=
        { h with
          blocked := fun x hx =>
            h.blocked x (hcons ▸ List.mem_cons_of_mem _ hx) }
      exact ih (hpop.recheck hmem hcheck)

theorem exitCleanup (h : Census D s) (code : Int) :
    Census D (s.exitCleanup code).2 := by
  have hc := s.exitCleanup_cleaned code
  have hmember : (s.exitCleanup code).2.Member = s.Member := by
    unfold Member
    rw [hc.npcb]
  have hqueues (p : PcbPtr)
      (hcount : 0 < (s.exitCleanup code).2.readyQ.count p +
        (s.exitCleanup code).2.blockedQ.count p) : D p := by
    rw [hc.count p] at hcount
    by_cases hready : p ∈ s.readyQ
    · exact h.ready p hready
    · rw [List.count_eq_zero_of_not_mem hready] at hcount
      exact h.blocked p (List.count_pos_iff.1 (by omega))
  exact
    { idle := by rw [hc.idle, h.idle]
      idle_pid := by rw [hc.pid, h.idle_pid]
      active := by rw [hc.active, hc.npcb]; exact h.active
      running := by rw [hc.active, hc.idle]; exact h.running
      member := by rw [hmember]; exact h.member
      pid_pos := by rw [hc.pid]; exact h.pid_pos
      zero_used := by rw [hc.usedPids]; exact h.zero_used
      ready := fun p hp => hqueues p (by
        have hpos := List.count_pos_iff.2 hp
        omega)
      blocked := fun p hp => hqueues p (by
        have hpos := List.count_pos_iff.2 hp
        omega)
      defunct := fun p hp => h.defunct p (hc.defunct.subset hp)
      readers := by rw [hc.readers]; exact h.readers
      writers := by rw [hc.writers]; exact h.writers
      pipes := by rw [hc.pipes]; exact h.pipes
      idle_context := by rw [hc.context]; exact h.idle_context }

/-- A process that is made is not yet one of those that run. -/
theorem newProcess (h : Census D s) (pid : Nat) :
    Census D (s.newProcess (some s.activePCB) pid) := by
  have hpos : 0 < s.npcb := Nat.lt_of_le_of_lt (Nat.zero_le _) h.active
  have hother {p : PcbPtr} (hp : p ≠ s.npcb) :
      upd s.pcb.pid s.npcb pid p = s.pcb.pid p := upd_other hp _ _
  exact
    { h with
      idle_pid := (hother (Nat.ne_of_lt hpos)).trans h.idle_pid
      active := Nat.lt_succ_of_lt h.active
      member := fun p hp =>
        ⟨(h.member p hp).1, Nat.lt_succ_of_lt (h.member p hp).2⟩
      pid_pos := fun p hp =>
        (hother (Nat.ne_of_lt (h.member p hp).2)).trans_ne (h.pid_pos p hp)
      zero_used := List.mem_cons_of_mem _ h.zero_used }

theorem widen {x : PcbPtr} (h : Census D s) (hx : s.Member x)
    (hpid : s.pcb.pid x ≠ 0) : Census (fun p => D p ∨ p = x) s :=
  { h with
    running := fun hne => .inl (h.running hne)
    member := fun p hp => hp.elim (h.member p) (· ▸ hx)
    pid_pos := fun p hp => hp.elim (h.pid_pos p) (· ▸ hpid)
    ready := fun p hp => .inl (h.ready p hp)
    blocked := fun p hp => .inl (h.blocked p hp)
    defunct := fun p hp => .inl (h.defunct p hp)
    readers := fun t p hp => .inl (h.readers t p hp)
    writers := fun t p hp => .inl (h.writers t p hp)
    pipes := fun x p hp => .inl (h.pipes x p hp) }

/-- The new process is one that can run. -/
theorem newProcess_widen (h : Census D s) {pid : Nat}
    (hpid : pid ∉ s.history.usedPids) :
    Census (fun p => D p ∨ p = s.npcb)
      (s.newProcess (some s.activePCB) pid) := by
  have hpos : 0 < s.npcb := Nat.lt_of_le_of_lt (Nat.zero_le _) h.active
  have hzero : pid ≠ 0 := fun heq => hpid (heq ▸ h.zero_used)
  have hnew : upd s.pcb.pid s.npcb pid s.npcb = pid := upd_same _ _ _
  exact (h.newProcess pid).widen ⟨hpos, Nat.lt_succ_self _⟩
    (hnew.trans_ne hzero)

theorem forked (h : Census D s) {pid : Nat}
    (hpid : pid ∉ s.history.usedPids) :
    Census (fun p => D p ∨ p = s.npcb) (s.forked pid) := by
  have hpos : 0 < s.npcb := Nat.lt_of_le_of_lt (Nat.zero_le _) h.active
  have hnew := (h.newProcess_widen hpid).setReadyQ_append (p := s.npcb)
    (.inr rfl)
  refine { hnew with idle_context := ?_ }
  have hctx : (s.forked pid).pcb.kernelContext 0 = s.pcb.kernelContext 0 :=
    upd_other (Nat.ne_of_lt hpos) _ _
  rw [hctx]
  exact h.idle_context

theorem writesOn {a : Label} {t : Nat} {s₁ : Kernel} (h : Census D s)
    (hwrites : WritesOn s a t s₁) : Census D s₁ := by
  cases hwrites with
  | call hne _ _ =>
      refine h.setTtyWriteQueue fun p hp => ?_
      rcases List.mem_append.1 hp with hp | hp
      · exact h.writers _ p hp
      · rw [List.mem_singleton.1 hp]
        exact h.running hne
  | resume => exact h

theorem writesOn_active {a : Label} {t : Nat} {s₁ : Kernel} (h : Census D s)
    (hwrites : WritesOn s a t s₁) : s₁.activePCB ≠ s₁.idlePCB := by
  cases hwrites with
  | call hne _ _ => exact hne
  | resume hctx =>
      intro heq
      rw [heq, h.idle] at hctx
      rcases h.idle_context with hidle | hidle
      · rw [hidle] at hctx
        cases hctx
      · rw [hidle] at hctx
        cases hctx

theorem writeDone (h : Census D s) (t : Nat) :
    Census D (s.writeDone t) := by
  unfold Kernel.writeDone
  split
  · exact h.setTtyWriteQueue nofun
  · rename_i next rest hcons
    have htail : ∀ p ∈ next :: rest, D p := fun p hp =>
      h.writers t p (List.mem_of_mem_tail (hcons ▸ hp))
    have hqueue := h.setTtyWriteQueue (t := t) htail
    have hcode : Census D ((s.setTtyWriteQueue t
        (next :: rest)).setBlockedCode next Blocked.notBlocked) :=
      { hqueue with }
    exact hcode.setReadyQ_append (htail next List.mem_cons_self)

/-- A wake-up hands pids of waiters to processes from `blocked_q`. -/
theorem afterWake (h : Census D s) (c : PipeCall) :
    Census D (s.afterWake c.pipe (s.wake c)) := by
  have hwakes := wake_in h.pid_pos h.blocked (h.pipes c.pipe)
  have hpipe := h.setPipeQueue (x := c.pipe)
    fun p hp => h.pipes c.pipe p (hwakes.queue p hp)
  exact
    { hpipe with
      idle_pid := (hwakes.pid_other 0 fun hD =>
        Nat.lt_irrefl _ (h.member 0 hD).1).trans h.idle_pid
      pid_pos := hwakes.pid_pos h.pid_pos
      ready := fun p hp => (hwakes.ready p hp).elim (h.ready p) id
      blocked := hwakes.blocked }

theorem sleepsOn_active (h : Census D s) {p : PipePtr}
    (hctx : (s.pcb.kernelContext s.activePCB).SleepsOn p) :
    s.activePCB ≠ s.idlePCB := by
  intro heq
  rw [heq, h.idle] at hctx
  rcases h.idle_context with hidle | hidle
  · rw [hidle] at hctx
    cases hctx
  · rw [hidle] at hctx
    cases hctx

/-- The running process goes to sleep on a pipe. -/
theorem pipeSleeper (h : Census D s) (hne : s.activePCB ≠ s.idlePCB)
    (p : PipePtr) (code : Int) :
    Census D ((s.setBlockedCode s.activePCB code).setPipeQueue p
      ((s.pipes p).queue ++ [s.activePCB])) := by
  have hset : Census D (s.setBlockedCode s.activePCB code) := { h with }
  refine hset.setPipeQueue fun x hx => ?_
  rcases List.mem_append.1 hx with hx | hx
  · exact h.pipes p x hx
  · rw [List.mem_singleton.1 hx]
    exact h.running hne

/-! ## Every effect -/

theorem setMode (h : Census D s) (mode : Mode) :
    Census D (s.setMode mode) :=
  { h with }

/-- Every effect keeps the census, except that `Fork` makes a process. -/
theorem effect {a : Label} (h : Census D s) (heffect : Effect s a r) :
    (Census D r ∧ r.npcb = s.npcb) ∨
      ∃ ctx pid, a = .trap ctx (.kernel (.fork pid)) ∧
        pid ∉ s.history.usedPids ∧
        (r = (s.forked pid).setMode .user ∨
          r = (s.newProcess (some s.activePCB) pid).setMode .user) := by
  have hswapped {q : Option QueueRef} {k : KernelContext} {s₁ : Kernel}
      (hs₁ : Census D s₁) (hnpcb : s₁.npcb = s.npcb)
      (hne : s₁.activePCB ≠ s₁.idlePCB) :
      Census D (s₁.swapped q k) ∧ (s₁.swapped q k).npcb = s.npcb :=
    ⟨hs₁.swapped fun heq => absurd heq hne, swapped_npcb.trans hnpcb⟩
  cases heffect with
  | stay => exact .inl ⟨h.setMode _, rfl⟩
  | returns => exact .inl ⟨h.setMode _, rfl⟩
  | fork _ hpid => exact .inr ⟨_, _, rfl, hpid, .inl rfl⟩
  | forkFails _ hpid => exact .inr ⟨_, _, rfl, hpid, .inr rfl⟩
  | @exit _ code hne =>
      have hc := s.exitCleanup_cleaned code
      have hset : Census D ((s.exitCleanup code).2.setTerminated
          s.activePCB) := { h.exitCleanup code with }
      exact .inl (hswapped hset hc.npcb fun heq =>
        hne ((hc.active.symm.trans heq).trans hc.idle))
  | fault hne =>
      have hset : Census D ((s.setExitCode s.activePCB
          Rc.error).setTerminated s.activePCB) := { h with }
      exact .inl (hswapped hset rfl hne)
  | waitFails => exact .inl ⟨{ h with }, rfl⟩
  | waitReaps _ _ hreap =>
      have hperm := (reapLoop_some hreap).2
      exact .inl
        ⟨{ h with
          defunct := fun p hp => h.defunct p
            (hperm.subset (List.mem_cons_of_mem _ hp)) }, rfl⟩
  | @waitSleeps _ queue hne _ hreap =>
      have hset : Census D ((s.setDefunctQ queue).setBlockedCode
          s.activePCB Blocked.wait) :=
        { h with
          defunct := fun p hp => h.defunct p ((reapLoop_none hreap).1 ▸ hp) }
      exact .inl (hswapped hset rfl hne)
  | waitResumes => exact .inl ⟨{ h with }, rfl⟩
  | waitResumesOther => exact .inl ⟨{ h with }, rfl⟩
  | @delay _ ticks hne =>
      have hset : Census D ((s.setClockTicks s.activePCB
          ticks).setBlockedCode s.activePCB Blocked.delay) := { h with }
      exact .inl (hswapped hset rfl hne)
  | clock => exact .inl ⟨h.swapped fun _ => rfl, swapped_npcb⟩
  | clockResumes _ hscan =>
      exact .inl ⟨(h.scanned hscan).setMode _, hscan.pids.2.1⟩
  | @ttyReadSleeps _ ttyId _ hne =>
      have hset : Census D ((s.setBlockedCode s.activePCB
          Blocked.ttyRead).setTtyTerminal s.activePCB ttyId.toNat) :=
        { h with }
      exact .inl (hswapped hset rfl hne)
  | @ttyReadWakes t _ next _ _ hcons =>
      have hset : Census D (s.setBlockedCode next Blocked.notBlocked) :=
        { h with }
      exact .inl ⟨(hset.setReadyQ_append (h.readers t next
        (hcons ▸ List.mem_cons_self))).setMode _, rfl⟩
  | @ttyReceives _ t _ next rest _ hcons =>
      have hqueue : Census D (s.setTtyReadQueue t rest) :=
        h.setTtyReadQueue fun p hp =>
          h.readers t p (hcons ▸ List.mem_cons_of_mem _ hp)
      have hset : Census D ((s.setTtyReadQueue t rest).setBlockedCode next
          Blocked.notBlocked) := { hqueue with }
      exact .inl ⟨(hset.setReadyQ_append (h.readers t next
        (hcons ▸ List.mem_cons_self))).setMode _, rfl⟩
  | @ttyWriteWaits ctx ttyId buf len hne ht hpid =>
      have hqueue : Census D (s.setTtyWriteQueue ttyId.toNat
          (s.ttyWriteQueues ttyId.toNat ++ [s.activePCB])) := by
        refine h.setTtyWriteQueue fun p hp => ?_
        rcases List.mem_append.1 hp with hp | hp
        · exact h.writers _ p hp
        · rw [List.mem_singleton.1 hp]
          exact h.running hne
      have hset : Census D (((s.setTtyWriteQueue ttyId.toNat
          (s.ttyWriteQueues ttyId.toNat ++ [s.activePCB])).setBlockedCode
            s.activePCB Blocked.ttyWrite).setTtyTerminal s.activePCB
              ttyId.toNat) := { hqueue with }
      exact .inl (hswapped hset rfl hne)
  | @ttyWriteSleeps _ t s₁ _ _ _ _ hwrites =>
      have hwriting := h.writesOn hwrites
      have hset : Census D ((s₁.setBlockedCode s₁.activePCB
          Blocked.ttyTransmit).setTtyTerminal s₁.activePCB t) :=
        { hwriting with }
      have hactive := h.writesOn_active hwrites
      exact .inl (hswapped hset hwrites.pids.2.1 hactive)
  | ttyWriteReturns hwrites =>
      exact .inl ⟨((h.writesOn hwrites).writeDone _).setMode _,
        (writeDone_pids _).2.1.trans hwrites.pids.2.1⟩
  | @ttyTransmitted _ t head _ _ hcons _ hcheck =>
      exact .inl ⟨(h.recheck (h.writers t head
        (hcons ▸ List.mem_cons_self)) hcheck).setMode _, hcheck.pids.2.1⟩
  | pipeInit =>
      exact .inl ⟨(h.setPipeQueue fun _ hp =>
        absurd hp List.not_mem_nil).setMode _, rfl⟩
  | @pipeSleeps _ p code _ hfrom _ _ =>
      have hne : s.activePCB ≠ s.idlePCB := by
        rcases hfrom with ⟨-, hctx⟩ | ⟨-, hne⟩
        · exact h.sleepsOn_active hctx
        · exact hne
      have hqueue := h.pipeSleeper hne p code
      exact .inl (hswapped hqueue rfl hne)
  | pipeWakes => exact .inl ⟨(h.afterWake _).setMode _, rfl⟩

theorem effect_member {a : Label} (h : Census s.Member s)
    (heffect : Effect s a r) : Census r.Member r := by
  have hgrown (p : PcbPtr) (hr : r.npcb = s.npcb + 1) :
      s.Member p ∨ p = s.npcb ↔ r.Member p := by
    have hpos : 0 < s.npcb := Nat.lt_of_le_of_lt (Nat.zero_le _) h.active
    unfold Member
    rw [hr, Nat.lt_succ_iff_lt_or_eq]
    constructor
    · rintro (⟨hp, hlt⟩ | rfl)
      · exact ⟨hp, .inl hlt⟩
      · exact ⟨hpos, .inr rfl⟩
    · rintro ⟨hp, hlt | heq⟩
      · exact .inl ⟨hp, hlt⟩
      · exact .inr heq
  rcases h.effect heffect with
    ⟨hr, hnpcb⟩ | ⟨ctx, pid, -, hpid, rfl | rfl⟩
  · refine hr.congr fun p => ?_
    unfold Member
    rw [hnpcb]
  · exact ((h.forked hpid).setMode _).congr fun p => hgrown p rfl
  · exact ((h.newProcess_widen hpid).setMode _).congr fun p => hgrown p rfl

theorem started {b : Boot} (hb : b.WellFormed) :
    Census b.started.Member b.started := by
  have hpid₀ : b.started.pcb.pid 0 = 0 := rfl
  have hpid₁ : b.started.pcb.pid 1 = b.progPid := rfl
  have hone {p : PcbPtr} (hp : b.started.Member p) : p = 1 := by
    obtain ⟨h₁, h₂⟩ := hp
    have hlt : p < 2 := h₂
    exact Nat.le_antisymm (Nat.lt_succ_iff.1 hlt) h₁
  exact
    { idle := rfl
      idle_pid := hpid₀
      active := Nat.zero_lt_two
      running := fun hne => absurd rfl hne
      member := fun _ hp => hp
      pid_pos := fun p hp => by
        rw [hone hp, hpid₁]
        exact hb.progPid_ne_zero
      zero_used := List.mem_cons_of_mem _ List.mem_cons_self
      ready := fun p hp => by
        rw [List.mem_singleton.1 hp]
        exact ⟨Nat.one_pos, Nat.one_lt_two⟩
      blocked := nofun
      defunct := nofun
      readers := fun _ => nofun
      writers := fun _ => nofun
      pipes := fun _ => nofun
      idle_context := .inl rfl }

end Census

/-! ## Distinct pids -/

namespace Population

open Kernel

variable {s r : Kernel}

theorem of_core (h : Population s) (hcore : r.core = s.core) :
    Population r := by
  have hs : Population s.core := { h with }
  rw [← hcore] at hs
  exact { hs with }

/-- The same processes with the same pids. -/
theorem of_census (h : Population s) (hr : Census r.Member r)
    (hpid : r.pcb.pid = s.pcb.pid) (hnpcb : r.npcb = s.npcb)
    (hused : r.history.usedPids = s.history.usedPids) : Population r := by
  have hmember : r.Member = s.Member := by
    unfold Member
    rw [hnpcb]
  exact
    { hr with
      pid_inj := by rw [hmember, hpid]; exact h.pid_inj
      used := by rw [hmember, hpid, hused]; exact h.used }

theorem setTtyWriteQueue (h : Population s) {t : Nat} {queue : List PcbPtr}
    (hqueue : ∀ p ∈ queue, s.Member p) :
    Population (s.setTtyWriteQueue t queue) :=
  h.of_census (h.toCensus.setTtyWriteQueue hqueue) rfl rfl rfl

theorem exitCleanup (h : Population s) (code : Int) :
    Population (s.exitCleanup code).2 := by
  have hc := s.exitCleanup_cleaned code
  have hmember : (s.exitCleanup code).2.Member = s.Member := by
    unfold Member
    rw [hc.npcb]
  exact h.of_census (hmember ▸ h.toCensus.exitCleanup code) hc.pid hc.npcb
    hc.usedPids

theorem writesOn {a : Label} {t : Nat} {s₁ : Kernel} (h : Population s)
    (hwrites : WritesOn s a t s₁) : Population s₁ := by
  have hcensus := h.toCensus.writesOn hwrites
  cases hwrites with
  | call => exact h.of_census hcensus rfl rfl rfl
  | resume => exact h

theorem pipeSleeper (h : Population s) (hne : s.activePCB ≠ s.idlePCB)
    (p : PipePtr) (code : Int) :
    Population ((s.setBlockedCode s.activePCB code).setPipeQueue p
      ((s.pipes p).queue ++ [s.activePCB])) :=
  h.of_census (h.toCensus.pipeSleeper hne p code) rfl rfl rfl

/-- A new process gets a pid that nobody has. -/
theorem of_newProcess (h : Population s) {pid : Nat}
    (hfresh : pid ∉ s.history.usedPids) (hr : Census r.Member r)
    (hpid : r.pcb.pid = upd s.pcb.pid s.npcb pid) (hnpcb : r.npcb = s.npcb + 1)
    (hused : r.history.usedPids = pid :: s.history.usedPids) :
    Population r := by
  have hcases {p : PcbPtr} (hp : r.Member p) :
      s.Member p ∧ r.pcb.pid p = s.pcb.pid p ∨
        p = s.npcb ∧ r.pcb.pid p = pid := by
    obtain ⟨h₁, h₂⟩ := hp
    rw [hnpcb] at h₂
    rw [hpid]
    rcases Nat.lt_succ_iff_lt_or_eq.1 h₂ with hlt | heq
    · exact .inl ⟨⟨h₁, hlt⟩, upd_other (Nat.ne_of_lt hlt) _ _⟩
    · exact .inr ⟨heq, heq ▸ upd_same _ _ _⟩
  refine { hr with pid_inj := fun p q hp hq heq => ?_, used := fun p hp => ?_ }
  · rcases hcases hp with ⟨hp, hpp⟩ | ⟨rfl, hpp⟩
    · rcases hcases hq with ⟨hq, hqq⟩ | ⟨rfl, hqq⟩
      · exact h.pid_inj p q hp hq (hpp.symm.trans (heq.trans hqq))
      · have hpid' : s.pcb.pid p = pid := hpp.symm.trans (heq.trans hqq)
        exact absurd (hpid' ▸ h.used p hp) hfresh
    · rcases hcases hq with ⟨hq, hqq⟩ | ⟨rfl, hqq⟩
      · have hpid' : s.pcb.pid q = pid := hqq.symm.trans (heq.symm.trans hpp)
        exact absurd (hpid' ▸ h.used q hq) hfresh
      · rfl
  · rw [hused]
    rcases hcases hp with ⟨hp, hpp⟩ | ⟨rfl, hpp⟩
    · rw [hpp]
      exact List.mem_cons_of_mem _ (h.used p hp)
    · rw [hpp]
      exact List.mem_cons_self

theorem effect {a : Label} (h : Population s)
    (hclean : ∀ c, s.completing a = some c → s.WakeClean c)
    (heffect : Effect s a r) : Population r := by
  have hcensus := h.toCensus.effect_member heffect
  have hswapped {q : Option QueueRef} {k : KernelContext} {s₁ : Kernel}
      (hr : r = s₁.swapped q k) (hpid : s₁.pcb.pid = s.pcb.pid)
      (hnpcb : s₁.npcb = s.npcb)
      (hused : s₁.history.usedPids = s.history.usedPids) : Population r := by
    refine h.of_census hcensus ?_ ?_ ?_
    · rw [hr, swapped_pcb]
      exact hpid
    · rw [hr, swapped_npcb]
      exact hnpcb
    · rw [hr, swapped_history]
      exact hused
  cases heffect with
  | fork _ hpid => exact h.of_newProcess hpid hcensus rfl rfl rfl
  | forkFails _ hpid => exact h.of_newProcess hpid hcensus rfl rfl rfl
  | @exit _ code =>
      have hc := s.exitCleanup_cleaned code
      exact hswapped rfl hc.pid hc.npcb hc.usedPids
  | fault => exact hswapped rfl rfl rfl rfl
  | waitSleeps => exact hswapped rfl rfl rfl rfl
  | delay => exact hswapped rfl rfl rfl rfl
  | clock => exact hswapped rfl rfl rfl rfl
  | clockResumes _ hscan =>
      obtain ⟨hpid, hnpcb, hused⟩ := hscan.pids
      exact h.of_census hcensus hpid hnpcb hused
  | ttyReadSleeps => exact hswapped rfl rfl rfl rfl
  | ttyWriteWaits => exact hswapped rfl rfl rfl rfl
  | ttyWriteSleeps _ _ _ _ hwrites =>
      obtain ⟨hpid, hnpcb, hused⟩ := hwrites.pids
      exact hswapped rfl hpid hnpcb hused
  | ttyWriteReturns hwrites =>
      obtain ⟨hpid, hnpcb, hused⟩ := hwrites.pids
      obtain ⟨hpid', hnpcb', hused'⟩ := writeDone_pids (s := _) _
      exact h.of_census hcensus (hpid'.trans hpid) (hnpcb'.trans hnpcb)
        (hused'.trans hused)
  | ttyTransmitted _ _ hcheck =>
      obtain ⟨hpid, hnpcb, hused⟩ := hcheck.pids
      exact h.of_census hcensus hpid hnpcb hused
  | pipeSleeps => exact hswapped rfl rfl rfl rfl
  | pipeWakes hcompleting =>
      obtain ⟨moved, hmoves⟩ := wake_moves
        (fun p x hx => h.pid_pos x (h.pipes p x hx)) (hclean _ hcompleting)
      exact h.of_census hcensus hmoves.pid rfl rfl
  | _ => exact h.of_census hcensus rfl rfl rfl

theorem started {b : Boot} (hb : b.WellFormed) : Population b.started := by
  have hone {p : PcbPtr} (hp : b.started.Member p) : p = 1 := by
    obtain ⟨h₁, h₂⟩ := hp
    have hlt : p < 2 := h₂
    exact Nat.le_antisymm (Nat.lt_succ_iff.1 hlt) h₁
  have hpid : b.started.pcb.pid 1 = b.progPid := rfl
  refine
    { Census.started hb with
      pid_inj := fun p q hp hq _ => (hone hp).trans (hone hq).symm
      used := fun p hp => ?_ }
  rw [hone hp, hpid]
  exact List.mem_cons_self

end Population

/-! ## Runs -/

/-- Every pipe call that the step completes wakes its own waiters only. -/
def CleanWake (s : Kernel) (a : Label) : Prop :=
  ∀ c, s.completing a = some c → s.WakeClean c

theorem Kernel.completing_entered {s : Kernel} (a : Label) :
    (s.entered a).completing a = s.completing a := by
  cases a with
  | trap ctx t =>
      cases t with
      | kernel call => cases call <;> rfl
      | _ => rfl
  | resume => rfl

theorem CleanWake.entered {s : Kernel} {a : Label} (h : CleanWake s a) :
    CleanWake (s.entered a) a := by
  intro c hc
  rw [Kernel.completing_entered] at hc
  have hclean := h c hc
  cases a with
  | trap ctx t =>
      cases c with
      | read p len => exact hclean
      | write p buf len => exact hclean
  | resume => exact hclean

theorem Reachable.census {guard : Kernel → Label → Prop} {s : Kernel}
    (h : Reachable guard s) (hlive : s.Live) : Census s.Member s := by
  have hany : Reachable (fun _ _ => True) s := h.mono fun _ _ _ => trivial
  exact hany.core_invariant (P := fun s => Census s.Member s)
    (fun _ _ hcore h => h.of_core_member hcore)
    (fun _ _ _ => trivial) (fun _ hb => Census.started hb)
    (fun _ _ _ hs _ _ _ _ heffect => hs.effect_member heffect) hlive

theorem Reachable.population {guard : Kernel → Label → Prop}
    (himp : ∀ s a, guard s a → CleanWake s a) {s : Kernel}
    (h : Reachable guard s) (hlive : s.Live) : Population s := by
  have hclean : Reachable CleanWake s := h.mono himp
  exact hclean.core_invariant (fun _ _ hcore h => h.of_core hcore)
    (fun _ _ h => CleanWake.entered h) (fun _ hb => Population.started hb)
    (fun _ _ _ hs _ _ _ hguard heffect => hs.effect hguard heffect) hlive

end Yalnix
