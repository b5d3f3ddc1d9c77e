import Yalnix.Process.Placement

/-!
# A process is in one place

In a run of orderly steps every process is running, ready or asleep, with one
entry at most in the queues that make it run again.
-/

namespace Yalnix

/-! ## The guard -/

/-- Every round of a wake-up pops its waiter from `blocked_q` and nothing
else. -/
def FrontWakes : List PcbPtr → List PcbPtr → Prop
  | [], _ => True
  | waiter :: rest, blocked =>
      blocked.take (rounds blocked) = [waiter] ∧
        FrontWakes rest (blocked.drop (rounds blocked))

namespace Kernel

variable {s : Kernel}

/-- The processes that the wake-up of a pipe call pops from `blocked_q` are the
waiters it took from the pipe's queue. -/
def FrontWake (s : Kernel) : PipeCall → Prop
  | .read p _ =>
      ∀ waiter ∈ (s.pipes p).queue.head?, s.blockedQ.head? = some waiter
  | .write p _ _ =>
      FrontWakes ((s.pipes p).queue.take (rounds (s.pipes p).queue)) s.blockedQ

end Kernel

theorem FrontWakes.clean {waiters blocked : List PcbPtr}
    (h : FrontWakes waiters blocked) : CleanWakes waiters blocked := by
  induction waiters generalizing blocked with
  | nil => trivial
  | cons waiter rest ih =>
      refine ⟨fun p hp => ?_, ih h.2⟩
      rw [h.1] at hp
      exact List.mem_singleton.1 hp

theorem FrontWakes.mem {waiters blocked : List PcbPtr}
    (h : FrontWakes waiters blocked) : ∀ p ∈ waiters, p ∈ blocked := by
  induction waiters generalizing blocked with
  | nil => nofun
  | cons waiter rest ih =>
      intro p hp
      rcases List.mem_cons.1 hp with rfl | hp
      · exact List.mem_of_mem_take (h.1 ▸ List.mem_cons_self)
      · exact List.mem_of_mem_drop (ih h.2 p hp)

namespace Kernel

variable {s : Kernel}

theorem FrontWake.clean {c : PipeCall} (h : s.FrontWake c) : s.WakeClean c := by
  cases c with
  | read p len =>
      simp only [FrontWake, WakeClean] at h ⊢
      split
      · trivial
      · rename_i waiter rest hqueue
        exact .inl (h waiter (by rw [hqueue]; rfl))
  | write p buf len => exact FrontWakes.clean h

/-- Only processes from `blocked_q` get another blocked code. -/
theorem FrontWake.code {c : PipeCall} (h : s.FrontWake c)
    (hpid : ∀ p x, x ∈ (s.pipes p).queue → s.pcb.pid x ≠ 0) {q : PcbPtr}
    (hq : q ∉ s.blockedQ) :
    (s.wake c).blockedCode q = s.pcb.blockedCode q := by
  cases c with
  | read p len =>
      simp only [FrontWake] at h
      simp only [wake, wakeAfterRead]
      cases hqueue : (s.pipes p).queue with
      | nil => simp only [pipeWake, hqueue]
      | cons waiter rest =>
          have hhead := h waiter (by rw [hqueue]; rfl)
          have hne : q ≠ waiter := fun heq => hq
            (heq ▸ List.mem_of_mem_head? hhead)
          simp only [pipeWake, hqueue]
          exact upd_other hne _ _
  | write p buf len =>
      have hclosed : s.wake (.write p buf len) = (s.pipeWake p).wakeAll
          ((s.pipes p).queue.take (rounds (s.pipes p).queue)) :=
        broadcast_eq _ _ _ (fun x hx => hpid p x hx) (Nat.le_refl _)
      rw [hclosed]
      rcases (wakeAll_frame ((s.pipes p).queue.take
        (rounds (s.pipes p).queue)) (s.pipeWake p)).2 q with hsame | ⟨-, hmem⟩
      · exact hsame
      · exact absurd (FrontWakes.mem h q hmem) hq

end Kernel

namespace Kernel

/-- A reader that leaves bytes has no other reader behind it. -/
def ReaderAlone (s : Kernel) : Label → Prop
  | .resume =>
      match s.pcb.kernelContext s.activePCB with
      | .kernelTtyRead t len => s.ttyReadQueues t = [] ∨ ¬ s.linesLeft t len
      | _ => True
  | .trap _ _ => True

/-- A transmit trap finds the head of the write queue running, or asleep until
the terminal opens. -/
def HeadAsleep (s : Kernel) : Label → Prop
  | .trap _ (.ttyTransmit t) =>
      ∀ head ∈ (s.ttyWriteQueues t).head?, head = s.activePCB ∨
        s.pcb.blockedCode head = Blocked.ttyTransmit
  | _ => True

end Kernel

/-- The steps that keep every process in one place. -/
structure Orderly (s : Kernel) (a : Label) : Prop where
  reader : s.ReaderAlone a
  writer : s.HeadAsleep a
  pipe : ∀ c ∈ s.completing a, s.FrontWake c

theorem Orderly.clean {s : Kernel} {a : Label} (h : Orderly s a) :
    CleanWake s a :=
  fun c hc => (h.pipe c hc).clean

theorem Orderly.entered {s : Kernel} {a : Label} (h : Orderly s a) :
    Orderly (s.entered a) a := by
  cases a with
  | trap ctx t =>
      refine ⟨trivial, ?_, fun c hc => ?_⟩
      · have hwriter := h.writer
        cases t <;> exact hwriter
      · rw [Kernel.completing_entered] at hc
        have hfront := h.pipe c hc
        cases c with
        | read p len => exact hfront
        | write p buf len => exact hfront
  | resume => exact h

/-! ## Every effect -/

theorem KernelContext.SleepsOn.writesTo_eq_none {p : PipePtr}
    {k : KernelContext} (h : k.SleepsOn p) : k.writesTo = none := by
  cases h <;> rfl

namespace Settled

open Kernel

variable {s r : Kernel}

theorem of_core (h : Settled s) (hcore : r.core = s.core) : Settled r := by
  have hs : Settled s.core := { h with }
  rw [← hcore] at hs
  exact { hs with }

/-- The running process goes on in user mode. -/
theorem toUser (h : Placement r) (hlive : r.history.terminated r.activePCB =
      false) (hqueues : ∀ t, r.activePCB ∉ r.ttyWriteQueues t) :
    Settled (r.setMode .user) :=
  { h with
    live := hlive
    user := fun _ => hqueues
    kernel := nofun
    head := nofun }

/-- A step that leaves the running process alone. -/
theorem of_same (h : Settled s) (hsame : Placement.Same s r)
    (hr : Placement r) (hqueues : ∀ t, s.activePCB ∉ s.ttyWriteQueues t) :
    Settled (r.setMode .user) := by
  refine toUser hr ?_ ?_
  · rw [hsame.terminated, hsame.active]
    exact h.live
  · rw [hsame.writers, hsame.active]
    exact hqueues

/-- A trap is taken by a process that is in no write queue. -/
theorem not_writer_of_trap (h : Settled s) {a : Label} (henabled : a.Enabled s)
    (ha : a ≠ .resume) : ∀ t, s.activePCB ∉ s.ttyWriteQueues t := by
  cases a with
  | trap ctx trap => exact h.user henabled.1
  | resume => exact absurd rfl ha

/-- A process that resumes elsewhere than in `KernelTtyWrite` is in no write
queue. -/
theorem not_writer_of_context (h : Settled s) {a : Label}
    (henabled : a.Enabled s) (ha : a = .resume)
    (hto : (s.pcb.kernelContext s.activePCB).writesTo = none) :
    ∀ t, s.activePCB ∉ s.ttyWriteQueues t := by
  subst ha
  intro t ht
  have := (h.kernel henabled t).1 ht
  rw [hto] at this
  cases this

/-- The writer that runs is at the head of its queue. -/
theorem writesOn (h : Settled s) (hs : Population s) {a : Label} {t : Nat}
    {s₁ : Kernel} (henabled : a.Enabled s) (hwrites : WritesOn s a t s₁) :
    Placement s₁ ∧ s₁.history.terminated s₁.activePCB = false ∧
      (s₁.ttyWriteQueues t).head? = some s₁.activePCB ∧
      ∀ t', s₁.activePCB ∈ s₁.ttyWriteQueues t' → t' = t := by
  cases hwrites with
  | @call ctx ttyId buf len hne ht hpid =>
      have hnot := h.user henabled.1
      refine ⟨h.enterWriter (hnot _), h.live, ?_, fun t' ht' => ?_⟩
      · rw [Placement.writeQueue_same]
        cases hqueue : s.ttyWriteQueues ttyId.toNat with
        | nil => rfl
        | cons x rest =>
            rw [hqueue] at hpid
            have hx : x ∈ s.ttyWriteQueues ttyId.toNat :=
              hqueue ▸ List.mem_cons_self
            have heq := hs.pid_inj x _ (hs.writers _ x hx)
              (hs.active_member hne) hpid
            exact absurd (heq ▸ hx) (hnot _)
      · by_contra hne'
        rw [Placement.writeQueue_other hne'] at ht'
        exact hnot t' ht'
  | @resume t buf len left written hctx =>
      have hmem : s.activePCB ∈ s.ttyWriteQueues t :=
        (h.kernel henabled t).2 (by rw [hctx]; rfl)
      refine ⟨h.toPlacement, h.live, h.head henabled t hmem, fun t' ht' => ?_⟩
      have hto := (h.kernel henabled t').1 ht'
      rw [hctx] at hto
      exact (Option.some.inj hto).symm

theorem writeDone_frame (t : Nat) :
    (s.writeDone t).activePCB = s.activePCB ∧
      (s.writeDone t).history = s.history ∧
      (s.writeDone t).ttyWriteQueues =
        upd s.ttyWriteQueues t (s.ttyWriteQueues t).tail := by
  unfold Kernel.writeDone
  split
  · rename_i htail
    rw [htail]
    exact ⟨rfl, rfl, rfl⟩
  · rename_i htail
    rw [htail]
    exact ⟨rfl, rfl, rfl⟩

theorem ttyWriteReturns (h : Settled s) (hs : Population s) {a : Label}
    {t : Nat} {s₁ : Kernel} (henabled : a.Enabled s)
    (hwrites : WritesOn s a t s₁) :
    Settled ((s₁.writeDone t).setMode .user) := by
  obtain ⟨hplaced, hlive, hhead, honly⟩ := h.writesOn hs henabled hwrites
  obtain ⟨hactive, hhistory, hqueues⟩ := writeDone_frame (s := s₁) t
  refine toUser (hplaced.writeDone hhead) ?_ fun t' ht' => ?_
  · rw [hactive, hhistory]
    exact hlive
  · rw [hactive, hqueues] at ht'
    by_cases heq : t' = t
    · subst heq
      rw [upd_same] at ht'
      obtain ⟨rest, hcons⟩ := List.head?_eq_some_iff.1 hhead
      have hnodup := hplaced.nodup t'
      rw [hcons] at ht' hnodup
      exact (List.nodup_cons.1 hnodup).1 ht'
    · rw [upd_other heq] at ht'
      exact heq (honly t' ht')

theorem ttyWriteSleeps (h : Settled s) (hs : Population s) {a : Label}
    {t : Nat} {s₁ : Kernel} (henabled : a.Enabled s)
    (hwrites : WritesOn s a t s₁) (buf : Buffer) (len left written : Nat) :
    Settled (((s₁.setBlockedCode s₁.activePCB
      Blocked.ttyTransmit).setTtyTerminal s₁.activePCB t).swapped none
        (.kernelTtyWrite t buf len left written)) := by
  obtain ⟨hplaced, hlive, hhead, honly⟩ := h.writesOn hs henabled hwrites
  have hset : Placement ((s₁.setBlockedCode s₁.activePCB
      Blocked.ttyTransmit).setTtyTerminal s₁.activePCB t) :=
    { hplaced.setBlockedCode_active Blocked.ttyTransmit with }
  have hs₁ : Population ((s₁.setBlockedCode s₁.activePCB
      Blocked.ttyTransmit).setTtyTerminal s₁.activePCB t) :=
    { hs.writesOn hwrites with }
  have hne := hs.writesOn_active hwrites
  refine hset.swapped_writer hs₁ hne hlive ?_ ?_
  · intro t' ht'
    rw [honly t' ht']
    rfl
  · intro t' ht'
    have ht := honly t' (List.mem_of_mem_tail ht')
    subst ht
    obtain ⟨rest, hcons⟩ := List.head?_eq_some_iff.1 hhead
    have hnodup := hplaced.nodup t'
    have ht'' : s₁.activePCB ∈ (s₁.ttyWriteQueues t').tail := ht'
    rw [hcons] at ht'' hnodup
    exact absurd ht'' (List.nodup_cons.1 hnodup).1

theorem ttyWriteWaits (h : Settled s) (hs : Population s)
    (hne : s.activePCB ≠ s.idlePCB) (hmode : s.mode = .user) (t : Nat)
    (buf : Buffer) (len left written : Nat) :
    Settled ((((s.setTtyWriteQueue t (s.ttyWriteQueues t ++
      [s.activePCB])).setBlockedCode s.activePCB
        Blocked.ttyWrite).setTtyTerminal s.activePCB t).swapped none
          (.kernelTtyWrite t buf len left written)) := by
  have hnot := h.user hmode
  have hqueue := h.enterWriter (hnot t)
  have hset : Placement (((s.setTtyWriteQueue t (s.ttyWriteQueues t ++
      [s.activePCB])).setBlockedCode s.activePCB
        Blocked.ttyWrite).setTtyTerminal s.activePCB t) :=
    { hqueue.setBlockedCode_active Blocked.ttyWrite with }
  have hs₁ : Population (s.setTtyWriteQueue t (s.ttyWriteQueues t ++
      [s.activePCB])) := by
    refine hs.setTtyWriteQueue fun p hp => ?_
    rcases List.mem_append.1 hp with hp | hp
    · exact hs.writers t p hp
    · rw [List.mem_singleton.1 hp]
      exact hs.active_member hne
  have hs₂ : Population (((s.setTtyWriteQueue t (s.ttyWriteQueues t ++
      [s.activePCB])).setBlockedCode s.activePCB
        Blocked.ttyWrite).setTtyTerminal s.activePCB t) := { hs₁ with }
  refine hset.swapped_writer hs₂ hne h.live (fun t' ht' => ?_) ?_
  · by_cases heq : t' = t
    · rw [heq]
      rfl
    · have hmem : s.activePCB ∈ (s.setTtyWriteQueue t (s.ttyWriteQueues t ++
          [s.activePCB])).ttyWriteQueues t' := ht'
      rw [Placement.writeQueue_other heq] at hmem
      exact absurd hmem (hnot t')
  · exact fun _ _ => upd_same _ _ _

theorem exit (h : Settled s) (hs : Population s)
    (hne : s.activePCB ≠ s.idlePCB) (hmode : s.mode = .user) (code : Int) :
    Settled (s.exited code) := by
  have hc := s.exitCleanup_cleaned code
  have hnot := h.user hmode
  have hclean := h.exitCleanup code
  have hidle : s.idlePCB ≠ s.activePCB := hne.symm
  have hset : Placement ((s.exitCleanup code).2.setTerminated
      s.activePCB) := by
    refine
      { hclean with
        fresh := fun p hp => ?_
        idle := ?_
        parked := fun p hp => ?_ }
    · have hlt : s.activePCB < p := by
        have hnpcb : (s.exitCleanup code).2.npcb ≤ p := hp
        rw [hc.npcb] at hnpcb
        exact Nat.lt_of_lt_of_le hs.active hnpcb
      exact (upd_other (Nat.ne_of_gt hlt) _ _).trans (hclean.fresh p hp)
    · show upd _ s.activePCB true (s.exitCleanup code).2.idlePCB = false
      rw [upd_other (by rw [hc.idle]; exact hidle)]
      exact hclean.idle
    · have hp' : p ≠ (s.exitCleanup code).2.activePCB := hp
      have hspot : ((s.exitCleanup code).2.setTerminated s.activePCB).spot p =
          (s.exitCleanup code).2.spot p :=
        Spot.ext rfl rfl rfl rfl rfl (upd_other (hc.active ▸ hp') _ _) rfl rfl
      rw [hspot]
      exact hclean.parked p hp'
  have hs₁ : Population ((s.exitCleanup code).2.setTerminated s.activePCB) :=
    { hs.exitCleanup code with }
  refine hset.swapped_quiet hs₁ (fun heq => absurd
    ((hc.active.symm.trans heq).trans hc.idle) hne) ?_ rfl ?_ (.inr hc.swapQ)
  · show ∀ t, (s.exitCleanup code).2.activePCB ∉
      (s.exitCleanup code).2.ttyWriteQueues t
    rw [hc.active, hc.writers]
    exact hnot
  · intro t ht
    rcases hc.swapQ with hq | hq <;> rw [hq] at ht <;> cases ht

theorem fault (h : Settled s) (hs : Population s)
    (hne : s.activePCB ≠ s.idlePCB) (hmode : s.mode = .user) :
    Settled (((s.setExitCode s.activePCB Rc.error).setTerminated
      s.activePCB).swapped (some .defunctQ) .trapFault) := by
  have hset : Placement ((s.setExitCode s.activePCB Rc.error).setTerminated
      s.activePCB) := by
    refine
      { h.toPlacement with
        fresh := fun p hp => ?_
        idle := (upd_other hne.symm _ _).trans h.idle
        parked := fun p hp => ?_ }
    · have hlt : s.activePCB < p := Nat.lt_of_lt_of_le hs.active hp
      exact (upd_other (Nat.ne_of_gt hlt) _ _).trans (h.fresh p hp)
    · have hspot : ((s.setExitCode s.activePCB Rc.error).setTerminated
          s.activePCB).spot p = s.spot p :=
        Spot.ext rfl rfl rfl rfl rfl (upd_other hp _ _) rfl rfl
      rw [hspot]
      exact h.parked p hp
  have hs₁ : Population ((s.setExitCode s.activePCB Rc.error).setTerminated
      s.activePCB) := { hs with }
  exact hset.swapped_quiet hs₁ (fun heq => absurd heq hne) (h.user hmode) rfl
    nofun (.inr (.inr rfl))

theorem pipeWakes (h : Settled s) (hs : Population s) {c : PipeCall}
    (hfront : s.FrontWake c) (hqueues : ∀ t, s.activePCB ∉ s.ttyWriteQueues t) :
    Settled ((s.afterWake c.pipe (s.wake c)).setMode .user) := by
  have hpid (p : PipePtr) (x : PcbPtr) (hx : x ∈ (s.pipes p).queue) :
      s.pcb.pid x ≠ 0 := hs.pid_pos x (hs.pipes p x hx)
  obtain ⟨moved, hmoves⟩ := wake_moves hpid hfront.clean
  have hsame : Placement.Same s (s.afterWake c.pipe (s.wake c)) :=
    ⟨rfl, rfl, rfl, rfl, rfl⟩
  refine h.of_same hsame ?_ hqueues
  refine h.moved hsame rfl rfl (fun p => ?_) (fun p => ?_)
    fun p hp => hfront.code hpid hp
  · show (s.wake c).readyQ.count p + (s.wake c).blockedQ.count p = _
    rw [hmoves.ready, hmoves.blocked]
    simp only [List.count_append]
    omega
  · show _ ≤ (s.wake c).readyQ.count p
    rw [hmoves.ready, List.count_append]
    omega

/-- A wait, a delay, a read or a pipe call that puts its caller to sleep. -/
theorem sleeps (h : Settled s) (hne : s.activePCB ≠ s.idlePCB)
    (hqueues : ∀ t, s.activePCB ∉ s.ttyWriteQueues t) (hr : Placement r)
    (hpop : Population r) (hsame : Placement.Same s r) {q : QueueRef}
    {k : KernelContext} (hto : k.writesTo = none)
    (ht : ∀ t, q = .ttyReadQueue t → t < numTerminals) :
    Settled (r.swapped (some q) k) := by
  refine hr.swapped_quiet hpop (fun heq => ?_) ?_ hto
    (fun t heq => ht t (Option.some.inj heq)) (.inl ?_)
  · exact absurd ((hsame.active.symm.trans heq).trans hsame.idle) hne
  · rw [hsame.active, hsame.writers]
    exact hqueues
  · rw [hsame.terminated, hsame.active]
    exact h.live

theorem effect {a : Label} (h : Settled s) (hs : Population s)
    (henabled : a.Enabled s) (horderly : Orderly s a)
    (heffect : Effect s a r) : Settled r := by
  cases heffect with
  | stay =>
      exact h.of_same ⟨rfl, rfl, rfl, rfl, rfl⟩ h.toPlacement
        (h.user henabled.1)
  | returns hreturns =>
      refine h.of_same ⟨rfl, rfl, rfl, rfl, rfl⟩ h.toPlacement
        (h.not_writer_of_context henabled rfl ?_)
      cases hctx : s.pcb.kernelContext s.activePCB <;> rw [hctx] at hreturns <;>
        first | rfl | cases hreturns
  | fork => exact toUser (h.forked hs _) h.live (h.user henabled.1)
  | forkFails => exact toUser (h.newProcess hs _) h.live (h.user henabled.1)
  | @exit _ code hne hexits =>
      cases a with
      | trap ctx t => exact h.exit hs hne henabled.1 code
      | resume => cases hexits
  | fault hne => exact h.fault hs hne henabled.1
  | waitFails => exact toUser { h.toPlacement with } h.live (h.user henabled.1)
  | waitReaps => exact toUser { h.toPlacement with } h.live (h.user henabled.1)
  | @waitSleeps _ queue hne _ hreap =>
      have hset : Placement (s.setDefunctQ queue) := { h.toPlacement with }
      have hpop : Population ((s.setDefunctQ queue).setBlockedCode
          s.activePCB Blocked.wait) :=
        { hs with
          defunct := fun p hp => hs.defunct p ((reapLoop_none hreap).1 ▸ hp) }
      exact h.sleeps hne (h.user henabled.1)
        (hset.setBlockedCode_active Blocked.wait) hpop
        ⟨rfl, rfl, rfl, rfl, rfl⟩ rfl nofun
  | waitResumes hctx =>
      have hset : Placement (((s.emit (.waitReturn s.activePCB
          (s.history.reporter s.activePCB) (some (s.pcb.blockedCode
            s.activePCB)) 0)).setBlockedCode s.activePCB
              Blocked.notBlocked).setReporter s.activePCB none) :=
        { h.toPlacement.setBlockedCode_active Blocked.notBlocked with }
      exact toUser hset h.live
        (h.not_writer_of_context henabled rfl (by rw [hctx]; rfl))
  | waitResumesOther hctx =>
      exact toUser { h.toPlacement with } h.live
        (h.not_writer_of_context henabled rfl (by rw [hctx]; rfl))
  | @delay _ ticks hne =>
      have hset : Placement (s.setClockTicks s.activePCB ticks) :=
        { h.toPlacement with }
      exact h.sleeps hne (h.user henabled.1)
        (hset.setBlockedCode_active Blocked.delay) { hs with }
        ⟨rfl, rfl, rfl, rfl, rfl⟩ rfl nofun
  | clock =>
      exact h.swapped_quiet hs (fun _ => rfl) (h.user henabled.1) rfl nofun
        (.inl h.live)
  | clockResumes hctx hscan =>
      exact h.of_same (Placement.scanned_same hscan) (h.scanned hscan)
        (h.not_writer_of_context henabled rfl (by rw [hctx]; rfl))
  | @ttyReadSleeps _ ttyId _ hne ht =>
      have hset : Placement ((s.setBlockedCode s.activePCB
          Blocked.ttyRead).setTtyTerminal s.activePCB ttyId.toNat) :=
        { h.toPlacement.setBlockedCode_active Blocked.ttyRead with }
      exact h.sleeps hne (h.user henabled.1) hset { hs with }
        ⟨rfl, rfl, rfl, rfl, rfl⟩ rfl
        fun t heq => QueueRef.ttyReadQueue.inj heq ▸ ht
  | ttyReadWakes hctx hcons hleft =>
      have halone := horderly.reader
      simp only [ReaderAlone, hctx, hcons] at halone
      exact absurd hleft (halone.resolve_left nofun)
  | ttyReceives ht hcons =>
      exact h.of_same ⟨rfl, rfl, rfl, rfl, rfl⟩ (h.received ht hcons)
        (h.user henabled.1)
  | @ttyWriteWaits _ ttyId buf len hne =>
      exact h.ttyWriteWaits hs hne henabled.1 _ buf _ _ _
  | ttyWriteSleeps buf len left written hwrites =>
      exact h.ttyWriteSleeps hs henabled hwrites buf len left written
  | ttyWriteReturns hwrites => exact h.ttyWriteReturns hs henabled hwrites
  | @ttyTransmitted _ t head _ _ hcons hpid hcheck =>
      have hne : head ≠ s.activePCB := fun heq => hpid (by rw [heq])
      have hcode := (horderly.writer head (by rw [hcons]; rfl)).resolve_left hne
      exact h.of_same (Placement.recheck_same hcheck)
        (h.transmitted hcons hne hcode hcheck) (h.user henabled.1)
  | pipeInit =>
      exact toUser { h.toPlacement with } h.live (h.user henabled.1)
  | @pipeSleeps _ p code k hfrom _ hk =>
      have hqueues : ∀ t, s.activePCB ∉ s.ttyWriteQueues t := by
        rcases hfrom with ⟨ha, hctx⟩ | ⟨ha, -⟩
        · refine h.not_writer_of_context henabled ha ?_
          exact hctx.writesTo_eq_none
        · exact h.not_writer_of_trap henabled
            (Label.ne_resume_of_callsPipe ha)
      have hne : s.activePCB ≠ s.idlePCB := by
        rcases hfrom with ⟨-, hctx⟩ | ⟨-, hne⟩
        · exact hs.sleepsOn_active hctx
        · exact hne
      have hpop := hs.pipeSleeper hne p code
      have hset : Placement ((s.setBlockedCode s.activePCB
          code).setPipeQueue p ((s.pipes p).queue ++ [s.activePCB])) :=
        { h.toPlacement.setBlockedCode_active code with }
      exact h.sleeps hne hqueues hset hpop ⟨rfl, rfl, rfl, rfl, rfl⟩
        hk.writesTo_eq_none nofun
  | pipeWakes hcompleting =>
      refine h.pipeWakes hs (horderly.pipe _ hcompleting) ?_
      cases a with
      | trap ctx t => exact h.user henabled.1
      | resume =>
          refine h.not_writer_of_context henabled rfl ?_
          simp only [completing] at hcompleting
          split at hcompleting
          · rename_i hctx
            rw [hctx]
            rfl
          · rename_i hctx
            rw [hctx]
            rfl
          · cases hcompleting

theorem started {b : Boot} (hb : b.WellFormed) : Settled b.started := by
  have hs := Population.started hb
  have hcontext (p : PcbPtr) : (b.started.pcb.kernelContext p).writesTo =
      none := by
    by_cases hp : p = 1
    · subst hp
      rfl
    · have hctx : b.started.pcb.kernelContext p = .kernelStart :=
        upd_other hp _ _
      rw [hctx]
      rfl
  have hplaces (p : PcbPtr) : (b.started.spot p).places = [1].count p := by
    show [1].count p + 0 + readerCount (fun _ => []) p = _
    rw [readerCount_eq_zero _ fun _ => List.not_mem_nil]
    simp
  refine
    { nodup := fun _ => List.nodup_nil
      fresh := fun _ _ => rfl
      idle := rfl
      parked := fun p _ => .of_quiet (fun _ => List.not_mem_nil)
        (fun _ => List.not_mem_nil) (hcontext p) ?_ nofun
      active := hplaces 0
      live := rfl
      user := fun _ _ => List.not_mem_nil
      kernel := nofun
      head := nofun }
  rw [hplaces]
  exact List.count_le_length

end Settled

theorem Reachable.settled {guard : Kernel → Label → Prop}
    (himp : ∀ s a, guard s a → Orderly s a) {s : Kernel}
    (h : Reachable guard s) (hlive : s.Live) : Population s ∧ Settled s := by
  have horderly : Reachable Orderly s := h.mono himp
  exact horderly.core_invariant (P := fun s => Population s ∧ Settled s)
    (fun _ _ hcore hs => ⟨hs.1.of_core hcore, hs.2.of_core hcore⟩)
    (fun _ _ h => h.entered)
    (fun _ hb => ⟨Population.started hb, Settled.started hb⟩)
    (fun _ _ _ hs henabled _ _ hguard heffect =>
      ⟨hs.1.effect hguard.clean heffect,
        hs.2.effect hs.1 henabled hguard heffect⟩) hlive

/-! ## Termination is for ever -/

namespace Kernel

variable {s r : Kernel} {p : PcbPtr}

theorem WritesOn.terminated {a : Label} {t : Nat} {s₁ : Kernel}
    (h : WritesOn s a t s₁) : s₁.history.terminated = s.history.terminated := by
  cases h <;> rfl

theorem Effect.terminated {a : Label} (h : Effect s a r)
    (hp : s.history.terminated p = true) : r.history.terminated p = true := by
  have hset : upd s.history.terminated s.activePCB true p = true := by
    rw [upd_apply]
    split
    · rfl
    · exact hp
  cases h with
  | @exit _ code =>
      have hc := s.exitCleanup_cleaned code
      rw [exited, swapped_history]
      show upd (s.exitCleanup code).2.history.terminated s.activePCB true p = _
      rw [hc.terminated]
      exact hset
  | fault =>
      rw [swapped_history]
      exact hset
  | waitSleeps => rw [swapped_history]; exact hp
  | delay => rw [swapped_history]; exact hp
  | clock => rw [swapped_history]; exact hp
  | clockResumes _ hscan =>
      have hsame := (Placement.scanned_same hscan).terminated
      exact (congrFun hsame p).trans hp
  | ttyReadSleeps => rw [swapped_history]; exact hp
  | ttyWriteWaits => rw [swapped_history]; exact hp
  | ttyWriteSleeps _ _ _ _ hwrites =>
      rw [swapped_history]
      exact (congrFun hwrites.terminated p).trans hp
  | @ttyWriteReturns _ t s₁ hwrites =>
      have hdone := (Settled.writeDone_frame (s := s₁) t).2.1
      show (s₁.writeDone t).history.terminated p = true
      rw [hdone, hwrites.terminated]
      exact hp
  | ttyTransmitted _ _ hcheck =>
      have hsame := (Placement.recheck_same hcheck).terminated
      exact (congrFun hsame p).trans hp
  | pipeSleeps => rw [swapped_history]; exact hp
  | _ => exact hp

theorem terminated_of_core (h : r.core = s.core) :
    r.history.terminated = s.history.terminated :=
  (congrArg (fun k : Kernel => k.history.terminated) h :)

end Kernel

theorem Reachable.terminated_run {guard : Kernel → Label → Prop} {s : Kernel}
    (h : Reachable guard s) {p : PcbPtr}
    (hp : s.history.terminated p = true) (labels : List Label)
    (hadmits : s.Admits guard labels) (hlive : (s.run labels).Live) :
    (s.run labels).history.terminated p = true := by
  induction labels generalizing s with
  | nil => exact hp
  | cons a rest ih =>
      obtain ⟨⟨henabled, hguard⟩, hrest⟩ := hadmits
      have hnext : Reachable guard (s.take a) := .next h hguard (.take henabled)
      have hgoes : (s.take a).Live := by
        cases rest with
        | nil => exact hlive
        | cons b rest => exact hrest.1.1.live
      have hs := h.quiescent henabled.live
      obtain ⟨r, heffect, hcore⟩ :=
        Kernel.take_hasEffect hs.sync hs.zero_used henabled hgoes
      refine ih hnext ?_ hrest hlive
      rw [Kernel.terminated_of_core hcore]
      refine heffect.terminated ?_
      rw [Kernel.terminated_of_core (Kernel.entered_core a)]
      exact hp

/-! ## The result -/

namespace Kernel

/-- A process that has not terminated runs, has one entry in `ready_q`, or is
asleep. -/
structure InPlace (s : Kernel) (p : PcbPtr) : Prop where
  exactly_one :
    p = s.activePCB ∧ p ∉ s.readyQ ∨
      p ≠ s.activePCB ∧ s.readyQ.count p = 1 ∨
      p ≠ s.activePCB ∧ p ∉ s.readyQ
  ready_once : s.readyQ.count p ≤ 1
  ready_only : p ∈ s.readyQ → p ∉ s.blockedQ ∧
    ∀ t < numTerminals, p ∉ s.ttyReadQueues t
  blocked_once : s.blockedQ.count p ≤ 1

/-- A process is in no queue that could make it run. -/
structure Gone (s : Kernel) (p : PcbPtr) : Prop where
  not_active : p ≠ s.activePCB
  ready : p ∉ s.readyQ
  blocked : p ∉ s.blockedQ
  readers : ∀ t < numTerminals, p ∉ s.ttyReadQueues t
  writers : ∀ t, p ∉ s.ttyWriteQueues t

variable {s : Kernel} {p : PcbPtr}

theorem inPlace_of_places (h : (s.spot p).places ≤ 1)
    (hactive : p = s.activePCB → (s.spot p).places = 0) : s.InPlace p := by
  have hsum : s.readyQ.count p + s.blockedQ.count p +
      readerCount s.ttyReadQueues p ≤ 1 := h
  refine ⟨?_, by omega, fun hready => ⟨?_, fun t ht => ?_⟩, by omega⟩
  · by_cases hp : p = s.activePCB
    · have hzero : s.readyQ.count p + s.blockedQ.count p +
          readerCount s.ttyReadQueues p = 0 := hactive hp
      exact .inl ⟨hp, List.count_eq_zero.1 (by omega)⟩
    · by_cases hready : p ∈ s.readyQ
      · have hpos := List.count_pos_iff.2 hready
        exact .inr (.inl ⟨hp, by omega⟩)
      · exact .inr (.inr ⟨hp, hready⟩)
  · have hpos := List.count_pos_iff.2 hready
    exact List.count_eq_zero.1 (by omega)
  · have hpos := List.count_pos_iff.2 hready
    have hle := count_le_readerCount s.ttyReadQueues ht p
    exact List.count_eq_zero.1 (by omega)

theorem gone_of_dead (hactive : p ≠ s.activePCB) (h : Parked (s.spot p))
    (hdead : s.history.terminated p = true) : s.Gone p := by
  have hsum : s.readyQ.count p + s.blockedQ.count p +
      readerCount s.ttyReadQueues p = 0 := h.dead hdead
  refine ⟨hactive, List.count_eq_zero.1 (by omega),
    List.count_eq_zero.1 (by omega), fun t ht => ?_, fun t ht => ?_⟩
  · have hle := count_le_readerCount s.ttyReadQueues ht p
    exact List.count_eq_zero.1 (by omega)
  · exact absurd (hdead.symm.trans (h.writer_live t ht)) nofun

end Kernel

instance (s : Kernel) : (a : Label) → Decidable (s.ReaderAlone a)
  | .resume =>
      match h : s.pcb.kernelContext s.activePCB with
      | .kernelTtyRead t len => decidable_of_iff
          (s.ttyReadQueues t = [] ∨ ¬ ttyReadCompact (s.ttyReadbuffers t)
            (s.ttyReadTrackers t) (ttyReadCount (s.ttyReadbuffers t)
              (s.ttyReadTrackers t) len) 0 ≠ 0)
          (by simp only [Kernel.ReaderAlone, h, Kernel.linesLeft])
      | .kernelStart | .kernelFork | .trapClockHandler | .kernelExit
      | .trapFault | .kernelWait _ | .kernelDelay | .kernelTtyWrite _ _ _ _ _
      | .kernelPipeRead _ _ | .kernelPipeWrite _ _ _ | .kernelAcquire _
      | .kernelCvarWait _ => isTrue (by simp only [Kernel.ReaderAlone, h])
  | .trap _ _ => isTrue trivial

instance (s : Kernel) : (a : Label) → Decidable (s.HeadAsleep a)
  | .trap _ (.ttyTransmit t) => inferInstanceAs (Decidable
      (∀ head ∈ (s.ttyWriteQueues t).head?, head = s.activePCB ∨
        s.pcb.blockedCode head = Blocked.ttyTransmit))
  | .trap _ (.kernel _) => isTrue trivial
  | .trap _ .clock => isTrue trivial
  | .trap _ .illegal => isTrue trivial
  | .trap _ .math => isTrue trivial
  | .trap _ (.memory _ _) => isTrue trivial
  | .trap _ (.ttyReceive _ _) => isTrue trivial
  | .resume => isTrue trivial

instance instDecidableFrontWakes :
    (waiters blocked : List PcbPtr) → Decidable (FrontWakes waiters blocked)
  | [], _ => isTrue trivial
  | waiter :: rest, blocked =>
      have := instDecidableFrontWakes rest (blocked.drop (rounds blocked))
      inferInstanceAs (Decidable
        (blocked.take (rounds blocked) = [waiter] ∧
          FrontWakes rest (blocked.drop (rounds blocked))))

instance (s : Kernel) : (c : PipeCall) → Decidable (s.FrontWake c)
  | .read p _ => inferInstanceAs (Decidable
      (∀ waiter ∈ (s.pipes p).queue.head?, s.blockedQ.head? = some waiter))
  | .write p _ _ => inferInstanceAs (Decidable (FrontWakes
      ((s.pipes p).queue.take (rounds (s.pipes p).queue)) s.blockedQ))

instance (s : Kernel) (a : Label) : Decidable (Orderly s a) :=
  decidable_of_iff (s.ReaderAlone a ∧ s.HeadAsleep a ∧
      ∀ c ∈ s.completing a, s.FrontWake c)
    ⟨fun h => ⟨h.1, h.2.1, h.2.2⟩, fun h => ⟨h.reader, h.writer, h.pipe⟩⟩

/--
In a run of orderly steps, at every return to user mode, a process is in one
place while it lives; once it has terminated it is in none, and it does not run
again.
-/
theorem process_in_one_place {s : Kernel} (h : Reachable Orderly s)
    (huser : s.mode = .user) (p : PcbPtr) :
    (s.history.terminated p = false → s.InPlace p) ∧
      (s.history.terminated p = true → s.Gone p ∧
        ∀ labels, s.Admits Orderly labels → (s.run labels).Live →
          (s.run labels).activePCB ≠ p) := by
  obtain ⟨-, hs⟩ := h.settled (fun _ _ h => h) (.inl huser)
  refine ⟨fun _ => ?_, fun hdead => ⟨?_, fun labels hadmits hlive heq => ?_⟩⟩
  · by_cases hp : p = s.activePCB
    · subst hp
      exact Kernel.inPlace_of_places (by rw [hs.active]; exact Nat.zero_le _)
        fun _ => hs.active
    · exact Kernel.inPlace_of_places (hs.parked p hp).once fun heq =>
        absurd heq hp
  · have hp : p ≠ s.activePCB := fun heq => by
      rw [heq, hs.live] at hdead
      cases hdead
    exact Kernel.gone_of_dead hp (hs.parked p hp) hdead
  · have hrun := h.terminated_run hdead labels hadmits hlive
    have hsettled := ((h.run labels hadmits).settled (fun _ _ h => h) hlive).2
    rw [← heq, hsettled.live] at hrun
    cases hrun

/-- The parent is asleep in a read, the child exits and idle runs. -/
theorem process_in_one_place_reader :
    let labels := tick ++ [call (.fork 2), call (.ttyRead 0 10), .resume,
      call (.exit 0), .resume]
    let s := (Boot.small 20).kernelStart.run labels
    s.ttyReadQueues 0 = [1] ∧ s.InPlace 1 ∧ s.Gone 2 := by
  intro labels s
  have hreach : Reachable Orderly s :=
    reachable_small 20 labels (by decide +kernel) (by decide +kernel)
  have huser : s.mode = .user := by decide +kernel
  exact ⟨by decide +kernel,
    (process_in_one_place hreach huser 1).1 (by decide +kernel),
    ((process_in_one_place hreach huser 2).2 (by decide +kernel)).1⟩

/-- Two lines arrive while two processes wait for one.  The first reader makes
the second one ready and leaves it in the read queue. -/
theorem reader_in_two_places :
    ¬ ∀ (s : Kernel) (p : PcbPtr), Reachable (fun _ _ => True) s →
      s.mode = .user → p < s.npcb → p ≠ s.idlePCB →
        s.history.terminated p = false → s.InPlace p := by
  intro hall
  let labels := tick ++ [call (.fork 2), call (.ttyRead 0 5), .resume,
    call (.ttyRead 0 5), .resume, .trap ⟨0, 0⟩ (.ttyReceive 0 [97, 10, 98, 10])]
      ++ tick
  let s := (Boot.small 20).kernelStart.run labels
  have hreach : Reachable (fun _ _ => True) s :=
    reachable_small 20 labels (by decide +kernel) (by decide +kernel)
  have hplace := hall s 2 hreach (by decide +kernel) (by decide +kernel)
    (by decide +kernel) (by decide +kernel)
  have hready : 2 ∈ s.readyQ := by decide +kernel
  have hreader : 2 ∈ s.ttyReadQueues 0 := by decide +kernel
  exact (hplace.ready_only hready).2 0 (by decide) hreader

end Yalnix
