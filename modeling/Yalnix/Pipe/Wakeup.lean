import Yalnix.Kernel.Effect

/-!
# The wake-up loops of the pipe calls

The loops search `blocked_q` for a waiter, but they assign where they mean to
compare: every process they pop is given the waiter's pid.  Closed forms of the
loops, and the states in which the processes they pop are the waiters.
-/

namespace Yalnix

/-- The number of rounds of a loop whose bound shrinks with its queue. -/
def rounds (queue : List PcbPtr) : Nat := (queue.length + 1) / 2

/-- The pids after all of `popped` were given the pid of the waiter. -/
def assignPid (pid : PcbPtr → Nat) (waiter : PcbPtr) (popped : List PcbPtr) :
    PcbPtr → Nat :=
  fun p => if p ∈ popped then pid waiter else pid p

namespace PipeWake

variable {st : PipeWake}

/-- One round of the broadcast of `KernelPipeWrite`, in closed form. -/
def wakeOne (st : PipeWake) (waiter : PcbPtr) : PipeWake :=
  { pid := assignPid st.pid waiter (st.blockedQ.take (rounds st.blockedQ))
    blockedCode := upd st.blockedCode waiter Blocked.notBlocked
    readyQ := st.readyQ ++ st.blockedQ.take (rounds st.blockedQ)
    blockedQ := st.blockedQ.drop (rounds st.blockedQ)
    queue := st.queue.tail }

/-- Rounds for one waiter after another. -/
def wakeAll (st : PipeWake) : List PcbPtr → PipeWake
  | [] => st
  | waiter :: rest => (st.wakeOne waiter).wakeAll rest

end PipeWake

@[simp] theorem assignPid_nil (pid : PcbPtr → Nat) (waiter : PcbPtr) :
    assignPid pid waiter [] = pid := by
  funext p
  simp [assignPid]

theorem assignPid_cons (pid : PcbPtr → Nat) (waiter curr : PcbPtr)
    (popped : List PcbPtr) :
    assignPid (upd pid curr (pid waiter)) waiter popped =
      assignPid pid waiter (curr :: popped) := by
  funext p
  unfold assignPid
  by_cases hp : p = curr
  · subst hp
    by_cases hmem : p ∈ popped
    · by_cases hw : waiter = p
      · subst hw
        simp [hmem]
      · simp [hmem, hw]
    · simp [hmem]
  · by_cases hw : waiter = curr
    · subst hw
      simp [hp]
    · simp [hp, hw]

/-- The inner loop pops the front half of `blocked_q`, whoever is there. -/
theorem broadcastInner_eq (waiter : PcbPtr) (fuel i : Nat) (st : PipeWake)
    (hpid : st.pid waiter ≠ 0) (hfuel : st.blockedQ.length ≤ fuel + i) :
    broadcastInner waiter fuel i st =
      { st with
        pid := assignPid st.pid waiter
          (st.blockedQ.take ((st.blockedQ.length - i + 1) / 2))
        readyQ := st.readyQ ++
          st.blockedQ.take ((st.blockedQ.length - i + 1) / 2)
        blockedQ := st.blockedQ.drop ((st.blockedQ.length - i + 1) / 2) } := by
  have hstop {st : PipeWake} {i : Nat} (h : ¬ i < st.blockedQ.length) :
      st = { st with
        pid := assignPid st.pid waiter
          (st.blockedQ.take ((st.blockedQ.length - i + 1) / 2))
        readyQ := st.readyQ ++
          st.blockedQ.take ((st.blockedQ.length - i + 1) / 2)
        blockedQ := st.blockedQ.drop
          ((st.blockedQ.length - i + 1) / 2) } := by
    have hzero : (st.blockedQ.length - i + 1) / 2 = 0 := by omega
    rw [hzero]
    simp
  induction fuel generalizing i st with
  | zero =>
      have hge : ¬ i < st.blockedQ.length := by omega
      exact hstop hge
  | succ fuel ih =>
      rw [broadcastInner]
      split
      · rename_i hlt
        split
        · rename_i hnil
          rw [hnil] at hlt
          cases hlt
        · rename_i curr blocked hcons
          have hcurr : upd st.pid curr (st.pid waiter) curr ≠ 0 := by
            rw [upd_same]
            exact hpid
          have hwaiter : upd st.pid curr (st.pid waiter) waiter =
              st.pid waiter := by
            by_cases h : waiter = curr
            · subst h
              exact upd_same _ _ _
            · exact upd_other h _ _
          simp only [if_pos hcurr]
          rw [hcons, List.length_cons] at hlt hfuel
          rw [ih (i + 1) _ (hwaiter.trans_ne hpid)
            (by simp only; omega)]
          have hcount : (blocked.length + 1 - i + 1) / 2 =
              (blocked.length - (i + 1) + 1) / 2 + 1 := by omega
          have hassign := assignPid_cons st.pid waiter curr
            (blocked.take ((blocked.length - (i + 1) + 1) / 2))
          simp only [hcons, List.length_cons, hcount, List.take_succ_cons,
            List.drop_succ_cons, List.append_assoc, List.singleton_append,
            hassign]
      · rename_i hge
        exact hstop hge

/-- The broadcast makes a round for the front half of the pipe's queue. -/
theorem broadcast_eq (fuel i : Nat) (st : PipeWake)
    (hpid : ∀ p ∈ st.queue, st.pid p ≠ 0)
    (hfuel : st.queue.length ≤ fuel + i) :
    broadcast fuel i st =
      st.wakeAll (st.queue.take ((st.queue.length - i + 1) / 2)) := by
  have hstop {st : PipeWake} {i : Nat} (h : ¬ i < st.queue.length) :
      st = st.wakeAll (st.queue.take ((st.queue.length - i + 1) / 2)) := by
    have hzero : (st.queue.length - i + 1) / 2 = 0 := by omega
    rw [hzero]
    rfl
  induction fuel generalizing i st with
  | zero =>
      have hge : ¬ i < st.queue.length := by omega
      exact hstop hge
  | succ fuel ih =>
      rw [broadcast]
      split
      · rename_i hlt
        split
        · rename_i hnil
          rw [hnil] at hlt
          cases hlt
        · rename_i waiter queue hcons
          have hwaiter : st.pid waiter ≠ 0 :=
            hpid waiter (hcons ▸ List.mem_cons_self)
          have hround : broadcastInner waiter st.blockedQ.length 0
              { st with
                queue := queue
                blockedCode := upd st.blockedCode waiter
                  Blocked.notBlocked } = st.wakeOne waiter := by
            rw [broadcastInner_eq waiter _ _ _ (by exact hwaiter)
              (Nat.le_refl _)]
            simp [PipeWake.wakeOne, rounds, hcons]
          have hqueue : (st.wakeOne waiter).queue = queue := by
            simp [PipeWake.wakeOne, hcons]
          rw [hround, ih (i + 1) _ ?_ ?_]
          · rw [hcons, List.length_cons] at hlt
            have hcount : (queue.length + 1 - i + 1) / 2 =
                (queue.length - (i + 1) + 1) / 2 + 1 := by omega
            rw [hqueue, hcons, List.length_cons, hcount, List.take_succ_cons]
            rfl
          · intro p hp
            rw [hqueue] at hp
            simp only [PipeWake.wakeOne, assignPid]
            split
            · exact hwaiter
            · exact hpid p (hcons ▸ List.mem_cons_of_mem _ hp)
          · rw [hqueue]
            rw [hcons, List.length_cons] at hfuel
            omega
      · rename_i hge
        exact hstop hge

/-- The search of `KernelPipeRead` stops at the front of `blocked_q`. -/
theorem takeBlocked_cons {pid : PcbPtr → Nat} {waiter : PcbPtr}
    (hpid : pid waiter ≠ 0) (curr : PcbPtr) (blocked : List PcbPtr)
    (limit : Nat) :
    takeBlocked waiter (limit + 1) (curr :: blocked) pid =
      (some curr, blocked, upd pid curr (pid waiter)) := by
  have hcurr : upd pid curr (pid waiter) curr ≠ 0 := by
    rw [upd_same]
    exact hpid
  rw [takeBlocked, if_pos hcurr]

/-! ## Wake-ups that only touch waiters -/

/-- In every round the processes popped from `blocked_q` are the waiter. -/
def CleanWakes : List PcbPtr → List PcbPtr → Prop
  | [], _ => True
  | waiter :: rest, blocked =>
      (∀ p ∈ blocked.take (rounds blocked), p = waiter) ∧
        CleanWakes rest (blocked.drop (rounds blocked))

theorem assignPid_clean {pid : PcbPtr → Nat} {waiter : PcbPtr}
    {popped : List PcbPtr} (h : ∀ p ∈ popped, p = waiter) :
    assignPid pid waiter popped = pid := by
  funext p
  unfold assignPid
  split
  · rename_i hp
    rw [h p hp]
  · rfl

theorem wakeAll_clean {waiters : List PcbPtr} (st : PipeWake)
    (h : CleanWakes waiters st.blockedQ) :
    ∃ moved, (st.wakeAll waiters).pid = st.pid ∧
      (st.wakeAll waiters).readyQ = st.readyQ ++ moved ∧
      st.blockedQ = moved ++ (st.wakeAll waiters).blockedQ ∧
      ∀ p ∈ moved, p ∈ waiters := by
  induction waiters generalizing st with
  | nil => exact ⟨[], by simp [PipeWake.wakeAll]⟩
  | cons waiter rest ih =>
      obtain ⟨hfirst, hrest⟩ := h
      obtain ⟨moved, hpid, hready, hblocked, hmoved⟩ :=
        ih (st.wakeOne waiter) hrest
      refine ⟨st.blockedQ.take (rounds st.blockedQ) ++ moved, ?_, ?_, ?_, ?_⟩
      · exact hpid.trans (assignPid_clean hfirst)
      · rw [PipeWake.wakeAll, hready, ← List.append_assoc]
        rfl
      · rw [PipeWake.wakeAll, List.append_assoc, ← hblocked]
        exact (List.take_append_drop _ _).symm
      · intro p hp
        rcases List.mem_append.1 hp with hp | hp
        · exact hfirst p hp ▸ List.mem_cons_self
        · exact List.mem_cons_of_mem _ (hmoved p hp)

/-- The rounds pop the queue of the pipe and reset the codes of waiters. -/
theorem wakeAll_frame (waiters : List PcbPtr) (st : PipeWake) :
    (st.wakeAll waiters).queue = st.queue.drop waiters.length ∧
      ∀ p, (st.wakeAll waiters).blockedCode p = st.blockedCode p ∨
        (st.wakeAll waiters).blockedCode p = Blocked.notBlocked ∧
          p ∈ waiters := by
  induction waiters generalizing st with
  | nil => exact ⟨rfl, fun p => .inl rfl⟩
  | cons waiter rest ih =>
      obtain ⟨hqueue, hcode⟩ := ih (st.wakeOne waiter)
      refine ⟨?_, fun p => ?_⟩
      · rw [PipeWake.wakeAll, hqueue, List.length_cons]
        simp [PipeWake.wakeOne]
      · rcases hcode p with h | ⟨h, hmem⟩
        · by_cases hp : p = waiter
          · subst hp
            refine .inr ⟨h.trans (upd_same _ _ _), List.mem_cons_self⟩
          · exact .inl (h.trans (upd_other hp _ _))
        · exact .inr ⟨h, List.mem_cons_of_mem _ hmem⟩

/-- The pids after some rounds are pids that were there before. -/
theorem wakeAll_pid_range {D : PcbPtr → Prop} {waiters : List PcbPtr}
    (st : PipeWake) (hwaiters : ∀ p ∈ waiters, D p) {p : PcbPtr} (hp : D p) :
    ∃ q, D q ∧ (st.wakeAll waiters).pid p = st.pid q := by
  induction waiters generalizing st with
  | nil => exact ⟨p, hp, rfl⟩
  | cons waiter rest ih =>
      obtain ⟨q, hq, hpid⟩ := ih (st.wakeOne waiter)
        fun x hx => hwaiters x (List.mem_cons_of_mem _ hx)
      by_cases hmem : q ∈ st.blockedQ.take (rounds st.blockedQ)
      · refine ⟨waiter, hwaiters waiter List.mem_cons_self, ?_⟩
        rw [PipeWake.wakeAll, hpid]
        exact if_pos hmem
      · refine ⟨q, hq, ?_⟩
        rw [PipeWake.wakeAll, hpid]
        exact if_neg hmem

/-- The first process that gets a foreign pid takes its own pid out of the
world, so with distinct pids the pids only survive clean rounds. -/
theorem wakeAll_exact {D : PcbPtr → Prop} {waiters : List PcbPtr}
    (st : PipeWake) (hinj : ∀ p q, D p → D q → st.pid p = st.pid q → p = q)
    (hwaiters : ∀ p ∈ waiters, D p) (hblocked : ∀ p ∈ st.blockedQ, D p)
    (h : (st.wakeAll waiters).pid = st.pid) :
    CleanWakes waiters st.blockedQ := by
  induction waiters generalizing st with
  | nil => trivial
  | cons waiter rest ih =>
      have hrest : ∀ p ∈ rest, D p :=
        fun p hp => hwaiters p (List.mem_cons_of_mem _ hp)
      have hwaiter := hwaiters waiter List.mem_cons_self
      have hfirst : ∀ p ∈ st.blockedQ.take (rounds st.blockedQ),
          p = waiter := by
        intro p hp
        by_contra hne
        have hD := hblocked p (List.mem_of_mem_take hp)
        obtain ⟨q, hq, hpid⟩ :=
          wakeAll_pid_range (st.wakeOne waiter) hrest hD
        -- nobody has the pid of `p` after this round
        have hlost : st.pid p = (st.wakeOne waiter).pid q := by
          rw [← hpid, ← h]
          rfl
        by_cases hmem : q ∈ st.blockedQ.take (rounds st.blockedQ)
        · have hone : (st.wakeOne waiter).pid q = st.pid waiter := if_pos hmem
          exact hne (hinj _ _ hD hwaiter (hlost.trans hone))
        · have hone : (st.wakeOne waiter).pid q = st.pid q := if_neg hmem
          have heq := hinj _ _ hD hq (hlost.trans hone)
          exact hmem (heq ▸ hp)
      have hpid : (st.wakeOne waiter).pid = st.pid := assignPid_clean hfirst
      refine ⟨hfirst, ih (st.wakeOne waiter) ?_ hrest ?_
        (h.trans hpid.symm)⟩
      · rw [hpid]
        exact hinj
      · exact fun p hp => hblocked p (List.mem_of_mem_drop hp)

/-! ## Wake-ups in any state -/

/-- Processes of `D` that a wake-up can give a pid or make ready. -/
structure WakesIn (D : PcbPtr → Prop) (st st' : PipeWake) : Prop where
  pid_pos : (∀ p, D p → st.pid p ≠ 0) → ∀ p, D p → st'.pid p ≠ 0
  pid_other : ∀ p, ¬ D p → st'.pid p = st.pid p
  ready : ∀ p ∈ st'.readyQ, p ∈ st.readyQ ∨ D p
  blocked : ∀ p ∈ st'.blockedQ, D p
  queue : ∀ p ∈ st'.queue, p ∈ st.queue

theorem wakeOne_in {D : PcbPtr → Prop} (st : PipeWake) {waiter : PcbPtr}
    (hwaiter : D waiter) (hblocked : ∀ p ∈ st.blockedQ, D p) :
    WakesIn D st (st.wakeOne waiter) where
  pid_pos := fun hpos p hp => by
    simp only [PipeWake.wakeOne, assignPid]
    split
    · exact hpos waiter hwaiter
    · exact hpos p hp
  pid_other := fun p hp => if_neg fun hmem =>
    hp (hblocked p (List.mem_of_mem_take hmem))
  ready := fun p hp => by
    rcases List.mem_append.1 hp with hp | hp
    · exact .inl hp
    · exact .inr (hblocked p (List.mem_of_mem_take hp))
  blocked := fun p hp => hblocked p (List.mem_of_mem_drop hp)
  queue := fun _ hp => List.mem_of_mem_tail hp

theorem wakeAll_in {D : PcbPtr → Prop} {waiters : List PcbPtr} (st : PipeWake)
    (hwaiters : ∀ p ∈ waiters, D p) (hblocked : ∀ p ∈ st.blockedQ, D p) :
    WakesIn D st (st.wakeAll waiters) := by
  induction waiters generalizing st with
  | nil => exact ⟨id, fun _ _ => rfl, fun _ => .inl, hblocked, fun _ => id⟩
  | cons waiter rest ih =>
      have hone := wakeOne_in st (hwaiters waiter List.mem_cons_self) hblocked
      have hrest := ih (st.wakeOne waiter)
        (fun p hp => hwaiters p (List.mem_cons_of_mem _ hp)) hone.blocked
      exact
        { pid_pos := fun hpos => hrest.pid_pos (hone.pid_pos hpos)
          pid_other := fun p hp =>
            (hrest.pid_other p hp).trans (hone.pid_other p hp)
          ready := fun p hp => by
            rcases hrest.ready p hp with hp | hp
            · exact hone.ready p hp
            · exact .inr hp
          blocked := hrest.blocked
          queue := fun p hp => hone.queue p (hrest.queue p hp) }

theorem wakeAfterRead_in {D : PcbPtr → Prop} (plen : Nat) (st : PipeWake)
    (hpos : ∀ p, D p → st.pid p ≠ 0) (hqueue : ∀ p ∈ st.queue, D p)
    (hblocked : ∀ p ∈ st.blockedQ, D p) :
    WakesIn D st (wakeAfterRead plen st) := by
  unfold wakeAfterRead
  cases hcons : st.queue with
  | nil => exact ⟨id, fun _ _ => rfl, fun _ => .inl, hblocked, fun _ => id⟩
  | cons waiter rest =>
      have hwaiter := hqueue waiter (hcons ▸ List.mem_cons_self)
      have htail : ∀ p ∈ rest, p ∈ st.queue := fun p hp =>
        hcons ▸ List.mem_cons_of_mem _ hp
      have hready {p : PcbPtr} {found : PcbPtr} (hfound : D found)
          (hp : p ∈ if 0 < plen then st.readyQ ++ [waiter]
            else st.readyQ ++ [found]) : p ∈ st.readyQ ∨ D p := by
        split at hp
        · rcases List.mem_append.1 hp with hp | hp
          · exact .inl hp
          · exact .inr (List.mem_singleton.1 hp ▸ hwaiter)
        · rcases List.mem_append.1 hp with hp | hp
          · exact .inl hp
          · exact .inr (List.mem_singleton.1 hp ▸ hfound)
      cases hcurr : st.blockedQ with
      | nil =>
          simp only [List.length_nil, takeBlocked]
          refine ⟨id, fun _ _ => rfl, fun p hp => ?_, nofun, htail⟩
          dsimp only at hp
          split at hp
          · rcases List.mem_append.1 hp with hp | hp
            · exact .inl hp
            · exact .inr (List.mem_singleton.1 hp ▸ hwaiter)
          · exact .inl hp
      | cons curr blocked =>
          have hD := hblocked curr (hcurr ▸ List.mem_cons_self)
          simp only [List.length_cons, takeBlocked_cons (hpos _ hwaiter)]
          refine
            { pid_pos := fun hpos p hp => ?_
              pid_other := fun p hp =>
                upd_other (fun heq : p = curr => hp (heq ▸ hD)) _ _
              ready := fun p hp => hready hD hp
              blocked := fun p hp =>
                hblocked p (hcurr ▸ List.mem_cons_of_mem _ hp)
              queue := htail }
          show upd st.pid curr (st.pid waiter) p ≠ 0
          rw [upd_apply]
          split
          · exact hpos waiter hwaiter
          · exact hpos p hp

theorem Kernel.wake_in {D : PcbPtr → Prop} {s : Kernel}
    (hpos : ∀ p, D p → s.pcb.pid p ≠ 0) (hblocked : ∀ p ∈ s.blockedQ, D p)
    {c : PipeCall} (hqueue : ∀ p ∈ (s.pipes c.pipe).queue, D p) :
    WakesIn D (s.pipeWake c.pipe) (s.wake c) := by
  cases c with
  | read p len => exact wakeAfterRead_in _ _ hpos hqueue hblocked
  | write p buf len =>
      have hclosed : s.wake (.write p buf len) = (s.pipeWake p).wakeAll
          ((s.pipes p).queue.take (rounds (s.pipes p).queue)) :=
        broadcast_eq _ _ _ (fun x hx => hpos x (hqueue x hx)) (Nat.le_refl _)
      rw [hclosed]
      exact wakeAll_in _ (fun x hx => hqueue x (List.mem_of_mem_take hx))
        hblocked

namespace Kernel

variable {s : Kernel}

/--
The exact condition.  A read that leaves bytes needs the waiter at the front of
`blocked_q`; one that leaves none may also find `blocked_q` empty; a write needs
every waiter it pops to be alone in the front half of what is left of
`blocked_q`.
-/
def WakeClean (s : Kernel) : PipeCall → Prop
  | .read p len =>
      match (s.pipes p).queue with
      | [] => True
      | waiter :: _ =>
          s.blockedQ.head? = some waiter ∨
            s.blockedQ = [] ∧ (s.pipes p).plen ≤ len
  | .write p _ _ =>
      CleanWakes ((s.pipes p).queue.take (rounds (s.pipes p).queue)) s.blockedQ

/-- The wake-up of a call changes no pid, keeps the processes of `ready_q` and
`blocked_q` together, and makes only waiters of the pipe ready. -/
structure OwnWaiters (s : Kernel) (p : PipePtr) (s' : Kernel) : Prop where
  pid : ∀ q, s'.pcb.pid q = s.pcb.pid q
  perm : (s'.readyQ ++ s'.blockedQ).Perm (s.readyQ ++ s.blockedQ)
  moved : ∀ q, s.readyQ.count q < s'.readyQ.count q →
    s'.blockedQ.count q < s.blockedQ.count q → q ∈ (s.pipes p).queue

/-- A clean wake-up moves the front of `blocked_q` to the end of `ready_q`. -/
structure MovesFront (s : Kernel) (p : PipePtr) (st : PipeWake)
    (moved : List PcbPtr) : Prop where
  pid : st.pid = s.pcb.pid
  ready : st.readyQ = s.readyQ ++ moved
  blocked : s.blockedQ = moved ++ st.blockedQ
  waiters : ∀ q ∈ moved, q ∈ (s.pipes p).queue
  queue : ∀ q ∈ st.queue, q ∈ (s.pipes p).queue
  code : ∀ q, st.blockedCode q = s.pcb.blockedCode q ∨
    st.blockedCode q = Blocked.notBlocked ∧ q ∈ (s.pipes p).queue

theorem wake_moves (hpid : ∀ p x, x ∈ (s.pipes p).queue → s.pcb.pid x ≠ 0)
    {c : PipeCall} (h : s.WakeClean c) :
    ∃ moved, s.MovesFront c.pipe (s.wake c) moved := by
  cases c with
  | read p len =>
      simp only [WakeClean] at h
      simp only [wake, wakeAfterRead, PipeCall.pipe]
      cases hqueue : (s.pipes p).queue with
      | nil =>
          refine ⟨[], ?_⟩
          simp only [pipeWake, hqueue]
          exact ⟨rfl, by simp, by simp, by simp, by simp, fun q => .inl rfl⟩
      | cons waiter rest =>
          have hwaiter := hpid p waiter (hqueue ▸ List.mem_cons_self)
          simp only [hqueue] at h
          simp only [pipeWake, hqueue]
          have htail : ∀ q ∈ rest, q ∈ (s.pipes p).queue :=
            fun q hq => hqueue ▸ List.mem_cons_of_mem _ hq
          have hcode (q : PcbPtr) :
              upd s.pcb.blockedCode waiter Blocked.notBlocked q =
                  s.pcb.blockedCode q ∨
                upd s.pcb.blockedCode waiter Blocked.notBlocked q =
                    Blocked.notBlocked ∧ q ∈ (s.pipes p).queue := by
            by_cases hq : q = waiter
            · subst hq
              exact .inr ⟨upd_same _ _ _, hqueue ▸ List.mem_cons_self⟩
            · exact .inl (upd_other hq _ _)
          cases hblocked : s.blockedQ with
          | nil =>
              have hplen : (s.pipes p).plen - len = 0 := by
                rcases h with h | h
                · simp [hblocked] at h
                · omega
              refine ⟨[], ?_⟩
              simp only [List.length_nil, takeBlocked, hplen]
              exact ⟨rfl, by simp, by simp [hblocked], by simp, htail, hcode⟩
          | cons curr blocked =>
              have hcurr : curr = waiter := by
                rcases h with h | h
                · simpa [hblocked] using h
                · simp [hblocked] at h
              subst hcurr
              refine ⟨[curr], ?_⟩
              simp only [List.length_cons, takeBlocked_cons hwaiter]
              refine ⟨Function.update_eq_self _ _, ?_, ?_, ?_, htail, hcode⟩
              · simp
              · simp [hblocked]
              · simp [hqueue]
  | write p buf len =>
      have hclosed : s.wake (.write p buf len) = (s.pipeWake p).wakeAll
          ((s.pipes p).queue.take (rounds (s.pipes p).queue)) :=
        broadcast_eq _ _ _ (fun x hx => hpid p x hx) (Nat.le_refl _)
      obtain ⟨moved, h₁, h₂, h₃, h₄⟩ :=
        wakeAll_clean (s.pipeWake p) h
      obtain ⟨hqueue, hcode⟩ := wakeAll_frame
        ((s.pipes p).queue.take (rounds (s.pipes p).queue)) (s.pipeWake p)
      refine ⟨moved, ?_⟩
      rw [hclosed]
      refine ⟨h₁, h₂, h₃, fun q hq => List.mem_of_mem_take (h₄ q hq), ?_, ?_⟩
      · intro q hq
        rw [hqueue] at hq
        exact List.mem_of_mem_drop hq
      · intro q
        rcases hcode q with h | ⟨h, hmem⟩
        · exact .inl h
        · exact .inr ⟨h, List.mem_of_mem_take hmem⟩

theorem MovesFront.own {p : PipePtr} {st : PipeWake} {moved : List PcbPtr}
    (h : s.MovesFront p st moved) {s' : Kernel} (hpid : s'.pcb.pid = st.pid)
    (hready : s'.readyQ = st.readyQ) (hblocked : s'.blockedQ = st.blockedQ) :
    s.OwnWaiters p s' where
  pid := fun q => by rw [hpid, h.pid]
  perm := by
    rw [hready, hblocked, h.ready, List.append_assoc, ← h.blocked]
  moved := fun q hq _ => by
    rw [hready, h.ready, List.count_append] at hq
    exact h.waiters q (List.count_pos_iff.1 (by omega))

/-- With distinct nonzero pids the condition is exact. -/
theorem wakeClean_of_own {D : PcbPtr → Prop}
    (hpos : ∀ p, D p → s.pcb.pid p ≠ 0)
    (hinj : ∀ p q, D p → D q → s.pcb.pid p = s.pcb.pid q → p = q)
    (hblocked : ∀ p ∈ s.blockedQ, D p)
    (hqueue : ∀ p, ∀ x ∈ (s.pipes p).queue, D x) {c : PipeCall} {s' : Kernel}
    (hpid : s'.pcb.pid = (s.wake c).pid)
    (hready : s'.readyQ = (s.wake c).readyQ)
    (hblocked' : s'.blockedQ = (s.wake c).blockedQ)
    (h : s.OwnWaiters c.pipe s') : s.WakeClean c := by
  cases c with
  | read p len =>
      simp only [WakeClean]
      cases hcons : (s.pipes p).queue with
      | nil => trivial
      | cons waiter rest =>
          have hD := hqueue p waiter (hcons ▸ List.mem_cons_self)
          simp only [wake, wakeAfterRead, pipeWake, hcons] at hpid
          simp only [wake, wakeAfterRead, pipeWake, hcons] at hready hblocked'
          cases hcurr : s.blockedQ with
          | nil =>
              refine .inr ⟨rfl, ?_⟩
              by_contra hleft
              have hperm := h.perm.length_eq
              simp only [hcurr, takeBlocked, List.length_nil] at hready
              simp only [hcurr, takeBlocked, List.length_nil] at hblocked'
              rw [hready, hblocked', if_pos (by omega), hcurr] at hperm
              simp at hperm
          | cons curr blocked =>
              simp only [hcurr, List.length_cons,
                takeBlocked_cons (hpos _ hD)] at hpid
              have hsame := h.pid curr
              rw [hpid, upd_same] at hsame
              have heq := hinj _ _ hD
                (hblocked curr (hcurr ▸ List.mem_cons_self)) hsame
              exact .inl (by rw [heq]; rfl)
  | write p buf len =>
      have hclosed : s.wake (.write p buf len) = (s.pipeWake p).wakeAll
          ((s.pipes p).queue.take (rounds (s.pipes p).queue)) :=
        broadcast_eq _ _ _ (fun x hx => hpos x (hqueue p x hx)) (Nat.le_refl _)
      refine wakeAll_exact (D := D) (s.pipeWake p) hinj
        (fun x hx => hqueue p x (List.mem_of_mem_take hx)) hblocked ?_
      funext q
      rw [← hclosed, ← hpid]
      exact h.pid q

end Kernel

end Yalnix
