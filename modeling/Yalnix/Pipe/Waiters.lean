import Yalnix.Process.Population

/-!
# Whom a pipe call wakes

In runs whose pipe wake-ups are clean, pids stay distinct, and then a completing
call wakes its own waiters exactly when the condition of `WakeClean` holds.
-/

namespace Yalnix

namespace Kernel

variable {s : Kernel} {a : Label} {c : PipeCall}

/-- A step that completes a pipe call copies and wakes. -/
theorem take_of_completing (h : s.completing a = some c) :
    s.take a = (s.entered a).finish c := by
  cases a with
  | trap ctx t =>
      cases t with
      | kernel call =>
          cases call with
          | pipeRead pipeId nonNull len =>
              simp only [completing] at h
              split at h
              · cases h
              · rename_i hargs
                obtain ⟨p, hpipe, hp⟩ := Option.bind_eq_some_iff.1 h
                split at hp
                · cases hp
                · rename_i hfree
                  cases hp
                  have hpipe' : (s.enter ctx).getPipe pipeId = some p := hpipe
                  simp only [not_or] at hargs hfree
                  simp only [take, handle, trapKernelHandler, kernelPipeRead,
                    hpipe', if_neg hargs.1, entered, finish]
                  rw [if_neg (not_or.2 hargs.2), if_neg (by exact hfree.1),
                    if_neg (by exact hfree.2.1), pipeReadLoop,
                    if_neg (by exact hfree.2.2)]
          | pipeWrite pipeId buf len =>
              simp only [completing] at h
              split at h
              · cases h
              · rename_i hargs
                obtain ⟨b, hbuf, h⟩ := Option.bind_eq_some_iff.1 h
                obtain ⟨p, hpipe, hp⟩ := Option.bind_eq_some_iff.1 h
                split at hp
                · cases hp
                · rename_i hfree
                  cases hp
                  have hpipe' : (s.enter ctx).getPipe pipeId = some p := hpipe
                  simp only [not_or] at hargs hfree
                  simp only [take, handle, trapKernelHandler, kernelPipeWrite,
                    hpipe', hbuf, if_neg hargs.1, entered, finish]
                  rw [if_neg (not_or.2 hargs.2), if_neg (by exact hfree.1),
                    pipeWriteLoop, if_neg (by exact hfree.2)]
          | _ => cases h
      | _ => cases h
  | resume =>
      simp only [completing] at h
      split at h
      · rename_i p len hctx
        split at h
        · cases h
        · rename_i hplen
          cases h
          simp only [take, resume, hctx, pipeReadLoop, if_neg hplen, entered,
            finish]
      · rename_i p buf len hctx
        split at h
        · cases h
        · rename_i hfree
          cases h
          simp only [take, resume, hctx, pipeWriteLoop, if_neg hfree, entered,
            finish]
      · cases h

/-- The pids and queues after a completed call. -/
theorem take_wake (h : s.completing a = some c) :
    (s.take a).pcb.pid = (s.wake c).pid ∧
      (s.take a).readyQ = (s.wake c).readyQ ∧
      (s.take a).blockedQ = (s.wake c).blockedQ := by
  have hwake : (s.entered a).wake c = s.wake c := by
    cases a with
    | trap ctx t => cases c <;> rfl
    | resume => rfl
  have hcore := finish_core (s := s.entered a) c
  rw [← take_of_completing h, hwake] at hcore
  exact ⟨(congrArg (fun k : Kernel => k.pcb.pid) hcore :),
    (congrArg Kernel.readyQ hcore :), (congrArg Kernel.blockedQ hcore :)⟩

end Kernel

instance instDecidableCleanWakes :
    (waiters blocked : List PcbPtr) → Decidable (CleanWakes waiters blocked)
  | [], _ => inferInstanceAs (Decidable True)
  | waiter :: rest, blocked =>
      have := instDecidableCleanWakes rest (blocked.drop (rounds blocked))
      inferInstanceAs (Decidable
        ((∀ p ∈ blocked.take (rounds blocked), p = waiter) ∧
          CleanWakes rest (blocked.drop (rounds blocked))))

instance (s : Kernel) : (c : PipeCall) → Decidable (s.WakeClean c)
  | .read p len =>
      match h : (s.pipes p).queue with
      | [] => isTrue (by simp only [Kernel.WakeClean, h])
      | waiter :: _ => decidable_of_iff
          (s.blockedQ.head? = some waiter ∨
            s.blockedQ = [] ∧ (s.pipes p).plen ≤ len)
          (by simp only [Kernel.WakeClean, h])
  | .write p _ _ => inferInstanceAs (Decidable
      (CleanWakes ((s.pipes p).queue.take (rounds (s.pipes p).queue))
        s.blockedQ))

instance (s : Kernel) (a : Label) : Decidable (CleanWake s a) :=
  inferInstanceAs (Decidable (∀ c ∈ s.completing a, s.WakeClean c))

/--
In a run whose completed pipe calls all met the condition, a completing pipe
call changes no pid, keeps the processes of `ready_q` and `blocked_q` together
and makes only its own waiters ready, if and only if it meets the condition too.
-/
theorem pipe_wakes_own_waiters_iff {s : Kernel} (h : Reachable CleanWake s)
    {a : Label} (henabled : a.Enabled s) {c : PipeCall}
    (hcompleting : s.completing a = some c) :
    s.OwnWaiters c.pipe (s.take a) ↔ s.WakeClean c := by
  have hs := h.population (fun _ _ h => h) henabled.live
  obtain ⟨hpid, hready, hblocked⟩ := Kernel.take_wake hcompleting
  constructor
  · exact Kernel.wakeClean_of_own (D := s.Member) hs.pid_pos hs.pid_inj
      hs.blocked hs.pipes hpid hready hblocked
  · intro hclean
    obtain ⟨moved, hmoves⟩ := Kernel.wake_moves
      (fun p x hx => hs.pid_pos x (hs.pipes p x hx)) hclean
    exact hmoves.own hpid hready hblocked

/-- A write that wakes the only reader asleep. -/
theorem pipe_wakes_own_waiters_one_reader :
    let labels := tick ++ [call (.fork 2), call (.pipeInit true),
      call (.pipeRead 5102 true 1), .resume]
    let s := (Boot.small 20).kernelStart.run labels
    let a := call (.pipeWrite 5102 (some fun _ => 7) 1)
    s.blockedQ = [1] ∧ (s.take a).readyQ = [1] ∧
      s.OwnWaiters 1 (s.take a) := by
  intro labels s a
  have hreach : Reachable CleanWake s :=
    reachable_small 20 labels (by decide +kernel) (by decide +kernel)
  obtain ⟨c, hc⟩ := Option.isSome_iff_exists.1
    (show (s.completing a).isSome = true by decide +kernel)
  have hpipe : ∀ c ∈ s.completing a, c.pipe = 1 ∧ s.WakeClean c := by
    decide +kernel
  obtain ⟨hone, hclean⟩ := hpipe c hc
  have hown := (pipe_wakes_own_waiters_iff hreach (by decide +kernel) hc).2
    hclean
  rw [hone] at hown
  exact ⟨by decide +kernel, by decide +kernel, hown⟩

/-- A process in `Delay` stands before the reader in `blocked_q`: the write
gives it the reader's pid and makes it ready. -/
theorem pipe_wake_renames_sleeper :
    ¬ ∀ (s : Kernel) (a : Label) (c : PipeCall),
      Reachable (fun _ _ => True) s → a.Enabled s →
        s.completing a = some c → s.OwnWaiters c.pipe (s.take a) := by
  intro hall
  let labels := tick ++ [call (.fork 2), call (.fork 3), call (.pipeInit true),
    call (.delay 5), .resume, call (.pipeRead 5102 true 1), .resume]
  let s := (Boot.small 20).kernelStart.run labels
  let a := call (.pipeWrite 5102 (some fun _ => 7) 1)
  have hreach : Reachable (fun _ _ => True) s :=
    reachable_small 20 labels (by decide +kernel) (by decide +kernel)
  obtain ⟨c, hc⟩ := Option.isSome_iff_exists.1
    (show (s.completing a).isSome = true by decide +kernel)
  have hown := hall s a c hreach (by decide +kernel) hc
  have hpid : (s.take a).pcb.pid 1 ≠ s.pcb.pid 1 := by decide +kernel
  exact hpid (hown.pid 1)

/-! ## Broadcasts -/

/-- The pipe's queue is empty, and each of its waiters is ready, once, and no
longer blocked. -/
structure AllWoken (s : Kernel) (p : PipePtr) (s' : Kernel) : Prop where
  queue : (s'.pipes p).queue = []
  ready : ∀ q ∈ (s.pipes p).queue, s'.readyQ.count q = 1
  blocked : ∀ q ∈ (s.pipes p).queue, q ∉ s'.blockedQ

/-- The pipe has no waiter, or one.  That one stands once in `ready_q` and the
front half of `blocked_q` together, and not in the other half. -/
def Kernel.WakesAll (s : Kernel) (p : PipePtr) : Prop :=
  match (s.pipes p).queue with
  | [] => True
  | [waiter] =>
      (s.readyQ ++ s.blockedQ.take (rounds s.blockedQ)).count waiter = 1 ∧
        waiter ∉ s.blockedQ.drop (rounds s.blockedQ)
  | _ => False

namespace Kernel

variable {s : Kernel}

/-- A `PipeWrite` that completes in its call does so on the pipe it names. -/
theorem completing_pipeWrite {ctx : UserContext} {pipeId len : Int}
    {buf : Buffer} {p : PipePtr} (hpipe : s.getPipe pipeId = some p)
    (h : (s.completing (.trap ctx (.kernel
      (.pipeWrite pipeId (some buf) len)))).isSome = true) :
    s.completing (.trap ctx (.kernel (.pipeWrite pipeId (some buf) len))) =
      some (.write p buf len.toNat) := by
  unfold completing at h ⊢
  simp only [hpipe, Option.bind_some] at h ⊢
  split at h
  · cases h
  · rename_i hargs
    rw [if_neg hargs]
    split at h
    · cases h
    · rename_i hfree
      rw [if_neg hfree]

/-- The rounds of the broadcast, in closed form. -/
theorem wake_write {p : PipePtr} {buf : Buffer} {len : Nat}
    (hpid : ∀ q ∈ (s.pipes p).queue, s.pcb.pid q ≠ 0) :
    s.wake (.write p buf len) = (s.pipeWake p).wakeAll
      ((s.pipes p).queue.take (rounds (s.pipes p).queue)) :=
  broadcast_eq _ _ _ hpid (Nat.le_refl _)

/-- The pipe's queue after a completed call. -/
theorem take_wake_queue {a : Label} {c : PipeCall}
    (h : s.completing a = some c) :
    ((s.take a).pipes c.pipe).queue = (s.wake c).queue := by
  have hcore := finish_core (s := s.entered a) c
  rw [← take_of_completing h] at hcore
  have hwake : (s.entered a).wake c = s.wake c := by
    cases a with
    | trap ctx t => cases c <;> rfl
    | resume => rfl
  have hqueue : ((s.take a).core.pipes c.pipe).queue =
      ((s.entered a).wake c).queue := by
    rw [hcore]
    simp [afterWake, setPipe, setMode]
  rw [← hwake, ← hqueue]
  rfl

/-- The broadcast makes half of the rounds it should make, each over half of
`blocked_q`. -/
theorem allWoken_iff {p : PipePtr} {s' : Kernel}
    (hqueue : (s'.pipes p).queue = ((s.pipeWake p).wakeAll
      ((s.pipes p).queue.take (rounds (s.pipes p).queue))).queue)
    (hready : s'.readyQ = ((s.pipeWake p).wakeAll
      ((s.pipes p).queue.take (rounds (s.pipes p).queue))).readyQ)
    (hblocked : s'.blockedQ = ((s.pipeWake p).wakeAll
      ((s.pipes p).queue.take (rounds (s.pipes p).queue))).blockedQ) :
    AllWoken s p s' ↔ s.WakesAll p := by
  rw [(wakeAll_frame _ _).1] at hqueue
  unfold WakesAll
  cases hcons : (s.pipes p).queue with
  | nil =>
      have hnone (q : PcbPtr) : q ∉ (s.pipes p).queue := by
        rw [hcons]
        exact List.not_mem_nil
      simp only [iff_true]
      constructor
      · rw [hqueue]
        simp only [pipeWake, hcons, List.drop_nil]
      · exact fun q hq => absurd hq (hnone q)
      · exact fun q hq => absurd hq (hnone q)
  | cons waiter rest =>
      cases rest with
      | nil =>
          have hone : (s.pipes p).queue.take (rounds (s.pipes p).queue) =
              [waiter] := by simp [hcons, rounds]
          rw [hone] at hqueue hready hblocked
          have hready' : s'.readyQ =
              s.readyQ ++ s.blockedQ.take (rounds s.blockedQ) := hready
          have hblocked' : s'.blockedQ =
              s.blockedQ.drop (rounds s.blockedQ) := hblocked
          have hempty : (s'.pipes p).queue = [] := by
            rw [hqueue]
            simp only [pipeWake, hcons]
            rfl
          simp only
          rw [← hready', ← hblocked']
          constructor
          · intro h
            have hmem : waiter ∈ (s.pipes p).queue := by
              rw [hcons]
              exact List.mem_cons_self
            exact ⟨h.ready waiter hmem, h.blocked waiter hmem⟩
          · rintro ⟨hcount, hnot⟩
            constructor
            · exact hempty
            · intro q hq
              rw [hcons] at hq
              rw [List.mem_singleton.1 hq]
              exact hcount
            · intro q hq
              rw [hcons] at hq
              rw [List.mem_singleton.1 hq]
              exact hnot
      | cons second rest =>
          simp only [iff_false]
          intro h
          have hempty := h.queue
          rw [hqueue] at hempty
          have hlength := congrArg List.length hempty
          simp only [pipeWake, hcons, rounds, List.length_drop,
            List.length_take, List.length_cons, List.length_nil] at hlength
          omega

end Kernel

/--
When a `PipeWrite` completes, it has woken every waiter of its pipe if and only
if there is none, or one that the front half of `blocked_q` holds.
-/
theorem pipeWrite_wakes_all_iff {s : Kernel}
    (h : Reachable (fun _ _ => True) s) {a : Label} (henabled : a.Enabled s)
    {p : PipePtr} {buf : Buffer} {len : Nat}
    (hcompleting : s.completing a = some (.write p buf len)) :
    AllWoken s p (s.take a) ↔ s.WakesAll p := by
  have hs := h.census henabled.live
  obtain ⟨-, hready, hblocked⟩ := Kernel.take_wake hcompleting
  have hqueue := Kernel.take_wake_queue hcompleting
  rw [Kernel.wake_write fun q hq => hs.pid_pos q (hs.pipes p q hq)]
    at hready hblocked hqueue
  exact Kernel.allWoken_iff hqueue hready hblocked

/-- A reader that sleeps alone is woken. -/
theorem pipeWrite_wakes_all_one_reader :
    let labels := tick ++ [call (.fork 2), call (.pipeInit true),
      call (.pipeRead 5102 true 1), .resume]
    let s := (Boot.small 20).kernelStart.run labels
    let a := call (.pipeWrite 5102 (some fun _ => 7) 1)
    (s.pipes 1).queue = [1] ∧ AllWoken s 1 (s.take a) := by
  intro labels s a
  have hreach : Reachable (fun _ _ => True) s :=
    reachable_small 20 labels (by decide +kernel) (by decide +kernel)
  have hcompleting : s.completing a = some (.write 1 (fun _ => 7) 1) :=
    Kernel.completing_pipeWrite (by decide +kernel) (by decide +kernel)
  have hqueue : (s.pipes 1).queue = [1] := by decide +kernel
  have hblocked : s.blockedQ = [1] := by decide +kernel
  have hready : s.readyQ = [] := by decide +kernel
  have henabled : a.Enabled s := by decide +kernel
  clear_value s a
  have hwakes : s.WakesAll 1 := by
    unfold Kernel.WakesAll
    rw [hqueue, hready, hblocked]
    decide
  exact ⟨hqueue, (pipeWrite_wakes_all_iff hreach henabled hcompleting).2 hwakes⟩

/-- Of two readers asleep in an empty pipe a write wakes one. -/
theorem pipeWrite_leaves_reader_asleep :
    ¬ ∀ (s : Kernel) (a : Label) (p : PipePtr) (buf : Buffer) (len : Nat),
      Reachable (fun _ _ => True) s → a.Enabled s →
        s.completing a = some (.write p buf len) →
          (∀ q ∈ (s.pipes p).queue, s.blockedQ.count q = 1 ∧
            q ∉ s.readyQ) → AllWoken s p (s.take a) := by
  intro hall
  let labels := tick ++ [call (.fork 2), call (.fork 3), call (.pipeInit true),
    call (.pipeRead 5102 true 1), .resume, call (.pipeRead 5102 true 1),
    .resume]
  let s := (Boot.small 20).kernelStart.run labels
  let a := call (.pipeWrite 5102 (some fun _ => 7) 1)
  have hreach : Reachable (fun _ _ => True) s :=
    reachable_small 20 labels (by decide +kernel) (by decide +kernel)
  have hcompleting : s.completing a = some (.write 1 (fun _ => 7) 1) :=
    Kernel.completing_pipeWrite (by decide +kernel) (by decide +kernel)
  have hwoken := hall s a 1 (fun _ => 7) 1 hreach (by decide +kernel)
    hcompleting (by decide +kernel)
  have hqueue : ((s.take a).pipes 1).queue ≠ [] := by decide +kernel
  exact hqueue hwoken.queue

end Yalnix
