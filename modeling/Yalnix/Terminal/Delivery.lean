import Yalnix.Process.Preemption
import Yalnix.Terminal.Input

/-!
# From a line of input to its reader

A receive trap puts the first reader of the terminal behind the ready processes.
When it has had its turn it returns from `TtyRead` with the front of the line,
if nobody else has read from the terminal meanwhile.
-/

namespace Yalnix

open Kernel

/-- The rest of a line does not belong to it. -/
theorem lineLength_append {bytes : List UInt8} (hline : 10 ∈ bytes)
    (more : List UInt8) : lineLength (bytes ++ more) = lineLength bytes := by
  have hmem : 10 ∈ bytes ++ more := List.mem_append_left _ hline
  unfold lineLength
  rw [if_pos hmem, if_pos hline, List.idxOf_append_of_mem hline]

namespace Kernel

variable {s : Kernel} {t : Nat} {p : PcbPtr}

/-- Only `p` takes bytes from terminal `t`. -/
def OthersDoNotRead (p : PcbPtr) (t : Nat) (s : Kernel) (a : Label) : Prop :=
  s.activePCB ≠ p → ∀ read ∈ s.completesRead a, read.1 ≠ t

instance (p : PcbPtr) (t : Nat) (s : Kernel) (a : Label) :
    Decidable (OthersDoNotRead p t s a) :=
  inferInstanceAs (Decidable (_ → ∀ _ ∈ _, _))

/-- Unless a read completes, the bytes that wait stay in front. -/
theorem take_contents {a : Label}
    (h : ∀ read ∈ s.completesRead a, read.1 ≠ t) :
    ∃ more, (s.take a).ttyContents t = s.ttyContents t ++ more := by
  have hcontents (s : Kernel) : s.ttyContents t = (s.input t).contents := rfl
  have hstep := take_inputStep (s := s) a t
  rw [hcontents, hcontents]
  generalize (s.take a).input t = i at hstep
  cases hstep with
  | receives => exact ⟨_, Input.receive_contents _ _ _⟩
  | sleeps => exact ⟨[], (List.append_nil _).symm⟩
  | reads _ hreads => exact absurd rfl (h _ hreads)
  | resumes hreads => exact absurd rfl (h _ hreads)
  | other => exact ⟨[], (List.append_nil _).symm⟩

theorem run_contents {labels : List Label} (haway : s.Away p labels)
    (hothers : TransitionSystem.Admits Kernel.take (OthersDoNotRead p t) s
      labels) :
    ∃ more, (s.run labels).ttyContents t = s.ttyContents t ++ more := by
  refine TransitionSystem.Admits.invariant
    (I := fun s' => ∃ more, s'.ttyContents t = s.ttyContents t ++ more) ?_
    ⟨[], (List.append_nil _).symm⟩ (haway.and hothers)
  rintro s' a ⟨more, hmore⟩ ⟨hother, hothers⟩
  obtain ⟨new, hnew⟩ := take_contents (hothers hother)
  exact ⟨more ++ new, by rw [hnew, hmore, List.append_assoc]⟩

theorem trapTTYReceiveHandler_core {waiting : List PcbPtr}
    (hqueue : s.ttyReadQueues t = p :: waiting) (bytes : List UInt8) :
    (s.trapTTYReceiveHandler t bytes).core =
      ((((s.setTtyReadQueue t waiting).setBlockedCode p
        Blocked.notBlocked).setReadyQ (s.readyQ ++ [p])).setMode .user).core := by
  unfold trapTTYReceiveHandler
  simp only
  split
  · rename_i hempty
    cases hqueue.symm.trans hempty
  · rename_i hcons
    cases hqueue.symm.trans hcons
    rw [toUser_core, queueAdd_core, setBlockedCode_core, setTtyReadQueue_core,
      emit_core_of_device rfl, setReadTracker_core, setReadBuffer_core]
    rfl

/-- A receive trap makes the first reader ready. -/
theorem ttyReceive_wakes {waiting : List PcbPtr}
    (hqueue : s.ttyReadQueues t = p :: waiting) (ctx : UserContext)
    (bytes : List UInt8) :
    (s.take (.trap ctx (.ttyReceive t bytes))).readyQ = s.readyQ ++ [p] ∧
      (s.take (.trap ctx (.ttyReceive t bytes))).activePCB = s.activePCB ∧
      (s.take (.trap ctx (.ttyReceive t bytes))).npcb = s.npcb ∧
      (s.take (.trap ctx (.ttyReceive t bytes))).pcb.kernelContext =
        s.pcb.kernelContext := by
  have hcore := trapTTYReceiveHandler_core (s := s.enter ctx) hqueue bytes
  exact ⟨(congrArg Kernel.readyQ hcore :), (congrArg Kernel.activePCB hcore :),
    (congrArg Kernel.npcb hcore :),
    (congrArg (fun s : Kernel => s.pcb.kernelContext) hcore :)⟩

/-- A resumed reader returns the front of the first line. -/
theorem resume_reads {len : Nat}
    (hctx : s.pcb.kernelContext s.activePCB = .kernelTtyRead t len) :
    s.resume.mode = .user ∧ s.resume.activePCB = s.activePCB ∧
      s.resume.reg0 s.activePCB =
        (min len (lineLength (s.ttyContents t)) : Nat) ∧
      .ttyReadReturn t s.activePCB ((s.ttyContents t).take
        (min len (lineLength (s.ttyContents t)))) ∈
          s.resume.history.trace := by
  have hresume : s.resume = s.ttyReadFinish t len := by
    unfold resume
    rw [hctx]
  rw [hresume]
  have hmoves : (s.ttyReadFinish t len).mode = .user ∧
      (s.ttyReadFinish t len).activePCB = s.activePCB := by
    rcases ttyReadFinish_core (s := s) t len with hcore | ⟨_, _, -, -, hcore⟩
    · exact ⟨(congrArg Kernel.mode hcore :), (congrArg Kernel.activePCB hcore :)⟩
    · exact ⟨(congrArg Kernel.mode hcore :), (congrArg Kernel.activePCB hcore :)⟩
  refine ⟨hmoves.1, hmoves.2, ttyReadFinish_reg0 len, ?_⟩
  have hlogged : .ttyReadReturn t s.activePCB ((s.input t).contents.take
      ((s.input t).taken len)) ∈ ((s.ttyReadFinish t len).input t).events := by
    rw [ttyReadFinish_input]
    exact List.mem_append_right _ (List.mem_singleton.2 rfl)
  exact (List.mem_filter.1 hlogged).1

end Kernel

/--
A line that arrives for a sleeping reader is returned to it within one clock
trap more than processes are ready, in every run in which nobody else reads from
the terminal.
-/
theorem line_reaches_reader {s : Kernel} (h : Reachable (fun _ _ => True) s)
    {t len : Nat} {p : PcbPtr} {waiting : List PcbPtr}
    (hqueue : s.ttyReadQueues t = p :: waiting)
    (hsleeps : s.pcb.kernelContext p = .kernelTtyRead t len)
    (hother : s.activePCB ≠ p) (ctx : UserContext) (bytes : List UInt8)
    (rest : List Label)
    (hadmits : s.Admits (fun _ _ => True)
      (.trap ctx (.ttyReceive t bytes) :: rest))
    (hline : 10 ∈ (s.take (.trap ctx (.ttyReceive t bytes))).ttyContents t)
    (hothers : TransitionSystem.Admits Kernel.take (OthersDoNotRead p t)
      (s.take (.trap ctx (.ttyReceive t bytes))) rest)
    (hclocks : s.readyQ.length + 1 < rest.countP Label.clocks) :
    let s₁ := s.take (.trap ctx (.ttyReceive t bytes))
    let n := min len (lineLength (s₁.ttyContents t))
    ∃ front back, rest = front ++ .resume :: back ∧
      front.countP Label.clocks ≤ s.readyQ.length + 1 ∧
      let s₂ := s₁.run (front ++ [.resume])
      s₂.mode = .user ∧ s₂.activePCB = p ∧ s₂.reg0 p = n ∧
        .ttyReadReturn t p ((s₁.ttyContents t).take n) ∈ s₂.history.trace := by
  intro s₁ n
  obtain ⟨hready, hactive, hnpcb, hcontexts⟩ :=
    ttyReceive_wakes hqueue ctx bytes
  have henabled := hadmits.1.1
  have hreach : Reachable (fun _ _ => True) s₁ :=
    .next h trivial (.take henabled)
  have hcensus := Reachable.census h henabled.live
  have hp : p < s₁.npcb := by
    rw [hnpcb]
    exact (hcensus.member p (hcensus.readers t p (by simp [hqueue]))).2
  have hk : s₁.readyQ[s.readyQ.length]? = some p := by
    rw [hready]
    simp
  have hother₁ : s₁.activePCB ≠ p := by rwa [hactive]
  obtain ⟨front, back, rfl, hcount, haway, hfront, hturn, hkernel⟩ :=
    hreach.first_turn rest hadmits.2 hk hp hother₁ hclocks
  refine ⟨front, back, rfl, hcount, ?_⟩
  obtain ⟨-, hsuspended, -⟩ :=
    hreach.run_keeps hp hother₁ hfront (.inr hkernel) haway
  obtain ⟨more, hmore⟩ := run_contents haway hothers.of_append.1
  have hctx : (s₁.run front).pcb.kernelContext (s₁.run front).activePCB =
      .kernelTtyRead t len := by
    rw [hturn]
    exact (congrArg Suspended.resumesAt hsuspended).trans
      ((congrFun hcontexts p).trans hsleeps)
  obtain ⟨hmode, hstays, hreg0, hreturned⟩ := resume_reads hctx
  -- what has arrived since is behind the line
  have hle : n ≤ (s₁.ttyContents t).length :=
    Nat.le_trans (Nat.min_le_right _ _) (lineLength_le _)
  rw [hturn, hmore, lineLength_append hline] at hreg0 hreturned
  rw [List.take_append_of_le_length hle] at hreturned
  intro s₂
  have hs₂ : s₂ = (s₁.run front).resume := run_append front [.resume]
  rw [hs₂]
  exact ⟨hmode, hstays.trans hturn, hreg0, hreturned⟩

/-- The terminal and the length of a `TtyRead` that sleeps here. -/
def KernelContext.ttyRead : KernelContext → Option (Nat × Nat)
  | .kernelTtyRead ttyId len => some (ttyId, len)
  | _ => none

theorem KernelContext.ttyRead_eq_some {c : KernelContext} {t len : Nat} :
    c.ttyRead = some (t, len) ↔ c = .kernelTtyRead t len := by
  unfold ttyRead
  split
  · simp
  · rename_i hother
    apply iff_of_false
    · simp
    · exact hother t len

/-- The parent reads, and a second line arrives before it runs. -/
theorem line_reaches_reader_two_lines :
    let s := (Boot.small 20).kernelStart.run
      (tick ++ [call (.fork 2), call (.ttyRead 0 5), .resume])
    let s₁ := s.take (.trap ⟨0, 0⟩ (.ttyReceive 0 [97, 10]))
    let rest := .trap ⟨0, 0⟩ (.ttyReceive 0 [98, 10]) :: (tick ++ tick)
    ∃ front back, rest = front ++ .resume :: back ∧
      front.countP Label.clocks ≤ 1 ∧
        .ttyReadReturn 0 1 [97, 10] ∈
          (s₁.run (front ++ [.resume])).history.trace := by
  intro s s₁ rest
  have hreach : Reachable (fun _ _ => True) s :=
    reachable_small 20 _ (by decide +kernel) (by decide +kernel)
  have hqueue : s.ttyReadQueues 0 = [1] := by decide +kernel
  have hsleeps : (s.pcb.kernelContext 1).ttyRead = some (0, 5) := by
    decide +kernel
  rw [KernelContext.ttyRead_eq_some] at hsleeps
  have hother : s.activePCB ≠ 1 := by decide +kernel
  have hadmits : s.Admits (fun _ _ => True)
      (.trap ⟨0, 0⟩ (.ttyReceive 0 [97, 10]) :: rest) := by decide +kernel
  have hline : 10 ∈ s₁.ttyContents 0 := by decide +kernel
  have hothers : TransitionSystem.Admits Kernel.take (OthersDoNotRead 1 0) s₁
      rest := by decide +kernel
  have hclocks : s.readyQ.length + 1 < rest.countP Label.clocks := by
    decide +kernel
  have hcontents : s₁.ttyContents 0 = [97, 10] := by decide +kernel
  have hlength : s.readyQ.length = 0 := by decide +kernel
  clear_value s
  obtain ⟨front, back, hsplit, hcount, -, -, -, hreturned⟩ :=
    line_reaches_reader hreach hqueue hsleeps hother ⟨0, 0⟩ [97, 10] rest hadmits
      hline hothers hclocks
  rw [hlength] at hcount
  have hreturned' : .ttyReadReturn 0 1 ((s₁.ttyContents 0).take
      (min 5 (lineLength (s₁.ttyContents 0)))) ∈
        (s₁.run (front ++ [.resume])).history.trace := hreturned
  rw [hcontents] at hreturned'
  exact ⟨front, back, hsplit, hcount, hreturned'⟩

end Yalnix
