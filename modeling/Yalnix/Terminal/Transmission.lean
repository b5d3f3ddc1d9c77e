import Mathlib.Data.List.Induction
import Yalnix.Kernel.Frame

/-!
# Terminal transmissions do not overlap

A terminal is busy from a `TtyTransmit` to the transmit trap that reports its
end.  `ttyWriteTrackers` follows the terminal: it is closed by the only code
that transmits and opened by the only code that handles the trap, and the
former runs only with the tracker open.
-/

namespace Yalnix

/-! ## Busy terminals -/

/-- The events that start or end a transmission. -/
def Event.onLine : Event → Bool
  | .ttyTransmit _ _ _ => true
  | .ttyTransmitTrap _ => true
  | _ => false

/-- One event seen by an observer of terminal `t`. -/
def observeLine (t : Nat) (busy : Bool) : Event → Bool
  | .ttyTransmit t' _ _ => if t' = t then true else busy
  | .ttyTransmitTrap t' => if t' = t then false else busy
  | _ => busy

/-- Whether a transmission on `t` is outstanding after the events. -/
def outstanding (t : Nat) (events : List Event) : Bool :=
  events.foldl (observeLine t) false

/-- Every `TtyTransmit` on `t` finds no transmission outstanding. -/
def NoOverlap (t : Nat) (events : List Event) : Prop :=
  ∀ before process chunk after,
    events = before ++ .ttyTransmit t process chunk :: after →
      outstanding t before = false

theorem outstanding_append (t : Nat) (events : List Event) (e : Event) :
    outstanding t (events ++ [e]) = observeLine t (outstanding t events) e := by
  simp [outstanding]

theorem observeLine_of_not_onLine (t : Nat) (busy : Bool) {e : Event}
    (h : e.onLine = false) : observeLine t busy e = busy := by
  cases e with
  | ttyTransmit _ _ _ => cases h
  | ttyTransmitTrap _ => cases h
  | _ => rfl

/-- Other events do not matter to the observer. -/
theorem outstanding_filter (t : Nat) (events : List Event) :
    outstanding t (events.filter Event.onLine) = outstanding t events := by
  induction events using List.reverseRecOn with
  | nil => rfl
  | append_singleton events e ih =>
      rw [outstanding_append, List.filter_append]
      cases he : e.onLine with
      | false =>
          rw [observeLine_of_not_onLine t _ he]
          simpa [he] using ih
      | true =>
          have hlast : List.filter Event.onLine [e] = [e] := by simp [he]
          rw [hlast, outstanding_append, ih]

theorem NoOverlap.of_filter {t : Nat} {events : List Event}
    (h : NoOverlap t (events.filter Event.onLine)) : NoOverlap t events := by
  intro before process chunk after heq
  rw [← outstanding_filter]
  apply h (before.filter Event.onLine) process chunk
    (after.filter Event.onLine)
  rw [heq, List.filter_append]
  rfl

theorem NoOverlap.append {t : Nat} {events : List Event} {e : Event}
    (h : NoOverlap t events)
    (hlast : ∀ process chunk, e = .ttyTransmit t process chunk →
      outstanding t events = false) :
    NoOverlap t (events ++ [e]) := by
  intro before process chunk after heq
  rcases List.eq_nil_or_concat after with rfl | ⟨init, last, rfl⟩
  · obtain ⟨hevents, he⟩ := List.append_inj' heq rfl
    rw [← hevents]
    exact hlast process chunk (List.singleton_inj.1 he)
  · have hsplit : events ++ [e] =
        (before ++ .ttyTransmit t process chunk :: init) ++ [last] := by
      simpa using heq
    exact h before process chunk init (List.append_inj' hsplit rfl).1

/-! ## The tracker follows the terminal -/

/-- What the kernel and the terminals know about transmissions. -/
structure Lines where
  trackers : Nat → TerminalStatus
  transmitting : Nat → Nat
  events : List Event

/-- No overlap so far, and the tracker tells whether the terminal is busy. -/
structure Lines.Tracked (l : Lines) (t : Nat) : Prop where
  apart : NoOverlap t l.events
  closed_iff : l.trackers t = .terminalClosed ↔ outstanding t l.events = true
  count : l.transmitting t = if outstanding t l.events then 1 else 0

namespace Lines

variable {l : Lines} {t : Nat}

def transmit (l : Lines) (t : Nat) (process : PcbPtr) (chunk : List UInt8) :
    Lines :=
  { trackers := upd l.trackers t .terminalClosed
    transmitting := upd l.transmitting t (l.transmitting t + 1)
    events := l.events ++ [.ttyTransmit t process chunk] }

def finish (l : Lines) (t : Nat) : Lines :=
  { trackers := upd l.trackers t .terminalOpen
    transmitting := upd l.transmitting t (l.transmitting t - 1)
    events := l.events ++ [.ttyTransmitTrap t] }

theorem Tracked.not_outstanding (h : l.Tracked t)
    (hopen : l.trackers t ≠ .terminalClosed) :
    outstanding t l.events = false := by
  cases hout : outstanding t l.events with
  | false => rfl
  | true => exact absurd (h.closed_iff.2 hout) hopen

/-- A transmission on an open terminal `u` keeps every terminal tracked. -/
theorem Tracked.transmit (u : Nat) (h : ∀ t, l.Tracked t)
    (hopen : l.trackers u ≠ .terminalClosed) (process : PcbPtr)
    (chunk : List UInt8) (t : Nat) : (l.transmit u process chunk).Tracked t := by
  have hidle := (h u).not_outstanding hopen
  have hout : outstanding t (l.transmit u process chunk).events =
      if u = t then true else outstanding t l.events := outstanding_append t _ _
  have happart : NoOverlap t (l.transmit u process chunk).events :=
    (h t).apart.append fun p c heq => by
      cases heq
      exact hidle
  refine ⟨happart, ?_, ?_⟩
  · rw [hout]
    by_cases hu : u = t
    · subst hu
      simp [Lines.transmit]
    · simp only [Lines.transmit, if_neg hu, Function.update_of_ne (Ne.symm hu)]
      exact (h t).closed_iff
  · rw [hout]
    by_cases hu : u = t
    · subst hu
      simp [Lines.transmit, (h u).count, hidle]
    · simp only [Lines.transmit, if_neg hu, Function.update_of_ne (Ne.symm hu)]
      exact (h t).count

/-- The end of the outstanding transmission on `u` keeps every terminal
tracked. -/
theorem Tracked.finish (u : Nat) (h : ∀ t, l.Tracked t) (t : Nat) :
    (l.finish u).Tracked t := by
  have hout : outstanding t (l.finish u).events =
      if u = t then false else outstanding t l.events := outstanding_append t _ _
  have happart : NoOverlap t (l.finish u).events :=
    (h t).apart.append fun p c heq => by cases heq
  refine ⟨happart, ?_, ?_⟩
  · rw [hout]
    by_cases hu : u = t
    · subst hu
      simp [Lines.finish]
    · simp only [Lines.finish, if_neg hu, Function.update_of_ne (Ne.symm hu)]
      exact (h t).closed_iff
  · rw [hout]
    by_cases hu : u = t
    · subst hu
      have hcount := (h u).count
      simp only [Lines.finish, Function.update_self, if_true]
      split at hcount <;> simp [hcount]
    · simp only [Lines.finish, if_neg hu, Function.update_of_ne (Ne.symm hu)]
      exact (h t).count

end Lines

/-! ## The kernel -/

namespace Kernel

variable {s s' : Kernel}

def lines (s : Kernel) : Lines :=
  { trackers := s.ttyWriteTrackers
    transmitting := s.transmitting
    events := s.history.trace.filter Event.onLine }

theorem lines_of_devices (h : s'.devices = s.devices) : s'.lines = s.lines := by
  have hfilter (events : List Event) :
      (events.filter Event.atDevice).filter Event.onLine =
        events.filter Event.onLine := by
    rw [List.filter_filter]
    refine List.filter_congr fun e _ => ?_
    cases e <;> rfl
  have htrackers := congrArg Devices.writeTrackers h
  have htransmitting := congrArg Devices.transmitting h
  have hevents := congrArg (fun d => d.events.filter Event.onLine) h
  simp only [devices, hfilter] at htrackers htransmitting hevents
  simp only [lines, htrackers, htransmitting, hevents]

theorem emit_lines {e : Event} (h : e.onLine = false) :
    (s.emit e).lines = s.lines := by
  unfold lines emit setHistory
  simp only [List.filter_append, List.filter_cons, h, List.filter_nil,
    Bool.false_eq_true, if_false, List.append_nil]

@[simp] theorem setReadBuffer_lines (t : Nat) (buf : Buffer) :
    (s.setReadBuffer t buf).lines = s.lines := rfl

@[simp] theorem setReadTracker_lines (t n : Nat) :
    (s.setReadTracker t n).lines = s.lines := rfl

@[simp] theorem setPipe_lines (p : PipePtr) (pipe : Pipe) :
    (s.setPipe p pipe).lines = s.lines := rfl

@[simp] theorem ret_lines (result : Int) : (s.ret result).lines = s.lines := rfl

@[simp] theorem toUser_lines : s.toUser.lines = s.lines := rfl

@[simp] theorem setBlockedCode_lines (p : PcbPtr) (code : Int) :
    (s.setBlockedCode p code).lines = s.lines := rfl

@[simp] theorem setTtyTerminal_lines (p : PcbPtr) (t : Nat) :
    (s.setTtyTerminal p t).lines = s.lines := rfl

@[simp] theorem setTtyReadQueue_lines (t : Nat) (q : List PcbPtr) :
    (s.setTtyReadQueue t q).lines = s.lines := rfl

@[simp] theorem setTtyWriteQueue_lines (t : Nat) (q : List PcbPtr) :
    (s.setTtyWriteQueue t q).lines = s.lines := rfl

@[simp] theorem queueAdd_lines (q : Option QueueRef) (p : PcbPtr) :
    (s.queueAdd q p).lines = s.lines :=
  lines_of_devices (queueAdd_devices q p)

@[simp] theorem swapProcess_lines (q : Option QueueRef) (k : KernelContext) :
    (s.swapProcess q k).lines = s.lines :=
  lines_of_devices (swapProcess_devices q k)

@[simp] theorem checkBlocked_lines (p : PcbPtr) :
    (s.checkBlocked p).2.lines = s.lines :=
  lines_of_devices (checkBlocked_devices p)

theorem ttyReadFinish_lines (t len : Nat) :
    (s.ttyReadFinish t len).lines = s.lines := by
  unfold ttyReadFinish
  simp only
  split
  · rw [ret_lines, emit_lines rfl, setReadTracker_lines, setReadBuffer_lines]
  · split
    · rw [ret_lines, queueAdd_lines, setBlockedCode_lines, emit_lines rfl,
        setReadTracker_lines, setReadBuffer_lines]
    · rw [ret_lines, emit_lines rfl, setReadTracker_lines,
        setReadBuffer_lines]

theorem kernelTtyRead_lines (ttyId len : Int) :
    (s.kernelTtyRead ttyId len).lines = s.lines := by
  unfold kernelTtyRead
  split
  · rfl
  · split
    · rfl
    · split
      · rfl
      · simp only
        split
        · rw [swapProcess_lines, setTtyTerminal_lines, setBlockedCode_lines,
            emit_lines rfl]
        · rw [ttyReadFinish_lines, emit_lines rfl]

theorem trapTTYReceiveHandler_lines (t : Nat) (bytes : List UInt8) :
    (s.trapTTYReceiveHandler t bytes).lines = s.lines := by
  unfold trapTTYReceiveHandler
  simp only
  split
  · rw [toUser_lines, emit_lines rfl, setReadTracker_lines,
      setReadBuffer_lines]
  · rw [toUser_lines, queueAdd_lines, setBlockedCode_lines,
      setTtyReadQueue_lines, emit_lines rfl, setReadTracker_lines,
      setReadBuffer_lines]

theorem afterWake_lines (p : PipePtr) (st : PipeWake) :
    (s.afterWake p st).lines = s.lines := rfl

theorem pipeSleep_lines (p : PipePtr) (code : Int) (k : KernelContext) :
    (s.pipeSleep p code k).lines = s.lines := by
  simp [pipeSleep]

theorem pipeReadLoop_lines (p : PipePtr) (len : Nat) :
    (s.pipeReadLoop p len).lines = s.lines := by
  unfold pipeReadLoop
  split
  · exact pipeSleep_lines _ _ _
  · rw [pipeReadFinish, ret_lines, afterWake_lines, setPipe_lines,
      emit_lines rfl]

theorem kernelPipeRead_lines (pipeId : Int) (nonNull : Bool) (len : Int) :
    (s.kernelPipeRead pipeId nonNull len).lines = s.lines := by
  unfold kernelPipeRead
  split
  · rfl
  · split
    · rfl
    · split
      · rfl
      · split
        · rfl
        · split
          · exact pipeSleep_lines _ _ _
          · exact pipeReadLoop_lines _ _

theorem pipeWriteLoop_lines (p : PipePtr) (buf : Buffer) (len : Nat) :
    (s.pipeWriteLoop p buf len).lines = s.lines := by
  unfold pipeWriteLoop
  split
  · exact pipeSleep_lines _ _ _
  · rw [pipeWriteFinish, ret_lines, afterWake_lines, setPipe_lines,
      emit_lines rfl]

theorem kernelPipeWrite_lines (pipeId : Int) (buf : Option Buffer)
    (len : Int) : (s.kernelPipeWrite pipeId buf len).lines = s.lines := by
  unfold kernelPipeWrite
  split
  · rfl
  · split
    · rfl
    · split
      · rfl
      · split
        · rfl
        · split
          · rfl
          · exact pipeWriteLoop_lines _ _ _

theorem ttyWriteFinish_lines (t written : Nat) :
    (s.ttyWriteFinish t written).lines = s.lines := by
  unfold ttyWriteFinish
  simp only
  split
  · rw [ret_lines, emit_lines rfl, setTtyWriteQueue_lines]
  · rw [ret_lines, queueAdd_lines, setBlockedCode_lines, emit_lines rfl,
      setTtyWriteQueue_lines]

theorem ttyTransmit_lines (t : Nat) (chunk : List UInt8) :
    ((s.setWriteTracker t .terminalClosed).ttyTransmit t chunk).lines =
      s.lines.transmit t s.activePCB chunk := by
  simp [lines, Lines.transmit, ttyTransmit, setWriteTracker, setTransmitting,
    emit, setHistory, Event.onLine]

/-- Each round of the loop transmits on an open terminal or not at all. -/
theorem ttyWriteLoop_tracked (t : Nat) (buf : Buffer) (len rounds : Nat)
    {left written : Nat} (h : ∀ u, s.lines.Tracked u) (u : Nat) :
    (ttyWriteLoop t buf len rounds left written s).lines.Tracked u := by
  induction rounds generalizing s left written with
  | zero =>
      rw [ttyWriteLoop, ttyWriteFinish_lines]
      exact h u
  | succ rounds ih =>
      rw [ttyWriteLoop]
      split
      · rw [ttyWriteFinish_lines]
        exact h u
      · split
        · simp only [swapProcess_lines, setTtyTerminal_lines,
            setBlockedCode_lines]
          exact h u
        · rename_i hopen
          apply ih
          intro v
          rw [ttyTransmit_lines]
          exact Lines.Tracked.transmit t h hopen _ _ v

theorem kernelTtyWrite_tracked (ttyId : Int) (buf : Buffer) (len : Int)
    (h : ∀ u, s.lines.Tracked u) (u : Nat) :
    (s.kernelTtyWrite ttyId buf len).lines.Tracked u := by
  unfold kernelTtyWrite
  split
  · exact h u
  · split
    · exact h u
    · split
      · exact h u
      · simp only
        split
        · rw [swapProcess_lines, setTtyTerminal_lines, setBlockedCode_lines,
            emit_lines rfl, setTtyWriteQueue_lines]
          exact h u
        · apply ttyWriteLoop_tracked
          intro v
          rw [emit_lines rfl, setTtyWriteQueue_lines]
          exact h v

theorem trapTTYTransmitHandler_lines (t : Nat) :
    (s.trapTTYTransmitHandler t).lines = s.lines.finish t := by
  have hopen : (((s.emit (.ttyTransmitTrap t)).setTransmitting t
      (s.transmitting t - 1)).setWriteTracker t .terminalOpen).lines =
      s.lines.finish t := by
    simp [lines, Lines.finish, setWriteTracker, setTransmitting, emit,
      setHistory, Event.onLine]
  unfold trapTTYTransmitHandler
  simp only
  split
  · exact hopen
  · split
    · simp only [toUser_lines, queueAdd_lines, checkBlocked_lines]
      exact hopen
    · exact hopen

/-- A system call keeps the trackers in step with the terminals. -/
theorem trapKernelHandler_tracked (call : Syscall)
    (h : ∀ u, s.lines.Tracked u) (u : Nat) :
    (s.trapKernelHandler call).lines.Tracked u := by
  cases hdevice : call.usesDevice with
  | false =>
      rw [lines_of_devices (trapKernelHandler_devices hdevice)]
      exact h u
  | true =>
      cases call with
      | ttyRead ttyId len =>
          rw [trapKernelHandler, kernelTtyRead_lines]
          exact h u
      | ttyWrite ttyId buf len => exact kernelTtyWrite_tracked _ _ _ h u
      | pipeInit nonNull =>
          rw [trapKernelHandler, kernelPipeInit]
          split
          · exact h u
          · rw [ret_lines, emit_lines rfl]
            exact h u
      | pipeRead pipeId nonNull len =>
          rw [trapKernelHandler, kernelPipeRead_lines]
          exact h u
      | pipeWrite pipeId buf len =>
          rw [trapKernelHandler, kernelPipeWrite_lines]
          exact h u
      | _ => cases hdevice

theorem handle_tracked (t : Trap) (h : ∀ u, s.lines.Tracked u) (u : Nat) :
    (s.handle t).lines.Tracked u := by
  cases t with
  | kernel call => exact trapKernelHandler_tracked call h u
  | clock =>
      rw [handle, trapClockHandler, swapProcess_lines]
      exact h u
  | illegal =>
      rw [handle, trapIllegalHandler, trapFaultHandler, swapProcess_lines]
      exact h u
  | math =>
      rw [handle, trapMathHandler, trapFaultHandler, swapProcess_lines]
      exact h u
  | memory addr beyondValid =>
      rw [handle, lines_of_devices (trapMemoryHandler_devices _ _)]
      exact h u
  | ttyReceive t bytes =>
      rw [handle, trapTTYReceiveHandler_lines]
      exact h u
  | ttyTransmit t =>
      rw [handle, trapTTYTransmitHandler_lines]
      exact Lines.Tracked.finish t h u

theorem resume_tracked (h : ∀ u, s.lines.Tracked u) (u : Nat) :
    s.resume.lines.Tracked u := by
  unfold resume
  split
  · exact h u
  · exact h u
  · rw [toUser_lines, lines_of_devices (blockedScan_devices _)]
    exact h u
  · exact h u
  · exact h u
  · rw [lines_of_devices (kernelWaitResume_devices _)]
    exact h u
  · exact h u
  · rw [ttyReadFinish_lines]
    exact h u
  · exact ttyWriteLoop_tracked _ _ _ _ h u
  · rw [pipeReadLoop_lines]
    exact h u
  · rw [pipeWriteLoop_lines]
    exact h u
  · exact h u
  · rw [lines_of_devices (kernelAcquire_devices _)]
    exact h u

end Kernel

/-- At boot every terminal is open and nothing was transmitted. -/
theorem Booted.tracked {s : Kernel} (h : Booted s) (u : Nat) :
    s.lines.Tracked u := by
  obtain ⟨b, -, rfl, hmode⟩ := h
  rw [Kernel.lines_of_devices (Boot.kernelStart_devices hmode)]
  exact
    { apart := fun before p c after heq => by
        simp [Kernel.lines, Boot.setUpGlobals] at heq
      closed_iff := by simp [Kernel.lines, Boot.setUpGlobals, outstanding]
      count := by simp [Kernel.lines, Boot.setUpGlobals, outstanding] }

theorem Reachable.tracked {guard : Kernel → Label → Prop} {s : Kernel}
    (h : Reachable guard s) (u : Nat) : s.lines.Tracked u := by
  refine h.invariant (P := fun s => ∀ u, s.lines.Tracked u)
    (fun s hs => hs.tracked) ?_ u
  intro s a s' _ ih _ hstep
  cases hstep with
  | take henabled =>
      cases a with
      | trap ctx t => exact Kernel.handle_tracked t ih
      | resume => exact Kernel.resume_tracked ih

/--
In every run, every `TtyTransmit` finds the previous one on its terminal
finished, and between the steps the tracker is closed exactly when a
transmission is outstanding.
-/
theorem ttyTransmit_never_overlaps {s : Kernel}
    (h : Reachable (fun _ _ => True) s) (t : Nat) :
    NoOverlap t s.history.trace ∧
      (s.ttyWriteTrackers t = .terminalClosed ↔
        outstanding t s.history.trace = true) ∧
      s.transmitting t = if outstanding t s.history.trace then 1 else 0 := by
  have htracked := h.tracked t
  have hclosed := htracked.closed_iff
  have hcount := htracked.count
  simp only [Kernel.lines, outstanding_filter] at hclosed hcount
  exact ⟨htracked.apart.of_filter, hclosed, hcount⟩

/-- Two chunks of one call, with the trap between them. -/
theorem ttyTransmit_never_overlaps_two_chunks :
    let labels := tick ++ [call (.fork 2),
      call (.ttyWrite 0 (fun _ => 65) 1500), .resume,
      .trap ⟨0, 0⟩ (.ttyTransmit 0)] ++ tick
    let s := (Boot.small 20).kernelStart.run labels
    s.history.trace.length = 5 ∧ NoOverlap 0 s.history.trace ∧
      s.ttyWriteTrackers 0 = .terminalClosed := by
  intro labels s
  have hreach : Reachable (fun _ _ => True) s :=
    reachable_small 20 labels (by decide +kernel) (by decide +kernel)
  have hsafe := ttyTransmit_never_overlaps hreach 0
  exact ⟨by decide +kernel, hsafe.1, hsafe.2.1.2 (by decide +kernel)⟩

end Yalnix
