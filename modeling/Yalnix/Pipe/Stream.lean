import Mathlib.Data.List.Induction
import Yalnix.Foundation.BoundedStream
import Yalnix.Kernel.Frame

/-!
# A pipe is a bounded byte stream

The completed reads and writes of a pipe, replayed on an abstract stream of
`PIPE_BUFFER_LEN` bytes, end in the bytes that the pipe's buffer holds.
-/

namespace Yalnix

open BoundedStream

/-! ## Buffers -/

/-- The in-place loop reads every byte before it overwrites it. -/
theorem shiftDown_apply (buf : Buffer) (len count i : Nat) :
    shiftDown buf len count i = if i < count then buf (i + len) else buf i := by
  induction count generalizing i with
  | zero => rfl
  | succ count ih =>
      have hstep : shiftDown buf len (count + 1) =
          upd (shiftDown buf len count) count
            (shiftDown buf len count (count + len)) := by
        simp [shiftDown, List.range_succ]
      rw [hstep]
      by_cases hi : i = count
      · subst hi
        rw [upd_same, ih, if_neg (by omega), if_pos (by omega)]
      · rw [upd_other hi, ih]
        by_cases hlt : i < count
        · rw [if_pos hlt, if_pos (by omega)]
        · rw [if_neg hlt, if_neg (by omega)]

/-! ## One transfer -/

namespace Pipe

variable (p : Pipe)

/-- The unread bytes. -/
def contents : List UInt8 := bytesOf p.buf 0 p.plen

@[simp] theorem contents_length : p.contents.length = p.plen :=
  bytesOf_length _ _ _

theorem read_bytes (len : Nat) : (p.read len).1 = p.contents.take len := by
  unfold read contents
  rw [bytesOf_take]
  split
  · rw [Nat.min_eq_left (by omega)]
  · rw [Nat.min_eq_right (by omega)]

theorem read_contents (len : Nat) :
    (p.read len).2.1.contents = p.contents.drop len := by
  unfold read contents
  rw [bytesOf_drop]
  split
  · refine bytesOf_congr fun i hi => ?_
    dsimp only at hi ⊢
    rw [shiftDown_apply, if_pos (by omega)]
    congr 1
    omega
  · have hall : p.plen - len = 0 := by omega
    simp [hall]

theorem read_amount (len : Nat) : (p.read len).2.2 = (p.read len).1.length := by
  unfold read
  split
  · simp
  · simp

theorem write_amount (buf : Buffer) (len : Nat) :
    (p.write buf len).2 = min len (pipeBufferLen - p.plen) := by
  unfold write
  simp only
  split
  · rw [Nat.min_eq_left (by assumption)]
  · rw [Nat.min_eq_right (by omega)]

theorem write_contents (buf : Buffer) (len : Nat) :
    (p.write buf len).1.contents =
      p.contents ++ (bytesOf buf 0 len).take (p.write buf len).2 := by
  have happend (n : Nat) :
      bytesOf (memcpy p.buf p.plen buf n) 0 (p.plen + n) =
        bytesOf p.buf 0 p.plen ++ bytesOf buf 0 n := by
    rw [← bytesOf_append]
    congr 1
    · refine bytesOf_congr fun i hi => ?_
      simp [memcpy, show ¬ p.plen ≤ i by omega]
    · refine bytesOf_congr fun i hi => ?_
      simp [memcpy, hi]
  rw [bytesOf_take]
  unfold write contents
  simp only
  split
  · rw [happend, Nat.min_self]
  · rw [happend, Nat.min_eq_left (by omega)]

theorem read_step (len : Nat) :
    step pipeBufferLen p.contents
        (.get len (p.read len).1 (p.read len).2.2) =
      some (p.read len).2.1.contents := by
  rw [step, if_pos ⟨p.read_bytes len, p.read_amount len⟩, p.read_contents]

theorem write_step (buf : Buffer) (len : Nat) :
    step pipeBufferLen p.contents
        (.put (bytesOf buf 0 len) (p.write buf len).2) =
      some (p.write buf len).1.contents := by
  have htaken : (p.write buf len).2 =
      min (bytesOf buf 0 len).length (pipeBufferLen - p.contents.length) := by
    simp [p.write_amount]
  rw [step, if_pos htaken, p.write_contents]

end Pipe

/-! ## The log of a pipe -/

/-- One event seen by an observer of pipe `p`, who forgets what happened before
the pipe was made. -/
def observePipe (p : PipePtr) (log : List (Transfer UInt8)) :
    Event → List (Transfer UInt8)
  | .pipeInit p' => if p' = p then [] else log
  | .pipeWrite p' _ bytes result =>
      if p' = p then log ++ [.put bytes result] else log
  | .pipeRead p' _ len bytes result =>
      if p' = p then log ++ [.get len bytes result] else log
  | _ => log

/-- The completed reads and writes of pipe `p`, in order. -/
def pipeLog (p : PipePtr) (events : List Event) : List (Transfer UInt8) :=
  events.foldl (observePipe p) []

theorem pipeLog_append (p : PipePtr) (events : List Event) (e : Event) :
    pipeLog p (events ++ [e]) = observePipe p (pipeLog p events) e := by
  simp [pipeLog]

/-- The events that an observer of a pipe sees. -/
def Event.onPipe : Event → Bool
  | .pipeInit _ => true
  | .pipeWrite _ _ _ _ => true
  | .pipeRead _ _ _ _ _ => true
  | _ => false

theorem observePipe_of_not_onPipe (p : PipePtr) (log : List (Transfer UInt8))
    {e : Event} (h : e.onPipe = false) : observePipe p log e = log := by
  cases e with
  | pipeInit _ => cases h
  | pipeWrite _ _ _ _ => cases h
  | pipeRead _ _ _ _ _ => cases h
  | _ => rfl

/-- Other events do not matter to the observer. -/
theorem pipeLog_filter (p : PipePtr) (keep : Event → Bool)
    (hkeep : ∀ e, e.onPipe = true → keep e = true) (events : List Event) :
    pipeLog p (events.filter keep) = pipeLog p events := by
  induction events using List.reverseRecOn with
  | nil => rfl
  | append_singleton events e ih =>
      rw [pipeLog_append, List.filter_append]
      cases he : keep e with
      | false =>
          have hoff : e.onPipe = false := by
            cases hon : e.onPipe with
            | false => rfl
            | true => exact absurd (hkeep e hon) (by simp [he])
          rw [observePipe_of_not_onPipe p _ hoff]
          simpa [he] using ih
      | true =>
          have hlast : List.filter keep [e] = [e] := by simp [he]
          rw [hlast, pipeLog_append, ih]

/-- The bytes and the log of a pipe. -/
structure Stream where
  buf : Buffer
  plen : Nat
  log : List (Transfer UInt8)

/-- The log is one of the abstract stream and ends in the buffer's bytes. -/
def Stream.Faithful (st : Stream) : Prop :=
  replay pipeBufferLen st.log = some (bytesOf st.buf 0 st.plen)

/-! ## The kernel -/

namespace Kernel

variable {s s' : Kernel} {p : PipePtr}

def stream (s : Kernel) (p : PipePtr) : Stream :=
  { buf := (s.pipes p).buf
    plen := (s.pipes p).plen
    log := pipeLog p s.history.trace }

theorem stream_of_devices (h : s'.devices = s.devices) (p : PipePtr) :
    s'.stream p = s.stream p := by
  have hbytes := congrFun (congrArg Devices.pipeBytes h) p
  have hevents := congrArg (fun d => pipeLog p d.events) h
  have hkeep (e : Event) (he : e.onPipe = true) : e.atDevice = true := by
    cases e with
    | exit _ _ => cases he
    | waitReturn _ _ _ _ => cases he
    | _ => rfl
  simp only [devices, Prod.mk.injEq, pipeLog_filter p _ hkeep] at hbytes hevents
  simp only [stream, hbytes, hevents]

theorem emit_stream {e : Event} (h : e.onPipe = false) :
    (s.emit e).stream p = s.stream p := by
  unfold stream emit setHistory
  simp only [pipeLog_append, observePipe_of_not_onPipe p _ h]

@[simp] theorem setReadBuffer_stream (t : Nat) (buf : Buffer) :
    (s.setReadBuffer t buf).stream p = s.stream p := rfl

@[simp] theorem setReadTracker_stream (t n : Nat) :
    (s.setReadTracker t n).stream p = s.stream p := rfl

@[simp] theorem setWriteTracker_stream (t : Nat) (status : TerminalStatus) :
    (s.setWriteTracker t status).stream p = s.stream p := rfl

@[simp] theorem setTransmitting_stream (t n : Nat) :
    (s.setTransmitting t n).stream p = s.stream p := rfl

@[simp] theorem setTtyReadQueue_stream (t : Nat) (q : List PcbPtr) :
    (s.setTtyReadQueue t q).stream p = s.stream p := rfl

@[simp] theorem setTtyWriteQueue_stream (t : Nat) (q : List PcbPtr) :
    (s.setTtyWriteQueue t q).stream p = s.stream p := rfl

@[simp] theorem setBlockedCode_stream (q : PcbPtr) (code : Int) :
    (s.setBlockedCode q code).stream p = s.stream p := rfl

@[simp] theorem setTtyTerminal_stream (q : PcbPtr) (t : Nat) :
    (s.setTtyTerminal q t).stream p = s.stream p := rfl

@[simp] theorem ret_stream (result : Int) :
    (s.ret result).stream p = s.stream p := rfl

@[simp] theorem toUser_stream : s.toUser.stream p = s.stream p := rfl

@[simp] theorem queueAdd_stream (q : Option QueueRef) (r : PcbPtr) :
    (s.queueAdd q r).stream p = s.stream p :=
  stream_of_devices (queueAdd_devices q r) p

@[simp] theorem swapProcess_stream (q : Option QueueRef) (k : KernelContext) :
    (s.swapProcess q k).stream p = s.stream p :=
  stream_of_devices (swapProcess_devices q k) p

@[simp] theorem checkBlocked_stream (q : PcbPtr) :
    (s.checkBlocked q).2.stream p = s.stream p :=
  stream_of_devices (checkBlocked_devices q) p

/-! ### Terminals -/

theorem ttyReadFinish_stream (t len : Nat) :
    (s.ttyReadFinish t len).stream p = s.stream p := by
  unfold ttyReadFinish
  simp only
  split
  · rw [ret_stream, emit_stream rfl, setReadTracker_stream,
      setReadBuffer_stream]
  · split
    · rw [ret_stream, queueAdd_stream, setBlockedCode_stream, emit_stream rfl,
        setReadTracker_stream, setReadBuffer_stream]
    · rw [ret_stream, emit_stream rfl, setReadTracker_stream,
        setReadBuffer_stream]

theorem kernelTtyRead_stream (ttyId len : Int) :
    (s.kernelTtyRead ttyId len).stream p = s.stream p := by
  unfold kernelTtyRead
  split
  · rfl
  · split
    · rfl
    · split
      · rfl
      · simp only
        split
        · rw [swapProcess_stream, setTtyTerminal_stream, setBlockedCode_stream,
            emit_stream rfl]
        · rw [ttyReadFinish_stream, emit_stream rfl]

theorem trapTTYReceiveHandler_stream (t : Nat) (bytes : List UInt8) :
    (s.trapTTYReceiveHandler t bytes).stream p = s.stream p := by
  unfold trapTTYReceiveHandler
  simp only
  split
  · rw [toUser_stream, emit_stream rfl, setReadTracker_stream,
      setReadBuffer_stream]
  · rw [toUser_stream, queueAdd_stream, setBlockedCode_stream,
      setTtyReadQueue_stream, emit_stream rfl, setReadTracker_stream,
      setReadBuffer_stream]

theorem ttyWriteFinish_stream (t written : Nat) :
    (s.ttyWriteFinish t written).stream p = s.stream p := by
  unfold ttyWriteFinish
  simp only
  split
  · rw [ret_stream, emit_stream rfl, setTtyWriteQueue_stream]
  · rw [ret_stream, queueAdd_stream, setBlockedCode_stream, emit_stream rfl,
      setTtyWriteQueue_stream]

theorem ttyWriteLoop_stream (t : Nat) (buf : Buffer)
    (len rounds left written : Nat) :
    (ttyWriteLoop t buf len rounds left written s).stream p = s.stream p := by
  induction rounds generalizing s left written with
  | zero => rw [ttyWriteLoop, ttyWriteFinish_stream]
  | succ rounds ih =>
      rw [ttyWriteLoop]
      split
      · rw [ttyWriteFinish_stream]
      · split
        · simp only [swapProcess_stream, setTtyTerminal_stream,
            setBlockedCode_stream]
        · simp only [ih, ttyTransmit]
          rw [setTransmitting_stream, emit_stream rfl, setWriteTracker_stream]

theorem kernelTtyWrite_stream (ttyId : Int) (buf : Buffer) (len : Int) :
    (s.kernelTtyWrite ttyId buf len).stream p = s.stream p := by
  unfold kernelTtyWrite
  split
  · rfl
  · split
    · rfl
    · split
      · rfl
      · simp only
        split
        · rw [swapProcess_stream, setTtyTerminal_stream, setBlockedCode_stream,
            emit_stream rfl, setTtyWriteQueue_stream]
        · rw [ttyWriteLoop_stream, emit_stream rfl, setTtyWriteQueue_stream]

theorem trapTTYTransmitHandler_stream (t : Nat) :
    (s.trapTTYTransmitHandler t).stream p = s.stream p := by
  unfold trapTTYTransmitHandler
  simp only
  split
  · rw [toUser_stream, setWriteTracker_stream, setTransmitting_stream,
      emit_stream rfl]
  · split
    · rw [toUser_stream, queueAdd_stream, checkBlocked_stream,
        setWriteTracker_stream, setTransmitting_stream, emit_stream rfl]
    · rw [toUser_stream, setWriteTracker_stream, setTransmitting_stream,
        emit_stream rfl]

/-! ### Pipes -/

/-- Writing a pipe without touching its bytes. -/
theorem setPipe_stream {q : PipePtr} {pipe : Pipe}
    (hbuf : pipe.buf = (s.pipes q).buf) (hlen : pipe.plen = (s.pipes q).plen) :
    (s.setPipe q pipe).stream p = s.stream p :=
  stream_of_devices (setPipe_devices hbuf hlen) p

theorem pipeSleep_stream (q : PipePtr) (code : Int) (k : KernelContext) :
    (s.pipeSleep q code k).stream p = s.stream p := by
  simp only [pipeSleep]
  rw [swapProcess_stream]
  exact (setPipe_stream (by rfl) (by rfl)).trans rfl

theorem afterWake_stream (q : PipePtr) (st : PipeWake) :
    (s.afterWake q st).stream p = s.stream p := by
  simp only [afterWake]
  exact (setPipe_stream (by rfl) (by rfl)).trans rfl

/-- The stream of a pipe after a transfer on pipe `q`. -/
theorem transfer_stream {q : PipePtr} {pipe : Pipe} {e : Event} :
    ((s.emit e).setPipe q pipe).stream p =
      { buf := if p = q then pipe.buf else (s.pipes p).buf
        plen := if p = q then pipe.plen else (s.pipes p).plen
        log := observePipe p (pipeLog p s.history.trace) e } := by
  by_cases hp : p = q
  · subst hp
    simp [stream, emit, setHistory, setPipe, pipeLog_append]
  · simp [stream, emit, setHistory, setPipe, pipeLog_append, hp]

theorem pipeReadFinish_faithful (q : PipePtr) (len : Nat)
    (h : ∀ p, (s.stream p).Faithful) :
    ((s.pipeReadFinish q len).stream p).Faithful := by
  simp only [pipeReadFinish]
  rw [ret_stream, afterWake_stream, transfer_stream]
  by_cases hp : p = q
  · subst hp
    simp only [observePipe, if_true, Stream.Faithful]
    exact (replay_concat (h p) _).trans ((s.pipes p).read_step len)
  · simp only [observePipe, if_neg hp, if_neg (Ne.symm hp)]
    exact h p

theorem pipeWriteFinish_faithful (q : PipePtr) (buf : Buffer) (len : Nat)
    (h : ∀ p, (s.stream p).Faithful) :
    ((s.pipeWriteFinish q buf len).stream p).Faithful := by
  simp only [pipeWriteFinish]
  rw [ret_stream, afterWake_stream, transfer_stream]
  by_cases hp : p = q
  · subst hp
    simp only [observePipe, if_true, Stream.Faithful]
    exact (replay_concat (h p) _).trans ((s.pipes p).write_step buf len)
  · simp only [observePipe, if_neg hp, if_neg (Ne.symm hp)]
    exact h p

theorem pipeReadLoop_faithful (q : PipePtr) (len : Nat)
    (h : ∀ p, (s.stream p).Faithful) :
    ((s.pipeReadLoop q len).stream p).Faithful := by
  unfold pipeReadLoop
  split
  · rw [pipeSleep_stream]
    exact h p
  · exact pipeReadFinish_faithful q len h

theorem pipeWriteLoop_faithful (q : PipePtr) (buf : Buffer) (len : Nat)
    (h : ∀ p, (s.stream p).Faithful) :
    ((s.pipeWriteLoop q buf len).stream p).Faithful := by
  unfold pipeWriteLoop
  split
  · rw [pipeSleep_stream]
    exact h p
  · exact pipeWriteFinish_faithful q buf len h

theorem kernelPipeRead_faithful (pipeId : Int) (nonNull : Bool) (len : Int)
    (h : ∀ p, (s.stream p).Faithful) :
    ((s.kernelPipeRead pipeId nonNull len).stream p).Faithful := by
  unfold kernelPipeRead
  split
  · exact h p
  · split
    · exact h p
    · split
      · exact h p
      · split
        · exact h p
        · split
          · rw [pipeSleep_stream]
            exact h p
          · exact pipeReadLoop_faithful _ _ h

theorem kernelPipeWrite_faithful (pipeId : Int) (buf : Option Buffer)
    (len : Int) (h : ∀ p, (s.stream p).Faithful) :
    ((s.kernelPipeWrite pipeId buf len).stream p).Faithful := by
  unfold kernelPipeWrite
  split
  · exact h p
  · split
    · exact h p
    · split
      · exact h p
      · split
        · exact h p
        · split
          · exact h p
          · exact pipeWriteLoop_faithful _ _ _ h

/-- A new pipe is empty, and its log starts with it. -/
theorem kernelPipeInit_faithful (nonNull : Bool)
    (h : ∀ p, (s.stream p).Faithful) :
    ((s.kernelPipeInit nonNull).stream p).Faithful := by
  unfold kernelPipeInit
  split
  · exact h p
  · by_cases hp : p = s.npipes
    · subst hp
      simp [Stream.Faithful, stream, ret, setMode, setReg0, emit, setHistory,
        pipeLog_append, observePipe, addPipe, replay]
    · have hsame : ((s.addPipe.2.emit (.pipeInit s.npipes)).ret 0).stream p =
          s.stream p := by
        simp [stream, ret, setMode, setReg0, emit, setHistory, pipeLog_append,
          observePipe, addPipe, hp, Ne.symm hp]
      rw [hsame]
      exact h p

theorem trapKernelHandler_faithful (call : Syscall)
    (h : ∀ p, (s.stream p).Faithful) :
    ((s.trapKernelHandler call).stream p).Faithful := by
  cases hdevice : call.usesDevice with
  | false =>
      rw [stream_of_devices (trapKernelHandler_devices hdevice)]
      exact h p
  | true =>
      cases call with
      | ttyRead ttyId len =>
          rw [trapKernelHandler, kernelTtyRead_stream]
          exact h p
      | ttyWrite ttyId buf len =>
          rw [trapKernelHandler, kernelTtyWrite_stream]
          exact h p
      | pipeInit nonNull => exact kernelPipeInit_faithful _ h
      | pipeRead pipeId nonNull len => exact kernelPipeRead_faithful _ _ _ h
      | pipeWrite pipeId buf len => exact kernelPipeWrite_faithful _ _ _ h
      | _ => cases hdevice

theorem handle_faithful (t : Trap) (h : ∀ p, (s.stream p).Faithful) :
    ((s.handle t).stream p).Faithful := by
  cases t with
  | kernel call => exact trapKernelHandler_faithful call h
  | clock =>
      rw [handle, trapClockHandler, swapProcess_stream]
      exact h p
  | illegal =>
      rw [handle, trapIllegalHandler, trapFaultHandler, swapProcess_stream]
      exact h p
  | math =>
      rw [handle, trapMathHandler, trapFaultHandler, swapProcess_stream]
      exact h p
  | memory addr beyondValid =>
      rw [handle, stream_of_devices (trapMemoryHandler_devices _ _)]
      exact h p
  | ttyReceive t bytes =>
      rw [handle, trapTTYReceiveHandler_stream]
      exact h p
  | ttyTransmit t =>
      rw [handle, trapTTYTransmitHandler_stream]
      exact h p

theorem resume_faithful (h : ∀ p, (s.stream p).Faithful) :
    (s.resume.stream p).Faithful := by
  unfold resume
  split
  · exact h p
  · exact h p
  · rw [toUser_stream, stream_of_devices (blockedScan_devices _)]
    exact h p
  · exact h p
  · exact h p
  · rw [stream_of_devices (kernelWaitResume_devices _)]
    exact h p
  · exact h p
  · rw [ttyReadFinish_stream]
    exact h p
  · rw [ttyWriteLoop_stream]
    exact h p
  · exact pipeReadLoop_faithful _ _ h
  · exact pipeWriteLoop_faithful _ _ _ h
  · exact h p
  · rw [stream_of_devices (kernelAcquire_devices _)]
    exact h p

end Kernel

theorem Booted.faithful {s : Kernel} (h : Booted s) (p : PipePtr) :
    (s.stream p).Faithful := by
  obtain ⟨b, -, rfl, hmode⟩ := h
  rw [Kernel.stream_of_devices (Boot.kernelStart_devices hmode)]
  rfl

theorem Reachable.faithful {guard : Kernel → Label → Prop} {s : Kernel}
    (h : Reachable guard s) (p : PipePtr) : (s.stream p).Faithful := by
  refine h.invariant (P := fun s => ∀ p, (s.stream p).Faithful)
    (fun s hs => hs.faithful) ?_ p
  intro s a s' _ ih _ hstep p
  cases hstep with
  | take henabled =>
      cases a with
      | trap ctx t => exact Kernel.handle_faithful t ih
      | resume => exact Kernel.resume_faithful ih

/-- The bytes that a log leaves in the pipe. -/
def storedBytes (log : List (Transfer UInt8)) : Nat :=
  (accepted log).length - (delivered log).length

theorem storedBytes_eq {log : List (Transfer UInt8)} {stream : List UInt8}
    (h : replay pipeBufferLen log = some stream) :
    storedBytes log = stream.length := by
  have hlength := congrArg List.length (replay_conserves h)
  rw [List.length_append] at hlength
  unfold storedBytes
  omega

/--
In every run and for every pipe: it never holds more than `PIPE_BUFFER_LEN`
bytes; a write takes the bytes that fit and returns their number; a read returns
as many bytes as it asked for, or all there are; and the bytes read so far
followed by the bytes in the buffer are the bytes written so far.
-/
theorem pipe_is_bounded_fifo {s : Kernel} (h : Reachable (fun _ _ => True) s)
    (p : PipePtr) :
    let log := pipeLog p s.history.trace
    (s.pipes p).plen ≤ pipeBufferLen ∧
      (∀ front data taken back, log = front ++ .put data taken :: back →
        taken = min data.length (pipeBufferLen - storedBytes front)) ∧
      (∀ front len data count back, log = front ++ .get len data count :: back →
        data.length = count ∧ count = min len (storedBytes front)) ∧
      delivered log ++ bytesOf (s.pipes p).buf 0 (s.pipes p).plen =
        accepted log := by
  intro log
  have hreplay : replay pipeBufferLen log =
      some (bytesOf (s.pipes p).buf 0 (s.pipes p).plen) := h.faithful p
  refine ⟨?_, ?_, ?_, replay_conserves hreplay⟩
  · simpa using replay_length_le hreplay
  · intro front data taken back heq
    rw [heq] at hreplay
    obtain ⟨before, after, hfront, hstep⟩ := replay_at hreplay
    rw [storedBytes_eq hfront]
    simp only [step] at hstep
    split at hstep
    · assumption
    · cases hstep
  · intro front len data count back heq
    rw [heq] at hreplay
    obtain ⟨before, after, hfront, hstep⟩ := replay_at hreplay
    rw [storedBytes_eq hfront]
    simp only [step] at hstep
    split at hstep
    · rename_i hget
      obtain ⟨hdata, hcount⟩ := hget
      rw [hcount, hdata, List.length_take]
      exact ⟨rfl, rfl⟩
    · cases hstep

/-- A write that is cut off, a partial read and a read of the rest. -/
theorem pipe_is_bounded_fifo_partial_read :
    let labels := tick ++ [call (.pipeInit true),
      call (.pipeWrite 5102 (some fun i => UInt8.ofNat i) 200),
      call (.pipeWrite 5102 (some fun _ => 7) 100),
      call (.pipeRead 5102 true 50)]
    let s := (Boot.small 20).kernelStart.run labels
    let log := pipeLog 1 s.history.trace
    log.length = 3 ∧ (s.pipes 1).plen = 206 ∧
      delivered log ++ bytesOf (s.pipes 1).buf 0 (s.pipes 1).plen =
        accepted log := by
  intro labels s log
  have hreach : Reachable (fun _ _ => True) s :=
    reachable_small 20 labels (by decide +kernel) (by decide +kernel)
  exact ⟨by decide +kernel, by decide +kernel,
    (pipe_is_bounded_fifo hreach 1).2.2.2⟩

end Yalnix
