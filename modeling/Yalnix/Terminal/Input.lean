import Yalnix.Foundation.BoundedStream
import Yalnix.Kernel.Frame

/-!
# Terminal input is a stream of lines

Receive traps append to a terminal's buffer, completing reads take the front of
its first line.  Replayed on an abstract stream of `TERMINAL_MAX_LINE` bytes
they end in the bytes that the buffer holds.
-/

namespace Yalnix

open BoundedStream

/-! ## The buffer of a terminal -/

/-- The bytes up to and including the first newline, or all of them. -/
def lineLength (bytes : List UInt8) : Nat :=
  if 10 ∈ bytes then bytes.idxOf 10 + 1 else bytes.length

theorem lineLength_cons (b : UInt8) (bytes : List UInt8) :
    lineLength (b :: bytes) = if b = 10 then 1 else lineLength bytes + 1 := by
  unfold lineLength
  by_cases hb : b = 10
  · subst hb
    simp
  · have hmem : (10 : UInt8) ∈ b :: bytes ↔ 10 ∈ bytes := by
      simp [Ne.symm hb]
    simp only [hmem, if_neg hb, List.idxOf_cons_ne bytes hb, List.length_cons]
    split <;> rfl

theorem newlineScan_eq (buf : Buffer) (rest start : Nat) :
    newlineScan buf rest start = start + lineLength (bytesOf buf start rest) := by
  induction rest generalizing start with
  | zero => rfl
  | succ rest ih =>
      have hcons : bytesOf buf start (rest + 1) =
          buf start :: bytesOf buf (start + 1) rest := by
        rw [Nat.add_comm rest 1, ← bytesOf_append]
        rfl
      rw [newlineScan, hcons, lineLength_cons, ih]
      split
      · rfl
      · omega

theorem ttyReadCount_eq (buf : Buffer) (tracker len : Nat) :
    ttyReadCount buf tracker len =
      min len (lineLength (bytesOf buf 0 tracker)) := by
  unfold ttyReadCount
  simp only [newlineScan_eq, Nat.zero_add]
  split <;> omega

theorem lineLength_le (bytes : List UInt8) :
    lineLength bytes ≤ bytes.length := by
  unfold lineLength
  split
  · rename_i hmem
    exact List.idxOf_lt_length_of_mem hmem
  · exact Nat.le_refl _

theorem ttyReadCompact_apply (buf : Buffer) (tracker n i : Nat) :
    ttyReadCompact buf tracker n i =
      if i < tracker - n then buf (n + i)
      else if i < tracker then 0 else buf i := by
  simp only [ttyReadCompact, memcpy, memzero, Nat.zero_le, true_and,
    Nat.zero_add, Nat.sub_zero]
  split
  · rfl
  · rfl

/-! ## The input of a terminal -/

/-- The events that have to do with the input of terminal `t`. -/
def Event.onInput (t : Nat) : Event → Bool
  | .ttyReadCall t' _ _ => t' == t
  | .ttyReadReturn t' _ _ => t' == t
  | .ttyReceive t' _ => t' == t
  | _ => false

structure Input where
  buf : Buffer
  tracker : Nat
  events : List Event

namespace Input

variable (i : Input)

def contents : List UInt8 := bytesOf i.buf 0 i.tracker

@[simp] theorem contents_length : i.contents.length = i.tracker :=
  bytesOf_length _ _ _

/-- The bytes that a `TtyRead` of `len` bytes takes. -/
def taken (len : Nat) : Nat := min len (lineLength i.contents)

theorem taken_le (len : Nat) : i.taken len ≤ i.tracker := by
  have hline := lineLength_le i.contents
  rw [contents_length] at hline
  unfold taken
  omega

/-- The bytes of a delivery for which there is room. -/
def accepts (bytes : List UInt8) : Nat :=
  min bytes.length (terminalMaxLine - i.tracker)

def call (t : Nat) (p : PcbPtr) (len : Nat) : Input :=
  { i with events := i.events ++ [.ttyReadCall t p len] }

def finish (t : Nat) (p : PcbPtr) (len : Nat) : Input :=
  { buf := ttyReadCompact i.buf i.tracker (i.taken len)
    tracker := i.tracker - i.taken len
    events := i.events ++ [.ttyReadReturn t p (i.contents.take (i.taken len))] }

def receive (t : Nat) (bytes : List UInt8) : Input :=
  { buf := memcpy i.buf i.tracker (fun j => bytes.getD j 0) (i.accepts bytes)
    tracker := i.tracker + i.accepts bytes
    events := i.events ++ [.ttyReceive t (bytes.take (i.accepts bytes))] }

theorem finish_contents (t : Nat) (p : PcbPtr) (len : Nat) :
    (i.finish t p len).contents = i.contents.drop (i.taken len) := by
  unfold contents
  rw [bytesOf_drop]
  refine bytesOf_congr fun j hj => ?_
  show ttyReadCompact i.buf i.tracker (i.taken len) (0 + j) = _
  rw [ttyReadCompact_apply, if_pos (by rwa [Nat.zero_add])]
  congr 1
  omega

theorem receive_contents (t : Nat) (bytes : List UInt8) :
    (i.receive t bytes).contents =
      i.contents ++ bytes.take (i.accepts bytes) := by
  have hnew : bytesOf (i.receive t bytes).buf i.tracker (i.accepts bytes) =
      bytes.take (i.accepts bytes) := by
    have hle : i.accepts bytes ≤ bytes.length := Nat.min_le_left _ _
    apply List.ext_getElem
    · simp [hle]
    · intro j h₁ h₂
      rw [bytesOf_length] at h₁
      have hj : j < bytes.length := Nat.lt_of_lt_of_le h₁ hle
      simp [bytesOf, receive, memcpy, h₁, hj]
  have hold : bytesOf (i.receive t bytes).buf 0 i.tracker = i.contents := by
    refine bytesOf_congr fun j hj => ?_
    simp [receive, memcpy, show ¬ i.tracker ≤ j by omega]
  rw [contents, ← hnew, ← hold]
  show bytesOf _ 0 (i.tracker + i.accepts bytes) = _
  rw [← bytesOf_append, Nat.zero_add]

end Input

/-! ## The log of a terminal -/

/-- What a receive trap put into the buffer and a read took from it. -/
def inputTransfer : Event → Option (Transfer UInt8)
  | .ttyReceive _ bytes => some (.put bytes bytes.length)
  | .ttyReadReturn _ _ bytes => some (.get bytes.length bytes bytes.length)
  | _ => none

/-- The receive traps and the completed reads of terminal `t`, in order. -/
def inputLog (t : Nat) (events : List Event) : List (Transfer UInt8) :=
  (events.filter (Event.onInput t)).filterMap inputTransfer

/-- The log is one of the abstract stream and ends in the buffer's bytes; the
buffer is clear behind them. -/
structure Input.Faithful (i : Input) : Prop where
  replayed : replay terminalMaxLine (i.events.filterMap inputTransfer) =
    some i.contents
  clear : ∀ j, i.tracker ≤ j → i.buf j = 0

namespace Input.Faithful

variable {i : Input}

theorem call (h : i.Faithful) (t : Nat) (p : PcbPtr) (len : Nat) :
    (i.call t p len).Faithful where
  replayed := by
    simp only [Input.call, List.filterMap_append, List.filterMap_cons,
      inputTransfer, List.filterMap_nil, List.append_nil]
    exact h.replayed
  clear := h.clear

theorem finish (h : i.Faithful) (t : Nat) (p : PcbPtr) (len : Nat) :
    (i.finish t p len).Faithful where
  replayed := by
    have htaken : i.taken len ≤ i.contents.length := by
      rw [contents_length]
      exact i.taken_le len
    rw [finish_contents]
    simp only [Input.finish, List.filterMap_append, List.filterMap_cons,
      inputTransfer, List.filterMap_nil]
    rw [replay_concat h.replayed, step, List.length_take_of_le htaken,
      if_pos ⟨rfl, rfl⟩]
  clear := fun j hj => by
    show ttyReadCompact i.buf i.tracker (i.taken len) j = 0
    have hj' : i.tracker - i.taken len ≤ j := hj
    rw [ttyReadCompact_apply, if_neg (by omega)]
    split
    · rfl
    · exact h.clear j (by omega)

theorem receive (h : i.Faithful) (t : Nat) (bytes : List UInt8) :
    (i.receive t bytes).Faithful where
  replayed := by
    have hlength : (bytes.take (i.accepts bytes)).length = i.accepts bytes :=
      List.length_take_of_le (Nat.min_le_left _ _)
    rw [receive_contents]
    simp only [Input.receive, List.filterMap_append, List.filterMap_cons,
      inputTransfer, List.filterMap_nil]
    have hfits : i.accepts bytes =
        min (i.accepts bytes) (terminalMaxLine - i.tracker) := by
      unfold accepts
      omega
    rw [replay_concat h.replayed, step, hlength, contents_length, if_pos hfits,
      List.take_take, Nat.min_self]
  clear := fun j hj => by
    have hj' : i.tracker + i.accepts bytes ≤ j := hj
    simp only [Input.receive, memcpy]
    rw [if_neg (by omega)]
    exact h.clear j (by omega)

end Input.Faithful

/-! ## The kernel -/

namespace Kernel

variable {s s' : Kernel} {t : Nat}

def input (s : Kernel) (t : Nat) : Input :=
  { buf := s.ttyReadbuffers t
    tracker := s.ttyReadTrackers t
    events := s.history.trace.filter (Event.onInput t) }

theorem input_of_devices (h : s'.devices = s.devices) (t : Nat) :
    s'.input t = s.input t := by
  have hfilter (events : List Event) :
      (events.filter Event.atDevice).filter (Event.onInput t) =
        events.filter (Event.onInput t) := by
    rw [List.filter_filter]
    refine List.filter_congr fun e _ => ?_
    cases e <;> simp [Event.onInput, Event.atDevice]
  have hbuf := congrFun (congrArg Devices.readBuffers h) t
  have htracker := congrFun (congrArg Devices.readTrackers h) t
  have hevents := congrArg (fun d => d.events.filter (Event.onInput t)) h
  simp only [devices, hfilter] at hbuf htracker hevents
  simp only [input, hbuf, htracker, hevents]

theorem emit_input {e : Event} (h : e.onInput t = false) :
    (s.emit e).input t = s.input t := by
  unfold input emit setHistory
  simp only [List.filter_append, List.filter_cons, h, List.filter_nil,
    Bool.false_eq_true, if_false, List.append_nil]

theorem emit_input_call (p : PcbPtr) (len : Nat) :
    (s.emit (.ttyReadCall t p len)).input t = (s.input t).call t p len := by
  unfold input emit setHistory Input.call
  simp only [List.filter_append, List.filter_cons, Event.onInput, beq_self_eq_true,
    if_true, List.filter_nil]

@[simp] theorem ret_input (result : Int) :
    (s.ret result).input t = s.input t := rfl

@[simp] theorem toUser_input : s.toUser.input t = s.input t := rfl

@[simp] theorem setBlockedCode_input (p : PcbPtr) (code : Int) :
    (s.setBlockedCode p code).input t = s.input t := rfl

@[simp] theorem setTtyTerminal_input (p : PcbPtr) (u : Nat) :
    (s.setTtyTerminal p u).input t = s.input t := rfl

@[simp] theorem setTtyReadQueue_input (u : Nat) (q : List PcbPtr) :
    (s.setTtyReadQueue u q).input t = s.input t := rfl

@[simp] theorem setTtyWriteQueue_input (u : Nat) (q : List PcbPtr) :
    (s.setTtyWriteQueue u q).input t = s.input t := rfl

@[simp] theorem setWriteTracker_input (u : Nat) (status : TerminalStatus) :
    (s.setWriteTracker u status).input t = s.input t := rfl

@[simp] theorem setTransmitting_input (u n : Nat) :
    (s.setTransmitting u n).input t = s.input t := rfl

@[simp] theorem setPipe_input (p : PipePtr) (pipe : Pipe) :
    (s.setPipe p pipe).input t = s.input t := rfl

@[simp] theorem queueAdd_input (q : Option QueueRef) (p : PcbPtr) :
    (s.queueAdd q p).input t = s.input t :=
  input_of_devices (queueAdd_devices q p) t

@[simp] theorem swapProcess_input (q : Option QueueRef) (k : KernelContext) :
    (s.swapProcess q k).input t = s.input t :=
  input_of_devices (swapProcess_devices q k) t

@[simp] theorem checkBlocked_input (p : PcbPtr) :
    (s.checkBlocked p).2.input t = s.input t :=
  input_of_devices (checkBlocked_devices p) t

/-! ### Pipes and terminal output -/

@[simp] theorem afterWake_input (p : PipePtr) (st : PipeWake) :
    (s.afterWake p st).input t = s.input t := rfl

@[simp] theorem pipeSleep_input (p : PipePtr) (code : Int) (k : KernelContext) :
    (s.pipeSleep p code k).input t = s.input t := by
  simp only [pipeSleep, swapProcess_input, setPipe_input, setBlockedCode_input]

theorem pipeReadLoop_input (p : PipePtr) (len : Nat) :
    (s.pipeReadLoop p len).input t = s.input t := by
  unfold pipeReadLoop pipeReadFinish
  split
  · exact pipeSleep_input _ _ _
  · simp only [ret_input, afterWake_input, setPipe_input]
    exact emit_input rfl

theorem pipeWriteLoop_input (p : PipePtr) (buf : Buffer) (len : Nat) :
    (s.pipeWriteLoop p buf len).input t = s.input t := by
  unfold pipeWriteLoop pipeWriteFinish
  split
  · exact pipeSleep_input _ _ _
  · simp only [ret_input, afterWake_input, setPipe_input]
    exact emit_input rfl

theorem kernelPipeInit_input (nonNull : Bool) :
    (s.kernelPipeInit nonNull).input t = s.input t := by
  unfold kernelPipeInit
  split
  · rfl
  · rw [ret_input, emit_input rfl]
    rfl

theorem kernelPipeRead_input (pipeId : Int) (nonNull : Bool) (len : Int) :
    (s.kernelPipeRead pipeId nonNull len).input t = s.input t := by
  unfold kernelPipeRead
  split
  · rfl
  · split
    · rfl
    · split
      · rfl
      · split
        · rfl
        · split
          · exact pipeSleep_input _ _ _
          · exact pipeReadLoop_input _ _

theorem kernelPipeWrite_input (pipeId : Int) (buf : Option Buffer)
    (len : Int) : (s.kernelPipeWrite pipeId buf len).input t = s.input t := by
  unfold kernelPipeWrite
  split
  · rfl
  · split
    · rfl
    · split
      · rfl
      · split
        · rfl
        · split
          · rfl
          · exact pipeWriteLoop_input _ _ _

theorem ttyWriteFinish_input (u written : Nat) :
    (s.ttyWriteFinish u written).input t = s.input t := by
  unfold ttyWriteFinish
  simp only
  split
  · rw [ret_input, emit_input rfl, setTtyWriteQueue_input]
  · rw [ret_input, queueAdd_input, setBlockedCode_input, emit_input rfl,
      setTtyWriteQueue_input]

theorem ttyWriteLoop_input (u : Nat) (buf : Buffer)
    (len rounds left written : Nat) :
    (ttyWriteLoop u buf len rounds left written s).input t = s.input t := by
  induction rounds generalizing s left written with
  | zero => rw [ttyWriteLoop, ttyWriteFinish_input]
  | succ rounds ih =>
      rw [ttyWriteLoop]
      split
      · rw [ttyWriteFinish_input]
      · split
        · simp only [swapProcess_input, setTtyTerminal_input,
            setBlockedCode_input]
        · simp only [ih, ttyTransmit]
          rw [setTransmitting_input, emit_input rfl, setWriteTracker_input]

theorem kernelTtyWrite_input (ttyId : Int) (buf : Buffer) (len : Int) :
    (s.kernelTtyWrite ttyId buf len).input t = s.input t := by
  unfold kernelTtyWrite
  split
  · rfl
  · split
    · rfl
    · split
      · rfl
      · simp only
        split
        · rw [swapProcess_input, setTtyTerminal_input, setBlockedCode_input,
            emit_input rfl, setTtyWriteQueue_input]
        · rw [ttyWriteLoop_input, emit_input rfl, setTtyWriteQueue_input]

theorem trapTTYTransmitHandler_input (u : Nat) :
    (s.trapTTYTransmitHandler u).input t = s.input t := by
  unfold trapTTYTransmitHandler
  simp only
  split
  · rw [toUser_input, setWriteTracker_input, setTransmitting_input,
      emit_input rfl]
  · split
    · rw [toUser_input, queueAdd_input, checkBlocked_input,
        setWriteTracker_input, setTransmitting_input, emit_input rfl]
    · rw [toUser_input, setWriteTracker_input, setTransmitting_input,
        emit_input rfl]

/-! ### Terminal input -/

theorem ttyReadFinish_input (len : Nat) :
    (s.ttyReadFinish t len).input t =
      (s.input t).finish t s.activePCB len := by
  have htaken : ttyReadCount (s.ttyReadbuffers t) (s.ttyReadTrackers t) len =
      (s.input t).taken len := ttyReadCount_eq _ _ _
  have hbytes : bytesOf (s.ttyReadbuffers t) 0 ((s.input t).taken len) =
      (s.input t).contents.take ((s.input t).taken len) := by
    rw [Input.contents, bytesOf_take, Nat.min_eq_left (Input.taken_le _ _)]
    rfl
  have hemit : (((s.setReadBuffer t (ttyReadCompact (s.ttyReadbuffers t)
      (s.ttyReadTrackers t) ((s.input t).taken len))).setReadTracker t
        (s.ttyReadTrackers t - (s.input t).taken len)).emit
          (.ttyReadReturn t s.activePCB (bytesOf (s.ttyReadbuffers t) 0
            ((s.input t).taken len)))).input t =
        (s.input t).finish t s.activePCB len := by
    rw [hbytes]
    simp [input, Input.finish, emit, setHistory, setReadBuffer, setReadTracker,
      Event.onInput]
  unfold ttyReadFinish
  simp only [htaken]
  split
  · rw [ret_input]
    exact hemit
  · split
    · rw [ret_input, queueAdd_input, setBlockedCode_input]
      exact hemit
    · rw [ret_input]
      exact hemit

theorem ttyReadFinish_input_other {u : Nat} (hne : t ≠ u) (len : Nat) :
    (s.ttyReadFinish u len).input t = s.input t := by
  have hemit (buf : Buffer) (n : Nat) (p : PcbPtr) (bytes : List UInt8) :
      (((s.setReadBuffer u buf).setReadTracker u n).emit
        (.ttyReadReturn u p bytes)).input t = s.input t := by
    rw [emit_input (by simp [Event.onInput, Ne.symm hne])]
    simp [input, setReadBuffer, setReadTracker, hne]
  unfold ttyReadFinish
  simp only
  split
  · rw [ret_input, hemit]
  · split
    · rw [ret_input, queueAdd_input, setBlockedCode_input, hemit]
    · rw [ret_input, hemit]

theorem trapTTYReceiveHandler_input (bytes : List UInt8) :
    (s.trapTTYReceiveHandler t bytes).input t =
      (s.input t).receive t bytes := by
  have haccepts : (if terminalMaxLine - s.ttyReadTrackers t < bytes.length then
      terminalMaxLine - s.ttyReadTrackers t else bytes.length) =
      (s.input t).accepts bytes := by
    unfold Input.accepts input
    simp only
    split <;> omega
  have hemit : (((s.setReadBuffer t (memcpy (s.ttyReadbuffers t)
      (s.ttyReadTrackers t) (fun i => bytes.getD i 0)
        ((s.input t).accepts bytes))).setReadTracker t
          (s.ttyReadTrackers t + (s.input t).accepts bytes)).emit
            (.ttyReceive t (bytes.take ((s.input t).accepts bytes)))).input t =
        (s.input t).receive t bytes := by
    simp [input, Input.receive, emit, setHistory, setReadBuffer,
      setReadTracker, Event.onInput]
  unfold trapTTYReceiveHandler
  simp only [haccepts]
  split
  · rw [toUser_input]
    exact hemit
  · rw [toUser_input, queueAdd_input, setBlockedCode_input,
      setTtyReadQueue_input]
    exact hemit

theorem trapTTYReceiveHandler_input_other {u : Nat} (hne : t ≠ u)
    (bytes : List UInt8) :
    (s.trapTTYReceiveHandler u bytes).input t = s.input t := by
  have hemit (buf : Buffer) (n : Nat) (bytes : List UInt8) :
      (((s.setReadBuffer u buf).setReadTracker u n).emit
        (.ttyReceive u bytes)).input t = s.input t := by
    rw [emit_input (by simp [Event.onInput, Ne.symm hne])]
    simp [input, setReadBuffer, setReadTracker, hne]
  unfold trapTTYReceiveHandler
  simp only
  split
  · rw [toUser_input, hemit]
  · rw [toUser_input, queueAdd_input, setBlockedCode_input,
      setTtyReadQueue_input, hemit]

end Kernel

/-! ### Steps -/

/-- The terminal and the length of a `TtyRead` that passes the checks. -/
def Label.ttyReads : Label → Option (Nat × Nat)
  | .trap _ (.kernel (.ttyRead ttyId len)) =>
      if 0 ≤ ttyId ∧ ttyId < numTerminals ∧ 0 < len then
        some (ttyId.toNat, len.toNat)
      else none
  | _ => none

namespace Kernel

variable {s : Kernel} {t : Nat}

/-- The read that a step completes: a call that finds nobody waiting and a
nonzero byte, or a reader that resumes. -/
def completesRead (s : Kernel) : Label → Option (Nat × Nat)
  | .trap ctx trap =>
      match (Label.trap ctx trap).ttyReads with
      | some (t, len) =>
          if s.ttyReadQueues t = [] ∧ s.ttyReadbuffers t 0 ≠ 0 then
            some (t, len)
          else none
      | none => none
  | .resume =>
      match s.pcb.kernelContext s.activePCB with
      | .kernelTtyRead t len => some (t, len)
      | _ => none

theorem kernelTtyRead_refused {ttyId len : Int}
    (h : ¬ (0 ≤ ttyId ∧ ttyId < numTerminals ∧ 0 < len)) :
    ∃ result, s.kernelTtyRead ttyId len = s.ret result := by
  unfold kernelTtyRead
  split
  · exact ⟨_, rfl⟩
  · split
    · exact ⟨_, rfl⟩
    · split
      · exact ⟨_, rfl⟩
      · omega

theorem kernelTtyRead_accepted {ttyId len : Int}
    (h : 0 ≤ ttyId ∧ ttyId < numTerminals ∧ 0 < len) :
    s.kernelTtyRead ttyId len =
      let s₁ := s.emit (.ttyReadCall ttyId.toNat s.activePCB len.toNat)
      if s.ttyReadQueues ttyId.toNat = [] ∧
          s.ttyReadbuffers ttyId.toNat 0 ≠ 0 then
        s₁.ttyReadFinish ttyId.toNat len.toNat
      else
        ((s₁.setBlockedCode s.activePCB Blocked.ttyRead).setTtyTerminal
          s.activePCB ttyId.toNat).swapProcess
            (some (.ttyReadQueue ttyId.toNat))
            (.kernelTtyRead ttyId.toNat len.toNat) := by
  unfold kernelTtyRead
  rw [if_neg (by omega), if_neg (by omega), if_neg (by omega)]
  simp only
  by_cases hempty : s.ttyReadQueues ttyId.toNat = [] ∧
      s.ttyReadbuffers ttyId.toNat 0 ≠ 0
  · rw [if_pos hempty, if_neg (by
      rintro (hqueue | hbyte)
      · exact hqueue hempty.1
      · exact hempty.2 hbyte)]
  · rw [if_neg hempty, if_pos (by
      by_contra hnot
      rw [not_or, not_ne_iff] at hnot
      exact hempty hnot)]

/-- The input of terminal `t` after a step. -/
inductive InputStep (s : Kernel) (t : Nat) : Label → Input → Prop where
  | receives {ctx : UserContext} {bytes : List UInt8} :
      InputStep s t (.trap ctx (.ttyReceive t bytes))
        ((s.input t).receive t bytes)
  | sleeps {a : Label} {len : Nat} :
      a.ttyReads = some (t, len) → s.completesRead a = none →
      InputStep s t a ((s.input t).call t s.activePCB len)
  | reads {a : Label} {len : Nat} :
      a.ttyReads = some (t, len) → s.completesRead a = some (t, len) →
      InputStep s t a
        (((s.input t).call t s.activePCB len).finish t s.activePCB len)
  | resumes {len : Nat} : s.completesRead .resume = some (t, len) →
      InputStep s t .resume ((s.input t).finish t s.activePCB len)
  | other {a : Label} : (∀ ctx bytes, a ≠ .trap ctx (.ttyReceive t bytes)) →
      (∀ len, a.ttyReads ≠ some (t, len)) →
      (∀ len, s.completesRead a ≠ some (t, len)) →
      InputStep s t a (s.input t)

theorem kernelTtyRead_inputStep (ctx : UserContext) (ttyId len : Int) :
    InputStep s t (.trap ctx (.kernel (.ttyRead ttyId len)))
      (((s.enter ctx).kernelTtyRead ttyId len).input t) := by
  have hcompletes : s.completesRead (.trap ctx (.kernel (.ttyRead ttyId len))) =
      match Label.ttyReads (.trap ctx (.kernel (.ttyRead ttyId len))) with
      | some (t, len) =>
          if s.ttyReadQueues t = [] ∧ s.ttyReadbuffers t 0 ≠ 0 then
            some (t, len)
          else none
      | none => none := rfl
  by_cases hargs : 0 ≤ ttyId ∧ ttyId < numTerminals ∧ 0 < len
  · have hreads : Label.ttyReads (.trap ctx (.kernel (.ttyRead ttyId len))) =
        some (ttyId.toNat, len.toNat) := if_pos hargs
    rw [hreads] at hcompletes
    rw [kernelTtyRead_accepted hargs]
    by_cases ht : t = ttyId.toNat
    · subst ht
      have hcall : (((s.enter ctx).emit (.ttyReadCall ttyId.toNat
          (s.enter ctx).activePCB len.toNat)).input ttyId.toNat) =
          (s.input ttyId.toNat).call ttyId.toNat s.activePCB len.toNat :=
        emit_input_call _ _
      by_cases hfound : s.ttyReadQueues ttyId.toNat = [] ∧
          s.ttyReadbuffers ttyId.toNat 0 ≠ 0
      · have hstep : InputStep s _ _ _ :=
          .reads hreads (hcompletes.trans (if_pos hfound))
        rw [← hcall] at hstep
        simp only
        rw [if_pos (by exact hfound), ttyReadFinish_input]
        exact hstep
      · have hstep : InputStep s _ _ _ :=
          .sleeps hreads (hcompletes.trans (if_neg hfound))
        rw [← hcall] at hstep
        simp only
        rw [if_neg (by exact hfound), swapProcess_input, setTtyTerminal_input,
          setBlockedCode_input]
        exact hstep
    · have hother : InputStep s t (.trap ctx (.kernel (.ttyRead ttyId len)))
          (s.input t) := by
        refine .other nofun (fun n hn => ?_) fun n hn => ?_
        · rw [hreads] at hn
          cases hn
          exact ht rfl
        · rw [hcompletes] at hn
          simp only at hn
          split at hn
          · cases hn
            exact ht rfl
          · cases hn
      have hcall : (((s.enter ctx).emit (.ttyReadCall ttyId.toNat
          (s.enter ctx).activePCB len.toNat)).input t) = s.input t :=
        emit_input (by simp [Event.onInput, Ne.symm ht])
      rw [← hcall] at hother
      simp only
      split
      · rw [ttyReadFinish_input_other ht]
        exact hother
      · rw [swapProcess_input, setTtyTerminal_input, setBlockedCode_input]
        exact hother
  · have hreads : Label.ttyReads (.trap ctx (.kernel (.ttyRead ttyId len))) =
        none := if_neg hargs
    rw [hreads] at hcompletes
    obtain ⟨result, hret⟩ := kernelTtyRead_refused (s := s.enter ctx) hargs
    rw [hret, ret_input]
    refine .other nofun (fun n hn => ?_) fun n hn => ?_
    · rw [hreads] at hn
      cases hn
    · rw [hcompletes] at hn
      cases hn

theorem InputStep.of_input {ctx : UserContext} {trap : Trap} {i : Input}
    (hreceive : ∀ bytes, trap ≠ .ttyReceive t bytes)
    (hread : ∀ ttyId len, trap ≠ .kernel (.ttyRead ttyId len))
    (h : i = s.input t) : InputStep s t (.trap ctx trap) i := by
  have hnone : (Label.trap ctx trap).ttyReads = none := by
    cases trap with
    | kernel call =>
        cases call with
        | ttyRead ttyId len => exact absurd rfl (hread ttyId len)
        | _ => rfl
    | _ => rfl
  rw [h]
  refine .other (fun _ bytes heq => ?_) (fun n hn => ?_) fun n hn => ?_
  · cases heq
    exact hreceive bytes rfl
  · rw [hnone] at hn
    cases hn
  · simp only [completesRead, hnone] at hn
    cases hn

theorem handle_inputStep (ctx : UserContext) (trap : Trap) :
    InputStep s t (.trap ctx trap) (((s.enter ctx).handle trap).input t) := by
  have henter : (s.enter ctx).input t = s.input t := rfl
  cases trap with
  | kernel call =>
      cases hdevice : call.usesDevice with
      | false =>
          refine .of_input nofun (fun _ _ heq => ?_) ?_
          · cases heq
            cases hdevice
          · exact input_of_devices (trapKernelHandler_devices hdevice) t
      | true =>
          cases call with
          | ttyRead ttyId len => exact kernelTtyRead_inputStep ctx ttyId len
          | ttyWrite ttyId buf len =>
              exact .of_input nofun nofun (kernelTtyWrite_input _ _ _)
          | pipeInit nonNull =>
              exact .of_input nofun nofun (kernelPipeInit_input _)
          | pipeRead pipeId nonNull len =>
              exact .of_input nofun nofun (kernelPipeRead_input _ _ _)
          | pipeWrite pipeId buf len =>
              exact .of_input nofun nofun (kernelPipeWrite_input _ _ _)
          | _ => cases hdevice
  | clock =>
      refine .of_input nofun nofun ?_
      rw [handle, trapClockHandler, swapProcess_input]
      rfl
  | illegal =>
      refine .of_input nofun nofun ?_
      rw [handle, trapIllegalHandler, trapFaultHandler, swapProcess_input]
      rfl
  | math =>
      refine .of_input nofun nofun ?_
      rw [handle, trapMathHandler, trapFaultHandler, swapProcess_input]
      rfl
  | memory addr beyondValid =>
      refine .of_input nofun nofun ?_
      rw [handle, input_of_devices (trapMemoryHandler_devices _ _), henter]
  | ttyReceive u bytes =>
      by_cases hu : t = u
      · subst hu
        rw [handle, trapTTYReceiveHandler_input, henter]
        exact .receives
      · refine .of_input (fun _ heq => ?_) nofun ?_
        · cases heq
          exact hu rfl
        · exact trapTTYReceiveHandler_input_other hu bytes
  | ttyTransmit u =>
      exact .of_input nofun nofun (trapTTYTransmitHandler_input u)

theorem resume_inputStep : InputStep s t .resume (s.resume.input t) := by
  have hother {i : Input} (hnone : s.completesRead .resume = none)
      (h : i = s.input t) : InputStep s t .resume i := by
    rw [h]
    refine .other nofun nofun fun n hn => ?_
    rw [hnone] at hn
    cases hn
  have hnone {k : KernelContext}
      (hk : s.pcb.kernelContext s.activePCB = k)
      (hread : ∀ t len, k ≠ .kernelTtyRead t len) :
      s.completesRead .resume = none := by
    rw [completesRead, hk]
    cases k with
    | kernelTtyRead t len => exact absurd rfl (hread t len)
    | _ => rfl
  unfold resume
  split
  · rename_i hctx
    exact hother (hnone hctx nofun) rfl
  · rename_i hctx
    exact hother (hnone hctx nofun) rfl
  · rename_i hctx
    exact hother (hnone hctx nofun)
      (input_of_devices (blockedScan_devices _) t)
  · rename_i hctx
    exact hother (hnone hctx nofun) rfl
  · rename_i hctx
    exact hother (hnone hctx nofun) rfl
  · rename_i hctx
    exact hother (hnone hctx nofun)
      (input_of_devices (kernelWaitResume_devices _) t)
  · rename_i hctx
    exact hother (hnone hctx nofun) rfl
  · rename_i u len hctx
    have hreads : s.completesRead .resume = some (u, len) := by
      rw [completesRead, hctx]
    by_cases hu : t = u
    · subst hu
      rw [ttyReadFinish_input]
      exact .resumes hreads
    · rw [ttyReadFinish_input_other hu]
      refine .other nofun nofun fun n hn => ?_
      rw [hreads] at hn
      cases hn
      exact hu rfl
  · rename_i hctx
    exact hother (hnone hctx nofun) (ttyWriteLoop_input _ _ _ _ _ _)
  · rename_i hctx
    exact hother (hnone hctx nofun) (pipeReadLoop_input _ _)
  · rename_i hctx
    exact hother (hnone hctx nofun) (pipeWriteLoop_input _ _ _)
  · rename_i hctx
    exact hother (hnone hctx nofun) rfl
  · rename_i hctx
    exact hother (hnone hctx nofun)
      (input_of_devices (kernelAcquire_devices _) t)

theorem take_inputStep (a : Label) (t : Nat) :
    InputStep s t a ((s.take a).input t) := by
  cases a with
  | trap ctx trap => exact handle_inputStep ctx trap
  | resume => exact resume_inputStep

/-- What a completing read returns. -/
theorem ttyReadFinish_reg0 (len : Nat) :
    (s.ttyReadFinish t len).reg0 s.activePCB = ((s.input t).taken len : Nat) := by
  have hret {r : Kernel} (hactive : r.activePCB = s.activePCB) (n : Int) :
      (r.ret n).reg0 s.activePCB = n := by
    rw [← hactive]
    exact upd_same _ _ _
  have htaken : ttyReadCount (s.ttyReadbuffers t) (s.ttyReadTrackers t) len =
      (s.input t).taken len := ttyReadCount_eq _ _ _
  unfold ttyReadFinish
  simp only [htaken]
  split
  · exact hret rfl _
  · split
    · exact hret rfl _
    · exact hret rfl _

theorem take_reg0 {a : Label} {len : Nat}
    (h : s.completesRead a = some (t, len)) :
    (s.take a).reg0 s.activePCB = ((s.input t).taken len : Nat) := by
  cases a with
  | trap ctx trap =>
      cases trap with
      | kernel call =>
          cases call with
          | ttyRead ttyId n =>
              by_cases hargs : 0 ≤ ttyId ∧ ttyId < numTerminals ∧ 0 < n
              · simp only [completesRead, Label.ttyReads, if_pos hargs] at h
                split at h
                · rename_i hfound
                  cases h
                  show ((s.enter ctx).kernelTtyRead ttyId n).reg0 _ = _
                  rw [kernelTtyRead_accepted hargs]
                  simp only
                  rw [if_pos (by exact hfound)]
                  exact ttyReadFinish_reg0 _
                · cases h
              · simp only [completesRead, Label.ttyReads, if_neg hargs] at h
                cases h
          | _ => cases h
      | _ => cases h
  | resume =>
      simp only [completesRead] at h
      split at h
      · rename_i hctx
        cases h
        show s.resume.reg0 _ = _
        unfold resume
        rw [hctx]
        exact ttyReadFinish_reg0 _
      · cases h

end Kernel

/-! ## Runs -/

theorem Input.Faithful.step {s : Kernel} {t : Nat} {a : Label} {i : Input}
    (h : (s.input t).Faithful) (hstep : s.InputStep t a i) : i.Faithful := by
  cases hstep with
  | receives => exact h.receive _ _
  | sleeps _ _ => exact h.call _ _ _
  | reads _ _ => exact (h.call _ _ _).finish _ _ _
  | resumes _ => exact h.finish _ _ _
  | other _ _ _ => exact h

theorem Reachable.input {guard : Kernel → Label → Prop} {s : Kernel}
    (h : Reachable guard s) (t : Nat) : (s.input t).Faithful := by
  refine h.invariant (P := fun s => (s.input t).Faithful) ?_ ?_
  · rintro s ⟨b, -, rfl, hmode⟩
    rw [Kernel.input_of_devices (Boot.kernelStart_devices hmode)]
    exact ⟨rfl, fun _ _ => rfl⟩
  · intro s a s' _ ih _ hstep
    cases hstep with
    | take henabled => exact ih.step (Kernel.take_inputStep a t)

/-- The bytes that wait to be read at terminal `t`. -/
def Kernel.ttyContents (s : Kernel) (t : Nat) : List UInt8 :=
  bytesOf (s.ttyReadbuffers t) 0 (s.ttyReadTrackers t)

/--
In every run and for every terminal: at most `TERMINAL_MAX_LINE` bytes wait, and
the buffer is clear behind them; a receive trap appends the bytes for which
there is room; a read takes and returns the front of the first line; nothing
else is logged; and the bytes read so far followed by those that wait are the
bytes accepted so far.
-/
theorem terminal_input_is_line_fifo {s : Kernel}
    (h : Reachable (fun _ _ => True) s) (t : Nat) :
    let log := inputLog t s.history.trace
    let contents := s.ttyContents t
    s.ttyReadTrackers t ≤ terminalMaxLine ∧
      (∀ i, s.ttyReadTrackers t ≤ i → s.ttyReadbuffers t i = 0) ∧
      (∀ ctx bytes, (Label.trap ctx (.ttyReceive t bytes)).Enabled s →
        let s' := s.take (.trap ctx (.ttyReceive t bytes))
        let n := min bytes.length (terminalMaxLine - s.ttyReadTrackers t)
        s'.ttyContents t = contents ++ bytes.take n ∧
          s'.ttyReadTrackers t = s.ttyReadTrackers t + n ∧
          inputLog t s'.history.trace = log ++ [.put (bytes.take n) n]) ∧
      (∀ a len, a.Enabled s → s.completesRead a = some (t, len) →
        let s' := s.take a
        let n := min len (lineLength contents)
        s'.reg0 s.activePCB = n ∧ s'.ttyContents t = contents.drop n ∧
          s'.ttyReadTrackers t = s.ttyReadTrackers t - n ∧
          inputLog t s'.history.trace = log ++ [.get n (contents.take n) n]) ∧
      (∀ a, a.Enabled s →
        (∀ ctx bytes, a ≠ .trap ctx (.ttyReceive t bytes)) →
        (∀ len, s.completesRead a ≠ some (t, len)) →
        (s.take a).ttyContents t = contents ∧
          inputLog t (s.take a).history.trace = log) ∧
      delivered log ++ contents = accepted log := by
  intro log contents
  have hfaithful := h.input t
  have hlog (s : Kernel) : inputLog t s.history.trace =
      (s.input t).events.filterMap inputTransfer := rfl
  have hcontents (s : Kernel) : s.ttyContents t = (s.input t).contents := rfl
  have hcall (i : Input) (p : PcbPtr) (len : Nat) :
      (i.call t p len).events.filterMap inputTransfer =
        i.events.filterMap inputTransfer := by
    simp [Input.call, inputTransfer]
  have hfinish (i : Input) (p : PcbPtr) (len : Nat) :
      (i.finish t p len).events.filterMap inputTransfer =
        i.events.filterMap inputTransfer ++
          [.get (i.taken len) (i.contents.take (i.taken len))
            (i.taken len)] := by
    simp [Input.finish, inputTransfer, i.taken_le len]
  refine ⟨?_, hfaithful.clear, fun ctx bytes _ => ?_, fun a len _ hreads => ?_,
    fun a _ hreceive hreads => ?_, replay_conserves hfaithful.replayed⟩
  · have hlength := replay_length_le hfaithful.replayed
    rw [Input.contents_length] at hlength
    exact hlength
  · have hstep : (s.take (.trap ctx (.ttyReceive t bytes))).input t =
        (s.input t).receive t bytes :=
      Kernel.trapTTYReceiveHandler_input (s := s.enter ctx) bytes
    refine ⟨?_, ?_, ?_⟩
    · rw [hcontents, hstep]
      exact Input.receive_contents _ _ _
    · exact (congrArg Input.tracker hstep :)
    · rw [hlog, hstep]
      have hlength : (bytes.take ((s.input t).accepts bytes)).length =
          (s.input t).accepts bytes :=
        List.length_take_of_le (Nat.min_le_left _ _)
      simp only [Input.receive, List.filterMap_append, List.filterMap_cons,
        inputTransfer, List.filterMap_nil, hlength]
      rfl
  · have hreg0 := Kernel.take_reg0 hreads
    have hstep := Kernel.take_inputStep (s := s) a t
    have hsome {a : Label} (hsleeps : s.completesRead a = none)
        (hreads : s.completesRead a = some (t, len)) : False := by
      rw [hsleeps] at hreads
      cases hreads
    refine ⟨hreg0, ?_⟩
    rw [hcontents, hlog]
    show _ ∧ ((s.take a).input t).tracker = _ ∧ _
    generalize (s.take a).input t = i at hstep
    cases hstep with
    | receives => cases hreads
    | sleeps _ hsleeps => exact (hsome hsleeps hreads).elim
    | @reads _ len' _ hreads' =>
        rw [hreads] at hreads'
        cases hreads'
        refine ⟨Input.finish_contents _ _ _ _, rfl, ?_⟩
        rw [hfinish, hcall]
        rfl
    | @resumes len' hreads' =>
        rw [hreads] at hreads'
        cases hreads'
        exact ⟨Input.finish_contents _ _ _ _, rfl, hfinish _ _ _⟩
    | other _ _ hother => exact absurd hreads (hother len)
  · have hstep := Kernel.take_inputStep (s := s) a t
    rw [hcontents, hlog]
    generalize (s.take a).input t = i at hstep
    cases hstep with
    | receives => exact absurd rfl (hreceive _ _)
    | sleeps _ _ => exact ⟨rfl, hcall _ _ _⟩
    | @reads _ len _ hreads' => exact absurd hreads' (hreads len)
    | @resumes len hreads' => exact absurd hreads' (hreads len)
    | other _ _ _ => exact ⟨rfl, rfl⟩

/-- Two lines arrive in one delivery, and one and a half of them are read. -/
theorem terminal_input_is_line_fifo_two_lines :
    let labels := tick ++ [.trap ⟨0, 0⟩ (.ttyReceive 0 [97, 98, 10, 99, 100, 10]),
      call (.ttyRead 0 10), call (.ttyRead 0 1)]
    let s := (Boot.small 20).kernelStart.run labels
    s.ttyContents 0 = [100, 10] ∧
      delivered (inputLog 0 s.history.trace) = [97, 98, 10, 99] ∧
      delivered (inputLog 0 s.history.trace) ++ s.ttyContents 0 =
        accepted (inputLog 0 s.history.trace) := by
  intro labels s
  have hreach : Reachable (fun _ _ => True) s :=
    reachable_small 20 labels (by decide +kernel) (by decide +kernel)
  exact ⟨by decide +kernel, by decide +kernel,
    (terminal_input_is_line_fifo hreach 0).2.2.2.2.2⟩

end Yalnix
