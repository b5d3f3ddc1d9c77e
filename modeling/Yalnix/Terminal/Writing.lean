import Yalnix.Process.Population

/-!
# The writers of the terminals

`writing` keeps what the calls to `TtyWrite` depend on: the write queues and
the trackers of the terminals, the ready queue, and what every process is
suspended in.  Stale entries of `blocked_q` are not seen here.
-/

namespace Yalnix

/-- The writers, without the rest of the kernel.  A process in user mode is not
suspended, and its context stands as `kernelStart`. -/
structure Writing where
  active : PcbPtr
  idle : PcbPtr
  ready : List PcbPtr
  queue : Nat → List PcbPtr
  tracker : Nat → TerminalStatus
  code : PcbPtr → Int
  terminal : PcbPtr → Nat
  context : PcbPtr → KernelContext
  events : List Event

namespace Writing

/-- The active process returns to user mode. -/
def run (v : Writing) : Writing :=
  { v with context := upd v.context v.active .kernelStart }

/-- `SwapProcess`, with the active process back on the ready queue or not. -/
def swap (v : Writing) (requeue : Bool) (k : KernelContext) : Writing :=
  { v with
    active := v.ready.headD v.idle
    ready := v.ready.tail ++ if requeue then [v.active] else []
    context := upd v.context v.active k }

def block (v : Writing) (code : Int) : Writing :=
  { v with code := upd v.code v.active code }

def wake (v : Writing) (p : PcbPtr) : Writing :=
  { v with
    code := upd v.code p Blocked.notBlocked
    ready := v.ready ++ [p] }

def setTerminal (v : Writing) (p : PcbPtr) (t : Nat) : Writing :=
  { v with terminal := upd v.terminal p t }

def setQueue (v : Writing) (t : Nat) (q : List PcbPtr) : Writing :=
  { v with queue := upd v.queue t q }

def setTracker (v : Writing) (t : Nat) (status : TerminalStatus) : Writing :=
  { v with tracker := upd v.tracker t status }

def emit (v : Writing) (e : Event) : Writing :=
  { v with events := v.events ++ [e] }

/-- A process is made, and is ready if the fork succeeds. -/
def make (v : Writing) (c : PcbPtr) : Writing :=
  { v with
    code := upd v.code c Blocked.notBlocked
    terminal := upd v.terminal c 0 }

def fork (v : Writing) (c : PcbPtr) : Writing :=
  { v.make c with
    ready := v.ready ++ [c]
    context := upd v.context c .kernelFork }

/-- The writer sleeps until the terminal's transmission is over. -/
def sleep (v : Writing) (t : Nat) (k : KernelContext) : Writing :=
  ((v.block Blocked.ttyTransmit).setTerminal v.active t).swap false k

/-- The terminal is taken and a chunk handed to it. -/
def transmit (v : Writing) (t : Nat) (chunk : List UInt8) : Writing :=
  (v.setTracker t .terminalClosed).emit (.ttyTransmit t v.active chunk)

/-- The head leaves the write queue, and the next writer becomes ready. -/
def finish (v : Writing) (t : Nat) (result : Int) : Writing :=
  let rest := (v.queue t).tail
  let v := (v.setQueue t rest).emit (.ttyWriteReturn t v.active result)
  match rest with
  | [] => v.run
  | next :: _ => (v.wake next).run

/-- The loop of `KernelTtyWrite` up to its next sleep or its end. -/
def write (v : Writing) (t : Nat) (buf : Buffer) (len left written : Nat) :
    Writing :=
  if v.tracker t = .terminalClosed then
    v.sleep t (.kernelTtyWrite t buf len left written)
  else if terminalMaxLine < left then
    (v.transmit t (bytesOf buf written terminalMaxLine)).sleep t
      (.kernelTtyWrite t buf len (left - terminalMaxLine)
        (written + terminalMaxLine))
  else
    (v.transmit t (bytesOf buf written left)).finish t
      ((written + left : Nat) : Int)

/-- `TtyWrite` enters the write queue. -/
def enter (v : Writing) (t : Nat) (bytes : List UInt8) : Writing :=
  (v.setQueue t (v.queue t ++ [v.active])).emit
    (.ttyWriteCall t v.active bytes)

/-- The terminal reports the end of a transmission. -/
def opened (v : Writing) (t : Nat) : Writing :=
  (v.emit (.ttyTransmitTrap t)).setTracker t .terminalOpen

/-- `CheckBlocked` wakes a process whose delay is over, or a writer whose
terminal is open. -/
def recheck (v : Writing) (p : PcbPtr) (ticks : Int) : Writing :=
  if v.code p = Blocked.delay then
    if 0 < ticks then v else v.wake p
  else if v.code p = Blocked.ttyTransmit then
    if v.tracker (v.terminal p) = .terminalOpen then
      (v.wake p).setTerminal p 0
    else v
  else v

/-- A scan of blocked processes. -/
inductive Scanned : Writing → Writing → Prop where
  | done {v : Writing} : Scanned v v
  | next {v v' : Writing} (p : PcbPtr) (ticks : Int) :
      Scanned (v.recheck p ticks) v' → Scanned v v'

end Writing

namespace Kernel

variable {s s' : Kernel}

def writing (s : Kernel) : Writing :=
  { active := s.activePCB
    idle := s.idlePCB
    ready := s.readyQ
    queue := s.ttyWriteQueues
    tracker := s.ttyWriteTrackers
    code := s.pcb.blockedCode
    terminal := s.pcb.ttyTerminal
    context :=
      if s.mode = .user then upd s.pcb.kernelContext s.activePCB .kernelStart
      else s.pcb.kernelContext
    events := s.history.trace.filter Event.atDevice }

theorem writing_of_core (hcore : s'.core = s.core)
    (hdevices : s'.devices = s.devices) : s'.writing = s.writing := by
  have htracker : s'.ttyWriteTrackers = s.ttyWriteTrackers :=
    (congrArg Devices.writeTrackers hdevices :)
  have hevents : s'.history.trace.filter Event.atDevice =
      s.history.trace.filter Event.atDevice :=
    (congrArg Devices.events hdevices :)
  have hrest : { s'.core.writing with
        tracker := fun _ => .terminalOpen
        events := [] } =
      { s.core.writing with
        tracker := fun _ => .terminalOpen
        events := [] } := by
    rw [hcore]
  have hview (k : Kernel) : k.writing =
      { ({ k.core.writing with
          tracker := fun _ => .terminalOpen
          events := [] } : Writing) with
        tracker := k.ttyWriteTrackers
        events := k.history.trace.filter Event.atDevice } := rfl
  rw [hview s', hview s, hrest, htracker, hevents]

theorem writing_of_kernel (h : s.mode = .kernel) :
    s.writing.context = s.pcb.kernelContext := by
  unfold writing
  rw [h]
  rfl

theorem run_of_user (h : s.mode = .user) : s.writing.run = s.writing := by
  unfold Writing.run writing
  simp only [h, if_true]
  rw [upd_upd]

/-! ## Operations -/

@[simp] theorem setReadyQ_writing (q : List PcbPtr) :
    (s.setReadyQ q).writing = { s.writing with ready := q } := rfl

@[simp] theorem setBlockedQ_writing (q : List PcbPtr) :
    (s.setBlockedQ q).writing = s.writing := rfl

@[simp] theorem setClockTicks_writing (p : PcbPtr) (ticks : Int) :
    (s.setClockTicks p ticks).writing = s.writing := rfl

@[simp] theorem setBlockedCode_writing (code : Int) :
    (s.setBlockedCode s.activePCB code).writing = s.writing.block code := rfl

@[simp] theorem setTtyTerminal_writing (p : PcbPtr) (t : Nat) :
    (s.setTtyTerminal p t).writing = s.writing.setTerminal p t := rfl

@[simp] theorem setTtyWriteQueue_writing (t : Nat) (q : List PcbPtr) :
    (s.setTtyWriteQueue t q).writing = s.writing.setQueue t q := rfl

@[simp] theorem setWriteTracker_writing (t : Nat) (status : TerminalStatus) :
    (s.setWriteTracker t status).writing = s.writing.setTracker t status := rfl

@[simp] theorem setTransmitting_writing (t n : Nat) :
    (s.setTransmitting t n).writing = s.writing := rfl

theorem emit_writing {e : Event} (h : e.atDevice = true) :
    (s.emit e).writing = s.writing.emit e := by
  unfold writing emit setHistory Writing.emit
  simp [h]

@[simp] theorem ret_writing (result : Int) :
    (s.ret result).writing = s.writing.run := by
  unfold writing ret setReg0 setMode Writing.run
  simp only [if_true]
  split
  · rw [upd_upd]
  · rfl

@[simp] theorem toUser_writing : s.toUser.writing = s.writing.run :=
  ret_writing (s := s) 0

/-! ## Switching -/

/-- Whether `SwapProcess` puts the active process back on the ready queue. -/
def requeues (s : Kernel) (q : Option QueueRef) : Bool :=
  decide (q = some .readyQ ∧ s.activePCB ≠ s.idlePCB)

theorem swapped_devices {q : Option QueueRef} {k : KernelContext} :
    (s.swapped q k).devices = s.devices := by
  unfold swapped
  split
  · rfl
  · rcases (if s.pcb.pid s.activePCB = s.pcb.pid s.idlePCB then none
      else q) with _ | q
    · rfl
    · cases q <;> rfl

theorem switched_writing {q : Option QueueRef} {k : KernelContext}
    (hq : q = none ∨ q = some .readyQ ∨ q = some .blockedQ) :
    (s.switched q k).writing =
      s.writing.swap (decide (q = some .readyQ)) k := by
  have hcontext : upd s.writing.context s.activePCB k =
      upd s.pcb.kernelContext s.activePCB k := by
    unfold writing
    simp only
    split
    · exact upd_upd _ _ _ _
    · rfl
  have hview : s.writing.swap (decide (q = some .readyQ)) k =
      { s.writing with
        active := s.readyQ.headD s.idlePCB
        ready := s.readyQ.tail ++
          if decide (q = some .readyQ) then [s.activePCB] else []
        context := upd s.pcb.kernelContext s.activePCB k } := by
    rw [← hcontext]
    rfl
  rw [hview]
  rcases hq with rfl | rfl | rfl
  · simp only [reduceCtorEq, decide_false, Bool.false_eq_true, if_false,
      List.append_nil]
    rfl
  · rfl
  · simp only [Option.some.injEq, reduceCtorEq, decide_false,
      Bool.false_eq_true, if_false, List.append_nil]
    rfl

theorem swapProcess_writing {q : Option QueueRef} {k : KernelContext}
    (hidle : s.pcb.pid s.activePCB = s.pcb.pid s.idlePCB →
      s.activePCB = s.idlePCB)
    (hq : q = none ∨ q = some .readyQ ∨ q = some .blockedQ) :
    (s.swapProcess q k).writing = s.writing.swap (s.requeues q) k := by
  have hswapped : (s.swapProcess q k).writing = (s.swapped q k).writing := by
    refine writing_of_core ?_ ?_
    · rw [swapProcess_core, swapped_core]
    · rw [swapProcess_devices, swapped_devices]
  rw [hswapped]
  by_cases hpid : s.pcb.pid s.activePCB = s.pcb.pid s.idlePCB
  · have hactive := hidle hpid
    have hnot : s.requeues q = false := by
      simp [requeues, hactive]
    have hnone := switched_writing (s := s) (q := none) (k := k) (.inl rfl)
    rw [hnot]
    unfold swapped
    split
    · rename_i halone
      rw [show s.writing.swap false k = (s.switched none k).writing from
        hnone.symm]
      unfold switched nextProcess
      rw [halone.2]
      simp only [List.tail_nil, List.headD_nil, ← hactive]
      rw [← halone.2]
      rfl
    · exact hnone
  · have hne : s.activePCB ≠ s.idlePCB := fun heq => hpid (by rw [heq])
    have hsame : s.requeues q = decide (q = some .readyQ) := by
      simp [requeues, hne]
    unfold swapped
    rw [if_neg fun halone => hpid halone.1, if_neg hpid, hsame]
    exact switched_writing hq

/-! ## Scanning -/

theorem checkBlocked_writing (p : PcbPtr) :
    ((s.checkBlocked p).2.queueAdd (s.checkBlocked p).1 p).writing =
      s.writing.recheck p (s.pcb.clockTicks p) := by
  have hcode : s.writing.code = s.pcb.blockedCode := rfl
  have htracker : s.writing.tracker = s.ttyWriteTrackers := rfl
  have hterminal : s.writing.terminal = s.pcb.ttyTerminal := rfl
  unfold checkBlocked Writing.recheck
  rw [hcode, htracker, hterminal]
  split
  · split
    · rfl
    · rfl
  · split
    · split
      · rfl
      · rfl
    · rfl

theorem blockedScan_writing (limit : Nat) :
    Writing.Scanned s.writing (blockedScan limit s).writing := by
  induction limit generalizing s with
  | zero => exact .done
  | succ limit ih =>
      unfold blockedScan
      split
      · exact ih
      · rename_i p rest _
        apply Writing.Scanned.next p (s.pcb.clockTicks p)
        have hcheck := checkBlocked_writing (s := s.setBlockedQ rest) p
        rw [setBlockedQ_writing] at hcheck
        have hrest := ih (s := ((s.setBlockedQ rest).checkBlocked p).2.queueAdd
          ((s.setBlockedQ rest).checkBlocked p).1 p)
        rw [hcheck] at hrest
        exact hrest

/-! ## Writing -/

theorem ttyTransmit_writing (t : Nat) (chunk : List UInt8) :
    ((s.setWriteTracker t .terminalClosed).ttyTransmit t chunk).writing =
      s.writing.transmit t chunk := by
  unfold ttyTransmit
  rw [setTransmitting_writing, emit_writing rfl, setWriteTracker_writing]
  rfl

theorem ttyWriteFinish_writing (t written : Nat) :
    (s.ttyWriteFinish t written).writing =
      s.writing.finish t (written : Int) := by
  have hpop : ((s.setTtyWriteQueue t (s.ttyWriteQueues t).tail).emit
      (.ttyWriteReturn t s.activePCB written)).writing =
      (s.writing.setQueue t (s.ttyWriteQueues t).tail).emit
        (.ttyWriteReturn t s.activePCB written) := by
    rw [emit_writing rfl, setTtyWriteQueue_writing]
  have hqueue : s.writing.queue t = s.ttyWriteQueues t := rfl
  have hactive : s.writing.active = s.activePCB := rfl
  unfold ttyWriteFinish Writing.finish
  simp only [hqueue, hactive]
  cases hrest : (s.ttyWriteQueues t).tail with
  | nil =>
      rw [hrest] at hpop
      rw [ret_writing]
      exact congrArg Writing.run hpop
  | cons next rest =>
      rw [hrest] at hpop
      rw [ret_writing, ← hpop]
      rfl

theorem ttyWriteSleep_writing {t : Nat} {k : KernelContext}
    (hidle : s.pcb.pid s.activePCB = s.pcb.pid s.idlePCB →
      s.activePCB = s.idlePCB) :
    (((s.setBlockedCode s.activePCB Blocked.ttyTransmit).setTtyTerminal
      s.activePCB t).swapProcess none k).writing = s.writing.sleep t k := by
  rw [swapProcess_writing (s := (s.setBlockedCode s.activePCB
    Blocked.ttyTransmit).setTtyTerminal s.activePCB t) hidle (.inl rfl),
    setTtyTerminal_writing, setBlockedCode_writing]
  rfl

/-- With bytes left the loop sleeps, or transmits one chunk and then sleeps or
ends. -/
theorem ttyWriteLoop_writing {t : Nat} {buf : Buffer}
    {len left written : Nat} (hleft : 0 < left)
    (hidle : s.pcb.pid s.activePCB = s.pcb.pid s.idlePCB →
      s.activePCB = s.idlePCB) :
    (ttyWriteLoop t buf len left left written s).writing =
      s.writing.write t buf len left written := by
  obtain ⟨rounds, rfl⟩ : ∃ rounds, left = rounds + 1 :=
    ⟨left - 1, by omega⟩
  have htracker : s.writing.tracker t = s.ttyWriteTrackers t := rfl
  rw [ttyWriteLoop, if_neg (Nat.succ_ne_zero _)]
  unfold Writing.write
  rw [htracker]
  split
  · exact ttyWriteSleep_writing hidle
  · by_cases hlong : terminalMaxLine < rounds + 1
    · simp only [if_pos hlong]
      obtain ⟨rounds', rfl⟩ : ∃ rounds', rounds = rounds' + 1 :=
        ⟨rounds - 1, by simp only [terminalMaxLine] at hlong; omega⟩
      have hclosed : ((s.setWriteTracker t .terminalClosed).ttyTransmit t
          (bytesOf buf written terminalMaxLine)).ttyWriteTrackers t =
            .terminalClosed := upd_same _ _ _
      rw [ttyWriteLoop, if_neg (by omega), if_pos hclosed,
        ← ttyTransmit_writing]
      exact ttyWriteSleep_writing (s := (s.setWriteTracker t
        .terminalClosed).ttyTransmit t (bytesOf buf written terminalMaxLine))
        hidle
    · simp only [if_neg hlong, Nat.sub_self]
      cases rounds with
      | zero => rw [ttyWriteLoop, ttyWriteFinish_writing, ttyTransmit_writing]
      | succ rounds =>
          rw [ttyWriteLoop, if_pos rfl, ttyWriteFinish_writing,
            ttyTransmit_writing]

/-! ## Calls and traps -/

variable {ctx : UserContext}

theorem kernelDelay_writing {ticks : Int} (hmode : s.mode = .user)
    (hidle : s.pcb.pid s.activePCB = s.pcb.pid s.idlePCB →
      s.activePCB = s.idlePCB) :
    (s.kernelDelay ticks).writing = s.writing ∨
      (s.kernelDelay ticks).writing =
        (s.writing.block Blocked.delay).swap false .kernelDelay := by
  unfold kernelDelay
  split
  · exact .inl (by rw [ret_writing, run_of_user hmode])
  · split
    · exact .inl (by rw [ret_writing, run_of_user hmode])
    · refine .inr ?_
      simp only
      rw [swapProcess_writing (s := (s.setClockTicks s.activePCB
        ticks).setBlockedCode s.activePCB Blocked.delay) hidle
        (.inr (.inr rfl))]
      rfl

theorem trapClockHandler_writing
    (hidle : s.pcb.pid s.activePCB = s.pcb.pid s.idlePCB →
      s.activePCB = s.idlePCB) :
    s.trapClockHandler.writing =
      s.writing.swap (decide (s.activePCB ≠ s.idlePCB)) .trapClockHandler := by
  have hrequeues : ({ s with globalClockTicks := s.globalClockTicks + 1 } :
      Kernel).requeues (some .readyQ) =
        decide (s.activePCB ≠ s.idlePCB) := by
    simp [requeues]
  rw [← hrequeues]
  exact swapProcess_writing (s := { s with
    globalClockTicks := s.globalClockTicks + 1 }) hidle (.inr (.inl rfl))

theorem kernelTtyWrite_writing {ttyId : Int} {buf : Buffer} {len : Int}
    (hmode : s.mode = .user)
    (hpid : ∀ p ∈ s.ttyWriteQueues ttyId.toNat,
      s.pcb.pid p = s.pcb.pid s.activePCB → p = s.activePCB)
    (hidle : s.pcb.pid s.activePCB = s.pcb.pid s.idlePCB →
      s.activePCB = s.idlePCB) :
    (s.kernelTtyWrite ttyId buf len).writing = s.writing ∨
      0 < len ∧ ttyId.toNat < numTerminals ∧
        let v := s.writing.enter ttyId.toNat (bytesOf buf 0 len.toNat)
        (s.kernelTtyWrite ttyId buf len).writing =
          if (v.queue ttyId.toNat).head? = some v.active then
            v.write ttyId.toNat buf len.toNat len.toNat 0
          else
            ((v.block Blocked.ttyWrite).setTerminal v.active
              ttyId.toNat).swap false
                (.kernelTtyWrite ttyId.toNat buf len.toNat len.toNat 0) := by
  unfold kernelTtyWrite
  split
  · exact .inl (by rw [ret_writing, run_of_user hmode])
  · rename_i hrange
    split
    · exact .inl (by rw [ret_writing, run_of_user hmode])
    · split
      · exact .inl (by rw [ret_writing, run_of_user hmode])
      · refine .inr ⟨by omega, ?_, ?_⟩
        · simp only [numTerminals] at hrange ⊢
          omega
        · let s₁ := (s.setTtyWriteQueue ttyId.toNat (s.ttyWriteQueues
            ttyId.toNat ++ [s.activePCB])).emit (.ttyWriteCall ttyId.toNat
              s.activePCB (bytesOf buf 0 len.toNat))
          have henter : s₁.writing = s.writing.enter ttyId.toNat
              (bytesOf buf 0 len.toNat) := by
            show ((s.setTtyWriteQueue ttyId.toNat _).emit _).writing = _
            rw [emit_writing rfl, setTtyWriteQueue_writing]
            rfl
          have hqueue : s₁.ttyWriteQueues ttyId.toNat =
              s.ttyWriteQueues ttyId.toNat ++ [s.activePCB] := upd_same _ _ _
          have hhead : (s₁.writing.queue ttyId.toNat).head? =
              some s₁.writing.active ↔
                s.pcb.pid ((s₁.ttyWriteQueues ttyId.toNat).headD s.activePCB) =
                  s.pcb.pid s.activePCB := by
            show (s₁.ttyWriteQueues ttyId.toNat).head? = _ ↔ _
            rw [hqueue]
            cases hcons : s.ttyWriteQueues ttyId.toNat with
            | nil => exact iff_of_true rfl rfl
            | cons head rest =>
                have hmem : head ∈ s.ttyWriteQueues ttyId.toNat :=
                  hcons ▸ List.mem_cons_self
                constructor
                · intro heq
                  injection heq with heq
                  exact congrArg s.pcb.pid heq
                · intro heq
                  exact congrArg some (hpid head hmem heq)
          have hlen : 0 < len.toNat := by omega
          simp only [← henter]
          by_cases hfirst : s.pcb.pid ((s₁.ttyWriteQueues
              ttyId.toNat).headD s.activePCB) = s.pcb.pid s.activePCB
          · rw [if_neg fun hne => hne hfirst, if_pos (hhead.2 hfirst)]
            exact ttyWriteLoop_writing (s := s₁) hlen hidle
          · have hother : s₁.pcb.pid ((s₁.ttyWriteQueues
                ttyId.toNat).headD s.activePCB) ≠ s₁.pcb.pid s.activePCB :=
              hfirst
            rw [if_pos hother, if_neg fun heq => hfirst (hhead.1 heq),
              swapProcess_writing (s := (s₁.setBlockedCode s.activePCB
              Blocked.ttyWrite).setTtyTerminal s.activePCB ttyId.toNat) hidle
              (.inl rfl)]
            rfl

theorem trapTTYTransmitHandler_writing {t : Nat}
    (hpid : ∀ p ∈ s.ttyWriteQueues t,
      s.pcb.pid s.activePCB ≠ s.pcb.pid p) :
    (s.trapTTYTransmitHandler t).writing =
      match s.ttyWriteQueues t with
      | [] => (s.writing.opened t).run
      | head :: _ =>
          ((s.writing.opened t).recheck head (s.pcb.clockTicks head)).run := by
  let s₁ := ((s.emit (.ttyTransmitTrap t)).setTransmitting t
    ((s.emit (.ttyTransmitTrap t)).transmitting t - 1)).setWriteTracker t
      .terminalOpen
  have hopened : s₁.writing = s.writing.opened t := by
    show (((s.emit (.ttyTransmitTrap t)).setTransmitting t _).setWriteTracker t
      .terminalOpen).writing = _
    rw [setWriteTracker_writing, setTransmitting_writing, emit_writing rfl]
    rfl
  have hqueue : s₁.ttyWriteQueues t = s.ttyWriteQueues t := rfl
  have hhandler : s.trapTTYTransmitHandler t =
      match s₁.ttyWriteQueues t with
      | [] => s₁.toUser
      | head :: _ =>
          if s₁.pcb.pid s₁.activePCB ≠ s₁.pcb.pid head then
            ((s₁.checkBlocked head).2.queueAdd (s₁.checkBlocked head).1
              head).toUser
          else s₁.toUser := rfl
  rw [hhandler, hqueue]
  cases hcons : s.ttyWriteQueues t with
  | nil =>
      simp only
      rw [toUser_writing, hopened]
  | cons head rest =>
      have hne : s₁.pcb.pid s₁.activePCB ≠ s₁.pcb.pid head :=
        hpid head (hcons ▸ List.mem_cons_self)
      simp only [if_pos hne]
      rw [toUser_writing, checkBlocked_writing, hopened]
      rfl

end Kernel

end Yalnix
