import Yalnix.Kernel.Process

/-!
# Terminal system calls and traps

`KernelTtyRead`, `KernelTtyWrite`, `TrapTTYReceiveHandler` and
`TrapTTYTransmitHandler`.  Terminals other than `0..3` are refused with `ERROR`
whatever the words beyond the tables hold.
-/

namespace Yalnix

/-- The loop of `KernelTtyRead` that stops behind the first newline. -/
def newlineScan (ttyBuffer : Buffer) : Nat → Nat → Nat
  | 0, bytesNum => bytesNum
  | rest + 1, bytesNum =>
      if ttyBuffer bytesNum = 10 then bytesNum + 1
      else newlineScan ttyBuffer rest (bytesNum + 1)

/-- The bytes that `KernelTtyRead` hands over. -/
def ttyReadCount (ttyBuffer : Buffer) (tracker len : Nat) : Nat :=
  let bytesNum := newlineScan ttyBuffer tracker 0
  if len < bytesNum then len else bytesNum

/-- The buffer after `bytesNum` of its `tracker` bytes were taken from the
front: the rest is saved, the buffer cleared and the rest copied back. -/
def ttyReadCompact (ttyBuffer : Buffer) (tracker bytesNum : Nat) : Buffer :=
  let tempBuffer := memcpy (fun _ => 0) 0 (fun i => ttyBuffer (bytesNum + i))
    (tracker - bytesNum)
  memcpy (memzero ttyBuffer tracker) 0 tempBuffer (tracker - bytesNum)

namespace Kernel

/-- `KernelTtyRead` behind its wait. -/
def ttyReadFinish (s : Kernel) (t len : Nat) : Kernel :=
  let ttyBuffer := s.ttyReadbuffers t
  let tracker := s.ttyReadTrackers t
  let bytesNum := ttyReadCount ttyBuffer tracker len
  let rest := ttyReadCompact ttyBuffer tracker bytesNum
  let s := (s.setReadBuffer t rest).setReadTracker t (tracker - bytesNum)
  let s := s.emit (.ttyReadReturn t s.activePCB (bytesOf ttyBuffer 0 bytesNum))
  match s.ttyReadQueues t with
  | [] => s.ret bytesNum
  | nextReader :: _ =>
      if rest 0 ≠ 0 then
        -- the next reader is only peeked at: it keeps its place in the queue
        ((s.setBlockedCode nextReader Blocked.notBlocked).queueAdd
          (some .readyQ) nextReader).ret bytesNum
      else s.ret bytesNum

def kernelTtyRead (s : Kernel) (ttyId len : Int) : Kernel :=
  if ttyId < 0 ∨ (numTerminals : Int) ≤ ttyId then s.ret Rc.error
  else if len < 0 then s.ret Rc.error
  else if len = 0 then s.ret 0
  else
    let t := ttyId.toNat
    let active := s.activePCB
    let s := s.emit (.ttyReadCall t active len.toNat)
    if s.ttyReadQueues t ≠ [] ∨ s.ttyReadbuffers t 0 = 0 then
      let s := s.setBlockedCode active Blocked.ttyRead
      let s := s.setTtyTerminal active t
      s.swapProcess (some (.ttyReadQueue t)) (.kernelTtyRead t len.toNat)
    else s.ttyReadFinish t len.toNat

/-- The hardware operation `TtyTransmit`. -/
def ttyTransmit (s : Kernel) (t : Nat) (chunk : List UInt8) : Kernel :=
  (s.emit (.ttyTransmit t s.activePCB chunk)).setTransmitting t
    (s.transmitting t + 1)

/-- The end of `KernelTtyWrite`: leave the queue and wake its next writer. -/
def ttyWriteFinish (s : Kernel) (t bytesWritten : Nat) : Kernel :=
  let rest := (s.ttyWriteQueues t).tail
  let s := s.setTtyWriteQueue t rest
  let s := s.emit (.ttyWriteReturn t s.activePCB bytesWritten)
  match rest with
  | [] => s.ret bytesWritten
  | nextWriter :: _ =>
      ((s.setBlockedCode nextWriter Blocked.notBlocked).queueAdd
        (some .readyQ) nextWriter).ret bytesWritten

/--
The outer loop of `KernelTtyWrite`.  Every round with bytes left either sleeps
or transmits at least one byte, so `bytesLeft` rounds are enough.
-/
def ttyWriteLoop (t : Nat) (buf : Buffer) (len : Nat) :
    Nat → Nat → Nat → Kernel → Kernel
  | 0, _, bytesWritten, s => s.ttyWriteFinish t bytesWritten
  | rounds + 1, bytesLeft, bytesWritten, s =>
      if bytesLeft = 0 then s.ttyWriteFinish t bytesWritten
      else if s.ttyWriteTrackers t = .terminalClosed then
        let active := s.activePCB
        let s := s.setBlockedCode active Blocked.ttyTransmit
        let s := s.setTtyTerminal active t
        s.swapProcess none (.kernelTtyWrite t buf len bytesLeft bytesWritten)
      else
        let s := s.setWriteTracker t .terminalClosed
        let toWrite :=
          if terminalMaxLine < bytesLeft then terminalMaxLine else bytesLeft
        let s := s.ttyTransmit t (bytesOf buf bytesWritten toWrite)
        ttyWriteLoop t buf len rounds (bytesLeft - toWrite)
          (bytesWritten + toWrite) s

def kernelTtyWrite (s : Kernel) (ttyId : Int) (buf : Buffer) (len : Int) :
    Kernel :=
  if ttyId < 0 ∨ (numTerminals : Int) ≤ ttyId then s.ret Rc.error
  else if len < 0 then s.ret Rc.error
  else if len = 0 then s.ret 0
  else
    let t := ttyId.toNat
    let active := s.activePCB
    let s := s.setTtyWriteQueue t (s.ttyWriteQueues t ++ [active])
    let s := s.emit (.ttyWriteCall t active (bytesOf buf 0 len.toNat))
    if s.pcb.pid ((s.ttyWriteQueues t).headD active) ≠ s.pcb.pid active then
      let s := s.setBlockedCode active Blocked.ttyWrite
      let s := s.setTtyTerminal active t
      s.swapProcess none (.kernelTtyWrite t buf len.toNat len.toNat 0)
    else ttyWriteLoop t buf len.toNat len.toNat len.toNat 0 s

/-- `TrapTTYReceiveHandler`, with the bytes that `TtyReceive` delivers. -/
def trapTTYReceiveHandler (s : Kernel) (t : Nat) (bytes : List UInt8) :
    Kernel :=
  let tracker := s.ttyReadTrackers t
  let toCopy :=
    if terminalMaxLine - tracker < bytes.length then terminalMaxLine - tracker
    else bytes.length
  let s := s.setReadBuffer t
    (memcpy (s.ttyReadbuffers t) tracker (fun i => bytes.getD i 0) toCopy)
  let s := s.setReadTracker t (tracker + toCopy)
  let s := s.emit (.ttyReceive t (bytes.take toCopy))
  match s.ttyReadQueues t with
  | [] => s.toUser
  | nextReader :: rest =>
      let s := s.setTtyReadQueue t rest
      ((s.setBlockedCode nextReader Blocked.notBlocked).queueAdd
        (some .readyQ) nextReader).toUser

/-- `TrapTTYTransmitHandler`: the terminal's transmission is over. -/
def trapTTYTransmitHandler (s : Kernel) (t : Nat) : Kernel :=
  let s := s.emit (.ttyTransmitTrap t)
  let s := s.setTransmitting t (s.transmitting t - 1)
  let s := s.setWriteTracker t .terminalOpen
  match s.ttyWriteQueues t with
  | [] => s.toUser
  | head :: _ =>
      if s.pcb.pid s.activePCB ≠ s.pcb.pid head then
        let checked := s.checkBlocked head
        (checked.2.queueAdd checked.1 head).toUser
      else s.toUser

end Kernel

end Yalnix
