import Yalnix.Kernel.Process

/-!
# Pipes

`pipe.c` and the pipe system calls.  The wake-up loops of `KernelPipeRead` and
`KernelPipeWrite` compare with `=`: every process they pop from `blocked_q` is
given the pid of the waiter, and the test is whether that pid is nonzero.
-/

namespace Yalnix

/-- The loop that moves the unread bytes of a pipe to the front. -/
def shiftDown (buf : Buffer) (len count : Nat) : Buffer :=
  (List.range count).foldl (fun b i => upd b i (b (i + len))) buf

namespace Pipe

/-- The copying part of `KernelPipeRead`: bytes, new pipe, amount read. -/
def read (p : Pipe) (len : Nat) : List UInt8 × Pipe × Nat :=
  if len < p.plen then
    (bytesOf p.buf 0 len,
      { p with
        buf := shiftDown p.buf len (p.plen - len)
        plen := p.plen - len },
      len)
  else
    (bytesOf p.buf 0 p.plen,
      { p with buf := memzero p.buf p.plen, plen := 0 }, p.plen)

/-- The copying part of `KernelPipeWrite`: new pipe, amount written. -/
def write (p : Pipe) (buf : Buffer) (len : Nat) : Pipe × Nat :=
  let availableSpace := pipeBufferLen - p.plen
  if len ≤ availableSpace then
    ({ p with buf := memcpy p.buf p.plen buf len, plen := p.plen + len }, len)
  else
    ({ p with
      buf := memcpy p.buf p.plen buf availableSpace
      plen := p.plen + availableSpace },
      availableSpace)

end Pipe

/-! ## Wake-ups -/

/-- What the wake-up loops write. -/
structure PipeWake where
  pid : PcbPtr → Nat
  blockedCode : PcbPtr → Int
  readyQ : List PcbPtr
  blockedQ : List PcbPtr
  queue : List PcbPtr

/--
The search of `KernelPipeRead` through `blocked_q`: the process it stops at,
what is left of the queue, and the pids.
-/
def takeBlocked (waiter : PcbPtr) :
    Nat → List PcbPtr → (PcbPtr → Nat) →
      Option PcbPtr × List PcbPtr × (PcbPtr → Nat)
  | 0, blocked, pid => (none, blocked, pid)
  | _ + 1, [], pid => (none, [], pid)
  | limit + 1, curr :: blocked, pid =>
      let pid := upd pid curr (pid waiter)
      if pid curr ≠ 0 then (some curr, blocked, pid)
      else takeBlocked waiter limit (blocked ++ [curr]) pid

/--
The wake-up of `KernelPipeRead`, with the bytes left in the pipe.  With bytes
left the waiter itself is made ready, otherwise the process found is.
-/
def wakeAfterRead (plen : Nat) (st : PipeWake) : PipeWake :=
  match st.queue with
  | [] => st
  | waiter :: queue =>
      let found := takeBlocked waiter st.blockedQ.length st.blockedQ st.pid
      { pid := found.2.2
        blockedCode := upd st.blockedCode waiter Blocked.notBlocked
        readyQ :=
          if 0 < plen then st.readyQ ++ [waiter]
          else
            match found.1 with
            | none => st.readyQ
            | some curr => st.readyQ ++ [curr]
        blockedQ := found.2.1
        queue := queue }

/-- The inner loop of the broadcast of `KernelPipeWrite`, bounded by the size
that `blocked_q` still has. -/
def broadcastInner (waiter : PcbPtr) : Nat → Nat → PipeWake → PipeWake
  | 0, _, st => st
  | fuel + 1, i, st =>
      if i < st.blockedQ.length then
        match st.blockedQ with
        | [] => st
        | curr :: blocked =>
            let pid := upd st.pid curr (st.pid waiter)
            broadcastInner waiter fuel (i + 1)
              (if pid curr ≠ 0 then
                { st with
                  pid := pid
                  readyQ := st.readyQ ++ [curr]
                  blockedQ := blocked }
              else { st with pid := pid, blockedQ := blocked ++ [curr] })
      else st

/-- The outer loop, bounded by the size that the pipe's queue still has. -/
def broadcast : Nat → Nat → PipeWake → PipeWake
  | 0, _, st => st
  | fuel + 1, i, st =>
      if i < st.queue.length then
        match st.queue with
        | [] => st
        | waiter :: queue =>
            broadcast fuel (i + 1)
              (broadcastInner waiter st.blockedQ.length 0
                { st with
                  queue := queue
                  blockedCode :=
                    upd st.blockedCode waiter Blocked.notBlocked })
      else st

namespace Kernel

/-- `get_pipe`. -/
def getPipe (s : Kernel) (id : Int) : Option PipePtr :=
  s.pipeChain.find? fun p => decide ((s.pipes p).id = id)

/-- The last pipe of the list, whose id `add_pipe` counts on from. -/
def tailPipe (s : Kernel) : Option PipePtr := s.pipeChain.getLast?

/-- `add_pipe`, returning the new id. -/
def addPipe (s : Kernel) : Int × Kernel :=
  let new := s.npipes
  let id :=
    match s.tailPipe with
    | none => 0
    | some tail => (s.pipes tail).id + 1
  (id,
    { s with
      pipes := upd s.pipes new ⟨fun _ => 0, 0, id, false, []⟩
      npipes := s.npipes + 1
      pipeChain := s.pipeChain ++ [new] })

def kernelPipeInit (s : Kernel) (pipeIdpNonNull : Bool) : Kernel :=
  if !pipeIdpNonNull then s.ret Rc.error
  else (s.addPipe.2.emit (.pipeInit s.npipes)).ret 0

def pipeWake (s : Kernel) (p : PipePtr) : PipeWake :=
  { pid := s.pcb.pid
    blockedCode := s.pcb.blockedCode
    readyQ := s.readyQ
    blockedQ := s.blockedQ
    queue := (s.pipes p).queue }

/-- The state after a wake-up on pipe `p`. -/
def afterWake (s : Kernel) (p : PipePtr) (st : PipeWake) : Kernel :=
  let s := s.setPcb { s.pcb with pid := st.pid, blockedCode := st.blockedCode }
  let s := (s.setReadyQ st.readyQ).setBlockedQ st.blockedQ
  s.setPipe p { s.pipes p with queue := st.queue }

/-- The active process sleeps in `blocked_q` and in the pipe's queue. -/
def pipeSleep (s : Kernel) (p : PipePtr) (code : Int)
    (resumeAt : KernelContext) : Kernel :=
  let active := s.activePCB
  let s := s.setBlockedCode active code
  let s := s.setPipe p
    { s.pipes p with queue := (s.pipes p).queue ++ [active] }
  s.swapProcess (some .blockedQ) resumeAt

/-- The copying and the wake-up of a `KernelPipeRead` that finds bytes.  The
pipe is marked as used meanwhile and free again at the end. -/
def pipeReadFinish (s : Kernel) (p : PipePtr) (len : Nat) : Kernel :=
  let result := (s.pipes p).read len
  let s := s.emit
    (.pipeRead p s.activePCB len result.1 result.2.2)
  let s := s.setPipe p { result.2.1 with beingUsed := false }
  let s := s.afterWake p (wakeAfterRead (s.pipes p).plen (s.pipeWake p))
  s.ret result.2.2

/-- The `while` of `KernelPipeRead`, where it also resumes. -/
def pipeReadLoop (s : Kernel) (p : PipePtr) (len : Nat) : Kernel :=
  if (s.pipes p).plen = 0 then
    s.pipeSleep p Blocked.pipeRead (.kernelPipeRead p len)
  else s.pipeReadFinish p len

/-- `KernelPipeRead`.  The head pipe has no initialised queue. -/
def kernelPipeRead (s : Kernel) (pipeId : Int) (bufNonNull : Bool)
    (len : Int) : Kernel :=
  if !bufNonNull then s.ret Rc.error
  else if len < 0 ∨ (pipeBufferLen : Int) < len then s.ret Rc.error
  else
    match s.getPipe pipeId with
    | none => s.ret Rc.error
    | some p =>
        if s.pipeChain.head? = some p then s.toUndefined
        else if (s.pipes p).beingUsed then
          s.pipeSleep p Blocked.pipeRead (.kernelPipeRead p len.toNat)
        else s.pipeReadLoop p len.toNat

/-- The copying and the broadcast of a `KernelPipeWrite` on a free pipe. -/
def pipeWriteFinish (s : Kernel) (p : PipePtr) (buf : Buffer) (len : Nat) :
    Kernel :=
  let result := (s.pipes p).write buf len
  let s := s.emit (.pipeWrite p s.activePCB (bytesOf buf 0 len) result.2)
  let s := s.setPipe p { result.1 with beingUsed := false }
  let st := s.pipeWake p
  let s := s.afterWake p (broadcast st.queue.length 0 st)
  s.ret result.2

/-- The `while` of `KernelPipeWrite`, where it also resumes. -/
def pipeWriteLoop (s : Kernel) (p : PipePtr) (buf : Buffer) (len : Nat) :
    Kernel :=
  if (s.pipes p).beingUsed then
    s.pipeSleep p Blocked.pipeWrite (.kernelPipeWrite p buf len)
  else s.pipeWriteFinish p buf len

/-- `KernelPipeWrite`.  A pipe that is not found is reported, and then used
through its NULL pointer. -/
def kernelPipeWrite (s : Kernel) (pipeId : Int) (buf : Option Buffer)
    (len : Int) : Kernel :=
  if pipeId ≤ 0 then s.ret Rc.error
  else if len < 0 ∨ (pipeBufferLen : Int) < len then s.ret Rc.error
  else
    match buf with
    | none => s.ret Rc.error
    | some buf =>
        match s.getPipe pipeId with
        | none => s.toUndefined
        | some p =>
            if s.pipeChain.head? = some p then s.toUndefined
            else s.pipeWriteLoop p buf len.toNat

/-- `remove_pipe`; for the head pipe the pointer to its predecessor is never
set. -/
def removePipe (s : Kernel) (id : Int) : Kernel :=
  match s.getPipe id with
  | none => s.ret Rc.error
  | some p =>
      if s.pipeChain.head? = some p then s.toUndefined
      else (s.setPipeChain (s.pipeChain.erase p)).ret 0

end Kernel

end Yalnix
