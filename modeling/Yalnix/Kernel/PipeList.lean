import Yalnix.Kernel.NodeLists

/-!
# The list of pipes

`pipe.c` with its pipes on the heap.  The answer of `malloc` for a pipe is the
address of the block and what the block contained, and that of `queue_init` is
the address of the queue.  A call is `none` when it follows a NULL pointer or
accesses a pipe that is not allocated, or when its loop does not end.
-/

namespace Yalnix

/-- `pipe_t` -/
structure PipeNode where
  buf : Buffer
  plen : Int
  id : Int
  next : Option Addr
  beingUsed : Bool
  queue : Option Addr

/-- The pipes and their queues on the heap, and `head_pipe`. -/
structure PipeList where
  pipes : NodeHeap Addr PipeNode
  queues : NodeHeap Addr Queue
  headPipe : Option Addr

/-- `queue_init` -/
def queueInitAt (queues : NodeHeap Addr Queue) (answer : Option Addr) :
    Option Addr × NodeHeap Addr Queue :=
  match answer with
  | none => (none, queues)
  | some queue => (some queue, queues.store queue queueInit)

/-- The fields that `add_pipe` and `init_head_pipe` both set. -/
def PipeNode.clear (n : PipeNode) : PipeNode :=
  { n with
    next := none
    plen := 0
    beingUsed := false
    buf := memzero n.buf pipeBufferLen }

/-- `init_head_pipe`, which leaves `queue` as it was. -/
def initHeadPipe (pipes : NodeHeap Addr PipeNode)
    (answer : Option (Addr × PipeNode)) :
    Option Addr × NodeHeap Addr PipeNode :=
  match answer with
  | none => (none, pipes)
  | some (pipe, block) =>
      (some pipe,
        pipes.store pipe { block.clear with id := maxLocks + maxCvars + 1 })

/-- The loop of `add_pipe`: the last pipe of the list. -/
def lastPipe (pipes : NodeHeap Addr PipeNode) :
    Nat → Addr → Option (Addr × PipeNode)
  | 0, _ => none
  | limit + 1, currPipe => do
      let n ← pipes.read currPipe
      match n.next with
      | none => some (currPipe, n)
      | some next => lastPipe pipes limit next

/-- The loop of `remove_pipe` and `get_pipe`: the pipe with this id and the one
before it, `pipe_before`, which is not set at the head. -/
def searchPipe (pipes : NodeHeap Addr PipeNode) (id : Int) :
    Nat → Option Addr → Addr → Option (Option (Option Addr × Addr × PipeNode))
  | 0, _, _ => none
  | limit + 1, pipeBefore, currPipe => do
      let n ← pipes.read currPipe
      if n.id = id then some (some (pipeBefore, currPipe, n))
      else
        match n.next with
        | none => some none
        | some next => searchPipe pipes id limit (some currPipe) next

namespace PipeList

def addPipe (s : PipeList) (answer : Option (Addr × PipeNode))
    (queueAnswer : Option Addr) : Option (Int × PipeList) :=
  match answer with
  | none => some (Rc.error, s)
  | some (newPipe, block) =>
      match s.headPipe with
      | none => some (Rc.error, { s with pipes := s.pipes.store newPipe block })
      | some headPipe => do
          let (queue, queues) := queueInitAt s.queues queueAnswer
          let pipes := s.pipes.store newPipe { block.clear with queue := queue }
          let (currPipe, last) ← lastPipe pipes pipes.live.card headPipe
          let pipes ← pipes.modify currPipe fun n =>
            { n with next := some newPipe }
          let id := toInt32 (last.id + 1)
          let pipes ← pipes.modify newPipe fun n => { n with id := id }
          some (id, ⟨pipes, queues, s.headPipe⟩)

/-- `remove_pipe`.  Behind the last pipe `next` is NULL too. -/
def removePipe (s : PipeList) (id : Int) : Option (Int × PipeList) := do
  let headPipe ← s.headPipe
  let found ← searchPipe s.pipes id s.pipes.live.card none headPipe
  match found with
  | none => some (Rc.error, s)
  | some (pipeBefore, currPipe, n) => do
      let pipeBefore ← pipeBefore
      let pipes ← s.pipes.modify pipeBefore fun before =>
        { before with next := n.next }
      let pipes ← pipes.free currPipe
      some (0, { s with pipes := pipes })

def getPipe (s : PipeList) (id : Int) : Option (Option Addr) := do
  let headPipe ← s.headPipe
  let found ← searchPipe s.pipes id s.pipes.live.card none headPipe
  some (found.map fun x => x.2.1)

/-- What the kernel writes to a pipe that it reads or writes: everything but
`id`, `next` and `queue`. -/
def setContents (s : PipeList) (pipe : Addr) (buf : Buffer) (plen : Int)
    (beingUsed : Bool) : Option PipeList := do
  let pipes ← s.pipes.modify pipe fun n =>
    { n with buf := buf, plen := plen, beingUsed := beingUsed }
  some { s with pipes := pipes }

/-- What `KernelPipeRead` and `KernelPipeWrite` do to the list. -/
def usePipe (s : PipeList) (id : Int) (buf : Buffer) (plen : Int)
    (beingUsed : Bool) : Option PipeList := do
  let found ← s.getPipe id
  match found with
  | none => some s
  | some pipe => s.setContents pipe buf plen beingUsed

end PipeList

end Yalnix
