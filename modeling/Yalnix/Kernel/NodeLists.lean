import Yalnix.Foundation.NodeHeap
import Yalnix.Kernel.State

/-!
# Queues and lists of nodes

`queue.c` and `list.c` with their nodes on the heap, and `AllocatePFN` and
`DeallocatePFN` on top of `list.c`.  The answer of `malloc` is given to every
call that allocates, NULL included.  A call is `none` when it follows a NULL
pointer or accesses a node that is not allocated.
-/

namespace Yalnix

/-- The word-aligned addresses of the machine.  A block from `malloc` has one
of them, and a pointer is `none` when it is NULL. -/
abbrev Addr := Fin (2 ^ 30)

instance Addr.neZero : NeZero (2 ^ 30) := ⟨by decide⟩

/-! ## `queue.c` -/

/-- `qnode_t` -/
structure QNode where
  id : Int
  data : PcbPtr
  next : Option Addr
  deriving DecidableEq

/-- `queue_t` -/
structure Queue where
  id : Int
  size : Int
  head : Option Addr
  tail : Option Addr
  deriving DecidableEq

def queueInit : Queue := ⟨0, 0, none, none⟩

/-- One queue and the nodes on the heap. -/
structure QueueState where
  heap : NodeHeap Addr QNode
  queue : Queue

/-- `qnode_init` for data that is not NULL. -/
def qnodeInit (heap : NodeHeap Addr QNode) (id : Int) (data : PcbPtr)
    (answer : Option Addr) : Option Addr × NodeHeap Addr QNode :=
  match answer with
  | none => (none, heap)
  | some node => (some node, heap.store node ⟨id, data, none⟩)

namespace QueueState

def queueAdd (s : QueueState) (data : Option PcbPtr) (id : Int)
    (answer : Option Addr) : Option (Int × QueueState) :=
  match data with
  | none => some (Rc.error, s)
  | some data =>
      match qnodeInit s.heap id data answer with
      | (none, _) => some (Rc.error, s)
      | (some node, heap) =>
          if s.queue.head = none then
            some (0, ⟨heap,
              { s.queue with
                head := some node
                tail := some node
                size := toInt32 (s.queue.size + 1) }⟩)
          else do
            let tail ← s.queue.tail
            let heap ← heap.modify tail fun n => { n with next := some node }
            let last ← heap.read tail
            some (0, ⟨heap,
              { s.queue with
                tail := last.next
                size := toInt32 (s.queue.size + 1) }⟩)

def queuePop (s : QueueState) : Option (Option PcbPtr × QueueState) :=
  match s.queue.head with
  | none => some (none, s)
  | some node => do
      let n ← s.heap.read node
      let heap ← s.heap.free node
      some (some n.data, ⟨heap,
        { s.queue with
          head := n.next
          tail := if n.next = none then none else s.queue.tail
          size := toInt32 (s.queue.size - 1) }⟩)

def queuePeek (s : QueueState) : Option (Option PcbPtr) :=
  if s.queue.size = 0 then some none
  else do
    let head ← s.queue.head
    let n ← s.heap.read head
    some (some n.data)

end QueueState

/-! ## `list.c` -/

/-- `lnode_t`, whose items are words. -/
structure LNode where
  data : Int
  next : Option Addr
  prev : Option Addr
  deriving DecidableEq

/-- `list_t` -/
structure NodeList where
  head : Option Addr
  tail : Option Addr
  size : Int
  deriving DecidableEq

def listInit : NodeList := ⟨none, none, 0⟩

/-- One list and the nodes on the heap. -/
structure ListState where
  heap : NodeHeap Addr LNode
  list : NodeList

/-- NULL as an item. -/
def nullItem : Int := 0

def lnodeInit (heap : NodeHeap Addr LNode) (item : Int)
    (answer : Option Addr) : Option Addr × NodeHeap Addr LNode :=
  match answer with
  | none => (none, heap)
  | some node => (some node, heap.store node ⟨item, none, none⟩)

/-- The loop of `list_iter`.  A walk that goes on for longer than there are
nodes does not end. -/
def listIterFrom {Arg : Type} (heap : NodeHeap Addr LNode)
    (iter : Arg → Int → Arg) : Nat → Option Addr → Arg → Option Arg
  | _, none, arg => some arg
  | 0, some _, _ => none
  | limit + 1, some node, arg => do
      let n ← heap.read node
      listIterFrom heap iter limit n.next (iter arg n.data)

namespace ListState

def listAdd (s : ListState) (item : Int) (answer : Option Addr) :
    Option (Int × ListState) :=
  match lnodeInit s.heap item answer with
  | (none, _) => some (Rc.error, s)
  | (some node, heap) =>
      let size := toInt32 (s.list.size + 1)
      if s.list.head = none then
        some (size, ⟨heap, ⟨some node, some node, size⟩⟩)
      else do
        let heap ← heap.modify node fun n => { n with prev := s.list.tail }
        let tail ← s.list.tail
        let heap ← heap.modify tail fun n => { n with next := some node }
        let last ← heap.read tail
        some (size, ⟨heap, ⟨s.list.head, last.next, size⟩⟩)

/-- `list_pop`.  The node before the popped one still points to it. -/
def listPop (s : ListState) : Option (Int × ListState) :=
  match s.list.tail with
  | none => some (nullItem, s)
  | some node => do
      let n ← s.heap.read node
      let heap ← s.heap.free node
      some (n.data, ⟨heap,
        { head := if n.prev = none then none else s.list.head
          tail := n.prev
          size := toInt32 (s.list.size - 1) }⟩)

/-- `list_iter`, with what the calls of `iter` make of `arg`. -/
def listIter {Arg : Type} (s : ListState) (iter : Arg → Int → Arg)
    (arg : Arg) : Option Arg :=
  listIterFrom s.heap iter s.heap.live.card s.list.head arg

/-! ## The frame pool of `kernel.c` -/

/-- `AllocatePFN` -/
def allocatePFN (s : ListState) : Option (Int × ListState) :=
  if s.list.size = 0 then some (Rc.error, s)
  else do
    let (pfn, s) ← s.listPop
    if pfn = nullItem ∨ pfn = -1 then some (Rc.error, s) else some (pfn, s)

/-- `DeallocatePFN` -/
def deallocatePFN (s : ListState) (pfn : Int) (answer : Option Addr) :
    Option (Int × ListState) := do
  let (result, s) ← s.listAdd pfn answer
  if result = -1 then some (Rc.error, s) else some (0, s)

end ListState

end Yalnix
