import Yalnix.Foundation.TransitionSystem
import Yalnix.Kernel.NodeLists

/-!
# Queues are FIFO

The chain of `next` pointers from the head of a queue carries its processes in
order of addition.  `queue_add` links a node behind the last one and
`queue_pop` unlinks the first.
-/

namespace Yalnix

open NodeHeap TransitionSystem

/-! ## Sizes -/

/-- A size does not overflow: the nodes have distinct addresses. -/
theorem chain_size {Node : Type} {h : NodeHeap Addr Node} {link : Node → Option Addr}
    {p : Option Addr} {nodes : List (Addr × Node)} (hchain : h.Chain link p nodes) :
    toInt32 (nodes.length : Int) = nodes.length := by
  have hlength := hchain.length_le
  have hcard := Finset.card_le_univ h.live
  rw [Fintype.card_fin] at hcard
  unfold toInt32
  omega

namespace QueueState

variable {s : QueueState} {nodes : List (Addr × QNode)} {a : Addr}

/-! ## The representation -/

/-- The queue consists of these nodes. -/
structure Holds (s : QueueState) (nodes : List (Addr × QNode)) : Prop where
  chain : s.heap.Chain QNode.next s.queue.head nodes
  tail : s.queue.tail = nodes.getLast?.map Prod.fst
  size : s.queue.size = nodes.length

/-- The processes that the nodes carry. -/
def carried (nodes : List (Addr × QNode)) : List PcbPtr :=
  nodes.map fun x => x.2.data

theorem holds_init (heap : NodeHeap Addr QNode) :
    Holds ⟨heap, queueInit⟩ [] := by
  constructor
  · rfl
  · rfl
  · rfl

theorem Holds.head_eq_none_iff (h : s.Holds nodes) :
    s.queue.head = none ↔ nodes = [] := by
  constructor
  · intro hhead
    have hchain := h.chain
    rw [hhead] at hchain
    exact hchain.nil_of_null
  · rintro rfl
    exact h.chain

/-! ## Adding -/

theorem Holds.add_empty (h : s.Holds []) (id : Int) (data : PcbPtr) (a : Addr) :
    ∃ s', s.queueAdd (some data) id (some a) = some (0, s') ∧
      s'.Holds [(a, ⟨id, data, none⟩)] := by
  have hhead := h.head_eq_none_iff.2 rfl
  have hsize := h.size
  refine ⟨⟨s.heap.store a ⟨id, data, none⟩, { s.queue with
    head := some a
    tail := some a
    size := toInt32 (s.queue.size + 1) }⟩, ?_, ?_⟩
  · simp [queueAdd, qnodeInit, hhead]
  · constructor
    · simp [Segment]
    · simp
    · simp [hsize, toInt32]

theorem Holds.add_behind {front : List (Addr × QNode)} {t : Addr} {last : QNode}
    (h : s.Holds (front ++ [(t, last)])) (hfree : s.heap.read a = none)
    (id : Int) (data : PcbPtr) :
    ∃ s', s.queueAdd (some data) id (some a) = some (0, s') ∧
      s'.Holds (front ++ [(t, { last with next := some a })] ++
        [(a, ⟨id, data, none⟩)]) := by
  obtain ⟨hfront, hlast, -⟩ := segment_snoc.1 h.chain
  have hhead : s.queue.head ≠ none := by
    simp [h.head_eq_none_iff]
  have htail : s.queue.tail = some t := by
    simp [h.tail]
  have hne : t ≠ a := by
    rintro rfl
    rw [hfree] at hlast
    cases hlast
  have hread : (s.heap.store a ⟨id, data, none⟩).read t = some last := by
    rw [store_read_other hne]
    exact hlast
  have hold : ∀ b ∈ front.map Prod.fst, b ≠ t ∧ b ≠ a := by
    intro b hb
    have hnodup := h.chain.nodup
    rw [List.map_append, List.nodup_append] at hnodup
    refine ⟨hnodup.2.2 b hb t (by simp), ?_⟩
    rintro rfl
    obtain ⟨x, hx, rfl⟩ := List.mem_map.1 hb
    rw [hfront.read hx] at hfree
    cases hfree
  have hchain : ((s.heap.store a ⟨id, data, none⟩).store t
      { last with next := some a }).Chain QNode.next s.queue.head
        (front ++ [(t, { last with next := some a })] ++
          [(a, ⟨id, data, none⟩)]) := by
    apply h.chain.extend
    · exact store_read_same
    · rfl
    · rw [store_read_other hne.symm, store_read_same]
    · rfl
    · intro b hb
      obtain ⟨hbt, hba⟩ := hold b hb
      rw [store_read_other hbt, store_read_other hba]
  refine ⟨⟨(s.heap.store a ⟨id, data, none⟩).store t
    { last with next := some a }, { s.queue with
      tail := some a
      size := toInt32 (s.queue.size + 1) }⟩, ?_, ?_⟩
  · simp [queueAdd, qnodeInit, hhead, htail, modify_eq hread]
  · constructor
    · exact hchain
    · simp
    · have hsize := chain_size hchain
      simp only [h.size, List.length_append, List.length_singleton] at hsize ⊢
      push_cast at hsize ⊢
      exact hsize

theorem Holds.add (h : s.Holds nodes) (hfree : s.heap.read a = none) (id : Int)
    (data : PcbPtr) :
    ∃ s' nodes', s.queueAdd (some data) id (some a) = some (0, s') ∧
      s'.Holds nodes' ∧ carried nodes' = carried nodes ++ [data] := by
  rcases List.eq_nil_or_concat' nodes with rfl | ⟨front, ⟨t, last⟩, rfl⟩
  · obtain ⟨s', hadd, hs'⟩ := h.add_empty id data a
    exact ⟨s', _, hadd, hs', rfl⟩
  · obtain ⟨s', hadd, hs'⟩ := h.add_behind hfree id data
    refine ⟨s', _, hadd, hs', ?_⟩
    simp [carried]

/-! ## Popping and peeking -/

theorem Holds.pop (h : s.Holds nodes) :
    ∃ s', s.queuePop = some ((carried nodes).head?, s') ∧ s'.Holds nodes.tail := by
  cases nodes with
  | nil =>
      have hhead := h.head_eq_none_iff.2 rfl
      refine ⟨s, ?_, h⟩
      simp [queuePop, hhead, carried]
  | cons x rest =>
      obtain ⟨a, n⟩ := x
      obtain ⟨hhead, hread, hrest⟩ := h.chain
      obtain ⟨heap, hfree, -, hothers⟩ := free_eq hread
      have hnodup := h.chain.nodup
      rw [List.map_cons, List.nodup_cons] at hnodup
      have hchain : heap.Chain QNode.next n.next rest := by
        apply hrest.congr
        intro b hb
        apply hothers
        rintro rfl
        exact hnodup.1 hb
      refine ⟨⟨heap, { s.queue with
        head := n.next
        tail := if n.next = none then none else s.queue.tail
        size := toInt32 (s.queue.size - 1) }⟩, ?_, ?_⟩
      · simp [queuePop, hhead, hread, hfree, carried]
      · constructor
        · exact hchain
        · rcases List.eq_nil_or_concat' rest with rfl | ⟨front, last, rfl⟩
          · have hnext : n.next = none := hchain
            simp [hnext]
          · have hnext : n.next ≠ none := by
              intro hnull
              rw [hnull] at hchain
              simpa using hchain.nil_of_null
            simp [hnext, h.tail, List.getLast?_cons]
        · have hsize := chain_size hchain
          simp [h.size, hsize]

theorem Holds.peek (h : s.Holds nodes) :
    s.queuePeek = some (carried nodes).head? := by
  cases nodes with
  | nil => simp [queuePeek, h.size, carried]
  | cons x rest =>
      obtain ⟨hhead, hread, -⟩ := h.chain
      have hsize : s.queue.size ≠ 0 := by
        rw [h.size, List.length_cons]
        omega
      simp [queuePeek, hsize, hhead, hread, carried]

end QueueState

/-! ## Sequences of calls -/

/-- A call on a queue.  `queue_add` comes with the answer of `malloc`. -/
inductive QueueOp where
  | add (data : Option PcbPtr) (id : Int) (answer : Option Addr)
  | pop
  | peek

/-- `malloc` does not hand out a node that is in use. -/
def QueueOp.Possible (s : QueueState) : QueueOp → Prop
  | .add _ _ answer => ∀ a ∈ answer, s.heap.read a = none
  | .pop => True
  | .peek => True

instance QueueOp.instDecidablePossible (s : QueueState) (op : QueueOp) :
    Decidable (op.Possible s) :=
  match op with
  | .add _ _ none => .isTrue nofun
  | .add _ _ (some a) => decidable_of_iff (s.heap.read a = none) (by simp [Possible])
  | .pop => inferInstanceAs (Decidable True)
  | .peek => inferInstanceAs (Decidable True)

/-- What a call does to the processes that are added and not popped. -/
def QueueOp.effect (procs : List PcbPtr) : QueueOp → List PcbPtr
  | .add (some data) _ (some _) => procs ++ [data]
  | .add _ _ _ => procs
  | .pop => procs.tail
  | .peek => procs

/-- The processes that are added and not popped, in order of addition. -/
def queued (ops : List QueueOp) : List PcbPtr :=
  ops.foldl QueueOp.effect []

namespace QueueState

def take (s : QueueState) : QueueOp → Option QueueState
  | .add data id answer => (s.queueAdd data id answer).map Prod.snd
  | .pop => s.queuePop.map Prod.snd
  | .peek => s.queuePeek.map fun _ => s

/-- The queue is a chain of `size` nodes from `head` to `tail` that carries the
processes. -/
structure Fifo (s : QueueState) (procs : List PcbPtr) : Prop where
  chain : ∃ nodes, s.heap.Chain QNode.next s.queue.head nodes ∧
    carried nodes = procs ∧ s.queue.size = nodes.length ∧
    s.queue.tail = nodes.getLast?.map Prod.fst
  head : s.queue.head = none ↔ s.queue.size = 0
  tail : s.queue.tail = none ↔ s.queue.size = 0

variable {s : QueueState} {nodes : List (Addr × QNode)}

theorem Holds.fifo (h : s.Holds nodes) : s.Fifo (carried nodes) := by
  have hsize : s.queue.size = 0 ↔ nodes = [] := by
    rw [h.size, Int.natCast_eq_zero, List.length_eq_zero_iff]
  constructor
  · exact ⟨nodes, h.chain, rfl, h.size, h.tail⟩
  · rw [hsize]
    exact h.head_eq_none_iff
  · rw [hsize, h.tail, Option.map_eq_none_iff, List.getLast?_eq_none_iff]

/-- The queue stands for this list of processes. -/
def Represents (s : QueueState) (procs : List PcbPtr) : Prop :=
  ∃ nodes, s.Holds nodes ∧ carried nodes = procs

theorem take_represents {s : QueueState} {procs : List PcbPtr} {op : QueueOp}
    (h : s.Represents procs) (hop : op.Possible s) :
    ∃ s', s.take op = some s' ∧ s'.Represents (op.effect procs) := by
  obtain ⟨nodes, hs, rfl⟩ := h
  cases op with
  | add data id answer =>
      rcases data with _ | data
      · exact ⟨s, rfl, nodes, hs, rfl⟩
      · rcases answer with _ | a
        · exact ⟨s, rfl, nodes, hs, rfl⟩
        · obtain ⟨s', nodes', hadd, hs', hcarried⟩ := hs.add (hop a rfl) id data
          refine ⟨s', ?_, nodes', hs', hcarried⟩
          rw [take, hadd]
          rfl
  | pop =>
      obtain ⟨s', hpop, hs'⟩ := hs.pop
      refine ⟨s', ?_, nodes.tail, hs', ?_⟩
      · rw [take, hpop]
        rfl
      · simp [carried, QueueOp.effect]
  | peek =>
      refine ⟨s, ?_, nodes, hs, rfl⟩
      rw [take, hs.peek]
      rfl

end QueueState

/--
After every sequence of calls on a new queue, none of which has accessed a
freed node, the queue carries the processes that were added and not popped.
The next `queue_pop` returns the oldest of them, and `queue_peek` does too.
-/
theorem queue_is_fifo (heap : NodeHeap Addr QNode) (ops : List QueueOp)
    (h : AdmitsPartial QueueState.take (fun s op => op.Possible s)
      ⟨heap, queueInit⟩ ops) :
    ∃ s, ops.foldlM QueueState.take ⟨heap, queueInit⟩ = some s ∧
      s.Fifo (queued ops) ∧
      (∃ s', s.queuePop = some ((queued ops).head?, s')) ∧
      s.queuePeek = some (queued ops).head? := by
  have hstep (s : QueueState) (procs : List PcbPtr) (op : QueueOp)
      (hs : s.Represents procs) (hop : op.Possible s) :=
    QueueState.take_represents hs hop
  have hinit : QueueState.Represents ⟨heap, queueInit⟩ [] :=
    ⟨[], QueueState.holds_init heap, rfl⟩
  obtain ⟨s, hrun, nodes, hs, hcarried⟩ := simulation hstep hinit ops h
  have hqueued : queued ops = QueueState.carried nodes := hcarried.symm
  obtain ⟨s', hpop, -⟩ := hs.pop
  rw [hqueued]
  exact ⟨s, hrun, hs.fifo, ⟨s', hpop⟩, hs.peek⟩

/-- A queue that is filled, emptied and filled again. -/
def refilled : List QueueOp :=
  [.add (some 7) 1 (some 0), .add (some 8) 2 (some 1), .peek, .pop, .pop, .pop,
    .add (some 9) 3 (some 0)]

theorem queue_refilled :
    AdmitsPartial QueueState.take (fun s op => op.Possible s)
      ⟨NodeHeap.empty, queueInit⟩ refilled ∧
    ∃ s, refilled.foldlM QueueState.take ⟨NodeHeap.empty, queueInit⟩ = some s ∧
      s.Fifo (queued refilled) ∧
      (∃ s', s.queuePop = some ((queued refilled).head?, s')) ∧
      s.queuePeek = some (queued refilled).head? :=
  have hrun : AdmitsPartial QueueState.take (fun s op => op.Possible s)
      ⟨NodeHeap.empty, queueInit⟩ refilled := by decide +kernel
  ⟨hrun, queue_is_fifo _ _ hrun⟩

example : queued refilled = [9] := rfl

end Yalnix
