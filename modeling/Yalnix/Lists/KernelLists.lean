import Yalnix.Kernel.Memory
import Yalnix.Kernel.PipeCalls
import Yalnix.Lists.PipeMap
import Yalnix.Lists.PoolStack

/-!
# The kernel's queues, pool and pipes

The kernel keeps its queues, its frame pool and its pipes as plain lists.  Every
operation on such a list is what `queue.c`, `list.c` or `pipe.c` does to the
nodes that stand for it.
-/

namespace Yalnix

/-! ## Queues -/

namespace Kernel

/-- The processes in a queue. -/
def queueAt (s : Kernel) : QueueRef → List PcbPtr
  | .readyQ => s.readyQ
  | .blockedQ => s.blockedQ
  | .defunctQ => s.defunctQ
  | .ttyReadQueue t => s.ttyReadQueues t
  | .lockAquireQueue i => s.lockAquireQueues i
  | .cvarWaitQueue i => s.cvarWaitQueues i

@[simp] theorem queueAdd_queueAt (s : Kernel) (queue : QueueRef) (p : PcbPtr) :
    (s.queueAdd (some queue) p).queueAt queue = s.queueAt queue ++ [p] := by
  cases queue with
  | readyQ => rfl
  | blockedQ => rfl
  | defunctQ => rfl
  | ttyReadQueue t => exact upd_same _ _ _
  | lockAquireQueue i => exact upd_same _ _ _
  | cvarWaitQueue i => exact upd_same _ _ _

end Kernel

/-- A queue of the kernel grows as its nodes do. -/
theorem QueueState.Represents.queueAdd {q : QueueState} {s : Kernel}
    {queue : QueueRef} (h : q.Represents (s.queueAt queue)) {a : Addr}
    (hfree : q.heap.read a = none) (p : PcbPtr) (id : Int) :
    ∃ q', q.queueAdd (some p) id (some a) = some (0, q') ∧
      q'.Represents ((s.queueAdd (some queue) p).queueAt queue) := by
  obtain ⟨nodes, hq, hcarried⟩ := h
  obtain ⟨q', nodes', hadd, hq', hcarried'⟩ := hq.add hfree id p
  refine ⟨q', hadd, nodes', hq', ?_⟩
  rw [hcarried', hcarried, Kernel.queueAdd_queueAt]

/-! ## The frame pool -/

namespace ListState

variable {s : ListState} {pool : List Nat}

/-- The pool is on the list, its first frame on top. -/
def HoldsPool (s : ListState) (pool : List Nat) : Prop :=
  ∃ nodes behind, s.Holds nodes behind ∧
    nodes.map (fun x => x.2.data) = pool.map Int.ofNat

/-- What `AllocatePFN` returns for a frame, or for none. -/
def pfnOrError : Option Nat → Int
  | none => Rc.error
  | some pfn => pfn

theorem HoldsPool.allocatePFN (h : s.HoldsPool pool) :
    ∃ s', s.allocatePFN = some (pfnOrError (Yalnix.allocatePFN pool).1, s') ∧
      s'.HoldsPool (Yalnix.allocatePFN pool).2 := by
  obtain ⟨nodes, behind, hs, hdata⟩ := h
  cases pool with
  | nil =>
      have hnodes : nodes = [] := by simpa using hdata
      subst hnodes
      have hsize := hs.size_eq_zero_iff.2 rfl
      refine ⟨s, ?_, [], behind, hs, rfl⟩
      simp [ListState.allocatePFN, hsize, Yalnix.allocatePFN, pfnOrError]
  | cons pfn pool =>
      rcases nodes with _ | ⟨⟨a, n⟩, rest⟩
      · cases hdata
      · obtain ⟨hn, hrest⟩ := List.cons.inj hdata
        have hn' : n.data = (pfn : Int) := hn
        obtain ⟨s', hpop, hs'⟩ := hs.pop
        have hsize : s.list.size ≠ 0 := by
          simp [hs.size_eq_zero_iff]
        have herror : (pfn : Int) ≠ -1 := by omega
        by_cases hzero : pfn = 0
        · refine ⟨s', ?_, rest, _, hs', ?_⟩
          · simp [ListState.allocatePFN, hsize, hpop, hn', hzero,
              Yalnix.allocatePFN, pfnOrError, nullItem]
          · simpa [Yalnix.allocatePFN, hzero] using hrest
        · refine ⟨s', ?_, rest, _, hs', ?_⟩
          · simp [ListState.allocatePFN, hsize, hpop, hn', hzero, herror,
              Yalnix.allocatePFN, pfnOrError, nullItem]
          · simpa [Yalnix.allocatePFN, hzero] using hrest

theorem HoldsPool.deallocatePFN (h : s.HoldsPool pool) {a : Addr}
    (hfree : s.heap.read a = none) (pfn : Nat) :
    ∃ s', s.deallocatePFN pfn (some a) = some (0, s') ∧
      s'.HoldsPool (Yalnix.deallocatePFN pool pfn) := by
  obtain ⟨nodes, behind, hs, hdata⟩ := h
  obtain ⟨s', hadd, hs'⟩ := hs.add hfree pfn
  have hsize : s'.list.size ≠ -1 := by
    rw [hs'.size]
    omega
  refine ⟨s', ?_, _, _, hs', ?_⟩
  · simp [ListState.deallocatePFN, hadd, hsize]
  · have hrest := relink_carried a nodes
    rw [carried, carried, List.reverse_inj] at hrest
    simp [extend, hrest, hdata, Yalnix.deallocatePFN]

end ListState

/-! ## The pipes -/

/-- What a process can see of a pipe, with its id. -/
structure PipeView where
  id : Int
  plen : Int
  beingUsed : Bool
  bytes : List UInt8

def PipeNode.toView (n : PipeNode) : PipeView :=
  ⟨n.id, n.plen, n.beingUsed, bytesOf n.buf 0 pipeBufferLen⟩

def Pipe.toView (p : Pipe) : PipeView :=
  ⟨p.id, p.plen, p.beingUsed, bytesOf p.buf 0 pipeBufferLen⟩

namespace Kernel

/-- The kernel's pipes are these ones. -/
def ShowsPipes (k : Kernel) (entries : List (Addr × PipeNode)) : Prop :=
  entries.map (fun x => x.2.toView) = k.pipeChain.map fun p => (k.pipes p).toView

variable {k : Kernel} {entries : List (Addr × PipeNode)} {id : Int}

theorem ShowsPipes.ids (h : k.ShowsPipes entries) :
    pipeIds entries = k.pipeChain.map fun p => (k.pipes p).id := by
  have hids := congrArg (List.map PipeView.id) h
  rw [List.map_map, List.map_map] at hids
  exact hids

theorem fresh_toView (block : PipeNode) (queue : Option Addr) (id : Int) :
    (block.fresh queue id).toView = Pipe.toView ⟨fun _ => 0, 0, id, false, []⟩ := by
  have hbytes : bytesOf (memzero block.buf pipeBufferLen) 0 pipeBufferLen =
      bytesOf (fun _ => 0) 0 pipeBufferLen := by
    apply List.map_congr_left
    intro i hi
    rw [List.mem_range] at hi
    simp [memzero, hi]
  simp [PipeNode.fresh, PipeNode.clear, PipeNode.toView, Pipe.toView, hbytes]

/-- `add_pipe` of the kernel is that of the nodes. -/
theorem ShowsPipes.addPipe (h : k.ShowsPipes entries) (hne : entries ≠ [])
    (hnew : k.npipes ∉ k.pipeChain) (a : Addr) (block : PipeNode)
    (queue : Option Addr) :
    k.addPipe.1 = lastPipeId entries + 1 ∧
      k.addPipe.2.ShowsPipes
        (entries ++ [(a, block.fresh queue (lastPipeId entries + 1))]) := by
  have hids := h.ids
  have hid : k.addPipe.1 = lastPipeId entries + 1 := by
    rw [lastPipeId, hids, List.getLast?_map]
    rcases List.eq_nil_or_concat' k.pipeChain with hnil | ⟨front, tail, hchain⟩
    · rw [ShowsPipes, hnil, List.map_nil, List.map_eq_nil_iff] at h
      exact absurd h hne
    · simp [Kernel.addPipe, tailPipe, hchain]
  refine ⟨hid, ?_⟩
  have hpipe : (k.addPipe.2.pipes k.npipes).toView =
      (block.fresh queue (lastPipeId entries + 1)).toView := by
    rw [fresh_toView, ← hid]
    exact congrArg Pipe.toView (upd_same _ _ _)
  have hothers : ∀ p ∈ k.pipeChain,
      (k.addPipe.2.pipes p).toView = (k.pipes p).toView := by
    intro p hp
    have hpn : p ≠ k.npipes := by
      rintro rfl
      exact hnew hp
    exact congrArg Pipe.toView (upd_other hpn _ _)
  have hchain : k.addPipe.2.pipeChain = k.pipeChain ++ [k.npipes] := rfl
  rw [ShowsPipes, hchain, List.map_append, List.map_append,
    List.map_congr_left hothers, ← h, List.map_singleton, List.map_singleton, hpipe]

/-- `get_pipe` of the kernel finds a pipe exactly when that of the nodes does. -/
theorem ShowsPipes.getPipe_isSome_iff (h : k.ShowsPipes entries) :
    (k.getPipe id).isSome ↔ id ∈ pipeIds entries := by
  rw [h.ids, getPipe, List.find?_isSome, List.mem_map]
  simp

/-- `remove_pipe` of the kernel takes out the pipe that the nodes lose. -/
theorem ShowsPipes.removePipe (h : k.ShowsPipes entries)
    (hinc : Increasing entries) (hid : id ∈ (pipeIds entries).tail) :
    (k.removePipe id).ShowsPipes (withoutPipe id entries) := by
  rw [Increasing, h.ids] at hinc
  rw [h.ids] at hid
  have hnodup : (k.pipeChain.map fun p => (k.pipes p).id).Nodup := hinc.imp ne_of_lt
  have hfound : (k.getPipe id).isSome := by
    rw [h.getPipe_isSome_iff, h.ids]
    exact List.mem_of_mem_tail hid
  obtain ⟨p, hp⟩ := Option.isSome_iff_exists.1 hfound
  have hpid : (k.pipes p).id = id := by simpa using List.find?_some hp
  have hpmem : p ∈ k.pipeChain := List.mem_of_find?_eq_some hp
  have hhead : k.pipeChain.head? ≠ some p := by
    intro hhead
    obtain ⟨rest, hchain⟩ := List.head?_eq_some_iff.1 hhead
    rw [hchain, List.map_cons, List.nodup_cons] at hnodup
    rw [hchain, List.map_cons, List.tail_cons, ← hpid] at hid
    exact hnodup.1 hid
  have hremove : k.removePipe id = (k.setPipeChain (k.pipeChain.erase p)).ret 0 := by
    simp [Kernel.removePipe, hp, hhead]
  have herase : k.pipeChain.erase p =
      k.pipeChain.filter fun q => decide ((k.pipes q).id ≠ id) := by
    rw [hnodup.of_map.erase_eq_filter]
    apply List.filter_congr
    intro q hq
    have hsame : q = p ↔ (k.pipes q).id = id := by
      rw [← hpid]
      constructor
      · rintro rfl
        rfl
      · exact List.inj_on_of_nodup_map hnodup hq hpmem
    rw [bne, beq_eq_decide, decide_eq_decide.2 hsame, decide_not]
  rw [hremove]
  change (withoutPipe id entries).map (fun x => x.2.toView) =
    (k.pipeChain.erase p).map fun q => (k.pipes q).toView
  have hviews := congrArg
    (List.filter fun v : PipeView => decide (v.id ≠ id)) h
  rw [List.filter_map, List.filter_map] at hviews
  rw [herase]
  exact hviews

end Kernel

end Yalnix
