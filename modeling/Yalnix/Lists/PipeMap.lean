import Yalnix.Kernel.PipeList
import Yalnix.Lists.QueueFifo

/-!
# The pipe list is an ordered map

The chain of `next` pointers from `head_pipe` carries the pipes in the order of
their ids.  A new pipe counts on from the last one, and `remove_pipe` links the
pipe before the one it frees to the one behind.
-/

namespace Yalnix

open NodeHeap TransitionSystem

/-- A pipe apart from its place in the list. -/
def PipeNode.detach (n : PipeNode) : PipeNode := { n with next := none }

@[simp] theorem PipeNode.detach_id (n : PipeNode) : n.detach.id = n.id := rfl

/-- A pipe in the block that `malloc` returned, with the id it gets. -/
def PipeNode.fresh (block : PipeNode) (queue : Option Addr) (id : Int) :
    PipeNode :=
  { block.clear with queue := queue, id := id }

/-- The pipes of a list in order, apart from their links. -/
def pipeEntries (nodes : List (Addr × PipeNode)) : List (Addr × PipeNode) :=
  nodes.map fun x => (x.1, x.2.detach)

def pipeIds (nodes : List (Addr × PipeNode)) : List Int :=
  nodes.map fun x => x.2.id

@[simp] theorem pipeEntries_append (xs ys : List (Addr × PipeNode)) :
    pipeEntries (xs ++ ys) = pipeEntries xs ++ pipeEntries ys :=
  List.map_append

@[simp] theorem pipeIds_append (xs ys : List (Addr × PipeNode)) :
    pipeIds (xs ++ ys) = pipeIds xs ++ pipeIds ys :=
  List.map_append

@[simp] theorem pipeEntries_nil : pipeEntries [] = [] := rfl

@[simp] theorem pipeEntries_cons (a : Addr) (n : PipeNode)
    (xs : List (Addr × PipeNode)) :
    pipeEntries ((a, n) :: xs) = (a, n.detach) :: pipeEntries xs := rfl

@[simp] theorem pipeIds_entries (nodes : List (Addr × PipeNode)) :
    pipeIds (pipeEntries nodes) = pipeIds nodes := by
  simp [pipeIds, pipeEntries, PipeNode.detach]

/-! ## The loops -/

section Loops

variable {pipes : NodeHeap Addr PipeNode} {a : Addr} {n : PipeNode}
  {p : Addr} {front : List (Addr × PipeNode)}

/-- The loop of `add_pipe` ends at the last pipe. -/
theorem lastPipe_chain {t : Addr} {last : PipeNode}
    (hchain : pipes.Chain PipeNode.next (some p) (front ++ [(t, last)]))
    {limit : Nat} (hlimit : front.length < limit) :
    lastPipe pipes limit p = some (t, last) := by
  induction front generalizing p limit with
  | nil =>
      obtain ⟨hp, hread, hnext⟩ := hchain
      cases hp
      obtain ⟨limit, rfl⟩ := Nat.exists_eq_succ_of_ne_zero (by omega : limit ≠ 0)
      have hnull : last.next = none := hnext
      simp [lastPipe, hread, hnull]
  | cons x front ih =>
      obtain ⟨hp, hread, hrest⟩ := hchain
      cases hp
      obtain ⟨limit, rfl⟩ := Nat.exists_eq_succ_of_ne_zero (by omega : limit ≠ 0)
      rw [List.length_cons] at hlimit
      obtain ⟨next, hnext⟩ : ∃ next, x.2.next = some next := by
        rw [Chain.start hrest]
        cases front <;> simp
      rw [hnext] at hrest
      simp only [lastPipe, hread, hnext, Option.bind_eq_bind, Option.bind_some]
      exact ih hrest (by omega)

/-- The search stops at a pipe with the id, with the pipe before it. -/
theorem searchPipe_found {id : Int}
    (hfront : pipes.Segment PipeNode.next (some p) front (some a))
    (hread : pipes.read a = some n) (hid : n.id = id)
    (hother : id ∉ pipeIds front) {limit : Nat} (hlimit : front.length < limit)
    (before : Option Addr) :
    searchPipe pipes id limit before p =
      some (some ((front.getLast?.map Prod.fst).or before, a, n)) := by
  induction front generalizing p limit before with
  | nil =>
      have hp : some p = some a := hfront
      cases hp
      obtain ⟨limit, rfl⟩ := Nat.exists_eq_succ_of_ne_zero (by omega : limit ≠ 0)
      simp [searchPipe, hread, hid]
  | cons x front ih =>
      obtain ⟨hp, hx, hrest⟩ := hfront
      cases hp
      obtain ⟨limit, rfl⟩ := Nat.exists_eq_succ_of_ne_zero (by omega : limit ≠ 0)
      rw [List.length_cons] at hlimit
      rw [pipeIds, List.map_cons, List.mem_cons, not_or] at hother
      obtain ⟨next, hnext⟩ : ∃ next, x.2.next = some next := by
        cases front with
        | nil => exact ⟨a, hrest⟩
        | cons y front => exact ⟨y.1, hrest.1⟩
      rw [hnext] at hrest
      simp only [searchPipe, hx, hnext, Ne.symm hother.1, if_false,
        Option.bind_eq_bind, Option.bind_some]
      rw [ih hrest hother.2 (by omega)]
      cases front using List.reverseRecOn <;> simp [List.getLast?_cons]

theorem searchPipe_missing {id : Int} {nodes : List (Addr × PipeNode)}
    (hchain : pipes.Chain PipeNode.next (some p) nodes)
    (hother : id ∉ pipeIds nodes) {limit : Nat} (hlimit : nodes.length ≤ limit)
    (before : Option Addr) : searchPipe pipes id limit before p = some none := by
  induction nodes generalizing p limit before with
  | nil => cases hchain
  | cons x nodes ih =>
      obtain ⟨hp, hx, hrest⟩ := hchain
      cases hp
      rw [List.length_cons] at hlimit
      obtain ⟨limit, rfl⟩ := Nat.exists_eq_succ_of_ne_zero (by omega : limit ≠ 0)
      rw [pipeIds, List.map_cons, List.mem_cons, not_or] at hother
      simp only [searchPipe, hx, Ne.symm hother.1, if_false, Option.bind_eq_bind,
        Option.bind_some]
      cases hnext : x.2.next with
      | none => rfl
      | some next =>
          rw [hnext] at hrest
          exact ih hrest hother.2 (by omega) _

end Loops

namespace PipeList

variable {s : PipeList} {a : Addr} {n : PipeNode}
  {nodes front back : List (Addr × PipeNode)}

/-- The list consists of these pipes. -/
def Holds (s : PipeList) (nodes : List (Addr × PipeNode)) : Prop :=
  s.pipes.Chain PipeNode.next s.headPipe nodes

theorem Holds.headPipe (h : s.Holds nodes) (hne : nodes ≠ []) :
    ∃ p, s.headPipe = some p := by
  rw [Chain.start h]
  cases nodes with
  | nil => exact absurd rfl hne
  | cons x nodes => exact ⟨x.1, rfl⟩

/-! ## The calls -/

@[simp] theorem queueInitAt_fst (queues : NodeHeap Addr Queue)
    (answer : Option Addr) : (queueInitAt queues answer).1 = answer := by
  cases answer <;> rfl

theorem Holds.addPipe {t : Addr} {last : PipeNode}
    (h : s.Holds (front ++ [(t, last)])) (hfree : s.pipes.read a = none)
    (block : PipeNode) (queueAnswer : Option Addr) :
    ∃ s', s.addPipe (some (a, block)) queueAnswer =
        some (toInt32 (last.id + 1), s') ∧
      s'.Holds (front ++ [(t, { last with next := some a })] ++
        [(a, PipeNode.fresh block queueAnswer (toInt32 (last.id + 1)))]) ∧
      s'.queues = (queueInitAt s.queues queueAnswer).2 := by
  obtain ⟨p, hp⟩ := h.headPipe (by simp)
  obtain ⟨-, hlast, -, hnotmem, -⟩ := Chain.split h
  have hold : ∀ b ∈ (front ++ [(t, last)]).map Prod.fst, b ≠ a := by
    rintro b hb rfl
    obtain ⟨x, hx, rfl⟩ := List.mem_map.1 hb
    rw [Segment.read h hx] at hfree
    cases hfree
  have hta : t ≠ a := hold t (by simp)
  -- the new pipe before the loop, then the link to it, then its id
  let block' := { block.clear with queue := queueAnswer }
  let allocated := s.pipes.store a block'
  let linked := allocated.store t { last with next := some a }
  let id := toInt32 (last.id + 1)
  have hchain : allocated.Chain PipeNode.next (some p)
      (front ++ [(t, last)]) := by
    rw [← hp]
    apply Segment.store h
    intro ha
    exact hold a ha rfl
  have hloop : lastPipe allocated allocated.live.card p = some (t, last) := by
    have hlength := Chain.length_le hchain
    rw [List.length_append, List.length_singleton] at hlength
    exact lastPipe_chain hchain (by omega)
  have hread : allocated.read t = some last := by
    rw [store_read_other hta]
    exact hlast
  have hnew : linked.read a = some block' := by
    rw [store_read_other hta.symm, store_read_same]
  refine ⟨⟨linked.store a { block' with id := id },
    (queueInitAt s.queues queueAnswer).2, s.headPipe⟩, ?_, ?_, rfl⟩
  · have hlink := modify_eq hread fun n => { n with next := some a }
    have hnumber := modify_eq hnew fun n => { n with id := id }
    simp only [PipeList.addPipe, hp, queueInitAt_fst]
    change (lastPipe allocated allocated.live.card p).bind _ = _
    rw [hloop, Option.bind_some]
    change (allocated.modify t fun n => { n with next := some a }).bind _ = _
    rw [hlink, Option.bind_some]
    change (linked.modify a fun n => { n with id := id }).bind _ = _
    rw [hnumber]
    rfl
  · apply Chain.extend h
    · rw [store_read_other hta, store_read_same]
    · rfl
    · exact store_read_same
    · rfl
    · intro b hb
      have hbt : b ≠ t := by
        rintro rfl
        exact hnotmem hb
      have hba : b ≠ a := hold b (by simp [hb])
      rw [store_read_other hba, store_read_other hbt, store_read_other hba]

theorem Holds.getPipe_found {id : Int} (h : s.Holds (front ++ (a, n) :: back))
    (hid : n.id = id) (hother : id ∉ pipeIds front) :
    s.getPipe id = some (some a) := by
  obtain ⟨p, hp⟩ := h.headPipe (by simp)
  obtain ⟨hfront, hread, -⟩ := Chain.split h
  have hlength := Chain.length_le h
  rw [List.length_append, List.length_cons] at hlength
  rw [hp] at hfront
  have hfound := searchPipe_found hfront hread hid hother
    (by omega : front.length < s.pipes.live.card) none
  simp [getPipe, hp, hfound]

theorem Holds.getPipe_missing {id : Int} (h : s.Holds nodes) (hne : nodes ≠ [])
    (hother : id ∉ pipeIds nodes) : s.getPipe id = some none := by
  obtain ⟨p, hp⟩ := h.headPipe hne
  have hchain : s.pipes.Chain PipeNode.next (some p) nodes := by
    rw [← hp]
    exact h
  have hmissing := searchPipe_missing hchain hother (Chain.length_le h) none
  simp [getPipe, hp, hmissing]

/-- `remove_pipe` for a pipe that is not the head. -/
theorem Holds.removePipe {id : Int} {b : Addr} {m : PipeNode}
    (h : s.Holds (front ++ (b, m) :: (a, n) :: back)) (hid : n.id = id)
    (hother : id ∉ pipeIds (front ++ [(b, m)])) :
    ∃ s', s.removePipe id = some (0, s') ∧
      s'.Holds (front ++ (b, { m with next := n.next }) :: back) ∧
      s'.queues = s.queues := by
  obtain ⟨p, hp⟩ := h.headPipe (by simp)
  have h' : s.Holds ((front ++ [(b, m)]) ++ (a, n) :: back) := by
    rw [List.append_assoc]
    exact h
  obtain ⟨hfront, hread, -, hnotmem, -⟩ := Chain.split h'
  obtain ⟨-, hbefore, -⟩ := Chain.split h
  have hab : a ≠ b := by
    rintro rfl
    exact hnotmem (by simp)
  have hlength := Chain.length_le h'
  rw [List.length_append, List.length_cons] at hlength
  rw [hp] at hfront
  have hfound := searchPipe_found hfront hread hid hother
    (by omega : (front ++ [(b, m)]).length < s.pipes.live.card) none
  have hwrite := modify_eq hbefore fun before => { before with next := n.next }
  have hread' : (s.pipes.store b { m with next := n.next }).read a = some n := by
    rw [store_read_other hab]
    exact hread
  obtain ⟨pipes, hfree, -, hsame⟩ := free_eq hread'
  refine ⟨{ s with pipes := pipes }, ?_, ?_, rfl⟩
  · simp [PipeList.removePipe, hp, hfound, hwrite, hfree]
  · apply Chain.unlink h
    · rw [hsame b hab.symm, store_read_same]
    · rfl
    · intro c hca hcb
      rw [hsame c hca, store_read_other hcb]

theorem Holds.setContents (h : s.Holds (front ++ (a, n) :: back)) (buf : Buffer)
    (plen : Int) (beingUsed : Bool) :
    ∃ s', s.setContents a buf plen beingUsed = some s' ∧
      s'.Holds (front ++ (a, { n with
        buf := buf, plen := plen, beingUsed := beingUsed }) :: back) ∧
      s'.queues = s.queues := by
  obtain ⟨-, hread, -⟩ := Chain.split h
  have hwrite := modify_eq hread fun n =>
    { n with buf := buf, plen := plen, beingUsed := beingUsed }
  refine ⟨{ s with pipes := s.pipes.store a { n with
    buf := buf, plen := plen, beingUsed := beingUsed } }, ?_,
    Chain.replace h rfl, rfl⟩
  rw [PipeList.setContents, hwrite]
  rfl

/-! ## The map -/

/-- The list stands for these pipes in this order. -/
def Represents (s : PipeList) (entries : List (Addr × PipeNode)) : Prop :=
  ∃ nodes, s.Holds nodes ∧ pipeEntries nodes = entries

end PipeList

/-- The ids along the list are strictly increasing. -/
def Increasing (entries : List (Addr × PipeNode)) : Prop :=
  (pipeIds entries).Pairwise (· < ·)

/-- The id of the last pipe. -/
def lastPipeId (entries : List (Addr × PipeNode)) : Int :=
  (pipeIds entries).getLast?.getD 0

/-- All pipes but the one with this id. -/
def withoutPipe (id : Int) (entries : List (Addr × PipeNode)) :
    List (Addr × PipeNode) :=
  entries.filter fun x => x.2.id ≠ id

/-- The pipe with this id gets new contents. -/
def withContents (id : Int) (buf : Buffer) (plen : Int) (beingUsed : Bool)
    (entries : List (Addr × PipeNode)) : List (Addr × PipeNode) :=
  entries.map fun x =>
    if x.2.id = id then
      (x.1, { x.2 with buf := buf, plen := plen, beingUsed := beingUsed })
    else x

section Entries

variable {id : Int} {entries front back : List (Addr × PipeNode)} {a : Addr}
  {n : PipeNode}

theorem ne_of_notMem_pipeIds (hid : id ∉ pipeIds entries)
    {x : Addr × PipeNode} (hx : x ∈ entries) : x.2.id ≠ id := by
  rintro rfl
  exact hid (List.mem_map.2 ⟨x, hx, rfl⟩)

theorem withoutPipe_eq_self (hid : id ∉ pipeIds entries) :
    withoutPipe id entries = entries := by
  apply List.filter_eq_self.2
  intro x hx
  exact decide_eq_true (ne_of_notMem_pipeIds hid hx)

theorem withContents_eq_self (hid : id ∉ pipeIds entries) (buf : Buffer)
    (plen : Int) (beingUsed : Bool) :
    withContents id buf plen beingUsed entries = entries := by
  have hsame : ∀ x ∈ entries, (if x.2.id = id then
      (x.1, { x.2 with buf := buf, plen := plen, beingUsed := beingUsed })
      else x) = x := by
    intro x hx
    rw [if_neg (ne_of_notMem_pipeIds hid hx)]
  exact (List.map_congr_left hsame).trans (List.map_id _)

theorem withoutPipe_middle (hfront : n.id ∉ pipeIds front)
    (hback : n.id ∉ pipeIds back) :
    withoutPipe n.id (front ++ (a, n) :: back) = front ++ back := by
  have hbefore := withoutPipe_eq_self hfront
  have hbehind := withoutPipe_eq_self hback
  simp only [withoutPipe] at hbefore hbehind ⊢
  rw [List.filter_append, List.filter_cons_of_neg (by simp), hbefore, hbehind]

theorem withContents_middle (hfront : n.id ∉ pipeIds front)
    (hback : n.id ∉ pipeIds back) (buf : Buffer) (plen : Int)
    (beingUsed : Bool) :
    withContents n.id buf plen beingUsed (front ++ (a, n) :: back) =
      front ++ (a, { n with
        buf := buf, plen := plen, beingUsed := beingUsed }) :: back := by
  have hbefore := withContents_eq_self hfront buf plen beingUsed
  have hbehind := withContents_eq_self hback buf plen beingUsed
  simp only [withContents] at hbefore hbehind ⊢
  rw [List.map_append, List.map_cons, hbefore, hbehind, if_pos rfl]

theorem pipeIds_withoutPipe (id : Int) (entries : List (Addr × PipeNode)) :
    pipeIds (withoutPipe id entries) = (pipeIds entries).filter fun i => i ≠ id := by
  rw [pipeIds, pipeIds, withoutPipe, List.filter_map]
  rfl

theorem pipeIds_withContents (id : Int) (buf : Buffer) (plen : Int)
    (beingUsed : Bool) (entries : List (Addr × PipeNode)) :
    pipeIds (withContents id buf plen beingUsed entries) = pipeIds entries := by
  rw [pipeIds, pipeIds, withContents, List.map_map]
  apply List.map_congr_left
  intro x _
  by_cases hx : x.2.id = id
  · simp [hx]
  · simp [hx]

end Entries

namespace PipeList

variable {s : PipeList} {a : Addr} {id : Int}
  {entries nodes : List (Addr × PipeNode)}

/-- A pipe with an id that occurs splits an increasing list. -/
theorem split_at_id (hinc : (pipeIds nodes).Pairwise (· < ·))
    (hid : id ∈ pipeIds nodes) :
    ∃ front a n back, nodes = front ++ (a, n) :: back ∧ n.id = id ∧
      id ∉ pipeIds front ∧ id ∉ pipeIds back := by
  obtain ⟨⟨a, n⟩, hmem, rfl⟩ := List.mem_map.1 hid
  obtain ⟨front, back, rfl⟩ := List.append_of_mem hmem
  rw [pipeIds_append, List.pairwise_append] at hinc
  obtain ⟨-, hback, hcross⟩ := hinc
  refine ⟨front, a, n, back, rfl, rfl, ?_, ?_⟩
  · intro hfront
    exact lt_irrefl _ (hcross n.id hfront n.id (by simp [pipeIds]))
  · intro hin
    have hlt := (List.pairwise_cons.1 hback).1 n.id hin
    exact lt_irrefl _ hlt

theorem Represents.addPipe (h : s.Represents entries) (hne : entries ≠ [])
    (hfree : s.pipes.read a = none) (block : PipeNode)
    (queueAnswer : Option Addr) :
    ∃ s', s.addPipe (some (a, block)) queueAnswer =
        some (toInt32 (lastPipeId entries + 1), s') ∧
      s'.Represents (entries ++ [(a, PipeNode.fresh block queueAnswer
        (toInt32 (lastPipeId entries + 1)))]) ∧
      s'.queues = (queueInitAt s.queues queueAnswer).2 := by
  obtain ⟨nodes, hs, rfl⟩ := h
  rcases List.eq_nil_or_concat' nodes with rfl | ⟨front, ⟨t, last⟩, rfl⟩
  · exact absurd rfl hne
  · have hlast : lastPipeId (pipeEntries (front ++ [(t, last)])) = last.id := by
      rw [lastPipeId, pipeIds_entries]
      simp [pipeIds]
    rw [hlast]
    obtain ⟨s', hadd, hs', hqueues⟩ := hs.addPipe hfree block queueAnswer
    refine ⟨s', hadd, ⟨_, hs', ?_⟩, hqueues⟩
    simp [pipeEntries, PipeNode.detach, PipeNode.fresh, PipeNode.clear]

theorem Represents.getPipe (h : s.Represents entries) (hne : entries ≠ [])
    (hinc : Increasing entries) (id : Int) :
    ∃ found, s.getPipe id = some found ∧
      ∀ pipe, found = some pipe ↔ ∃ n, (pipe, n) ∈ entries ∧ n.id = id := by
  obtain ⟨nodes, hs, rfl⟩ := h
  rw [Increasing, pipeIds_entries] at hinc
  by_cases hid : id ∈ pipeIds nodes
  · obtain ⟨front, a, n, back, rfl, rfl, hfront, hback⟩ := split_at_id hinc hid
    refine ⟨some a, hs.getPipe_found rfl hfront, ?_⟩
    rw [← pipeIds_entries] at hfront hback
    intro pipe
    constructor
    · rintro ⟨⟩
      exact ⟨n.detach, by simp [pipeEntries], rfl⟩
    · rintro ⟨m, hm, hmid⟩
      rw [pipeEntries_append, List.mem_append] at hm
      rcases hm with hm | hm
      · exact absurd (List.mem_map.2 ⟨_, hm, hmid⟩) hfront
      · rcases List.mem_cons.1 hm with hm | hm
        · cases hm
          rfl
        · exact absurd (List.mem_map.2 ⟨_, hm, hmid⟩) hback
  · have hnodes : nodes ≠ [] := by
      rintro rfl
      exact hne rfl
    refine ⟨none, hs.getPipe_missing hnodes hid, ?_⟩
    rw [← pipeIds_entries] at hid
    intro pipe
    constructor
    · rintro ⟨⟩
    · rintro ⟨n, hn, hnid⟩
      exact absurd (List.mem_map.2 ⟨_, hn, hnid⟩) hid

/-- A pipe behind the head is taken out. -/
theorem Represents.removePipe (h : s.Represents entries)
    (hinc : Increasing entries) (hid : id ∈ (pipeIds entries).tail) :
    ∃ s', s.removePipe id = some (0, s') ∧
      s'.Represents (withoutPipe id entries) ∧ s'.queues = s.queues := by
  obtain ⟨nodes, hs, rfl⟩ := h
  rw [Increasing, pipeIds_entries] at hinc
  rw [pipeIds_entries] at hid
  obtain ⟨front, a, n, back, rfl, rfl, hfront, hback⟩ :=
    split_at_id hinc (List.mem_of_mem_tail hid)
  rcases List.eq_nil_or_concat' front with rfl | ⟨front, ⟨b, m⟩, rfl⟩
  · exact absurd hid hback
  · have hs' : s.Holds (front ++ (b, m) :: (a, n) :: back) := by
      rw [List.append_assoc] at hs
      exact hs
    obtain ⟨s', hremove, hs', hqueues⟩ := hs'.removePipe rfl hfront
    refine ⟨s', hremove, ⟨_, hs', ?_⟩, hqueues⟩
    rw [← pipeIds_entries] at hfront hback
    rw [pipeEntries_append _ ((a, n) :: back), pipeEntries_cons]
    have hwithout := withoutPipe_middle (a := a) (n := n.detach) hfront hback
    rw [PipeNode.detach_id] at hwithout
    rw [hwithout]
    simp [PipeNode.detach]

theorem Represents.usePipe (h : s.Represents entries) (hne : entries ≠ [])
    (hinc : Increasing entries) (id : Int) (buf : Buffer) (plen : Int)
    (beingUsed : Bool) :
    ∃ s', s.usePipe id buf plen beingUsed = some s' ∧
      s'.Represents (withContents id buf plen beingUsed entries) ∧
      s'.queues = s.queues := by
  obtain ⟨nodes, hs, rfl⟩ := h
  rw [Increasing, pipeIds_entries] at hinc
  by_cases hid : id ∈ pipeIds nodes
  · obtain ⟨front, a, n, back, rfl, rfl, hfront, hback⟩ := split_at_id hinc hid
    obtain ⟨s', hset, hs', hqueues⟩ := hs.setContents buf plen beingUsed
    refine ⟨s', ?_, ⟨_, hs', ?_⟩, hqueues⟩
    · simp [PipeList.usePipe, hs.getPipe_found rfl hfront, hset]
    · rw [← pipeIds_entries] at hfront hback
      have hwith := withContents_middle (a := a) (n := n.detach) hfront hback buf
        plen beingUsed
      rw [PipeNode.detach_id] at hwith
      rw [pipeEntries_append, pipeEntries_append, pipeEntries_cons,
        pipeEntries_cons, hwith]
      rfl
  · have hnodes : nodes ≠ [] := by
      rintro rfl
      exact hne rfl
    refine ⟨s, ?_, ⟨nodes, hs, ?_⟩, rfl⟩
    · simp [PipeList.usePipe, hs.getPipe_missing hnodes hid]
    · rw [← pipeIds_entries] at hid
      exact (withContents_eq_self hid buf plen beingUsed).symm

end PipeList

/-! ## Sequences of calls -/

/-- The list, the ids that `add_pipe` has returned and whose pipes are still
present, and how often `queue_init` has failed. -/
structure PipeRun where
  list : PipeList
  issued : List Int
  failed : Nat

/-- A call on the list.  `add_pipe` comes with the answers of `malloc`.  Between
such calls the kernel uses the pipes and their queues. -/
inductive PipeOp where
  | add (answer : Option (Addr × PipeNode)) (queueAnswer : Option Addr)
  | remove (id : Int)
  | use (id : Int) (buf : Buffer) (plen : Int) (beingUsed : Bool)
  | setQueue (queue : Addr) (record : Queue)

/-- What a call does to the pipes in order. -/
def PipeOp.effect (entries : List (Addr × PipeNode)) :
    PipeOp → List (Addr × PipeNode)
  | .add (some (a, block)) queueAnswer =>
      entries ++ [(a, block.fresh queueAnswer (lastPipeId entries + 1))]
  | .add none _ => entries
  | .remove id => withoutPipe id entries
  | .use id buf plen beingUsed => withContents id buf plen beingUsed entries
  | .setQueue _ _ => entries

namespace PipeRun

/-- The state behind `init_head_pipe`, when `malloc` returns this block. -/
def start (pipes : NodeHeap Addr PipeNode) (queues : NodeHeap Addr Queue)
    (head : Addr) (block : PipeNode) : PipeRun :=
  let (headPipe, pipes) := initHeadPipe pipes (some (head, block))
  ⟨⟨pipes, queues, headPipe⟩, [], 0⟩

def take (x : PipeRun) : PipeOp → Option PipeRun
  | .add answer queueAnswer => do
      let (id, list) ← x.list.addPipe answer queueAnswer
      some
        { list := list
          issued := if id = Rc.error then x.issued else x.issued ++ [id]
          failed :=
            if answer.isSome ∧ queueAnswer = none then x.failed + 1
            else x.failed }
  | .remove id => do
      let (_, list) ← x.list.removePipe id
      some { x with list := list, issued := x.issued.filter fun i => i ≠ id }
  | .use id buf plen beingUsed => do
      let list ← x.list.usePipe id buf plen beingUsed
      some { x with list := list }
  | .setQueue queue record => do
      let queues ← x.list.queues.modify queue fun _ => record
      some { x with list := { x.list with queues := queues } }

/-- How often `queue_init` may fail before the ids could leave the range of an
`int`.  The other ids are bounded by the queues, which are never freed. -/
def maxFailures : Nat := 10 ^ 9

end PipeRun

/-- `malloc` does not hand out a block that is in use, and `remove_pipe` gets an
id that `add_pipe` has returned and that is still present. -/
def PipeOp.Possible (x : PipeRun) : PipeOp → Prop
  | .add answer queueAnswer =>
      (∀ b ∈ answer, x.list.pipes.read b.1 = none) ∧
        (∀ q ∈ queueAnswer, x.list.queues.read q = none) ∧
        (answer.isSome → queueAnswer = none → x.failed < PipeRun.maxFailures)
  | .remove id => id ∈ x.issued
  | .use _ _ _ _ => True
  | .setQueue queue _ => (x.list.queues.read queue).isSome = true

namespace PipeOp

variable {x : PipeRun} {b : Addr × PipeNode} {q : Addr}

theorem possible_none : (add none none).Possible x := by
  simp [Possible]

theorem possible_queue :
    x.list.queues.read q = none ↔ (add none (some q)).Possible x := by
  simp [Possible]

theorem possible_pipe :
    (x.list.pipes.read b.1 = none ∧ x.failed < PipeRun.maxFailures) ↔
      (add (some b) none).Possible x := by
  simp [Possible]

theorem possible_both :
    (x.list.pipes.read b.1 = none ∧ x.list.queues.read q = none) ↔
      (add (some b) (some q)).Possible x := by
  simp [Possible]

end PipeOp

instance PipeOp.instDecidablePossible (x : PipeRun) (op : PipeOp) :
    Decidable (op.Possible x) :=
  match op with
  | .add none none => .isTrue possible_none
  | .add none (some q) =>
      decidable_of_iff (x.list.queues.read q = none) possible_queue
  | .add (some b) none =>
      decidable_of_iff
        (x.list.pipes.read b.1 = none ∧ x.failed < PipeRun.maxFailures)
        possible_pipe
  | .add (some b) (some q) =>
      decidable_of_iff
        (x.list.pipes.read b.1 = none ∧ x.list.queues.read q = none)
        possible_both
  | .remove id => inferInstanceAs (Decidable (id ∈ x.issued))
  | .use _ _ _ _ => inferInstanceAs (Decidable True)
  | .setQueue queue _ =>
      inferInstanceAs (Decidable ((x.list.queues.read queue).isSome = true))

namespace PipeRun

variable {x : PipeRun} {entries : List (Addr × PipeNode)} {op : PipeOp}

/-- The invariant of the runs: the ids are those issued, and their growth is
paid for by the queues allocated and by the failures. -/
structure Ordered (x : PipeRun) (entries : List (Addr × PipeNode)) : Prop where
  represents : x.list.Represents entries
  ids : pipeIds entries = headPipeId :: x.issued
  increasing : Increasing entries
  bound : ∀ id ∈ pipeIds entries,
    id ≤ headPipeId + x.list.queues.live.card + x.failed
  failed : x.failed ≤ maxFailures

theorem Ordered.ne_nil (h : x.Ordered entries) : entries ≠ [] := by
  rintro rfl
  cases h.ids

theorem Ordered.head_le (h : x.Ordered entries) {id : Int}
    (hid : id ∈ pipeIds entries) : headPipeId ≤ id := by
  have hinc := h.increasing
  rw [Increasing, h.ids, List.pairwise_cons] at hinc
  rw [h.ids, List.mem_cons] at hid
  rcases hid with rfl | hid
  · exact le_rfl
  · exact (hinc.1 id hid).le

theorem Ordered.last_mem (h : x.Ordered entries) :
    lastPipeId entries ∈ pipeIds entries := by
  have hne : pipeIds entries ≠ [] := by
    rw [h.ids]
    simp
  rw [lastPipeId, List.getLast?_eq_some_getLast hne]
  exact List.getLast_mem hne

/-- All ids are at most that of the last pipe. -/
theorem Ordered.le_last (h : x.Ordered entries) {id : Int}
    (hid : id ∈ pipeIds entries) : id ≤ lastPipeId entries := by
  have hinc := h.increasing
  rw [lastPipeId]
  rw [Increasing] at hinc
  rcases List.eq_nil_or_concat' (pipeIds entries) with hnil | ⟨front, last, hsplit⟩
  · rw [hnil] at hid
    cases hid
  · rw [hsplit] at hid hinc ⊢
    rw [List.getLast?_concat, Option.getD_some]
    rcases List.mem_append.1 hid with hid | hid
    · exact ((List.pairwise_append.1 hinc).2.2 id hid last (by simp)).le
    · exact (List.mem_singleton.1 hid).le

/-- The next id does not overflow. -/
theorem Ordered.next_id (h : x.Ordered entries) :
    toInt32 (lastPipeId entries + 1) = lastPipeId entries + 1 := by
  have hlow := h.head_le h.last_mem
  have hhigh := h.bound _ h.last_mem
  have hfailed := h.failed
  have hcard := Finset.card_le_univ x.list.queues.live
  rw [Fintype.card_fin] at hcard
  simp only [headPipeId, maxLocks, maxCvars, maxFailures] at hlow hhigh hfailed
  unfold toInt32
  omega

theorem ordered_start (pipes : NodeHeap Addr PipeNode)
    (queues : NodeHeap Addr Queue) (head : Addr) (block : PipeNode) :
    (start pipes queues head block).Ordered
      [(head, { block.clear with id := headPipeId })] := by
  constructor
  · refine ⟨[(head, { block.clear with id := headPipeId })], ?_, rfl⟩
    exact ⟨rfl, store_read_same, rfl⟩
  · rfl
  · simp [Increasing, pipeIds]
  · intro id hid
    have hhead : id = headPipeId := by simpa [pipeIds] using hid
    rw [hhead]
    omega
  · exact Nat.zero_le _

/-- A new pipe is paid for by its queue, or by a failure. -/
theorem Ordered.add (h : x.Ordered entries) {a : Addr} {block : PipeNode}
    {queueAnswer : Option Addr}
    (hop : (PipeOp.add (some (a, block)) queueAnswer).Possible x) :
    ∃ x', x.take (.add (some (a, block)) queueAnswer) = some x' ∧
      x'.Ordered
        (entries ++ [(a, block.fresh queueAnswer (lastPipeId entries + 1))]) := by
  obtain ⟨hfree, hqueue, hfailed⟩ := hop
  obtain ⟨list, hadd, hlist, hqueues⟩ :=
    h.represents.addPipe h.ne_nil (hfree _ rfl) block queueAnswer
  rw [h.next_id] at hadd hlist
  have hlow := h.head_le h.last_mem
  have hids : pipeIds (entries ++
      [(a, block.fresh queueAnswer (lastPipeId entries + 1))]) =
        pipeIds entries ++ [lastPipeId entries + 1] := by
    simp [pipeIds, PipeNode.fresh]
  have hne : lastPipeId entries + 1 ≠ Rc.error := by
    simp only [headPipeId, maxLocks, maxCvars] at hlow
    unfold Rc.error
    omega
  let x' : PipeRun :=
    { list := list
      issued := x.issued ++ [lastPipeId entries + 1]
      failed := if queueAnswer = none then x.failed + 1 else x.failed }
  have hpaid : x.list.queues.live.card + x.failed + 1 =
      list.queues.live.card + x'.failed := by
    rw [hqueues]
    cases queueAnswer with
    | none =>
        simp only [queueInitAt, x', if_true]
        omega
    | some q =>
        simp only [queueInitAt, x', reduceCtorEq, if_false]
        rw [store_card (hqueue q rfl)]
        omega
  refine ⟨x', ?_, ?_⟩
  · simp [take, hadd, hne, x']
  · constructor
    · exact hlist
    · rw [hids, h.ids]
      rfl
    · rw [Increasing, hids, List.pairwise_append]
      refine ⟨h.increasing, by simp, ?_⟩
      intro id hid last hlast
      have hle := h.le_last hid
      rw [List.mem_singleton.1 hlast]
      omega
    · intro id hid
      change id ≤ headPipeId + list.queues.live.card + x'.failed
      rw [hids, List.mem_append, List.mem_singleton] at hid
      have hlast := h.bound _ h.last_mem
      rcases hid with hid | rfl
      · have hbound := h.bound id hid
        omega
      · omega
    · have hbefore := h.failed
      cases queueAnswer with
      | none =>
          have hroom := hfailed rfl rfl
          simp only [x', if_true]
          omega
      | some q => simpa [x'] using hbefore

theorem Ordered.mem_tail (h : x.Ordered entries) {id : Int} (hid : id ∈ x.issued) :
    id ∈ (pipeIds entries).tail := by
  rw [h.ids]
  exact hid

theorem Ordered.remove (h : x.Ordered entries) {id : Int} (hid : id ∈ x.issued) :
    ∃ x', x.take (.remove id) = some x' ∧
      x'.Ordered (withoutPipe id entries) := by
  obtain ⟨list, hremove, hlist, hqueues⟩ :=
    h.represents.removePipe h.increasing (h.mem_tail hid)
  have hhead : headPipeId < id := by
    have hinc := h.increasing
    rw [Increasing, h.ids, List.pairwise_cons] at hinc
    exact hinc.1 id hid
  refine ⟨{ x with
    list := list
    issued := x.issued.filter fun i => i ≠ id }, by simp [take, hremove], ?_⟩
  constructor
  · exact hlist
  · rw [pipeIds_withoutPipe, h.ids, List.filter_cons_of_pos (by simp [hhead.ne])]
  · rw [Increasing, pipeIds_withoutPipe]
    exact h.increasing.sublist List.filter_sublist
  · intro i hi
    rw [pipeIds_withoutPipe] at hi
    rw [hqueues]
    exact h.bound i (List.mem_filter.1 hi).1
  · exact h.failed

theorem Ordered.use (h : x.Ordered entries) (id : Int) (buf : Buffer) (plen : Int)
    (beingUsed : Bool) :
    ∃ x', x.take (.use id buf plen beingUsed) = some x' ∧
      x'.Ordered (withContents id buf plen beingUsed entries) := by
  obtain ⟨list, huse, hlist, hqueues⟩ :=
    h.represents.usePipe h.ne_nil h.increasing id buf plen beingUsed
  refine ⟨{ x with list := list }, by simp [take, huse], ?_⟩
  have hids := pipeIds_withContents id buf plen beingUsed entries
  constructor
  · exact hlist
  · rw [hids]
    exact h.ids
  · rw [Increasing, hids]
    exact h.increasing
  · rw [hids, hqueues]
    exact h.bound
  · exact h.failed

theorem Ordered.setQueue (h : x.Ordered entries) {queue : Addr} {record : Queue}
    (hlive : (x.list.queues.read queue).isSome = true) :
    ∃ x', x.take (.setQueue queue record) = some x' ∧ x'.Ordered entries := by
  obtain ⟨old, hread⟩ := Option.isSome_iff_exists.1 hlive
  have hwrite := modify_eq hread fun _ => record
  refine ⟨{ x with list := { x.list with
    queues := x.list.queues.store queue record } }, by simp [take, hwrite], ?_⟩
  constructor
  · exact h.represents
  · exact h.ids
  · exact h.increasing
  · rw [store_live hlive]
    exact h.bound
  · exact h.failed

theorem take_ordered (h : x.Ordered entries) (hop : op.Possible x) :
    ∃ x', x.take op = some x' ∧ x'.Ordered (op.effect entries) := by
  cases op with
  | add answer queueAnswer =>
      rcases answer with _ | ⟨a, block⟩
      · exact ⟨x, by simp [take, PipeList.addPipe], h⟩
      · exact h.add hop
  | remove id => exact h.remove hop
  | use id buf plen beingUsed => exact h.use id buf plen beingUsed
  | setQueue queue record => exact h.setQueue hop

/-- The list is a map from ids to pipes, in the order of the ids. -/
structure OrderedMap (x : PipeRun) (entries : List (Addr × PipeNode)) : Prop where
  represents : x.list.Represents entries
  ids : pipeIds entries = headPipeId :: x.issued
  increasing : Increasing entries
  /-- `add_pipe` adds an empty, free pipe at the end, under a new id. -/
  add : ∀ a block queueAnswer,
    (PipeOp.add (some (a, block)) queueAnswer).Possible x →
      ∃ id list, x.list.addPipe (some (a, block)) queueAnswer = some (id, list) ∧
        id ∉ pipeIds entries ∧
        list.Represents (entries ++ [(a, block.fresh queueAnswer id)]) ∧
        list.queues = (queueInitAt x.list.queues queueAnswer).2
  get : ∀ id, ∃ found, x.list.getPipe id = some found ∧
    ∀ pipe, found = some pipe ↔ ∃ n, (pipe, n) ∈ entries ∧ n.id = id
  /-- `remove_pipe` takes out the pipe and leaves the others as they were. -/
  remove : ∀ id ∈ x.issued, ∃ list, x.list.removePipe id = some (0, list) ∧
    list.Represents (withoutPipe id entries) ∧ list.queues = x.list.queues

theorem Ordered.orderedMap (h : x.Ordered entries) : x.OrderedMap entries := by
  constructor
  · exact h.represents
  · exact h.ids
  · exact h.increasing
  · intro a block queueAnswer hop
    obtain ⟨list, hadd, hlist, hqueues⟩ :=
      h.represents.addPipe h.ne_nil (hop.1 _ rfl) block queueAnswer
    rw [h.next_id] at hadd hlist
    refine ⟨_, list, hadd, ?_, hlist, hqueues⟩
    intro hmem
    have hle := h.le_last hmem
    omega
  · exact h.represents.getPipe h.ne_nil h.increasing
  · intro id hid
    exact h.represents.removePipe h.increasing (h.mem_tail hid)

end PipeRun

/-- The pipes behind a sequence of calls, in order. -/
def mapped (head : Addr) (block : PipeNode) (ops : List PipeOp) :
    List (Addr × PipeNode) :=
  ops.foldl PipeOp.effect [(head, { block.clear with id := headPipeId })]

/--
After every sequence of calls behind `init_head_pipe`, none of which has
followed a NULL pointer or accessed a freed pipe, the list is an ordered map of
the head, the pipes that were added and not removed, and what was written to
them.
-/
theorem pipe_list_is_ordered_map (pipes : NodeHeap Addr PipeNode)
    (queues : NodeHeap Addr Queue) (head : Addr) (block : PipeNode)
    (ops : List PipeOp)
    (h : AdmitsPartial PipeRun.take (fun x op => op.Possible x)
      (PipeRun.start pipes queues head block) ops) :
    ∃ x, ops.foldlM PipeRun.take (PipeRun.start pipes queues head block) = some x ∧
      x.OrderedMap (mapped head block ops) := by
  have hstep (x : PipeRun) (entries : List (Addr × PipeNode)) (op : PipeOp)
      (hx : x.Ordered entries) (hop : op.Possible x) :=
    PipeRun.take_ordered hx hop
  obtain ⟨x, hrun, hx⟩ :=
    simulation hstep (PipeRun.ordered_start pipes queues head block) ops h
  exact ⟨x, hrun, hx.orderedMap⟩

/-- A block with old contents. -/
def usedBlock : PipeNode := ⟨fun _ => 65, 3, 7, some 5, true, none⟩

/-- Three pipes, of which the one in the middle and the last are removed. -/
def thinned : List PipeOp :=
  [.add (some (1, usedBlock)) (some 1), .add (some (2, usedBlock)) none,
    .use 5102 (fun _ => 66) 2 true, .add (some (3, usedBlock)) (some 2),
    .remove 5103, .remove 5104, .add (some (2, usedBlock)) (some 3)]

theorem pipe_list_thinned :
    AdmitsPartial PipeRun.take (fun x op => op.Possible x)
      (PipeRun.start NodeHeap.empty NodeHeap.empty 0 usedBlock) thinned ∧
    ∃ x, thinned.foldlM PipeRun.take
        (PipeRun.start NodeHeap.empty NodeHeap.empty 0 usedBlock) = some x ∧
      x.OrderedMap (mapped 0 usedBlock thinned) :=
  have hrun : AdmitsPartial PipeRun.take (fun x op => op.Possible x)
      (PipeRun.start NodeHeap.empty NodeHeap.empty 0 usedBlock) thinned := by
    decide +kernel
  ⟨hrun, pipe_list_is_ordered_map _ _ _ _ _ hrun⟩

example : pipeIds (mapped 0 usedBlock thinned) = [5101, 5102, 5103] := by
  decide +kernel

end Yalnix
