import Yalnix.Lists.QueueFifo

/-!
# Lists are stacks

The chain of `prev` pointers from the tail of a list carries its items, the one
added last first.  The forward link of the tail is NULL after an addition; a
pop leaves it pointing to the node that was freed.
-/

namespace Yalnix

open NodeHeap TransitionSystem

namespace ListState

variable {s : ListState} {nodes : List (Addr × LNode)} {behind : Option Addr}
  {a : Addr}

/-! ## The representation -/

/-- The forward links of the nodes, which are listed from the tail: each leads
to the node listed before it, and that of the tail is `behind`. -/
def Forward : Option Addr → List (Addr × LNode) → Prop
  | _, [] => True
  | behind, (a, n) :: rest => n.next = behind ∧ Forward (some a) rest

/-- The list consists of these nodes, and the link behind its tail is NULL or
leads to a node that has been freed. -/
structure Holds (s : ListState) (nodes : List (Addr × LNode))
    (behind : Option Addr) : Prop where
  chain : s.heap.Chain LNode.prev s.list.tail nodes
  head : s.list.head = nodes.getLast?.map Prod.fst
  size : s.list.size = nodes.length
  forward : Forward behind nodes
  freed : ∀ b ∈ behind, s.heap.read b = none

/-- The items that the nodes carry, in order of addition. -/
def carried (nodes : List (Addr × LNode)) : List Int :=
  (nodes.map fun x => x.2.data).reverse

theorem holds_init (heap : NodeHeap Addr LNode) :
    Holds ⟨heap, listInit⟩ [] none := by
  constructor
  · rfl
  · rfl
  · rfl
  · trivial
  · simp

/-- The fields of the list are known from the addresses of its nodes. -/
theorem Holds.list_eq (h : s.Holds nodes behind) :
    s.list = ⟨(nodes.map Prod.fst).getLast?, (nodes.map Prod.fst).head?,
      (nodes.map Prod.fst).length⟩ := by
  have htail := h.chain.start
  have hhead := h.head
  have hsize := h.size
  rcases s with ⟨heap, ⟨head, tail, size⟩⟩
  simp_all

theorem Holds.head_eq_none_iff (h : s.Holds nodes behind) :
    s.list.head = none ↔ nodes = [] := by
  rw [h.head, Option.map_eq_none_iff, List.getLast?_eq_none_iff]

/-! ## Adding -/

/-- The tail gets a forward link to the new node. -/
def relink (a : Addr) : List (Addr × LNode) → List (Addr × LNode)
  | [] => []
  | (t, n) :: rest => (t, { n with next := some a }) :: rest

@[simp] theorem relink_addresses (a : Addr) (nodes : List (Addr × LNode)) :
    (relink a nodes).map Prod.fst = nodes.map Prod.fst := by
  cases nodes with
  | nil => rfl
  | cons x rest => rfl

@[simp] theorem relink_carried (a : Addr) (nodes : List (Addr × LNode)) :
    carried (relink a nodes) = carried nodes := by
  cases nodes with
  | nil => rfl
  | cons x rest => rfl

/-- The nodes of a list with one more item. -/
def extend (a : Addr) (item : Int) (nodes : List (Addr × LNode)) :
    List (Addr × LNode) :=
  (a, ⟨item, none, nodes.head?.map Prod.fst⟩) :: relink a nodes

theorem Holds.add_empty (h : s.Holds [] behind) (item : Int) (a : Addr) :
    ∃ s', s.listAdd item (some a) = some (s'.list.size, s') ∧
      s'.Holds (extend a item []) none := by
  have hhead := h.head_eq_none_iff.2 rfl
  have hsize := h.size
  refine ⟨⟨s.heap.store a ⟨item, none, none⟩,
    ⟨some a, some a, toInt32 (s.list.size + 1)⟩⟩, ?_, ?_⟩
  · simp [listAdd, lnodeInit, hhead]
  · constructor
    · simp [Segment, extend, relink]
    · simp [extend, relink]
    · simp [extend, relink, hsize, toInt32]
    · simp [Forward, extend, relink]
    · simp

theorem Holds.add_behind {t : Addr} {last : LNode} {rest : List (Addr × LNode)}
    (h : s.Holds ((t, last) :: rest) behind) (hfree : s.heap.read a = none)
    (item : Int) :
    ∃ s', s.listAdd item (some a) = some (s'.list.size, s') ∧
      s'.Holds (extend a item ((t, last) :: rest)) none := by
  obtain ⟨htail, hlast, hrest⟩ := h.chain
  have hhead : s.list.head ≠ none := by
    simp [h.head_eq_none_iff]
  have hne : t ≠ a := by
    rintro rfl
    rw [hfree] at hlast
    cases hlast
  have hold : ∀ b ∈ rest.map Prod.fst, b ≠ t ∧ b ≠ a := by
    intro b hb
    have hnodup := h.chain.nodup
    rw [List.map_cons, List.nodup_cons] at hnodup
    constructor
    · rintro rfl
      exact hnodup.1 hb
    · rintro rfl
      obtain ⟨x, hx, rfl⟩ := List.mem_map.1 hb
      rw [hrest.read hx] at hfree
      cases hfree
  -- the new node, with its back link, and then the old tail
  let fresh := (s.heap.store a ⟨item, none, none⟩).store a
    ⟨item, none, some t⟩
  have hread : fresh.read t = some last := by
    rw [store_read_other hne, store_read_other hne]
    exact hlast
  have hchain : (fresh.store t { last with next := some a }).Chain LNode.prev
      (some a) (extend a item ((t, last) :: rest)) := by
    refine ⟨rfl, ?_, rfl, by simp, ?_⟩
    · rw [store_read_other hne.symm, store_read_same]
      rfl
    · apply hrest.congr
      intro b hb
      obtain ⟨hbt, hba⟩ := hold b hb
      rw [store_read_other hbt, store_read_other hba, store_read_other hba]
  refine ⟨⟨fresh.store t { last with next := some a },
    ⟨s.list.head, some a, toInt32 (s.list.size + 1)⟩⟩, ?_, ?_⟩
  · have hwrite := modify_eq hread fun n => { n with next := some a }
    have hback := modify_eq (store_read_same (h := s.heap) (a := a)
      (n := ⟨item, none, none⟩)) fun n => { n with prev := some t }
    simp [listAdd, lnodeInit, hhead, htail, hback, fresh] at hwrite ⊢
    simp [hwrite]
  · constructor
    · exact hchain
    · rw [h.head, ← List.getLast?_map, ← List.getLast?_map]
      simp [extend, relink, List.getLast?_cons]
    · have hsize := chain_size hchain
      simp only [h.size, extend, relink, List.length_cons] at hsize ⊢
      push_cast at hsize ⊢
      exact hsize
    · exact ⟨rfl, rfl, h.forward.2⟩
    · simp

theorem Holds.add (h : s.Holds nodes behind) (hfree : s.heap.read a = none)
    (item : Int) :
    ∃ s', s.listAdd item (some a) = some (s'.list.size, s') ∧
      s'.Holds (extend a item nodes) none := by
  cases nodes with
  | nil => exact h.add_empty item a
  | cons x rest => exact h.add_behind hfree item

/-! ## Popping -/

theorem Holds.pop_empty (h : s.Holds [] behind) :
    s.listPop = some (nullItem, s) := by
  have htail : s.list.tail = none := h.chain
  simp [listPop, htail]

theorem Holds.pop {n : LNode} {rest : List (Addr × LNode)}
    (h : s.Holds ((a, n) :: rest) behind) :
    ∃ s', s.listPop = some (n.data, s') ∧ s'.Holds rest (some a) := by
  obtain ⟨htail, hread, hrest⟩ := h.chain
  obtain ⟨heap, hfree, hdead, hothers⟩ := free_eq hread
  have hnodup := h.chain.nodup
  rw [List.map_cons, List.nodup_cons] at hnodup
  have hchain : heap.Chain LNode.prev n.prev rest := by
    apply hrest.congr
    intro b hb
    apply hothers
    rintro rfl
    exact hnodup.1 hb
  refine ⟨⟨heap,
    { head := if n.prev = none then none else s.list.head
      tail := n.prev
      size := toInt32 (s.list.size - 1) }⟩, ?_, ?_⟩
  · simp [listPop, htail, hread, hfree]
  · constructor
    · exact hchain
    · rcases List.eq_nil_or_concat' rest with rfl | ⟨front, last, rfl⟩
      · have hprev : n.prev = none := hchain
        simp [hprev]
      · have hprev : n.prev ≠ none := by
          intro hnull
          rw [hnull] at hchain
          simpa using hchain.nil_of_null
        simp [hprev, h.head, List.getLast?_cons]
    · have hsize := chain_size hchain
      simp [h.size, hsize]
    · exact h.forward.2
    · rintro b hb
      cases hb
      exact hdead

/-- The item on top is the one added last. -/
theorem Holds.pop_carried (h : s.Holds nodes behind) :
    ∃ s' behind', s.listPop =
        some ((carried nodes).getLast?.getD nullItem, s') ∧
      s'.Holds nodes.tail behind' := by
  cases nodes with
  | nil => exact ⟨s, behind, h.pop_empty, h⟩
  | cons x rest =>
      obtain ⟨s', hpop, hs'⟩ := h.pop
      refine ⟨s', _, ?_, hs'⟩
      simp [hpop, carried]

end ListState

/-! ## Sequences of calls -/

/-- A call on a list.  `list_add` comes with the answer of `malloc`. -/
inductive ListOp where
  | add (item : Int) (answer : Option Addr)
  | pop

/-- `malloc` does not hand out a node that is in use. -/
def ListOp.Possible (s : ListState) : ListOp → Prop
  | .add _ answer => ∀ a ∈ answer, s.heap.read a = none
  | .pop => True

instance ListOp.instDecidablePossible (s : ListState) (op : ListOp) :
    Decidable (op.Possible s) :=
  match op with
  | .add _ none => .isTrue nofun
  | .add _ (some a) => decidable_of_iff (s.heap.read a = none) (by simp [Possible])
  | .pop => .isTrue trivial

/-- What a call does to the items that are added and not popped. -/
def ListOp.effect (items : List Int) : ListOp → List Int
  | .add item (some _) => items ++ [item]
  | .add _ none => items
  | .pop => items.dropLast

/-- The items that are added and not popped, in order of addition. -/
def stacked (ops : List ListOp) : List Int := ops.foldl ListOp.effect []

/-- Whether the last call other than a failed addition was a pop. -/
def ListOp.popped (before : Bool) : ListOp → Bool
  | .add _ (some _) => false
  | .add _ none => before
  | .pop => true

def endsWithPop (ops : List ListOp) : Bool := ops.foldl ListOp.popped false

namespace ListState

def take (s : ListState) : ListOp → Option ListState
  | .add item answer => (s.listAdd item answer).map Prod.snd
  | .pop => s.listPop.map Prod.snd

/-- The list is a chain of `size` nodes from `tail` back to `head` that carries
the items, the last one first. -/
structure Lifo (s : ListState) (items : List Int) : Prop where
  chain : ∃ nodes, s.heap.Chain LNode.prev s.list.tail nodes ∧
    nodes.map (fun x => x.2.data) = items.reverse ∧
    s.list.size = nodes.length ∧ s.list.head = nodes.getLast?.map Prod.fst
  head : s.list.head = none ↔ s.list.size = 0
  tail : s.list.tail = none ↔ s.list.size = 0

/-- The list stands for these items, and the link behind its last node is the
one of a freed node exactly when the flag is set. -/
def Represents (s : ListState) (x : List Int × Bool) : Prop :=
  ∃ nodes behind, s.Holds nodes behind ∧ carried nodes = x.1 ∧
    (nodes ≠ [] → behind.isSome = x.2)

variable {s : ListState} {nodes : List (Addr × LNode)} {behind : Option Addr}
  {a : Addr}

theorem Holds.size_eq_zero_iff (h : s.Holds nodes behind) :
    s.list.size = 0 ↔ nodes = [] := by
  rw [h.size, Int.natCast_eq_zero, List.length_eq_zero_iff]

theorem Holds.lifo (h : s.Holds nodes behind) : s.Lifo (carried nodes) := by
  constructor
  · refine ⟨nodes, h.chain, ?_, h.size, h.head⟩
    simp [carried]
  · rw [h.size_eq_zero_iff]
    exact h.head_eq_none_iff
  · rw [h.size_eq_zero_iff, h.chain.start, Option.map_eq_none_iff,
      List.head?_eq_none_iff]

theorem take_represents {x : List Int × Bool} {op : ListOp}
    (h : s.Represents x) (hop : op.Possible s) :
    ∃ s', s.take op = some s' ∧
      s'.Represents (op.effect x.1, op.popped x.2) := by
  obtain ⟨items, flag⟩ := x
  obtain ⟨nodes, behind, hs, rfl, hbehind⟩ := h
  cases op with
  | add item answer =>
      rcases answer with _ | a
      · exact ⟨s, rfl, nodes, behind, hs, rfl, hbehind⟩
      · obtain ⟨s', hadd, hs'⟩ := hs.add (hop a rfl) item
        refine ⟨s', ?_, _, _, hs', ?_, fun _ => rfl⟩
        · rw [take, hadd]
          rfl
        · have hrest := relink_carried a nodes
          simp only [carried] at hrest
          simp [carried, extend, ListOp.effect, hrest]
  | pop =>
      cases nodes with
      | nil =>
          refine ⟨s, ?_, [], behind, hs, rfl, nofun⟩
          rw [take, hs.pop_empty]
          rfl
      | cons x rest =>
          obtain ⟨s', hpop, hs'⟩ := hs.pop
          refine ⟨s', ?_, rest, _, hs', ?_, fun _ => rfl⟩
          · rw [take, hpop]
            rfl
          · simp [carried, ListOp.effect]

theorem represents_init (heap : NodeHeap Addr LNode) :
    Represents ⟨heap, listInit⟩ ([], false) :=
  ⟨[], none, holds_init heap, rfl, nofun⟩

/-- No call of a sequence on a new list accesses a freed node. -/
theorem run_represents (heap : NodeHeap Addr LNode) (ops : List ListOp)
    (h : AdmitsPartial take (fun s op => op.Possible s) ⟨heap, listInit⟩ ops) :
    ∃ s, ops.foldlM take ⟨heap, listInit⟩ = some s ∧
      s.Represents (stacked ops, endsWithPop ops) := by
  have hstep (s : ListState) (x : List Int × Bool) (op : ListOp)
      (hs : s.Represents x) (hop : op.Possible s) := take_represents hs hop
  obtain ⟨s, hrun, hs⟩ := simulation hstep (represents_init heap) ops h
  have hpair (items : List Int) (flag : Bool) :
      ops.foldl (fun x op => (ListOp.effect x.1 op, ListOp.popped x.2 op))
        (items, flag) =
          (ops.foldl ListOp.effect items, ops.foldl ListOp.popped flag) := by
    clear h hrun hs
    induction ops generalizing items flag with
    | nil => rfl
    | cons op ops ih => exact ih _ _
  rw [hpair] at hs
  exact ⟨s, hrun, hs⟩

/-! ## The frame pool -/

/-- A frame that is put back is the next one handed out, and the list is as it
was. -/
theorem Holds.deallocate_allocate (h : s.Holds nodes behind)
    (hfree : s.heap.read a = none) {pfn : Int} (hnull : pfn ≠ nullItem)
    (herror : pfn ≠ -1) :
    ∃ s₁ s₂, s.deallocatePFN pfn (some a) = some (0, s₁) ∧
      s₁.allocatePFN = some (pfn, s₂) ∧ s₂.list = s.list ∧
      s₂.Lifo (carried nodes) := by
  obtain ⟨s₁, hadd, hs₁⟩ := h.add hfree pfn
  obtain ⟨s₂, hpop, hs₂⟩ := hs₁.pop
  have hsize : s₁.list.size = nodes.length + 1 := by
    rw [hs₁.size, ← List.length_map Prod.fst]
    simp [extend]
  refine ⟨s₁, s₂, ?_, ?_, ?_, ?_⟩
  · have hne : s₁.list.size ≠ -1 := by omega
    simp [deallocatePFN, hadd, hne]
  · have hne : s₁.list.size ≠ 0 := by omega
    simp [allocatePFN, hne, hpop, hnull, herror]
  · rw [hs₂.list_eq, h.list_eq, relink_addresses]
  · have hlifo := hs₂.lifo
    rw [relink_carried] at hlifo
    exact hlifo

end ListState

/--
After every sequence of calls on a new list, none of which has accessed a freed
node, the list carries the items that were added and not popped.  The next
`list_pop` returns the one added last.  A frame that is put into the pool is
the next one taken from it, and the pool is as it was.
-/
theorem list_is_stack (heap : NodeHeap Addr LNode) (ops : List ListOp)
    (h : AdmitsPartial ListState.take (fun s op => op.Possible s)
      ⟨heap, listInit⟩ ops) :
    ∃ s, ops.foldlM ListState.take ⟨heap, listInit⟩ = some s ∧
      s.Lifo (stacked ops) ∧
      (∃ s', s.listPop = some ((stacked ops).getLast?.getD nullItem, s')) ∧
      ∀ pfn a, pfn ≠ nullItem → pfn ≠ -1 → s.heap.read a = none →
        ∃ s₁ s₂, s.deallocatePFN pfn (some a) = some (0, s₁) ∧
          s₁.allocatePFN = some (pfn, s₂) ∧ s₂.list = s.list ∧
          s₂.Lifo (stacked ops) := by
  obtain ⟨s, hrun, nodes, behind, hs, hcarried, -⟩ :=
    ListState.run_represents heap ops h
  have hstacked : stacked ops = ListState.carried nodes := hcarried.symm
  obtain ⟨s', _, hpop, -⟩ := hs.pop_carried
  rw [hstacked]
  refine ⟨s, hrun, hs.lifo, ⟨s', hpop⟩, ?_⟩
  intro pfn a hnull herror hfree
  exact hs.deallocate_allocate hfree hnull herror

/-- A list whose tail is popped, and that grows from the node before it. -/
def regrown : List ListOp :=
  [.add 33 (some 0), .add 34 (some 1), .pop, .add 35 (some 1)]

theorem list_regrown :
    AdmitsPartial ListState.take (fun s op => op.Possible s)
      ⟨NodeHeap.empty, listInit⟩ regrown ∧
    ∃ s, regrown.foldlM ListState.take ⟨NodeHeap.empty, listInit⟩ = some s ∧
      s.Lifo (stacked regrown) ∧
      (∃ s', s.listPop = some ((stacked regrown).getLast?.getD nullItem, s')) ∧
      ∀ pfn a, pfn ≠ nullItem → pfn ≠ -1 → s.heap.read a = none →
        ∃ s₁ s₂, s.deallocatePFN pfn (some a) = some (0, s₁) ∧
          s₁.allocatePFN = some (pfn, s₂) ∧ s₂.list = s.list ∧
          s₂.Lifo (stacked regrown) :=
  have hrun : AdmitsPartial ListState.take (fun s op => op.Possible s)
      ⟨NodeHeap.empty, listInit⟩ regrown := by decide +kernel
  ⟨hrun, list_is_stack _ _ hrun⟩

example : stacked regrown = [33, 35] := rfl

end Yalnix
