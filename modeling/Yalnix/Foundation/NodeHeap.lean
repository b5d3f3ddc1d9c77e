import Mathlib.Data.Finset.Card
import Mathlib.Data.Fintype.Card

/-!
# Heaps of linked nodes

A heap holds the nodes that have been allocated and not freed.  Reading,
writing or freeing at any other address fails.  A segment is the path that one
link field takes through the nodes, and a chain is a segment that ends at the
null pointer.
-/

/-- The allocated nodes, with the finite set of their addresses. -/
structure NodeHeap (Addr Node : Type*) where
  read : Addr → Option Node
  live : Finset Addr
  mem_live : ∀ a, a ∈ live ↔ (read a).isSome = true

namespace NodeHeap

variable {Addr Node : Type*}

def empty : NodeHeap Addr Node where
  read := fun _ => none
  live := ∅
  mem_live := by simp

variable [DecidableEq Addr]

/-- The node at `a` is `n` from now on. -/
def store (h : NodeHeap Addr Node) (a : Addr) (n : Node) :
    NodeHeap Addr Node where
  read := Function.update h.read a (some n)
  live := insert a h.live
  mem_live := by
    intro b
    by_cases hb : b = a
    · simp [hb]
    · simp [hb, h.mem_live]

/-- A write through a pointer to one field or several. -/
def modify (h : NodeHeap Addr Node) (a : Addr) (f : Node → Node) :
    Option (NodeHeap Addr Node) :=
  (h.read a).map fun n => h.store a (f n)

def free (h : NodeHeap Addr Node) (a : Addr) : Option (NodeHeap Addr Node) :=
  if (h.read a).isSome then
    some
      { read := Function.update h.read a none
        live := h.live.erase a
        mem_live := by
          intro b
          by_cases hb : b = a
          · simp [hb]
          · simp [hb, h.mem_live] }
  else none

variable {h h' : NodeHeap Addr Node} {a b : Addr} {n : Node}

@[simp] theorem store_read_same : (h.store a n).read a = some n := by
  simp [store]

@[simp] theorem store_read_other (hb : b ≠ a) :
    (h.store a n).read b = h.read b := by
  simp [store, hb]

theorem modify_eq (hread : h.read a = some n) (f : Node → Node) :
    h.modify a f = some (h.store a (f n)) := by
  simp [modify, hread]

/-- A node that is freed can be read no more, and the others stay. -/
theorem free_eq (hread : h.read a = some n) :
    ∃ h', h.free a = some h' ∧ h'.read a = none ∧
      ∀ b, b ≠ a → h'.read b = h.read b := by
  unfold free
  rw [hread]
  simp +contextual

/-- An address that is not allocated adds one node. -/
theorem store_card (hfree : h.read a = none) :
    (h.store a n).live.card = h.live.card + 1 := by
  apply Finset.card_insert_of_notMem
  simp [h.mem_live, hfree]

theorem store_live (hread : (h.read a).isSome = true) :
    (h.store a n).live = h.live :=
  Finset.insert_eq_self.2 ((h.mem_live a).2 hread)

/-! ## Segments -/

/-- From pointer `p` the link leads through these nodes to pointer `q`. -/
def Segment (h : NodeHeap Addr Node) (link : Node → Option Addr) :
    Option Addr → List (Addr × Node) → Option Addr → Prop
  | p, [], q => p = q
  | p, (a, n) :: rest, q =>
      p = some a ∧ h.read a = some n ∧ Segment h link (link n) rest q

/-- The link leads from `p` through these nodes to the null pointer. -/
abbrev Chain (h : NodeHeap Addr Node) (link : Node → Option Addr)
    (p : Option Addr) (nodes : List (Addr × Node)) : Prop :=
  h.Segment link p nodes none

variable {link : Node → Option Addr} {p q : Option Addr}
  {xs ys nodes : List (Addr × Node)}

omit [DecidableEq Addr] in
theorem segment_append :
    h.Segment link p (xs ++ ys) q ↔
      ∃ r, h.Segment link p xs r ∧ h.Segment link r ys q := by
  induction xs generalizing p with
  | nil => simp [Segment]
  | cons x xs ih => simp [Segment, ih, and_assoc]

omit [DecidableEq Addr] in
/-- A segment with a last node. -/
theorem segment_snoc :
    h.Segment link p (nodes ++ [(a, n)]) q ↔
      h.Segment link p nodes (some a) ∧ h.read a = some n ∧ link n = q := by
  rw [segment_append]
  constructor
  · rintro ⟨r, hfront, rfl, hread, hlink⟩
    exact ⟨hfront, hread, hlink⟩
  · rintro ⟨hfront, hread, hlink⟩
    exact ⟨some a, hfront, rfl, hread, hlink⟩

namespace Segment

omit [DecidableEq Addr]

theorem read (hseg : h.Segment link p nodes q) (hmem : (a, n) ∈ nodes) :
    h.read a = some n := by
  induction nodes generalizing p with
  | nil => simp at hmem
  | cons x nodes ih =>
      obtain ⟨-, hread, hrest⟩ := hseg
      rcases List.mem_cons.1 hmem with rfl | hmem
      · exact hread
      · exact ih hrest hmem

/-- A segment depends on its own nodes only. -/
theorem congr (hseg : h.Segment link p nodes q)
    (hsame : ∀ a ∈ nodes.map Prod.fst, h'.read a = h.read a) :
    h'.Segment link p nodes q := by
  induction nodes generalizing p with
  | nil => exact hseg
  | cons x nodes ih =>
      obtain ⟨hp, hread, hrest⟩ := hseg
      refine ⟨hp, ?_, ?_⟩
      · rw [hsame x.1 (by simp)]
        exact hread
      · apply ih hrest
        intro a ha
        exact hsame a (by simp [ha])

/-- A pointer that leads nowhere has no nodes behind it. -/
theorem nil_of_null (hseg : h.Segment link none nodes q) : nodes = [] := by
  cases nodes with
  | nil => rfl
  | cons x nodes => cases hseg.1

end Segment

theorem Segment.store (hseg : h.Segment link p nodes q)
    (ha : a ∉ nodes.map Prod.fst) : (h.store a n).Segment link p nodes q := by
  apply hseg.congr
  intro b hb
  apply store_read_other
  rintro rfl
  exact ha hb

namespace Chain

omit [DecidableEq Addr]

theorem start (hchain : h.Chain link p nodes) :
    p = nodes.head?.map Prod.fst := by
  cases nodes with
  | nil => exact hchain
  | cons x nodes => exact hchain.1

theorem unique (hx : h.Chain link p xs) (hy : h.Chain link p ys) : xs = ys := by
  induction xs generalizing p ys with
  | nil =>
      cases ys with
      | nil => rfl
      | cons y ys =>
          have hnull : p = none := hx
          rw [hnull] at hy
          cases hy.1
  | cons x xs ih =>
      obtain ⟨hp, hread, hrest⟩ := hx
      cases ys with
      | nil =>
          have hnull : p = none := hy
          rw [hnull] at hp
          cases hp
      | cons y ys =>
          obtain ⟨hp', hread', hrest'⟩ := hy
          rw [hp] at hp'
          have haddr : x.1 = y.1 := Option.some.inj hp'
          rw [haddr, hread'] at hread
          have hnode : y.2 = x.2 := Option.some.inj hread
          rw [hnode] at hrest'
          rw [ih hrest hrest', Prod.ext haddr hnode.symm]

/-- A chain does not come back to a node: it would never end. -/
theorem nodup (hchain : h.Chain link p nodes) : (nodes.map Prod.fst).Nodup := by
  induction nodes generalizing p with
  | nil => simp
  | cons x nodes ih =>
      have hrest := hchain.2.2
      rw [List.map_cons, List.nodup_cons]
      refine ⟨?_, ih hrest⟩
      intro hmem
      obtain ⟨y, hy, haddr⟩ := List.mem_map.1 hmem
      obtain ⟨front, back, rfl⟩ := List.append_of_mem hy
      obtain ⟨r, -, hback⟩ := segment_append.1 hrest
      have hr : r = p := by
        rw [hback.1, hchain.1, haddr]
      rw [hr] at hback
      have hsame := congrArg List.length (unique hback hchain)
      simp at hsame
      omega

/-- A chain is no longer than there are nodes in the heap. -/
theorem length_le [DecidableEq Addr] (hchain : h.Chain link p nodes) :
    nodes.length ≤ h.live.card := by
  rw [← List.length_map Prod.fst, ← List.toFinset_card_of_nodup hchain.nodup]
  apply Finset.card_le_card
  intro a ha
  obtain ⟨x, hx, rfl⟩ := List.mem_map.1 (List.mem_toFinset.1 ha)
  simp [h.mem_live, hchain.read hx]

/-! ## Updates of a chain -/

/-- The links of the nodes before and behind a node do not depend on it. -/
theorem split {front back : List (Addr × Node)}
    (hchain : h.Chain link p (front ++ (a, n) :: back)) :
    h.Segment link p front (some a) ∧ h.read a = some n ∧
      h.Chain link (link n) back ∧ a ∉ front.map Prod.fst ∧
      a ∉ back.map Prod.fst := by
  obtain ⟨r, hfront, rfl, hread, hback⟩ := segment_append.1 hchain
  have hnodup := hchain.nodup
  rw [List.map_append, List.map_cons, List.nodup_middle, List.nodup_cons,
    List.mem_append, not_or] at hnodup
  exact ⟨hfront, hread, hback, hnodup.1⟩

/-- A new node is linked behind the last one. -/
theorem extend {front : List (Addr × Node)} {t : Addr} {last last' : Node}
    (hchain : h.Chain link p (front ++ [(t, last)]))
    (hlast : h'.read t = some last') (hlink : link last' = some a)
    (hnew : h'.read a = some n) (hnull : link n = none)
    (hsame : ∀ b ∈ front.map Prod.fst, h'.read b = h.read b) :
    h'.Chain link p (front ++ [(t, last')] ++ [(a, n)]) := by
  obtain ⟨hfront, -, -⟩ := segment_snoc.1 hchain
  apply segment_snoc.2
  refine ⟨segment_snoc.2 ⟨hfront.congr hsame, hlast, hlink⟩, hnew, hnull⟩

/-- A node changes that keeps its link. -/
theorem replace [DecidableEq Addr] {front back : List (Addr × Node)}
    {n' : Node} (hchain : h.Chain link p (front ++ (a, n) :: back))
    (hlink : link n' = link n) :
    (h.store a n').Chain link p (front ++ (a, n') :: back) := by
  obtain ⟨hfront, -, hback, hbefore, hbehind⟩ := hchain.split
  refine segment_append.2
    ⟨some a, hfront.store hbefore, rfl, store_read_same, ?_⟩
  rw [hlink]
  exact hback.store hbehind

/-- The node behind `b` is unlinked. -/
theorem unlink {front back : List (Addr × Node)} {b : Addr} {m m' : Node}
    (hchain : h.Chain link p (front ++ (b, m) :: (a, n) :: back))
    (hbefore : h'.read b = some m') (hlink : link m' = link n)
    (hsame : ∀ c, c ≠ a → c ≠ b → h'.read c = h.read c) :
    h'.Chain link p (front ++ (b, m') :: back) := by
  obtain ⟨hfront, -, hrest, hb, hb'⟩ := hchain.split
  have hrest' : h.Chain link (link m) ([] ++ (a, n) :: back) := hrest
  obtain ⟨-, -, hback, -, ha⟩ := hrest'.split
  have hchain' : h.Chain link p ((front ++ [(b, m)]) ++ (a, n) :: back) := by
    rw [List.append_assoc]
    exact hchain
  obtain ⟨-, -, -, ha', -⟩ := hchain'.split
  refine segment_append.2 ⟨some b, ?_, rfl, hbefore, ?_⟩
  · apply hfront.congr
    intro c hc
    apply hsame
    · rintro rfl
      apply ha'
      simp [hc]
    · rintro rfl
      exact hb hc
  · rw [hlink]
    apply hback.congr
    intro c hc
    apply hsame
    · rintro rfl
      exact ha hc
    · rintro rfl
      apply hb'
      simp [hc]

end Chain

end NodeHeap
