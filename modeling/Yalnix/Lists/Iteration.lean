import Yalnix.Lists.PoolStack

/-!
# Iteration over lists

`list_iter` follows the forward links from the head.  They lead through the
items in order of addition, and behind the tail to NULL or, after a pop, to the
node that was freed.
-/

namespace Yalnix

open NodeHeap TransitionSystem

namespace ListState

variable {s : ListState} {nodes : List (Addr × LNode)} {behind : Option Addr}

/-- The forward links lead from the head to the tail and behind it. -/
theorem forward_segment {h : NodeHeap Addr LNode} {p : Option Addr}
    (hne : nodes ≠ []) (hread : ∀ x ∈ nodes, h.read x.1 = some x.2)
    (hforward : Forward p nodes) :
    h.Segment LNode.next (nodes.getLast?.map Prod.fst) nodes.reverse p := by
  induction nodes generalizing p with
  | nil => exact absurd rfl hne
  | cons x rest ih =>
      obtain ⟨hnext, hrest⟩ := hforward
      rw [List.reverse_cons]
      apply segment_snoc.2
      refine ⟨?_, hread x (by simp), hnext⟩
      cases rest with
      | nil => rfl
      | cons y rest =>
          have hsegment := ih (by simp) (fun z hz => hread z (by simp [hz])) hrest
          simpa [List.getLast?_cons] using hsegment

/-- The loop visits the nodes of a segment and goes on behind them. -/
theorem listIterFrom_segment {Arg : Type} {h : NodeHeap Addr LNode}
    {p q : Option Addr} {nodes : List (Addr × LNode)}
    (hsegment : h.Segment LNode.next p nodes q) (iter : Arg → Int → Arg)
    (limit : Nat) (arg : Arg) :
    listIterFrom h iter (nodes.length + limit) p arg =
      listIterFrom h iter limit q
        ((nodes.map fun x => x.2.data).foldl iter arg) := by
  induction nodes generalizing p arg with
  | nil =>
      have hp : p = q := hsegment
      simp [hp]
  | cons x rest ih =>
      obtain ⟨rfl, hread, hrest⟩ := hsegment
      have hlength : (x :: rest).length + limit = rest.length + limit + 1 := by
        rw [List.length_cons]
        omega
      rw [hlength, listIterFrom, hread]
      exact ih hrest _

/-- Every call goes to one item, in order of addition, and no freed node is
read. -/
def IteratesOver (s : ListState) (items : List Int) : Prop :=
  ∀ (Arg : Type) (iter : Arg → Int → Arg) (arg : Arg),
    s.listIter iter arg = some (items.foldl iter arg)

theorem Holds.listIter_eq {Arg : Type} (h : s.Holds nodes behind)
    (hne : nodes ≠ []) (iter : Arg → Int → Arg) (arg : Arg) :
    ∃ limit, s.listIter iter arg =
      listIterFrom s.heap iter limit behind ((carried nodes).foldl iter arg) := by
  have hsegment := forward_segment (h := s.heap) hne
    (fun x hx => h.chain.read hx) h.forward
  obtain ⟨limit, hlimit⟩ := Nat.exists_eq_add_of_le h.chain.length_le
  refine ⟨limit, ?_⟩
  have hloop := listIterFrom_segment hsegment iter limit arg
  rw [List.length_reverse, ← hlimit, ← h.head, List.map_reverse] at hloop
  exact hloop

/-- The iteration is right exactly when no freed node is behind the tail. -/
theorem Holds.iteratesOver_iff (h : s.Holds nodes behind) :
    s.IteratesOver (carried nodes) ↔ nodes = [] ∨ behind = none := by
  by_cases hne : nodes = []
  · subst hne
    have hhead := h.head_eq_none_iff.2 rfl
    apply iff_of_true
    · intro Arg iter arg
      simp [listIter, hhead, listIterFrom, carried]
    · exact .inl rfl
  · constructor
    · intro hiter
      obtain ⟨limit, hloop⟩ := h.listIter_eq hne (fun n _ => n + 1) 0
      rw [hiter Nat] at hloop
      rcases behind with _ | b
      · exact .inr rfl
      · have hdead := h.freed b rfl
        cases limit with
        | zero => cases hloop
        | succ limit =>
            rw [listIterFrom, hdead] at hloop
            cases hloop
    · intro hbehind
      have hnull := hbehind.resolve_left hne
      subst hnull
      intro Arg iter arg
      obtain ⟨limit, hloop⟩ := h.listIter_eq hne iter arg
      rw [hloop]
      cases limit <;> rfl

end ListState

/--
After a sequence of calls on a new list, `list_iter` visits exactly the items
that were added and not popped, in order of addition, when there are none or
the last call that changed the list was a `list_add`.  Otherwise it reads the
node that was freed last.
-/
theorem list_iter_visits_iff (heap : NodeHeap Addr LNode) (ops : List ListOp)
    (h : AdmitsPartial ListState.take (fun s op => op.Possible s)
      ⟨heap, listInit⟩ ops) :
    ∃ s, ops.foldlM ListState.take ⟨heap, listInit⟩ = some s ∧
      (s.IteratesOver (stacked ops) ↔
        stacked ops = [] ∨ endsWithPop ops = false) := by
  obtain ⟨s, hrun, nodes, behind, hs, hcarried, hbehind⟩ :=
    ListState.run_represents heap ops h
  have hstacked : stacked ops = ListState.carried nodes := hcarried.symm
  refine ⟨s, hrun, ?_⟩
  rw [hstacked, hs.iteratesOver_iff]
  have hempty : ListState.carried nodes = [] ↔ nodes = [] := by
    simp [ListState.carried]
  rw [hempty]
  by_cases hne : nodes = []
  · simp [hne]
  · have hflag : behind.isSome = endsWithPop ops := hbehind hne
    rw [← hflag, Option.isSome_eq_false_iff, Option.isNone_iff_eq_none]

theorem list_iter_visits_regrown :
    ∃ s, regrown.foldlM ListState.take ⟨NodeHeap.empty, listInit⟩ = some s ∧
      (s.IteratesOver (stacked regrown) ↔
        stacked regrown = [] ∨ endsWithPop regrown = false) :=
  have hrun : AdmitsPartial ListState.take (fun s op => op.Possible s)
      ⟨NodeHeap.empty, listInit⟩ regrown := by decide +kernel
  list_iter_visits_iff _ _ hrun

/-- Two items are added and one is popped. -/
def shrunk : List ListOp := [.add 33 (some 0), .add 34 (some 1), .pop]

/-- The node that is left leads `list_iter` to the one that was freed. -/
theorem list_iter_reads_freed :
    ¬ ∀ (heap : NodeHeap Addr LNode) (ops : List ListOp),
      AdmitsPartial ListState.take (fun s op => op.Possible s)
        ⟨heap, listInit⟩ ops →
      ∃ s, ops.foldlM ListState.take ⟨heap, listInit⟩ = some s ∧
        s.IteratesOver (stacked ops) := by
  intro hall
  have hrun : AdmitsPartial ListState.take (fun s op => op.Possible s)
      ⟨NodeHeap.empty, listInit⟩ shrunk := by decide +kernel
  obtain ⟨s, hs, hiter⟩ := hall NodeHeap.empty shrunk hrun
  have hstuck : (shrunk.foldlM ListState.take ⟨NodeHeap.empty, listInit⟩).all
      (fun s => (s.listIter (fun n _ => n + 1) 0).isNone) = true := by
    decide +kernel
  have hcalls := hiter Nat (fun n _ => n + 1) 0
  rw [hs] at hstuck
  simp [hcalls] at hstuck

end Yalnix
