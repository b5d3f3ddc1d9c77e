import Mathlib.Data.List.Basic

/-!
# Scanning a FIFO queue in place

A loop that pops a queue as many times as it had entries, handing every entry
to a body and putting it back at the end when the body says so, visits the old
entries once each and in order, and leaves the kept ones in their old order.
-/

namespace QueueScan

variable {Entry Store : Type*}

/--
`limit` rounds of the loop.  The body sees the popped entry and the rest of the
store, and returns whether the entry goes back to the end of the queue.
-/
def scan (body : Entry → Store → Bool × Store) :
    Nat → List Entry → Store → List Entry × Store
  | 0, queue, store => (queue, store)
  | _ + 1, [], store => ([], store)
  | limit + 1, entry :: queue, store =>
      let result := body entry store
      scan body limit (if result.1 then queue ++ [entry] else queue) result.2

/-- The store after the body has seen the entries from front to back. -/
def finalStore (body : Entry → Store → Bool × Store) :
    List Entry → Store → Store
  | [], store => store
  | entry :: queue, store => finalStore body queue (body entry store).2

/-- The entries that the body keeps, in their old order. -/
def kept (body : Entry → Store → Bool × Store) :
    List Entry → Store → List Entry
  | [], _ => []
  | entry :: queue, store =>
      let result := body entry store
      if result.1 then entry :: kept body queue result.2
      else kept body queue result.2

theorem scan_append (body : Entry → Store → Bool × Store)
    (front back : List Entry) (store : Store) :
    scan body front.length (front ++ back) store =
      (back ++ kept body front store, finalStore body front store) := by
  induction front generalizing back store with
  | nil => simp [scan, kept, finalStore]
  | cons entry front ih =>
      simp only [List.length_cons, List.cons_append, scan, kept, finalStore]
      cases hkeep : (body entry store).1 with
      | false => simp [ih]
      | true => simp [ih]

/-- A scan of the whole queue keeps the order of what it keeps. -/
theorem scan_all (body : Entry → Store → Bool × Store)
    (queue : List Entry) (store : Store) :
    scan body queue.length queue store =
      (kept body queue store, finalStore body queue store) := by
  simpa using scan_append body queue [] store

/-- When the decision to keep does not depend on the store, the kept entries
are a filter of the queue. -/
theorem kept_eq_filter (body : Entry → Store → Bool × Store)
    (keep : Entry → Bool) (queue : List Entry)
    (hkeep : ∀ entry ∈ queue, ∀ store, (body entry store).1 = keep entry)
    (store : Store) : kept body queue store = queue.filter keep := by
  induction queue generalizing store with
  | nil => rfl
  | cons entry queue ih =>
      have htail := ih (fun e he => hkeep e (List.mem_cons_of_mem _ he))
        (body entry store).2
      simp only [kept, hkeep entry List.mem_cons_self store,
        List.filter_cons, htail]

/-- A scan only drops entries. -/
theorem kept_sublist (body : Entry → Store → Bool × Store)
    (queue : List Entry) (store : Store) :
    (kept body queue store).Sublist queue := by
  induction queue generalizing store with
  | nil => exact List.Sublist.refl _
  | cons entry queue ih =>
      simp only [kept]
      split
      · exact (ih _).cons_cons entry
      · exact (ih _).cons entry

theorem finalStore_append (body : Entry → Store → Bool × Store)
    (front back : List Entry) (store : Store) :
    finalStore body (front ++ back) store =
      finalStore body back (finalStore body front store) := by
  induction front generalizing store with
  | nil => rfl
  | cons entry front ih => exact ih _

theorem kept_append (body : Entry → Store → Bool × Store)
    (front back : List Entry) (store : Store) :
    kept body (front ++ back) store =
      kept body front store ++ kept body back (finalStore body front store) := by
  induction front generalizing store with
  | nil => rfl
  | cons entry front ih =>
      simp only [List.cons_append, kept, finalStore, ih]
      split <;> rfl

/-- A property of the store that every round preserves holds at the end. -/
theorem finalStore_induct {P : Store → Prop}
    (body : Entry → Store → Bool × Store) (queue : List Entry)
    (hbody : ∀ entry ∈ queue, ∀ store, P store → P (body entry store).2)
    (store : Store) (h : P store) : P (finalStore body queue store) := by
  induction queue generalizing store with
  | nil => exact h
  | cons entry queue ih =>
      exact ih (fun e he => hbody e (List.mem_cons_of_mem _ he)) _
        (hbody entry List.mem_cons_self store h)

end QueueScan
