import Mathlib.Data.List.Basic

/-!
# Logs of a queue server

Clients queue up with a job each.  The first job is served in pieces until the
pieces make it up; then its client is told the length and leaves the queue.
-/

namespace ServiceLog

variable {Client Item : Type*}

/-- What a server did: the jobs it was given, the pieces it served and the
lengths it reported, each with their client, in order. -/
structure Log (Client Item : Type*) where
  calls : List (Client × List Item)
  pieces : List (Client × List Item)
  returns : List (Client × Int)

structure Job (Client Item : Type*) where
  client : Client
  items : List Item
  /-- The pieces served so far. -/
  pieces : List (List Item)

namespace Job

def entry (j : Job Client Item) : Client × List Item := (j.client, j.items)

def work (j : Job Client Item) : List (Client × List Item) :=
  j.pieces.map (j.client, ·)

def report (j : Job Client Item) : Client × Int :=
  (j.client, (j.items.length : Int))

/-- The job with one more piece. -/
def add (j : Job Client Item) (items : List Item) : Job Client Item :=
  { j with pieces := j.pieces ++ [items] }

@[simp] theorem add_work (j : Job Client Item) (items : List Item) :
    (j.add items).work = j.work ++ [(j.client, items)] := by
  simp [add, work]

@[simp] theorem add_flatten (j : Job Client Item) (items : List Item) :
    (j.add items).pieces.flatten = j.pieces.flatten ++ items := by
  simp [add]

end Job

namespace Log

variable (log : Log Client Item)

def call (client : Client) (items : List Item) : Log Client Item :=
  { log with calls := log.calls ++ [(client, items)] }

def piece (client : Client) (items : List Item) : Log Client Item :=
  { log with pieces := log.pieces ++ [(client, items)] }

def ret (client : Client) (result : Int) : Log Client Item :=
  { log with returns := log.returns ++ [(client, result)] }

/-- The log is that of serving `served` one after another, with `pending` still
queued: the pieces have at most `bound` items, and only the first job of the
queue may have been started. -/
structure Serves (bound : Nat) (served pending : List (Job Client Item)) :
    Prop where
  calls : log.calls = (served ++ pending).map Job.entry
  pieces : log.pieces = (served ++ pending).flatMap Job.work
  returns : log.returns = served.map Job.report
  small : ∀ j ∈ served ++ pending, ∀ piece ∈ j.pieces,
    0 < piece.length ∧ piece.length ≤ bound
  whole : ∀ j ∈ served, j.pieces.flatten = j.items
  untouched : ∀ j ∈ pending.tail, j.pieces = []

end Log

namespace Log.Serves

variable {bound : Nat} {log : Log Client Item}
  {served rest pending : List (Job Client Item)} {j : Job Client Item}

theorem empty : Serves ⟨[], [], []⟩ bound ([] : List (Job Client Item)) [] := by
  constructor
  · rfl
  · rfl
  · rfl
  · exact nofun
  · exact nofun
  · exact nofun

/-- Jobs that were not started leave no pieces. -/
theorem work_untouched {jobs : List (Job Client Item)}
    (h : ∀ j ∈ jobs, j.pieces = []) : jobs.flatMap Job.work = [] := by
  rw [List.flatMap_eq_nil_iff]
  intro j hj
  unfold Job.work
  rw [h j hj]
  rfl

theorem call (h : log.Serves bound served pending) (client : Client)
    (items : List Item) :
    (log.call client items).Serves bound served
      (pending ++ [⟨client, items, []⟩]) := by
  constructor
  · rw [← List.append_assoc, List.map_append, ← h.calls]
    rfl
  · rw [← List.append_assoc, List.flatMap_append, ← h.pieces]
    exact (List.append_nil _).symm
  · exact h.returns
  · intro j hj
    rw [← List.append_assoc] at hj
    rcases List.mem_append.1 hj with hj | hj
    · exact h.small j hj
    · rw [List.mem_singleton.1 hj]
      exact nofun
  · exact h.whole
  · intro j hj
    cases pending with
    | nil => cases hj
    | cons first others =>
        rcases List.mem_append.1 hj with hj | hj
        · exact h.untouched j hj
        · rw [List.mem_singleton.1 hj]

/-- The first job of the queue gets a piece. -/
theorem piece (h : log.Serves bound served (j :: rest)) {items : List Item}
    (hpos : 0 < items.length) (hbound : items.length ≤ bound) :
    (log.piece j.client items).Serves bound served (j.add items :: rest) := by
  have hrest : rest.flatMap Job.work = [] := work_untouched h.untouched
  constructor
  · rw [List.map_append]
    exact h.calls.trans List.map_append
  · have hold := h.pieces
    rw [List.flatMap_append, List.flatMap_cons, hrest, List.append_nil] at hold
    show log.pieces ++ [(j.client, items)] = _
    rw [hold, List.flatMap_append, List.flatMap_cons, hrest, List.append_nil,
      Job.add_work, List.append_assoc]
  · exact h.returns
  · intro j' hj' piece hpiece
    rcases List.mem_append.1 hj' with hj' | hj'
    · exact h.small j' (List.mem_append_left _ hj') piece hpiece
    · rcases List.mem_cons.1 hj' with heq | hj'
      · rw [heq] at hpiece
        rcases List.mem_append.1 hpiece with hpiece | hpiece
        · exact h.small j (List.mem_append_right _ List.mem_cons_self) piece
            hpiece
        · rw [List.mem_singleton.1 hpiece]
          exact ⟨hpos, hbound⟩
      · exact h.small j' (List.mem_append_right _
          (List.mem_cons_of_mem _ hj')) piece hpiece
  · exact h.whole
  · exact h.untouched

/-- The first job of the queue is done. -/
theorem ret (h : log.Serves bound served (j :: rest))
    (hwhole : j.pieces.flatten = j.items) :
    (log.ret j.client (j.items.length : Int)).Serves bound (served ++ [j])
      rest := by
  have hjobs : served ++ [j] ++ rest = served ++ j :: rest := by
    rw [List.append_assoc]
    rfl
  constructor
  · rw [hjobs]
    exact h.calls
  · rw [hjobs]
    exact h.pieces
  · show log.returns ++ [j.report] = _
    rw [h.returns, List.map_append]
    rfl
  · rw [hjobs]
    exact h.small
  · intro j' hj'
    rcases List.mem_append.1 hj' with hj' | hj'
    · exact h.whole j' hj'
    · rw [List.mem_singleton.1 hj']
      exact hwhole
  · exact fun j' hj' => h.untouched j' (List.mem_of_mem_tail hj')

end Log.Serves

end ServiceLog
