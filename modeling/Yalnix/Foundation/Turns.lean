import Mathlib.Data.List.Basic
import Yalnix.Foundation.TransitionSystem

/-!
# Taking turns

One job has the turn and the others wait in line.  New jobs join at the end, and
the turn passes to the job at the front.  A waiting job has its turn as soon as
the turn has passed once for itself and for each job before it.
-/

namespace Turns

structure Line (Job : Type*) where
  turn : Job
  waiting : List Job

variable {Job : Type*}

/-- The turn stays, or it passes to the front of the line, if somebody waits.  A
step that must pass it does so. -/
inductive Moves (must : Bool) (l l' : Line Job) : Prop
  | stays (added : List Job) : must = false → l'.turn = l.turn →
      l'.waiting = l.waiting ++ added → Moves must l l'
  | passes (first : Job) (rest added : List Job) :
      l.waiting = first :: rest → l'.turn = first →
      l'.waiting = rest ++ added → Moves must l l'
  | nobody : l.waiting = [] → Moves must l l'

namespace Moves

variable {must : Bool} {l l' : Line Job} {job : Job}

/-- A waiting job has the turn next, or keeps its place but for the jobs that
had the turn. -/
theorem place (h : Moves must l l') {k : Nat} (hk : l.waiting[k]? = some job) :
    (l'.turn = job ∧ k = 0) ∨ (must = false ∧ l'.waiting[k]? = some job) ∨
      ∃ j, k = j + 1 ∧ l'.waiting[j]? = some job := by
  have hlt {queue : List Job} {j : Nat} (hj : queue[j]? = some job)
      (added : List Job) : (queue ++ added)[j]? = some job := by
    rw [List.getElem?_append_left (List.getElem?_eq_some_iff.1 hj).1]
    exact hj
  cases h with
  | stays added hmust _ hwaiting =>
      refine .inr (.inl ⟨hmust, ?_⟩)
      rw [hwaiting]
      exact hlt hk added
  | passes first rest added hcons hturn hwaiting =>
      rw [hcons] at hk
      cases k with
      | zero =>
          simp only [List.getElem?_cons_zero, Option.some.injEq] at hk
          exact .inl ⟨hturn.trans hk, rfl⟩
      | succ j =>
          refine .inr (.inr ⟨j, rfl, ?_⟩)
          rw [hwaiting]
          exact hlt (by simpa using hk) added
  | nobody hnil => simp [hnil] at hk

end Moves

variable {State Label : Type*} {take : State → Label → State}
  {ok : State → Label → Prop} {inv : State → Prop} {must : Label → Bool}
  {line : State → Line Job}

/--
A job at place `k` has its turn in a run with more than `k` steps that must pass
the turn, at the `k + 1`st of them at the latest.  A step that is not one of them
may also be the last one of its run.
-/
theorem served
    (hinv : ∀ s a, inv s → ok s a → inv (take s a))
    (hstep : ∀ s a, inv s → ok s a → Moves (must a) (line s) (line (take s a)) ∨
      must a = false ∧ ∀ b, ¬ ok (take s a) b)
    {s : State} (hs : inv s) (labels : List Label)
    (hadmits : TransitionSystem.Admits take ok s labels) {k : Nat} {job : Job}
    (hk : (line s).waiting[k]? = some job)
    (hpasses : k < labels.countP must) :
    ∃ front back, labels = front ++ back ∧ front.countP must ≤ k + 1 ∧
      (line (front.foldl take s)).turn = job := by
  induction labels generalizing s k with
  | nil => simp at hpasses
  | cons a rest ih =>
      obtain ⟨hok, hrest⟩ := hadmits
      rw [List.countP_cons] at hpasses
      have hlater {j : Nat} (hj : (line (take s a)).waiting[j]? = some job)
          (hcount : j < rest.countP must)
          (hbound : j + (if must a = true then 1 else 0) ≤ k) :
          ∃ front back, a :: rest = front ++ back ∧
            front.countP must ≤ k + 1 ∧
              (line (front.foldl take s)).turn = job := by
        obtain ⟨front, back, rfl, hfront, hturn⟩ :=
          ih (hinv s a hs hok) hrest hj hcount
        refine ⟨a :: front, back, rfl, ?_, hturn⟩
        rw [List.countP_cons]
        omega
      rcases hstep s a hs hok with hmoves | ⟨hnot, hend⟩
      · rcases hmoves.place hk with ⟨hturn, -⟩ | ⟨hnot, hj⟩ | ⟨j, rfl, hj⟩
        · refine ⟨[a], rest, rfl, ?_, hturn⟩
          have hone := List.countP_le_length (p := must) (l := [a])
          simp only [List.length_cons, List.length_nil] at hone
          omega
        · exact hlater hj (by simpa [hnot] using hpasses) (by simp [hnot])
        · refine hlater hj ?_ ?_
          · split at hpasses <;> omega
          · split <;> omega
      · cases rest with
        | nil => simp [hnot] at hpasses
        | cons b rest => exact absurd hrest.1 (hend b)

end Turns
