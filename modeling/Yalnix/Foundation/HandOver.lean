import Mathlib.Data.List.Nodup
import Mathlib.Logic.Function.Basic
import Mathlib.Logic.Relation

/-!
# Results handed over once

A client hires workers.  A worker that finishes leaves a result, which is kept
for its client or carried by a client that waited for it, and the client takes
it from there.  When a client leaves, what was kept for it is dropped, and so is
what its workers still produce.  The log says who took what.
-/

namespace HandOver

/-- Where a worker or its result is. -/
inductive Place where
  | absent
  | working
  | kept
  | carried
  | taken
  | dropped
  deriving DecidableEq, Repr

@[ext]
structure Desk (Worker Client Result : Type*) where
  place : Worker → Place
  client : Worker → Client
  result : Worker → Option Result
  left : Client → Bool
  log : List (Client × Worker × Result)

variable {Worker Client Result : Type*} [DecidableEq Worker]

namespace Desk

def hire (d : Desk Worker Client Result) (w : Worker) (c : Client) :
    Desk Worker Client Result :=
  { d with
    place := Function.update d.place w .working
    client := Function.update d.client w c }

def finish (d : Desk Worker Client Result) (w : Worker) (r : Result)
    (dest : Place) : Desk Worker Client Result :=
  { d with
    place := Function.update d.place w dest
    result := Function.update d.result w (some r) }

def take (d : Desk Worker Client Result) (w : Worker) (r : Result) :
    Desk Worker Client Result :=
  { d with
    place := Function.update d.place w .taken
    log := d.log ++ [(d.client w, w, r)] }

def leave [DecidableEq Client] (d : Desk Worker Client Result) (c : Client) :
    Desk Worker Client Result :=
  { d with
    place := fun w => if d.place w = .kept ∧ d.client w = c then .dropped
      else d.place w
    left := Function.update d.left c true }

end Desk

/-- Where the result of a worker can go, given whether its client has left. -/
def Place.Delivery (p : Place) (left : Bool) : Prop :=
  p = .kept ∨ p = .carried ∨ p = .dropped ∧ left = true

variable [DecidableEq Client]

inductive Step : Desk Worker Client Result → Desk Worker Client Result → Prop
  | hire {d : Desk Worker Client Result} (w : Worker) (c : Client) :
      d.place w = .absent → Step d (d.hire w c)
  | finish {d : Desk Worker Client Result} (w : Worker) (r : Result)
      (dest : Place) : d.place w = .working →
      dest.Delivery (d.left (d.client w)) → Step d (d.finish w r dest)
  | take {d : Desk Worker Client Result} (w : Worker) (r : Result) :
      d.place w = .kept ∨ d.place w = .carried → d.result w = some r →
      Step d (d.take w r)
  | leave {d : Desk Worker Client Result} (c : Client) : Step d (d.leave c)

/-- Nobody has finished. -/
structure Opening (d : Desk Worker Client Result) : Prop where
  place : ∀ w, d.place w = .absent ∨ d.place w = .working
  log : d.log = []

/-- The desks that can come about. -/
def Possible (d : Desk Worker Client Result) : Prop :=
  ∃ start, Opening start ∧ Relation.ReflTransGen Step start d

/-- A worker is in the log once if its result was taken, with its client and its
result, and a result is only dropped when there is nobody to take it. -/
structure Sound (d : Desk Worker Client Result) : Prop where
  once : ∀ w, (d.log.map fun e => e.2.1).count w =
    if d.place w = .taken then 1 else 0
  own : ∀ e ∈ d.log, d.client e.2.1 = e.1 ∧ d.result e.2.1 = some e.2.2
  lost : ∀ w, d.place w = .dropped → d.left (d.client w) = true

namespace Sound

variable {d d' : Desk Worker Client Result}

omit [DecidableEq Client]

theorem taken_of_mem (h : Sound d) {e : Client × Worker × Result}
    (he : e ∈ d.log) : d.place e.2.1 = .taken := by
  by_contra hne
  have hcount := h.once e.2.1
  rw [if_neg hne, List.count_eq_zero] at hcount
  exact hcount (List.mem_map_of_mem he)

theorem mem_of_taken (h : Sound d) {w : Worker} (hw : d.place w = .taken) :
    ∃ e ∈ d.log, e.2.1 = w := by
  have hcount := h.once w
  rw [if_pos hw] at hcount
  have hmem : w ∈ d.log.map fun e => e.2.1 :=
    List.count_pos_iff.1 (by omega)
  simpa using hmem

/-- No worker's result is taken twice. -/
theorem log_nodup (h : Sound d) : (d.log.map fun e => e.2.1).Nodup := by
  refine List.nodup_iff_count_le_one.2 fun w => ?_
  rw [h.once w]
  split <;> omega

theorem opening (h : Opening d) : Sound d := by
  refine ⟨fun w => ?_, fun e he => ?_, fun w hw => ?_⟩
  · rcases h.place w with hw | hw <;> simp [hw, h.log]
  · simp [h.log] at he
  · rcases h.place w with hw' | hw' <;> simp [hw'] at hw

theorem hire (h : Sound d) {w : Worker} {c : Client}
    (habsent : d.place w = .absent) : Sound (d.hire w c) := by
  have hnot (e : Client × Worker × Result) (he : e ∈ d.log) : e.2.1 ≠ w := by
    rintro rfl
    simp [h.taken_of_mem he] at habsent
  refine ⟨fun x => ?_, fun e he => ?_, fun x hx => ?_⟩
  · rw [Desk.hire, h.once x]
    by_cases hx : x = w
    · simp [hx, habsent]
    · simp [hx]
  · simpa [Desk.hire, hnot e he] using h.own e he
  · by_cases hxw : x = w
    · simp [Desk.hire, hxw] at hx
    · simpa [Desk.hire, hxw] using h.lost x (by simpa [Desk.hire, hxw] using hx)

theorem finish (h : Sound d) {w : Worker} {r : Result} {dest : Place}
    (hworking : d.place w = .working)
    (hdest : dest.Delivery (d.left (d.client w))) :
    Sound (d.finish w r dest) := by
  have hnot (e : Client × Worker × Result) (he : e ∈ d.log) : e.2.1 ≠ w := by
    rintro rfl
    simp [h.taken_of_mem he] at hworking
  refine ⟨fun x => ?_, fun e he => ?_, fun x hx => ?_⟩
  · rw [Desk.finish, h.once x]
    by_cases hx : x = w
    · rcases hdest with rfl | rfl | ⟨rfl, -⟩ <;> simp [hx, hworking]
    · simp [hx]
  · simpa [Desk.finish, hnot e he] using h.own e he
  · by_cases hxw : x = w
    · subst hxw
      rcases hdest with rfl | rfl | ⟨rfl, hleft⟩
      · simp [Desk.finish] at hx
      · simp [Desk.finish] at hx
      · exact hleft
    · exact h.lost x (by simpa [Desk.finish, hxw] using hx)

theorem take (h : Sound d) {w : Worker} {r : Result}
    (hthere : d.place w = .kept ∨ d.place w = .carried)
    (hresult : d.result w = some r) : Sound (d.take w r) := by
  have huntaken : d.place w ≠ .taken := by
    rcases hthere with hw | hw <;> simp [hw]
  refine ⟨fun x => ?_, fun e he => ?_, fun x hx => ?_⟩
  · have hcount := h.once x
    by_cases hx : x = w
    · subst hx
      simpa [Desk.take, huntaken] using hcount
    · simpa [Desk.take, hx, Ne.symm hx] using hcount
  · rcases List.mem_append.1 he with he | he
    · exact h.own e he
    · rw [List.mem_singleton.1 he]
      exact ⟨rfl, hresult⟩
  · by_cases hxw : x = w
    · simp [Desk.take, hxw] at hx
    · exact h.lost x (by simpa [Desk.take, hxw] using hx)

variable [DecidableEq Client]

theorem leave (h : Sound d) (c : Client) : Sound (d.leave c) := by
  refine ⟨fun x => ?_, h.own, fun x hx => ?_⟩
  · rw [Desk.leave, h.once x]
    by_cases hx : d.place x = .kept ∧ d.client x = c
    · simp [hx.1, hx.2]
    · simp only [if_neg hx]
  · show Function.update d.left c true (d.client x) = true
    by_cases hc : d.client x = c
    · simp [hc]
    · have hx' : d.place x = .dropped := by simpa [Desk.leave, hc] using hx
      simpa [hc] using h.lost x hx'

theorem step (h : Sound d) (hstep : Step d d') : Sound d' := by
  cases hstep with
  | hire w c habsent => exact h.hire habsent
  | finish w r dest hworking hdest => exact h.finish hworking hdest
  | take w r hthere hresult => exact h.take hthere hresult
  | leave c => exact h.leave c

end Sound

namespace Possible

variable {d d' : Desk Worker Client Result}

theorem next (h : Possible d) (hstep : Step d d') : Possible d' := by
  obtain ⟨start, hstart, hrun⟩ := h
  exact ⟨start, hstart, hrun.tail hstep⟩

theorem sound (h : Possible d) : Sound d := by
  obtain ⟨start, hstart, hrun⟩ := h
  induction hrun with
  | refl => exact .opening hstart
  | tail _ hstep ih => exact ih.step hstep

end Possible

/-- The desk `d` can come about, and it does so from `start`. -/
structure Run (start d : Desk Worker Client Result) : Prop where
  possible : Possible d
  steps : Relation.ReflTransGen Step start d

namespace Run

variable {start d d' : Desk Worker Client Result}

theorem refl (h : Possible d) : Run d d := ⟨h, .refl⟩

theorem next (h : Run start d) (hstep : Step d d') : Run start d' :=
  ⟨h.possible.next hstep, h.steps.tail hstep⟩

theorem sound (h : Run start d) : Sound d := h.possible.sound

end Run

end HandOver
