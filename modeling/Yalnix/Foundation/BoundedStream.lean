import Mathlib.Data.List.Induction

/-!
# A bounded stream

A stream of a fixed capacity is the list of the items put in and not yet taken
out.  `put` takes as much of the offered data as fits, `get` delivers as much as
is asked for and there.  A log of transfers is replayed on the abstract stream;
it is rejected at the first transfer that did something else.
-/

namespace BoundedStream

variable {Item : Type*}

inductive Transfer (Item : Type*) where
  /-- Data was offered and the first `taken` items were accepted. -/
  | put (data : List Item) (taken : Nat)
  /-- Up to `len` items were asked for; `data` was delivered, and its length
  was reported as `count`. -/
  | get (len : Nat) (data : List Item) (count : Nat)

variable [DecidableEq Item]

/-- One transfer on the stream, if the stream allows it. -/
def step (capacity : Nat) (stream : List Item) :
    Transfer Item → Option (List Item)
  | .put data taken =>
      if taken = min data.length (capacity - stream.length) then
        some (stream ++ data.take taken)
      else none
  | .get len data count =>
      if data = stream.take len ∧ count = data.length then
        some (stream.drop len)
      else none

/-- The stream after a log, starting empty. -/
def replay (capacity : Nat) (log : List (Transfer Item)) :
    Option (List Item) :=
  log.foldlM (step capacity) []

/-- The items accepted by the `put`s of a log, in order. -/
def accepted (log : List (Transfer Item)) : List Item :=
  log.flatMap fun
    | .put data taken => data.take taken
    | .get _ _ _ => []

/-- The items delivered by the `get`s of a log, in order. -/
def delivered (log : List (Transfer Item)) : List Item :=
  log.flatMap fun
    | .put _ _ => []
    | .get _ data _ => data

variable {capacity : Nat} {log : List (Transfer Item)}

theorem replay_append (front back : List (Transfer Item)) :
    replay capacity (front ++ back) =
      (replay capacity front).bind
        fun stream => back.foldlM (step capacity) stream := by
  simp only [replay, List.foldlM_append]
  rfl

theorem replay_concat {stream : List Item} (h : replay capacity log = some stream)
    (t : Transfer Item) :
    replay capacity (log ++ [t]) = step capacity stream t := by
  rw [replay_append, h]
  simp

/-- A transfer inside an accepted log was allowed by the stream before it. -/
theorem replay_at {front back : List (Transfer Item)} {t : Transfer Item}
    {stream : List Item}
    (h : replay capacity (front ++ t :: back) = some stream) :
    ∃ before after, replay capacity front = some before ∧
      step capacity before t = some after := by
  rw [replay_append] at h
  obtain ⟨before, hbefore, hrest⟩ := Option.bind_eq_some_iff.1 h
  rw [List.foldlM_cons] at hrest
  obtain ⟨after, hafter, -⟩ := Option.bind_eq_some_iff.1 hrest
  exact ⟨before, after, hbefore, hafter⟩

theorem step_length_le {stream stream' : List Item} {t : Transfer Item}
    (h : step capacity stream t = some stream')
    (hle : stream.length ≤ capacity) : stream'.length ≤ capacity := by
  cases t with
  | put data taken =>
      simp only [step] at h
      split at h
      · cases h
        simp only [List.length_append, List.length_take]
        omega
      · cases h
  | get len data count =>
      simp only [step] at h
      split at h
      · cases h
        simp only [List.length_drop]
        omega
      · cases h

/-- The last transfer of an accepted log. -/
theorem replay_concat_inv {t : Transfer Item} {stream : List Item}
    (h : replay capacity (log ++ [t]) = some stream) :
    ∃ before, replay capacity log = some before ∧
      step capacity before t = some stream := by
  obtain ⟨before, after, hbefore, hafter⟩ := replay_at h
  rw [replay_concat hbefore] at h
  exact ⟨before, hbefore, h⟩

theorem replay_length_le {stream : List Item}
    (h : replay capacity log = some stream) : stream.length ≤ capacity := by
  induction log using List.reverseRecOn generalizing stream with
  | nil =>
      cases h
      exact Nat.zero_le _
  | append_singleton log t ih =>
      obtain ⟨before, hbefore, hstep⟩ := replay_concat_inv h
      exact step_length_le hstep (ih hbefore)

/-- What was delivered, followed by what is still there, is what was
accepted. -/
theorem replay_conserves {stream : List Item}
    (h : replay capacity log = some stream) :
    delivered log ++ stream = accepted log := by
  induction log using List.reverseRecOn generalizing stream with
  | nil =>
      cases h
      rfl
  | append_singleton log t ih =>
      obtain ⟨before, hbefore, hstep⟩ := replay_concat_inv h
      have hlog := ih hbefore
      cases t with
      | put data taken =>
          simp only [step] at hstep
          split at hstep
          · cases hstep
            simp only [delivered, accepted, List.flatMap_append,
              List.flatMap_singleton, List.append_nil] at hlog ⊢
            rw [← List.append_assoc, hlog]
          · cases hstep
      | get len data count =>
          simp only [step] at hstep
          split at hstep
          · rename_i hdata
            cases hstep
            simp only [delivered, accepted, List.flatMap_append,
              List.flatMap_singleton, List.append_nil] at hlog ⊢
            rw [hdata.1, List.append_assoc, List.take_append_drop, hlog]
          · cases hstep

end BoundedStream
