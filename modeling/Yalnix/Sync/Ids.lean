import Yalnix.Foundation.IdPool
import Yalnix.Sync.Contracts
import Yalnix.Sync.IdView

/-!
# Issued ids

Locks, condition variables and pipes share one number line: locks up to
`MAX_LOCKS`, condition variables behind them, then the head of the pipe list and
the pipes.  `Reclaim` decides by the number alone where an id goes.
-/

namespace Yalnix

open IdPool

/-- The ids that the calls have returned and that were not reclaimed since. -/
structure IssuedIds where
  locks : List Int
  cvars : List Int
  pipes : List Int

namespace IssuedIds

def none : IssuedIds := ⟨[], [], []⟩

def all (i : IssuedIds) : List Int := i.locks ++ i.cvars ++ i.pipes

/-- `LockInit` and `CvarInit` return the id on top of their list, `PipeInit` the
one behind the last pipe. -/
def after (i : IssuedIds) (v : IdView) : Label → IssuedIds
  | .trap _ (.kernel (.lockInit true)) =>
      { i with locks := v.locks.take 1 ++ i.locks }
  | .trap _ (.kernel (.cvarInit true)) =>
      { i with cvars := v.cvars.take 1 ++ i.cvars }
  | .trap _ (.kernel (.pipeInit true)) =>
      { i with pipes := i.pipes ++ [v.nextPipeId] }
  | .trap _ (.kernel (.reclaim id)) =>
      ⟨i.locks.erase id, i.cvars.erase id, i.pipes.erase id⟩
  | _ => i

variable {i : IssuedIds} {id : Int}

theorem mem_all :
    id ∈ i.all ↔ id ∈ i.locks ∨ id ∈ i.cvars ∨ id ∈ i.pipes := by
  rw [all, List.mem_append, List.mem_append, or_assoc]

end IssuedIds

/-! ## Ranges -/

/-- Each kind has its part of the number line, and the pipes behind the head are
the issued ones. -/
structure Numbered (v : IdView) (i : IssuedIds) : Prop where
  lock : ∀ id ∈ v.locks ++ i.locks, id ≤ maxLocks
  cvar : ∀ id ∈ v.cvars ++ i.cvars, maxLocks < id ∧ id ≤ maxLocks + maxCvars
  pipes : v.pipeIds = headPipeId :: i.pipes
  rises : Rises v.pipeIds
  made : ∀ p ∈ v.chain, p < v.npipes

namespace Numbered

variable {v : IdView} {i : IssuedIds} {id : Int}

theorem issued_lock (h : Numbered v i) (hid : id ∈ i.locks) : id ≤ maxLocks :=
  h.lock id (List.mem_append_right _ hid)

theorem issued_cvar (h : Numbered v i) (hid : id ∈ i.cvars) :
    maxLocks < id ∧ id ≤ maxLocks + maxCvars :=
  h.cvar id (List.mem_append_right _ hid)

theorem issued_pipe (h : Numbered v i) (hid : id ∈ i.pipes) :
    headPipeId < id := by
  have hrises := h.rises
  rw [h.pipes] at hrises
  exact (List.pairwise_cons.1 hrises).1 id hid

/-- The head stays in front of the chain. -/
theorem chain_head (h : Numbered v i) :
    ∃ head rest, v.chain = head :: rest ∧ v.pipeId head = headPipeId ∧
      rest.map v.pipeId = i.pipes := by
  have hpipes := h.pipes
  unfold IdView.pipeIds at hpipes
  cases hchain : v.chain with
  | nil =>
      rw [hchain] at hpipes
      cases hpipes
  | cons head rest =>
      rw [hchain, List.map_cons] at hpipes
      injection hpipes with hhead hrest
      exact ⟨head, rest, rfl, hhead, hrest⟩

/-- The next pipe is numbered behind the last one. -/
theorem nextPipeId_eq (h : Numbered v i) :
    ∃ last, v.pipeIds.getLast? = some last ∧ v.nextPipeId = last + 1 := by
  obtain ⟨head, rest, hchain, -⟩ := h.chain_head
  have hsome : v.chain.getLast? ≠ none := by
    rw [hchain]
    exact fun hnone => nomatch List.getLast?_eq_none_iff.1 hnone
  obtain ⟨tail, htail⟩ := Option.ne_none_iff_exists'.1 hsome
  refine ⟨v.pipeId tail, ?_, ?_⟩
  · rw [IdView.pipeIds, List.getLast?_map, htail]
    rfl
  · rw [IdView.nextPipeId, htail]

theorem pipeInit_pipeIds (h : Numbered v i) :
    v.pipeInit.pipeIds = v.pipeIds ++ [v.nextPipeId] := by
  show (v.chain ++ [v.npipes]).map (upd v.pipeId v.npipes v.nextPipeId) = _
  rw [List.map_append, List.map_singleton, upd_same]
  congr 1
  apply List.map_congr_left
  intro p hp
  exact upd_other (Nat.ne_of_lt (h.made p hp)) _ _

/-! ## Removing a pipe -/

/-- The pipe that is removed is the one with the id. -/
theorem removePipe_issued (h : Numbered v i) (hid : id ∈ i.pipes) :
    ∃ p, v.removePipe id = { v with chain := v.chain.erase p } ∧
      (v.removePipe id).pipeIds = headPipeId :: i.pipes.erase id := by
  obtain ⟨head, rest, hchain, hhead, hrest⟩ := h.chain_head
  have hnot : v.pipeId head ≠ id := by
    have hlt := h.issued_pipe hid
    omega
  obtain ⟨p, hp⟩ : ∃ p, rest.find? (fun p => decide (v.pipeId p = id)) =
      some p := by
    rw [← hrest] at hid
    obtain ⟨p, hp, hpid⟩ := List.mem_map.1 hid
    rw [← Option.isSome_iff_exists, List.find?_isSome]
    exact ⟨p, hp, decide_eq_true hpid⟩
  have hfind : v.chain.find? (fun p => decide (v.pipeId p = id)) = some p := by
    rw [hchain, List.find?_cons_of_neg (by simpa using hnot)]
    exact hp
  obtain ⟨hpid, front, back, hsplit, hfront⟩ := List.find?_eq_some_iff_append.1 hp
  have hpid : v.pipeId p = id := of_decide_eq_true hpid
  have hne : head ≠ p := fun heq => hnot (heq ▸ hpid)
  have hremove : v.removePipe id = { v with chain := v.chain.erase p } := by
    unfold IdView.removePipe
    rw [hfind]
    simp only
    rw [if_neg]
    rw [hchain]
    exact fun heq => hne (Option.some.inj heq)
  refine ⟨p, hremove, ?_⟩
  have hmiss : p ∉ front := fun hmem => by
    have hother := hfront p hmem
    rw [hpid] at hother
    simp at hother
  have hidmiss : id ∉ front.map v.pipeId := by
    rw [List.mem_map]
    rintro ⟨q, hq, hqid⟩
    have hother := hfront q hq
    rw [hqid] at hother
    simp at hother
  rw [hremove]
  show (v.chain.erase p).map v.pipeId = _
  rw [hchain, List.erase_cons_tail (by simpa using hne), List.map_cons, hhead,
    ← hrest, hsplit, List.erase_append_right _ hmiss, List.erase_cons_head,
    List.map_append, List.map_append, List.map_cons, hpid,
    List.erase_append_right _ hidmiss, List.erase_cons_head]

/-- No pipe has the id, or the head has it. -/
theorem removePipe_unissued (h : Numbered v i) (hid : id ∉ i.pipes) :
    v.removePipe id = v := by
  obtain ⟨head, rest, hchain, hhead, hrest⟩ := h.chain_head
  have hmiss : rest.find? (fun p => decide (v.pipeId p = id)) = none := by
    rw [List.find?_eq_none]
    intro p hp heq
    exact hid (hrest ▸ List.mem_map.2 ⟨p, hp, of_decide_eq_true heq⟩)
  unfold IdView.removePipe
  rw [hchain]
  by_cases hhead' : v.pipeId head = id
  · rw [List.find?_cons_of_pos (by simpa using hhead')]
    exact if_pos rfl
  · rw [List.find?_cons_of_neg (by simpa using hhead'), hmiss]

/-! ## Every step -/

theorem lockInit (h : Numbered v i) :
    Numbered v.lockInit { i with locks := v.locks.take 1 ++ i.locks } where
  lock := by
    intro id hid
    apply h.lock
    show id ∈ v.locks ++ i.locks
    rw [← List.take_append_drop 1 v.locks, List.drop_one]
    simp only [IdView.lockInit, List.mem_append] at hid ⊢
    tauto
  cvar := h.cvar
  pipes := h.pipes
  rises := h.rises
  made := h.made

theorem cvarInit (h : Numbered v i) :
    Numbered v.cvarInit { i with cvars := v.cvars.take 1 ++ i.cvars } where
  lock := h.lock
  cvar := by
    intro id hid
    apply h.cvar
    show id ∈ v.cvars ++ i.cvars
    rw [← List.take_append_drop 1 v.cvars, List.drop_one]
    simp only [IdView.cvarInit, List.mem_append] at hid ⊢
    tauto
  pipes := h.pipes
  rises := h.rises
  made := h.made

theorem pipeInit (h : Numbered v i) :
    Numbered v.pipeInit { i with pipes := i.pipes ++ [v.nextPipeId] } where
  lock := h.lock
  cvar := h.cvar
  pipes := by
    rw [h.pipeInit_pipeIds, h.pipes]
    rfl
  rises := by
    obtain ⟨last, hlast, hnext⟩ := h.nextPipeId_eq
    rw [h.pipeInit_pipeIds, hnext]
    exact h.rises.add hlast
  made := by
    intro p hp
    rcases List.mem_append.1 hp with hp | hp
    · exact Nat.lt_succ_of_lt (h.made p hp)
    · rw [List.mem_singleton.1 hp]
      exact Nat.lt_succ_self _

theorem reclaim (h : Numbered v i) (id : Int) :
    Numbered (v.reclaim id)
      ⟨i.locks.erase id, i.cvars.erase id, i.pipes.erase id⟩ := by
  have hlocks (x : Int) (hx : x ∈ v.locks ++ i.locks.erase id) :
      x ≤ maxLocks := by
    apply h.lock
    rcases List.mem_append.1 hx with hx | hx
    · exact List.mem_append_left _ hx
    · exact List.mem_append_right _ (List.mem_of_mem_erase hx)
  have hcvars (x : Int) (hx : x ∈ v.cvars ++ i.cvars.erase id) :
      maxLocks < x ∧ x ≤ maxLocks + maxCvars := by
    apply h.cvar
    rcases List.mem_append.1 hx with hx | hx
    · exact List.mem_append_left _ hx
    · exact List.mem_append_right _ (List.mem_of_mem_erase hx)
  have hpipes (hid : id ≤ headPipeId) : i.pipes.erase id = i.pipes := by
    apply List.erase_of_not_mem
    intro hmem
    have hlt := h.issued_pipe hmem
    omega
  unfold IdView.reclaim
  split
  · rename_i hle
    constructor
    · intro x hx
      rcases List.mem_cons.1 hx with rfl | hx
      · exact hle
      · exact hlocks x hx
    · exact hcvars
    · rw [hpipes (by simp only [maxLocks, maxCvars, headPipeId] at hle ⊢; omega)]
      exact h.pipes
    · exact h.rises
    · exact h.made
  · split
    · rename_i hgt hle
      constructor
      · exact hlocks
      · intro x hx
        rcases List.mem_cons.1 hx with rfl | hx
        · omega
        · exact hcvars x hx
      · rw [hpipes (by simp only [headPipeId]; omega)]
        exact h.pipes
      · exact h.rises
      · exact h.made
    · by_cases hid : id ∈ i.pipes
      · obtain ⟨p, hremove, hids⟩ := h.removePipe_issued hid
        have hrises : Rises (v.removePipe id).pipeIds := by
          rw [hremove]
          exact h.rises.sublist (List.erase_sublist.map _)
        rw [hremove] at hids hrises ⊢
        exact {
          lock := hlocks
          cvar := hcvars
          pipes := hids
          rises := hrises
          made := fun q hq => h.made q (List.mem_of_mem_erase hq) }
      · rw [h.removePipe_unissued hid, List.erase_of_not_mem hid]
        exact { h with lock := hlocks, cvar := hcvars }

theorem after (h : Numbered v i) (a : Label) :
    Numbered (v.after a) (i.after v a) := by
  cases a with
  | resume => exact h
  | trap ctx t =>
      cases t with
      | kernel c =>
          cases c with
          | lockInit nonNull =>
              cases nonNull with
              | true => exact h.lockInit
              | false => exact h
          | cvarInit nonNull =>
              cases nonNull with
              | true => exact h.cvarInit
              | false => exact h
          | pipeInit nonNull =>
              cases nonNull with
              | true => exact h.pipeInit
              | false => exact h
          | reclaim id => exact h.reclaim id
          | _ => exact h
      | _ => exact h

end Numbered

/-! ## Runs -/

/-- The id that a step reclaims. -/
def Label.reclaims : Label → Option Int
  | .trap _ (.kernel (.reclaim id)) => some id
  | _ => none

/-- The runs of the kernel with the ids that are issued. -/
abbrev Tracked (guard : IssuedIds → Label → Prop) :
    Kernel × IssuedIds → Prop :=
  TransitionSystem.Reach (fun c => Booted c.1 ∧ c.2 = .none)
    (fun c a c' => a.Enabled c.1 ∧ c' = (c.1.take a, c.2.after c.1.ids a))
    (fun c a => guard c.2 a)

/-- Only issued ids are reclaimed. -/
def ReclaimsIssued (i : IssuedIds) (a : Label) : Prop :=
  ∀ id ∈ a.reclaims, id ∈ i.all

/-- Only issued ids, and ids behind the head of the pipes, are reclaimed. -/
def ReclaimsSafely (i : IssuedIds) (a : Label) : Prop :=
  ∀ id ∈ a.reclaims, id ∈ i.all ∨ headPipeId < id

instance (i : IssuedIds) (a : Label) : Decidable (ReclaimsIssued i a) :=
  inferInstanceAs (Decidable (∀ id ∈ a.reclaims, id ∈ i.all))

instance (i : IssuedIds) (a : Label) : Decidable (ReclaimsSafely i a) :=
  inferInstanceAs
    (Decidable (∀ id ∈ a.reclaims, id ∈ i.all ∨ headPipeId < id))

/-- A step of the kernel with the ids that are issued. -/
def trackedTake (c : Kernel × IssuedIds) (a : Label) : Kernel × IssuedIds :=
  (c.1.take a, c.2.after c.1.ids a)

/-- The small machine after the steps, with the ids issued meanwhile. -/
def trackedSmall (labels : List Label) : Kernel × IssuedIds :=
  labels.foldl trackedTake ((Boot.small 20).kernelStart, .none)

theorem tracked_small {guard : IssuedIds → Label → Prop} (labels : List Label)
    (hmode : (Boot.small 20).kernelStart.mode = .user)
    (hadmits : TransitionSystem.Admits trackedTake
      (fun c a => a.Enabled c.1 ∧ guard c.2 a)
      ((Boot.small 20).kernelStart, .none) labels) :
    Tracked guard (trackedSmall labels) := by
  refine TransitionSystem.Reach.run (fun c a hok => ⟨hok.2, hok.1, rfl⟩)
    (.start ⟨?_, rfl⟩) labels hadmits
  exact ⟨Boot.small 20, Boot.small_wellFormed 20, rfl, hmode⟩

/-- Every run can be tracked. -/
theorem Reachable.idsTracked {guard : Kernel → Label → Prop} {s : Kernel}
    (h : Reachable guard s) : ∃ i, Tracked (fun _ _ => True) (s, i) := by
  induction h with
  | start hbooted => exact ⟨.none, .start ⟨hbooted, rfl⟩⟩
  | next _ _ hstep ih =>
      obtain ⟨i, hi⟩ := ih
      cases hstep with
      | take henabled => exact ⟨_, .next hi trivial ⟨henabled, rfl⟩⟩

/-- The ids in `lock_list` at boot. -/
def lockIds : List Int :=
  ((List.range 100).map fun i : Nat => (i : Int)).reverse

/-- The ids in `cvar_list` at boot. -/
@[irreducible] def cvarIds : List Int :=
  ((List.range 5000).map fun i : Nat => maxLocks + i + 1).reverse

theorem lockIds_nodup : lockIds.Nodup := by
  apply List.nodup_reverse.2
  apply List.Nodup.map _ List.nodup_range
  intro x y hxy
  exact Int.ofNat.inj hxy

theorem cvarIds_nodup : cvarIds.Nodup := by
  unfold cvarIds
  apply List.nodup_reverse.2
  apply List.Nodup.map _ List.nodup_range
  intro x y hxy
  simp only at hxy
  omega

theorem lockIds_range {id : Int} (hid : id ∈ lockIds) : id ≤ maxLocks := by
  obtain ⟨n, hn, rfl⟩ := List.mem_map.1 (List.mem_reverse.1 hid)
  have hlt := List.mem_range.1 hn
  simp only [maxLocks]
  omega

theorem cvarIds_range {id : Int} (hid : id ∈ cvarIds) :
    maxLocks < id ∧ id ≤ maxLocks + maxCvars := by
  unfold cvarIds at hid
  obtain ⟨n, hn, rfl⟩ := List.mem_map.1 (List.mem_reverse.1 hid)
  have hlt := List.mem_range.1 hn
  simp only [maxLocks, maxCvars]
  omega

/-- The initial lists are maps over numbers that are cast first. -/
theorem map_cast (ns : List Nat) (f : Int → Int) :
    ((do let n ← ns; pure (n : Int)).map f) = ns.map fun n : Nat => f n := by
  induction ns with
  | nil => rfl
  | cons n ns ih => exact congrArg (f n :: ·) ih

theorem Booted.ids {s : Kernel} (h : Booted s) :
    s.ids = ⟨lockIds, cvarIds, [0], 1, fun _ => headPipeId⟩ := by
  obtain ⟨b, -, rfl, hmode⟩ := h
  have hlocks : b.setUpGlobals.lockList = lockIds := by
    unfold lockIds
    simp only [Boot.setUpGlobals]
    rw [map_cast]
  have hcvars : b.setUpGlobals.cvarList = cvarIds := by
    unfold cvarIds
    simp only [Boot.setUpGlobals]
    rw [map_cast]
  rw [Boot.kernelStart_ids hmode, Kernel.ids, hlocks, hcvars]
  rfl

theorem Numbered.booted {s : Kernel} (h : Booted s) :
    Numbered s.ids .none := by
  rw [h.ids]
  constructor
  · intro id hid
    rcases List.mem_append.1 hid with hid | hid
    · exact lockIds_range hid
    · cases hid
  · intro id hid
    rcases List.mem_append.1 hid with hid | hid
    · exact cvarIds_range hid
    · cases hid
  · rfl
  · exact List.pairwise_singleton _ _
  · intro p hp
    rw [List.mem_singleton.1 hp]
    exact Nat.one_pos

theorem Tracked.numbered {guard : IssuedIds → Label → Prop}
    {c : Kernel × IssuedIds} (h : Tracked guard c) :
    Numbered c.1.ids c.2 := by
  refine h.invariant (P := fun c => Numbered c.1.ids c.2) ?_ ?_
  · intro c hinit
    rw [hinit.2]
    exact .booted hinit.1
  · intro c a c' _ ih _ hstep
    rw [hstep.2, Kernel.take_ids]
    exact ih.after a

/-! ## Partitions -/

/-- The id lists and the issued ids are parts of the initial lists. -/
structure Partitioned (v : IdView) (i : IssuedIds) : Prop where
  locks : Splits lockIds v.locks i.locks
  cvars : Splits cvarIds v.cvars i.cvars

namespace Partitioned

variable {v : IdView} {i : IssuedIds} {id : Int}

theorem lockInit (h : Partitioned v i) :
    Partitioned v.lockInit { i with locks := v.locks.take 1 ++ i.locks } := by
  refine ⟨?_, h.cvars⟩
  have hlocks := h.locks
  show Splits lockIds v.locks.tail (v.locks.take 1 ++ i.locks)
  cases hlist : v.locks with
  | nil =>
      rw [hlist] at hlocks
      exact hlocks
  | cons id rest =>
      rw [hlist] at hlocks
      exact hlocks.issue

theorem cvarInit (h : Partitioned v i) :
    Partitioned v.cvarInit { i with cvars := v.cvars.take 1 ++ i.cvars } := by
  refine ⟨h.locks, ?_⟩
  have hcvars := h.cvars
  show Splits cvarIds v.cvars.tail (v.cvars.take 1 ++ i.cvars)
  cases hlist : v.cvars with
  | nil =>
      rw [hlist] at hcvars
      exact hcvars
  | cons id rest =>
      rw [hlist] at hcvars
      exact hcvars.issue

theorem pipeInit (h : Partitioned v i) :
    Partitioned v.pipeInit { i with pipes := i.pipes ++ [v.nextPipeId] } :=
  ⟨h.locks, h.cvars⟩

end Partitioned

namespace Numbered

variable {v : IdView} {i : IssuedIds} {id : Int}

/-- What `Reclaim` does with an issued lock id. -/
theorem reclaim_lock (h : Numbered v i) (hid : id ∈ i.locks) :
    v.reclaim id = { v with locks := id :: v.locks } ∧ id ∉ i.cvars ∧
      id ∉ i.pipes := by
  have hle := h.issued_lock hid
  refine ⟨if_pos hle, ?_, ?_⟩
  · intro hcvar
    have hgt := (h.issued_cvar hcvar).1
    omega
  · intro hpipe
    have hgt := h.issued_pipe hpipe
    simp only [headPipeId, maxCvars] at hgt
    omega

theorem reclaim_cvar (h : Numbered v i) (hid : id ∈ i.cvars) :
    v.reclaim id = { v with cvars := id :: v.cvars } ∧ id ∉ i.locks ∧
      id ∉ i.pipes := by
  obtain ⟨hgt, hle⟩ := h.issued_cvar hid
  refine ⟨?_, ?_, ?_⟩
  · unfold IdView.reclaim
    rw [if_neg (Int.not_le.2 hgt), if_pos (by omega)]
  · intro hlock
    have hle := h.issued_lock hlock
    omega
  · intro hpipe
    have hgt := h.issued_pipe hpipe
    simp only [headPipeId] at hgt
    omega

/-- An id behind the head of the pipes. -/
theorem reclaim_pipe (hid : headPipeId < id) :
    v.reclaim id = v.removePipe id := by
  simp only [headPipeId, maxLocks, maxCvars] at hid
  unfold IdView.reclaim
  rw [if_neg (by simp only [maxLocks]; omega),
    if_neg (by simp only [maxLocks, maxCvars]; omega)]

theorem pipe_not_other (h : Numbered v i) (hid : headPipeId < id) :
    id ∉ i.locks ∧ id ∉ i.cvars := by
  simp only [headPipeId, maxLocks, maxCvars] at hid
  constructor
  · intro hlock
    have hle := h.issued_lock hlock
    simp only [maxLocks] at hle
    omega
  · intro hcvar
    have hle := (h.issued_cvar hcvar).2
    simp only [maxLocks, maxCvars] at hle
    omega

/-- A pipe is removed or nothing happens: the id lists stay. -/
theorem removePipe_lists (h : Numbered v i) :
    (v.removePipe id).locks = v.locks ∧ (v.removePipe id).cvars = v.cvars := by
  by_cases hid : id ∈ i.pipes
  · obtain ⟨p, hremove, -⟩ := h.removePipe_issued hid
    rw [hremove]
    exact ⟨rfl, rfl⟩
  · rw [h.removePipe_unissued hid]
    exact ⟨rfl, rfl⟩

end Numbered

namespace Partitioned

variable {v : IdView} {i : IssuedIds} {id : Int}

theorem reclaim (h : Partitioned v i) (hnumbered : Numbered v i)
    (hid : id ∈ i.all ∨ headPipeId < id) :
    Partitioned (v.reclaim id)
      ⟨i.locks.erase id, i.cvars.erase id, i.pipes.erase id⟩ := by
  have hbehind (hpipe : headPipeId < id) : Partitioned (v.reclaim id)
      ⟨i.locks.erase id, i.cvars.erase id, i.pipes.erase id⟩ := by
    obtain ⟨hlock, hcvar⟩ := hnumbered.pipe_not_other hpipe
    obtain ⟨hlocks, hcvars⟩ : (v.removePipe id).locks = v.locks ∧
        (v.removePipe id).cvars = v.cvars := hnumbered.removePipe_lists
    rw [Numbered.reclaim_pipe hpipe, List.erase_of_not_mem hlock,
      List.erase_of_not_mem hcvar]
    constructor
    · rw [hlocks]
      exact h.locks
    · rw [hcvars]
      exact h.cvars
  rcases hid with hid | hpipe
  · rcases IssuedIds.mem_all.1 hid with hlock | hcvar | hpipe
    · obtain ⟨hreclaim, hcvar, -⟩ := hnumbered.reclaim_lock hlock
      rw [hreclaim, List.erase_of_not_mem hcvar]
      exact ⟨h.locks.giveBack hlock, h.cvars⟩
    · obtain ⟨hreclaim, hlock, -⟩ := hnumbered.reclaim_cvar hcvar
      rw [hreclaim, List.erase_of_not_mem hlock]
      exact ⟨h.locks, h.cvars.giveBack hcvar⟩
    · exact hbehind (hnumbered.issued_pipe hpipe)
  · exact hbehind hpipe

theorem after (h : Partitioned v i) (hnumbered : Numbered v i) {a : Label}
    (ha : ReclaimsSafely i a) : Partitioned (v.after a) (i.after v a) := by
  cases a with
  | resume => exact h
  | trap ctx t =>
      cases t with
      | kernel c =>
          cases c with
          | lockInit nonNull =>
              cases nonNull with
              | true => exact h.lockInit
              | false => exact h
          | cvarInit nonNull =>
              cases nonNull with
              | true => exact h.cvarInit
              | false => exact h
          | pipeInit nonNull =>
              cases nonNull with
              | true => exact h.pipeInit
              | false => exact h
          | reclaim id => exact h.reclaim hnumbered (ha id rfl)
          | _ => exact h
      | _ => exact h

end Partitioned

theorem Tracked.partitioned {guard : IssuedIds → Label → Prop}
    (himp : ∀ i a, guard i a → ReclaimsSafely i a) {c : Kernel × IssuedIds}
    (h : Tracked guard c) : Partitioned c.1.ids c.2 := by
  refine h.invariant (P := fun c => Partitioned c.1.ids c.2) ?_ ?_
  · intro c hinit
    rw [hinit.2, hinit.1.ids]
    exact ⟨.full lockIds, .full cvarIds⟩
  · intro c a c' hreach ih hguard hstep
    rw [hstep.2, Kernel.take_ids]
    exact ih.after (Tracked.numbered hreach) (himp _ _ hguard)

/-! ## Unique ids -/

theorem Numbered.all_nodup {v : IdView} {i : IssuedIds} (h : Numbered v i)
    (hparts : Partitioned v i) : i.all.Nodup := by
  have hlocks := hparts.locks.issued_nodup lockIds_nodup
  have hcvars := hparts.cvars.issued_nodup cvarIds_nodup
  have hpipes : i.pipes.Nodup := by
    have hnodup := h.rises.nodup
    rw [h.pipes] at hnodup
    exact (List.nodup_cons.1 hnodup).2
  have hlower : (i.locks ++ i.cvars).Nodup := by
    apply List.Nodup.append hlocks hcvars
    intro id hlock hcvar
    exact (h.reclaim_lock hlock).2.1 hcvar
  apply List.Nodup.append hlower hpipes
  intro id hid hpipe
  rcases List.mem_append.1 hid with hlock | hcvar
  · exact (h.reclaim_lock hlock).2.2 hpipe
  · exact (h.reclaim_cvar hcvar).2.2 hpipe

/-- Only the pool of the kind that issued the id may change. -/
structure OnlyOwnPool (i : IssuedIds) (id : Int) (v v' : IdView) : Prop where
  locks : id ∉ i.locks → v'.locks = v.locks
  cvars : id ∉ i.cvars → v'.cvars = v.cvars
  pipes : id ∉ i.pipes → v'.pipeIds = v.pipeIds

theorem Numbered.reclaim_own {v : IdView} {i : IssuedIds} {id : Int}
    (h : Numbered v i) (hid : id ∈ i.all) :
    OnlyOwnPool i id v (v.reclaim id) := by
  rcases IssuedIds.mem_all.1 hid with hlock | hcvar | hpipe
  · rw [(h.reclaim_lock hlock).1]
    exact ⟨fun hnot => absurd hlock hnot, fun _ => rfl, fun _ => rfl⟩
  · rw [(h.reclaim_cvar hcvar).1]
    exact ⟨fun _ => rfl, fun hnot => absurd hcvar hnot, fun _ => rfl⟩
  · rw [Numbered.reclaim_pipe (h.issued_pipe hpipe)]
    obtain ⟨hlocks, hcvars⟩ : (v.removePipe id).locks = v.locks ∧
        (v.removePipe id).cvars = v.cvars := h.removePipe_lists
    exact ⟨fun _ => hlocks, fun _ => hcvars, fun hnot => absurd hpipe hnot⟩

/-- The call and then `Reclaim` of the id leave the pool as it was. -/
def Kernel.Restores {Pool : Type} (s : Kernel) (init : Syscall) (id : Int)
    (pool : IdView → Pool) : Prop :=
  ∀ ctx ctx', pool ((s.take (.trap ctx (.kernel init))).take
    (.trap ctx' (.kernel (.reclaim id)))).ids = pool s.ids

namespace Numbered

variable {s : Kernel} {i : IssuedIds} {id : Int}

theorem lock_restored (h : Numbered s.ids i)
    (hid : s.lockList.head? = some id) :
    s.Restores (.lockInit true) id IdView.locks := by
  intro ctx ctx'
  obtain ⟨rest, hlist⟩ := List.head?_eq_some_iff.1 hid
  have hle : id ≤ maxLocks := by
    apply h.lock
    apply List.mem_append_left
    show id ∈ s.lockList
    rw [hlist]
    exact List.mem_cons_self
  rw [Kernel.take_ids, Kernel.take_ids]
  show (s.ids.lockInit.reclaim id).locks = s.lockList
  rw [IdView.reclaim, if_pos hle]
  show id :: s.lockList.tail = s.lockList
  rw [hlist]
  rfl

theorem cvar_restored (h : Numbered s.ids i)
    (hid : s.cvarList.head? = some id) :
    s.Restores (.cvarInit true) id IdView.cvars := by
  intro ctx ctx'
  obtain ⟨rest, hlist⟩ := List.head?_eq_some_iff.1 hid
  obtain ⟨hgt, hle⟩ : maxLocks < id ∧ id ≤ maxLocks + maxCvars := by
    apply h.cvar
    apply List.mem_append_left
    show id ∈ s.cvarList
    rw [hlist]
    exact List.mem_cons_self
  rw [Kernel.take_ids, Kernel.take_ids]
  show (s.ids.cvarInit.reclaim id).cvars = s.cvarList
  rw [IdView.reclaim, if_neg (Int.not_le.2 hgt), if_pos (by omega)]
  show id :: s.cvarList.tail = s.cvarList
  rw [hlist]
  rfl

/-- The next id is that of no pipe. -/
theorem nextPipeId_fresh {v : IdView} (h : Numbered v i) :
    headPipeId < v.nextPipeId ∧ v.nextPipeId ∉ i.pipes := by
  obtain ⟨last, hlast, hnext⟩ := h.nextPipeId_eq
  have hle {id : Int} (hid : id ∈ v.pipeIds) : id < v.nextPipeId := by
    have hlast' := h.rises.le_last hlast hid
    omega
  rw [h.pipes] at hle
  constructor
  · exact hle List.mem_cons_self
  · intro hmem
    exact Int.lt_irrefl _ (hle (List.mem_cons_of_mem _ hmem))

theorem pipe_restored (h : Numbered s.ids i) :
    s.Restores (.pipeInit true) s.ids.nextPipeId
      fun v => (v.pipeIds, v.nextPipeId) := by
  intro ctx ctx'
  rw [Kernel.take_ids, Kernel.take_ids]
  show ((s.ids.pipeInit.reclaim s.ids.nextPipeId).pipeIds,
    (s.ids.pipeInit.reclaim s.ids.nextPipeId).nextPipeId) = _
  obtain ⟨hgt, hfresh⟩ := h.nextPipeId_fresh
  have hmade := h.pipeInit
  have hmem : s.ids.nextPipeId ∈ i.pipes ++ [s.ids.nextPipeId] :=
    List.mem_append_right _ List.mem_cons_self
  obtain ⟨p, -, hids⟩ := hmade.removePipe_issued hmem
  have hremoved := hmade.reclaim s.ids.nextPipeId
  have hids' : (s.ids.pipeInit.reclaim s.ids.nextPipeId).pipeIds =
      s.ids.pipeIds := by
    rw [Numbered.reclaim_pipe hgt, hids, h.pipes]
    show headPipeId :: (i.pipes ++ [s.ids.nextPipeId]).erase _ = _
    rw [List.erase_append_right _ hfresh, List.erase_cons_head,
      List.append_nil]
  obtain ⟨last, hlast, hnext⟩ := h.nextPipeId_eq
  obtain ⟨last', hlast', hnext'⟩ := hremoved.nextPipeId_eq
  rw [hids', hlast] at hlast'
  show _ = (s.ids.pipeIds, s.ids.nextPipeId)
  rw [hids', hnext', hnext, Option.some.inj hlast']

end Numbered

/--
In every run in which only issued ids are reclaimed: the issued ids are distinct,
across the kinds; each list and the issued ids of its kind are parts of the list
at boot; `Reclaim` of an issued id works on the pool of its kind only; and an
id that is issued and reclaimed at once is on top again.
-/
theorem issued_ids_unique {c : Kernel × IssuedIds}
    (h : Tracked ReclaimsIssued c) :
    c.2.all.Nodup ∧ (c.1.lockList ++ c.2.locks).Perm lockIds ∧
      (c.1.cvarList ++ c.2.cvars).Perm cvarIds ∧
      (∀ ctx, ∀ id ∈ c.2.all, OnlyOwnPool c.2 id c.1.ids
        (c.1.take (.trap ctx (.kernel (.reclaim id)))).ids) ∧
      (∀ id, c.1.lockList.head? = some id →
        c.1.Restores (.lockInit true) id IdView.locks) ∧
      (∀ id, c.1.cvarList.head? = some id →
        c.1.Restores (.cvarInit true) id IdView.cvars) ∧
      c.1.Restores (.pipeInit true) c.1.ids.nextPipeId
        fun v => (v.pipeIds, v.nextPipeId) := by
  have hnumbered := Tracked.numbered h
  have hparts := Tracked.partitioned (fun _ _ ha id hid => .inl (ha id hid)) h
  refine ⟨hnumbered.all_nodup hparts, hparts.locks, hparts.cvars, ?_,
    fun _ => hnumbered.lock_restored, fun _ => hnumbered.cvar_restored,
    hnumbered.pipe_restored⟩
  intro ctx id hid
  rw [Kernel.take_ids]
  exact hnumbered.reclaim_own hid

/-- A lock id is given back before a condition variable and two pipes are made,
and one pipe is removed. -/
theorem issued_ids_unique_mixed :
    let c := trackedSmall (tick ++ [call (.lockInit true),
      call (.lockInit true), call (.reclaim 99), call (.cvarInit true),
      call (.pipeInit true), call (.pipeInit true), call (.reclaim 5102)])
    c.2.all = [98, 5100, 5103] ∧ c.2.all.Nodup ∧
      (c.1.lockList ++ c.2.locks).Perm lockIds := by
  intro c
  have hreach : Tracked ReclaimsIssued c :=
    tracked_small _ (by decide +kernel) (by decide +kernel)
  obtain ⟨hnodup, hlocks, -⟩ := issued_ids_unique hreach
  exact ⟨by decide +kernel, hnodup, hlocks⟩

/-! ## Ids that are not issued -/

namespace Numbered

variable {s : Kernel} {i : IssuedIds} {id : Int}

/-- Only the head of the pipes can be found under an id that is not issued. -/
theorem getPipe_unissued (h : Numbered s.ids i) (hid : id ∉ i.pipes) :
    s.getPipe id = if id = headPipeId then s.pipeChain.head? else none := by
  obtain ⟨head, rest, hchain, hhead, hrest⟩ := h.chain_head
  have hchain : s.pipeChain = head :: rest := hchain
  have hhead : (s.pipes head).id = headPipeId := hhead
  unfold Kernel.getPipe
  rw [hchain]
  split
  · rename_i heq
    rw [List.find?_cons_of_pos (by simpa using hhead.trans heq.symm)]
    rfl
  · rename_i hne
    rw [List.find?_cons_of_neg (by rw [hhead]; simpa using Ne.symm hne),
      List.find?_eq_none]
    intro p hp heq
    exact hid (hrest ▸ List.mem_map.2 ⟨p, hp, of_decide_eq_true heq⟩)

theorem getPipe_head (h : Numbered s.ids i) :
    ∃ head, s.pipeChain.head? = some head ∧
      s.getPipe headPipeId = some head := by
  obtain ⟨head, rest, hchain, -⟩ := h.chain_head
  have hchain : s.pipeChain = head :: rest := hchain
  have hmiss : headPipeId ∉ i.pipes := fun hmem =>
    Int.lt_irrefl _ (h.issued_pipe hmem)
  refine ⟨head, by rw [hchain]; rfl, ?_⟩
  rw [h.getPipe_unissued hmiss, if_pos rfl, hchain]
  rfl

end Numbered

namespace Kernel

variable {s : Kernel} {i : IssuedIds} {id : Int}

/-- A call that ends elsewhere than in user mode with `ERROR`. -/
theorem not_refuses {c : Syscall} {r : Kernel}
    (htake : s.take (.trap ⟨0, 0⟩ (.kernel c)) = r)
    (hr : r.mode = .undefined ∨ r.reg0 s.activePCB = 0) : ¬ s.Refuses c := by
  intro hrefuses
  have herror := (hrefuses ⟨0, 0⟩).symm.trans htake
  rcases hr with hmode | hresult
  · rw [← herror] at hmode
    cases hmode
  · have hreg : ((s.enter ⟨0, 0⟩).ret Rc.error).reg0 s.activePCB = Rc.error :=
      upd_same _ _ _
    rw [herror, hresult] at hreg
    cases hreg

theorem reclaim_refused_iff (h : Numbered s.ids i) (hid : id ∉ i.all) :
    s.Refuses (.reclaim id) ↔ headPipeId < id := by
  have hpipe : id ∉ i.pipes := fun hmem =>
    hid (IssuedIds.mem_all.2 (.inr (.inr hmem)))
  constructor
  · intro hrefuses
    by_contra hle
    refine not_refuses (c := .reclaim id) rfl ?_ hrefuses
    show ((s.enter ⟨0, 0⟩).kernelReclaim id).mode = .undefined ∨
      ((s.enter ⟨0, 0⟩).kernelReclaim id).reg0 s.activePCB = 0
    unfold kernelReclaim
    split
    · exact .inr (upd_same _ _ _)
    · split
      · exact .inr (upd_same _ _ _)
      · rename_i hlock hcvar
        have heq : id = headPipeId := by
          simp only [headPipeId] at hle ⊢
          omega
        obtain ⟨head, hhead, hget⟩ := h.getPipe_head
        have hget : (s.enter ⟨0, 0⟩).getPipe headPipeId = some head := hget
        have hhead : (s.enter ⟨0, 0⟩).pipeChain.head? = some head := hhead
        left
        rw [removePipe, heq, hget]
        simp only
        rw [if_pos hhead]
        rfl
  · intro hgt ctx
    show (s.enter ctx).kernelReclaim id = _
    have hget : (s.enter ctx).getPipe id = none :=
      (h.getPipe_unissued hpipe).trans (if_neg (by omega))
    simp only [headPipeId, maxLocks, maxCvars] at hgt
    unfold kernelReclaim removePipe
    rw [if_neg (by simp only [maxLocks]; omega),
      if_neg (by simp only [maxLocks, maxCvars]; omega), hget]

/-- The arguments that `KernelPipeRead` refuses whatever the pipe is. -/
def BadTransfer (nonNull : Bool) (len : Int) : Prop :=
  nonNull = false ∨ len < 0 ∨ (pipeBufferLen : Int) < len

theorem pipeRead_refused_iff (h : Numbered s.ids i) (hid : id ∉ i.all)
    (nonNull : Bool) (len : Int) :
    s.Refuses (.pipeRead id nonNull len) ↔
      BadTransfer nonNull len ∨ id ≠ headPipeId := by
  have hpipe : id ∉ i.pipes := fun hmem =>
    hid (IssuedIds.mem_all.2 (.inr (.inr hmem)))
  constructor
  · intro hrefuses
    by_contra hnot
    obtain ⟨hargs, heq⟩ := not_or.1 hnot
    have heq : id = headPipeId := not_not.1 heq
    obtain ⟨hbuf, hlen⟩ := not_or.1 hargs
    obtain ⟨head, hhead, hget⟩ := h.getPipe_head
    have hget : (s.enter ⟨0, 0⟩).getPipe headPipeId = some head := hget
    have hhead : (s.enter ⟨0, 0⟩).pipeChain.head? = some head := hhead
    refine not_refuses (c := .pipeRead id nonNull len) rfl (.inl ?_) hrefuses
    show ((s.enter ⟨0, 0⟩).kernelPipeRead id nonNull len).mode = .undefined
    unfold kernelPipeRead
    rw [if_neg (by simpa using hbuf), if_neg hlen, heq, hget]
    simp only
    rw [if_pos hhead]
    rfl
  · intro hargs ctx
    show (s.enter ctx).kernelPipeRead id nonNull len = _
    unfold kernelPipeRead
    split
    · rfl
    · rename_i hbuf
      split
      · rfl
      · rename_i hlen
        have hne : id ≠ headPipeId := by
          rcases hargs with (hnull | hbad) | hne
          · rw [hnull] at hbuf
            exact absurd rfl hbuf
          · exact absurd hbad hlen
          · exact hne
        have hget : (s.enter ctx).getPipe id = none :=
          (h.getPipe_unissued hpipe).trans (if_neg hne)
        rw [hget]

theorem pipeWrite_refused_iff (h : Numbered s.ids i) (hid : id ∉ i.all)
    (buf : Option Buffer) (len : Int) :
    s.Refuses (.pipeWrite id buf len) ↔
      BadTransfer buf.isSome len ∨ id ≤ 0 := by
  have hpipe : id ∉ i.pipes := fun hmem =>
    hid (IssuedIds.mem_all.2 (.inr (.inr hmem)))
  constructor
  · intro hrefuses
    by_contra hnot
    obtain ⟨hargs, hpos⟩ := not_or.1 hnot
    obtain ⟨hbuf, hlen⟩ := not_or.1 hargs
    rw [Bool.not_eq_false] at hbuf
    obtain ⟨data, rfl⟩ := Option.isSome_iff_exists.1 hbuf
    refine not_refuses (c := .pipeWrite id (some data) len) rfl (.inl ?_)
      hrefuses
    show ((s.enter ⟨0, 0⟩).kernelPipeWrite id (some data) len).mode = .undefined
    unfold kernelPipeWrite
    rw [if_neg hpos, if_neg hlen]
    have hget := h.getPipe_unissued hpipe
    change (s.enter ⟨0, 0⟩).getPipe id = _ at hget
    obtain ⟨head, hhead, -⟩ := h.getPipe_head
    rw [hget]
    by_cases heq : id = headPipeId
    · rw [if_pos heq, hhead]
      have hhead : (s.enter ⟨0, 0⟩).pipeChain.head? = some head := hhead
      simp only
      rw [if_pos hhead]
      rfl
    · rw [if_neg heq]
      rfl
  · intro hargs ctx
    show (s.enter ctx).kernelPipeWrite id buf len = _
    unfold kernelPipeWrite
    split
    · rfl
    · rename_i hpos
      split
      · rfl
      · rename_i hlen
        cases buf with
        | none => rfl
        | some data =>
            rcases hargs with (hnull | hbad) | hle
            · cases hnull
            · exact absurd hbad hlen
            · exact absurd hle hpos

end Kernel

/--
In every run, with any ids: an id that is not issued is rejected by `Reclaim` if
and only if it lies behind the head of the pipes, by `PipeRead` if and only if
it is not that of the head or the other arguments are bad, and by `PipeWrite` if
and only if it is not positive or the other arguments are bad.  When `Reclaim`
gets no other ids than issued ones and those behind the head, no `Init` hands
out an issued id.
-/
theorem unissued_ids_rejected_iff {c : Kernel × IssuedIds}
    (h : Tracked (fun _ _ => True) c) :
    (∀ id, id ∉ c.2.all →
      (c.1.Refuses (.reclaim id) ↔ headPipeId < id) ∧
      (∀ nonNull len, c.1.Refuses (.pipeRead id nonNull len) ↔
        Kernel.BadTransfer nonNull len ∨ id ≠ headPipeId) ∧
      ∀ buf len, c.1.Refuses (.pipeWrite id buf len) ↔
        Kernel.BadTransfer buf.isSome len ∨ id ≤ 0) ∧
    (Tracked ReclaimsSafely c →
      (∀ id ∈ c.1.lockList, id ∉ c.2.all) ∧
        ∀ id ∈ c.1.cvarList, id ∉ c.2.all) := by
  have hnumbered := Tracked.numbered h
  constructor
  · intro id hid
    exact ⟨Kernel.reclaim_refused_iff hnumbered hid,
      Kernel.pipeRead_refused_iff hnumbered hid,
      Kernel.pipeWrite_refused_iff hnumbered hid⟩
  · intro hsafe
    have hparts := Tracked.partitioned (fun _ _ ha => ha) hsafe
    constructor
    · intro id hfree hissued
      have hle := hnumbered.lock id (List.mem_append_left _ hfree)
      rcases IssuedIds.mem_all.1 hissued with hlock | hcvar | hpipe
      · exact hparts.locks.fresh lockIds_nodup hfree hlock
      · have hgt := (hnumbered.issued_cvar hcvar).1
        omega
      · have hgt := hnumbered.issued_pipe hpipe
        simp only [headPipeId, maxCvars] at hgt
        omega
    · intro id hfree hissued
      obtain ⟨hgt, hle⟩ := hnumbered.cvar id (List.mem_append_left _ hfree)
      rcases IssuedIds.mem_all.1 hissued with hlock | hcvar | hpipe
      · have hle' := hnumbered.issued_lock hlock
        omega
      · exact hparts.cvars.fresh cvarIds_nodup hfree hcvar
      · have hgt' := hnumbered.issued_pipe hpipe
        simp only [headPipeId] at hgt'
        omega

/-- A pipe is removed; its id is refused by `Reclaim` and `PipeRead`, and `0` by
`PipeWrite`. -/
theorem unissued_ids_rejected_removed :
    let c := trackedSmall (tick ++ [call (.pipeInit true),
      call (.reclaim 5102)])
    c.1.Refuses (.reclaim 5102) ∧ c.1.Refuses (.pipeRead 5102 true 1) ∧
      c.1.Refuses (.pipeWrite 0 none 1) ∧ 99 ∈ c.1.lockList ∧
      99 ∉ c.2.all := by
  intro c
  have hreach : Tracked (fun _ _ => True) c :=
    tracked_small _ (by decide +kernel) (by decide +kernel)
  have hsafe : Tracked ReclaimsSafely c :=
    tracked_small _ (by decide +kernel) (by decide +kernel)
  obtain ⟨hids, hfresh⟩ := unissued_ids_rejected_iff hreach
  have hfree : 99 ∈ c.1.lockList := by decide +kernel
  obtain ⟨hreclaim, hread, -⟩ := hids 5102 (by decide +kernel)
  obtain ⟨-, -, hwrite⟩ := hids 0 (by decide +kernel)
  exact ⟨hreclaim.2 (by decide), (hread true 1).2 (.inr (by decide)),
    (hwrite none 1).2 (.inl (.inl rfl)), hfree, (hfresh hsafe).1 99 hfree⟩

/-- `Reclaim` takes an id that was never issued, and one that was reclaimed
before is issued to two callers. -/
theorem unissued_id_accepted :
    (¬ ∀ c, Tracked (fun _ _ => True) c → ∀ id, id ∉ c.2.all →
      c.1.Refuses (.reclaim id)) ∧
    ¬ ∀ c, Tracked (fun _ _ => True) c → c.2.locks.Nodup := by
  constructor
  · intro hall
    have hreach : Tracked (fun _ _ => True) (trackedSmall tick) :=
      tracked_small _ (by decide +kernel) (by decide +kernel)
    exact Kernel.not_refuses (c := .reclaim 5) rfl (.inr (by decide +kernel))
      (hall _ hreach 5 (by decide +kernel))
  · intro hall
    let labels := tick ++ [call (.lockInit true), call (.reclaim 99),
      call (.reclaim 99), call (.lockInit true), call (.lockInit true)]
    have hreach : Tracked (fun _ _ => True) (trackedSmall labels) :=
      tracked_small _ (by decide +kernel) (by decide +kernel)
    have hlocks : (trackedSmall labels).2.locks = [99, 99] := by
      decide +kernel
    have hnodup := hall _ hreach
    rw [hlocks] at hnodup
    exact absurd hnodup (by decide)

end Yalnix
