import Yalnix.Kernel.Core

/-!
# The loops of `KernelExit` and `KernelWait`

What the three scans over `ready_q`, `blocked_q` and `defunct_q` do to the
queues, whatever these hold, and which child `KernelWait` takes.
-/

namespace Yalnix

open QueueScan

/-! ## Wait -/

/-- The loop takes the first child of the front part, or turns it around. -/
theorem reapLoop_append (isChild : PcbPtr → Bool) (front back : List PcbPtr) :
    (∃ before child after, front = before ++ child :: after ∧
        isChild child = true ∧
        reapLoop isChild front.length (front ++ back) =
          (some child, after ++ back ++ before)) ∨
      (∀ d ∈ front, isChild d = false) ∧
        reapLoop isChild front.length (front ++ back) =
          (none, back ++ front) := by
  induction front generalizing back with
  | nil => exact .inr ⟨nofun, by simp [reapLoop]⟩
  | cons d front ih =>
      rw [List.length_cons, List.cons_append, reapLoop]
      cases hchild : isChild d with
      | true =>
          exact .inl ⟨[], d, front, rfl, hchild, by simp⟩
      | false =>
          simp only [Bool.false_eq_true, if_false, List.append_assoc]
          rcases ih (back ++ [d]) with
            ⟨before, child, after, rfl, hc, hresult⟩ | ⟨hnone, hresult⟩
          · exact .inl ⟨d :: before, child, after, rfl, hc, by
              rw [hresult]; simp⟩
          · refine .inr ⟨?_, by rw [hresult]; simp⟩
            intro x hx
            rcases List.mem_cons.1 hx with rfl | hx
            · exact hchild
            · exact hnone x hx

theorem reapLoop_some {isChild : PcbPtr → Bool} {queue rest : List PcbPtr}
    {child : PcbPtr}
    (h : reapLoop isChild queue.length queue = (some child, rest)) :
    isChild child = true ∧ (child :: rest).Perm queue := by
  have hcases := reapLoop_append isChild queue []
  rw [List.append_nil, h] at hcases
  rcases hcases with ⟨before, c, after, rfl, hchild, hresult⟩ | ⟨-, hresult⟩
  · cases hresult
    refine ⟨hchild, ?_⟩
    rw [List.append_nil]
    exact (List.perm_middle.trans (List.perm_append_comm.cons _)).symm
  · cases hresult

theorem reapLoop_none {isChild : PcbPtr → Bool} {queue rest : List PcbPtr}
    (h : reapLoop isChild queue.length queue = (none, rest)) :
    rest = queue ∧ ∀ d ∈ queue, isChild d = false := by
  have hcases := reapLoop_append isChild queue []
  rw [List.append_nil, h] at hcases
  rcases hcases with ⟨before, c, after, rfl, hchild, hresult⟩ | ⟨hnone, hresult⟩
  · cases hresult
  · cases hresult
    exact ⟨rfl, hnone⟩

/-! ## Exit -/

section Blocked

variable (pid : PcbPtr → Nat) (active : PcbPtr) (code : Int)

/-- A scanned process stays in `blocked_q` or is appended to `ready_q`. -/
theorem exitBlocked_count (p : PcbPtr) (queue : List PcbPtr) (st : ExitScan) :
    (finalStore (exitBlockedBody pid active code) queue st).readyQ.count p +
        (kept (exitBlockedBody pid active code) queue st).count p =
      st.readyQ.count p + queue.count p := by
  induction queue generalizing st with
  | nil => rfl
  | cons b queue ih =>
      simp only [finalStore, kept]
      have hrest := ih (exitBlockedBody pid active code b st).2
      unfold exitBlockedBody at hrest ⊢
      split
      · simp only [if_pos (by assumption), Bool.false_eq_true, if_false] at hrest ⊢
        rw [hrest, List.count_append, List.count_cons]
        simp only [List.count_nil, List.count_cons]
        omega
      · rename_i hparent
        simp only [if_neg hparent] at hrest ⊢
        split
        · simp only [if_pos (by assumption), if_true] at hrest ⊢
          simp only [List.count_cons] at hrest ⊢
          omega
        · rename_i hsame
          simp only [if_neg hsame] at hrest ⊢
          split
          · simp only [if_pos (by assumption), if_true] at hrest ⊢
            simp only [List.count_cons] at hrest ⊢
            omega
          · rename_i hchild
            simp only [if_neg hchild, if_true] at hrest ⊢
            simp only [List.count_cons] at hrest ⊢
            omega

/-- Only scanned processes get a new blocked code. -/
theorem exitBlocked_blockedCode {p : PcbPtr} (queue : List PcbPtr)
    (hp : p ∉ queue) (st : ExitScan) :
    (finalStore (exitBlockedBody pid active code) queue st).blockedCode p =
      st.blockedCode p := by
  refine finalStore_induct (P := fun st' => st'.blockedCode p =
    st.blockedCode p) _ queue (fun b hb st' h => ?_) st rfl
  have hne : p ≠ b := fun heq => hp (heq ▸ hb)
  unfold exitBlockedBody
  split
  · simp only [upd_other hne]
    exact h
  · split
    · exact h
    · split <;> exact h

theorem exitBlocked_swapQ (queue : List PcbPtr) {st : ExitScan}
    (h : st.swapQ = none ∨ st.swapQ = some .defunctQ) :
    let st' := finalStore (exitBlockedBody pid active code) queue st
    st'.swapQ = none ∨ st'.swapQ = some .defunctQ := by
  refine finalStore_induct (P := fun st => st.swapQ = none ∨
    st.swapQ = some .defunctQ) _ queue (fun b _ st h => ?_) st h
  unfold exitBlockedBody
  split
  · exact h
  · split
    · exact .inr rfl
    · split <;> exact h

end Blocked

section Ready

variable (pid : PcbPtr → Nat) (active : PcbPtr)

/-- The loop over `ready_q` only writes `ppid` and the queue to go to. -/
theorem exitReady_frame (queue : List PcbPtr) (st : ExitScan) :
    let st' := finalStore (exitReadyBody pid active) queue st
    st'.blockedCode = st.blockedCode ∧ st'.numChildren = st.numChildren ∧
      st'.readyQ = st.readyQ ∧ st'.reporter = st.reporter ∧
      (st.swapQ = none ∨ st.swapQ = some .defunctQ →
        st'.swapQ = none ∨ st'.swapQ = some .defunctQ) := by
  refine finalStore_induct (P := fun st' => st'.blockedCode = st.blockedCode ∧
    st'.numChildren = st.numChildren ∧ st'.readyQ = st.readyQ ∧
    st'.reporter = st.reporter ∧ (st.swapQ = none ∨ st.swapQ = some .defunctQ →
      st'.swapQ = none ∨ st'.swapQ = some .defunctQ)) _ queue
    (fun r _ st' h => ?_) st ⟨rfl, rfl, rfl, rfl, id⟩
  unfold exitReadyBody
  split
  · exact h
  · split
    · exact ⟨h.1, h.2.1, h.2.2.1, h.2.2.2.1, fun _ => .inr rfl⟩
    · exact h

theorem exitReady_kept (queue : List PcbPtr) (st : ExitScan) :
    kept (exitReadyBody pid active) queue st = queue := by
  rw [kept_eq_filter _ (fun _ => true), List.filter_true]
  intro r _ st
  unfold exitReadyBody
  split
  · rfl
  · split <;> rfl

end Ready

/-- The loop over `defunct_q` takes out the children. -/
theorem exitDefunct_kept (pid : PcbPtr → Nat) (active : PcbPtr)
    (queue : List PcbPtr) (st : ExitScan) :
    kept (exitDefunctBody pid active) queue st =
      queue.filter fun d => decide (st.ppid d ≠ pid active) := by
  induction queue with
  | nil => rfl
  | cons d queue ih =>
      simp only [kept, exitDefunctBody, List.filter_cons] at ih ⊢
      rw [← ih]
      rfl

theorem exitDefunct_store (pid : PcbPtr → Nat) (active : PcbPtr)
    (queue : List PcbPtr) (st : ExitScan) :
    finalStore (exitDefunctBody pid active) queue st = st :=
  finalStore_induct (P := fun st' => st' = st) _ _ (fun _ _ _ h => h) _ rfl

namespace Kernel

variable (s : Kernel)

/-- The store after the loop over `ready_q`. -/
def exitReadyStore : ExitScan :=
  { finalStore (exitReadyBody s.pcb.pid s.activePCB) s.readyQ s.exitScan with
    readyQ := s.readyQ }

/-- The store after the loop over `blocked_q`. -/
def exitStore : ExitScan :=
  finalStore (exitBlockedBody s.pcb.pid s.activePCB
    (s.pcb.exitCode s.activePCB)) s.blockedQ s.exitReadyStore

theorem exitLoops_eq :
    s.exitLoops = (s.exitStore.swapQ,
      { s with
        pcb :=
          { s.pcb with
            ppid := s.exitStore.ppid
            blockedCode := s.exitStore.blockedCode
            numChildren := s.exitStore.numChildren }
        readyQ := s.exitStore.readyQ
        blockedQ := kept (exitBlockedBody s.pcb.pid s.activePCB
          (s.pcb.exitCode s.activePCB)) s.blockedQ s.exitReadyStore
        defunctQ := s.defunctQ.filter fun d =>
          decide (s.exitStore.ppid d ≠ s.pcb.pid s.activePCB)
        history := { s.history with reporter := s.exitStore.reporter } }) := by
  unfold exitLoops
  simp only [scan_all, exitReady_kept, exitDefunct_kept, exitDefunct_store]
  rfl

theorem exitReadyStore_frame :
    s.exitReadyStore.blockedCode = s.pcb.blockedCode ∧
      s.exitReadyStore.numChildren = s.pcb.numChildren ∧
      s.exitReadyStore.readyQ = s.readyQ ∧
      s.exitReadyStore.reporter = s.history.reporter ∧
      (s.exitReadyStore.swapQ = none ∨
        s.exitReadyStore.swapQ = some .defunctQ) := by
  obtain ⟨hcode, hchildren, -, hreporter, hswapQ⟩ := exitReady_frame s.pcb.pid
    s.activePCB s.readyQ s.exitScan
  exact ⟨hcode, hchildren, rfl, hreporter, hswapQ (.inl rfl)⟩

/--
What the cleanup of an exiting process does to the queues: it moves processes
from `blocked_q` to `ready_q`, drops entries of `defunct_q`, and changes the
blocked codes of processes in `blocked_q` only.
-/
structure Cleaned (s : Kernel) (swapQ : Option QueueRef) (r : Kernel) :
    Prop where
  active : r.activePCB = s.activePCB
  idle : r.idlePCB = s.idlePCB
  npcb : r.npcb = s.npcb
  pid : r.pcb.pid = s.pcb.pid
  context : r.pcb.kernelContext = s.pcb.kernelContext
  readers : r.ttyReadQueues = s.ttyReadQueues
  writers : r.ttyWriteQueues = s.ttyWriteQueues
  pipes : r.pipes = s.pipes
  usedPids : r.history.usedPids = s.history.usedPids
  terminated : r.history.terminated = s.history.terminated
  count : ∀ p, r.readyQ.count p + r.blockedQ.count p =
    s.readyQ.count p + s.blockedQ.count p
  ready : ∀ p, s.readyQ.count p ≤ r.readyQ.count p
  code : ∀ p, p ∉ s.blockedQ → r.pcb.blockedCode p = s.pcb.blockedCode p
  defunct : r.defunctQ.Sublist s.defunctQ
  swapQ : swapQ = none ∨ swapQ = some .defunctQ

theorem exitBlocked_readyQ_le (pid : PcbPtr → Nat) (active : PcbPtr)
    (code : Int) (p : PcbPtr) (queue : List PcbPtr) (st : ExitScan) :
    st.readyQ.count p ≤
      (finalStore (exitBlockedBody pid active code) queue
        st).readyQ.count p := by
  refine finalStore_induct (P := fun st' => st.readyQ.count p ≤
    st'.readyQ.count p) _ queue (fun b _ st' h => ?_) st (Nat.le_refl _)
  unfold exitBlockedBody
  split
  · simp only [List.count_append]
    omega
  · split
    · exact h
    · split <;> exact h

theorem exitLoops_cleaned : s.Cleaned s.exitLoops.1 s.exitLoops.2 := by
  obtain ⟨hcode, -, hready, -, hswapQ⟩ := s.exitReadyStore_frame
  rw [exitLoops_eq]
  exact
    { active := rfl
      idle := rfl
      npcb := rfl
      pid := rfl
      context := rfl
      readers := rfl
      writers := rfl
      pipes := rfl
      usedPids := rfl
      terminated := rfl
      count := fun p => by
        have hcount := exitBlocked_count s.pcb.pid s.activePCB
          (s.pcb.exitCode s.activePCB) p s.blockedQ s.exitReadyStore
        rw [hready] at hcount
        exact hcount
      ready := fun p => by
        have hle := exitBlocked_readyQ_le s.pcb.pid s.activePCB
          (s.pcb.exitCode s.activePCB) p s.blockedQ s.exitReadyStore
        rw [hready] at hle
        exact hle
      code := fun p hp => by
        have hsame := exitBlocked_blockedCode s.pcb.pid s.activePCB
          (s.pcb.exitCode s.activePCB) s.blockedQ hp s.exitReadyStore
        rw [hcode] at hsame
        exact hsame
      defunct := List.filter_sublist
      swapQ := exitBlocked_swapQ _ _ _ _ hswapQ }

theorem exitCleanup_cleaned (code : Int) :
    s.Cleaned (s.exitCleanup code).1 (s.exitCleanup code).2 := by
  unfold exitCleanup
  simp only
  split
  · have h := exitLoops_cleaned ((s.setExitCode s.activePCB code).emit
      (.exit s.activePCB code))
    exact { h with }
  · exact
      { active := rfl
        idle := rfl
        npcb := rfl
        pid := rfl
        context := rfl
        readers := rfl
        writers := rfl
        pipes := rfl
        usedPids := rfl
        terminated := rfl
        count := fun _ => rfl
        ready := fun _ => Nat.le_refl _
        code := fun _ _ => rfl
        defunct := List.Sublist.refl _
        swapQ := .inl rfl }

/-- The parents that are woken were waiting; they come behind the processes that
were ready.  No other process gets a new blocked code. -/
theorem exitCleanup_woken (code : Int) :
    ∃ woken, (s.exitCleanup code).2.readyQ = s.readyQ ++ woken ∧
      (∀ p ∈ woken, p ∈ s.blockedQ ∧ s.pcb.blockedCode p = Blocked.wait) ∧
      ∀ p, p ∉ woken →
        (s.exitCleanup code).2.pcb.blockedCode p = s.pcb.blockedCode p := by
  have hloops (s : Kernel) : ∃ woken, s.exitLoops.2.readyQ =
      s.readyQ ++ woken ∧
      (∀ p ∈ woken, p ∈ s.blockedQ ∧ s.pcb.blockedCode p = Blocked.wait) ∧
      ∀ p, p ∉ woken →
        s.exitLoops.2.pcb.blockedCode p = s.pcb.blockedCode p := by
    rw [exitLoops_eq]
    refine finalStore_induct (P := fun st => ∃ woken, st.readyQ =
      s.readyQ ++ woken ∧
      (∀ p ∈ woken, p ∈ s.blockedQ ∧ s.pcb.blockedCode p = Blocked.wait) ∧
      ∀ p, p ∉ woken →
        st.blockedCode p = s.pcb.blockedCode p) _ s.blockedQ
      (fun b hb st h => ?_) s.exitReadyStore
      ⟨[], (List.append_nil _).symm, nofun, fun p _ =>
        congrFun s.exitReadyStore_frame.1 p⟩
    unfold exitBlockedBody
    split
    · rename_i hparent
      obtain ⟨woken, hready, hwoken, hcode⟩ := h
      have hwaits : s.pcb.blockedCode b = Blocked.wait := by
        by_cases hmem : b ∈ woken
        · exact (hwoken b hmem).2
        · exact (hcode b hmem).symm.trans hparent.2
      refine ⟨woken ++ [b], ?_, fun p hp => ?_, fun p hp => ?_⟩
      · show st.readyQ ++ [b] = _
        rw [hready, List.append_assoc]
      · rcases List.mem_append.1 hp with hp | hp
        · exact hwoken p hp
        · rw [List.mem_singleton.1 hp]
          exact ⟨hb, hwaits⟩
      · have hne : p ≠ b := fun heq =>
          hp (heq ▸ List.mem_append_right _ List.mem_cons_self)
        exact (upd_other hne _ _).trans
          (hcode p fun hmem => hp (List.mem_append_left _ hmem))
    · split
      · exact h
      · split <;> exact h
  unfold exitCleanup
  simp only
  split
  · exact hloops ((s.setExitCode s.activePCB code).emit
      (.exit s.activePCB code))
  · exact ⟨[], (List.append_nil _).symm, nofun, fun _ _ => rfl⟩

/-- The processes that stay in `blocked_q` keep their order. -/
theorem exitCleanup_blocked (code : Int) :
    (s.exitCleanup code).2.blockedQ.Sublist s.blockedQ := by
  unfold exitCleanup
  simp only
  split
  · rw [exitLoops_eq]
    exact kept_sublist _ _ _
  · exact List.Sublist.refl _

/-- The loops change no tick count. -/
theorem exitCleanup_ticks (code : Int) :
    (s.exitCleanup code).2.pcb.clockTicks = s.pcb.clockTicks := by
  unfold exitCleanup
  simp only
  split
  · rw [exitLoops_eq]
    rfl
  · rfl

theorem exitCleanup_mode (code : Int) :
    (s.exitCleanup code).2.mode = s.mode := by
  unfold exitCleanup
  simp only
  split
  · rw [exitLoops_eq]
    rfl
  · rfl

end Kernel

/-! ## Exit among distinct processes -/

/-- The parent links after a scan that hands the children of the process with
pid `self` to idle. -/
def orphan (ppid : PcbPtr → Nat) (self : Nat) (queue : List PcbPtr) :
    PcbPtr → Nat :=
  fun p => if p ∈ queue ∧ ppid p = self then 0 else ppid p

@[simp] theorem orphan_nil (ppid : PcbPtr → Nat) (self : Nat) :
    orphan ppid self [] = ppid := by
  funext p
  simp [orphan]

theorem orphan_cons_child {ppid : PcbPtr → Nat} {self : Nat} {x : PcbPtr}
    (hchild : ppid x = self) (queue : List PcbPtr) :
    orphan (upd ppid x 0) self queue = orphan ppid self (x :: queue) := by
  funext p
  unfold orphan
  by_cases hp : p = x
  · subst hp
    simp [hchild]
  · simp [hp]

theorem orphan_cons_other {ppid : PcbPtr → Nat} {self : Nat} {x : PcbPtr}
    (hother : ppid x ≠ self) (queue : List PcbPtr) :
    orphan ppid self queue = orphan ppid self (x :: queue) := by
  funext p
  unfold orphan
  by_cases hp : p = x
  · subst hp
    simp [hother]
  · simp [hp]

theorem orphan_append (ppid : PcbPtr → Nat) {self : Nat} (hself : self ≠ 0)
    (front back : List PcbPtr) :
    orphan (orphan ppid self front) self back =
      orphan ppid self (front ++ back) := by
  funext p
  unfold orphan
  by_cases hfront : p ∈ front
  · by_cases hchild : ppid p = self
    · simp [hfront, hchild, hself.symm]
    · simp [hchild]
  · simp [hfront]

theorem orphan_skip {ppid : PcbPtr → Nat} {self : Nat} {x : PcbPtr}
    (hother : ppid x ≠ self) (front back : List PcbPtr) :
    orphan ppid self (front ++ back) = orphan ppid self (front ++ x :: back) := by
  funext p
  unfold orphan
  by_cases hp : p = x
  · subst hp
    simp [hother]
  · simp [hp]

section Closed

variable {pid : PcbPtr → Nat} {active : PcbPtr}

/-- The loop over `ready_q`, when no child of the process is its parent. -/
theorem exitReady_eq {queue : List PcbPtr} (st : ExitScan)
    (hactive : active ∉ queue) (hnodup : queue.Nodup)
    (hacyclic : ∀ r ∈ queue, pid r = st.ppid active →
      st.ppid r ≠ pid active) :
    finalStore (exitReadyBody pid active) queue st =
      { st with
        ppid := orphan st.ppid (pid active) queue
        swapQ := if queue.any fun r => pid r == st.ppid active then
          some .defunctQ else st.swapQ } := by
  induction queue generalizing st with
  | nil => simp [finalStore]
  | cons r queue ih =>
      obtain ⟨hne, hrest⟩ := not_or.1 (mt List.mem_cons.2 hactive)
      obtain ⟨hr, hnodup'⟩ := List.nodup_cons.1 hnodup
      simp only [finalStore, exitReadyBody]
      split
      · rename_i hchild
        have hparent : pid r ≠ st.ppid active := fun h =>
          hacyclic r List.mem_cons_self h hchild
        rw [ih _ hrest hnodup' fun x hx => ?_]
        · simp only [upd_other hne, orphan_cons_child hchild, List.any_cons,
            beq_eq_false_iff_ne.2 hparent, Bool.false_or]
        · have hx' : x ≠ r := fun h => hr (h ▸ hx)
          simp only [upd_other hne, upd_other hx']
          exact hacyclic x (List.mem_cons_of_mem _ hx)
      · rename_i hother
        have htail : ∀ x ∈ queue, pid x = st.ppid active →
            st.ppid x ≠ pid active := fun x hx =>
          hacyclic x (List.mem_cons_of_mem _ hx)
        split
        · rename_i hparent
          rw [ih { st with swapQ := some .defunctQ } hrest hnodup' htail,
            ← orphan_cons_other hother]
          simp [hparent]
        · rename_i hparent
          rw [ih st hrest hnodup' htail, ← orphan_cons_other hother]
          simp only [List.any_cons, beq_eq_false_iff_ne.2 hparent,
            Bool.false_or]

/-- A part of `blocked_q` without the parent. -/
theorem exitBlocked_eq (pid : PcbPtr → Nat) (code : Int)
    {queue : List PcbPtr} (st : ExitScan)
    (hactive : active ∉ queue)
    (hparent : ∀ b ∈ queue, pid b ≠ st.ppid active) :
    finalStore (exitBlockedBody pid active code) queue st =
        { st with ppid := orphan st.ppid (pid active) queue } ∧
      kept (exitBlockedBody pid active code) queue st = queue := by
  induction queue generalizing st with
  | nil => simp [finalStore, kept]
  | cons b queue ih =>
      obtain ⟨hne, hrest⟩ := not_or.1 (mt List.mem_cons.2 hactive)
      have hb := hparent b List.mem_cons_self
      have htail : ∀ x ∈ queue, pid x ≠ st.ppid active := fun x hx =>
        hparent x (List.mem_cons_of_mem _ hx)
      simp only [finalStore, kept, exitBlockedBody, hb, false_and, if_false]
      split
      · rename_i hchild
        obtain ⟨hstore, hkept⟩ := ih { st with ppid := upd st.ppid b 0 } hrest
          (by simpa only [upd_other hne] using htail)
        simp only [hstore, hkept, orphan_cons_child hchild, if_true, and_self]
      · rename_i hother
        obtain ⟨hstore, hkept⟩ := ih st hrest htail
        rw [← orphan_cons_other hother]
        simp only [hstore, hkept, if_true, and_self]

/-- What the loop over `blocked_q` does when it meets the parent. -/
def exitParent (active : PcbPtr) (code : Int) (parent : PcbPtr)
    (st : ExitScan) : ExitScan :=
  if st.blockedCode parent = Blocked.wait then
    { st with
      blockedCode := upd st.blockedCode parent code
      numChildren := upd st.numChildren parent (st.numChildren parent - 1)
      readyQ := st.readyQ ++ [parent]
      reporter := upd st.reporter parent (some active) }
  else { st with swapQ := some .defunctQ }

/-- The loop over `blocked_q` with the parent in it. -/
theorem exitBlocked_parent {code : Int} {queue : List PcbPtr} (st : ExitScan)
    (hself : pid active ≠ 0) (hactive : active ∉ queue) (hnodup : queue.Nodup)
    {parent : PcbPtr} (hmem : parent ∈ queue)
    (hparent : pid parent = st.ppid active)
    (hacyclic : st.ppid parent ≠ pid active)
    (honly : ∀ b ∈ queue, pid b = st.ppid active → b = parent) :
    finalStore (exitBlockedBody pid active code) queue st =
        { exitParent active code parent st with
          ppid := orphan st.ppid (pid active) queue } ∧
      kept (exitBlockedBody pid active code) queue st =
        if st.blockedCode parent = Blocked.wait then queue.erase parent
        else queue := by
  obtain ⟨before, after, rfl⟩ := List.append_of_mem hmem
  obtain ⟨-, hafter, hbefore⟩ := List.nodup_append.1 hnodup
  have hnot : parent ∉ before := fun h =>
    hbefore parent h parent List.mem_cons_self rfl
  have hnot' := (List.nodup_cons.1 hafter).1
  have hfront : active ∉ before := fun h =>
    hactive (List.mem_append_left _ h)
  have hback : active ∉ after := fun h =>
    hactive (List.mem_append_right _ (List.mem_cons_of_mem _ h))
  have hother {b : PcbPtr} (hb : b ∈ before ∨ b ∈ after) :
      pid b ≠ st.ppid active := fun h => by
    have hb' : b ∈ before ++ parent :: after := by
      simp only [List.mem_append, List.mem_cons]
      exact hb.imp id .inr
    have heq := honly b hb' h
    rw [heq] at hb
    exact hb.elim hnot hnot'
  obtain ⟨hstore, hkept⟩ := exitBlocked_eq pid code st hfront
    fun b hb => hother (.inl hb)
  have hsame : orphan st.ppid (pid active) before active = st.ppid active := by
    simp [orphan, hfront]
  rw [finalStore_append, kept_append, hstore, hkept, ← orphan_skip hacyclic,
    ← orphan_append _ hself]
  simp only [finalStore, kept, exitBlockedBody, hsame, hparent, true_and,
    if_true]
  unfold exitParent
  split
  · rename_i hcode
    obtain ⟨hstore', hkept'⟩ := exitBlocked_eq pid code
      { st with
        ppid := orphan st.ppid (pid active) before
        blockedCode := upd st.blockedCode parent code
        numChildren := upd st.numChildren parent (st.numChildren parent - 1)
        readyQ := st.readyQ ++ [parent]
        reporter := upd st.reporter parent (some active) } hback
      fun b hb => by
        simp only [hsame]
        exact hother (.inr hb)
    simp only [hstore', hkept', Bool.false_eq_true, if_false, true_and]
    rw [List.erase_append_right _ hnot, List.erase_cons_head]
  · rename_i hcode
    obtain ⟨hstore', hkept'⟩ := exitBlocked_eq pid code
      { st with
        ppid := orphan st.ppid (pid active) before
        swapQ := some .defunctQ } hback
      fun b hb => by
        simp only [hsame]
        exact hother (.inr hb)
    simp only [hstore', hkept', if_true, and_self]

end Closed

namespace Kernel

/-- The queues hold distinct processes, the exiting one is not among them, and
its parent is not its child. -/
structure Distinct (s : Kernel) : Prop where
  ready : s.readyQ.Nodup
  blocked : s.blockedQ.Nodup
  disjoint : ∀ p ∈ s.readyQ, p ∉ s.blockedQ
  active_ready : s.activePCB ∉ s.readyQ
  active_blocked : s.activePCB ∉ s.blockedQ
  pid_ne_zero : s.pcb.pid s.activePCB ≠ 0
  pid_inj : ∀ p q, p ∈ s.readyQ ∨ p ∈ s.blockedQ →
    q ∈ s.readyQ ∨ q ∈ s.blockedQ → s.pcb.pid p = s.pcb.pid q → p = q
  acyclic : ∀ p, s.pcb.pid p = s.pcb.ppid s.activePCB →
    p ∈ s.readyQ ∨ p ∈ s.blockedQ → s.pcb.ppid p ≠ s.pcb.pid s.activePCB
  defunct : ∀ d ∈ s.defunctQ, d ∉ s.readyQ ∧ d ∉ s.blockedQ

/-- The children of the exiting process in `ready_q` and `blocked_q` are handed
to idle, those in `defunct_q` are dropped. -/
def orphaned (s : Kernel) : Kernel :=
  { s with
    pcb :=
      { s.pcb with
        ppid := orphan s.pcb.ppid (s.pcb.pid s.activePCB)
          (s.readyQ ++ s.blockedQ) }
    defunctQ := s.defunctQ.filter fun d =>
      decide (s.pcb.ppid d ≠ s.pcb.pid s.activePCB) }

/-- A parent asleep in `Wait` is woken with the code of its child. -/
def reported (s : Kernel) (parent : PcbPtr) : Kernel :=
  ((((s.setBlockedCode parent (s.pcb.exitCode s.activePCB)).setNumChildren
    parent (s.pcb.numChildren parent - 1)).setReadyQ
      (s.readyQ ++ [parent])).setBlockedQ (s.blockedQ.erase parent)).setReporter
        parent (some s.activePCB)

namespace Distinct

variable {s : Kernel}

theorem exitReadyStore_eq (h : s.Distinct) : s.exitReadyStore =
    { s.exitScan with
      ppid := orphan s.pcb.ppid (s.pcb.pid s.activePCB) s.readyQ
      swapQ := if s.readyQ.any fun r => s.pcb.pid r == s.pcb.ppid s.activePCB
        then some .defunctQ else none } := by
  rw [exitReadyStore, exitReady_eq s.exitScan h.active_ready h.ready
    fun r hr hparent => h.acyclic r hparent (.inl hr)]
  rfl

theorem orphan_active (h : s.Distinct) :
    orphan s.pcb.ppid (s.pcb.pid s.activePCB) s.readyQ s.activePCB =
      s.pcb.ppid s.activePCB := by
  simp [orphan, h.active_ready]

theorem orphan_queues (h : s.Distinct) :
    orphan (orphan s.pcb.ppid (s.pcb.pid s.activePCB) s.readyQ)
        (s.pcb.pid s.activePCB) s.blockedQ =
      orphan s.pcb.ppid (s.pcb.pid s.activePCB) (s.readyQ ++ s.blockedQ) :=
  orphan_append _ h.pid_ne_zero _ _

theorem defunct_filter (h : s.Distinct) :
    (s.defunctQ.filter fun d => decide (orphan s.pcb.ppid
      (s.pcb.pid s.activePCB) (s.readyQ ++ s.blockedQ) d ≠
        s.pcb.pid s.activePCB)) =
      s.defunctQ.filter fun d =>
        decide (s.pcb.ppid d ≠ s.pcb.pid s.activePCB) := by
  refine List.filter_congr fun d hd => ?_
  simp [orphan, h.defunct d hd]

theorem exitBlocked_store (h : s.Distinct) {parent : PcbPtr}
    (hmem : parent ∈ s.blockedQ)
    (hparent : s.pcb.pid parent = s.pcb.ppid s.activePCB) :
    finalStore (exitBlockedBody s.pcb.pid s.activePCB
        (s.pcb.exitCode s.activePCB)) s.blockedQ s.exitReadyStore =
        { exitParent s.activePCB (s.pcb.exitCode s.activePCB) parent
            s.exitReadyStore with
          ppid := orphan s.exitReadyStore.ppid (s.pcb.pid s.activePCB)
            s.blockedQ } ∧
      kept (exitBlockedBody s.pcb.pid s.activePCB
        (s.pcb.exitCode s.activePCB)) s.blockedQ s.exitReadyStore =
        if s.exitReadyStore.blockedCode parent = Blocked.wait then
          s.blockedQ.erase parent
        else s.blockedQ := by
  have hppid : s.exitReadyStore.ppid =
      orphan s.pcb.ppid (s.pcb.pid s.activePCB) s.readyQ := by
    rw [h.exitReadyStore_eq]
  have hnot : parent ∉ s.readyQ := fun hr => h.disjoint parent hr hmem
  have hsame : orphan s.pcb.ppid (s.pcb.pid s.activePCB) s.readyQ parent =
      s.pcb.ppid parent := by
    simp [orphan, hnot]
  refine exitBlocked_parent s.exitReadyStore h.pid_ne_zero h.active_blocked
    h.blocked hmem ?_ ?_ fun b hb hpid => ?_
  · rw [hppid, h.orphan_active]
    exact hparent
  · rw [hppid, hsame]
    exact h.acyclic parent hparent (.inr hmem)
  · rw [hppid, h.orphan_active] at hpid
    exact h.pid_inj b parent (.inr hb) (.inr hmem) (hpid.trans hparent.symm)

/-- The parent is in neither queue. -/
theorem exitLoops_alone (h : s.Distinct)
    (hready : ∀ p ∈ s.readyQ, s.pcb.pid p ≠ s.pcb.ppid s.activePCB)
    (hblocked : ∀ p ∈ s.blockedQ, s.pcb.pid p ≠ s.pcb.ppid s.activePCB) :
    s.exitLoops = (none, s.orphaned) := by
  have hany : (s.readyQ.any fun r => s.pcb.pid r == s.pcb.ppid s.activePCB) =
      false := by
    simpa using hready
  have hstore := h.exitReadyStore_eq
  simp only [hany, Bool.false_eq_true, if_false] at hstore
  obtain ⟨hfinal, hkept⟩ := exitBlocked_eq s.pcb.pid
    (s.pcb.exitCode s.activePCB) s.exitReadyStore h.active_blocked
    (by simpa only [hstore, h.orphan_active] using hblocked)
  rw [exitLoops_eq, exitStore, hfinal, hkept, hstore]
  simp only [h.orphan_queues, h.defunct_filter]
  rfl

/-- The parent is found, but it is not asleep in `Wait`. -/
theorem exitLoops_defunct (h : s.Distinct) {parent : PcbPtr}
    (hparent : s.pcb.pid parent = s.pcb.ppid s.activePCB)
    (hmem : parent ∈ s.readyQ ∨
      parent ∈ s.blockedQ ∧ s.pcb.blockedCode parent ≠ Blocked.wait) :
    s.exitLoops = (some .defunctQ, s.orphaned) := by
  have hstore := h.exitReadyStore_eq
  have honly {p : PcbPtr} (hp : p ∈ s.readyQ ∨ p ∈ s.blockedQ)
      (hpid : s.pcb.pid p = s.pcb.ppid s.activePCB) : p = parent :=
    h.pid_inj p parent hp (hmem.imp id And.left) (hpid.trans hparent.symm)
  rcases hmem with hready | ⟨hblocked, hcode⟩
  · have hany : (s.readyQ.any fun r =>
        s.pcb.pid r == s.pcb.ppid s.activePCB) = true :=
      List.any_eq_true.2 ⟨parent, hready, beq_iff_eq.2 hparent⟩
    simp only [hany, if_true] at hstore
    obtain ⟨hfinal, hkept⟩ := exitBlocked_eq s.pcb.pid
      (s.pcb.exitCode s.activePCB) s.exitReadyStore h.active_blocked
      (fun b hb hpid => h.disjoint parent hready
        (honly (.inr hb) (by
          rw [hpid, hstore]
          exact h.orphan_active) ▸ hb))
    rw [exitLoops_eq, exitStore, hfinal, hkept, hstore]
    simp only [h.orphan_queues, h.defunct_filter]
    rfl
  · have hany : (s.readyQ.any fun r =>
        s.pcb.pid r == s.pcb.ppid s.activePCB) = false := by
      simp only [List.any_eq_false, beq_iff_eq]
      exact fun r hr hpid => h.disjoint r hr (honly (.inl hr) hpid ▸ hblocked)
    simp only [hany, Bool.false_eq_true, if_false] at hstore
    obtain ⟨hfinal, hkept⟩ := h.exitBlocked_store hblocked hparent
    simp only [hstore, exitScan, exitParent, if_neg hcode] at hfinal hkept
    rw [exitLoops_eq, exitStore, hstore]
    simp only [exitScan, hfinal, hkept, h.orphan_queues, h.defunct_filter]
    rfl

/-- The parent is asleep in `Wait`. -/
theorem exitLoops_reported (h : s.Distinct) {parent : PcbPtr}
    (hparent : s.pcb.pid parent = s.pcb.ppid s.activePCB)
    (hblocked : parent ∈ s.blockedQ)
    (hcode : s.pcb.blockedCode parent = Blocked.wait) :
    s.exitLoops = (none, s.orphaned.reported parent) := by
  have hstore := h.exitReadyStore_eq
  have hany : (s.readyQ.any fun r =>
      s.pcb.pid r == s.pcb.ppid s.activePCB) = false := by
    simp only [List.any_eq_false, beq_iff_eq]
    exact fun r hr hpid => h.disjoint r hr
      (h.pid_inj r parent (.inl hr) (.inr hblocked) (hpid.trans hparent.symm) ▸
        hblocked)
  simp only [hany, Bool.false_eq_true, if_false] at hstore
  obtain ⟨hfinal, hkept⟩ := h.exitBlocked_store hblocked hparent
  simp only [hstore, exitScan, exitParent, if_pos hcode] at hfinal hkept
  rw [exitLoops_eq, exitStore, hstore]
  simp only [exitScan, hfinal, hkept, h.orphan_queues, h.defunct_filter]
  rfl

end Distinct

end Kernel

end Yalnix
