import Yalnix.Process.ExitLoops

/-!
# What Exit does to the queues

The three loops of `KernelExit` pop and re-add every entry once.  They keep the
order of each queue and divert at most one entry, a parent asleep in `Wait`.
-/

namespace Yalnix

namespace Kernel

/-- The entries of the three queues that the loops go over. -/
def exitQueues (s : Kernel) : List PcbPtr :=
  s.readyQ ++ s.blockedQ ++ s.defunctQ

/-- The queues hold each process at most once, with distinct pids that are not
`0`.  The exiting process is not idle, is not among them, has a parent or
children, and no process is both its parent and its child. -/
structure ExitContents (s : Kernel) : Prop where
  once : s.exitQueues.Nodup
  absent : s.activePCB ∉ s.exitQueues
  pid_ne_zero : ∀ p ∈ s.activePCB :: s.exitQueues, s.pcb.pid p ≠ 0
  pid_inj : ∀ p ∈ s.activePCB :: s.exitQueues,
    ∀ q ∈ s.activePCB :: s.exitQueues, s.pcb.pid p = s.pcb.pid q → p = q
  not_idle : s.pcb.pid s.activePCB ≠ s.pcb.pid s.idlePCB
  related : s.pcb.ppid s.activePCB ≠ 0 ∨ 0 < s.pcb.numChildren s.activePCB
  acyclic : ∀ p ∈ s.exitQueues, s.pcb.pid p = s.pcb.ppid s.activePCB →
    s.pcb.ppid p ≠ s.pcb.pid s.activePCB

/-- `b` is the parent of the active process. -/
def IsParent (s : Kernel) (b : PcbPtr) : Prop :=
  s.pcb.pid b = s.pcb.ppid s.activePCB

/-- `b` is the parent of the active process and asleep in `Wait`. -/
def AwaitsExit (s : Kernel) (b : PcbPtr) : Prop :=
  s.IsParent b ∧ s.pcb.blockedCode b = Blocked.wait

instance IsParent.decidable (s : Kernel) : DecidablePred s.IsParent :=
  fun b => inferInstanceAs (Decidable (s.pcb.pid b = s.pcb.ppid s.activePCB))

instance AwaitsExit.decidable (s : Kernel) : DecidablePred s.AwaitsExit :=
  fun b => inferInstanceAs
    (Decidable (s.IsParent b ∧ s.pcb.blockedCode b = Blocked.wait))

/-- The parent that is woken: an entry of `blocked_q`, or none. -/
def wokenParent (s : Kernel) : List PcbPtr :=
  s.blockedQ.filter fun b => decide (s.AwaitsExit b)

/-- `KernelExit` when its loops start. -/
def exitEntered (s : Kernel) (exitCode : Int) : Kernel :=
  (s.setExitCode s.activePCB exitCode).emit (.exit s.activePCB exitCode)

theorem swapProcess_defunctQ {s : Kernel} (k : KernelContext)
    (hother : s.pcb.pid s.activePCB ≠ s.pcb.pid s.idlePCB) :
    (s.swapProcess (some .defunctQ) k).defunctQ =
        s.defunctQ ++ [s.activePCB] ∧
      (s.swapProcess none k).defunctQ = s.defunctQ :=
  ⟨(congrArg Kernel.defunctQ (swapProcess_other _ k hother) :),
    (congrArg Kernel.defunctQ (swapProcess_other _ k hother) :)⟩

theorem ite_mem_singleton {V : Type*} (f value : PcbPtr → V) (a : PcbPtr) :
    (fun p => if p ∈ [a] then value p else f p) = upd f a (value a) := by
  funext p
  by_cases hp : p = a
  · subst hp
    simp
  · simp [hp]

namespace ExitContents

variable {s : Kernel}

theorem mem_ready {p : PcbPtr} (h : p ∈ s.readyQ) : p ∈ s.exitQueues :=
  List.mem_append_left _ (List.mem_append_left _ h)

theorem mem_blocked {p : PcbPtr} (h : p ∈ s.blockedQ) : p ∈ s.exitQueues :=
  List.mem_append_left _ (List.mem_append_right _ h)

theorem mem_defunct {p : PcbPtr} (h : p ∈ s.defunctQ) : p ∈ s.exitQueues :=
  List.mem_append_right _ h

theorem distinct (h : s.ExitContents) : s.Distinct := by
  have honce := h.once
  unfold exitQueues at honce
  rw [List.nodup_append, List.nodup_append] at honce
  obtain ⟨⟨hready, hblocked, hdisjoint⟩, -, hdefunct⟩ := honce
  have hmem {p : PcbPtr} (hp : p ∈ s.readyQ ∨ p ∈ s.blockedQ) :
      p ∈ s.activePCB :: s.exitQueues :=
    List.mem_cons_of_mem _ (hp.elim mem_ready mem_blocked)
  constructor
  · exact hready
  · exact hblocked
  · intro p hp hp'
    exact hdisjoint p hp p hp' rfl
  · exact fun hp => h.absent (mem_ready hp)
  · exact fun hp => h.absent (mem_blocked hp)
  · exact h.pid_ne_zero _ List.mem_cons_self
  · intro p q hp hq hpid
    exact h.pid_inj p (hmem hp) q (hmem hq) hpid
  · intro p hpid hp
    exact h.acyclic p (hp.elim mem_ready mem_blocked) hpid
  · intro d hd
    constructor
    · intro hd'
      exact hdefunct d (List.mem_append_left _ hd') d hd rfl
    · intro hd'
      exact hdefunct d (List.mem_append_right _ hd') d hd rfl

/-- The exit code is all that is stored before the loops. -/
theorem entered (h : s.ExitContents) (exitCode : Int) :
    (s.exitEntered exitCode).ExitContents :=
  ⟨h.once, h.absent, h.pid_ne_zero, h.pid_inj, h.not_idle, h.related,
    h.acyclic⟩

/-- The parent is in one place at most. -/
theorem parent_unique (h : s.ExitContents) {p q : PcbPtr}
    (hp : p ∈ s.readyQ ∨ p ∈ s.blockedQ) (hparent : s.IsParent p)
    (hq : q ∈ s.readyQ ∨ q ∈ s.blockedQ) (hparent' : s.IsParent q) : p = q :=
  h.distinct.pid_inj p q hp hq (hparent.trans hparent'.symm)

theorem wokenParent_nil (hnone : ∀ b ∈ s.blockedQ, ¬ s.AwaitsExit b) :
    s.wokenParent = [] := by
  apply List.filter_eq_nil_iff.2
  intro b hb
  rw [decide_eq_true_eq]
  exact hnone b hb

theorem wokenParent_eq (h : s.ExitContents) {parent : PcbPtr}
    (hmem : parent ∈ s.blockedQ) (hawaits : s.AwaitsExit parent) :
    s.wokenParent = [parent] ∧
      (s.blockedQ.filter fun b => !decide (s.AwaitsExit b)) =
        s.blockedQ.erase parent := by
  have hiff (b : PcbPtr) (hb : b ∈ s.blockedQ) :
      s.AwaitsExit b ↔ b = parent := by
    constructor
    · intro hb'
      exact h.parent_unique (.inr hb) hb'.1 (.inr hmem) hawaits.1
    · rintro rfl
      exact hawaits
  constructor
  · unfold wokenParent
    have hfilter : (s.blockedQ.filter fun b => decide (s.AwaitsExit b)) =
        s.blockedQ.filter fun b => b == parent := by
      apply List.filter_congr
      intro b hb
      rw [Bool.eq_iff_iff, decide_eq_true_eq, beq_iff_eq]
      exact hiff b hb
    rw [hfilter, List.filter_beq, h.distinct.blocked.count, if_pos hmem]
    rfl
  · rw [h.distinct.blocked.erase_eq_filter]
    apply List.filter_congr
    intro b hb
    rw [Bool.eq_iff_iff]
    simp only [Bool.not_eq_true', decide_eq_false_iff_not, bne_iff_ne]
    exact not_congr (hiff b hb)

/-- The result of the loops, in closed form. -/
theorem exitLoops_eq (h : s.ExitContents) (exitCode : Int) :
    ∃ swapQ, (s.exitEntered exitCode).exitLoops =
        (swapQ,
          { s.exitEntered exitCode with
            readyQ := s.readyQ ++ s.wokenParent
            blockedQ := s.blockedQ.filter fun b => !decide (s.AwaitsExit b)
            defunctQ := s.defunctQ.filter fun d =>
              decide (s.pcb.ppid d ≠ s.pcb.pid s.activePCB)
            pcb :=
              { s.pcb with
                exitCode := upd s.pcb.exitCode s.activePCB exitCode
                ppid := fun p =>
                  if p ∈ s.readyQ ++ s.blockedQ ∧
                      s.pcb.ppid p = s.pcb.pid s.activePCB then 0
                  else s.pcb.ppid p
                blockedCode := fun p =>
                  if p ∈ s.wokenParent then exitCode else s.pcb.blockedCode p
                numChildren := fun p =>
                  if p ∈ s.wokenParent then s.pcb.numChildren p - 1
                  else s.pcb.numChildren p }
            history :=
              { (s.exitEntered exitCode).history with
                reporter := fun p =>
                  if p ∈ s.wokenParent then some s.activePCB
                  else s.history.reporter p } }) ∧
      (swapQ = some .defunctQ ∨ swapQ = none) ∧
      (swapQ = some .defunctQ ↔ ∃ parent, s.IsParent parent ∧
        (parent ∈ s.readyQ ∨
          parent ∈ s.blockedQ ∧ ¬ s.AwaitsExit parent)) := by
  have hdistinct := (h.entered exitCode).distinct
  by_cases hwaits : ∃ parent ∈ s.blockedQ, s.AwaitsExit parent
  · obtain ⟨parent, hmem, hawaits⟩ := hwaits
    obtain ⟨hwoken, hrest⟩ := h.wokenParent_eq hmem hawaits
    refine ⟨none, ?_, .inr rfl, ?_⟩
    · rw [hdistinct.exitLoops_reported hawaits.1 hmem hawaits.2, hwoken, hrest]
      have hcode : (s.exitEntered exitCode).orphaned.pcb.exitCode
          (s.exitEntered exitCode).orphaned.activePCB = exitCode := upd_same _ _ _
      unfold reported
      rw [hcode]
      simp only [ite_mem_singleton]
      rfl
    · apply iff_of_false (Option.some_ne_none QueueRef.defunctQ).symm
      rintro ⟨p, hparent, hp⟩
      have heq : p = parent := h.parent_unique (hp.imp id And.left) hparent
        (.inr hmem) hawaits.1
      subst heq
      rcases hp with hready | ⟨_, hnot⟩
      · exact hdistinct.disjoint p hready hmem
      · exact hnot hawaits
  · have hnone (b : PcbPtr) (hb : b ∈ s.blockedQ) : ¬ s.AwaitsExit b :=
      fun hb' => hwaits ⟨b, hb, hb'⟩
    have hwoken := wokenParent_nil hnone
    have hrest : (s.blockedQ.filter fun b => !decide (s.AwaitsExit b)) =
        s.blockedQ := by
      apply List.filter_eq_self.2
      intro b hb
      simpa using hnone b hb
    by_cases hfound : ∃ parent, s.IsParent parent ∧
        (parent ∈ s.readyQ ∨ parent ∈ s.blockedQ)
    · obtain ⟨parent, hparent, hmem⟩ := hfound
      have hmem' : parent ∈ s.readyQ ∨
          parent ∈ s.blockedQ ∧ s.pcb.blockedCode parent ≠ Blocked.wait :=
        hmem.imp id fun hb => ⟨hb, fun hcode => hnone parent hb
          ⟨hparent, hcode⟩⟩
      refine ⟨some .defunctQ, ?_, .inl rfl, iff_of_true rfl
        ⟨parent, hparent, hmem.imp id fun hb => ⟨hb, hnone parent hb⟩⟩⟩
      rw [hdistinct.exitLoops_defunct hparent hmem', hwoken, hrest]
      simp only [List.append_nil, List.not_mem_nil, if_false]
      rfl
    · refine ⟨none, ?_, .inr rfl,
        iff_of_false (Option.some_ne_none QueueRef.defunctQ).symm ?_⟩
      · rw [hdistinct.exitLoops_alone
          (fun p hp hpid => hfound ⟨p, hpid, .inl hp⟩)
          (fun p hp hpid => hfound ⟨p, hpid, .inr hp⟩), hwoken, hrest]
        simp only [List.append_nil, List.not_mem_nil, if_false]
        rfl
      · rintro ⟨p, hparent, hp⟩
        exact hfound ⟨p, hparent, hp.imp id And.left⟩

/-- The exiting process is only added to `defunct_q` by the final switch. -/
theorem mem_defunctQ (h : s.ExitContents) (exitCode : Int) :
    s.activePCB ∈ (s.kernelExit exitCode).defunctQ ↔
      ∃ parent, s.IsParent parent ∧
        (parent ∈ s.readyQ ∨
          parent ∈ s.blockedQ ∧ ¬ s.AwaitsExit parent) := by
  obtain ⟨swapQ, hloops, hcases, hiff⟩ := h.exitLoops_eq exitCode
  rw [← hiff]
  have hrelated : ((s.setExitCode s.activePCB exitCode).emit
      (.exit s.activePCB exitCode)).pcb.ppid s.activePCB ≠ 0 ∨
        0 < ((s.setExitCode s.activePCB exitCode).emit
          (.exit s.activePCB exitCode)).pcb.numChildren s.activePCB := h.related
  have hnot : s.activePCB ∉ s.defunctQ.filter fun d =>
      decide (s.pcb.ppid d ≠ s.pcb.pid s.activePCB) := fun hmem =>
    h.absent (mem_defunct (List.mem_of_mem_filter hmem))
  have hexit : (s.kernelExit exitCode).defunctQ =
      if swapQ = some .defunctQ then
        (s.defunctQ.filter fun d =>
          decide (s.pcb.ppid d ≠ s.pcb.pid s.activePCB)) ++ [s.activePCB]
      else s.defunctQ.filter fun d =>
        decide (s.pcb.ppid d ≠ s.pcb.pid s.activePCB) := by
    have hstart : s.kernelExit exitCode =
        (let loops := (s.exitEntered exitCode).exitLoops
        ((loops.2.setPfnList (freeAddrSpace (loops.2.pcb.userPageTable
          s.activePCB) (loops.2.pcb.kernelStackPt s.activePCB)
            loops.2.pfnList)).setTerminated s.activePCB).swapProcess loops.1
              .kernelExit) := by
      unfold kernelExit
      simp only
      rw [if_pos hrelated]
      rfl
    have hswap : (s.exitEntered exitCode).exitLoops.1 = swapQ := by
      rw [hloops]
    have hdefunct : (s.exitEntered exitCode).exitLoops.2.defunctQ =
        s.defunctQ.filter fun d =>
          decide (s.pcb.ppid d ≠ s.pcb.pid s.activePCB) := by
      rw [hloops]
    have hactive : (s.exitEntered exitCode).exitLoops.2.activePCB =
        s.activePCB := by
      rw [hloops]
      rfl
    have hother : (s.exitEntered exitCode).exitLoops.2.pcb.pid
        (s.exitEntered exitCode).exitLoops.2.activePCB ≠
          (s.exitEntered exitCode).exitLoops.2.pcb.pid
            (s.exitEntered exitCode).exitLoops.2.idlePCB := by
      rw [hloops]
      exact h.not_idle
    rw [hstart, ← hdefunct, ← hactive]
    generalize (s.exitEntered exitCode).exitLoops = loops at hswap hother ⊢
    obtain ⟨q, t⟩ := loops
    simp only at hswap hother ⊢
    subst hswap
    let freed := (t.setPfnList (freeAddrSpace (t.pcb.userPageTable t.activePCB)
      (t.pcb.kernelStackPt t.activePCB) t.pfnList)).setTerminated t.activePCB
    have hfreed : freed.pcb.pid freed.activePCB ≠
        freed.pcb.pid freed.idlePCB := hother
    obtain ⟨hmoved, hdropped⟩ := swapProcess_defunctQ .kernelExit hfreed
    rcases hcases with rfl | rfl
    · rw [if_pos rfl]
      exact hmoved
    · rw [if_neg nofun]
      exact hdropped
  rw [hexit]
  split
  · rename_i hswap
    apply iff_of_true
    · exact List.mem_append_right _ List.mem_cons_self
    · exact hswap
  · rename_i hswap
    exact iff_of_false hnot hswap

end ExitContents

end Kernel

open Kernel

/--
What the three loops of `KernelExit` leave: each queue in its old order, the
woken parent moved from `blocked_q` to the end of `ready_q`, the children handed
to idle or dropped, and no other field changed.  The process itself goes to
`defunct_q` exactly when its parent is ready, or blocked but not in `Wait`.
-/
theorem exit_rearranges_queues {s : Kernel} (h : s.ExitContents)
    (exitCode : Int) :
    (s.exitEntered exitCode).exitLoops.2.readyQ = s.readyQ ++ s.wokenParent ∧
      (s.exitEntered exitCode).exitLoops.2.blockedQ =
        (s.blockedQ.filter fun b => !decide (s.AwaitsExit b)) ∧
      (s.exitEntered exitCode).exitLoops.2.defunctQ =
        (s.defunctQ.filter fun d =>
          decide (s.pcb.ppid d ≠ s.pcb.pid s.activePCB)) ∧
      (s.exitEntered exitCode).exitLoops.2.pcb =
        { s.pcb with
          exitCode := upd s.pcb.exitCode s.activePCB exitCode
          ppid := fun p =>
            if p ∈ s.readyQ ++ s.blockedQ ∧
                s.pcb.ppid p = s.pcb.pid s.activePCB then 0
            else s.pcb.ppid p
          blockedCode := fun p =>
            if p ∈ s.wokenParent then exitCode else s.pcb.blockedCode p
          numChildren := fun p =>
            if p ∈ s.wokenParent then s.pcb.numChildren p - 1
            else s.pcb.numChildren p } ∧
      s.wokenParent.length ≤ 1 ∧
      (s.activePCB ∈ (s.kernelExit exitCode).defunctQ ↔
        ∃ parent, s.IsParent parent ∧
          (parent ∈ s.readyQ ∨
            parent ∈ s.blockedQ ∧ ¬ s.AwaitsExit parent)) := by
  obtain ⟨swapQ, hloops, -, -⟩ := h.exitLoops_eq exitCode
  have hone : s.wokenParent.length ≤ 1 := by
    by_cases hwaits : ∃ parent ∈ s.blockedQ, s.AwaitsExit parent
    · obtain ⟨parent, hmem, hawaits⟩ := hwaits
      rw [(h.wokenParent_eq hmem hawaits).1]
      exact Nat.le_refl _
    · rw [ExitContents.wokenParent_nil fun b hb hb' => hwaits ⟨b, hb, hb'⟩]
      exact Nat.zero_le _
  rw [hloops]
  exact ⟨rfl, rfl, rfl, rfl, hone, h.mem_defunctQ exitCode⟩

/-- A process exits while its parent sleeps in `Wait`. -/
def awaitedExit : Kernel :=
  (Boot.small 20).kernelStart.run
    (tick ++ [call (.fork 2), call (.wait true), .resume])

instance Kernel.ExitContents.decidable (s : Kernel) : Decidable s.ExitContents :=
  decidable_of_iff
    (s.exitQueues.Nodup ∧ s.activePCB ∉ s.exitQueues ∧
      (∀ p ∈ s.activePCB :: s.exitQueues, s.pcb.pid p ≠ 0) ∧
      (∀ p ∈ s.activePCB :: s.exitQueues,
        ∀ q ∈ s.activePCB :: s.exitQueues, s.pcb.pid p = s.pcb.pid q → p = q) ∧
      s.pcb.pid s.activePCB ≠ s.pcb.pid s.idlePCB ∧
      (s.pcb.ppid s.activePCB ≠ 0 ∨ 0 < s.pcb.numChildren s.activePCB) ∧
      ∀ p ∈ s.exitQueues, s.pcb.pid p = s.pcb.ppid s.activePCB →
        s.pcb.ppid p ≠ s.pcb.pid s.activePCB)
    ⟨fun ⟨h₁, h₂, h₃, h₄, h₅, h₆, h₇⟩ => ⟨h₁, h₂, h₃, h₄, h₅, h₆, h₇⟩,
      fun h => ⟨h.once, h.absent, h.pid_ne_zero, h.pid_inj, h.not_idle,
        h.related, h.acyclic⟩⟩

theorem exit_rearranges_queues_awaited :
    awaitedExit.wokenParent = [1] ∧
      (awaitedExit.exitEntered 7).exitLoops.2.readyQ = [1] ∧
      (awaitedExit.exitEntered 7).exitLoops.2.blockedQ = [] := by
  have h : awaitedExit.ExitContents := by decide +kernel
  obtain ⟨hready, hblocked, -⟩ := exit_rearranges_queues h 7
  have hwoken : awaitedExit.wokenParent = [1] := by decide +kernel
  refine ⟨hwoken, ?_, ?_⟩
  · rw [hready, hwoken]
    decide +kernel
  · rw [hblocked]
    decide +kernel

end Yalnix
