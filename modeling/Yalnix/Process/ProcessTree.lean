import Yalnix.Process.Family

/-!
# The tree in every run

A step that ends a process keeps the tree consistent when `KernelExit` can find
the whole family in the queues it scans, and a fault when there is no family to
be found.
-/

namespace Yalnix

/-- The traps that end a process without `KernelExit`. -/
def Label.faults : Label → Bool
  | .trap _ .illegal => true
  | .trap _ .math => true
  | _ => false

/-- Orderly steps that leave no relative behind. -/
structure Familial (s : Kernel) (a : Label) : Prop extends Orderly s a where
  exits : (s.entered a).ends a ≠ none → s.FamilyQueued
  childless : a.faults = true → s.pcb.numChildren s.activePCB = 0

theorem Familial.entered {s : Kernel} {a : Label} (h : Familial s a) :
    Familial (s.entered a) a where
  toOrderly := h.toOrderly.entered
  exits := fun hends => by
    rw [Kernel.entered_entered] at hends
    have hfamily := h.exits hends
    cases a <;> exact hfamily
  childless := fun hfaults => by
    have hnone := h.childless hfaults
    cases a <;> exact hnone

namespace Kernel

variable {s r : Kernel}

theorem Recheck.kin {p : PcbPtr} (h : Recheck s p r) : r.kin = s.kin := by
  cases h <;> rfl

theorem Scanned.kin {limit : Nat} (h : Scanned limit s r) : r.kin = s.kin := by
  induction h with
  | done => rfl
  | empty _ _ ih => exact ih
  | @next _ s _ _ _ rest _ hcheck _ ih =>
      have hpop : (s.setBlockedQ rest).kin = s.kin := rfl
      exact ih.trans (hcheck.kin.trans hpop)

theorem WritesOn.kin {a : Label} {t : Nat} {s₁ : Kernel}
    (h : WritesOn s a t s₁) : s₁.kin = s.kin := by
  cases h <;> rfl

theorem writeDone_kin (t : Nat) : (s.writeDone t).kin = s.kin := by
  unfold writeDone
  split <;> rfl

theorem afterWake_kin (hs : Population s) {c : PipeCall}
    (hclean : s.WakeClean c) :
    (s.afterWake c.pipe (s.wake c)).kin = s.kin := by
  obtain ⟨moved, hmoves⟩ := wake_moves
    (fun p x hx => hs.pid_pos x (hs.pipes p x hx)) hclean
  show { s.kin with pid := (s.wake c).pid } = s.kin
  rw [hmoves.pid]
  rfl

end Kernel

namespace Tree

open Kernel

variable {s r : Kernel}

theorem effect {a : Label} (h : Tree s.kin) (hs : Population s)
    (hsettled : Settled s) (hguard : Familial s a)
    (hentered : s.entered a = s) (heffect : Effect s a r) : Tree r.kin := by
  have hkeep {k : Kin} (hk : k = s.kin) : Tree k := hk ▸ h
  cases heffect with
  | fork hne hpid =>
      exact h.newProcess hs hsettled.toPlacement hne hsettled.live hpid
  | forkFails hne hpid =>
      exact h.newProcess hs hsettled.toPlacement hne hsettled.live hpid
  | exit hne hends =>
      have hfamily := hguard.exits (by rw [hentered, hends]; nofun)
      exact h.died hs (hs.active_member hne) hsettled.live
        (exited_died hs hsettled h hne hfamily _)
  | fault hne hfault =>
      have hnone := hguard.childless (by rcases hfault with rfl | rfl <;> rfl)
      exact h.died hs (hs.active_member hne) hsettled.live
        (fault_died hs hsettled h hne hnone)
  | waitReaps hne _ hreap => exact h.reaped hs hne hreap
  | @waitSleeps _ queue _ _ hreap =>
      refine hkeep ((swapped_kin (by simp)).trans ?_)
      rw [(reapLoop_none hreap).1]
      rfl
  | delay => exact hkeep ((swapped_kin (by simp)).trans rfl)
  | clock => exact hkeep (swapped_kin (by simp))
  | clockResumes _ hscan => exact hkeep hscan.kin
  | ttyReadSleeps => exact hkeep ((swapped_kin (by simp)).trans rfl)
  | ttyWriteWaits => exact hkeep ((swapped_kin (by simp)).trans rfl)
  | ttyWriteSleeps _ _ _ _ hwrites =>
      exact hkeep ((swapped_kin (by simp)).trans hwrites.kin)
  | ttyWriteReturns hwrites =>
      exact hkeep ((writeDone_kin _).trans hwrites.kin)
  | ttyTransmitted _ _ hcheck => exact hkeep hcheck.kin
  | pipeSleeps => exact hkeep ((swapped_kin (by simp)).trans rfl)
  | pipeWakes hcompleting =>
      exact hkeep (afterWake_kin hs (hguard.clean _ hcompleting))
  | _ => exact hkeep rfl

theorem started {b : Boot} (hb : b.WellFormed) : Tree b.started.kin := by
  have hppid (c : Nat) (hc : c < 2) : b.started.pcb.ppid c = 0 := by
    have hcases : c = 0 ∨ c = 1 := by omega
    rcases hcases with rfl | rfl <;> rfl
  refine
    { count := fun p hpos hlt _ => ?_
      parent := fun c hlt _ hne => absurd (hppid c hlt) hne
      dead := nofun
      nodup := List.nodup_nil }
  have hone : p = 1 := Nat.le_antisymm (Nat.lt_succ_iff.1 hlt) hpos
  have hpid : b.started.pcb.pid 1 = b.progPid := rfl
  have hnone : b.started.kin.children 1 = ∅ := by
    refine Finset.eq_empty_of_forall_notMem fun c hc => ?_
    obtain ⟨hc, hparent, -⟩ := Kin.mem_children.1 hc
    have hparent' : b.started.pcb.ppid c = b.started.pcb.pid 1 := hparent
    rw [hppid c hc, hpid] at hparent'
    exact hb.progPid_ne_zero hparent'.symm
  rw [hone, hnone]
  rfl

end Tree

theorem Reachable.tree {guard : Kernel → Label → Prop}
    (himp : ∀ s a, guard s a → Familial s a) {s : Kernel}
    (h : Reachable guard s) (hlive : s.Live) :
    (Population s ∧ Settled s) ∧ Tree s.kin := by
  have hfamilial : Reachable Familial s := h.mono himp
  refine hfamilial.core_invariant
    (P := fun s => (Population s ∧ Settled s) ∧ Tree s.kin) ?_
    (fun _ _ h => h.entered) ?_ ?_ hlive
  · intro s s' hcore hs
    have hkin : s'.kin = s.kin := (congrArg Kernel.kin hcore :)
    exact ⟨⟨hs.1.1.of_core hcore, hs.1.2.of_core hcore⟩, hkin ▸ hs.2⟩
  · exact fun b hb => ⟨⟨Population.started hb, Settled.started hb⟩,
      Tree.started hb⟩
  · intro s a r hs henabled hentered _ hguard heffect
    exact ⟨⟨hs.1.1.effect hguard.clean heffect,
      hs.1.2.effect hs.1.1 henabled hguard.toOrderly heffect⟩,
      hs.2.effect hs.1.1 hs.1.2 hguard hentered heffect⟩

/-! ## The result -/

instance (s : Kernel) : Decidable s.FamilyQueued :=
  decidable_of_iff (∀ p ∈ List.range s.npcb, p ≠ s.idlePCB →
      s.history.terminated p = false →
        s.pcb.pid p = s.pcb.ppid s.activePCB ∨
          s.pcb.ppid p = s.pcb.pid s.activePCB →
            p ∈ s.readyQ ∨ p ∈ s.blockedQ)
    ⟨fun h p hp => h p (List.mem_range.2 hp),
      fun h p hp => h p (List.mem_range.1 hp)⟩

instance (s : Kernel) (a : Label) : Decidable (Familial s a) :=
  decidable_of_iff (Orderly s a ∧
      ((s.entered a).ends a ≠ none → s.FamilyQueued) ∧
      (a.faults = true → s.pcb.numChildren s.activePCB = 0))
    ⟨fun h => ⟨h.1, h.2.1, h.2.2⟩, fun h => ⟨h.toOrderly, h.exits, h.childless⟩⟩

/-- The counters and the parent links of a state. -/
structure Kernel.TreeConsistent (s : Kernel) : Prop where
  count : ∀ p < s.npcb, p ≠ s.idlePCB → s.history.terminated p = false →
    s.pcb.numChildren p = ((Finset.range s.npcb).filter fun c =>
      s.pcb.ppid c = s.pcb.pid p ∧
        (s.history.terminated c = false ∨ c ∈ s.defunctQ)).card
  parent : ∀ c < s.npcb, s.history.terminated c = false ∨ c ∈ s.defunctQ →
    s.pcb.ppid c ≠ 0 →
      ∃ q < s.npcb, s.pcb.pid q = s.pcb.ppid c ∧
        s.history.terminated q = false

/--
In a run of orderly steps in which every process that ends finds its relatives
in `ready_q` and `blocked_q`, and none with children faults, `num_children` is
the number of children at every return to user mode, and no process waits for a
parent that has terminated.
-/
theorem process_tree_consistent {s : Kernel} (h : Reachable Familial s)
    (huser : s.mode = .user) : s.TreeConsistent := by
  obtain ⟨⟨hs, -⟩, htree⟩ := h.tree (fun _ _ h => h) (.inl huser)
  refine ⟨fun p hlt hne hlive => ?_, fun c hlt hcounted hppid => ?_⟩
  · exact htree.count p (Nat.pos_of_ne_zero (hs.idle ▸ hne)) hlt hlive
  · obtain ⟨q, hq, hpid, hlive⟩ := htree.parent c hlt hcounted hppid
    exact ⟨q, Nat.lt_trans hq hlt, hpid, hlive⟩

/-- A process forks twice and one child exits while its parent is ready. -/
theorem process_tree_consistent_one_defunct :
    let labels := tick ++ [call (.fork 2), call (.fork 3)] ++ tick ++
      [call (.exit 7), .resume]
    let s := (Boot.small 30).kernelStart.run labels
    s.defunctQ = [2] ∧ s.pcb.numChildren 1 = 2 ∧ s.TreeConsistent := by
  intro labels s
  have hreach : Reachable Familial s :=
    reachable_small 30 labels (by decide +kernel) (by decide +kernel)
  have huser : s.mode = .user := by decide +kernel
  exact ⟨by decide +kernel, by decide +kernel,
    process_tree_consistent hreach huser⟩

/-- The parent is asleep in `TtyRead` when its child exits: `KernelExit` does
not find it, and the child stays on its count. -/
theorem child_of_reader_not_counted :
    ¬ ∀ s : Kernel, Reachable (fun _ _ => True) s → s.mode = .user →
      s.TreeConsistent := by
  intro hall
  let labels := tick ++ [call (.fork 2), call (.ttyRead 0 5), .resume,
    call (.exit 7), .resume]
  let s := (Boot.small 20).kernelStart.run labels
  have hreach : Reachable (fun _ _ => True) s :=
    reachable_small 20 labels (by decide +kernel) (by decide +kernel)
  have htree := hall s hreach (by decide +kernel)
  have hcount := htree.count 1 (by decide +kernel) (by decide +kernel)
    (by decide +kernel)
  revert hcount
  decide +kernel

end Yalnix
