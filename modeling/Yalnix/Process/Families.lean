import Yalnix.Process.Waiters

/-!
# Creators and parents

`KernelExit` and `KernelWait` look for relatives by pid.  In a run of process
and memory calls the links of the PCBs lead to the process that forked, as long
as it goes on.
-/

namespace Yalnix

namespace Kernel

variable {s r : Kernel} {a : Label} {p c : PcbPtr}

instance (s : Kernel) (p : PcbPtr) : Decidable (s.Member p) :=
  inferInstanceAs (Decidable (_ ∧ _))

/-- Idle never waits, and neither does a process that has ended. -/
def left (s : Kernel) (p : PcbPtr) : Bool :=
  decide (p = s.idlePCB) || s.history.terminated p

theorem left_eq_false : s.left p = false ↔
    p ≠ s.idlePCB ∧ s.history.terminated p = false := by
  simp [left]

/-- The parent link of `c` leads to its creator, or to idle when the creator
has left. -/
def LinkedTo (s : Kernel) (c : PcbPtr) : Prop :=
  (s.pcb.ppid c = s.pcb.pid (s.history.creator c) ∧
    s.Member (s.history.creator c) ∧ s.left (s.history.creator c) = false) ∨
  s.pcb.ppid c = 0 ∧ s.left (s.history.creator c) = true

def Linked (s : Kernel) : Prop :=
  ∀ c, s.Member c → s.kin.Counted c → s.LinkedTo c

namespace Linked

theorem of_core (h : s.Linked) (hcore : r.core = s.core) : r.Linked := by
  have hs : s.core.Linked := h
  rw [← hcore] at hs
  exact hs

theorem of_kin (h : s.Linked) (hkin : r.kin = s.kin)
    (hcreator : r.history.creator = s.history.creator)
    (hidle : r.idlePCB = s.idlePCB) : r.Linked := by
  have hnpcb : r.npcb = s.npcb := congrArg Kin.npcb hkin
  have hpid : r.pcb.pid = s.pcb.pid := congrArg Kin.pid hkin
  have hppid : r.pcb.ppid = s.pcb.ppid := congrArg Kin.ppid hkin
  have hterm : r.history.terminated = s.history.terminated :=
    congrArg Kin.terminated hkin
  intro c hc hcounted
  rw [hkin] at hcounted
  have hlink := h c (by simpa [Member, hnpcb] using hc) hcounted
  simpa [LinkedTo, Member, left, hnpcb, hpid, hppid, hterm, hcreator, hidle]
    using hlink

/-- Who names the process `p` as its parent was forked by it. -/
theorem creator_eq (h : s.Linked) (hpop : Population s) (hc : s.Member c)
    (hcounted : s.kin.Counted c) (hp : s.Member p)
    (hppid : s.pcb.ppid c = s.pcb.pid p) :
    s.history.creator c = p ∧ s.left p = false := by
  rcases h c hc hcounted with ⟨hlink, hmember, hlive⟩ | ⟨hzero, -⟩
  · have heq := hpop.pid_inj _ _ hmember hp (hlink.symm.trans hppid)
    exact ⟨heq, heq ▸ hlive⟩
  · exact absurd (hppid.symm.trans hzero) (hpop.pid_pos p hp)

/-- The children of a process that goes on name it as their parent. -/
theorem ppid_eq (h : s.Linked) (hc : s.Member c) (hcounted : s.kin.Counted c)
    (hlive : s.left (s.history.creator c) = false) :
    s.pcb.ppid c = s.pcb.pid (s.history.creator c) ∧
      s.Member (s.history.creator c) := by
  rcases h c hc hcounted with ⟨hlink, hmember, -⟩ | ⟨-, hleft⟩
  · exact ⟨hlink, hmember⟩
  · simp [hlive] at hleft

theorem forked (h : s.Linked) (hpop : Population s) (hsettled : Settled s)
    (hne : s.activePCB ≠ s.idlePCB) (pid : Nat) :
    ((s.forked pid).setMode .user).Linked := by
  intro c hc hcounted
  have hself : s.activePCB ≠ s.npcb := Nat.ne_of_lt hpop.active
  have hactive := hpop.active_member hne
  by_cases hnew : c = s.npcb
  · subst hnew
    refine .inl ⟨?_, ?_, ?_⟩
    · simp [Kernel.forked, newProcess, setMode, setKernelContext, setReadyQ,
        setPcb, hself]
    · have hcreator : ((s.forked pid).setMode .user).history.creator s.npcb =
          s.activePCB := by
        simp [Kernel.forked, newProcess, setMode, setKernelContext, setReadyQ,
          setPcb]
      rw [hcreator]
      exact ⟨hactive.1, Nat.lt_succ_of_lt hactive.2⟩
    · simpa [Kernel.forked, newProcess, setMode, setKernelContext, setReadyQ,
        setPcb, left] using ⟨hne, hsettled.live⟩
  · have hold : s.Member c :=
      ⟨hc.1, Nat.lt_of_le_of_ne (Nat.lt_succ_iff.1 hc.2) hnew⟩
    have hcreator : (s.forked pid).history.creator c = s.history.creator c :=
      upd_other hnew _ _
    have hppid : (s.forked pid).pcb.ppid c = s.pcb.ppid c := upd_other hnew _ _
    rcases h c hold hcounted with ⟨hlink, hmember, hlive⟩ | ⟨hzero, hleft⟩
    · have hpid : (s.forked pid).pcb.pid (s.history.creator c) =
          s.pcb.pid (s.history.creator c) :=
        upd_other (Nat.ne_of_lt hmember.2) _ _
      refine .inl ⟨?_, ?_, ?_⟩
      · show (s.forked pid).pcb.ppid c =
          (s.forked pid).pcb.pid ((s.forked pid).history.creator c)
        rw [hcreator, hppid, hpid, hlink]
      · show 0 < (s.forked pid).history.creator c ∧
          (s.forked pid).history.creator c < s.npcb + 1
        rw [hcreator]
        exact ⟨hmember.1, Nat.lt_succ_of_lt hmember.2⟩
      · show s.left ((s.forked pid).history.creator c) = false
        rwa [hcreator]
    · refine .inr ⟨hppid.trans hzero, ?_⟩
      show s.left ((s.forked pid).history.creator c) = true
      rwa [hcreator]

/-- The end of the running process: its children are handed to idle. -/
theorem died (h : s.Linked) (hpop : Population s) (hsettled : Settled s)
    (htree : Tree s.kin) (hne : s.activePCB ≠ s.idlePCB)
    (hdied : Tree.Died s r.kin)
    (hcreator : r.history.creator = s.history.creator)
    (hidle : r.idlePCB = s.idlePCB) : r.Linked := by
  have hactive := hpop.active_member hne
  have hself := htree.ppid_active_ne hpop hactive hsettled.live
  have hnpcb : r.npcb = s.npcb := hdied.npcb
  have hpid : r.pcb.pid = s.pcb.pid := hdied.pid
  have hterm : r.history.terminated =
      upd s.history.terminated s.activePCB true := hdied.terminated
  have hleft {p : PcbPtr} (hp : s.left p = true) : r.left p = true := by
    by_cases heq : p = s.activePCB <;>
      simp_all [left]
  have hstays {p : PcbPtr} (hp : p ≠ s.activePCB) : r.left p = s.left p := by
    simp [left, hidle, hterm, hp]
  have hgone : r.left s.activePCB = true := by simp [left, hterm]
  intro c hc hcounted
  have hmember : s.Member c := by simpa [Member, hnpcb] using hc
  have hrppid : r.pcb.ppid c = s.pcb.ppid c ∨
      s.pcb.ppid c = s.pcb.pid s.activePCB ∧ r.pcb.ppid c = 0 := hdied.ppid c
  unfold LinkedTo
  rw [hcreator, hpid]
  -- a process that is still counted was counted before
  have hold : s.kin.Counted c ∧
      (s.pcb.ppid c = s.pcb.pid s.activePCB → r.pcb.ppid c = 0) := by
    by_cases heq : c = s.activePCB
    · subst heq
      exact ⟨.inl hsettled.live, fun h => absurd h hself⟩
    · rcases hcounted with hlive | hmem
      · have hlive' : s.history.terminated c = false := by
          have hlive'' : r.history.terminated c = false := hlive
          rwa [hterm, upd_other heq] at hlive''
        exact ⟨.inl hlive', fun h => hdied.orphan c hmember.2 hlive' h⟩
      · have hd := (hdied.defunct c heq).1 hmem
        exact ⟨.inr hd.1, fun h => absurd h hd.2⟩
  rcases h c hmember hold.1 with ⟨hlink, hcmember, hlive⟩ | ⟨hzero, hcleft⟩
  · by_cases heq : s.history.creator c = s.activePCB
    · rw [heq] at hlink ⊢
      exact .inr ⟨hold.2 hlink, hgone⟩
    · have hother : s.pcb.ppid c ≠ s.pcb.pid s.activePCB := fun hsame =>
        heq (hpop.pid_inj _ _ hcmember hactive (hlink.symm.trans hsame))
      have hppid := hrppid.resolve_right fun h => hother h.1
      rw [hstays heq, hppid]
      exact .inl ⟨hlink, by simpa [Member, hnpcb] using hcmember, hlive⟩
  · have hppid : r.pcb.ppid c = 0 := by
      rcases hrppid with hsame | ⟨-, hr⟩
      · exact hsame.trans hzero
      · exact hr
    exact .inr ⟨hppid, hleft hcleft⟩

theorem exited_creator (code : Int) :
    (s.exited code).history.creator = s.history.creator := by
  unfold exited exitCleanup
  rw [swapped_history]
  simp only
  split
  · rw [exitLoops_eq]
    rfl
  · rfl

theorem exited_idle (code : Int) : (s.exited code).idlePCB = s.idlePCB := by
  unfold exited
  rw [swapped_idle]
  exact (s.exitCleanup_cleaned code).idle

theorem effect (h : s.Linked) (hpop : Population s) (hsettled : Settled s)
    (htree : Tree s.kin)
    (hfamily : s.activePCB ≠ s.idlePCB → s.FamilyQueued)
    (heffect : s.FamilyEffect r) : r.Linked := by
  cases heffect with
  | goesOn => exact h.of_kin rfl rfl rfl
  | fork _ hne => exact h.forked hpop hsettled hne _
  | @exit code _ hne =>
      exact h.died hpop hsettled htree hne
        (exited_died hpop hsettled htree hne (hfamily hne) code)
        (exited_creator code) (exited_idle code)
  | waitFails => exact h.of_kin rfl rfl rfl
  | waitReaps _ _ hreap =>
      refine fun c hc hcounted => h c hc (hcounted.imp id fun hmem => ?_)
      exact (reapLoop_some hreap).2.subset (List.mem_cons_of_mem _ hmem)
  | waitSleeps =>
      exact h.of_kin (swapped_kin nofun) (by rw [swapped_history]; rfl)
        swapped_idle
  | waitResumes => exact h.of_kin rfl rfl rfl
  | delay =>
      exact h.of_kin (swapped_kin nofun) (by rw [swapped_history]; rfl)
        swapped_idle
  | clock =>
      exact h.of_kin (swapped_kin nofun) (by rw [swapped_history])
        swapped_idle
  | clockResumes _ _ hscan =>
      exact h.of_kin hscan.kin (congrArg History.creator hscan.history)
        (Placement.scanned_same hscan).idle

theorem started (b : Boot) : b.started.Linked := by
  intro c hc _
  have hone : c = 1 := Nat.le_antisymm (Nat.lt_succ_iff.1 hc.2) hc.1
  subst hone
  exact .inr ⟨rfl, rfl⟩

end Linked

end Kernel

end Yalnix
