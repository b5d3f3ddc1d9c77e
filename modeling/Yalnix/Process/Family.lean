import Mathlib.Data.Finset.Card
import Yalnix.Process.OnePlace

/-!
# The process tree

`Kin` is the part of the state that parents and children depend on.  Most steps
leave it alone; what `Fork`, `Wait`, `Exit` and the faults do to it is worked
out below.
-/

namespace Yalnix

structure Kin where
  npcb : Nat
  pid : PcbPtr → Nat
  ppid : PcbPtr → Nat
  numChildren : PcbPtr → Int
  terminated : PcbPtr → Bool
  defunctQ : List PcbPtr

namespace Kin

/-- A process that has not terminated, or waits to be reaped. -/
def Counted (f : Kin) (c : PcbPtr) : Prop :=
  f.terminated c = false ∨ c ∈ f.defunctQ

instance (f : Kin) (c : PcbPtr) : Decidable (f.Counted c) :=
  inferInstanceAs (Decidable (_ ∨ _))

/-- The counted PCBs that name `p` as their parent. -/
def children (f : Kin) (p : PcbPtr) : Finset PcbPtr :=
  (Finset.range f.npcb).filter fun c => f.ppid c = f.pid p ∧ f.Counted c

theorem mem_children {f : Kin} {p c : PcbPtr} :
    c ∈ f.children p ↔ c < f.npcb ∧ f.ppid c = f.pid p ∧ f.Counted c := by
  simp [children]

end Kin

/-- The counters agree with the parent links, and a link leads to an older
process that has not terminated. -/
structure Tree (f : Kin) : Prop where
  count : ∀ p, 0 < p → p < f.npcb → f.terminated p = false →
    f.numChildren p = (f.children p).card
  parent : ∀ c, c < f.npcb → f.Counted c → f.ppid c ≠ 0 →
    ∃ q < c, f.pid q = f.ppid c ∧ f.terminated q = false
  dead : ∀ d ∈ f.defunctQ, f.terminated d = true
  nodup : f.defunctQ.Nodup

def Kernel.kin (s : Kernel) : Kin :=
  { npcb := s.npcb
    pid := s.pcb.pid
    ppid := s.pcb.ppid
    numChildren := s.pcb.numChildren
    terminated := s.history.terminated
    defunctQ := s.defunctQ }

namespace Tree

open Kernel

variable {s r : Kernel}

/-- The parent link of a counted process is a pid that was handed out. -/
theorem ppid_used (h : Tree s.kin) (hs : Population s) {c : PcbPtr}
    (hc : c < s.npcb) (hcounted : s.kin.Counted c) :
    s.pcb.ppid c ∈ s.history.usedPids := by
  by_cases hzero : s.pcb.ppid c = 0
  · rw [hzero]
    exact hs.zero_used
  · obtain ⟨q, hq, hpid, -⟩ := h.parent c hc hcounted hzero
    have hpid' : s.pcb.pid q = s.pcb.ppid c := hpid
    rw [← hpid']
    by_cases hq0 : q = 0
    · rw [hq0, hs.idle_pid]
      exact hs.zero_used
    · exact hs.used q ⟨Nat.pos_of_ne_zero hq0, Nat.lt_trans hq hc⟩

/-- A process with the pid that a counted process names as its parent. -/
theorem parent_unique (h : Tree s.kin) (hs : Population s) {c p : PcbPtr}
    (hc : c < s.npcb) (hcounted : s.kin.Counted c) (hp : s.Member p)
    (hpid : s.pcb.pid p = s.pcb.ppid c) :
    p < c ∧ s.history.terminated p = false := by
  have hne : s.pcb.ppid c ≠ 0 := hpid ▸ hs.pid_pos p hp
  obtain ⟨q, hq, hpid', hlive⟩ := h.parent c hc hcounted hne
  have hpid'' : s.pcb.pid q = s.pcb.ppid c := hpid'
  have hq0 : q ≠ 0 := fun heq => by
    rw [heq, hs.idle_pid] at hpid''
    exact hne hpid''.symm
  have heq := hs.pid_inj p q hp
    ⟨Nat.pos_of_ne_zero hq0, Nat.lt_trans hq hc⟩ (hpid.trans hpid''.symm)
  rw [heq]
  exact ⟨hq, hlive⟩

/-! ## Fork -/

section Fork

variable {pid : Nat}

theorem newProcess_mem (hplaced : Placement s) {p c : PcbPtr}
    (hp : p ≠ s.npcb) :
    c ∈ (s.newProcess (some s.activePCB) pid).kin.children p ↔
      c ∈ s.kin.children p ∨
        c = s.npcb ∧ s.pcb.pid s.activePCB = s.pcb.pid p := by
  rw [Kin.mem_children, Kin.mem_children]
  have hpid : (s.newProcess (some s.activePCB) pid).kin.pid p = s.pcb.pid p :=
    upd_other hp _ _
  rw [hpid]
  by_cases hc : c = s.npcb
  · subst hc
    have hppid : (s.newProcess (some s.activePCB) pid).kin.ppid s.npcb =
        s.pcb.pid s.activePCB := upd_same _ _ _
    have hcounted : (s.newProcess (some s.activePCB) pid).kin.Counted s.npcb :=
      .inl (hplaced.fresh s.npcb (Nat.le_refl _))
    have hnot : ¬ s.npcb < s.kin.npcb := Nat.lt_irrefl _
    rw [hppid]
    exact ⟨fun h => .inr ⟨rfl, h.2.1⟩, fun h => ⟨Nat.lt_succ_self _,
      (h.resolve_left fun h => hnot h.1).2, hcounted⟩⟩
  · have hppid : (s.newProcess (some s.activePCB) pid).kin.ppid c =
        s.pcb.ppid c := upd_other hc _ _
    rw [hppid]
    constructor
    · rintro ⟨hlt, hparent, hcounted⟩
      exact .inl ⟨Nat.lt_of_le_of_ne (Nat.lt_succ_iff.1 hlt) hc, hparent,
        hcounted⟩
    · rintro (⟨hlt, hparent, hcounted⟩ | ⟨heq, -⟩)
      · exact ⟨Nat.lt_succ_of_lt hlt, hparent, hcounted⟩
      · exact absurd heq hc

/-- A child that was just made has no children. -/
theorem newProcess_childless (h : Tree s.kin) (hs : Population s)
    (hfresh : pid ∉ s.history.usedPids)
    (hactive : s.Member s.activePCB) :
    (s.newProcess (some s.activePCB) pid).kin.children s.npcb = ∅ := by
  refine Finset.eq_empty_of_forall_notMem fun c hc => ?_
  obtain ⟨hlt, hppid, hcounted⟩ := Kin.mem_children.1 hc
  have hpid : (s.newProcess (some s.activePCB) pid).kin.pid s.npcb = pid :=
    upd_same _ _ _
  rw [hpid] at hppid
  by_cases hnew : c = s.npcb
  · subst hnew
    have hppid' : (s.newProcess (some s.activePCB) pid).kin.ppid s.npcb =
        s.pcb.pid s.activePCB := upd_same _ _ _
    rw [hppid'] at hppid
    exact hfresh (hppid ▸ hs.used _ hactive)
  · have hppid' : (s.newProcess (some s.activePCB) pid).kin.ppid c =
        s.pcb.ppid c := upd_other hnew _ _
    rw [hppid'] at hppid
    have hlt' : c < s.npcb := Nat.lt_of_le_of_ne (Nat.lt_succ_iff.1 hlt) hnew
    exact hfresh (hppid ▸ h.ppid_used hs hlt' hcounted)

theorem newProcess (h : Tree s.kin) (hs : Population s) (hplaced : Placement s)
    (hne : s.activePCB ≠ s.idlePCB) (hlive : s.history.terminated s.activePCB =
      false) (hfresh : pid ∉ s.history.usedPids) :
    Tree (s.newProcess (some s.activePCB) pid).kin := by
  have hactive := hs.active_member hne
  have hself : s.activePCB ≠ s.npcb := Nat.ne_of_lt hs.active
  have hcount (p : PcbPtr) :
      (s.newProcess (some s.activePCB) pid).kin.numChildren p =
        if p = s.activePCB then s.pcb.numChildren s.activePCB + 1
        else if p = s.npcb then 0 else s.pcb.numChildren p := by
    show upd (upd s.pcb.numChildren s.npcb 0) s.activePCB
      (upd s.pcb.numChildren s.npcb 0 s.activePCB + 1) p = _
    rw [upd_other hself, upd_apply, upd_apply]
  refine
    { count := fun p hpos hlt hp => ?_
      parent := fun c hlt hc hppid => ?_
      dead := h.dead
      nodup := h.nodup }
  · rw [hcount]
    by_cases hnew : p = s.npcb
    · subst hnew
      rw [if_neg hself.symm, if_pos rfl,
        h.newProcess_childless hs hfresh hactive]
      rfl
    · have hlt' : p < s.npcb := Nat.lt_of_le_of_ne (Nat.lt_succ_iff.1 hlt) hnew
      have hold : s.pcb.numChildren p = (s.kin.children p).card :=
        h.count p hpos hlt' hp
      by_cases heq : p = s.activePCB
      · subst heq
        have hinsert : (s.newProcess (some s.activePCB) pid).kin.children
            s.activePCB = insert s.npcb (s.kin.children s.activePCB) := by
          ext c
          rw [newProcess_mem hplaced hnew, Finset.mem_insert]
          simp [or_comm]
        have hnot : s.npcb ∉ s.kin.children s.activePCB := fun hmem =>
          Nat.lt_irrefl _ (Kin.mem_children.1 hmem).1
        rw [if_pos rfl, hinsert, Finset.card_insert_of_notMem hnot, hold]
        rfl
      · have hsame : (s.newProcess (some s.activePCB) pid).kin.children p =
            s.kin.children p := by
          ext c
          have hpid : s.pcb.pid s.activePCB ≠ s.pcb.pid p := fun hpid =>
            heq (hs.pid_inj _ _ hactive ⟨hpos, hlt'⟩ hpid).symm
          rw [newProcess_mem hplaced hnew]
          simp [hpid]
        rw [if_neg heq, if_neg hnew, hsame, hold]
  · by_cases hnew : c = s.npcb
    · subst hnew
      refine ⟨s.activePCB, hs.active, ?_, hlive⟩
      exact (upd_other hself _ _).trans (upd_same _ _ _).symm
    · have hlt' : c < s.npcb := Nat.lt_of_le_of_ne (Nat.lt_succ_iff.1 hlt) hnew
      have hppid' : (s.newProcess (some s.activePCB) pid).kin.ppid c =
          s.pcb.ppid c := upd_other hnew _ _
      rw [hppid'] at hppid ⊢
      obtain ⟨q, hq, hpid, hq'⟩ := h.parent c hlt' hc hppid
      refine ⟨q, hq, ?_, hq'⟩
      exact (upd_other (Nat.ne_of_lt (Nat.lt_trans hq hlt')) _ _).trans hpid

end Fork

/-! ## Wait -/

theorem reaped (h : Tree s.kin) (hs : Population s)
    (hne : s.activePCB ≠ s.idlePCB) {child : PcbPtr} {queue : List PcbPtr}
    (hreap : reapLoop (fun d => decide (s.pcb.ppid d = s.pcb.pid s.activePCB))
      s.defunctQ.length s.defunctQ = (some child, queue)) :
    Tree ((s.setDefunctQ queue).setNumChildren s.activePCB
      (s.pcb.numChildren s.activePCB - 1)).kin := by
  obtain ⟨hisChild, hperm⟩ := reapLoop_some hreap
  have hppid : s.pcb.ppid child = s.pcb.pid s.activePCB := by
    simpa using hisChild
  have hactive := hs.active_member hne
  have hnodup : (child :: queue).Nodup := hperm.nodup_iff.2 h.nodup
  have hmem : child ∈ s.defunctQ := hperm.subset List.mem_cons_self
  have hdead : s.history.terminated child = true := h.dead child hmem
  have hqueue (d : PcbPtr) : d ∈ queue ↔ d ∈ s.defunctQ ∧ d ≠ child := by
    rw [← hperm.mem_iff, List.mem_cons]
    constructor
    · exact fun hd => ⟨.inr hd, fun heq =>
        (List.nodup_cons.1 hnodup).1 (heq ▸ hd)⟩
    · exact fun hd => hd.1.resolve_left hd.2
  have hcounted (c : PcbPtr) : ((s.setDefunctQ queue).setNumChildren
      s.activePCB (s.pcb.numChildren s.activePCB - 1)).kin.Counted c ↔
        s.kin.Counted c ∧ c ≠ child := by
    show s.history.terminated c = false ∨ c ∈ queue ↔
      (s.history.terminated c = false ∨ c ∈ s.defunctQ) ∧ c ≠ child
    rw [hqueue]
    by_cases hc : c = child
    · subst hc
      simp [hdead]
    · simp [hc]
  have hchildren (p : PcbPtr) : ((s.setDefunctQ queue).setNumChildren
      s.activePCB (s.pcb.numChildren s.activePCB - 1)).kin.children p =
        (s.kin.children p).erase child := by
    ext c
    rw [Finset.mem_erase, Kin.mem_children, Kin.mem_children, hcounted]
    constructor
    · exact fun hc => ⟨hc.2.2.2, hc.1, hc.2.1, hc.2.2.1⟩
    · exact fun hc => ⟨hc.2.1, hc.2.2.1, hc.2.2.2, hc.1⟩
  refine
    { count := fun p hpos hlt hp => ?_
      parent := fun c hlt hc hc' => h.parent c hlt ((hcounted c).1 hc).1 hc'
      dead := fun d hd => h.dead d ((hqueue d).1 hd).1
      nodup := (List.nodup_cons.1 hnodup).2 }
  have hold : s.pcb.numChildren p = (s.kin.children p).card :=
    h.count p hpos hlt hp
  rw [hchildren]
  show upd s.pcb.numChildren s.activePCB _ p = _
  by_cases heq : p = s.activePCB
  · subst heq
    have hin : child ∈ s.kin.children s.activePCB :=
      Kin.mem_children.2 ⟨(hs.defunct child hmem).2, hppid, .inr hmem⟩
    have hpos := Finset.card_pos.2 ⟨child, hin⟩
    rw [upd_same, Finset.card_erase_of_mem hin, hold]
    omega
  · have hnot : child ∉ s.kin.children p := fun hin => by
      have hpid : s.pcb.ppid child = s.pcb.pid p := (Kin.mem_children.1 hin).2.1
      exact heq (hs.pid_inj _ _ ⟨hpos, hlt⟩ hactive
        (hpid.symm.trans hppid))
    rw [upd_other heq, Finset.erase_eq_of_notMem hnot]
    exact hold

/-! ## The end of a process -/

section Death

variable {f : Kin}

/-- What the end of the running process has to do to the tree: hand on or drop
its children, and either stay for its parent or be taken off its parent's
count. -/
structure Died (s : Kernel) (f : Kin) : Prop where
  npcb : f.npcb = s.npcb
  pid : f.pid = s.pcb.pid
  terminated : f.terminated = upd s.history.terminated s.activePCB true
  ppid : ∀ c, f.ppid c = s.pcb.ppid c ∨
    s.pcb.ppid c = s.pcb.pid s.activePCB ∧ f.ppid c = 0
  orphan : ∀ c, c < s.npcb → s.history.terminated c = false →
    s.pcb.ppid c = s.pcb.pid s.activePCB → f.ppid c = 0
  defunct : ∀ d, d ≠ s.activePCB → (d ∈ f.defunctQ ↔
    d ∈ s.defunctQ ∧ s.pcb.ppid d ≠ s.pcb.pid s.activePCB)
  nodup : f.defunctQ.Nodup
  count : ∀ p, s.Member p → p ≠ s.activePCB →
    s.history.terminated p = false →
    f.numChildren p = s.pcb.numChildren p -
      if s.pcb.pid p = s.pcb.ppid s.activePCB ∧ s.activePCB ∉ f.defunctQ
      then 1 else 0

/-- The running process is not its own parent. -/
theorem ppid_active_ne (h : Tree s.kin) (hs : Population s)
    (hactive : s.Member s.activePCB)
    (hlive : s.history.terminated s.activePCB = false) :
    s.pcb.ppid s.activePCB ≠ s.pcb.pid s.activePCB := fun heq =>
  Nat.lt_irrefl _ (h.parent_unique hs hactive.2 (.inl hlive) hactive
    heq.symm).1

/-- The end of a process without children leaves every link alone. -/
theorem childless_died (hs : Population s)
    (hchildren : s.kin.children s.activePCB = ∅)
    (hnpcb : f.npcb = s.npcb) (hpid : f.pid = s.pcb.pid)
    (hterm : f.terminated = upd s.history.terminated s.activePCB true)
    (hppid : f.ppid = s.pcb.ppid)
    (hdefunct : ∀ d, d ≠ s.activePCB → (d ∈ f.defunctQ ↔ d ∈ s.defunctQ))
    (hnodup : f.defunctQ.Nodup)
    (hcount : ∀ p, s.Member p → p ≠ s.activePCB →
      s.history.terminated p = false →
      f.numChildren p = s.pcb.numChildren p -
        if s.pcb.pid p = s.pcb.ppid s.activePCB ∧ s.activePCB ∉ f.defunctQ
        then 1 else 0) : Died s f := by
  have hnone {c : PcbPtr} (hc : c < s.npcb) (hcounted : s.kin.Counted c) :
      s.pcb.ppid c ≠ s.pcb.pid s.activePCB := fun heq => by
    have hmem : c ∈ s.kin.children s.activePCB :=
      Kin.mem_children.2 ⟨hc, heq, hcounted⟩
    rw [hchildren] at hmem
    cases hmem
  exact
    { npcb := hnpcb
      pid := hpid
      terminated := hterm
      ppid := fun c => .inl (congrFun hppid c)
      orphan := fun c hc hlive hchild => absurd hchild (hnone hc (.inl hlive))
      defunct := fun d hd => by
        rw [hdefunct d hd]
        exact ⟨fun hmem => ⟨hmem, hnone (hs.defunct d hmem).2 (.inr hmem)⟩,
          And.left⟩
      nodup := hnodup
      count := hcount }

theorem died_children (h : Tree s.kin) (hs : Population s)
    (hactive : s.Member s.activePCB)
    (hlive : s.history.terminated s.activePCB = false) (hdied : Died s f)
    {p : PcbPtr} (hp : s.Member p) (hne : p ≠ s.activePCB) :
    f.children p =
      if s.pcb.pid p = s.pcb.ppid s.activePCB ∧ s.activePCB ∉ f.defunctQ
      then (s.kin.children p).erase s.activePCB else s.kin.children p := by
  have hpid : s.pcb.pid p ≠ s.pcb.pid s.activePCB := fun heq =>
    hne (hs.pid_inj _ _ hp hactive heq)
  have hself := h.ppid_active_ne hs hactive hlive
  have hother {c : PcbPtr} (hc : c ≠ s.activePCB) :
      c ∈ f.children p ↔ c ∈ s.kin.children p := by
    rw [Kin.mem_children, Kin.mem_children, hdied.npcb, hdied.pid]
    refine and_congr_right fun _ => ?_
    have hppid : f.ppid c = s.pcb.pid p ↔ s.pcb.ppid c = s.pcb.pid p := by
      rcases hdied.ppid c with heq | ⟨hold, hzero⟩
      · rw [heq]
      · rw [hzero, hold]
        exact ⟨fun heq => absurd heq.symm (hs.pid_pos p hp),
          fun heq => absurd heq.symm hpid⟩
    refine (and_congr_left fun _ => hppid).trans (and_congr_right fun heq => ?_)
    have heq' : s.pcb.ppid c = s.pcb.pid p := heq
    unfold Kin.Counted
    rw [hdied.terminated, upd_other hc, hdied.defunct c hc]
    simp [heq', hpid, kin]
  have hsame : f.ppid s.activePCB = s.pcb.ppid s.activePCB :=
    (hdied.ppid s.activePCB).resolve_right fun h => hself h.1
  have hin : s.activePCB ∈ f.children p ↔
      s.pcb.ppid s.activePCB = s.pcb.pid p ∧ s.activePCB ∈ f.defunctQ := by
    rw [Kin.mem_children, hdied.npcb, hdied.pid, hsame]
    unfold Kin.Counted
    rw [hdied.terminated, upd_same]
    simp [hactive.2]
  ext c
  by_cases hc : c = s.activePCB
  · subst hc
    have hold : s.activePCB ∈ s.kin.children p ↔
        s.pcb.ppid s.activePCB = s.pcb.pid p := by
      rw [Kin.mem_children]
      exact ⟨fun h => h.2.1, fun h => ⟨hactive.2, h, .inl hlive⟩⟩
    rw [hin]
    split
    · rename_i hgone
      simp [hgone.2]
    · rename_i hkept
      rw [hold]
      constructor
      · exact And.left
      · intro heq
        refine ⟨heq, ?_⟩
        by_contra hnot
        exact hkept ⟨heq.symm, hnot⟩
  · rw [hother hc]
    split
    · simp [hc]
    · rfl

theorem died (h : Tree s.kin) (hs : Population s)
    (hactive : s.Member s.activePCB)
    (hlive : s.history.terminated s.activePCB = false)
    (hdied : Died s f) : Tree f := by
  have hself := h.ppid_active_ne hs hactive hlive
  have hterm {p : PcbPtr} (hp : f.terminated p = false) :
      p ≠ s.activePCB ∧ s.history.terminated p = false := by
    rw [hdied.terminated] at hp
    have hne : p ≠ s.activePCB := fun heq => by
      rw [heq, upd_same] at hp
      cases hp
    rw [upd_other hne] at hp
    exact ⟨hne, hp⟩
  refine
    { count := fun p hpos hlt hp => ?_
      parent := fun c hlt hc hppid => ?_
      dead := fun d hd => ?_
      nodup := hdied.nodup }
  · obtain ⟨hne, hp'⟩ := hterm hp
    have hlt' : p < s.npcb := hdied.npcb ▸ hlt
    have hold : s.pcb.numChildren p = (s.kin.children p).card :=
      h.count p hpos hlt' hp'
    rw [hdied.count p ⟨hpos, hlt'⟩ hne hp', hold,
      h.died_children hs hactive hlive hdied ⟨hpos, hlt'⟩ hne]
    split
    · rename_i hgone
      have hin : s.activePCB ∈ s.kin.children p :=
        Kin.mem_children.2 ⟨hactive.2, hgone.1.symm, .inl hlive⟩
      have hcard := Finset.card_pos.2 ⟨_, hin⟩
      rw [Finset.card_erase_of_mem hin]
      omega
    · simp
  · rw [hdied.npcb] at hlt
    have hsame : f.ppid c = s.pcb.ppid c :=
      (hdied.ppid c).resolve_right fun h => hppid h.2
    -- the link does not lead to the process that ended
    have hother : s.kin.Counted c ∧ s.pcb.ppid c ≠ s.pcb.pid s.activePCB := by
      by_cases heq : c = s.activePCB
      · rw [heq]
        exact ⟨.inl hlive, hself⟩
      · rcases hc with hc | hc
        · have hc' := (hterm hc).2
          exact ⟨.inl hc', fun h => hppid (hdied.orphan c hlt hc' h)⟩
        · have hd := (hdied.defunct c heq).1 hc
          exact ⟨.inr hd.1, hd.2⟩
    rw [hsame] at hppid ⊢
    obtain ⟨q, hq, hpid, hq'⟩ := h.parent c hlt hother.1 hppid
    have hpid' : s.pcb.pid q = s.pcb.ppid c := hpid
    have hne : q ≠ s.activePCB := fun heq => by
      rw [heq] at hpid'
      exact hother.2 hpid'.symm
    refine ⟨q, hq, ?_, ?_⟩
    · rw [hdied.pid]
      exact hpid'
    · rw [hdied.terminated, upd_other hne]
      exact hq'
  · rw [hdied.terminated, upd_apply]
    split
    · rfl
    · rename_i hne
      exact h.dead d ((hdied.defunct d hne).1 hd).1

end Death

end Tree

/-! ## Exit -/

namespace Kernel

variable {s : Kernel} {q : Option QueueRef} {k : KernelContext}

/-- The parent and the children of the running process that have not terminated
are all in `ready_q` or `blocked_q`. -/
def FamilyQueued (s : Kernel) : Prop :=
  ∀ p < s.npcb, p ≠ s.idlePCB → s.history.terminated p = false →
    s.pcb.pid p = s.pcb.ppid s.activePCB ∨
      s.pcb.ppid p = s.pcb.pid s.activePCB → p ∈ s.readyQ ∨ p ∈ s.blockedQ

theorem swapped_kin (hq : q ≠ some .defunctQ) : (s.swapped q k).kin = s.kin := by
  unfold swapped
  split
  · rfl
  · split
    · rfl
    · rcases q with _ | ref
      · rfl
      · cases ref with
        | defunctQ => exact absurd rfl hq
        | _ => rfl

theorem swapped_kin_defunct (hs : Population s)
    (hne : s.activePCB ≠ s.idlePCB) :
    (s.swapped (some .defunctQ) k).kin =
      { s.kin with defunctQ := s.defunctQ ++ [s.activePCB] } := by
  rw [hs.swapped_of_ne hne]
  rfl

theorem nodup_of_count_le_one {queue : List PcbPtr}
    (h : ∀ p ∈ queue, queue.count p ≤ 1) : queue.Nodup :=
  List.nodup_iff_count_le_one.2 fun p => by
    by_cases hp : p ∈ queue
    · exact h p hp
    · rw [List.count_eq_zero_of_not_mem hp]
      exact Nat.zero_le _

/-- In a settled state the loops of `KernelExit` meet every process once. -/
theorem distinct (hs : Population s) (hsettled : Settled s) (h : Tree s.kin)
    (hne : s.activePCB ≠ s.idlePCB) : s.Distinct := by
  have hactive := hs.active_member hne
  have hplaces (p : PcbPtr) : s.readyQ.count p + s.blockedQ.count p ≤ 1 := by
    have honce : (s.spot p).places ≤ 1 := by
      by_cases hp : p = s.activePCB
      · rw [hp, hsettled.active]
        exact Nat.zero_le _
      · exact (hsettled.parked p hp).once
    simp only [Spot.places, spot] at honce
    omega
  have hzero : s.readyQ.count s.activePCB + s.blockedQ.count s.activePCB =
      0 := by
    have hactive := hsettled.active
    simp only [Spot.places, spot] at hactive
    omega
  have hmember {p : PcbPtr} (hp : p ∈ s.readyQ ∨ p ∈ s.blockedQ) :
      s.Member p := hp.elim (hs.ready p) (hs.blocked p)
  have hcount {p : PcbPtr} (hp : p ∈ s.readyQ ∨ p ∈ s.blockedQ) :
      0 < (s.spot p).places := by
    have hpos : 0 < s.readyQ.count p + s.blockedQ.count p := by
      rcases hp with hp | hp <;> have := List.count_pos_iff.2 hp <;> omega
    simp only [Spot.places, spot]
    omega
  have hlive {p : PcbPtr} (hp : p ∈ s.readyQ ∨ p ∈ s.blockedQ) :
      s.history.terminated p = false := by
    cases hterm : s.history.terminated p with
    | false => rfl
    | true =>
        have hpos := hcount hp
        by_cases heq : p = s.activePCB
        · rw [heq, hsettled.active] at hpos
          cases hpos
        · have := (hsettled.parked p heq).dead hterm
          omega
  refine
    { ready := nodup_of_count_le_one fun p _ => by have := hplaces p; omega
      blocked := nodup_of_count_le_one fun p _ => by have := hplaces p; omega
      disjoint := fun p hr hb => ?_
      active_ready := List.count_eq_zero.1 (by omega)
      active_blocked := List.count_eq_zero.1 (by omega)
      pid_ne_zero := hs.pid_pos _ hactive
      pid_inj := fun p q hp hq => hs.pid_inj p q (hmember hp) (hmember hq)
      acyclic := fun p hpid hp hppid => ?_
      defunct := fun d hd => ?_ }
  · have h₁ := List.count_pos_iff.2 hr
    have h₂ := List.count_pos_iff.2 hb
    have := hplaces p
    omega
  · have h₁ := (h.parent_unique hs hactive.2 (.inl hsettled.live) (hmember hp)
      hpid).1
    have h₂ := (h.parent_unique hs (hmember hp).2 (.inl (hlive hp)) hactive
      hppid.symm).1
    exact Nat.lt_asymm h₁ h₂
  · have hdead : s.history.terminated d = true := h.dead d hd
    have hnot (hd' : d ∈ s.readyQ ∨ d ∈ s.blockedQ) : False := by
      rw [hlive hd'] at hdead
      cases hdead
    exact ⟨fun h => hnot (.inl h), fun h => hnot (.inr h)⟩

/-- The exit code is stored before the loops run. -/
def exiting (s : Kernel) (code : Int) : Kernel :=
  (s.setExitCode s.activePCB code).emit (.exit s.activePCB code)

/-- What `KernelExit` does when it finds the whole family. -/
inductive ExitCase (s : Kernel) (code : Int) :
    Option QueueRef × Kernel → Prop where
  | reported {parent : PcbPtr} :
      s.pcb.pid parent = s.pcb.ppid s.activePCB → parent ∈ s.blockedQ →
      s.pcb.blockedCode parent = Blocked.wait →
      ExitCase s code (none, (s.exiting code).orphaned.reported parent)
  | stays {parent : PcbPtr} :
      s.pcb.pid parent = s.pcb.ppid s.activePCB →
      parent ∈ s.readyQ ∨
        parent ∈ s.blockedQ ∧ s.pcb.blockedCode parent ≠ Blocked.wait →
      ExitCase s code (some .defunctQ, (s.exiting code).orphaned)
  | alone : s.pcb.ppid s.activePCB = 0 →
      ExitCase s code (none, (s.exiting code).orphaned)
  | childless : s.pcb.ppid s.activePCB = 0 →
      ¬ 0 < s.pcb.numChildren s.activePCB →
      ExitCase s code (none, s.exiting code)

theorem exitCleanup_case (hs : Population s) (hsettled : Settled s)
    (h : Tree s.kin) (hne : s.activePCB ≠ s.idlePCB)
    (hfamily : s.FamilyQueued) (code : Int) :
    ExitCase s code (s.exitCleanup code) := by
  have hdistinct : (s.exiting code).Distinct :=
    { distinct hs hsettled h hne with }
  have hcleanup : s.exitCleanup code =
      if s.pcb.ppid s.activePCB ≠ 0 ∨ 0 < s.pcb.numChildren s.activePCB then
        (s.exiting code).exitLoops else (none, s.exiting code) := rfl
  rw [hcleanup]
  by_cases hzero : s.pcb.ppid s.activePCB = 0
  · split
    · have hpid {p : PcbPtr} (hp : s.Member p) :
          s.pcb.pid p ≠ s.pcb.ppid s.activePCB := by
        rw [hzero]
        exact hs.pid_pos p hp
      rw [hdistinct.exitLoops_alone (fun p hp => hpid (hs.ready p hp))
        fun p hp => hpid (hs.blocked p hp)]
      exact .alone hzero
    · rename_i hnone
      exact .childless hzero fun hpos => hnone (.inr hpos)
  · rw [if_pos (.inl hzero)]
    obtain ⟨w, hlt, hpid, hlive⟩ := h.parent s.activePCB hs.active
      (.inl hsettled.live) hzero
    have hpid' : s.pcb.pid w = s.pcb.ppid s.activePCB := hpid
    have hw : w ≠ s.idlePCB := fun heq => by
      rw [heq, hs.idle, hs.idle_pid] at hpid'
      exact hzero hpid'.symm
    have hmem := hfamily w (Nat.lt_trans hlt hs.active) hw hlive (.inl hpid')
    by_cases hwait : w ∈ s.blockedQ ∧ s.pcb.blockedCode w = Blocked.wait
    · rw [hdistinct.exitLoops_reported hpid' hwait.1 hwait.2]
      exact .reported hpid' hwait.1 hwait.2
    · have hmem' : w ∈ s.readyQ ∨
          w ∈ s.blockedQ ∧ s.pcb.blockedCode w ≠ Blocked.wait :=
        hmem.imp id fun hb => ⟨hb, fun hcode => hwait ⟨hb, hcode⟩⟩
      rw [hdistinct.exitLoops_defunct hpid' hmem']
      exact .stays hpid' hmem'

/-- Idle is nobody's child. -/
theorem ppid_idle (hs : Population s) (hsettled : Settled s) (h : Tree s.kin) :
    s.pcb.ppid 0 = 0 := by
  by_contra hne
  have hpos : 0 < s.npcb := Nat.lt_of_le_of_lt (Nat.zero_le _) hs.active
  obtain ⟨q, hq, -⟩ := h.parent 0 hpos (.inl (hs.idle ▸ hsettled.idle)) hne
  cases hq

section Exit

variable (hs : Population s) (hsettled : Settled s) (h : Tree s.kin)
  (hne : s.activePCB ≠ s.idlePCB)

include hs hsettled h hne

/-- The links and `defunct_q` after the loops. -/
theorem orphaned_died (hfamily : s.FamilyQueued) (stays : Bool) {f : Kin}
    (hnpcb : f.npcb = s.npcb) (hpid : f.pid = s.pcb.pid)
    (hterm : f.terminated = upd s.history.terminated s.activePCB true)
    (hppid : f.ppid = orphan s.pcb.ppid (s.pcb.pid s.activePCB)
      (s.readyQ ++ s.blockedQ))
    (hdefunct : f.defunctQ = (s.defunctQ.filter fun d =>
      decide (s.pcb.ppid d ≠ s.pcb.pid s.activePCB)) ++
        if stays then [s.activePCB] else [])
    (hcount : ∀ p, s.Member p → p ≠ s.activePCB →
      s.history.terminated p = false →
      f.numChildren p = s.pcb.numChildren p -
        if s.pcb.pid p = s.pcb.ppid s.activePCB ∧ stays = false
        then 1 else 0) : Tree.Died s f := by
  have hnot : s.activePCB ∉ s.defunctQ := fun hd => by
    have hdead : s.history.terminated s.activePCB = true := h.dead _ hd
    rw [hsettled.live] at hdead
    cases hdead
  have hin : s.activePCB ∉ f.defunctQ ↔ stays = false := by
    rw [hdefunct]
    cases stays <;> simp [hnot]
  refine
    { npcb := hnpcb
      pid := hpid
      terminated := hterm
      ppid := fun c => ?_
      orphan := fun c hlt hlive hchild => ?_
      defunct := fun d hd => ?_
      nodup := ?_
      count := fun p hp hpne hlive => ?_ }
  · rw [hppid, orphan]
    split
    · rename_i hchild
      exact .inr ⟨hchild.2, rfl⟩
    · exact .inl rfl
  · have hc : c ≠ s.idlePCB := fun heq => by
      rw [heq, hs.idle, ppid_idle hs hsettled h] at hchild
      exact hs.pid_pos _ (hs.active_member hne) hchild.symm
    have hmem := hfamily c hlt hc hlive (.inr hchild)
    rw [hppid, orphan, if_pos ⟨List.mem_append.2 hmem, hchild⟩]
  · rw [hdefunct]
    cases stays <;> simp [hd]
  · have hnodup : (s.defunctQ.filter fun d =>
        decide (s.pcb.ppid d ≠ s.pcb.pid s.activePCB)).Nodup :=
      List.Nodup.sublist List.filter_sublist h.nodup
    rw [hdefunct]
    cases stays with
    | false => simpa using hnodup
    | true =>
        refine List.nodup_append.2 ⟨hnodup, by simp, fun x hx y hy heq => ?_⟩
        rw [if_pos rfl, List.mem_singleton] at hy
        rw [heq, hy] at hx
        exact hnot (List.mem_of_mem_filter hx)
  · rw [hcount p hp hpne hlive]
    simp only [hin]

theorem exited_died (hfamily : s.FamilyQueued) (code : Int) :
    Tree.Died s (s.exited code).kin := by
  have hcase := exitCleanup_case hs hsettled h hne hfamily code
  have hpop := hs.exitCleanup code
  have hactive := hs.active_member hne
  unfold exited
  generalize s.exitCleanup code = result at hcase hpop ⊢
  cases hcase with
  | @reported parent hpid hblocked hcode =>
      dsimp only
      rw [swapped_kin (by simp)]
      have hmember := hs.blocked parent hblocked
      refine orphaned_died hs hsettled h hne hfamily false rfl rfl rfl rfl
        (List.append_nil _).symm fun p hp _ _ => ?_
      show upd s.pcb.numChildren parent (s.pcb.numChildren parent - 1) p = _
      by_cases heq : p = parent
      · subst heq
        rw [upd_same, if_pos ⟨hpid, rfl⟩]
      · have hother : s.pcb.pid p ≠ s.pcb.ppid s.activePCB := fun hp' =>
          heq (hs.pid_inj _ _ hp hmember (hp'.trans hpid.symm))
        rw [upd_other heq, if_neg fun h => hother h.1, Int.sub_zero]
  | @stays parent hpid hmem =>
      have hset : Population ((s.exiting code).orphaned.setTerminated
          s.activePCB) := { hpop with }
      dsimp only
      rw [swapped_kin_defunct hset hne]
      refine orphaned_died hs hsettled h hne hfamily true rfl rfl rfl rfl rfl
        fun p _ _ _ => ?_
      show s.pcb.numChildren p = _
      rw [if_neg (fun h => nomatch h.2), Int.sub_zero]
  | alone hzero =>
      dsimp only
      rw [swapped_kin (by simp)]
      refine orphaned_died hs hsettled h hne hfamily false rfl rfl rfl rfl
        (List.append_nil _).symm fun p hp _ _ => ?_
      have hother : s.pcb.pid p ≠ s.pcb.ppid s.activePCB := by
        rw [hzero]
        exact hs.pid_pos p hp
      show s.pcb.numChildren p = _
      rw [if_neg fun h => hother h.1, Int.sub_zero]
  | childless hzero hnone =>
      dsimp only
      rw [swapped_kin (by simp)]
      have hchildren : s.kin.children s.activePCB = ∅ := by
        have hcount : s.pcb.numChildren s.activePCB =
            (s.kin.children s.activePCB).card :=
          h.count _ hactive.1 hactive.2 hsettled.live
        exact Finset.card_eq_zero.1 (by omega)
      exact Tree.childless_died hs hchildren rfl rfl rfl rfl
        (fun d _ => Iff.rfl) h.nodup fun p hp _ _ => by
          have hother : s.pcb.pid p ≠ s.pcb.ppid s.activePCB := by
            rw [hzero]
            exact hs.pid_pos p hp
          show s.pcb.numChildren p = _
          rw [if_neg fun h => hother h.1, Int.sub_zero]

end Exit

/-- A fault ends a process without looking for its family. -/
theorem fault_died (hs : Population s) (hsettled : Settled s)
    (h : Tree s.kin) (hne : s.activePCB ≠ s.idlePCB)
    (hnone : s.pcb.numChildren s.activePCB = 0) :
    Tree.Died s (((s.setExitCode s.activePCB Rc.error).setTerminated
      s.activePCB).swapped (some .defunctQ) .trapFault).kin := by
  have hactive := hs.active_member hne
  have hset : Population ((s.setExitCode s.activePCB Rc.error).setTerminated
      s.activePCB) := { hs with }
  have hchildren : s.kin.children s.activePCB = ∅ := by
    have hcount : s.pcb.numChildren s.activePCB =
        (s.kin.children s.activePCB).card :=
      h.count _ hactive.1 hactive.2 hsettled.live
    exact Finset.card_eq_zero.1 (by omega)
  have hnot : s.activePCB ∉ s.defunctQ := fun hd => by
    have hdead : s.history.terminated s.activePCB = true := h.dead _ hd
    rw [hsettled.live] at hdead
    cases hdead
  rw [swapped_kin_defunct hset hne]
  refine Tree.childless_died hs hchildren rfl rfl rfl rfl
    (fun d hd => ?_) ?_ fun p _ _ _ => ?_
  · show d ∈ s.defunctQ ++ [s.activePCB] ↔ _
    simp [hd]
  · refine List.nodup_append.2 ⟨h.nodup, by simp, fun x hx y hy heq => ?_⟩
    rw [heq, List.mem_singleton.1 hy] at hx
    exact hnot hx
  · have hin : s.activePCB ∈ s.defunctQ ++ [s.activePCB] := by simp
    show s.pcb.numChildren p = _
    rw [if_neg fun h => h.2 hin, Int.sub_zero]

end Kernel

end Yalnix
