import Yalnix.Memory.ImageTables
import Yalnix.Memory.UserBreak

/-!
# Brk and the loaded program

`KernelBrk` refuses targets up to the first data page, not up to the end of the
data.  The pages of the program stay as they were loaded exactly as long as no
call asks for a break between the first data page and the end of the data.
-/

namespace Yalnix

open Kernel TransitionSystem

/-- The page belongs to the text or to the data of the image. -/
def Layout.HoldsProgram (l : Layout) (i : Nat) : Prop :=
  InRange l.textPg1 l.textCount i ∨ InRange l.dataPg1 l.dataCount i

/-- The pages of the program are mapped, with the frames they had before. -/
def Layout.Intact (l : Layout) (before now : Space) : Prop :=
  ∀ i, l.HoldsProgram i →
    (now.table i).valid = true ∧ (now.table i).pfn = (before.table i).pfn

/-- What the checks and the loops of a load guarantee of a layout. -/
structure Layout.Sound (l : Layout) : Prop where
  inTable : ∀ i, l.HoldsProgram i → i < userPtSize
  data : l.dataPg1 < l.heapIndex →
    0 ≤ l.dataPg1 ∧ l.heapIndex = l.dataPg1 + l.dataCount ∧
      l.heapIndex ≤ userPtSize ∧ l.heapIndex < l.stackIndex

/-- The invariant: the break is not below the loaded one, and the pages in
between are mapped and none of the program. -/
structure BreakAbove (l : Layout) (x : Space) : Prop where
  dataIndex : x.dataIndex = l.dataPg1
  stackIndex : x.stackIndex = l.stackIndex
  heap : l.heapIndex ≤ x.heapIndex
  table : x.heapIndex = l.heapIndex ∨ x.heapIndex ≤ userPtSize
  filled : ∀ i : Nat, l.heapIndex ≤ i → (i : Int) < x.heapIndex →
    (x.table i).valid = true
  apart : ∀ i : Nat, l.heapIndex ≤ i → (i : Int) < x.heapIndex →
    ¬ l.HoldsProgram i

/-! ## One call -/

namespace Kernel

variable {s : Kernel} {addr : Nat}

/-- The first loop of a shrinking call finds no free page. -/
theorem any_unmapped_false {first last : Int} {table : Nat → Pte}
    (hpos : 0 ≤ first)
    (hfilled : ∀ i : Nat, first ≤ i → (i : Int) < last →
      (table i).valid = true) :
    ¬ ((List.range (last - first).toNat).any fun i =>
      !(table (first.toNat + i)).valid) = true := by
  rw [List.any_eq_true]
  rintro ⟨i, hi, hinvalid⟩
  rw [List.mem_range] at hi
  rw [hfilled (first.toNat + i) (by omega) (by omega)] at hinvalid
  cases hinvalid

/-- A shrinking call on mapped pages. -/
theorem kernelBrk_shrinks {table : Nat → Pte} {rest : List Nat}
    (hinside : s.BrkInside addr)
    (hlt : brkTarget addr < (s.space s.activePCB).heapIndex)
    (hpos : 0 ≤ brkTarget addr)
    (htop : (s.space s.activePCB).heapIndex ≤ userPtSize)
    (hfilled : ∀ i : Nat, brkTarget addr ≤ i →
      (i : Int) < (s.space s.activePCB).heapIndex →
        ((s.space s.activePCB).table i).valid = true)
    (hshrunk : shrinkPages (brkTarget addr).toNat
      ((s.space s.activePCB).heapIndex - brkTarget addr).toNat
        (s.space s.activePCB).table s.pfnList = (table, rest)) :
    s.kernelBrk addr = ((s.remapped table rest).setHeapIndex s.activePCB
      (brkTarget addr)).ret 0 := by
  obtain ⟨hnull, hdata, hstack⟩ := hinside
  have hbelow : s.pcb.userDataPtIndex s.activePCB < brkTarget addr := hdata
  have habove : brkTarget addr < s.pcb.userStackPtIndex s.activePCB := hstack
  have hshrinks : brkTarget addr < s.pcb.userHeapPtIndex s.activePCB := hlt
  have hin : s.pcb.userHeapPtIndex s.activePCB ≤ userPtSize := htop
  have hmapped : ¬ ((List.range (s.pcb.userHeapPtIndex s.activePCB -
      brkTarget addr).toNat).any fun i =>
        !(s.pcb.userPageTable s.activePCB
          ((brkTarget addr).toNat + i)).valid) = true :=
    any_unmapped_false hpos hfilled
  have hloop : shrinkPages (brkTarget addr).toNat
      (s.pcb.userHeapPtIndex s.activePCB - brkTarget addr).toNat
      (s.pcb.userPageTable s.activePCB) s.pfnList = (table, rest) := hshrunk
  unfold kernelBrk
  simp only
  rw [if_neg hnull, if_neg (by omega), if_neg (by omega), if_neg (by omega),
    if_neg hmapped, hloop]
  rfl

end Kernel

namespace BreakAbove

variable {l : Layout} {x y before : Space}

/-- A loop that keeps all mapped pages keeps the program. -/
theorem intact_of_keeps (hintact : l.Intact before x)
    (hkeeps : ∀ i, (x.table i).valid = true → y.table i = x.table i) :
    l.Intact before y := by
  intro i hi
  obtain ⟨hvalid, hpfn⟩ := hintact i hi
  rw [hkeeps i hvalid]
  exact ⟨hvalid, hpfn⟩

/-- So does the invariant, when the indices stay. -/
theorem of_keeps (h : BreakAbove l x)
    (hkeeps : ∀ i, (x.table i).valid = true → y.table i = x.table i)
    (hdata : y.dataIndex = x.dataIndex) (hheap : y.heapIndex = x.heapIndex)
    (hstack : y.stackIndex = x.stackIndex) : BreakAbove l y := by
  constructor
  · rw [hdata]
    exact h.dataIndex
  · rw [hstack]
    exact h.stackIndex
  · rw [hheap]
    exact h.heap
  · rw [hheap]
    exact h.table
  · rw [hheap]
    intro i hge hlt
    have hvalid := h.filled i hge hlt
    rw [hkeeps i hvalid]
    exact hvalid
  · rw [hheap]
    exact h.apart

variable {target : Int} {table : Nat → Pte} {pool rest : List Nat}

/-- The break goes up over free pages, none of which holds the program. -/
theorem grown (h : BreakAbove l x) (hintact : l.Intact before x)
    (hlt : x.heapIndex < target) (hpos : 0 ≤ x.heapIndex)
    (htop : target ≤ userPtSize)
    (hfree : ∀ i : Nat, x.heapIndex ≤ i → (i : Int) < target →
      (x.table i).valid = false)
    (hgrown : growPages x.heapIndex.toNat (target - x.heapIndex).toNat x.table
      pool = (true, table, rest)) :
    BreakAbove l { x with table := table, heapIndex := target } := by
  have hloop := growPages_grown hgrown
  have hheap := h.heap
  constructor
  · exact h.dataIndex
  · exact h.stackIndex
  · show l.heapIndex ≤ target
    omega
  · exact .inr htop
  · intro i hge hnew
    have hnew : (i : Int) < target := hnew
    by_cases hold : (i : Int) < x.heapIndex
    · have hvalid := h.filled i hge hold
      rw [← hloop.keeps i hvalid] at hvalid
      exact hvalid
    · exact hloop.all rfl i (by omega) (by omega)
  · intro i hge hnew hprogram
    by_cases hold : (i : Int) < x.heapIndex
    · exact h.apart i hge hold hprogram
    · have hvalid := (hintact i hprogram).1
      rw [hfree i (by omega) hnew] at hvalid
      cases hvalid

/-- The break goes down, but not below the loaded one. -/
theorem shrunk (h : BreakAbove l x) (hintact : l.Intact before x)
    (hle : target ≤ x.heapIndex) (habove : l.heapIndex ≤ target)
    (hpos : target < x.heapIndex → 0 ≤ target)
    (hshrunk : shrinkPages target.toNat (x.heapIndex - target).toNat x.table
      pool = (table, rest)) :
    BreakAbove l { x with table := table, heapIndex := target } ∧
      l.Intact before { x with table := table, heapIndex := target } := by
  have hloop := shrinkPages_shrunk hshrunk
  constructor
  · constructor
    · exact h.dataIndex
    · exact h.stackIndex
    · exact habove
    · rcases h.table with hsame | htop
      · left
        show target = l.heapIndex
        omega
      · right
        show target ≤ userPtSize
        omega
    · intro i hge hlt
      have hlt : (i : Int) < target := hlt
      have hvalid := h.filled i hge (by omega)
      rw [← hloop.outside i (by omega)] at hvalid
      exact hvalid
    · intro i hge hlt
      have hlt : (i : Int) < target := hlt
      exact h.apart i hge (by omega)
  · intro i hprogram
    have hout : ¬ (target ≤ i ∧ (i : Int) < x.heapIndex) := by
      rintro ⟨hge, hlt⟩
      exact h.apart i (by omega) hlt hprogram
    have hsame : table i = x.table i := hloop.outside i (by omega)
    show (table i).valid = true ∧ (table i).pfn = (before.table i).pfn
    rw [hsame]
    exact hintact i hprogram

end BreakAbove

/-- The call asks for a break between the first data page and the end of the
data. -/
def Layout.CutsData (l : Layout) (target : Int) : Prop :=
  l.dataPg1 < target ∧ target < l.heapIndex

namespace Kernel

variable {s r : Kernel} {addr : Nat} {l : Layout} {before : Space}

theorem BrkOutcome.intact (houtcome : BrkOutcome s addr r)
    (h : BreakAbove l (s.space s.activePCB))
    (hintact : l.Intact before (s.space s.activePCB))
    (hspares : ¬ l.CutsData (brkTarget addr)) :
    BreakAbove l (r.space s.activePCB) ∧
      l.Intact before (r.space s.activePCB) := by
  cases houtcome with
  | refused => exact ⟨h, hintact⟩
  | undefined => exact ⟨h, hintact⟩
  | runsOut hgrows hgrown =>
      have hkeeps := (growPages_grown hgrown).keeps
      rw [failed_space]
      exact ⟨h.of_keeps hkeeps rfl rfl rfl,
        BreakAbove.intact_of_keeps hintact hkeeps⟩
  | grown hgrows hgrown =>
      have hkeeps := (growPages_grown hgrown).keeps
      obtain ⟨-, hlt, hpos, htop, hfree⟩ := hgrows
      unfold brkGrown brkCount at hgrown
      rw [answered_space]
      exact ⟨h.grown hintact hlt hpos htop hfree hgrown,
        BreakAbove.intact_of_keeps hintact hkeeps⟩
  | shrunk hinside hle hbounds hfull hshrunk =>
      obtain ⟨-, hdata, -⟩ := hinside
      have hindex := h.dataIndex
      have habove : l.heapIndex ≤ brkTarget addr := by
        by_contra hbelow
        apply hspares
        constructor
        · rw [← hindex]
          exact hdata
        · exact Int.not_le.1 hbelow
      rw [answered_space]
      have hpos : brkTarget addr < (s.space s.activePCB).heapIndex →
          0 ≤ brkTarget addr := by
        intro hlt
        exact (hbounds hlt).1
      exact h.shrunk hintact hle habove hpos hshrunk

/-- A call into the data succeeds and takes the page of the new break away. -/
theorem kernelBrk_cuts (hsound : l.Sound)
    (h : BreakAbove l (s.space s.activePCB))
    (hintact : l.Intact before (s.space s.activePCB))
    (hcuts : l.CutsData (brkTarget addr)) :
    ¬ l.Intact before ((s.kernelBrk addr).space s.activePCB) := by
  obtain ⟨hdata, hbelow⟩ := hcuts
  obtain ⟨hbase, hend, htop, hstack⟩ := hsound.data (by omega)
  have hindex := h.dataIndex
  have hstackIndex := h.stackIndex
  have hheap := h.heap
  have hnull : addr ≠ 0 := by
    rintro rfl
    have hzero : brkTarget 0 = -128 := by decide
    omega
  have hpage : l.HoldsProgram (brkTarget addr).toNat := by
    right
    unfold InRange
    omega
  have hinside : s.BrkInside addr := by
    refine ⟨hnull, ?_, ?_⟩
    · omega
    · omega
  have hfilled : ∀ i : Nat, brkTarget addr ≤ i →
      (i : Int) < (s.space s.activePCB).heapIndex →
        ((s.space s.activePCB).table i).valid = true := by
    intro i hge hlt
    by_cases hold : (i : Int) < l.heapIndex
    · have hprogram : l.HoldsProgram i := by
        right
        unfold InRange
        omega
      exact (hintact i hprogram).1
    · exact h.filled i (by omega) hlt
  rcases hshrunk : shrinkPages (brkTarget addr).toNat
    ((s.space s.activePCB).heapIndex - brkTarget addr).toNat
      (s.space s.activePCB).table s.pfnList with ⟨table, rest⟩
  have hlimit : (s.space s.activePCB).heapIndex ≤ userPtSize := by
    rcases h.table with hsame | hle
    · omega
    · exact hle
  rw [kernelBrk_shrinks hinside (by omega) (by omega) hlimit hfilled hshrunk,
    answered_space]
  intro hstill
  have hvalid : (table (brkTarget addr).toNat).valid = true :=
    (hstill _ hpage).1
  rw [(shrinkPages_shrunk hshrunk).inside _ (Nat.le_refl _) (by omega)]
    at hvalid
  cases hvalid

/-! ## Steps and runs -/

/-- Process `p` runs one program. -/
def RunsProgram (p : PcbPtr) (s : Kernel) (a : Label) : Prop :=
  a.Enabled s ∧ (s.activePCB = p → a.isExec = false)

instance RunsProgram.decidable (p : PcbPtr) (s : Kernel) (a : Label) :
    Decidable (RunsProgram p s a) :=
  inferInstanceAs (Decidable (_ ∧ (_ → _)))

/-- The step is no `Brk` of `p` into the data. -/
def SparesData (l : Layout) (p : PcbPtr) (s : Kernel) (a : Label) : Prop :=
  s.activePCB = p → ∀ target, a.brkPage = some target → ¬ l.CutsData target

variable {p : PcbPtr} {a : Label}

theorem FaultSpace_intact {x y : Space} {pool : List Nat} {target : Int}
    {ok : Bool} (hfault : FaultSpace x pool target ok y)
    (h : BreakAbove l x) (hintact : l.Intact before x) :
    BreakAbove l y ∧ l.Intact before y := by
  cases hfault with
  | unhandled => exact ⟨h, hintact⟩
  | grown hpos hfree hstack hgrown =>
      have hkeeps := (growPages_grown hgrown).keeps
      exact ⟨h.of_keeps hkeeps rfl rfl rfl,
        BreakAbove.intact_of_keeps hintact hkeeps⟩

/-- A `Brk` of the process keeps the program exactly when it spares the data. -/
theorem brk_intact_iff (hsound : l.Sound)
    (h : BreakAbove l (s.space s.activePCB))
    (hintact : l.Intact before (s.space s.activePCB)) :
    (l.Intact before ((s.kernelBrk addr).space s.activePCB) ↔
        ¬ l.CutsData (brkTarget addr)) ∧
      (¬ l.CutsData (brkTarget addr) →
        BreakAbove l ((s.kernelBrk addr).space s.activePCB)) := by
  have houtcome := kernelBrk_outcome s addr
  constructor
  · constructor
    · intro hstill hcuts
      exact kernelBrk_cuts hsound h hintact hcuts hstill
    · intro hspares
      exact (houtcome.intact h hintact hspares).2
  · intro hspares
    exact (houtcome.intact h hintact hspares).1

theorem take_intact_iff (hmade : p < s.npcb) (hsound : l.Sound)
    (hruns : RunsProgram p s a) (h : BreakAbove l (s.space p))
    (hintact : l.Intact before (s.space p)) :
    (l.Intact before ((s.take a).space p) ↔ SparesData l p s a) ∧
      (SparesData l p s a → BreakAbove l ((s.take a).space p)) := by
  have hquiet : (s.take a).space p = s.space p → SparesData l p s a →
      (l.Intact before ((s.take a).space p) ↔ SparesData l p s a) ∧
        (SparesData l p s a → BreakAbove l ((s.take a).space p)) := by
    intro hsame hspares
    rw [hsame]
    exact ⟨iff_of_true hintact hspares, fun _ => h⟩
  by_cases hp : s.activePCB = p
  · have hexec := hruns.2 hp
    subst hp
    cases hfault : a.faultPage with
    | some target =>
        have hbrk : a.brkPage = none := by
          cases a with
          | resume => cases hfault
          | trap ctx t =>
              cases t with
              | memory => rfl
              | _ => cases hfault
        have hspares : SparesData l s.activePCB s a := by
          intro _ target' h'
          rw [hbrk] at h'
          cases h'
        obtain ⟨habove, hstill⟩ :=
          FaultSpace_intact (take_fault_space rfl hfault) h hintact
        exact ⟨iff_of_true hstill hspares, fun _ => habove⟩
    | none =>
        cases hbrk : a.brkPage with
        | none =>
            apply hquiet (take_space hmade (.inr ⟨hfault, hbrk, hexec⟩))
            intro _ target' h'
            rw [hbrk] at h'
            cases h'
        | some target =>
            have hiff : SparesData l s.activePCB s a ↔ ¬ l.CutsData target := by
              constructor
              · intro hspares
                exact hspares rfl target hbrk
              · intro hspares _ target' h'
                rw [hbrk] at h'
                cases h'
                exact hspares
            rw [hiff]
            cases a with
            | resume => cases hbrk
            | trap ctx t =>
                cases t with
                | kernel call =>
                    cases call with
                    | brk addr =>
                        have htarget : brkTarget addr = target :=
                          Option.some.inj hbrk
                        rw [← htarget]
                        exact brk_intact_iff (s := s.enter ctx) hsound h hintact
                    | _ => cases hbrk
                | _ => cases hbrk
  · exact hquiet (take_space hmade (.inl hp)) fun h => absurd h hp

/-- The layout of a loaded program is sound, and its space starts the
invariant. -/
theorem Loaded.sound (h : s.Loaded p l) :
    l.Sound ∧ BreakAbove l (s.space p) ∧
      l.Intact (s.space p) (s.space p) := by
  have hbuilt := h.built
  obtain ⟨file, args, li, code, s₀, s₁, hload, hcode, haccepted, rfl, hspace⟩ :=
    h
  obtain ⟨li', table, haccepted', himage, hspace'⟩ :=
    loadProgram_image hcode hload
  rw [haccepted] at haccepted'
  cases haccepted'
  obtain ⟨t₀, t₁, t₂, q₀, q₁, q₂, -, htext, hdata, -⟩ := himage
  have hin : ∀ i, (layout li args).HoldsProgram i → i < userPtSize := by
    rintro i (hi | hi)
    · exact htext.inTable hi
    · exact hdata.inTable hi
  have hcount : (layout li args).dataCount =
      ((layout li args).heapIndex - (layout li args).dataPg1).toNat := rfl
  refine ⟨⟨hin, ?_⟩, ?_, ?_⟩
  · intro hlt
    obtain ⟨hbase, htop⟩ := hdata.inside (by omega)
    have htotal := Executable.accepted_total haccepted
    obtain ⟨hend, hbelow⟩ := layout_below_stack htotal (by omega) htop
    exact ⟨hbase, hend, by omega, hbelow⟩
  · constructor
    · rw [hspace, hspace']
    · exact hbuilt.stackIndex
    · exact Int.le_of_eq hbuilt.heapIndex.symm
    · exact .inl hbuilt.heapIndex
    · intro i hge hlt
      rw [hbuilt.heapIndex] at hlt
      omega
    · intro i hge hlt
      rw [hbuilt.heapIndex] at hlt
      omega
  · intro i hprogram
    refine ⟨(hbuilt.valid i (hin i hprogram)).2 ?_, rfl⟩
    rcases hprogram with htext | hdata
    · exact .inl htext
    · exact .inr (.inl hdata)

end Kernel

/--
The program stays as it was loaded all along a run exactly when no `Brk` of the
process cuts into the data.
-/
theorem program_intact_always_iff {p : PcbPtr} {s : Kernel} {l : Layout}
    (hmade : p < s.npcb) (hloaded : s.Loaded p l) (labels : List Label)
    (hruns : Admits Kernel.take (RunsProgram p) s labels) :
    Always Kernel.take (fun r => l.Intact (s.space p) (r.space p)) s labels ↔
      Admits Kernel.take (SparesData l p) s labels := by
  obtain ⟨hsound, habove, hintact⟩ := hloaded.sound
  have hiff : Always Kernel.take (fun r => l.Intact (s.space p) (r.space p)) s
      labels ↔ l.Intact (s.space p) (s.space p) ∧
        Admits Kernel.take (SparesData l p) s labels := by
    apply always_iff_of_keeps
      (I := fun r => p < r.npcb ∧ BreakAbove l (r.space p)) ?_ ?_
      ⟨hmade, habove⟩ labels hruns
    · rintro r a ⟨hr, h⟩ hok hP hkeeps
      exact ⟨Nat.lt_of_lt_of_le hr (take_npcb_le a),
        (take_intact_iff hr hsound hok h hP).2 hkeeps⟩
    · rintro r a ⟨hr, h⟩ hok hP
      exact (take_intact_iff hr hsound hok h hP).1
  rw [hiff]
  exact and_iff_right hintact

/-! A program of one text and two data pages gives its second data page back. -/

/-- A program of one text page, two data pages and one stack page. -/
def twoDataPages : Executable :=
  { opens := true
    info := some ⟨vmem1Base, vmem1Base, 1, vmem1Base + pageSize, 1, 1,
      vmem1Base + 2 * pageSize, vmem1Base + 3 * pageSize⟩
    textReads := true
    dataReads := true }

def Boot.twoDataPages : Boot :=
  { Boot.small 20 with progFile := Yalnix.twoDataPages }

/-- The program, running. -/
def twoDataRunning : Kernel := Boot.twoDataPages.kernelStart.run tick

theorem twoDataRunning_loaded : ∃ l, twoDataRunning.Loaded 1 l := by
  have hmode : Boot.twoDataPages.kernelStart.mode = .user := by decide +kernel
  obtain ⟨l, hloaded⟩ := Boot.kernelStart_loaded hmode
  exact ⟨l, hloaded.congr (tick_space (by decide +kernel))⟩

theorem twoDataRunning_reachable :
    Reachable (fun _ _ => True) twoDataRunning := by
  apply Reachable.run
  · refine .start ⟨Boot.twoDataPages, ⟨?_, ?_, ?_⟩, rfl, ?_⟩
    all_goals decide +kernel
  · decide +kernel

theorem twoDataRunning_indices {l : Layout} (h : twoDataRunning.Loaded 1 l) :
    l.dataPg1 = 1 ∧ l.heapIndex = 3 := by
  have hspace : (twoDataRunning.space 1).dataIndex = 1 ∧
      (twoDataRunning.space 1).heapIndex = 3 := by
    decide +kernel
  obtain ⟨-, habove, -⟩ := h.sound
  rw [← habove.dataIndex, ← h.built.heapIndex]
  exact hspace

/-- The break moves up two pages and back to the end of the data. -/
def sparingLabels : List Label :=
  [call (.brk (pageAddr 5)), call (.brk (pageAddr 3))]

theorem program_intact_always_iff_spared :
    ∃ l, twoDataRunning.Loaded 1 l ∧
      (Always Kernel.take
          (fun r => l.Intact (twoDataRunning.space 1) (r.space 1))
          twoDataRunning sparingLabels ↔
        Admits Kernel.take (SparesData l 1) twoDataRunning sparingLabels) ∧
      Admits Kernel.take (SparesData l 1) twoDataRunning sparingLabels := by
  obtain ⟨l, hloaded⟩ := twoDataRunning_loaded
  obtain ⟨-, hheap⟩ := twoDataRunning_indices hloaded
  have hspares (i : Nat) (hi : 3 ≤ brkTarget (pageAddr i)) (s : Kernel) :
      SparesData l 1 s (call (.brk (pageAddr i))) := by
    rintro - target htarget ⟨-, hbelow⟩
    have htarget : brkTarget (pageAddr i) = target := Option.some.inj htarget
    omega
  refine ⟨l, hloaded, ?_, ?_⟩
  · apply program_intact_always_iff
    · decide +kernel
    · exact hloaded
    · decide +kernel
  · exact ⟨hspares 5 (by decide) _, hspares 3 (by decide) _, trivial⟩

theorem brk_takes_program_page :
    ¬ ∀ (s : Kernel) (p : PcbPtr) (l : Layout) (labels : List Label),
      Reachable (fun _ _ => True) s → p < s.npcb → s.Loaded p l →
      Admits Kernel.take (RunsProgram p) s labels →
      Always Kernel.take (fun r => l.Intact (s.space p) (r.space p)) s
        labels := by
  intro hall
  obtain ⟨l, hloaded⟩ := twoDataRunning_loaded
  obtain ⟨hdata, hheap⟩ := twoDataRunning_indices hloaded
  obtain ⟨hsound, habove, hintact⟩ := hloaded.sound
  have hmade : 1 < twoDataRunning.npcb := by decide +kernel
  have hruns : RunsProgram 1 twoDataRunning (call (.brk (pageAddr 2))) := by
    decide +kernel
  have halways := hall twoDataRunning 1 l [call (.brk (pageAddr 2))]
    twoDataRunning_reachable hmade hloaded ⟨hruns, trivial⟩
  simp only [Always] at halways
  obtain ⟨-, hstill⟩ := halways
  have hspares := (take_intact_iff hmade hsound hruns habove hintact).1.1 hstill
  have htarget : brkTarget (pageAddr 2) = 2 := by decide
  refine hspares (by decide +kernel) (brkTarget (pageAddr 2)) rfl ⟨?_, ?_⟩
  · omega
  · omega

end Yalnix
