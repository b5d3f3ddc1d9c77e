import Yalnix.Memory.HeapStack

/-!
# The guard page

`LoadProgram` refuses a program without an unmapped page between heap and
stack.  `KernelBrk` only keeps clear of the stack that was loaded, and
`TrapMemoryHandler` of no page at all, so the gap lasts exactly as long as
neither of them takes its last page.
-/

namespace Yalnix

open Kernel TransitionSystem

/-- An unmapped page above the heap and below every page of the stack. -/
structure Space.Free (x : Space) (grown : List Nat) (i : Nat) : Prop where
  inTable : i < userPtSize
  heap : x.heapIndex ≤ i
  stack : (i : Int) < x.stackIndex
  grown : ∀ g ∈ grown, i < g
  unmapped : (x.table i).valid = false

instance (x : Space) (grown : List Nat) (i : Nat) : Decidable (x.Free grown i) :=
  decidable_of_iff
    (i < userPtSize ∧ x.heapIndex ≤ i ∧ (i : Int) < x.stackIndex ∧
      (∀ g ∈ grown, i < g) ∧ (x.table i).valid = false)
    ⟨fun ⟨h₁, h₂, h₃, h₄, h₅⟩ => ⟨h₁, h₂, h₃, h₄, h₅⟩,
      fun h => ⟨h.inTable, h.heap, h.stack, h.grown, h.unmapped⟩⟩

/-- What a successful `Brk` leaves alone. -/
theorem BrkSpace.keeps {x y : Space} {target : Int}
    (h : BrkSpace x target true y) :
    y.heapIndex = target ∧ y.stackIndex = x.stackIndex ∧
      ∀ i : Nat, x.heapIndex ≤ i → target ≤ i → y.table i = x.table i := by
  cases h with
  | grown _ _ _ hgrown =>
      refine ⟨rfl, rfl, fun i _ hi => ?_⟩
      apply (growPages_grown hgrown).outside
      omega
  | shrunk hle hpos hshrunk =>
      refine ⟨rfl, rfl, fun i hi _ => ?_⟩
      apply (shrinkPages_shrunk hshrunk).outside
      omega

namespace Space.Free

variable {x y : Space} {grown : List Nat} {target : Int} {pool : List Nat}
  {i : Nat}

/-- A free page stays free unless the break passes it. -/
theorem brk_iff (hbrk : BrkSpace x target true y) (hi : x.heapIndex ≤ i) :
    y.Free grown i ↔ x.Free grown i ∧ target ≤ i := by
  obtain ⟨hheap, hstack, hkeeps⟩ := hbrk.keeps
  constructor
  · intro h
    have htarget : target ≤ i := hheap ▸ h.heap
    have hunmapped := h.unmapped
    rw [hkeeps i hi htarget] at hunmapped
    exact ⟨⟨h.inTable, hi, hstack ▸ h.stack, h.grown, hunmapped⟩, htarget⟩
  · rintro ⟨h, htarget⟩
    refine ⟨h.inTable, ?_, ?_, h.grown, ?_⟩
    · rw [hheap]
      exact htarget
    · rw [hstack]
      exact h.stack
    · rw [hkeeps i hi htarget]
      exact h.unmapped

/-- After a memory trap that maps something, the free pages are those below the
fault. -/
theorem fault_iff (hfault : FaultSpace x pool target true y)
    (hbelow : target < x.stackIndex) (hframe : (allocatePFN pool).1 ≠ none) :
    y.Free (mappedPages x.table y.table ++ grown) i ↔
      x.Free grown i ∧ (i : Int) < target := by
  cases hfault with
  | @grown ok table rest hpos hfree hstack hgrown =>
      have hloop := growPages_grown hgrown
      have hin : target < userPtSize := by
        have hle := hstack hbelow
        omega
      have hfirst : (table target.toNat).valid = true := by
        apply (growPages_first hgrown ?_ (hfree hin)).2 hframe
        omega
      have hnew : target.toNat ∈ mappedPages x.table table :=
        mem_mappedPages.2 ⟨by omega, hfree hin, hfirst⟩
      constructor
      · intro h
        have hlt := h.grown _ (List.mem_append_left _ hnew)
        have hsame := hloop.outside i (by omega)
        have hunmapped : (table i).valid = false := h.unmapped
        rw [hsame] at hunmapped
        exact ⟨⟨h.inTable, h.heap, h.stack,
          fun g hg => h.grown g (List.mem_append_right _ hg), hunmapped⟩,
          by omega⟩
      · rintro ⟨h, hlt⟩
        have hsame := hloop.outside i (by omega)
        have hunmapped := h.unmapped
        rw [← hsame] at hunmapped
        refine ⟨h.inTable, h.heap, h.stack, fun g hg => ?_, hunmapped⟩
        rcases List.mem_append.1 hg with hmapped | hold
        · obtain ⟨-, hinvalid, hvalid⟩ := mem_mappedPages.1 hmapped
          have hge := hloop.inside hinvalid hvalid
          omega
        · exact h.grown g hold

/-- A memory trap that maps nothing changes nothing. -/
theorem fault_same (hfault : FaultSpace x pool target true y)
    (hnone : x.stackIndex ≤ target ∨ (allocatePFN pool).1 = none) :
    y = x ∧ mappedPages x.table y.table = [] := by
  cases hfault with
  | @grown ok table rest hpos hfree hstack hgrown =>
      have htable : table = x.table := by
        rcases hnone with hle | hnone
        · funext i
          exact (growPages_grown hgrown).outside i (by omega)
        · exact growPages_none hgrown hnone
      subst htable
      refine ⟨rfl, ?_⟩
      rw [List.eq_nil_iff_forall_not_mem]
      intro i hi
      obtain ⟨-, hinvalid, hvalid⟩ := mem_mappedPages.1 hi
      rw [hinvalid] at hvalid
      cases hvalid

end Space.Free

/-! ## Steps -/

namespace StackHistory

/-- At least one page separates the heap from the stack. -/
def Guarded (p : PcbPtr) (x : StackHistory) : Prop :=
  ∃ i, (x.space p).Free x.grown i

/-- `Brk` leaves a free page above the new break, and a memory trap that maps
something one below the fault. -/
def KeepsGuard (p : PcbPtr) (x : StackHistory) (a : Label) : Prop :=
  x.kernel.activePCB = p →
    (∀ target, a.brkPage = some target →
      ∃ i : Nat, (x.space p).Free x.grown i ∧ target ≤ i) ∧
    ∀ target, a.faultPage = some target →
      (x.space p).stackIndex ≤ target ∨
        (allocatePFN x.kernel.pfnList).1 = none ∨
        ∃ i : Nat, (x.space p).Free x.grown i ∧ (i : Int) < target

/-- Process `p` runs one program, its `Brk` calls succeed and its memory traps
are handled. -/
def Serves (p : PcbPtr) (x : StackHistory) (a : Label) : Prop :=
  a.Enabled x.kernel ∧
    (x.kernel.activePCB = p → a.isExec = false ∧
      (a.brkPage ≠ none → (x.kernel.take a).Succeeded p) ∧
      (a.faultPage ≠ none → (x.kernel.take a).mode = .user))

instance (p : PcbPtr) (x : StackHistory) (a : Label) :
    Decidable (Serves p x a) :=
  inferInstanceAs (Decidable (_ ∧ (_ → _ ∧ (_ → _) ∧ (_ → _))))

variable {p : PcbPtr} {x : StackHistory} {a : Label}

theorem guarded_same (hgrown : (x.take p a).grown = x.grown)
    (hspace : (x.take p a).space p = x.space p) (h : x.Guarded p) :
    (x.take p a).Guarded p := by
  unfold Guarded
  rw [hgrown, hspace]
  exact h

theorem brk_guarded_iff {target : Int} (hguarded : x.Guarded p)
    (hfault : a.faultPage = none)
    (hspace : BrkSpace (x.space p) target true ((x.take p a).space p)) :
    (x.take p a).Guarded p ↔
      ∃ i : Nat, (x.space p).Free x.grown i ∧ target ≤ i := by
  unfold Guarded
  rw [take_grown_of_none hfault]
  constructor
  · rintro ⟨i, hi⟩
    by_cases hheap : (x.space p).heapIndex ≤ i
    · exact ⟨i, (Space.Free.brk_iff hspace hheap).1 hi⟩
    · -- the break has gone down, and the old gap is above it
      obtain ⟨j, hj⟩ := hguarded
      refine ⟨j, hj, ?_⟩
      have htarget : target ≤ i := hspace.keeps.1 ▸ hi.heap
      have hold := hj.heap
      omega
  · rintro ⟨i, hi, htarget⟩
    exact ⟨i, (Space.Free.brk_iff hspace hi.heap).2 ⟨hi, htarget⟩⟩

theorem fault_guarded_iff {target : Int} (hguarded : x.Guarded p)
    (hp : x.kernel.activePCB = p) (hfault : a.faultPage = some target)
    (hspace : FaultSpace (x.space p) x.kernel.pfnList target true
      ((x.take p a).space p)) :
    (x.take p a).Guarded p ↔
      (x.space p).stackIndex ≤ target ∨
        (allocatePFN x.kernel.pfnList).1 = none ∨
        ∃ i : Nat, (x.space p).Free x.grown i ∧ (i : Int) < target := by
  unfold Guarded
  rw [take_grown_of_some hp hfault]
  by_cases hnone : (x.space p).stackIndex ≤ target ∨
      (allocatePFN x.kernel.pfnList).1 = none
  · obtain ⟨hsame, hnothing⟩ := Space.Free.fault_same hspace hnone
    rw [mapped, show ((x.kernel.take a).space p) = (x.take p a).space p from rfl,
      hnothing, hsame, List.nil_append]
    refine iff_of_true hguarded ?_
    rcases hnone with h | h
    · exact .inl h
    · exact .inr (.inl h)
  · rw [not_or] at hnone
    have hbelow := Int.not_le.1 hnone.1
    have hiff (i : Nat) := @Space.Free.fault_iff _ _ x.grown _ _ i hspace
      hbelow hnone.2
    constructor
    · rintro ⟨i, hi⟩
      exact .inr (.inr ⟨i, (hiff i).1 hi⟩)
    · rintro (h | h | ⟨i, hi⟩)
      · exact absurd h hnone.1
      · exact absurd h hnone.2
      · exact ⟨i, (hiff i).2 hi⟩

/-- A step keeps the guard page exactly when it leaves one free. -/
theorem guarded_take_iff (hmade : p < x.kernel.npcb) (hserves : Serves p x a)
    (hguarded : x.Guarded p) :
    (x.take p a).Guarded p ↔ KeepsGuard p x a := by
  obtain ⟨-, hserves⟩ := hserves
  by_cases hp : x.kernel.activePCB = p
  · obtain ⟨hexec, hbrks, hfaults⟩ := hserves hp
    cases hfault : a.faultPage with
    | some target =>
        have hbrk : a.brkPage = none := by
          cases a with
          | resume => cases hfault
          | trap ctx t =>
              cases t with
              | memory => rfl
              | _ => cases hfault
        have hspace := take_fault_space hp hfault
        rw [decide_eq_true (hfaults (by rw [hfault]; exact nofun))] at hspace
        rw [fault_guarded_iff hguarded hp hfault hspace]
        constructor
        · intro h _
          refine ⟨fun target' h' => ?_, fun target' h' => ?_⟩
          · rw [hbrk] at h'
            cases h'
          · rw [hfault] at h'
            cases h'
            exact h
        · intro h
          exact (h hp).2 target hfault
    | none =>
        cases hbrk : a.brkPage with
        | some target =>
            have hspace := take_brk_space hp hbrk
            rw [decide_eq_true (hbrks (by rw [hbrk]; exact nofun))] at hspace
            rw [brk_guarded_iff hguarded hfault hspace]
            constructor
            · intro h _
              refine ⟨fun target' h' => ?_, fun target' h' => ?_⟩
              · rw [hbrk] at h'
                cases h'
                exact h
              · rw [hfault] at h'
                cases h'
            · intro h
              exact (h hp).1 target hbrk
        | none =>
            refine iff_of_true (guarded_same (take_grown_of_none hfault)
              (take_space hmade (.inr ⟨hfault, hbrk, hexec⟩)) hguarded) ?_
            intro _
            refine ⟨fun target' h' => ?_, fun target' h' => ?_⟩
            · rw [hbrk] at h'
              cases h'
            · rw [hfault] at h'
              cases h'
  · exact iff_of_true (guarded_same (take_grown_of_other hp)
      (take_space hmade (.inl hp)) hguarded) fun h => absurd h hp

end StackHistory

/-! ## Loading -/

/-- The text does not fill everything between break and stack. -/
def Layout.LeavesGap (l : Layout) : Prop :=
  ∃ i : Nat, i < userPtSize ∧ l.heapIndex ≤ i ∧ (i : Int) < l.stackIndex ∧
    ¬ (l.textPg1 ≤ i ∧ (i : Int) < l.textPg1 + l.textCount)

/-- The data pages end at the break. -/
theorem layout_data_below (li : LoadInfo) (args : List (List UInt8)) (i : Int)
    (hfirst : (layout li args).dataPg1 ≤ i)
    (hlast : i < (layout li args).dataPg1 + (layout li args).dataCount) :
    i < (layout li args).heapIndex := by
  have hcount : ((layout li args).dataCount : Int) =
      (((layout li args).heapIndex - (layout li args).dataPg1).toNat : Nat) :=
    rfl
  omega

theorem Kernel.Loaded.free_iff {s : Kernel} {p : PcbPtr} {l : Layout}
    (h : s.Loaded p l) (i : Nat) :
    (s.space p).Free [] i ↔
      i < userPtSize ∧ l.heapIndex ≤ i ∧ (i : Int) < l.stackIndex ∧
        ¬ (l.textPg1 ≤ i ∧ (i : Int) < l.textPg1 + l.textCount) := by
  have hbuilt := h.built
  obtain ⟨file, args, li, code, s₀, s₁, -, -, -, rfl, -⟩ := h
  constructor
  · intro hfree
    have hheap := hfree.heap
    have hstack := hfree.stack
    rw [hbuilt.heapIndex] at hheap
    rw [hbuilt.stackIndex] at hstack
    refine ⟨hfree.inTable, hheap, hstack, fun htext => ?_⟩
    have hvalid := (hbuilt.valid i hfree.inTable).2 (.inl htext)
    rw [hfree.unmapped] at hvalid
    cases hvalid
  · rintro ⟨hin, hheap, hstack, htext⟩
    refine ⟨hin, ?_, ?_, nofun, ?_⟩
    · rw [hbuilt.heapIndex]
      exact hheap
    · rw [hbuilt.stackIndex]
      exact hstack
    · rw [Bool.eq_false_iff]
      intro hvalid
      rcases (hbuilt.valid i hin).1 hvalid with h | h | h
      · exact htext h
      · have hlt := layout_data_below li args i h.1 h.2
        omega
      · omega

/--
A guard page separates heap and stack all along a run exactly when the loaded
text leaves one and every step of the process leaves one.
-/
theorem guard_page_always_iff {p : PcbPtr} {x : StackHistory} {l : Layout}
    (hmade : p < x.kernel.npcb) (hloaded : x.kernel.Loaded p l)
    (hgrown : x.grown = []) (labels : List Label)
    (hserves : Admits (StackHistory.take p) (StackHistory.Serves p) x labels) :
    Always (StackHistory.take p) (StackHistory.Guarded p) x labels ↔
      l.LeavesGap ∧
        Admits (StackHistory.take p) (StackHistory.KeepsGuard p) x labels := by
  have hstart : x.Guarded p ↔ l.LeavesGap := by
    unfold StackHistory.Guarded
    rw [hgrown]
    constructor
    · rintro ⟨i, hi⟩
      exact ⟨i, (hloaded.free_iff i).1 hi⟩
    · rintro ⟨i, hi⟩
      exact ⟨i, (hloaded.free_iff i).2 hi⟩
  rw [← hstart]
  refine always_iff (I := fun x => p < x.kernel.npcb) ?_ ?_ hmade labels
    hserves
  · intro x a hx _
    exact Nat.lt_of_lt_of_le hx (take_npcb_le a)
  · intro x a hx hok hP
    exact StackHistory.guarded_take_iff hx hok hP

/-- A program of one text, one data and one stack page runs, on a machine with
frames for all of Region 1. -/
def startedProgram : Kernel := (Boot.small 140).kernelStart.run tick

theorem startedProgram_loaded : ∃ l, startedProgram.Loaded 1 l := by
  have hmode : (Boot.small 140).kernelStart.mode = .user := by decide +kernel
  obtain ⟨l, hloaded⟩ := Boot.kernelStart_loaded hmode
  exact ⟨l, hloaded.congr (tick_space (by decide +kernel))⟩

/-- The break rises as far as `KernelBrk` lets it, then the stack grows by a
page. -/
def meetingLabels : List Label :=
  [call (.brk (vmem1Base + 126 * pageSize)),
    .trap ⟨0, 0⟩ (.memory (vmem1Base + 126 * pageSize) false)]

theorem meetingLabels_admitted :
    Admits (StackHistory.take 1) (StackHistory.Serves 1) ⟨startedProgram, []⟩
      meetingLabels := by
  decide +kernel

theorem guard_page_lost :
    ¬ ∀ (x : StackHistory) (p : PcbPtr) (l : Layout) (labels : List Label),
      Reachable (fun _ _ => True) x.kernel → p < x.kernel.npcb →
      x.kernel.Loaded p l → x.grown = [] →
      Admits (StackHistory.take p) (StackHistory.Serves p) x labels →
      Always (StackHistory.take p) (StackHistory.Guarded p) x labels := by
  intro hall
  obtain ⟨l, hloaded⟩ := startedProgram_loaded
  have hreach : Reachable (fun _ _ => True) startedProgram :=
    reachable_small 140 tick (by decide +kernel) (by decide +kernel)
  have halways := hall ⟨startedProgram, []⟩ 1 l meetingLabels hreach
    (by decide +kernel) hloaded rfl meetingLabels_admitted
  obtain ⟨-, -, i, hi⟩ := halways
  have hnone : ∀ i < userPtSize, ¬ (StackHistory.space
      (meetingLabels.foldl (StackHistory.take 1) ⟨startedProgram, []⟩) 1).Free
        [126] i := by
    decide +kernel
  have hgrown : (meetingLabels.foldl (StackHistory.take 1)
      ⟨startedProgram, []⟩).grown = [126] := by
    decide +kernel
  refine hnone i hi.inTable ?_
  rw [← hgrown]
  exact hi

/-- Growing the heap to page 4 and then the stack to page 100 keeps the gap. -/
def partingLabels : List Label :=
  [call (.brk (vmem1Base + 4 * pageSize)),
    .trap ⟨0, 0⟩ (.memory (vmem1Base + 100 * pageSize) false)]

theorem guard_page_always_iff_parting :
    ∃ l, startedProgram.Loaded 1 l ∧
      (Always (StackHistory.take 1) (StackHistory.Guarded 1)
          ⟨startedProgram, []⟩ partingLabels ↔
        l.LeavesGap ∧ Admits (StackHistory.take 1) (StackHistory.KeepsGuard 1)
          ⟨startedProgram, []⟩ partingLabels) ∧
      Always (StackHistory.take 1) (StackHistory.Guarded 1)
        ⟨startedProgram, []⟩ partingLabels := by
  obtain ⟨l, hloaded⟩ := startedProgram_loaded
  have hiff := guard_page_always_iff (x := ⟨startedProgram, []⟩)
    (by decide +kernel) hloaded rfl partingLabels (by decide +kernel)
  refine ⟨l, hloaded, hiff, ?_, ?_, ?_⟩
  · exact ⟨50, by decide +kernel⟩
  · exact ⟨50, by decide +kernel⟩
  · exact ⟨50, by decide +kernel⟩

end Yalnix
