import Yalnix.Memory.LoadedSpace

/-!
# Heap and stack keep apart

Nothing records how far the stack has grown.  As long as every page below the
break is mapped, the valid bits alone keep `KernelBrk` and `TrapMemoryHandler`
off each other's pages.
-/

namespace Yalnix

open Kernel

/-- Every page below the break is mapped. -/
def Space.HeapFilled (x : Space) : Prop :=
  ∀ i : Nat, i < userPtSize → (i : Int) < x.heapIndex →
    (x.table i).valid = true

/-- The pages that a step has mapped. -/
def mappedPages (before after : Nat → Pte) : List Nat :=
  (List.range userPtSize).filter fun i =>
    !(before i).valid && (after i).valid

theorem mem_mappedPages {before after : Nat → Pte} {i : Nat} :
    i ∈ mappedPages before after ↔
      i < userPtSize ∧ (before i).valid = false ∧ (after i).valid = true := by
  simp [mappedPages]

/-- The machine, with the pages that memory traps have mapped for one
process. -/
structure StackHistory where
  kernel : Kernel
  grown : List Nat

namespace StackHistory

def space (x : StackHistory) (p : PcbPtr) : Space := x.kernel.space p

/-- The pages that a step maps for `p`. -/
def mapped (x : StackHistory) (p : PcbPtr) (a : Label) : List Nat :=
  mappedPages (x.space p).table ((x.kernel.take a).space p).table

def take (p : PcbPtr) (x : StackHistory) (a : Label) : StackHistory :=
  { kernel := x.kernel.take a
    grown :=
      if x.kernel.activePCB = p ∧ a.faultPage.isSome = true then
        x.mapped p a ++ x.grown
      else x.grown }

end StackHistory

inductive StackStep (p : PcbPtr) : StackHistory → Label → StackHistory → Prop
    where
  | take {x : StackHistory} {a : Label} : a.Enabled x.kernel →
      StackStep p x a (x.take p a)

/-- Process `p` runs one program. -/
def KeepsProgram (p : PcbPtr) (x : StackHistory) (a : Label) : Prop :=
  x.kernel.activePCB = p → a.isExec = false

instance (p : PcbPtr) (x : StackHistory) (a : Label) :
    Decidable (KeepsProgram p x a) :=
  inferInstanceAs (Decidable (_ → _))

/-- Process `p` has a program loaded, with every page below its break mapped. -/
structure FilledStart (p : PcbPtr) (x : StackHistory) : Prop where
  made : p < x.kernel.npcb
  filled : (x.space p).HeapFilled
  grown : x.grown = []

/-- The invariant: the heap has no holes, and the pages of memory traps are
mapped above it. -/
structure Apart (x : Space) (grown : List Nat) : Prop where
  filled : x.HeapFilled
  valid : ∀ i ∈ grown, i < userPtSize ∧ (x.table i).valid = true
  above : ∀ i ∈ grown, x.heapIndex ≤ i

namespace Apart

variable {x y : Space} {grown : List Nat} {target : Int} {ok : Bool}

/-! ## Brk -/

/-- `Brk` leaves alone what the memory traps have mapped. -/
theorem brk_keeps (h : Apart x grown) (hbrk : BrkSpace x target ok y) {i : Nat}
    (hi : i ∈ grown) : y.table i = x.table i := by
  have hvalid := (h.valid i hi).2
  have habove := h.above i hi
  cases hbrk with
  | refused => rfl
  | outOfFrames _ _ hgrown => exact (growPages_grown hgrown).keeps i hvalid
  | grown _ _ _ hgrown => exact (growPages_grown hgrown).keeps i hvalid
  | shrunk hle hpos hshrunk =>
      apply (shrinkPages_shrunk hshrunk).outside
      omega

/-- A page that a memory trap has mapped is not in the way of the heap. -/
theorem brk_above (h : Apart x grown) (hbrk : BrkSpace x target ok y) {i : Nat}
    (hi : i ∈ grown) : y.heapIndex ≤ i := by
  have habove := h.above i hi
  cases hbrk with
  | refused => exact habove
  | outOfFrames => exact habove
  | grown _ _ hfree _ =>
      show target ≤ i
      by_contra hbelow
      have hinvalid := hfree i habove (by omega)
      have hvalid := (h.valid i hi).2
      rw [hinvalid] at hvalid
      cases hvalid
  | shrunk hle _ _ =>
      show target ≤ i
      omega

theorem brk_filled (h : x.HeapFilled) (hbrk : BrkSpace x target ok y) :
    y.HeapFilled := by
  intro i hi hbelow
  cases hbrk with
  | refused => exact h i hi hbelow
  | outOfFrames _ _ hgrown =>
      have hvalid := h i hi hbelow
      rw [← (growPages_grown hgrown).keeps i hvalid] at hvalid
      exact hvalid
  | grown hheap _ _ hgrown =>
      have hloop := growPages_grown hgrown
      have hlt : (i : Int) < target := hbelow
      by_cases hlow : (i : Int) < x.heapIndex
      · have hvalid := h i hi hlow
        rw [← hloop.keeps i hvalid] at hvalid
        exact hvalid
      · exact hloop.all rfl i (by omega) (by omega)
  | shrunk hle _ hshrunk =>
      have hlt : (i : Int) < target := hbelow
      have hvalid := h i hi (by omega)
      rw [← (shrinkPages_shrunk hshrunk).outside i (by omega)] at hvalid
      exact hvalid

theorem brk (h : Apart x grown) (hbrk : BrkSpace x target ok y) :
    Apart y grown where
  filled := brk_filled h.filled hbrk
  valid := fun i hi => by
    rw [h.brk_keeps hbrk hi]
    exact h.valid i hi
  above := fun i hi => h.brk_above hbrk hi

/-! ## Memory traps -/

variable {pool : List Nat}

/-- A memory trap only adds pages. -/
theorem fault_keeps (hfault : FaultSpace x pool target ok y) {i : Nat}
    (hvalid : (x.table i).valid = true) : y.table i = x.table i := by
  cases hfault with
  | unhandled => rfl
  | grown _ _ _ hgrown => exact (growPages_grown hgrown).keeps i hvalid

/-- What a memory trap maps lies above the heap. -/
theorem fault_above (h : x.HeapFilled) (hfault : FaultSpace x pool target ok y)
    {i : Nat} (hi : i ∈ mappedPages x.table y.table) : x.heapIndex ≤ i := by
  obtain ⟨hlt, hinvalid, hnew⟩ := mem_mappedPages.1 hi
  cases hfault with
  | unhandled =>
      rw [hinvalid] at hnew
      cases hnew
  | grown hpos hfree _ hgrown =>
      have hin := (growPages_grown hgrown).inside hinvalid hnew
      by_contra hbelow
      have hvalid := h target.toNat (by omega) (by omega)
      rw [hfree (by omega)] at hvalid
      cases hvalid

theorem fault_heapIndex (hfault : FaultSpace x pool target ok y) :
    y.heapIndex = x.heapIndex := by
  cases hfault with
  | unhandled => rfl
  | grown => rfl

theorem fault (h : Apart x grown) (hfault : FaultSpace x pool target ok y) :
    Apart y (mappedPages x.table y.table ++ grown) where
  filled := fun i hi hbelow => by
    rw [fault_heapIndex hfault] at hbelow
    have hvalid := h.filled i hi hbelow
    rw [fault_keeps hfault hvalid]
    exact hvalid
  valid := fun i hi => by
    rcases List.mem_append.1 hi with hnew | hold
    · obtain ⟨hlt, -, hvalid⟩ := mem_mappedPages.1 hnew
      exact ⟨hlt, hvalid⟩
    · obtain ⟨hlt, hvalid⟩ := h.valid i hold
      rw [fault_keeps hfault hvalid]
      exact ⟨hlt, hvalid⟩
  above := fun i hi => by
    rw [fault_heapIndex hfault]
    rcases List.mem_append.1 hi with hnew | hold
    · exact fault_above h.filled hfault hnew
    · exact h.above i hold

end Apart

/-! ## Runs -/

namespace StackHistory

variable {p : PcbPtr} {x : StackHistory} {a : Label}

theorem take_grown_of_none (h : a.faultPage = none) :
    (x.take p a).grown = x.grown :=
  if_neg fun hnew => by
    rw [h] at hnew
    cases hnew.2

theorem take_grown_of_other (h : x.kernel.activePCB ≠ p) :
    (x.take p a).grown = x.grown :=
  if_neg fun hnew => h hnew.1

theorem take_grown_of_some {target : Int} (hp : x.kernel.activePCB = p)
    (h : a.faultPage = some target) :
    (x.take p a).grown = x.mapped p a ++ x.grown :=
  if_pos ⟨hp, by rw [h]; rfl⟩

/-- What holds of `p` all along its run. -/
structure Good (p : PcbPtr) (x : StackHistory) : Prop where
  made : p < x.kernel.npcb
  apart : Apart (x.space p) x.grown

theorem Good.take (h : Good p x) (ha : KeepsProgram p x a) :
    Good p (x.take p a) where
  made := Nat.lt_of_lt_of_le h.made (take_npcb_le a)
  apart := by
    by_cases hp : x.kernel.activePCB = p
    · cases hfault : a.faultPage with
      | some target =>
          rw [take_grown_of_some hp hfault]
          exact h.apart.fault (take_fault_space hp hfault)
      | none =>
          rw [take_grown_of_none hfault]
          cases hbrk : a.brkPage with
          | some target => exact h.apart.brk (take_brk_space hp hbrk)
          | none =>
              have hspace : (x.take p a).space p = x.space p :=
                take_space h.made (.inr ⟨hfault, hbrk, ha hp⟩)
              rw [hspace]
              exact h.apart
    · have hspace : (x.take p a).space p = x.space p :=
        take_space h.made (.inl hp)
      rw [take_grown_of_other hp, hspace]
      exact h.apart

theorem good (h : TransitionSystem.Reach (FilledStart p) (StackStep p)
    (KeepsProgram p) x) : Good p x := by
  refine h.invariant ?_ ?_
  · intro x hstart
    refine ⟨hstart.made, hstart.filled, ?_, ?_⟩
    · rw [hstart.grown]
      exact nofun
    · rw [hstart.grown]
      exact nofun
  · intro x a x' _ hgood hkeeps hstep
    cases hstep with
    | take => exact hgood.take hkeeps

end StackHistory

/--
In every run of a program that starts with all pages below its break mapped: a
memory trap changes no mapped page and maps pages at or above the break only,
and `Brk` never touches a page that a memory trap has mapped.
-/
theorem heap_and_stack_apart {p : PcbPtr} {x : StackHistory}
    (h : TransitionSystem.Reach (FilledStart p) (StackStep p)
      (KeepsProgram p) x)
    (hp : x.kernel.activePCB = p) (a : Label) :
    (a.faultPage ≠ none →
      (∀ i, ((x.space p).table i).valid = true →
        ((x.take p a).space p).table i = (x.space p).table i) ∧
      ∀ i ∈ x.mapped p a, (x.space p).heapIndex ≤ i) ∧
    (a.brkPage ≠ none →
      ∀ i ∈ x.grown, ((x.space p).table i).valid = true ∧
        ((x.take p a).space p).table i = (x.space p).table i) := by
  have hgood := StackHistory.good h
  constructor
  · intro hne
    obtain ⟨target, hfault⟩ := Option.ne_none_iff_exists'.1 hne
    have hspace := take_fault_space hp hfault
    constructor
    · intro i hvalid
      exact Apart.fault_keeps hspace hvalid
    · intro i hi
      exact Apart.fault_above hgood.apart.filled hspace hi
  · intro hne i hi
    obtain ⟨target, hbrk⟩ := Option.ne_none_iff_exists'.1 hne
    constructor
    · exact (hgood.apart.valid i hi).2
    · exact hgood.apart.brk_keeps (take_brk_space hp hbrk) hi

/-- A program has started, and its stack has grown to page 125. -/
def grownStack : StackHistory :=
  [Label.trap ⟨0, 0⟩ (.memory (vmem1Base + 125 * pageSize) false)].foldl
    (StackHistory.take 1) ⟨(Boot.small 20).kernelStart.run tick, []⟩

theorem grownStack_reach :
    TransitionSystem.Reach (FilledStart 1) (StackStep 1) (KeepsProgram 1)
      grownStack := by
  refine .next (.start ?_) ?_ (.take ?_)
  · exact ⟨by decide +kernel, by unfold Space.HeapFilled; decide +kernel, rfl⟩
  · exact fun _ => rfl
  · decide +kernel

theorem heap_and_stack_apart_grown :
    grownStack.grown = [125, 126] ∧
      ((grownStack.take 1 (call (.brk (vmem1Base + 4 * pageSize)))).space
        1).table 125 = (grownStack.space 1).table 125 := by
  have hgrown : grownStack.grown = [125, 126] := by decide +kernel
  have hapart := heap_and_stack_apart grownStack_reach (by decide +kernel)
    (call (.brk (vmem1Base + 4 * pageSize)))
  refine ⟨hgrown, (hapart.2 nofun 125 ?_).2⟩
  rw [hgrown]
  exact List.mem_cons_self

/-! ## Programs with a hole below the break -/

/-- A program without data pages whose break lies above its text page. -/
def farBreakProgram : Executable :=
  { smallProgram with
    info := some ⟨vmem1Base, vmem1Base, 1, vmem1Base + 5 * pageSize, 0, 0,
      vmem1Base + 5 * pageSize, vmem1Base + 5 * pageSize⟩ }

/-- The machine that boots it. -/
def Boot.farBreak : Boot :=
  { Boot.small 20 with progFile := farBreakProgram }

/-- The program runs; it has its text page and its stack page only. -/
def farBreak : Kernel := Boot.farBreak.kernelStart.run tick

theorem farBreak_reachable : Reachable (fun _ _ => True) farBreak := by
  refine Reachable.run (.start ⟨Boot.farBreak, ?_, rfl, by decide +kernel⟩)
    tick (by decide +kernel)
  exact ⟨by decide, by decide, by decide⟩

theorem farBreak_loaded : ∃ l, farBreak.Loaded 1 l := by
  have hmode : Boot.farBreak.kernelStart.mode = .user := by decide +kernel
  obtain ⟨l, hloaded⟩ := Boot.kernelStart_loaded hmode
  exact ⟨l, hloaded.congr (tick_space (by decide +kernel))⟩

/-- The valid pages below the break are the first `n` pages. -/
def Space.IntervalBelow (x : Space) (n : Nat) : Prop :=
  ∀ i : Nat, i < userPtSize → (i : Int) < x.heapIndex →
    ((x.table i).valid = true ↔ i < n)

instance (x : Space) (n : Nat) : Decidable (x.IntervalBelow n) :=
  inferInstanceAs (Decidable (∀ i : Nat, i < userPtSize → _))

/-- With a hole below the break the stack grows into it. -/
theorem stack_grows_below_break :
    ¬ ∀ (s : Kernel) (l : Layout) (n addr : Nat),
      Reachable (fun _ _ => True) s → s.Loaded s.activePCB l →
      (s.space s.activePCB).IntervalBelow n →
      ∀ i ∈ mappedPages (s.space s.activePCB).table
        ((s.take (.trap ⟨0, 0⟩ (.memory addr false))).space s.activePCB).table,
        (s.space s.activePCB).heapIndex ≤ i := by
  intro hall
  obtain ⟨l, hloaded⟩ := farBreak_loaded
  have hactive : farBreak.activePCB = 1 := by decide +kernel
  have hbelow := hall farBreak l 1 (vmem1Base + 3 * pageSize)
    farBreak_reachable (hactive.symm ▸ hloaded) (by decide +kernel) 3
    (by decide +kernel)
  have hheap : (farBreak.space farBreak.activePCB).heapIndex = 5 := by
    decide +kernel
  omega

end Yalnix
