import Yalnix.Kernel.Machine

/-!
# The kernel heap

`SetKernelBrk`, and the part of `KernelStart` that builds the Region 0 page
table.  The kernel's `malloc` calls `SetKernelBrk`, so it can run wherever the
kernel allocates.  Addresses are those of Region 0, which starts at `0`.
-/

namespace Yalnix

/-- The addresses that the loader of the kernel provides. -/
structure KernelImage where
  /-- `_kernel_data_start` -/
  dataStart : Nat
  /-- `_kernel_data_end` -/
  dataEnd : Nat
  /-- `_kernel_orig_brk` -/
  origBrk : Nat
  deriving DecidableEq, Repr

/-- What `SetKernelBrk` reads and writes. -/
structure KernelHeap where
  kPt : Nat → Pte
  kernelBrk : Nat
  vmEnabled : Bool

/-- `KERNEL_STACK_BASE` as an address. -/
def kernelStackAddr : Nat := kernelStackBase * pageSize

/-- The loop of `SetKernelBrk`: an invalid entry becomes valid with the frame
number that it holds. -/
def validatePages (first : Nat) : Nat → (Nat → Pte) → (Nat → Pte)
  | 0, table => table
  | count + 1, table =>
      validatePages (first + 1) count
        (if (table first).valid then table
        else upd table first ⟨true, Prot.noXWR, (table first).pfn⟩)

/-- The loop of `KernelStart` that runs just before virtual memory is enabled. -/
def identityPages (first : Nat) : Nat → (Nat → Pte) → (Nat → Pte)
  | 0, table => table
  | count + 1, table =>
      identityPages (first + 1) count
        (upd table first ⟨true, Prot.noXWR, first⟩)

namespace KernelHeap

/-- `SetKernelBrk`; with virtual memory disabled only the break moves. -/
def setKernelBrk (h : KernelHeap) (addr : Nat) : Int × KernelHeap :=
  if addr = 0 ∨ kernelStackAddr ≤ addr then (Rc.error, h)
  else if h.vmEnabled then
    let index := h.kernelBrk / pageSize
    let addrIndex := addr / pageSize
    (0,
      { h with
        kPt := validatePages index (addrIndex - index) h.kPt
        kernelBrk := addr - addr % pageSize })
  else if h.kernelBrk < addr then
    (0, { h with kernelBrk := addr - addr % pageSize })
  else (0, h)

/-- One call after another. -/
def setKernelBrks (h : KernelHeap) (addrs : List Nat) : KernelHeap :=
  addrs.foldl (fun h addr => (h.setKernelBrk addr).2) h

end KernelHeap

/-- `SetRegion0_pt` with the break at that time. -/
def setRegion0Pt (image : KernelImage) (kernelBrk : Nat) : Nat → Pte := fun i =>
  if i < image.dataStart / pageSize then ⟨true, Prot.xNoWR, i⟩
  else if image.dataStart / pageSize ≤ i ∧ i < image.dataEnd / pageSize then
    ⟨true, Prot.noXWR, i⟩
  else if image.dataEnd / pageSize ≤ i ∧ i < kernelBrk / pageSize then
    ⟨true, Prot.noXWR, i⟩
  else if kernelStackBase ≤ i ∧ i < kernelStackBase + kernelStackSize then
    ⟨true, Prot.noXWR, i⟩
  else ⟨false, Prot.none, i⟩

/--
`KernelStart` up to the point where virtual memory is enabled, with the
`SetKernelBrk` calls before and after `SetRegion0_pt`.  `table` is what the new
page table holds at first.
-/
def KernelImage.start (image : KernelImage) (table : Nat → Pte)
    (before between : List Nat) : KernelHeap :=
  let h : KernelHeap := ⟨table, image.origBrk, false⟩
  let h := h.setKernelBrks before
  let h := { h with kPt := setRegion0Pt image h.kernelBrk }
  let h := h.setKernelBrks between
  let first := image.dataEnd / pageSize
  { h with
    kPt := identityPages first (h.kernelBrk / pageSize - first) h.kPt
    vmEnabled := true }

/-! ## What the loops write -/

theorem validatePages_apply (first count : Nat) (table : Nat → Pte) (i : Nat) :
    validatePages first count table i =
      if first ≤ i ∧ i < first + count ∧ (table i).valid = false then
        ⟨true, Prot.noXWR, (table i).pfn⟩
      else table i := by
  induction count generalizing first table with
  | zero =>
      rw [validatePages, if_neg]
      omega
  | succ count ih =>
      rw [validatePages, ih]
      by_cases hi : i = first
      · subst hi
        cases hvalid : (table i).valid with
        | true => simp [hvalid]
        | false => simp
      · have hsame : (if (table first).valid then table
            else upd table first ⟨true, Prot.noXWR, (table first).pfn⟩) i =
            table i := by
          split
          · rfl
          · exact upd_other hi _ _
        rw [hsame]
        have hrange : first + 1 ≤ i ∧ i < first + 1 + count ↔
            first ≤ i ∧ i < first + (count + 1) := by omega
        simp only [← and_assoc, hrange]

theorem identityPages_apply (first count : Nat) (table : Nat → Pte) (i : Nat) :
    identityPages first count table i =
      if first ≤ i ∧ i < first + count then ⟨true, Prot.noXWR, i⟩
      else table i := by
  induction count generalizing first table with
  | zero =>
      rw [identityPages, if_neg]
      omega
  | succ count ih =>
      rw [identityPages, ih]
      by_cases hi : i = first
      · subst hi
        simp
      · rw [upd_other hi]
        have hrange : first + 1 ≤ i ∧ i < first + 1 + count ↔
            first ≤ i ∧ i < first + (count + 1) := by omega
        simp only [hrange]

end Yalnix
