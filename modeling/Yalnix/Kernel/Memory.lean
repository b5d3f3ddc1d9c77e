import Yalnix.Kernel.State

/-!
# Frames and page tables

The frame pool `pfn_list` is a stack: its top is the head of the list here.
The loops below act on one page table and on the pool; the system calls put
the results back into the kernel state.
-/

namespace Yalnix

/--
`AllocatePFN`.  A popped `0` reads as a NULL pointer there and is reported as a
failure, with the entry gone from the pool.
-/
def allocatePFN : List Nat → Option Nat × List Nat
  | [] => (none, [])
  | pfn :: pool => if pfn = 0 then (none, pool) else (some pfn, pool)

def deallocatePFN (pool : List Nat) (pfn : Nat) : List Nat := pfn :: pool

/-- One loop of `free_addr_space`.  The entries it walks stay as they are. -/
def freeTable (table : Nat → Pte) : List Nat → List Nat → List Nat
  | [], pool => pool
  | i :: rest, pool =>
      freeTable table rest
        (if (table i).valid then deallocatePFN pool (table i).pfn else pool)

def freeAddrSpace (uPt kStack : Nat → Pte) (pool : List Nat) : List Nat :=
  freeTable uPt (List.range userPtSize)
    (freeTable kStack (List.range kernelStackSize) pool)

/-- The kernel stack loop of `init_process` for every process but the first. -/
def allocKernelStack :
    List Nat → (Nat → Pte) → List Nat → Option ((Nat → Pte) × List Nat)
  | [], table, pool => some (table, pool)
  | i :: rest, table, pool =>
      match allocatePFN pool with
      | (none, _) => none
      | (some pfn, pool) =>
          allocKernelStack rest (upd table i ⟨false, Prot.noXWR, pfn⟩) pool

/--
`CopyUPT`: the child's table, the pool, and the frame last mapped at the
reserved Region 0 page.  The flag tells whether the loop ran to its end.
-/
def copyUPT (uPt1 : Nat → Pte) :
    List Nat → (Nat → Pte) → List Nat → Nat →
      Bool × (Nat → Pte) × List Nat × Nat
  | [], uPt2, pool, mapped => (true, uPt2, pool, mapped)
  | i :: rest, uPt2, pool, mapped =>
      if (uPt1 i).valid then
        match allocatePFN pool with
        | (none, pool) => (false, uPt2, pool, mapped)
        | (some pfn, pool) =>
            copyUPT uPt1 rest (upd uPt2 i ⟨true, (uPt1 i).prot, pfn⟩) pool pfn
      else copyUPT uPt1 rest uPt2 pool mapped

/-- The loop of `LoadProgram` that throws away the old Region 1. -/
def discardRegion1 :
    List Nat → (Nat → Pte) → List Nat → (Nat → Pte) × List Nat
  | [], table, pool => (table, pool)
  | i :: rest, table, pool =>
      if (table i).valid then
        discardRegion1 rest (upd table i ⟨false, (table i).prot, 0⟩)
          (deallocatePFN pool (table i).pfn)
      else discardRegion1 rest table pool

inductive MapResult where
  | done (table : Nat → Pte) (pool : List Nat)
  | noFrame (table : Nat → Pte) (pool : List Nat)
  | outOfTable

/--
One of the three allocation loops of `LoadProgram`: `count` pages from `first`
on.  An entry is marked valid before its frame is asked for.
-/
def mapPages (first : Int) : Nat → (Nat → Pte) → List Nat → MapResult
  | 0, table, pool => .done table pool
  | count + 1, table, pool =>
      if first < 0 ∨ (userPtSize : Int) ≤ first then .outOfTable
      else
        let i := first.toNat
        match allocatePFN pool with
        | (none, pool) =>
            .noFrame (upd table i ⟨true, Prot.noXWR, (table i).pfn⟩) pool
        | (some pfn, pool) =>
            mapPages (first + 1) count
              (upd table i ⟨true, Prot.noXWR, pfn⟩) pool

/-- The loop of `LoadProgram` that makes the text pages executable. -/
def protectText (first : Int) : Nat → (Nat → Pte) → (Nat → Pte)
  | 0, table => table
  | count + 1, table =>
      protectText (first + 1) count
        (upd table first.toNat
          ⟨(table first.toNat).valid, Prot.xNoWR, (table first.toNat).pfn⟩)

/--
The allocation loop of `KernelBrk` and of `TrapMemoryHandler`: the invalid
pages of `[first, first + count)` get a frame each, until the pool is empty.
-/
def growPages (first : Nat) :
    Nat → (Nat → Pte) → List Nat → Bool × (Nat → Pte) × List Nat
  | 0, table, pool => (true, table, pool)
  | count + 1, table, pool =>
      if (table first).valid then growPages (first + 1) count table pool
      else
        match allocatePFN pool with
        | (none, pool) => (false, table, pool)
        | (some pfn, pool) =>
            growPages (first + 1) count
              (upd table first ⟨true, Prot.noXWR, pfn⟩) pool

/-- The release loop of `KernelBrk`. -/
def shrinkPages (first : Nat) :
    Nat → (Nat → Pte) → List Nat → (Nat → Pte) × List Nat
  | 0, table, pool => (table, pool)
  | count + 1, table, pool =>
      if (table first).valid then
        shrinkPages (first + 1) count (upd table first invalidPte)
          (deallocatePFN pool (table first).pfn)
      else shrinkPages (first + 1) count table pool

/-- The search of `KernelFork` and `KCCopy`, from the stack base downwards. -/
def reservedKernelIndex (kPt : Nat → Pte) : Option Nat :=
  (List.range (kernelStackBase + 1)).reverse.find? fun i => !(kPt i).valid

end Yalnix
