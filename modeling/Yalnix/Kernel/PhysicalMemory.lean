import Yalnix.Kernel.KernelHeap

/-!
# Fork over physical memory

`KernelFork` once more, with the break of the kernel heap and the contents of
all frames, and page by page through the reserved Region 0 page.  The kernel
allocates and frees while it copies, so `SetKernelBrk` calls can come in
between.  Translation follows the page tables.
-/

namespace Yalnix

variable {Page : Type*}

/-- The kernel state with the break and with what every frame holds. -/
structure Store (Page : Type*) where
  kernel : Kernel
  kernelBrk : Nat
  ram : Nat → Page
  /-- The Region 0 pages that forks have copied through. -/
  picked : List Nat

/-- The `SetKernelBrk` calls of one `KernelFork`. -/
structure ForkCalls where
  /-- From `malloc` and from popping frames in `init_process`. -/
  early : List Nat
  /-- From popping the frame for a user page. -/
  copying : Nat → List Nat
  /-- From `queue_add`. -/
  late : List Nat

/-- `memcpy` of a page between two mapped pages; `none` is a kernel fault. -/
def copyPage (ram : Nat → Page) (dst src : Pte) : Option (Nat → Page) :=
  if dst.valid && src.valid then some (upd ram dst.pfn (ram src.pfn)) else none

/-- The frame is mapped in Region 0. -/
def kernelOwns (kPt : Nat → Pte) (pfn : Nat) : Bool :=
  (List.range vmem1BasePage).any fun i => (kPt i).valid && (kPt i).pfn == pfn

/-- What the loop of `CopyUPT` writes. -/
structure CopyState (Page : Type*) where
  uPt2 : Nat → Pte
  pool : List Nat
  kPt : Nat → Pte
  kernelBrk : Nat
  ram : Nat → Page

def CopyState.heap (c : CopyState Page) : KernelHeap :=
  ⟨c.kPt, c.kernelBrk, true⟩

/--
The loop of `CopyUPT` on the parent's table `uPt1`, with `region1` the table
that `REG_PTBR1` points to.  The flag tells whether the loop ran to its end.
-/
def copyUPTPages (uPt1 region1 : Nat → Pte) (reserved : Nat)
    (calls : Nat → List Nat) :
    List Nat → CopyState Page → Option (Bool × CopyState Page)
  | [], c => some (true, c)
  | i :: rest, c =>
      if (uPt1 i).valid then
        match allocatePFN c.pool with
        | (none, pool) => some (false, { c with pool := pool })
        | (some pfn, pool) =>
            let heap := c.heap.setKernelBrks (calls i)
            let kPt := upd heap.kPt reserved
              { heap.kPt reserved with pfn := pfn }
            match copyPage c.ram (kPt reserved) (region1 i) with
            | none => none
            | some ram =>
                copyUPTPages uPt1 region1 reserved calls rest
                  { uPt2 := upd c.uPt2 i ⟨true, (uPt1 i).prot, pfn⟩
                    pool := pool
                    kPt := kPt
                    kernelBrk := heap.kernelBrk
                    ram := ram }
      else copyUPTPages uPt1 region1 reserved calls rest c

/-- The loop of `KCCopy`: the child's stack entries, Region 0 and memory. -/
def copyStackPages (reserved : Nat) :
    List Nat → (Nat → Pte) → (Nat → Pte) → (Nat → Page) →
      Option ((Nat → Pte) × (Nat → Pte) × (Nat → Page))
  | [], dst, kPt, ram => some (dst, kPt, ram)
  | i :: rest, dst, kPt, ram =>
      let dst := upd dst i { dst i with valid := true }
      let kPt := upd kPt reserved { kPt reserved with pfn := (dst i).pfn }
      match copyPage ram (kPt reserved) (kPt (kernelStackBase + i)) with
      | none => none
      | some ram => copyStackPages reserved rest dst kPt ram

namespace Store

def withKernel (x : Store Page) (s : Kernel) : Store Page :=
  { x with kernel := s }

def toUndefined (x : Store Page) : Store Page :=
  x.withKernel x.kernel.toUndefined

def setKernelBrks (x : Store Page) (addrs : List Nat) : Store Page :=
  let heap := KernelHeap.setKernelBrks ⟨x.kernel.kPt, x.kernelBrk, true⟩ addrs
  { x with kernel := x.kernel.setKPt heap.kPt, kernelBrk := heap.kernelBrk }

/-- `KCCopy`, with what the kernel's own frames hold when it starts. -/
def kcCopy (x : Store Page) (child : PcbPtr) (resumeAt : KernelContext)
    (own : Nat → Page) : Store Page :=
  let s := x.kernel
  match reservedKernelIndex s.kPt with
  | none => x.toUndefined
  | some reserved =>
      let ram := fun pfn => if kernelOwns s.kPt pfn then own pfn else x.ram pfn
      let kPt := upd s.kPt reserved
        ⟨true, Prot.noXWR, (s.kPt reserved).pfn⟩
      match copyStackPages reserved (List.range kernelStackSize)
          (s.pcb.kernelStackPt child) kPt ram with
      | none => x.toUndefined
      | some (dst, kPt, ram) =>
          let s := s.setKernelContext child resumeAt
          let s := s.setKernelStackPt child dst
          let s := s.setKPt (upd kPt reserved invalidPte)
          let s := s.setUctxt child (s.uctxt s.activePCB)
          { kernel := s.setReg0 child (s.reg0 s.activePCB)
            kernelBrk := x.kernelBrk
            ram := ram
            picked := reserved :: x.picked }

/-- The end of `KernelFork`. -/
def forkReady (x : Store Page) (child : PcbPtr) (late : List Nat)
    (own : Nat → Page) : Store Page :=
  let x := x.withKernel (x.kernel.queueAdd (some .readyQ) child)
  let x := (x.setKernelBrks late).kcCopy child .kernelFork own
  if x.kernel.mode = .undefined then x
  else x.withKernel (x.kernel.ret (x.kernel.pcb.pid child))

/-- `KernelFork` from the mapping of the reserved page on. -/
def forkCopy (x : Store Page) (child parent : PcbPtr) (reserved : Nat)
    (calls : ForkCalls) (own : Nat → Page) : Store Page :=
  let s := x.kernel
  let start : CopyState Page :=
    { uPt2 := s.pcb.userPageTable child
      pool := s.pfnList
      kPt := upd s.kPt reserved ⟨true, Prot.noXWR, (s.kPt reserved).pfn⟩
      kernelBrk := x.kernelBrk
      ram := x.ram }
  match copyUPTPages (s.pcb.userPageTable parent) (s.pcb.userPageTable s.ptbr1)
      reserved calls.copying (List.range userPtSize) start with
  | none => x.toUndefined
  | some (false, c) =>
      let s := (s.setUserPageTable child c.uPt2).setPfnList c.pool
      { kernel := (s.setKPt c.kPt).ret Rc.error
        kernelBrk := c.kernelBrk
        ram := c.ram
        picked := reserved :: x.picked }
  | some (true, c) =>
      let s := (s.setUserPageTable child c.uPt2).setPfnList c.pool
      forkReady
        { kernel := s.setKPt (upd c.kPt reserved invalidPte)
          kernelBrk := c.kernelBrk
          ram := c.ram
          picked := reserved :: x.picked }
        child calls.late own

/-- `KernelFork`. -/
def kernelFork (x : Store Page) (pid : Nat) (calls : ForkCalls)
    (own : Nat → Page) : Store Page :=
  let s := x.kernel
  match s.initProcess (some s.activePCB) pid (s.uctxt s.activePCB) with
  | none => x.toUndefined
  | some (child, forked) =>
      let forked := forked.copyIndices child s.activePCB
      let x := (x.withKernel forked).setKernelBrks calls.early
      match reservedKernelIndex x.kernel.kPt with
      | none => x.withKernel (x.kernel.ret Rc.error)
      | some reserved => x.forkCopy child s.activePCB reserved calls own

end Store

end Yalnix
