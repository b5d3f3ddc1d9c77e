import Yalnix.Memory.KernelStack
import Yalnix.Memory.Region0

/-!
# Runs with a growing kernel heap

Any step of the kernel, forks that copy page by page, and `SetKernelBrk` calls
in any order.  The handlers other than `Fork` only write Region 0 where they
switch stacks, so calls inside them can be taken before or after them.
-/

namespace Yalnix

open Kernel

variable {Page : Type*}

def Label.isFork : Label → Bool
  | .trap _ (.kernel (.fork _)) => true
  | _ => false

inductive StoreLabel (Page : Type*) where
  /-- A step other than a fork, with what memory holds afterwards. -/
  | take (a : Label) (ram : Nat → Page)
  | fork (ctx : UserContext) (pid : Nat) (calls : ForkCalls)
      (own : Nat → Page)
  | setKernelBrk (addr : Nat)

/-- The system call of a fork. -/
def forkLabel (ctx : UserContext) (pid : Nat) : Label :=
  .trap ctx (.kernel (.fork pid))

def StoreLabel.Enabled (x : Store Page) : StoreLabel Page → Prop
  | .take a _ => a.Enabled x.kernel ∧ a.isFork = false
  | .fork ctx pid _ _ => (forkLabel ctx pid).Enabled x.kernel
  | .setKernelBrk _ => True

instance StoreLabel.decidableEnabled (x : Store Page) :
    (l : StoreLabel Page) → Decidable (l.Enabled x)
  | .take a _ => inferInstanceAs
      (Decidable (a.Enabled x.kernel ∧ a.isFork = false))
  | .fork ctx pid _ _ => inferInstanceAs
      (Decidable ((forkLabel ctx pid).Enabled x.kernel))
  | .setKernelBrk _ => inferInstanceAs (Decidable True)

def Store.take (x : Store Page) : StoreLabel Page → Store Page
  | .take a ram => { x with kernel := x.kernel.take a, ram := ram }
  | .fork ctx pid calls own =>
      (x.withKernel (x.kernel.enter ctx)).kernelFork pid calls own
  | .setKernelBrk addr => x.setKernelBrks [addr]

inductive StoreStep : Store Page → StoreLabel Page → Store Page → Prop where
  | take {x : Store Page} {l : StoreLabel Page} : l.Enabled x →
      StoreStep x l (x.take l)

/-- The fork returns a pid. -/
def ForkSucceeds (x : Store Page) : StoreLabel Page → Prop
  | .fork ctx pid calls own =>
      (x.take (.fork ctx pid calls own)).kernel.mode = .user ∧
        (x.take (.fork ctx pid calls own)).kernel.reg0 x.kernel.activePCB ≠
          Rc.error
  | _ => True

instance ForkSucceeds.decidable (x : Store Page) :
    (l : StoreLabel Page) → Decidable (ForkSucceeds x l)
  | .take _ _ => inferInstanceAs (Decidable True)
  | .fork _ _ _ _ => inferInstanceAs (Decidable (_ ∧ _ ≠ _))
  | .setKernelBrk _ => inferInstanceAs (Decidable True)

def StoreBooted (x : Store Page) : Prop :=
  Booted x.kernel ∧ x.picked = []

/-! ## Boot -/

theorem Boot.kPt_region0 {b : Boot} (hb : b.WellFormed) :
    Region0 (upd b.kPt reservedPage invalidPte) ∧
      reservedKernelIndex b.kPt = some reservedPage := by
  have hdata := hb.data_le_brk
  have hbrk := hb.brk_lt_stack
  have hstack (i : Nat) (hi : i < kernelStackSize) :
      (b.kPt (kernelStackBase + i)).valid = true := by
    unfold Boot.kPt
    rw [if_neg (by omega), if_pos (by omega)]
  have hreserved : (b.kPt reservedPage).valid = false := by
    unfold Boot.kPt reservedPage
    rw [if_neg (by omega), if_neg (by omega)]
  refine ⟨⟨fun i hi => ?_, upd_same _ _ _, fun i hi => ?_⟩, ?_⟩
  · rw [upd_other (Nat.ne_of_lt hi)]
    unfold Boot.kPt
    split
    · rfl
    · split <;> rfl
  · have hne : kernelStackBase + i ≠ reservedPage := by
      unfold reservedPage kernelStackBase
      omega
    rw [upd_other hne]
    exact hstack i hi
  · exact reservedKernelIndex_eq (hstack 0 Nat.two_pos) hreserved

theorem Boot.kernelStart_region0 {b : Boot} (hb : b.WellFormed)
    (h : b.kernelStart.mode = .user) : Region0 b.kernelStart.kPt := by
  obtain ⟨st, heq⟩ := Boot.stages h
  have hidle : st.idleLoaded.kPt = b.kPt :=
    (loadProgram_rewritten st.loadIdle).kPt.trans (initProcess_kPt st.idle).1
  have hkPt : st.progLoaded.kPt = b.kPt :=
    ((loadProgram_rewritten st.loadProg).kPt.trans
      (initProcess_kPt st.prog).1).trans hidle
  obtain ⟨hregion, hsearch⟩ := Boot.kPt_region0 hb
  rw [← hkPt] at hregion hsearch
  have hstart : (startProg st.progLoaded 0 1).kPt =
      upd st.progLoaded.kPt reservedPage invalidPte := by
    unfold startProg kcCopy
    have hsearch' : reservedKernelIndex (((st.progLoaded.queueAdd
        (some .readyQ) 1).setPtbr1 0).setUctxt 0 (((st.progLoaded.queueAdd
          (some .readyQ) 1).setPtbr1 0).pcb.userContext 0)).kPt =
            some reservedPage := hsearch
    simp only [hsearch']
    rfl
  rw [heq, hstart]
  exact hregion

/-! ## Steps of the kernel -/

namespace Kernel

variable {s s' : Kernel} {a : Label}

/-- Only a fork and a switch write Region 0. -/
theorem MemoryEffect.low {i : Nat} (h : s.MemoryEffect a s')
    (hfork : a.isFork = false) (hi : i < kernelStackBase) :
    s'.kPt i = s.kPt i := by
  have hquiet {m m' : Memory} (h : m.Quiet m') : m'.kPt i = m.kPt i := by
    cases h with
    | keeps => rfl
    | parks => rfl
    | switches next =>
        unfold Memory.switch Memory.reload
        have hout : ¬ (kernelStackBase ≤ i ∧
            i < kernelStackBase + kernelStackSize) := by omega
        split
        · exact if_neg hout
        · exact if_neg hout
  cases h with
  | quiet h => exact hquiet h
  | brk h => exact congrFun h.kPt i
  | grows h => exact congrFun h.kPt i
  | exec h => exact congrFun (kernelExec_rewritten h).kPt i
  | ends _ hrewritten h => exact (hquiet h).trans (congrFun hrewritten.kPt i)
  | forks => cases hfork

end Kernel

namespace StacksMapped

variable {s : Kernel}

theorem stack_valid (h : StacksMapped s) {i : Nat} (hi : i < kernelStackSize) :
    (s.kPt (kernelStackBase + i)).valid = true := by
  have hvalid := h.active_valid hi
  obtain ⟨D, -, hmapped⟩ := h
  have hstack : s.kPt (kernelStackBase + i) =
      s.pcb.kernelStackPt s.activePCB i := hmapped.stack i hi
  rw [hstack]
  exact hvalid

/-- The stacks do not depend on the rest of Region 0. -/
theorem setKPt {kPt : Nat → Pte} (h : StacksMapped s)
    (hstack : ∀ i, i < kernelStackSize →
      kPt (kernelStackBase + i) = s.kPt (kernelStackBase + i)) :
    StacksMapped (s.setKPt kPt) := by
  obtain ⟨D, hcensus, hmapped⟩ := h
  exact ⟨D, hcensus.of_core rfl, hmapped.ptbr1,
    fun i hi => (hstack i hi).trans (hmapped.stack i hi), hmapped.valid⟩

end StacksMapped

/-! ## Runs -/

/-- What holds between the steps of a run. -/
structure Store.Intact (x : Store Page) : Prop where
  quiescent : x.kernel.Quiescent
  mapped : StacksMapped x.kernel
  region0 : Region0 x.kernel.kPt
  picked : ∀ i ∈ x.picked, i = reservedPage

namespace Store.Intact

variable {x : Store Page}

theorem booted (h : StoreBooted x) (hlive : x.kernel.Live) : x.Intact where
  quiescent := by
    have hreach : Reachable (fun _ _ => True) x.kernel := .start h.1
    exact hreach.quiescent hlive
  mapped := by
    have hreach : Reachable (fun _ _ => True) x.kernel := .start h.1
    exact hreach.stacksMapped hlive
  region0 := by
    obtain ⟨b, hb, hstart, hmode⟩ := h.1
    rw [hstart] at hmode ⊢
    exact Boot.kernelStart_region0 hb hmode
  picked := by
    rw [h.2]
    exact nofun

/-- A step of the kernel keeps the processes' stacks. -/
theorem taken (h : x.Intact) {a : Label} (henabled : a.Enabled x.kernel)
    (hlive : (x.kernel.take a).Live) :
    (x.kernel.take a).Quiescent ∧ StacksMapped (x.kernel.take a) := by
  obtain ⟨r, heffect, hcore⟩ := take_hasEffect h.quiescent.sync
    h.quiescent.zero_used henabled hlive
  have hentered := entered_core (s := x.kernel) a
  exact ⟨((h.quiescent.of_core hentered).effect heffect).of_core hcore,
    (h.mapped.entered a).step heffect hcore (take_memoryEffect hlive)⟩

theorem take (h : x.Intact) {a : Label} (ram : Nat → Page)
    (henabled : a.Enabled x.kernel) (hfork : a.isFork = false)
    (hlive : (x.kernel.take a).Live) : (x.take (.take a ram)).Intact := by
  obtain ⟨hquiescent, hstacks⟩ := h.taken henabled hlive
  have hlow (i : Nat) (hi : i < kernelStackBase) :
      (x.kernel.take a).kPt i = x.kernel.kPt i := by
    have hentered : (x.kernel.entered a).kPt = x.kernel.kPt := by
      cases a <;> rfl
    rw [(take_memoryEffect hlive).low hfork hi, hentered]
  refine ⟨hquiescent, hstacks, ⟨fun i hi => ?_, ?_, fun i hi => ?_⟩, h.picked⟩
  · have hi' : i < kernelStackBase := Nat.lt_of_lt_of_le hi (Nat.sub_le _ _)
    exact (congrArg Pte.pfn (hlow i hi')).trans (h.region0.identity i hi)
  · exact (hlow reservedPage (by decide)).trans h.region0.reserved
  · exact hstacks.stack_valid hi

/-- Letting the heap grow keeps everything. -/
theorem grown {s : Kernel} {kPt : Nat → Pte} (hquiescent : s.Quiescent)
    (hstacks : StacksMapped s)
    (hregion : Region0 kPt)
    (hstack : ∀ i, i < kernelStackSize →
      kPt (kernelStackBase + i) = s.kPt (kernelStackBase + i))
    {y : Store Page} (hy : y.kernel = s.setKPt kPt)
    (hpicked : ∀ i ∈ y.picked, i = reservedPage) : y.Intact where
  quiescent := by
    rw [hy]
    exact hquiescent.of_core rfl
  mapped := by
    rw [hy]
    exact hstacks.setKPt hstack
  region0 := by
    rw [hy]
    exact hregion
  picked := hpicked

theorem reserved_le (i : Nat) : reservedPage ≤ kernelStackBase + i :=
  Nat.le_trans (Nat.sub_le _ _) (Nat.le_add_right _ _)

theorem setKernelBrk (h : x.Intact) (addr : Nat) :
    (x.take (.setKernelBrk addr)).Intact := by
  obtain ⟨kPt, hgrown, hkernel, hpicked⟩ := x.setKernelBrks_kernel [addr]
  refine grown h.quiescent h.mapped (h.region0.grown hgrown) (fun i _ => ?_)
    hkernel ?_
  · exact hgrown.above (reserved_le i)
  · show ∀ i ∈ (x.setKernelBrks [addr]).picked, i = reservedPage
    rw [hpicked]
    exact h.picked

theorem fork (h : x.Intact) {ctx : UserContext} {pid : Nat}
    {calls : ForkCalls} {own : Nat → Page}
    (henabled : (forkLabel ctx pid).Enabled x.kernel)
    (hok : ForkSucceeds x (.fork ctx pid calls own)) :
    (x.take (.fork ctx pid calls own)).Intact := by
  obtain ⟨hmode, hresult⟩ := hok
  have hmode : ((x.withKernel (x.kernel.enter ctx)).kernelFork pid calls
      own).kernel.mode = .user := hmode
  have hregion : Region0 (x.withKernel (x.kernel.enter ctx)).kernel.kPt :=
    h.region0
  have hdefined : ((x.withKernel (x.kernel.enter ctx)).kernelFork pid calls
      own).kernel.mode ≠ .undefined := by
    rw [hmode]
    exact nofun
  obtain ⟨kPt, hgrown, hkernel, hpicked⟩ :=
    Store.kernelFork_kernel hregion hdefined hresult
  have hmodeCoarse : ((x.kernel.enter ctx).kernelFork pid).mode = .user := by
    rw [hkernel] at hmode
    exact hmode
  have hlive : (x.kernel.take (forkLabel ctx pid)).Live := .inl hmodeCoarse
  obtain ⟨hquiescent, hstacks⟩ := h.taken henabled hlive
  refine grown hquiescent hstacks (h.region0.grown hgrown) (fun i hi => ?_)
    hkernel ?_
  · have hcoarse : ((x.kernel.enter ctx).kernelFork pid).mode ≠
        .undefined := by
      rw [hmodeCoarse]
      exact nofun
    have hmade := (kernelFork_made hcoarse).1.kPt (kernelStackBase + i)
    rw [hgrown.above (reserved_le i)]
    rcases hmade with hsame | ⟨_, hinvalid⟩
    · exact hsame.symm
    · have hvalid := h.region0.stack i hi
      exact absurd (hvalid.symm.trans hinvalid) nofun
  · intro i hi
    have hi : i ∈ ((x.withKernel (x.kernel.enter ctx)).kernelFork pid calls
      own).picked := hi
    rw [hpicked] at hi
    rcases List.mem_cons.1 hi with rfl | hi
    · rfl
    · rcases List.mem_cons.1 hi with rfl | hi
      · rfl
      · exact h.picked i hi

end Store.Intact

variable {x : Store Page}

/-- A step that ends in a live state started in one. -/
theorem Store.take_live {l : StoreLabel Page} (henabled : l.Enabled x)
    (hlive : (x.take l).kernel.Live) : x.kernel.Live := by
  cases l with
  | take a ram => exact henabled.1.live
  | fork ctx pid calls own => exact .inl henabled.1
  | setKernelBrk addr => exact hlive

theorem store_intact
    (h : TransitionSystem.Reach StoreBooted StoreStep ForkSucceeds x)
    (hlive : x.kernel.Live) : x.Intact := by
  revert hlive
  refine h.invariant (P := fun x => x.kernel.Live → x.Intact) ?_ ?_
  · intro x hbooted hlive
    exact .booted hbooted hlive
  · intro x l x' _ ih hok hstep hlive
    cases hstep with
    | take henabled =>
        have hintact := ih (Store.take_live henabled hlive)
        cases l with
        | take a ram => exact hintact.take ram henabled.1 henabled.2 hlive
        | fork ctx pid calls own => exact hintact.fork henabled hok
        | setKernelBrk addr => exact hintact.setKernelBrk addr

/--
At every return to user mode Region 0 below the stack is identity-mapped, the
page that forks copied and will copy through is the one just below the stack,
unmapped and with its frame number cleared, and `SetKernelBrk` never writes it.
-/
theorem kernel_memory_identity_mapped
    (h : TransitionSystem.Reach StoreBooted StoreStep ForkSucceeds x)
    (huser : x.kernel.mode = .user) :
    (∀ i, i < kernelStackBase → (x.kernel.kPt i).valid = true →
        (x.kernel.kPt i).pfn = i) ∧
      (∀ i ∈ x.picked, i = reservedPage) ∧
      reservedKernelIndex x.kernel.kPt = some reservedPage ∧
      x.kernel.kPt reservedPage = invalidPte ∧
      ∀ (heap : KernelHeap) (addr : Nat),
        (heap.setKernelBrk addr).2.kPt reservedPage = heap.kPt reservedPage := by
  have hintact := store_intact h (.inl huser)
  refine ⟨?_, hintact.picked, hintact.region0.search, hintact.region0.reserved,
    ?_⟩
  · intro i hi hvalid
    exact hintact.region0.valid_identity hi hvalid
  · intro heap addr
    exact (heap.setKernelBrk_grown addr).above (Nat.le_refl _)

/-- The first process has run; memory is not looked at. -/
def smallStore : Store Unit where
  kernel := (Boot.small 20).kernelStart
  kernelBrk := 40 * pageSize
  ram := fun _ => ()
  picked := []

/-- The heap grows to the page below the reserved one, and a fork copies. -/
def growAndFork : List (StoreLabel Unit) :=
  tick.map (fun a => .take a (fun _ => ())) ++
    [.setKernelBrk (kernelStackAddr - 1),
      .fork ⟨0, 0⟩ 2 ⟨[50 * pageSize], fun _ => [], []⟩ (fun _ => ())]

theorem kernel_memory_identity_mapped_growAndFork :
    (growAndFork.foldl Store.take smallStore).picked =
        [reservedPage, reservedPage] ∧
      (∀ i ∈ (growAndFork.foldl Store.take smallStore).picked,
        i = reservedPage) := by
  have hmode : (Boot.small 20).kernelStart.mode = .user := by decide +kernel
  have hstart : TransitionSystem.Reach StoreBooted StoreStep ForkSucceeds
      smallStore :=
    .start ⟨⟨Boot.small 20, Boot.small_wellFormed 20, rfl, hmode⟩, rfl⟩
  have hadmits : TransitionSystem.Admits Store.take
      (fun x l => l.Enabled x ∧ ForkSucceeds x l) smallStore growAndFork := by
    decide +kernel
  have hreach := hstart.run (fun x l hok => ⟨hok.2, .take hok.1⟩) growAndFork
    hadmits
  have huser : (growAndFork.foldl Store.take smallStore).kernel.mode =
      .user := by
    decide +kernel
  refine ⟨by decide +kernel, ?_⟩
  exact (kernel_memory_identity_mapped hreach huser).2.1

end Yalnix
