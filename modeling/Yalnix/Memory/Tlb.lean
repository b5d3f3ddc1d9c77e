import Yalnix.Foundation.TranslationCache
import Yalnix.Memory.KernelStack
import Yalnix.Memory.Loading
import Yalnix.Memory.PageLoops

/-!
# The TLB

The hardware keeps a Region 1 translation when a page is accessed while it is
valid, and drops it on a write to `REG_TLB_FLUSH` only.  `SwapProcess` and
`LoadProgram` flush what they change; `KernelBrk` does not.
-/

namespace Yalnix

open Kernel TranslationCache

/-- The Region 1 translations in the TLB, by page number. -/
abbrev Tlb := Cache Nat Pte

/-- The pages that `LoadProgram` makes executable. -/
def Layout.textPages (l : Layout) : List Nat :=
  (List.range l.textCount).map fun n : Nat => (l.textPg1 + n).toNat

namespace Kernel

/-- The page table that `REG_PTBR1` points to. -/
def region1 (s : Kernel) : Nat → Pte := s.pcb.userPageTable s.ptbr1

/-- Accesses to pages of Region 1. -/
def touch (s : Kernel) (tlb : Tlb) (pages : List Nat) : Tlb :=
  accessAll Pte.valid s.region1 tlb (pages.filter (· < userPtSize))

/-- Idle is active and nothing is ready. -/
def IdleAlone (s : Kernel) : Prop :=
  s.pcb.pid s.activePCB = s.pcb.pid s.idlePCB ∧ s.readyQ = []

instance (s : Kernel) : Decidable s.IdleAlone :=
  inferInstanceAs (Decidable (_ ∧ _))

/-- `SwapProcess` flushes Region 1, unless idle goes on alone. -/
def swapProcessTlb (s : Kernel) (tlb : Tlb) : Tlb :=
  if s.IdleAlone then tlb else TranslationCache.empty

/--
The flushes of `LoadProgram`: all of Region 1 before the old image goes and
again when the new one is mapped, then each text page after its protection has
changed.  In between the reads access the pages `image`.
-/
def loadImageTlb (s : Kernel) (file : Executable) (l : Layout) (p : PcbPtr)
    (image : List Nat) : Tlb :=
  match s.buildImage l p with
  | some (true, s) =>
      let tlb := s.touch TranslationCache.empty image
      if file.textReads ∧ file.dataReads then dropAll tlb l.textPages else tlb
  | _ => TranslationCache.empty

def kernelExecTlb (s : Kernel) (a : ExecArgs) (image : List Nat) (tlb : Tlb) :
    Tlb :=
  if !a.nonNull then tlb
  else
    let s := s.setUserContext s.activePCB ⟨0, 0⟩
    match a.file.accepted a.args with
    | none => tlb
    | some li =>
        s.loadImageTlb a.file (layout li a.args) s.activePCB image

end Kernel

/-- The Region 1 pages that the kernel accesses in a step: before the handler
changes anything, while it loads an image, and at its end. -/
structure Touched where
  before : List Nat
  image : List Nat
  after : List Nat
  deriving DecidableEq, Repr

def Label.brkAddr : Label → Option Nat
  | .trap _ (.kernel (.brk addr)) => some addr
  | _ => none

/-- The TLB when the handler of a trap has loaded a new image, if it does. -/
def Kernel.handleTlb (s : Kernel) (a : Label) (image : List Nat) (tlb : Tlb) :
    Tlb :=
  match a with
  | .trap ctx (.kernel (.exec args)) =>
      (s.enter ctx).kernelExecTlb args image tlb
  | _ => tlb

/-- The TLB after a step.  A handler that ends in kernel mode has gone through
`SwapProcess`. -/
def Kernel.takeTlb (s : Kernel) (a : Label) (touched : Touched) (tlb : Tlb) :
    Tlb :=
  -- `KernelBrk` accesses no page of Region 1 itself
  let tlb := if a.brkAddr = none then s.touch tlb touched.before else tlb
  let tlb := s.handleTlb a touched.image tlb
  let tlb := if (s.take a).mode = .kernel then s.swapProcessTlb tlb else tlb
  (s.take a).touch tlb touched.after

/-- The kernel and the TLB. -/
structure Machine where
  kernel : Kernel
  tlb : Tlb

/-- The active process accesses a page, or the kernel takes a step. -/
inductive MachineLabel where
  | access (page : Nat)
  | take (a : Label) (touched : Touched)

def MachineLabel.Enabled (m : Machine) : MachineLabel → Prop
  | .access _ => m.kernel.mode = .user
  | .take a _ => a.Enabled m.kernel

instance (m : Machine) : (l : MachineLabel) → Decidable (l.Enabled m)
  | .access _ => inferInstanceAs (Decidable (m.kernel.mode = .user))
  | .take a _ => inferInstanceAs (Decidable (a.Enabled m.kernel))

def Machine.take (m : Machine) : MachineLabel → Machine
  | .access page => ⟨m.kernel, m.kernel.touch m.tlb [page]⟩
  | .take a touched => ⟨m.kernel.take a, m.kernel.takeTlb a touched m.tlb⟩

inductive MachineStep : Machine → MachineLabel → Machine → Prop where
  | take {m : Machine} {l : MachineLabel} : l.Enabled m →
      MachineStep m l (m.take l)

/-- `KernelStart` flushes Region 1 before it returns to idle. -/
def MachineBooted (m : Machine) : Prop :=
  Booted m.kernel ∧ m.tlb = TranslationCache.empty

abbrev MachineReachable (guard : Machine → MachineLabel → Prop) :
    Machine → Prop :=
  TransitionSystem.Reach MachineBooted MachineStep guard

theorem MachineReachable.kernel {guard : Machine → MachineLabel → Prop}
    {m : Machine} (h : MachineReachable guard m) :
    Reachable (fun _ _ => True) m.kernel := by
  induction h with
  | start hbooted => exact .start hbooted.1
  | @next m _ l _ _ hstep ih =>
      cases hstep with
      | take henabled =>
          cases l with
          | access page => exact ih
          | take a touched => exact .next ih trivial (.take henabled)

namespace Kernel

variable {s s' : Kernel} {p : PcbPtr}

/-! ## Loading -/

theorem buildImage_ptbr1 {l : Layout} {ok : Bool}
    (h : s.buildImage l p = some (ok, s')) : s'.ptbr1 = p := by
  have hload {s s' : Kernel} {first : Int} {count : Nat} {ok : Bool}
      (h : s.loadSegment p first count = some (ok, s')) (hp : s.ptbr1 = p) :
      s'.ptbr1 = p := by
    rcases (loadSegment_rewritten h).ptbr1 with hsame | hp'
    · exact hsame.trans hp
    · exact hp'
  unfold buildImage at h
  simp only at h
  split at h
  · cases h
  · rename_i htext
    cases h
    exact hload htext rfl
  · rename_i s₁ htext
    have h₁ : s₁.ptbr1 = p := hload htext rfl
    split at h
    · cases h
    · rename_i hdata
      cases h
      exact hload hdata h₁
    · rename_i s₂ hdata
      have h₂ : s₂.ptbr1 = p := hload hdata h₁
      exact hload h h₂

theorem touch_coherent {tlb : Tlb} (h : Coherent Pte.valid s.region1 tlb)
    (pages : List Nat) : Coherent Pte.valid s.region1 (s.touch tlb pages) :=
  h.accessAll _

/-- After a load the TLB holds entries of the new image only. -/
theorem loadImage_coherent {file : Executable} {li : LoadInfo} {l : Layout}
    {code : Int} (h : s.loadImage file li l p = some (code, s'))
    (image : List Nat) : Coherent Pte.valid (s'.pcb.userPageTable p)
      (s.loadImageTlb file l p image) := by
  rw [loadImage_eq] at h
  unfold loadImageTlb
  cases hbuild : s.buildImage l p with
  | none =>
      rw [hbuild] at h
      cases h
  | some built =>
      obtain ⟨ok, s₁⟩ := built
      cases ok with
      | false => exact .of_empty
      | true =>
          have htable : s₁.region1 = s₁.pcb.userPageTable p := by
            rw [region1, buildImage_ptbr1 hbuild]
          have htouched := touch_coherent (s := s₁) .of_empty image
          rw [htable] at htouched
          rw [hbuild] at h
          simp only
          rcases readImage_cases h with ⟨-, rfl, hreads⟩ | ⟨-, hreads, rfl⟩
          · rw [if_neg hreads]
            exact htouched
          · rw [if_pos hreads]
            change Coherent _ (upd _ p _ p) _
            rw [upd_same]
            refine htouched.dropAll _ fun i hi => protectText_outside ?_
            intro n hn heq
            exact hi (List.mem_map.2 ⟨n, List.mem_range.2 hn, heq.symm⟩)

theorem kernelExec_coherent {a : ExecArgs} {code : Int} {tlb : Tlb}
    (h : s.kernelExec a = some (code, s')) (hcode : code ≠ Rc.error)
    (image : List Nat) : Coherent Pte.valid
      (s'.pcb.userPageTable s.activePCB) (s.kernelExecTlb a image tlb) := by
  unfold kernelExec at h
  unfold kernelExecTlb
  split at h
  · cases h
    exact absurd rfl hcode
  · rename_i hnonNull
    rw [if_neg hnonNull]
    simp only at h ⊢
    split at h
    · cases h
    · rename_i code₁ s₁ hload
      have hs₁ : s₁ = s' ∧ code₁ ≠ Rc.error := by
        split at h
        · cases h
          exact absurd rfl hcode
        · rename_i hne
          cases h
          exact ⟨rfl, hne⟩
      rw [loadProgram_eq] at hload
      cases haccepted : a.file.accepted a.args with
      | none =>
          rw [haccepted] at hload
          cases hload
          exact absurd rfl hs₁.2
      | some li =>
          rw [haccepted] at hload
          rw [← hs₁.1]
          exact loadImage_coherent hload image

/-! ## Brk and memory traps -/

/-- The pages that `Brk(addr)` unmaps, when its checks let it through. -/
def brkFrees (s : Kernel) (addr : Nat) : List Nat :=
  let heapIndex := s.pcb.userHeapPtIndex s.activePCB
  let target := brkTarget addr
  let pages := (List.range (heapIndex - target).toNat).map (target.toNat + ·)
  if addr = 0 ∨ s.pcb.userStackPtIndex s.activePCB ≤ target ∨
      target ≤ s.pcb.userDataPtIndex s.activePCB ∨
      pages.any fun i => !(s.pcb.userPageTable s.activePCB i).valid then []
  else pages

theorem grown_table {first count i : Nat}
    (hvalid : (s.pcb.userPageTable s.activePCB i).valid = true) :
    upd s.pcb.userPageTable s.activePCB (growPages first count
      (s.pcb.userPageTable s.activePCB) s.pfnList).2.1 s.activePCB i =
        s.pcb.userPageTable s.activePCB i := by
  rw [upd_same]
  exact growPages_valid hvalid

/-- A mapped page stays mapped if `Brk` does not unmap it. -/
theorem kernelBrk_table {addr i : Nat}
    (hvalid : (s.pcb.userPageTable s.activePCB i).valid = true)
    (hkept : i ∉ s.brkFrees addr) :
    (s.kernelBrk addr).pcb.userPageTable s.activePCB i =
      s.pcb.userPageTable s.activePCB i := by
  unfold kernelBrk
  simp only
  split
  · rfl
  · rename_i hnonNull
    split
    · rfl
    · rename_i hinside
      split
      · split
        · rfl
        · split
          · rfl
          · split
            · exact grown_table hvalid
            · exact grown_table hvalid
      · rename_i hshrinks
        split
        · rfl
        · rename_i hinTable
          split
          · rfl
          · rename_i hmapped
            show upd s.pcb.userPageTable s.activePCB (shrinkPages _ _
              (s.pcb.userPageTable s.activePCB) s.pfnList).1 s.activePCB i = _
            rw [upd_same]
            refine shrinkPages_outside ?_
            by_contra hin
            refine hkept ?_
            unfold brkFrees
            simp only
            rw [if_neg]
            · rw [List.mem_map]
              refine ⟨i - (brkTarget addr).toNat, List.mem_range.2 ?_, ?_⟩
              · omega
              · omega
            · rintro (h | h | h | h)
              · exact hnonNull h
              · exact hinside (.inl h)
              · exact hinside (.inr h)
              · rw [List.any_map] at h
                exact hmapped h

theorem trapMemoryHandler_grows {addr : Nat} {beyondValid : Bool}
    (hfatal : ¬ s.FatalFault addr beyondValid) :
    s.trapMemoryHandler addr beyondValid = s.toUndefined ∨
      ∃ first count pool, s.trapMemoryHandler addr beyondValid =
        ((s.setUserPageTable s.activePCB (growPages first count
          (s.pcb.userPageTable s.activePCB) s.pfnList).2.1).setPfnList
            pool).toUser := by
  unfold FatalFault at hfatal
  unfold trapMemoryHandler
  simp only
  rw [if_neg hfatal]
  split
  · exact .inl rfl
  · exact .inr ⟨_, _, _, rfl⟩

/-- A memory trap that is not fatal leaves mapped pages as they are. -/
theorem trapMemoryHandler_table {addr i : Nat} {beyondValid : Bool}
    (hfatal : ¬ s.FatalFault addr beyondValid)
    (hvalid : (s.pcb.userPageTable s.activePCB i).valid = true) :
    (s.trapMemoryHandler addr beyondValid).pcb.userPageTable s.activePCB i =
      s.pcb.userPageTable s.activePCB i := by
  rcases trapMemoryHandler_grows hfatal with heq | ⟨first, count, pool, heq⟩
  · rw [heq]
    rfl
  · rw [heq]
    exact grown_table hvalid

theorem trapMemoryHandler_fatal {addr : Nat} {beyondValid : Bool}
    (hfatal : s.FatalFault addr beyondValid) :
    s.trapMemoryHandler addr beyondValid = s.kernelExit Rc.error := by
  unfold FatalFault at hfatal
  unfold trapMemoryHandler
  simp only
  rw [if_pos hfatal]

/-! ## One step -/

theorem swapped_of_alone {q : Option QueueRef} {k : KernelContext}
    (h : s.IdleAlone) : (s.swapped q k).activePCB = s.activePCB := by
  unfold IdleAlone at h
  unfold swapped
  rw [if_pos h]
  rfl

/-- Idle goes on alone. -/
theorem Effect.activePCB_of_alone {a : Label} (h : Effect s a s')
    (halone : s.IdleAlone)
    (hidle : s.activePCB ≠ s.idlePCB → ¬ s.IdleAlone) :
    s'.activePCB = s.activePCB := by
  have hother (hne : s.activePCB ≠ s.idlePCB) : s'.activePCB = s.activePCB :=
    absurd halone (hidle hne)
  rcases h.active with hsame | hkernel
  · exact hsame
  · cases h with
    | exit hne => exact hother hne
    | fault hne => exact hother hne
    | waitSleeps hne => exact hother hne
    | delay hne => exact hother hne
    | clock => exact swapped_of_alone halone
    | ttyReadSleeps hne => exact hother hne
    | ttyWriteWaits hne => exact hother hne
    | ttyWriteSleeps _ _ _ _ hwrites =>
        cases hwrites with
        | call hne => exact hother hne
        | resume => exact swapped_of_alone halone
    | pipeSleeps => exact swapped_of_alone halone
    | _ => cases hkernel

theorem handleTlb_of_not_exec {a : Label} {tlb : Tlb} (image : List Nat)
    (h : ∀ ctx args, a ≠ .trap ctx (.kernel (.exec args))) :
    s.handleTlb a image tlb = tlb := by
  unfold handleTlb
  split
  · rename_i ctx args
    exact absurd rfl (h ctx args)
  · rfl

theorem quiet_userPageTable {m m' : Memory} (h : m.Quiet m') :
    m'.userPageTable = m.userPageTable := by
  cases h with
  | keeps => rfl
  | parks => rfl
  | switches next =>
      unfold Memory.switch Memory.reload
      split
      · rfl
      · rfl

/-- The handler has not passed the flush of `SwapProcess`. -/
def Unflushed (s : Kernel) (a : Label) : Prop :=
  (s.take a).mode = .kernel → s.IdleAlone

variable {tlb : Tlb} {ctx : UserContext}

theorem kernelBrk_coherent {addr : Nat}
    (h : Coherent Pte.valid (s.pcb.userPageTable s.activePCB) tlb)
    (hfrees : ∀ i ∈ s.brkFrees addr, tlb i = none) :
    Coherent Pte.valid ((s.kernelBrk addr).pcb.userPageTable s.activePCB)
      tlb := by
  refine h.rewrite fun i hcached => kernelBrk_table ?_ ?_
  · obtain ⟨pte, hpte⟩ := Option.ne_none_iff_exists'.1 hcached
    obtain ⟨heq, hvalid⟩ := h i pte hpte
    rw [heq, hvalid]
  · exact fun hmem => hcached (hfrees i hmem)

theorem execCase_coherent {args : ExecArgs} (image : List Nat)
    (hdefined : (s.execCase args).mode ≠ .undefined)
    (hmode : (s.execCase args).mode ≠ .kernel) :
    Coherent Pte.valid ((s.execCase args).pcb.userPageTable s.activePCB)
      (s.kernelExecTlb args image tlb) := by
  unfold execCase at hdefined hmode ⊢
  rcases hexec : s.kernelExec args with _ | ⟨code, s₁⟩
  · rw [hexec] at hdefined
    exact absurd rfl hdefined
  · rw [hexec] at hmode
    simp only at hmode ⊢
    by_cases hcode : code = Rc.error
    · rw [if_neg fun hne => hne hcode] at hmode
      exact absurd (kernelExit_mode _) hmode
    · rw [if_pos hcode]
      exact kernelExec_coherent hexec hcode image

/-- A step that stays with the active process and does not flush. -/
theorem handleTlb_coherent {a : Label} (hcensus : Census s.Member s)
    (henabled : a.Enabled s) (hlive : (s.take a).Live)
    (hunflushed : s.Unflushed a)
    (hbrk : ∀ addr ∈ a.brkAddr, ∀ i ∈ s.brkFrees addr, tlb i = none)
    (h : Coherent Pte.valid (s.pcb.userPageTable s.activePCB) tlb)
    (image : List Nat) :
    Coherent Pte.valid ((s.take a).pcb.userPageTable s.activePCB)
      (s.handleTlb a image tlb) := by
  have hother : s.activePCB ≠ s.idlePCB → (s.take a).mode ≠ .kernel := by
    intro hne hkernel
    have hpid := (hunflushed hkernel).1
    rw [hcensus.idle, hcensus.idle_pid] at hpid
    exact hcensus.pid_pos _ (hcensus.running hne) hpid
  have hquiet (hexec : ∀ ctx args, a ≠ .trap ctx (.kernel (.exec args)))
      (htable : (s.take a).pcb.userPageTable = s.pcb.userPageTable) :
      Coherent Pte.valid ((s.take a).pcb.userPageTable s.activePCB)
        (s.handleTlb a image tlb) := by
    rw [handleTlb_of_not_exec image hexec, htable]
    exact h
  cases a with
  | resume =>
      exact hquiet (fun _ _ heq => nomatch heq)
        (quiet_userPageTable (resume_quiet (s := s)))
  | trap ctx t =>
      have hdefined : (s.take (.trap ctx t)).mode ≠ .undefined := by
        rcases hlive with hlive | hlive
        · rw [hlive]
          exact nofun
        · rw [hlive]
          exact nofun
      cases hmemory : t.usesMemory with
      | false =>
          refine hquiet ?_ (quiet_userPageTable
            (handle_quiet (s := s.enter ctx) hmemory))
          rintro _ _ ⟨⟩
          cases hmemory
      | true =>
          cases t with
          | kernel call =>
              have hne (hidle : call.idleCall = false) :
                  s.activePCB ≠ s.idlePCB := by
                rcases henabled.2.1 with hne | hcall
                · exact hne
                · rw [hidle] at hcall
                  cases hcall
              cases call with
              | fork pid =>
                  rw [handleTlb_of_not_exec image (by rintro _ _ ⟨⟩)]
                  have hmade := (kernelFork_made (s := s.enter ctx) hdefined).1
                  have htable := hmade.userPageTable s.activePCB
                    (Nat.ne_of_lt hcensus.active)
                  exact h.rewrite fun i _ => congrFun htable i
              | exec args =>
                  exact execCase_coherent (s := s.enter ctx) image hdefined
                    (hother (hne rfl))
              | exit code =>
                  exact absurd (kernelExit_mode code) (hother (hne rfl))
              | brk addr =>
                  exact kernelBrk_coherent (s := s.enter ctx) h (hbrk addr rfl)
              | _ => cases hmemory
          | memory addr beyondValid =>
              rw [handleTlb_of_not_exec image (by rintro _ _ ⟨⟩)]
              have htake : s.take (.trap ctx (.memory addr beyondValid)) =
                  (s.enter ctx).trapMemoryHandler addr beyondValid := rfl
              by_cases hfatal : (s.enter ctx).FatalFault addr beyondValid
              · have hmode := hother henabled.2
                rw [htake, trapMemoryHandler_fatal hfatal] at hmode
                exact absurd (kernelExit_mode _) hmode
              · rw [htake]
                refine h.grow fun i hvalid => ?_
                have hpcb : (s.enter ctx).pcb = s.pcb := rfl
                have hactive : (s.enter ctx).activePCB = s.activePCB := rfl
                have htable := trapMemoryHandler_table (i := i) hfatal
                rw [hpcb, hactive] at htable
                exact htable hvalid
          | _ => cases hmemory

end Kernel

/-! ## Runs -/

def MachineLabel.brkAddr : MachineLabel → Option Nat
  | .access _ => none
  | .take a _ => a.brkAddr

/-- No page that `Brk` unmaps is in the TLB. -/
def UncachedBrk (m : Machine) (l : MachineLabel) : Prop :=
  ∀ addr ∈ l.brkAddr, ∀ i ∈ m.kernel.brkFrees addr, m.tlb i = none

instance (m : Machine) (l : MachineLabel) : Decidable (UncachedBrk m l) :=
  inferInstanceAs (Decidable (∀ addr ∈ l.brkAddr, _))

theorem Reachable.region1 {guard : Kernel → Label → Prop} {s : Kernel}
    (h : Reachable guard s) (hlive : s.Live) :
    s.region1 = s.pcb.userPageTable s.activePCB := by
  obtain ⟨_, -, hmapped⟩ := h.stacksMapped hlive
  have hptbr1 : s.ptbr1 = s.activePCB := hmapped.ptbr1
  rw [Kernel.region1, hptbr1]

/-- Without the flush of `SwapProcess` the active process stays the same. -/
theorem Reachable.activePCB_of_unflushed {guard : Kernel → Label → Prop}
    {s : Kernel} {a : Label} (h : Reachable guard s) (henabled : a.Enabled s)
    (hlive : (s.take a).Live) (hunflushed : s.Unflushed a) :
    (s.take a).activePCB = s.activePCB := by
  have hquiet := h.quiescent henabled.live
  have hcensus := (h.census henabled.live).of_core_member (entered_core a)
  obtain ⟨r, heffect, hcore⟩ := take_hasEffect hquiet.sync hquiet.zero_used
    henabled hlive
  have hentered := entered_core (s := s) a
  have hmode : (s.take a).mode = r.mode := (congrArg Kernel.mode hcore :)
  have hactive : (s.take a).activePCB = r.activePCB :=
    (congrArg Kernel.activePCB hcore :)
  have hsame : (s.entered a).activePCB = s.activePCB :=
    (congrArg Kernel.activePCB hentered :)
  rw [hactive, ← hsame]
  rcases heffect.active with hstays | hkernel
  · exact hstays
  · have halone : (s.entered a).IdleAlone := by
      cases a with
      | trap ctx t => exact hunflushed (hmode.trans hkernel)
      | resume => exact hunflushed (hmode.trans hkernel)
    refine heffect.activePCB_of_alone halone fun hne hother => ?_
    have hpid := hother.1
    rw [hcensus.idle, hcensus.idle_pid] at hpid
    exact hcensus.pid_pos _ (hcensus.running hne) hpid

/-- A step of the kernel keeps the TLB in agreement with the page table. -/
theorem takeTlb_coherent {s : Kernel} {a : Label} {tlb : Tlb}
    (hreach : Reachable (fun _ _ => True) s) (henabled : a.Enabled s)
    (hlive : (s.take a).Live)
    (hbrk : ∀ addr ∈ a.brkAddr, ∀ i ∈ s.brkFrees addr, tlb i = none)
    (h : Coherent Pte.valid s.region1 tlb) (touched : Touched) :
    Coherent Pte.valid (s.take a).region1 (s.takeTlb a touched tlb) := by
  unfold takeTlb
  simp only
  refine touch_coherent ?_ _
  by_cases hunflushed : s.Unflushed a
  · have hnext : Reachable (fun _ _ => True) (s.take a) :=
      .next hreach trivial (.take henabled)
    have hbefore : Coherent Pte.valid s.region1
        (if a.brkAddr = none then s.touch tlb touched.before else tlb) := by
      split
      · exact touch_coherent h _
      · exact h
    rw [hreach.region1 henabled.live] at hbefore
    have hfrees : ∀ addr ∈ a.brkAddr, ∀ i ∈ s.brkFrees addr,
        (if a.brkAddr = none then s.touch tlb touched.before else tlb) i =
          none := by
      intro addr haddr
      have hne : a.brkAddr ≠ none := by
        rw [Option.mem_def.1 haddr]
        exact Option.some_ne_none addr
      rw [if_neg hne]
      exact hbrk addr haddr
    rw [hnext.region1 hlive,
      hreach.activePCB_of_unflushed henabled hlive hunflushed]
    have hhandled := handleTlb_coherent (hreach.census henabled.live) henabled
      hlive hunflushed hfrees hbefore touched.image
    split
    · rename_i hkernel
      rw [swapProcessTlb, if_pos (hunflushed hkernel)]
      exact hhandled
    · exact hhandled
  · unfold Unflushed at hunflushed
    rw [Classical.not_imp] at hunflushed
    rw [if_pos hunflushed.1, swapProcessTlb, if_neg hunflushed.2]
    exact .of_empty

theorem MachineReachable.coherent {m : Machine}
    (h : MachineReachable UncachedBrk m) (hlive : m.kernel.Live) :
    Coherent Pte.valid m.kernel.region1 m.tlb := by
  revert hlive
  refine h.invariant (P := fun m => m.kernel.Live →
    Coherent Pte.valid m.kernel.region1 m.tlb) ?_ ?_
  · intro m hbooted _
    rw [hbooted.2]
    exact .of_empty
  · intro m l m' hreach ih hbrk hstep hlive
    cases hstep with
    | take henabled =>
        cases l with
        | access page => exact touch_coherent (ih hlive) [page]
        | take a touched =>
            have hkernel := MachineReachable.kernel hreach
            exact takeTlb_coherent hkernel henabled hlive hbrk
              (ih (Label.Enabled.live henabled)) touched

/--
In a run in which no `Brk` unmaps a page that is in the TLB, every Region 1
translation in the TLB is a valid entry of the active process's page table
whenever the machine is in user mode.
-/
theorem tlb_agrees_with_page_table {m : Machine}
    (h : MachineReachable UncachedBrk m) (huser : m.kernel.mode = .user)
    (i : Nat) (pte : Pte) (hcached : m.tlb i = some pte) :
    m.kernel.pcb.userPageTable m.kernel.activePCB i = pte ∧
      pte.valid = true := by
  have hcoherent := h.coherent (.inl huser)
  rw [h.kernel.region1 (.inl huser)] at hcoherent
  exact hcoherent i pte hcached

/-! ## Concrete runs -/

/-- The small machine after its boot, with an empty TLB. -/
def smallMachine : Machine :=
  ⟨(Boot.small 20).kernelStart, TranslationCache.empty⟩

theorem machineReachable_small {guard : Machine → MachineLabel → Prop}
    (labels : List MachineLabel)
    (hmode : smallMachine.kernel.mode = .user)
    (hadmits : TransitionSystem.Admits Machine.take
      (fun m l => l.Enabled m ∧ guard m l) smallMachine labels) :
    MachineReachable guard (labels.foldl Machine.take smallMachine) :=
  TransitionSystem.Reach.run (fun _ _ hok => ⟨hok.2, .take hok.1⟩)
    (.start ⟨⟨Boot.small 20, Boot.small_wellFormed 20, rfl, hmode⟩, rfl⟩)
    labels hadmits

/-- A step in which the kernel accesses no page of Region 1. -/
def untouched (a : Label) : MachineLabel := .take a ⟨[], [], []⟩

/-- The break is raised by two pages; `page` is accessed, and the break is
lowered by one page. -/
def raiseAndLower (page : Nat) : List MachineLabel :=
  tick.map untouched ++
    [untouched (call (.brk ((vmem1BasePage + 4) * pageSize))), .access page,
      untouched (call (.brk ((vmem1BasePage + 3) * pageSize)))]

/-- The page below the new break stays in the TLB. -/
theorem tlb_agrees_with_page_table_small :
    let m := (raiseAndLower 2).foldl Machine.take smallMachine
    m.tlb 2 = some ⟨true, Prot.noXWR, 136⟩ ∧
      m.kernel.pcb.userPageTable m.kernel.activePCB 2 =
        ⟨true, Prot.noXWR, 136⟩ := by
  intro m
  have hreach : MachineReachable UncachedBrk m :=
    machineReachable_small _ (by decide +kernel) (by decide +kernel)
  have hcached : m.tlb 2 = some ⟨true, Prot.noXWR, 136⟩ := by decide +kernel
  exact ⟨hcached,
    (tlb_agrees_with_page_table hreach (by decide +kernel) 2 _ hcached).1⟩

/-- The page above the new break is unmapped, its frame is free again, and the
TLB still has its translation. -/
theorem brk_leaves_stale_translation :
    ¬ ∀ (m : Machine) (i : Nat) (pte : Pte),
      MachineReachable (fun _ _ => True) m → m.kernel.mode = .user →
      m.tlb i = some pte →
      m.kernel.pcb.userPageTable m.kernel.activePCB i = pte ∧
        pte.valid = true := by
  intro hall
  let m := (raiseAndLower 3).foldl Machine.take smallMachine
  have hreach : MachineReachable (fun _ _ => True) m :=
    machineReachable_small _ (by decide +kernel) (by decide +kernel)
  have hcached : m.tlb 3 = some ⟨true, Prot.noXWR, 137⟩ := by decide +kernel
  have hentry := (hall m 3 _ hreach (by decide +kernel) hcached).1
  have hunmapped : m.kernel.pcb.userPageTable m.kernel.activePCB 3 =
      invalidPte := by
    decide +kernel
  rw [hunmapped] at hentry
  exact absurd hentry (by decide)

end Yalnix
