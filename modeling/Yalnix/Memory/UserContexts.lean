import Yalnix.Memory.KernelStack
import Yalnix.Process.ExecResult

/-!
# The user context a process returns with

`sp` and `pc` are kept on the kernel stack of a process and, while another one
runs, in its PCB.  `SwapProcess` copies them back and forth.  A process that
`KCCopy` made resumes with the copy on its stack: for a forked child that is its
parent's context, for the first program it is the context of idle.  An `Exec`
that fails a read returns with the context that `KernelExec` has cleared.
-/

namespace Yalnix

open Kernel

/-! ## What a process should return with -/

/-- What the `LoadProgram` of an `Exec` has stored when it returns `SUCCESS`. -/
def Kernel.execStored (s : Kernel) (e : ExecArgs) : Option UserContext :=
  if e.nonNull then
    (s.setUserContext s.activePCB ⟨0, 0⟩).storedBy e.file e.args s.activePCB
  else none

/-- What the two `LoadProgram`s of `KernelStart` have stored, for idle and for
the first program. -/
def Boot.firstContexts (b : Boot) (p : PcbPtr) : Option UserContext :=
  if p = 0 then
    match b.setUpGlobals.initProcess none 0 b.uctxt with
    | none => none
    | some (idle, s) => s.storedBy b.idleFile b.idleArgs idle
  else
    match b.startIdle with
    | none => none
    | some (idle, s) =>
        match s.initProcess (some idle) b.progPid b.uctxt with
        | none => none
        | some (prog, s) => s.storedBy b.progFile b.progArgs prog

/--
The context that each process has to return with after a step: after a trap its
own, after a successful `Exec` the one that `LoadProgram` stored; a child starts
with the context of the `Fork` trap.
-/
def Kernel.expects (s : Kernel) (expected : PcbPtr → Option UserContext) :
    Label → PcbPtr → Option UserContext
  | .resume => expected
  | .trap ctx (.kernel (.fork _)) =>
      upd (upd expected s.activePCB (some ctx)) s.npcb (some ctx)
  | .trap ctx (.kernel (.exec e)) =>
      upd expected s.activePCB (some (((s.enter ctx).execStored e).getD ctx))
  | .trap ctx _ => upd expected s.activePCB (some ctx)

/-- The runs of a boot whose steps meet the guard, with the contexts to return
with.  There is none for a program that the boot has not loaded. -/
inductive Expecting (b : Boot) (guard : Kernel → Label → Prop) :
    Kernel → (PcbPtr → Option UserContext) → Prop where
  | boot : Expecting b guard b.kernelStart b.firstContexts
  | step {s : Kernel} {expected : PcbPtr → Option UserContext} {a : Label} :
      Expecting b guard s expected → a.Enabled s → guard s a →
      Expecting b guard (s.take a) (s.expects expected a)

/-- Every return to user mode is with the process's own context. -/
def Boot.OwnContexts (b : Boot) (guard : Kernel → Label → Prop) : Prop :=
  ∀ s expected, Expecting b guard s expected → s.mode = .user →
    some (s.uctxt s.activePCB) = expected s.activePCB

/-- The file passes the checks of the loader and the image gets its frames, but
one of its reads fails. -/
def Kernel.ExecKilled (s : Kernel) (e : ExecArgs) : Prop :=
  e.nonNull = true ∧ ∃ li ∈ e.file.accepted e.args,
    (∀ i ∈ mappedSubscripts (layout li e.args) (s.freedPool s.activePCB),
        0 ≤ i ∧ i < userPtSize) ∧
      (layout li e.args).FramesIn (s.freedPool s.activePCB) ∧
        ¬ (e.file.textReads = true ∧ e.file.dataReads = true)

/-- The step is no `Exec` that fails a read. -/
def NoExecKilled (s : Kernel) : Label → Prop
  | .trap _ (.kernel (.exec e)) => ¬ s.ExecKilled e
  | _ => True

namespace Kernel

variable {s s₁ : Kernel} {e : ExecArgs} {code : Int}

/-- An `Exec` that fails or does not return has stored nothing. -/
theorem execStored_eq_none (h : ∀ r, s.kernelExec e = some r →
    r.1 = Rc.error) : s.execStored e = none := by
  have hactive : (s.setUserContext s.activePCB ⟨0, 0⟩).activePCB =
    s.activePCB := rfl
  unfold kernelExec at h
  unfold execStored storedBy
  cases hnull : e.nonNull with
  | false => rfl
  | true =>
      simp only [hnull, hactive, Bool.not_true, Bool.false_eq_true,
        if_false] at h
      rw [if_pos rfl]
      rcases hload : (s.setUserContext s.activePCB ⟨0, 0⟩).loadProgram e.file
        e.args s.activePCB with _ | ⟨code, r⟩
      · rfl
      · simp only [hload] at h
        have hcode : code = Rc.error := by
          by_contra hne
          have hzero := h (0, r) (if_neg hne)
          cases hzero
        simp only [hcode]
        rfl

/-- An `Exec` that returns `0` has stored a context unless a read has failed. -/
theorem execStored_eq_some (h : s.kernelExec e = some (code, s₁))
    (hcode : code ≠ Rc.error) (hkilled : ¬ s.ExecKilled e) :
    s.execStored e = some (s₁.pcb.userContext s.activePCB) := by
  have houtcome := kernelExec_outcome s e
  rw [h] at houtcome
  cases houtcome with
  | refused => exact absurd rfl hcode
  | loaded _ hcompleted =>
      unfold execStored storedBy
      rw [if_pos hcompleted.nonNull, hcompleted.returns]
      rfl
  | killed _ hnull hkill =>
      refine absurd ?_ hkilled
      rw [loadProgram_eq] at hkill
      cases haccepted : e.file.accepted e.args with
      | none =>
          rw [haccepted] at hkill
          cases hkill
      | some li =>
          rw [haccepted] at hkill
          refine ⟨hnull, li, haccepted, ?_, ?_⟩
          · intro i hi
            by_contra hout
            have hnone := (loadImage_faults_iff
              (s := s.setUserContext s.activePCB ⟨0, 0⟩) (p := s.activePCB)
              e.file li (layout li e.args)).2 (.inl ⟨i, hi, hout⟩)
            cases hnone.symm.trans hkill
          · rcases loadImage_code hkill with
              ⟨hcode, -⟩ | ⟨hframes, ⟨hcode, -⟩ | ⟨-, hreads⟩⟩
            · cases hcode
            · cases hcode
            · exact ⟨hframes, hreads⟩

end Kernel

/-! ## Where the context is kept -/

/-- The context that `p` would resume with. -/
def Memory.keptContext (m : Memory) (p : PcbPtr) : UserContext :=
  if (m.kernelContext p).reloadsUserContext then m.userContext p
  else m.uctxt p

/-- The active process has its context on the stack, the others where they will
find it. -/
structure Returns (D : PcbPtr → Prop) (expected : PcbPtr → Option UserContext)
    (m : Memory) : Prop where
  active : some (m.uctxt m.active) = expected m.active
  others : ∀ p, p = 0 ∨ D p → p ≠ m.active →
    some (m.keptContext p) = expected p

namespace Returns

variable {D : PcbPtr → Prop} {expected : PcbPtr → Option UserContext}
  {m m' : Memory}

theorem kept_congr {p : PcbPtr}
    (hcontext : m'.kernelContext p = m.kernelContext p)
    (huser : m'.userContext p = m.userContext p)
    (huctxt : m'.uctxt p = m.uctxt p) :
    m'.keptContext p = m.keptContext p := by
  unfold Memory.keptContext
  rw [hcontext, huser, huctxt]

/-- The process that leaves is reloaded from its PCB when it comes back. -/
theorem switch {k : KernelContext} (h : Returns D expected m)
    (hk : k.reloadsUserContext = true) {next : PcbPtr}
    (hnext : next = 0 ∨ D next) : Returns D expected (m.switch next k) := by
  have hkept (p : PcbPtr) (hp : p = 0 ∨ D p) :
      some ((m.leave next k).keptContext p) = expected p := by
    by_cases hactive : p = m.active
    · subst hactive
      have hcontext : (m.leave next k).kernelContext m.active = k :=
        upd_same _ _ _
      have huser : (m.leave next k).userContext m.active =
          m.uctxt m.active := upd_same _ _ _
      rw [Memory.keptContext, hcontext, if_pos hk, huser]
      exact h.active
    · have hsame : (m.leave next k).keptContext p = m.keptContext p :=
        kept_congr (upd_other hactive _ _) (upd_other hactive _ _) rfl
      exact (congrArg some hsame).trans (h.others p hp hactive)
  have hreload : ((m.leave next k).reload next).uctxt next =
      (m.leave next k).keptContext next := by
    unfold Memory.reload Memory.keptContext
    split
    · exact upd_same _ _ _
    · rfl
  have hfields (p : PcbPtr) (hp : p ≠ next) :
      (m.switch next k).keptContext p = (m.leave next k).keptContext p := by
    unfold Memory.switch Memory.reload
    split
    · exact kept_congr rfl rfl (upd_other hp _ _)
    · rfl
  have hactive : (m.switch next k).active = next := by
    unfold Memory.switch Memory.reload
    split
    · rfl
    · rfl
  refine ⟨?_, fun p hp hne => ?_⟩
  · rw [hactive]
    exact (congrArg some hreload).trans (hkept next hnext)
  · rw [hactive] at hne
    exact (congrArg some (hfields p hne)).trans (hkept p hp)

theorem park (h : Returns D expected m) (k : KernelContext) :
    Returns D expected (m.park k) where
  active := h.active
  others := fun p hp hne => by
    have hsame : (m.park k).keptContext p = m.keptContext p :=
      kept_congr (upd_other hne _ _) rfl rfl
    exact (congrArg some hsame).trans (h.others p hp hne)

theorem quiet (h : Returns D expected m) (hquiet : m.Quiet m')
    (hnext : m'.active = 0 ∨ D m'.active) : Returns D expected m' := by
  cases hquiet with
  | keeps => exact h
  | parks => exact h.park _
  | switches next hk =>
      refine h.switch hk ?_
      have hactive (k : KernelContext) : (m.switch next k).active = next := by
        unfold Memory.switch Memory.reload
        split
        · rfl
        · rfl
      rwa [hactive] at hnext

theorem rewritten (h : Returns D expected m)
    (hrewritten : m.Rewritten m.active m') : Returns D expected m' where
  active := by
    rw [hrewritten.active, hrewritten.uctxt]
    exact h.active
  others := fun p hp hne => by
    rw [hrewritten.active] at hne
    rw [kept_congr (m := m) (congrFun hrewritten.kernelContext p)
      (hrewritten.userContext p hne) (congrFun hrewritten.uctxt p)]
    exact h.others p hp hne

theorem congr {expected' : PcbPtr → Option UserContext} (h : Returns D expected m)
    (hexpected : ∀ p, p = 0 ∨ D p → expected p = expected' p)
    (hactive : expected m.active = expected' m.active) :
    Returns D expected' m :=
  ⟨h.active.trans hactive, fun p hp hne =>
    (h.others p hp hne).trans (hexpected p hp)⟩

theorem free (h : Returns D expected m) : Returns D expected m.free :=
  ⟨h.active, h.others⟩

theorem made {c : PcbPtr} (h : Returns D expected m) (hactive : m.active ≠ c)
    (hD : ∀ p, p = 0 ∨ D p → p ≠ c) (hmade : Made m c m') :
    Returns D expected m' where
  active := by
    rw [hmade.active, hmade.uctxt _ hactive]
    exact h.active
  others := fun p hp hne => by
    rw [hmade.active] at hne
    have hc := hD p hp
    rw [kept_congr (m := m) (hmade.kernelContext p hc)
      (hmade.userContext p hc) (hmade.uctxt p hc)]
    exact h.others p hp hne

end Returns

/-! ## Steps -/

/-- After a trap the active process has to return where it was interrupted. -/
def Kernel.trapped (s : Kernel) (expected : PcbPtr → Option UserContext) :
    Label → PcbPtr → Option UserContext
  | .trap ctx _ => upd expected s.activePCB (some ctx)
  | .resume => expected

/-- `Returns` for the processes that can run. -/
def AllReturn (expected : PcbPtr → Option UserContext) (s : Kernel) : Prop :=
  ∃ D, Census D s ∧ Returns D expected s.memory

namespace AllReturn

variable {expected : PcbPtr → Option UserContext} {s s' r : Kernel} {a : Label}

theorem entered (h : AllReturn expected s) (a : Label) :
    AllReturn (s.trapped expected a) (s.entered a) := by
  obtain ⟨D, hcensus, hreturns⟩ := h
  refine ⟨D, hcensus.of_core (entered_core a), ?_⟩
  cases a with
  | resume => exact hreturns
  | trap ctx t =>
      refine ⟨(congrArg some (upd_same _ _ _)).trans (upd_same _ _ _).symm,
        fun p hp hne => ?_⟩
      have hsame : (s.enter ctx).memory.keptContext p =
          s.memory.keptContext p :=
        Returns.kept_congr rfl rfl (upd_other hne _ _)
      exact ((congrArg some hsame).trans (hreturns.others p hp hne)).trans
        (upd_other hne _ _).symm

/-- Unless it loads a program or makes a process, a step expects every process
back where it was interrupted. -/
theorem expects_eq (hexec : ∀ ctx args, a ≠ .trap ctx (.kernel (.exec args)))
    (hfork : ∀ ctx pid, a ≠ .trap ctx (.kernel (.fork pid))) :
    s.expects expected a = s.trapped expected a := by
  cases a with
  | resume => rfl
  | trap ctx t =>
      cases t with
      | kernel call =>
          cases call with
          | fork pid => exact absurd rfl (hfork ctx pid)
          | exec args => exact absurd rfl (hexec ctx args)
          | _ => rfl
      | _ => rfl

theorem expects_of_ends {code : Int} (hends : (s.entered a).ends a = some code) :
    s.expects expected a = s.trapped expected a := by
  cases a with
  | resume => rfl
  | trap ctx t =>
      cases t with
      | kernel call =>
          cases call with
          | fork pid => cases hends
          | exec e =>
              have hexec : (s.enter ctx).ends (.trap ctx (.kernel (.exec e))) =
                  some code := hends
              have hnone : (s.enter ctx).execStored e = none := by
                apply execStored_eq_none
                rintro ⟨code', s₁⟩ hload
                by_contra hcode
                simp only [Kernel.ends, hload, if_pos hcode] at hexec
                cases hexec
              simp only [Kernel.expects, hnone]
              rfl
          | _ => rfl
      | _ => rfl

/-- Every effect on memory hands the old processes what they expect. -/
theorem returns {D : PcbPtr → Prop} (hcensus : Census D s)
    (h : Returns D (s.trapped expected a) (s.entered a).memory)
    (hmemory : (s.entered a).MemoryEffect a s') (hguard : NoExecKilled s a)
    (hnext : s'.activePCB = 0 ∨ D s'.activePCB) :
    Returns D (s.expects expected a) s'.memory := by
  have hentered := entered_core (s := s) a
  have hactive : (s.entered a).activePCB = s.activePCB :=
    (congrArg Kernel.activePCB hentered :)
  have hnpcb : (s.entered a).npcb = s.npcb := (congrArg Kernel.npcb hentered :)
  cases hmemory with
  | quiet hquiet hexec hfork =>
      rw [expects_eq hexec hfork]
      exact h.quiet hquiet hnext
  | brk hrewritten => exact h.rewritten hrewritten
  | grows hrewritten => exact h.rewritten hrewritten
  | ends hends hrewritten hquiet =>
      rw [expects_of_ends hends]
      exact (h.rewritten hrewritten).free.quiet hquiet hnext
  | @exec ctx args code s₁ hexec hcode =>
      have hrewritten := kernelExec_rewritten hexec
      have hloaded := h.rewritten hrewritten
      have hactive₁ : s₁.activePCB = s.activePCB := hrewritten.active
      have hexpects : s.expects expected (.trap ctx (.kernel (.exec args))) =
          upd expected s.activePCB
            (some (s₁.pcb.userContext s.activePCB)) := by
        have hstored : (s.enter ctx).execStored args =
            some (s₁.pcb.userContext s.activePCB) :=
          execStored_eq_some hexec hcode hguard
        simp only [Kernel.expects, hstored, Option.getD_some]
      rw [hexpects, hactive₁]
      refine ⟨?_, fun p hp hne => ?_⟩
      · show some (upd s₁.uctxt s.activePCB (s₁.pcb.userContext s.activePCB)
            s₁.activePCB) = upd expected s.activePCB
              (some (s₁.pcb.userContext s.activePCB)) s₁.activePCB
        rw [hactive₁, upd_same, upd_same]
      · have hne' : p ≠ s.activePCB := fun heq => hne (heq.trans hactive₁.symm)
        have hsame : ((s₁.setUctxt s.activePCB
            (s₁.pcb.userContext s.activePCB)).ret code).memory.keptContext p =
            s₁.memory.keptContext p :=
          Returns.kept_congr rfl rfl (upd_other hne' _ _)
        have hexpected : s.trapped expected
            (.trap ctx (.kernel (.exec args))) p = expected p :=
          upd_other hne' _ _
        rw [hsame, hloaded.others p hp hne, hexpected, upd_other hne']
  | @forks ctx pid _ hmade =>
      have hold (p : PcbPtr) (hp : p = 0 ∨ D p) : p ≠ s.npcb := by
        rcases hp with rfl | hp
        · exact Nat.ne_of_lt
            (Nat.lt_of_le_of_lt (Nat.zero_le _) hcensus.active)
        · exact Nat.ne_of_lt (hcensus.member p hp).2
      have hne : s.activePCB ≠ s.npcb := Nat.ne_of_lt hcensus.active
      have hkept := h.made hne hold hmade
      exact hkept.congr (fun p hp => (upd_other (hold p hp) _ _).symm)
        (by rw [hmade.active]; exact (upd_other hne _ _).symm)

theorem step (h : AllReturn expected s)
    (heffect : Effect (s.entered a) a r) (hcore : s'.core = r.core)
    (hmemory : (s.entered a).MemoryEffect a s') (hguard : NoExecKilled s a) :
    AllReturn (s.expects expected a) s' := by
  obtain ⟨D, hcensus, hreturns⟩ := h.entered a
  have hbefore : Census D s := hcensus.of_core (entered_core a).symm
  have hrunning {D' : PcbPtr → Prop} (hafter : Census D' s') :
      s'.activePCB = 0 ∨ D' s'.activePCB := by
    by_cases hidle : s'.activePCB = s'.idlePCB
    · exact .inl (hidle.trans hafter.idle)
    · exact .inr (hafter.running hidle)
  rcases hcensus.effect heffect with
    ⟨hr, -⟩ | ⟨ctx, pid, rfl, hpid, rfl | rfl⟩
  · have hafter := hr.of_core hcore
    exact ⟨D, hafter, returns hbefore hreturns hmemory hguard (hrunning hafter)⟩
  · -- the child has a copy of its parent's context on its stack
    have hafter := ((hcensus.forked hpid).setMode .user).of_core hcore
    have hactive : s'.activePCB = s.activePCB :=
      (congrArg Kernel.activePCB hcore :)
    have hready : s'.readyQ = s.readyQ ++ [s.npcb] :=
      (congrArg Kernel.readyQ hcore :)
    have hold := returns hbefore hreturns hmemory hguard (by
      rw [hactive]
      by_cases hidle : s.activePCB = s.idlePCB
      · exact .inl (hidle.trans hbefore.idle)
      · exact .inr (hbefore.running hidle))
    refine ⟨_, hafter, hold.active, fun p hp hne => ?_⟩
    by_cases hp' : p = 0 ∨ D p
    · exact hold.others p hp' hne
    · obtain rfl : p = s.npcb := by
        rcases hp with hp | hp | hp
        · exact absurd (.inl hp) hp'
        · exact absurd (.inr hp) hp'
        · exact hp
      have hexpects : s.expects expected (.trap ctx (.kernel (.fork pid)))
          s.npcb = some ctx := upd_same _ _ _
      rw [hexpects]
      cases hmemory with
      | quiet _ _ hfork => exact absurd rfl (hfork _ _)
      | ends hends => cases hends
      | forks _ hchild =>
          rcases hchild (Nat.ne_of_lt hcensus.active) with hchild | hsame
          · have hcontext : s'.memory.kernelContext s.npcb = .kernelFork :=
              hchild.context
            have huctxt : s'.memory.uctxt s.npcb = ctx :=
              hchild.uctxt.trans (upd_same _ _ _)
            show some (if (s'.memory.kernelContext s.npcb).reloadsUserContext
              then s'.memory.userContext s.npcb
              else s'.memory.uctxt s.npcb) = some ctx
            rw [hcontext, huctxt]
            rfl
          · exact absurd (congrArg List.length (hready.symm.trans hsame))
              (by simp [Kernel.entered, Kernel.enter, Kernel.setUctxt])
  · have hafter := ((hcensus.newProcess pid).setMode .user).of_core hcore
    exact ⟨D, hafter, returns hbefore hreturns hmemory hguard (hrunning hafter)⟩

end AllReturn

/-! ## Boot -/

namespace Boot

/-- The context that a successful `LoadProgram` stores for idle. -/
def idleContext (b : Boot) : Option UserContext :=
  storedContext b.idleFile b.idleArgs b.pfnList.length

/-- The context that it stores for the first program. -/
def progContext (b : Boot) : Option UserContext :=
  storedContext b.progFile b.progArgs (b.progFile.frames b.progArgs)

/-- What the PCB of idle holds after `LoadProgram`. -/
def idleLoaded (b : Boot) : UserContext :=
  loadedContext b.uctxt b.idleFile b.idleArgs b.pfnList.length

/-- What the PCB of the first program holds. -/
def progLoaded (b : Boot) : UserContext :=
  loadedContext b.uctxt b.progFile b.progArgs (b.progFile.frames b.progArgs)

theorem zero_not_mem_pfnList (b : Boot) : 0 ∉ b.pfnList := by
  intro hmem
  obtain ⟨i, -, hi⟩ := List.mem_map.1 hmem
  have hbase : vmem1BasePage = 128 := rfl
  omega

theorem pfnList_setUpGlobals (b : Boot) :
    b.setUpGlobals.pfnList = b.pfnList := by
  rw [setUpGlobals]

/-- `init_process` for idle, whose stack is already there. -/
theorem initProcess_idle {s s' : Kernel} {ctx : UserContext} {idle : PcbPtr}
    (h : s.initProcess none 0 ctx = some (idle, s')) :
    s'.pfnList = s.pfnList ∧ s'.pcb.userContext s.npcb = ctx ∧
      ∀ i, (s'.pcb.userPageTable s.npcb i).valid = false := by
  unfold initProcess at h
  cases h
  refine ⟨rfl, upd_same _ _ _, fun i => ?_⟩
  show (upd s.pcb.userPageTable s.npcb (fun _ => invalidPte) s.npcb i).valid =
    false
  rw [upd_same]
  rfl

theorem Stages.idle_context {b : Boot} (st : b.Stages) :
    st.idleLoaded.pcb.userContext 0 = b.idleLoaded ∧
      b.firstContexts 0 = b.idleContext := by
  obtain ⟨hpool, hcontext, htable⟩ := initProcess_idle st.idle
  rw [pfnList_setUpGlobals] at hpool
  have hzero : 0 ∉ st.idleMade.pfnList := hpool ▸ b.zero_not_mem_pfnList
  have hloaded := loadProgram_userContext hzero htable st.loadIdle
  have hstored := storedBy_fresh hzero htable st.loadIdle
  rw [hpool] at hloaded hstored
  rw [hcontext] at hloaded
  refine ⟨hloaded, ?_⟩
  unfold firstContexts
  rw [if_pos rfl, st.idle]
  exact hstored

theorem Stages.prog_context {b : Boot} (st : b.Stages) :
    b.firstContexts 1 = b.progContext := by
  have hstart : b.startIdle = some (0, ({ st.idleLoaded with
      idlePCB := 0, activePCB := 0 } : Kernel)) := by
    unfold startIdle
    rw [st.idle]
    simp only [st.loadIdle]
  unfold firstContexts
  rw [if_neg Nat.one_ne_zero, hstart]
  simp only [st.prog]
  apply storedBy_eq _ st.loadProg
  intro li haccepted
  unfold Executable.frames
  rw [haccepted]
  exact iff_of_true (Nat.le_refl _) st.loaded

/-- At the first return to user mode idle has its own context; the first program
has a copy of it on its stack. -/
structure StartedContexts (b : Boot) (s : Kernel) : Prop where
  active : s.activePCB = 0
  idle : s.pcb.userContext 0 = b.idleLoaded
  prog : s.pcb.userContext 1 = b.progLoaded
  idle_stack : s.uctxt 0 = b.idleLoaded
  prog_stack : s.uctxt 1 = b.idleLoaded
  prog_context : s.pcb.kernelContext 1 = .kernelStart

theorem kernelStart_contexts {b : Boot} (h : b.kernelStart.mode = .user) :
    b.StartedContexts b.kernelStart := by
  obtain ⟨st, heq⟩ := Boot.stages h
  obtain ⟨hone, -, hmade, hstored⟩ := initProcess_made st.prog
  have hloaded := loadProgram_rewritten st.loadProg
  have hactive : st.progLoaded.activePCB = 0 :=
    hloaded.active.trans hmade.active
  have hnew : (0 : PcbPtr) ≠ st.idleLoaded.npcb := by
    rw [show st.idleLoaded.npcb = 1 from hone.symm]
    exact Nat.zero_ne_one
  have hidle : st.progLoaded.pcb.userContext 0 = b.idleLoaded :=
    (hloaded.userContext 0 Nat.zero_ne_one).trans
      ((hmade.userContext 0 hnew).trans st.idle_context.1)
  have hprog : st.progLoaded.pcb.userContext 1 = b.progLoaded := by
    have hcontext := loadProgram_userContext_of_ne st.loaded st.loadProg
    have hbefore : st.progMade.pcb.userContext 1 = b.uctxt := hone ▸ hstored
    rw [hbefore] at hcontext
    exact hcontext
  rw [heq] at h ⊢
  have hdefined : (startProg st.progLoaded 0 1).mode ≠ .undefined := by
    rw [h]
    exact nofun
  obtain ⟨hcopied, hchild, hcontexts⟩ := kcCopy_made hdefined
  have hstack : ((((st.progLoaded.queueAdd (some .readyQ) 1).setPtbr1 0).setUctxt
      0 (st.progLoaded.pcb.userContext 0)).uctxt 0) = b.idleLoaded := by
    show upd st.progLoaded.uctxt 0 (st.progLoaded.pcb.userContext 0) 0 =
      b.idleLoaded
    rw [upd_same]
    exact hidle
  exact
    { active := hcopied.active.trans hactive
      idle := (congrFun hcontexts 0).trans hidle
      prog := (congrFun hcontexts 1).trans hprog
      idle_stack := (hcopied.uctxt 0 Nat.zero_ne_one).trans hstack
      prog_stack := hchild.uctxt.trans (by
        rw [show Memory.active _ = 0 from hactive]
        exact hstack)
      prog_context := hchild.context }

theorem allReturn_started {b : Boot} {ctx : UserContext} (hb : b.WellFormed)
    (hmode : b.kernelStart.mode = .user) (hidle : b.idleContext = some ctx)
    (hprog : b.progContext = some ctx) :
    AllReturn b.firstContexts b.kernelStart := by
  have hcore := core_of_eraseMemory (kernelStart_eraseMemory hmode)
  have hstarted := kernelStart_contexts hmode
  have hloaded : b.idleLoaded = ctx := loadedContext_of_stored hidle _
  obtain ⟨st, -⟩ := Boot.stages hmode
  refine ⟨b.started.Member, (Census.started hb).of_core hcore, ?_,
    fun p hp hne => ?_⟩
  · show some (b.kernelStart.uctxt b.kernelStart.activePCB) =
      b.firstContexts b.kernelStart.activePCB
    rw [hstarted.active, hstarted.idle_stack, st.idle_context.2, hidle, hloaded]
  · have hone : p = 1 := by
      rcases hp with rfl | hp
      · exact absurd hstarted.active.symm hne
      · exact Nat.le_antisymm (Nat.lt_succ_iff.1 (hp.2 : p < 2)) hp.1
    subst hone
    show some (if (b.kernelStart.pcb.kernelContext 1).reloadsUserContext then
      b.kernelStart.pcb.userContext 1 else b.kernelStart.uctxt 1) =
        b.firstContexts 1
    rw [hstarted.prog_context, st.prog_context, hprog, ← hloaded]
    exact congrArg some hstarted.prog_stack

end Boot

/-! ## Runs -/

theorem Expecting.reachable {b : Boot} {guard : Kernel → Label → Prop}
    (hb : b.WellFormed) (hmode : b.kernelStart.mode = .user) {s : Kernel}
    {expected : PcbPtr → Option UserContext}
    (h : Expecting b guard s expected) :
    Reachable (fun _ _ => True) s := by
  induction h with
  | boot => exact .start ⟨b, hb, rfl, hmode⟩
  | step _ henabled _ ih => exact .next ih trivial (.take henabled)

theorem Expecting.allReturn {b : Boot} {ctx : UserContext} (hb : b.WellFormed)
    (hmode : b.kernelStart.mode = .user) (hidle : b.idleContext = some ctx)
    (hprog : b.progContext = some ctx) {s : Kernel}
    {expected : PcbPtr → Option UserContext}
    (h : Expecting b NoExecKilled s expected) (hlive : s.Live) :
    AllReturn expected s := by
  induction h with
  | boot => exact Boot.allReturn_started hb hmode hidle hprog
  | step h henabled hguard ih =>
      have hs := Reachable.quiescent (h.reachable hb hmode) henabled.live
      obtain ⟨r, heffect, hcore⟩ :=
        take_hasEffect hs.sync hs.zero_used henabled hlive
      exact (ih henabled.live).step heffect hcore (take_memoryEffect hlive)
        hguard

/-- A process that `KCCopy` made is resumed with the context on its stack. -/
theorem Memory.switch_copied {m : Memory} (next : PcbPtr) (k : KernelContext)
    (hne : next ≠ m.active)
    (hcopied : (m.kernelContext next).reloadsUserContext = false) :
    (m.switch next k).active = next ∧ (m.switch next k).uctxt = m.uctxt ∧
      (m.switch next k).kernelContext next = m.kernelContext next := by
  have hcontext : (m.leave next k).kernelContext next = m.kernelContext next :=
    upd_other hne _ _
  have hswitch : m.switch next k = m.leave next k := by
    unfold Memory.switch Memory.reload
    rw [hcontext, hcopied]
    rfl
  rw [hswitch]
  exact ⟨rfl, rfl, hcontext⟩

/-- The clock goes to the first ready process. -/
theorem Kernel.trapClockHandler_switches {s : Kernel} {next : PcbPtr}
    {rest : List PcbPtr} (hready : s.readyQ = next :: rest) :
    s.trapClockHandler.memory = s.memory.switch next .trapClockHandler := by
  have hnext : s.nextProcess = next := by
    rw [nextProcess, hready]
    rfl
  have hne : ¬ (s.pcb.pid s.activePCB = s.pcb.pid s.idlePCB ∧
      s.readyQ = []) := by
    rw [hready]
    rintro ⟨-, hempty⟩
    cases hempty
  unfold trapClockHandler
  rw [swapProcess_memory, if_neg hne]
  show s.memory.switch s.nextProcess .trapClockHandler = _
  rw [hnext]

/-- The first program comes to its first return with what is stored for idle. -/
theorem Boot.prog_returns_as_idle {b : Boot} (guard : Kernel → Label → Prop)
    (hclock : ∀ s, guard s (.trap ⟨0, 0⟩ .clock) ∧ guard s .resume)
    (hmode : b.kernelStart.mode = .user) :
    ∃ s expected, Expecting b guard s expected ∧ s.mode = .user ∧
      s.activePCB = 1 ∧ s.uctxt 1 = b.idleLoaded ∧
      expected 1 = b.progContext := by
  have hcore := core_of_eraseMemory (kernelStart_eraseMemory hmode)
  have hstarted := kernelStart_contexts hmode
  have hready : b.kernelStart.readyQ = [1] := (congrArg Kernel.readyQ hcore :)
  let s₁ := b.kernelStart.take (.trap ⟨0, 0⟩ .clock)
  have hswitch : s₁.memory = (b.kernelStart.enter ⟨0, 0⟩).memory.switch 1
      .trapClockHandler := trapClockHandler_switches hready
  have hne : (1 : PcbPtr) ≠ b.kernelStart.activePCB := by
    rw [hstarted.active]
    exact Nat.one_ne_zero
  obtain ⟨hactive, huctxt, hcontext⟩ := Memory.switch_copied
    (m := (b.kernelStart.enter ⟨0, 0⟩).memory) 1 .trapClockHandler hne (by
      rw [show Memory.kernelContext _ 1 = .kernelStart from
        hstarted.prog_context]
      rfl)
  rw [← hswitch] at hactive huctxt hcontext
  have hcontext₁ : s₁.pcb.kernelContext s₁.activePCB = .kernelStart := by
    rw [show s₁.activePCB = 1 from hactive]
    exact hcontext.trans hstarted.prog_context
  have hresume : s₁.take .resume = s₁.toUser := by
    show s₁.resume = s₁.toUser
    unfold Kernel.resume
    rw [hcontext₁]
  have henabled : (Label.trap ⟨0, 0⟩ .clock).Enabled b.kernelStart :=
    ⟨hmode, trivial⟩
  have hkernel : s₁.mode = .kernel := by
    have hcore₁ : s₁.core = _ := swapProcess_core _ _
    exact (congrArg Kernel.mode hcore₁ :).trans swapped_mode
  have henabled₁ : Label.resume.Enabled s₁ := hkernel
  have hrun := (Expecting.boot.step henabled (hclock _).1).step henabled₁
    (hclock s₁).2
  refine ⟨s₁.take .resume, _, hrun, ?_, ?_, ?_, ?_⟩
  · rw [hresume]
    rfl
  · rw [hresume]
    exact hactive
  · rw [hresume]
    have hstack : (b.kernelStart.enter ⟨0, 0⟩).uctxt 1 = b.idleLoaded :=
      (upd_other hne _ _).trans hstarted.prog_stack
    exact (congrFun huctxt 1).trans hstack
  · obtain ⟨st, -⟩ := Boot.stages hmode
    exact (upd_other hne _ _).trans st.prog_context

/--
Every process returns to user mode with its own `sp` and `pc`, in every run of a
boot in which no `Exec` fails a read, if and only if idle and the first program
are both loaded, with the same ones.
-/
theorem own_contexts_iff {b : Boot} (hb : b.WellFormed)
    (hmode : b.kernelStart.mode = .user) :
    b.OwnContexts NoExecKilled ↔
      ∃ ctx, b.idleContext = some ctx ∧ b.progContext = some ctx := by
  constructor
  · intro hown
    have hstarted := Boot.kernelStart_contexts hmode
    obtain ⟨st, -⟩ := Boot.stages hmode
    have hfirst := hown b.kernelStart b.firstContexts .boot hmode
    rw [hstarted.active, hstarted.idle_stack, st.idle_context.2] at hfirst
    obtain ⟨s, expected, hrun, huser, hactive, hidle, hprog⟩ :=
      Boot.prog_returns_as_idle NoExecKilled (fun _ => ⟨trivial, trivial⟩) hmode
    have hreturns := hown s expected hrun huser
    rw [hactive, hidle, hprog] at hreturns
    exact ⟨b.idleLoaded, hfirst.symm, hreturns.symm⟩
  · rintro ⟨ctx, hidle, hprog⟩ s expected hrun huser
    obtain ⟨D, -, hreturns⟩ := hrun.allReturn hb hmode hidle hprog (.inl huser)
    exact hreturns.active

/-- Both programs of the small machine start alike. -/
theorem own_contexts_iff_small :
    (Boot.small 8).WellFormed ∧ (Boot.small 8).kernelStart.mode = .user ∧
      (Boot.small 8).OwnContexts NoExecKilled :=
  ⟨Boot.small_wellFormed 8, by decide +kernel,
    (own_contexts_iff (Boot.small_wellFormed 8) (by decide +kernel)).2
      ⟨⟨vmem1Limit - 144, vmem1Base⟩, by decide +kernel, by decide +kernel⟩⟩

/-- The small machine whose first program gets one argument. -/
def Boot.withArgument : Boot :=
  { Boot.small 8 with progArgs := [[65]] }

/-- The first program starts with the stack pointer of idle, as if it had no
argument. -/
theorem prog_starts_without_argument :
    ¬ ∀ b : Boot, b.WellFormed → b.kernelStart.mode = .user →
      b.OwnContexts fun _ _ => True := by
  intro h
  have hb : Boot.withArgument.WellFormed := by
    constructor
    · exact (Boot.small_wellFormed 8).data_le_brk
    · exact (Boot.small_wellFormed 8).brk_lt_stack
    · exact (Boot.small_wellFormed 8).progPid_ne_zero
  have hmode : Boot.withArgument.kernelStart.mode = .user := by
    decide +kernel
  obtain ⟨s, expected, hrun, huser, hactive, hidle, hprog⟩ :=
    Boot.prog_returns_as_idle (fun _ _ => True)
      (fun _ => ⟨trivial, trivial⟩) hmode
  have hown := h Boot.withArgument hb hmode s expected hrun huser
  rw [hactive, hidle, hprog] at hown
  have hsp : (some Boot.withArgument.idleLoaded).map UserContext.sp ≠
      Boot.withArgument.progContext.map UserContext.sp := by
    decide +kernel
  exact hsp (congrArg (Option.map UserContext.sp) hown)

end Yalnix
