import Yalnix.Kernel.Core

/-!
# What a step does

On the core every step of the machine has one of the effects listed in `Effect`.
The list says once what the code can do to processes and queues, and the
invariants are derived from it.
-/

namespace Yalnix

/-! ## The effects -/

namespace KernelContext

/-- The terminal that a suspended writer writes to. -/
def writesTo : KernelContext → Option Nat
  | .kernelTtyWrite t _ _ _ _ => some t
  | _ => none

/-- Contexts of the lock and condition variable calls. -/
def isSync : KernelContext → Bool
  | .kernelAcquire _ => true
  | .kernelCvarWait _ => true
  | _ => false

/-- Contexts that go on in user mode without touching another process, unless a
terminal reader wakes the next one. -/
def returns : KernelContext → Bool
  | .kernelStart => true
  | .kernelFork => true
  | .kernelExit => true
  | .trapFault => true
  | .kernelDelay => true
  | .kernelTtyRead _ _ => true
  | _ => false

/-- The contexts in which a process sleeps on pipe `p`. -/
inductive SleepsOn (p : PipePtr) : KernelContext → Prop where
  | read (len : Nat) : SleepsOn p (.kernelPipeRead p len)
  | write (buf : Buffer) (len : Nat) : SleepsOn p (.kernelPipeWrite p buf len)

end KernelContext

/-- A pipe call that is about to copy and to wake. -/
inductive PipeCall where
  | read (p : PipePtr) (len : Nat)
  | write (p : PipePtr) (buf : Buffer) (len : Nat)

def PipeCall.pipe : PipeCall → PipePtr
  | .read p _ => p
  | .write p _ _ => p

/-- The traps that may return at once with nothing else done to processes and
queues. -/
def Trap.returns : Trap → Bool
  | .clock => false
  | .illegal => false
  | .math => false
  | .kernel (.fork _) => false
  | .kernel (.exit _) => false
  | .kernel (.wait _) => false
  | .kernel (.delay clockTicks) => decide (clockTicks ≤ 0)
  | _ => true

/-- The calls that may sleep on a pipe. -/
def Label.callsPipe : Label → Bool
  | .trap _ (.kernel (.pipeRead _ _ _)) => true
  | .trap _ (.kernel (.pipeWrite _ _ _)) => true
  | _ => false

theorem Label.ne_resume_of_callsPipe {a : Label} (h : a.callsPipe = true) :
    a ≠ .resume := by
  rintro rfl
  cases h

namespace Kernel

/-- The valid pages of a table. -/
def validPages (table : Nat → Pte) : List Nat :=
  (List.range userPtSize).filter fun i => (table i).valid

/-- There are frames for a copy of the active process and its kernel stack, and
there is a Region 0 page to copy through. -/
def ForkFits (s : Kernel) : Prop :=
  (reservedKernelIndex s.kPt).isSome = true ∧
    kernelStackSize + (validPages (s.pcb.userPageTable s.activePCB)).length ≤
      s.pfnList.length ∧
    0 ∉ s.pfnList

/-- A memory fault that is not answered by growing the stack. -/
def FatalFault (s : Kernel) (addr : Nat) (beyondValid : Bool) : Prop :=
  faultTarget addr < 0 ∨ s.faultValid (faultTarget addr) beyondValid = true

instance (s : Kernel) (addr : Nat) (beyondValid : Bool) :
    Decidable (s.FatalFault addr beyondValid) :=
  inferInstanceAs (Decidable (_ ∨ _))

/-- The code that the handler of a step passes to `KernelExit`: the one of an
`Exit` call, or `ERROR` when an `Exec` or a memory fault fails. -/
def ends (s : Kernel) : Label → Option Int
  | .trap _ (.kernel (.exit exitCode)) => some exitCode
  | .trap _ (.kernel (.exec args)) =>
      match s.kernelExec args with
      | some (code, _) => if code ≠ Rc.error then none else some Rc.error
      | none => none
  | .trap _ (.memory addr beyondValid) =>
      if s.FatalFault addr beyondValid then some Rc.error else none
  | .trap _ _ => none
  | .resume => none

/-- The pipe call that a step completes. -/
def completing (s : Kernel) : Label → Option PipeCall
  | .trap _ (.kernel (.pipeRead pipeId nonNull len)) =>
      if !nonNull ∨ len < 0 ∨ (pipeBufferLen : Int) < len then none
      else
        (s.getPipe pipeId).bind fun p =>
          if s.pipeChain.head? = some p ∨ (s.pipes p).beingUsed ∨
              (s.pipes p).plen = 0 then none
          else some (.read p len.toNat)
  | .trap _ (.kernel (.pipeWrite pipeId buf len)) =>
      if pipeId ≤ 0 ∨ len < 0 ∨ (pipeBufferLen : Int) < len then none
      else
        buf.bind fun buf => (s.getPipe pipeId).bind fun p =>
          if s.pipeChain.head? = some p ∨ (s.pipes p).beingUsed then none
          else some (.write p buf len.toNat)
  | .trap _ _ => none
  | .resume =>
      match s.pcb.kernelContext s.activePCB with
      | .kernelPipeRead p len =>
          if (s.pipes p).plen = 0 then none else some (.read p len)
      | .kernelPipeWrite p buf len =>
          if (s.pipes p).beingUsed then none else some (.write p buf len)
      | _ => none

/-- The wake-up of a completing pipe call.  A read that takes all bytes leaves
none. -/
def wake (s : Kernel) : PipeCall → PipeWake
  | .read p len => wakeAfterRead ((s.pipes p).plen - len) (s.pipeWake p)
  | .write p _ _ => broadcast (s.pipes p).queue.length 0 (s.pipeWake p)

/-- The bytes behind the line that a `TtyRead` of `len` bytes takes. -/
def linesLeft (s : Kernel) (t len : Nat) : Prop :=
  ttyReadCompact (s.ttyReadbuffers t) (s.ttyReadTrackers t)
    (ttyReadCount (s.ttyReadbuffers t) (s.ttyReadTrackers t) len) 0 ≠ 0

/-- A terminal writer runs: it has just entered the empty write queue, or it
resumes.  The state is the one its loop starts from. -/
inductive WritesOn (s : Kernel) : Label → Nat → Kernel → Prop where
  | call {ctx : UserContext} {ttyId : Int} {buf : Buffer} {len : Int} :
      s.activePCB ≠ s.idlePCB → ttyId.toNat < numTerminals →
      s.pcb.pid ((s.ttyWriteQueues ttyId.toNat ++ [s.activePCB]).headD
        s.activePCB) = s.pcb.pid s.activePCB →
      WritesOn s (.trap ctx (.kernel (.ttyWrite ttyId buf len))) ttyId.toNat
        (s.setTtyWriteQueue ttyId.toNat
          (s.ttyWriteQueues ttyId.toNat ++ [s.activePCB]))
  | resume {t : Nat} {buf : Buffer} {len left written : Nat} :
      s.pcb.kernelContext s.activePCB =
        .kernelTtyWrite t buf len left written →
      WritesOn s .resume t s

/-- The head of the write queue leaves it and the next writer becomes ready. -/
def writeDone (s : Kernel) (t : Nat) : Kernel :=
  match (s.ttyWriteQueues t).tail with
  | [] => s.setTtyWriteQueue t []
  | next :: rest =>
      ((s.setTtyWriteQueue t (next :: rest)).setBlockedCode next
        Blocked.notBlocked).setReadyQ (s.readyQ ++ [next])

/-- The child is ready and resumes at the end of `KernelFork`. -/
def forked (s : Kernel) (pid : Nat) : Kernel :=
  ((s.newProcess (some s.activePCB) pid).setReadyQ
    (s.readyQ ++ [s.npcb])).setKernelContext s.npcb .kernelFork

/-- Everything a step that does not end the machine can do to the core. -/
inductive Effect (s : Kernel) : Label → Kernel → Prop where
  | stay {ctx : UserContext} {t : Trap} : t.returns = true →
      Effect s (.trap ctx t) (s.setMode .user)
  | returns : (s.pcb.kernelContext s.activePCB).returns = true →
      Effect s .resume (s.setMode .user)
  | fork {ctx : UserContext} {pid : Nat} :
      s.activePCB ≠ s.idlePCB → pid ∉ s.history.usedPids →
      Effect s (.trap ctx (.kernel (.fork pid)))
        ((s.forked pid).setMode .user)
  | forkFails {ctx : UserContext} {pid : Nat} :
      s.activePCB ≠ s.idlePCB → pid ∉ s.history.usedPids →
      (s.activePCB ≠ s.npcb → ¬ s.ForkFits) →
      Effect s (.trap ctx (.kernel (.fork pid)))
        ((s.newProcess (some s.activePCB) pid).setMode .user)
  | exit {a : Label} {code : Int} :
      s.activePCB ≠ s.idlePCB → s.ends a = some code →
      Effect s a (s.exited code)
  | fault {ctx : UserContext} {t : Trap} :
      s.activePCB ≠ s.idlePCB → t = .illegal ∨ t = .math →
      Effect s (.trap ctx t)
        (((s.setExitCode s.activePCB Rc.error).setTerminated
          s.activePCB).swapped (some .defunctQ) .trapFault)
  | waitFails {ctx : UserContext} {nonNull : Bool} :
      s.activePCB ≠ s.idlePCB →
      nonNull = false ∨ s.pcb.numChildren s.activePCB = 0 →
      Effect s (.trap ctx (.kernel (.wait nonNull)))
        ((s.emit (.waitReturn s.activePCB none none Rc.error)).setMode .user)
  | waitReaps {ctx : UserContext} {child : PcbPtr} {queue : List PcbPtr} :
      s.activePCB ≠ s.idlePCB → s.pcb.numChildren s.activePCB ≠ 0 →
      reapLoop (fun d => decide (s.pcb.ppid d = s.pcb.pid s.activePCB))
        s.defunctQ.length s.defunctQ = (some child, queue) →
      Effect s (.trap ctx (.kernel (.wait true)))
        ((((s.setDefunctQ queue).setNumChildren s.activePCB
          (s.pcb.numChildren s.activePCB - 1)).emit
            (.waitReturn s.activePCB (some child)
              (some (s.pcb.exitCode child)) 0)).setMode .user)
  | waitSleeps {ctx : UserContext} {queue : List PcbPtr} :
      s.activePCB ≠ s.idlePCB → s.pcb.numChildren s.activePCB ≠ 0 →
      reapLoop (fun d => decide (s.pcb.ppid d = s.pcb.pid s.activePCB))
        s.defunctQ.length s.defunctQ = (none, queue) →
      Effect s (.trap ctx (.kernel (.wait true)))
        (((s.setDefunctQ queue).setBlockedCode s.activePCB
          Blocked.wait).swapped (some .blockedQ)
            (.kernelWait (s.pcb.pid s.activePCB)))
  | waitResumes {pid : Nat} :
      s.pcb.kernelContext s.activePCB = .kernelWait pid →
      s.pcb.pid s.activePCB = pid →
      Effect s .resume
        ((((s.emit (.waitReturn s.activePCB (s.history.reporter s.activePCB)
          (some (s.pcb.blockedCode s.activePCB)) 0)).setBlockedCode s.activePCB
            Blocked.notBlocked).setReporter s.activePCB none).setMode .user)
  | waitResumesOther {pid : Nat} :
      s.pcb.kernelContext s.activePCB = .kernelWait pid →
      s.pcb.pid s.activePCB ≠ pid →
      Effect s .resume
        ((s.emit (.waitReturn s.activePCB none none 0)).setMode .user)
  | delay {ctx : UserContext} {ticks : Int} :
      s.activePCB ≠ s.idlePCB → 0 < ticks →
      Effect s (.trap ctx (.kernel (.delay ticks)))
        (((s.setClockTicks s.activePCB ticks).setBlockedCode s.activePCB
          Blocked.delay).swapped (some .blockedQ) .kernelDelay)
  | clock {ctx : UserContext} :
      Effect s (.trap ctx .clock)
        (s.swapped (some .readyQ) .trapClockHandler)
  | clockResumes {r : Kernel} :
      s.pcb.kernelContext s.activePCB = .trapClockHandler →
      Scanned s.blockedQ.length s r → Effect s .resume (r.setMode .user)
  | ttyReadSleeps {ctx : UserContext} {ttyId len : Int} :
      s.activePCB ≠ s.idlePCB → ttyId.toNat < numTerminals →
      Effect s (.trap ctx (.kernel (.ttyRead ttyId len)))
        (((s.setBlockedCode s.activePCB Blocked.ttyRead).setTtyTerminal
          s.activePCB ttyId.toNat).swapped (some (.ttyReadQueue ttyId.toNat))
            (.kernelTtyRead ttyId.toNat len.toNat))
  | ttyReadWakes {t len : Nat} {next : PcbPtr} {rest : List PcbPtr} :
      s.pcb.kernelContext s.activePCB = .kernelTtyRead t len →
      s.ttyReadQueues t = next :: rest → s.linesLeft t len →
      Effect s .resume
        (((s.setBlockedCode next Blocked.notBlocked).setReadyQ
          (s.readyQ ++ [next])).setMode .user)
  | ttyReceives {ctx : UserContext} {t : Nat} {bytes : List UInt8}
      {next : PcbPtr} {rest : List PcbPtr} :
      t < numTerminals → s.ttyReadQueues t = next :: rest →
      Effect s (.trap ctx (.ttyReceive t bytes))
        ((((s.setTtyReadQueue t rest).setBlockedCode next
          Blocked.notBlocked).setReadyQ (s.readyQ ++ [next])).setMode .user)
  | ttyWriteWaits {ctx : UserContext} {ttyId : Int} {buf : Buffer}
      {len : Int} :
      s.activePCB ≠ s.idlePCB → ttyId.toNat < numTerminals →
      s.pcb.pid ((s.ttyWriteQueues ttyId.toNat ++ [s.activePCB]).headD
        s.activePCB) ≠ s.pcb.pid s.activePCB →
      Effect s (.trap ctx (.kernel (.ttyWrite ttyId buf len)))
        ((((s.setTtyWriteQueue ttyId.toNat
          (s.ttyWriteQueues ttyId.toNat ++ [s.activePCB])).setBlockedCode
            s.activePCB Blocked.ttyWrite).setTtyTerminal s.activePCB
              ttyId.toNat).swapped none
                (.kernelTtyWrite ttyId.toNat buf len.toNat len.toNat 0))
  | ttyWriteSleeps {a : Label} {t : Nat} {s₁ : Kernel} (buf : Buffer)
      (len left written : Nat) :
      WritesOn s a t s₁ →
      Effect s a
        (((s₁.setBlockedCode s₁.activePCB Blocked.ttyTransmit).setTtyTerminal
          s₁.activePCB t).swapped none
            (.kernelTtyWrite t buf len left written))
  | ttyWriteReturns {a : Label} {t : Nat} {s₁ : Kernel} :
      WritesOn s a t s₁ → Effect s a ((s₁.writeDone t).setMode .user)
  | ttyTransmitted {ctx : UserContext} {t : Nat} {head : PcbPtr}
      {rest : List PcbPtr} {r : Kernel} :
      s.ttyWriteQueues t = head :: rest →
      s.pcb.pid s.activePCB ≠ s.pcb.pid head → Recheck s head r →
      Effect s (.trap ctx (.ttyTransmit t)) (r.setMode .user)
  | pipeInit {ctx : UserContext} {p : PipePtr} :
      Effect s (.trap ctx (.kernel (.pipeInit true)))
        ((s.setPipeQueue p []).setMode .user)
  | pipeSleeps {a : Label} {p : PipePtr} {code : Int} {k : KernelContext} :
      (a = .resume ∧
          (s.pcb.kernelContext s.activePCB).SleepsOn p ∨
        a.callsPipe = true ∧ s.activePCB ≠ s.idlePCB) →
      code = Blocked.pipeRead ∨ code = Blocked.pipeWrite → k.SleepsOn p →
      Effect s a
        (((s.setBlockedCode s.activePCB code).setPipeQueue p
          ((s.pipes p).queue ++ [s.activePCB])).swapped (some .blockedQ) k)
  | pipeWakes {a : Label} {c : PipeCall} :
      s.completing a = some c →
      Effect s a ((s.afterWake c.pipe (s.wake c)).setMode .user)

/-- The step from `s` to `s'` has one of the effects, up to the core. -/
def HasEffect (s : Kernel) (a : Label) (s' : Kernel) : Prop :=
  ∃ r, Effect s a r ∧ s'.core = r.core

/-- The machine goes on. -/
def Live (s : Kernel) : Prop := s.mode = .user ∨ s.mode = .kernel

/-! ## Every step has an effect -/

variable {s s' : Kernel} {ctx : UserContext}

theorem hasEffect_stay {t : Trap} (ht : t.returns = true)
    (h : s'.core = s.core.setMode .user) : s.HasEffect (.trap ctx t) s' :=
  ⟨_, .stay ht, h⟩

theorem not_live_of_core (h : s'.core = s.core.setMode .undefined) :
    ¬ s'.Live := by
  have hmode : s'.mode = .undefined := (congrArg Kernel.mode h :)
  simp [Live, hmode]

/-! ### Fork -/

theorem allocatePFN_of_pos {pool : List Nat} (hpos : 0 < pool.length)
    (hzero : 0 ∉ pool) :
    ∃ pfn rest, pool = pfn :: rest ∧ allocatePFN pool = (some pfn, rest) := by
  cases pool with
  | nil => cases hpos
  | cons pfn rest =>
      have hpfn : pfn ≠ 0 := fun h => hzero (h ▸ List.mem_cons_self)
      exact ⟨pfn, rest, rfl, by rw [allocatePFN, if_neg hpfn]⟩

theorem allocKernelStack_pool {pages : List Nat} {table table' : Nat → Pte}
    {pool pool' : List Nat}
    (h : allocKernelStack pages table pool = some (table', pool')) :
    pool' = pool.drop pages.length := by
  induction pages generalizing table pool with
  | nil =>
      cases h
      rfl
  | cons i pages ih =>
      cases pool with
      | nil => cases h
      | cons pfn pool =>
          rw [allocKernelStack, allocatePFN] at h
          split at h
          · cases h
          · rename_i pfn' pool'' halloc
            split at halloc
            · cases halloc
            · cases halloc
              rw [ih h]
              rfl

/-- With a frame for every valid page the copy runs to its end. -/
theorem copyUPT_complete {uPt1 : Nat → Pte} {pages : List Nat}
    {uPt2 : Nat → Pte} {pool : List Nat} {mapped : Nat}
    (hlen : (pages.filter fun i => (uPt1 i).valid).length ≤ pool.length)
    (hzero : 0 ∉ pool) : (copyUPT uPt1 pages uPt2 pool mapped).1 = true := by
  induction pages generalizing uPt2 pool mapped with
  | nil => rfl
  | cons i pages ih =>
      rw [copyUPT]
      cases hvalid : (uPt1 i).valid with
      | false =>
          simp only [Bool.false_eq_true, if_false]
          exact ih (by simpa [hvalid] using hlen) hzero
      | true =>
          simp only [List.filter_cons, hvalid, if_true, List.length_cons] at hlen
          obtain ⟨pfn, rest, rfl, halloc⟩ :=
            allocatePFN_of_pos (by omega) hzero
          simp only [if_true, halloc]
          exact ih (by simpa using hlen)
            fun h => hzero (List.mem_cons_of_mem _ h)

/-- What `init_process` does to the memory that `KernelFork` goes on with. -/
theorem initProcess_memory {pid : Nat} {uctxt : UserContext} {child : PcbPtr}
    (hpid : pid ≠ 0)
    (h : s.initProcess (some s.activePCB) pid uctxt = some (child, s')) :
    s'.kPt = s.kPt ∧ s'.pfnList = s.pfnList.drop kernelStackSize ∧
      s'.pcb.userPageTable =
        upd s.pcb.userPageTable s.npcb fun _ => invalidPte := by
  unfold initProcess at h
  simp only [if_pos hpid] at h
  split at h
  · cases h
  · rename_i stack pool hstack
    cases h
    refine ⟨rfl, ?_, rfl⟩
    have hpool := allocKernelStack_pool hstack
    simpa using hpool

theorem copyIndices_memory (child parent : PcbPtr) :
    (s.copyIndices child parent).kPt = s.kPt ∧
      (s.copyIndices child parent).pfnList = s.pfnList ∧
      (s.copyIndices child parent).pcb.userPageTable =
        s.pcb.userPageTable := by
  simp [copyIndices, setHeapIndex, setStackIndex, setDataIndex, setTextIndex,
    setPcb]

theorem kcCopy_core (child : PcbPtr) (k : KernelContext)
    (hlive : (s.kcCopy child k).mode ≠ .undefined) :
    (s.kcCopy child k).core = s.core.setKernelContext child k := by
  rcases kcCopy_eraseMemory (s := s) child k with h | h
  · exact absurd (congrArg Kernel.mode h :) hlive
  · exact core_of_eraseMemory h

theorem forkReady_core (child : PcbPtr)
    (hlive : (s.forkReady child).Live) :
    (s.forkReady child).core =
      ((s.core.setReadyQ (s.readyQ ++ [child])).setKernelContext child
        .kernelFork).setMode .user := by
  unfold forkReady at hlive ⊢
  simp only at hlive ⊢
  split at hlive
  · rename_i hundefined
    simp [Live, hundefined] at hlive
  · rename_i hdefined
    rw [if_neg hdefined, ret_core, kcCopy_core _ _ hdefined]
    rfl

theorem forkCopy_core {child parent : PcbPtr} {reserved : Nat}
    (hlive : (s.forkCopy child parent reserved).Live) :
    (s.forkCopy child parent reserved).core =
        ((s.core.setReadyQ (s.readyQ ++ [child])).setKernelContext child
          .kernelFork).setMode .user ∨
      (copyUPT (s.pcb.userPageTable parent) (List.range userPtSize)
          (s.pcb.userPageTable child) s.pfnList (s.kPt reserved).pfn).1 =
          false ∧
        (s.forkCopy child parent reserved).core = s.core.setMode .user := by
  unfold forkCopy at hlive ⊢
  split at hlive
  · rename_i hcopy
    refine .inr ⟨by rw [hcopy], ?_⟩
    simp only [ret_core, setKPt_core, setPfnList_core,
      setUserPageTable_core]
  · rename_i hcopy
    refine .inl ?_
    simp only
    rw [forkReady_core _ hlive]
    rfl

theorem kernelFork_hasEffect {pid : Nat} (hactive : s.activePCB ≠ s.idlePCB)
    (hzero : 0 ∈ s.history.usedPids) (hfresh : pid ∉ s.history.usedPids)
    (hlive : (s.kernelFork pid).Live) :
    s.HasEffect (.trap ctx (.kernel (.fork pid))) (s.kernelFork pid) := by
  have hpid : pid ≠ 0 := fun h => hfresh (h ▸ hzero)
  unfold kernelFork at hlive ⊢
  split at hlive
  · exact absurd hlive (not_live_of_core rfl)
  · rename_i child forked hinit
    obtain ⟨hchild, herase⟩ := initProcess_eraseMemory hinit
    obtain ⟨hkPt, hpool, htable⟩ := initProcess_memory hpid hinit
    obtain ⟨hkPt', hpool', htable'⟩ := copyIndices_memory (s := forked) child
      s.activePCB
    have hcore : (forked.copyIndices child s.activePCB).core =
        s.core.newProcess (some s.activePCB) pid := by
      rw [core_of_eraseMemory (copyIndices_eraseMemory child s.activePCB),
        core_of_eraseMemory herase, newProcess_core]
    have hreadyQ : (forked.copyIndices child s.activePCB).readyQ = s.readyQ :=
      (congrArg Kernel.readyQ hcore :)
    simp only at hlive ⊢
    split at hlive
    · rename_i hreserved
      refine ⟨_, .forkFails hactive hfresh fun _ hfits => ?_, ?_⟩
      · rw [hkPt', hkPt] at hreserved
        simp [ForkFits, hreserved] at hfits
      · simp only [ret_core, hcore, setMode_core, newProcess_core]
    · rename_i reserved hreserved
      rcases forkCopy_core hlive with hdone | ⟨hcopy, hdone⟩
      · refine ⟨_, .fork hactive hfresh, ?_⟩
        rw [hdone, hcore, hreadyQ, hchild]
        simp only [Kernel.forked, setMode_core, setKernelContext_core,
          setReadyQ_core, newProcess_core]
      · refine ⟨_, .forkFails hactive hfresh fun hne hfits => ?_, ?_⟩
        · rw [hpool', hpool, htable', htable, upd_other hne, hchild,
            upd_same] at hcopy
          have hlen := hfits.2.1
          simp only [validPages] at hlen
          rw [copyUPT_complete (by rw [List.length_drop]; omega)
            fun h => hfits.2.2 (List.mem_of_mem_drop h)] at hcopy
          cases hcopy
        · rw [hdone, hcore]
          simp only [setMode_core, newProcess_core]

/-! ### Exec, Brk and memory traps -/

theorem execCase_hasEffect {args : ExecArgs}
    (hactive : s.activePCB ≠ s.idlePCB) (hlive : (s.execCase args).Live) :
    s.HasEffect (.trap ctx (.kernel (.exec args))) (s.execCase args) := by
  unfold execCase at hlive ⊢
  split at hlive
  · exact absurd hlive (not_live_of_core rfl)
  · rename_i code s₁ hexec
    have hcore := core_of_eraseMemory (kernelExec_eraseMemory hexec)
    split
    · exact hasEffect_stay rfl (by simp only [ret_core, setUctxt_core, hcore])
    · rename_i hfails
      have hends : s.ends (.trap ctx (.kernel (.exec args))) =
          some Rc.error := by
        simp only [ends, hexec, if_neg hfails]
      refine ⟨_, .exit hactive hends, ?_⟩
      rw [kernelExit_core, setReg0_core, hcore, exited_core]

theorem kernelBrk_hasEffect {addr : Nat} (hlive : (s.kernelBrk addr).Live) :
    s.HasEffect (.trap ctx (.kernel (.brk addr))) (s.kernelBrk addr) := by
  rcases kernelBrk_eraseMemory (s := s) addr with h | h
  · exact hasEffect_stay rfl (core_of_eraseMemory h)
  · exact absurd hlive (not_live_of_core (core_of_eraseMemory h))

theorem trapMemoryHandler_hasEffect {addr : Nat} {beyondValid : Bool}
    (hactive : s.activePCB ≠ s.idlePCB)
    (hlive : (s.trapMemoryHandler addr beyondValid).Live) :
    s.HasEffect (.trap ctx (.memory addr beyondValid))
      (s.trapMemoryHandler addr beyondValid) := by
  rcases trapMemoryHandler_eraseMemory (s := s) addr beyondValid with
    ⟨hfatal, h⟩ | h | h
  · have hends : s.ends (.trap ctx (.memory addr beyondValid)) =
        some Rc.error := by
      rw [ends, if_pos (show s.FatalFault addr beyondValid from hfatal)]
    rw [h]
    exact ⟨_, .exit hactive hends, by rw [kernelExit_core, exited_core]⟩
  · exact hasEffect_stay rfl (core_of_eraseMemory h)
  · exact absurd hlive (not_live_of_core (core_of_eraseMemory h))

/-! ### Wait and Delay -/

theorem kernelWait_hasEffect {nonNull : Bool}
    (hactive : s.activePCB ≠ s.idlePCB) :
    s.HasEffect (.trap ctx (.kernel (.wait nonNull)))
      (s.kernelWait nonNull) := by
  unfold kernelWait
  simp only
  split
  · rename_i hfails
    refine ⟨_, .waitFails hactive (by simpa using hfails), ?_⟩
    rw [ret_core, setMode_core]
  · rename_i hwaits
    have hnonNull : nonNull = true := by
      by_contra h
      exact hwaits (.inl (by simpa using h))
    have hchildren : s.pcb.numChildren s.activePCB ≠ 0 :=
      fun h => hwaits (.inr h)
    subst hnonNull
    split
    · rename_i child queue hreap
      refine ⟨_, .waitReaps hactive hchildren hreap, ?_⟩
      rw [ret_core, setMode_core]
    · rename_i queue hreap
      refine ⟨_, .waitSleeps hactive hchildren hreap, ?_⟩
      rw [swapProcess_core, swapped_core]

theorem kernelWaitResume_hasEffect {pid : Nat}
    (hctx : s.pcb.kernelContext s.activePCB = .kernelWait pid) :
    s.HasEffect .resume (s.kernelWaitResume pid) := by
  unfold kernelWaitResume
  simp only
  split
  · rename_i hpid
    exact ⟨_, .waitResumes hctx hpid, by rw [ret_core, setMode_core]⟩
  · rename_i hpid
    exact ⟨_, .waitResumesOther hctx hpid, by rw [ret_core, setMode_core]⟩

theorem kernelDelay_hasEffect {ticks : Int}
    (hactive : s.activePCB ≠ s.idlePCB) :
    s.HasEffect (.trap ctx (.kernel (.delay ticks)))
      (s.kernelDelay ticks) := by
  unfold kernelDelay
  split
  · rename_i hzero
    exact hasEffect_stay (decide_eq_true (Int.le_of_eq hzero)) (ret_core _)
  · split
    · rename_i hneg
      exact hasEffect_stay (decide_eq_true (Int.le_of_lt hneg)) (ret_core _)
    · exact ⟨_, .delay hactive (by omega), by
        rw [swapProcess_core, swapped_core]⟩

/-! ### Terminals -/

theorem ttyReadFinish_core (t len : Nat) :
    (s.ttyReadFinish t len).core = s.core.setMode .user ∨
      ∃ next rest, s.ttyReadQueues t = next :: rest ∧ s.linesLeft t len ∧
        (s.ttyReadFinish t len).core =
          ((s.core.setBlockedCode next Blocked.notBlocked).setReadyQ
            (s.readyQ ++ [next])).setMode .user := by
  unfold ttyReadFinish
  simp only
  split
  · refine .inl ?_
    rw [ret_core, emit_core_of_device rfl, setReadTracker_core,
      setReadBuffer_core]
  · rename_i next rest hqueue
    split
    · rename_i hleft
      refine .inr ⟨next, rest, hqueue, hleft, ?_⟩
      rw [ret_core, queueAdd_core, setBlockedCode_core,
        emit_core_of_device rfl, setReadTracker_core, setReadBuffer_core]
      rfl
    · refine .inl ?_
      rw [ret_core, emit_core_of_device rfl, setReadTracker_core,
        setReadBuffer_core]

theorem kernelTtyRead_hasEffect {ttyId len : Int}
    (hactive : s.activePCB ≠ s.idlePCB) :
    s.HasEffect (.trap ctx (.kernel (.ttyRead ttyId len)))
      (s.kernelTtyRead ttyId len) := by
  unfold kernelTtyRead
  split
  · exact hasEffect_stay rfl (ret_core _)
  · rename_i hrange
    split
    · exact hasEffect_stay rfl (ret_core _)
    · split
      · exact hasEffect_stay rfl (ret_core _)
      · simp only
        split
        · refine ⟨_, .ttyReadSleeps hactive ?_, ?_⟩
          · simp only [numTerminals] at hrange ⊢
            omega
          · rw [swapProcess_core, swapped_core, setTtyTerminal_core,
              setBlockedCode_core, emit_core_of_device rfl,
              setTtyTerminal_core, setBlockedCode_core]
        · rename_i hready
          -- nobody else waits here, so nobody is woken
          have hempty : s.ttyReadQueues ttyId.toNat = [] := by
            by_contra h
            exact hready (.inl h)
          rcases ttyReadFinish_core (s := s.emit (.ttyReadCall ttyId.toNat
            s.activePCB len.toNat)) ttyId.toNat len.toNat with
            h | ⟨next, rest, hqueue, -⟩
          · refine hasEffect_stay rfl ?_
            rw [h, emit_core_of_device rfl]
          · cases hempty.symm.trans hqueue

theorem trapTTYReceiveHandler_hasEffect {t : Nat} {bytes : List UInt8}
    (ht : t < numTerminals) :
    s.HasEffect (.trap ctx (.ttyReceive t bytes))
      (s.trapTTYReceiveHandler t bytes) := by
  unfold trapTTYReceiveHandler
  simp only
  split
  · refine hasEffect_stay rfl ?_
    rw [toUser_core, emit_core_of_device rfl, setReadTracker_core,
      setReadBuffer_core]
  · rename_i next rest hqueue
    refine ⟨_, .ttyReceives ht hqueue, ?_⟩
    rw [toUser_core, queueAdd_core, setBlockedCode_core, setTtyReadQueue_core,
      emit_core_of_device rfl, setReadTracker_core, setReadBuffer_core,
      setMode_core, setReadyQ_core, setBlockedCode_core, setTtyReadQueue_core]
    rfl

theorem writeDone_core (t : Nat) :
    (s.writeDone t).core = s.core.writeDone t := by
  have hqueues : s.core.ttyWriteQueues t = s.ttyWriteQueues t := rfl
  unfold writeDone
  rw [hqueues]
  split
  · rfl
  · rfl

theorem ttyWriteFinish_core (t written : Nat) :
    (s.ttyWriteFinish t written).core =
      (s.core.writeDone t).setMode .user := by
  have hqueues : s.core.ttyWriteQueues t = s.ttyWriteQueues t := rfl
  unfold ttyWriteFinish writeDone
  rw [hqueues]
  simp only
  split
  · rename_i hrest
    rw [ret_core, emit_core_of_device rfl, setTtyWriteQueue_core, hrest]
  · rename_i next rest hrest
    rw [ret_core, queueAdd_core, setBlockedCode_core, emit_core_of_device rfl,
      setTtyWriteQueue_core, hrest]
    rfl

theorem ttyTransmit_core (t : Nat) (chunk : List UInt8) :
    ((s.setWriteTracker t .terminalClosed).ttyTransmit t chunk).core =
      s.core := by
  rw [ttyTransmit, setTransmitting_core, emit_core_of_device rfl,
    setWriteTracker_core]

/-- The write loop ends asleep or with the head of the queue done. -/
theorem ttyWriteLoop_core (t : Nat) (buf : Buffer)
    (len rounds left written : Nat) :
    (∃ left' written',
        (ttyWriteLoop t buf len rounds left written s).core =
          ((s.core.setBlockedCode s.activePCB
            Blocked.ttyTransmit).setTtyTerminal s.activePCB t).swapped none
              (.kernelTtyWrite t buf len left' written')) ∨
      (ttyWriteLoop t buf len rounds left written s).core =
        (s.core.writeDone t).setMode .user := by
  induction rounds generalizing s left written with
  | zero => exact .inr (ttyWriteFinish_core t written)
  | succ rounds ih =>
      rw [ttyWriteLoop]
      split
      · exact .inr (ttyWriteFinish_core t written)
      · split
        · refine .inl ⟨left, written, ?_⟩
          simp only [swapProcess_core, setTtyTerminal_core,
            setBlockedCode_core]
        · have hround := ih (s := (s.setWriteTracker t
            .terminalClosed).ttyTransmit t (bytesOf buf written
              (if terminalMaxLine < left then terminalMaxLine else left)))
            (left - if terminalMaxLine < left then terminalMaxLine else left)
            (written +
              if terminalMaxLine < left then terminalMaxLine else left)
          rw [ttyTransmit_core] at hround
          exact hround

theorem ttyWriteLoop_hasEffect {a : Label} {t : Nat} {s₁ : Kernel}
    (hwrites : WritesOn s a t s₁) (hcore : s'.core = s₁.core) (buf : Buffer)
    (len rounds left written : Nat) :
    s.HasEffect a (ttyWriteLoop t buf len rounds left written s') := by
  have hactive : s'.activePCB = s₁.activePCB :=
    (congrArg Kernel.activePCB hcore :)
  rcases ttyWriteLoop_core (s := s') t buf len rounds left written with
    ⟨left', written', h⟩ | h
  · refine ⟨_, .ttyWriteSleeps buf len left' written' hwrites, ?_⟩
    rw [h, swapped_core, setTtyTerminal_core, setBlockedCode_core, hcore,
      hactive]
  · refine ⟨_, .ttyWriteReturns hwrites, ?_⟩
    rw [h, setMode_core, writeDone_core, hcore]

theorem kernelTtyWrite_hasEffect {ttyId : Int} {buf : Buffer} {len : Int}
    (hactive : s.activePCB ≠ s.idlePCB) :
    s.HasEffect (.trap ctx (.kernel (.ttyWrite ttyId buf len)))
      (s.kernelTtyWrite ttyId buf len) := by
  unfold kernelTtyWrite
  split
  · exact hasEffect_stay rfl (ret_core _)
  · rename_i hrange
    have ht : ttyId.toNat < numTerminals := by
      simp only [numTerminals] at hrange ⊢
      omega
    split
    · exact hasEffect_stay rfl (ret_core _)
    · split
      · exact hasEffect_stay rfl (ret_core _)
      · have hqueue : ((s.setTtyWriteQueue ttyId.toNat
            (s.ttyWriteQueues ttyId.toNat ++ [s.activePCB])).emit
              (.ttyWriteCall ttyId.toNat s.activePCB
                (bytesOf buf 0 len.toNat))).ttyWriteQueues ttyId.toNat =
            s.ttyWriteQueues ttyId.toNat ++ [s.activePCB] := by
          simp [emit, setHistory, setTtyWriteQueue]
        simp only [hqueue]
        split
        · rename_i hwaits
          refine ⟨_, .ttyWriteWaits hactive ht hwaits, ?_⟩
          rw [swapProcess_core, swapped_core, setTtyTerminal_core,
            setBlockedCode_core, emit_core_of_device rfl,
            setTtyTerminal_core, setBlockedCode_core]
        · rename_i hfirst
          refine ttyWriteLoop_hasEffect
            (.call hactive ht (not_not.1 hfirst)) ?_ _ _ _ _ _
          rw [emit_core_of_device rfl]

theorem trapTTYTransmitHandler_hasEffect {t : Nat} :
    s.HasEffect (.trap ctx (.ttyTransmit t))
      (s.trapTTYTransmitHandler t) := by
  have hopened : (((s.emit (.ttyTransmitTrap t)).setTransmitting t
      ((s.emit (.ttyTransmitTrap t)).transmitting t - 1)).setWriteTracker t
        .terminalOpen).core = s.core := by
    rw [setWriteTracker_core, setTransmitting_core, emit_core_of_device rfl]
  unfold trapTTYTransmitHandler
  simp only
  split
  · exact hasEffect_stay rfl (by rw [toUser_core, hopened])
  · rename_i head rest hqueue
    split
    · rename_i hpid
      obtain ⟨r, hr, hcore⟩ :=
        (recheck_checkBlocked _ head).of_core hopened
      refine ⟨_, .ttyTransmitted hqueue hpid hr, ?_⟩
      rw [toUser_core, hcore, setMode_core]
    · exact hasEffect_stay rfl (by rw [toUser_core, hopened])

/-! ### Pipes -/

theorem pipeSleep_core (p : PipePtr) (code : Int) (k : KernelContext) :
    (s.pipeSleep p code k).core =
      (((s.setBlockedCode s.activePCB code).setPipeQueue p
        ((s.pipes p).queue ++ [s.activePCB])).swapped (some .blockedQ) k).core := by
  simp only [pipeSleep, swapProcess_core, setPipe_core, setBlockedCode_core,
    swapped_core, setPipeQueue_core]
  rfl

theorem afterWake_core (p : PipePtr) (st : PipeWake) :
    (s.afterWake p st).core = s.core.afterWake p st := by
  simp only [afterWake, setPipe_core]
  rfl

/-- The bytes left behind by a read. -/
theorem read_plen (pipe : Pipe) (len : Nat) :
    (pipe.read len).2.1.plen = pipe.plen - len := by
  unfold Pipe.read
  split
  · rfl
  · simp only
    omega

theorem read_queue (pipe : Pipe) (len : Nat) :
    (pipe.read len).2.1.queue = pipe.queue := by
  unfold Pipe.read
  split
  · rfl
  · rfl

theorem write_queue (pipe : Pipe) (buf : Buffer) (len : Nat) :
    (pipe.write buf len).1.queue = pipe.queue := by
  unfold Pipe.write
  simp only
  split
  · rfl
  · rfl

/-- Writing a pipe without touching its queue. -/
theorem setPipe_core_same {p : PipePtr} {pipe : Pipe}
    (h : pipe.queue = (s.pipes p).queue) : (s.setPipe p pipe).core = s.core := by
  have hsame : ({ s.core.pipes p with queue := (s.pipes p).queue } : Pipe) =
      s.core.pipes p := rfl
  rw [setPipe_core, h, setPipeQueue, hsame, setPipe, upd, Function.update_eq_self]

theorem pipeReadFinish_core (p : PipePtr) (len : Nat) :
    (s.pipeReadFinish p len).core =
      (s.core.afterWake p (s.wake (.read p len))).setMode .user := by
  have hwake : wakeAfterRead ((s.pipes p).read len).2.1.plen
      { pid := s.pcb.pid
        blockedCode := s.pcb.blockedCode
        readyQ := s.readyQ
        blockedQ := s.blockedQ
        queue := ((s.pipes p).read len).2.1.queue } =
      s.wake (.read p len) := by
    rw [read_plen, read_queue]
    rfl
  simp only [pipeReadFinish, ret_core, afterWake_core]
  rw [setPipe_core_same (by exact read_queue _ _), emit_core_of_device rfl,
    ← hwake]
  simp [setPipe, pipeWake, emit, setHistory]

theorem pipeWriteFinish_core (p : PipePtr) (buf : Buffer) (len : Nat) :
    (s.pipeWriteFinish p buf len).core =
      (s.core.afterWake p (s.wake (.write p buf len))).setMode .user := by
  have hwake : broadcast ((s.pipes p).write buf len).1.queue.length 0
      { pid := s.pcb.pid
        blockedCode := s.pcb.blockedCode
        readyQ := s.readyQ
        blockedQ := s.blockedQ
        queue := ((s.pipes p).write buf len).1.queue } =
      s.wake (.write p buf len) := by
    rw [write_queue]
    rfl
  simp only [pipeWriteFinish, ret_core, afterWake_core]
  rw [setPipe_core_same (by exact write_queue _ _ _), emit_core_of_device rfl,
    ← hwake]
  simp [setPipe, pipeWake, emit, setHistory]

/-- A call that completes, at the state its handler starts from. -/
def finish (s : Kernel) : PipeCall → Kernel
  | .read p len => s.pipeReadFinish p len
  | .write p buf len => s.pipeWriteFinish p buf len

theorem finish_core (c : PipeCall) :
    (s.finish c).core = (s.core.afterWake c.pipe (s.wake c)).setMode .user := by
  cases c with
  | read p len => exact pipeReadFinish_core p len
  | write p buf len => exact pipeWriteFinish_core p buf len

theorem finish_hasEffect {a : Label} {c : PipeCall}
    (h : s.completing a = some c) : s.HasEffect a (s.finish c) :=
  ⟨_, .pipeWakes h, by rw [finish_core, setMode_core, afterWake_core]⟩

theorem pipeSleep_hasEffect {a : Label} {p : PipePtr} {code : Int}
    {k : KernelContext}
    (hfrom : a = .resume ∧ (s.pcb.kernelContext s.activePCB).SleepsOn p ∨
      a.callsPipe = true ∧ s.activePCB ≠ s.idlePCB)
    (hcode : code = Blocked.pipeRead ∨ code = Blocked.pipeWrite)
    (hk : k.SleepsOn p) : s.HasEffect a (s.pipeSleep p code k) :=
  ⟨_, .pipeSleeps hfrom hcode hk, pipeSleep_core p code k⟩

theorem kernelPipeRead_hasEffect {pipeId : Int} {nonNull : Bool} {len : Int}
    (hactive : s.activePCB ≠ s.idlePCB)
    (hlive : (s.kernelPipeRead pipeId nonNull len).Live) :
    s.HasEffect (.trap ctx (.kernel (.pipeRead pipeId nonNull len)))
      (s.kernelPipeRead pipeId nonNull len) := by
  revert hlive
  unfold kernelPipeRead
  split
  · exact fun _ => hasEffect_stay rfl (ret_core _)
  · rename_i hnonNull
    split
    · exact fun _ => hasEffect_stay rfl (ret_core _)
    · rename_i hlen
      split
      · exact fun _ => hasEffect_stay rfl (ret_core _)
      · rename_i p hpipe
        split
        · exact fun hlive => absurd hlive (not_live_of_core rfl)
        · rename_i hhead
          split
          · exact fun _ => pipeSleep_hasEffect (.inr ⟨rfl, hactive⟩) (.inl rfl)
              (.read _)
          · rename_i hfree
            unfold pipeReadLoop
            split
            · exact fun _ => pipeSleep_hasEffect (.inr ⟨rfl, hactive⟩) (.inl rfl)
                (.read _)
            · rename_i hplen
              refine fun _ => finish_hasEffect (c := .read p len.toNat) ?_
              have hargs : ¬ ((!nonNull) = true ∨ len < 0 ∨
                  (pipeBufferLen : Int) < len) := by
                rintro (h | h)
                · exact hnonNull h
                · exact hlen h
              have hpipe' : ¬ (s.pipeChain.head? = some p ∨
                  (s.pipes p).beingUsed = true ∨ (s.pipes p).plen = 0) := by
                rintro (h | h | h)
                · exact hhead h
                · exact hfree h
                · exact hplen h
              rw [completing, if_neg hargs, hpipe]
              exact if_neg hpipe'

theorem kernelPipeWrite_hasEffect {pipeId : Int} {buf : Option Buffer}
    {len : Int} (hactive : s.activePCB ≠ s.idlePCB)
    (hlive : (s.kernelPipeWrite pipeId buf len).Live) :
    s.HasEffect (.trap ctx (.kernel (.pipeWrite pipeId buf len)))
      (s.kernelPipeWrite pipeId buf len) := by
  revert hlive
  unfold kernelPipeWrite
  split
  · exact fun _ => hasEffect_stay rfl (ret_core _)
  · rename_i hid
    split
    · exact fun _ => hasEffect_stay rfl (ret_core _)
    · rename_i hlen
      split
      · exact fun _ => hasEffect_stay rfl (ret_core _)
      · rename_i buf
        split
        · exact fun hlive => absurd hlive (not_live_of_core rfl)
        · rename_i p hpipe
          split
          · exact fun hlive => absurd hlive (not_live_of_core rfl)
          · rename_i hhead
            unfold pipeWriteLoop
            split
            · exact fun _ => pipeSleep_hasEffect (.inr ⟨rfl, hactive⟩) (.inr rfl)
                (.write _ _)
            · rename_i hfree
              refine fun _ => finish_hasEffect (c := .write p buf len.toNat) ?_
              have hargs : ¬ (pipeId ≤ 0 ∨ len < 0 ∨
                  (pipeBufferLen : Int) < len) := by
                rintro (h | h)
                · exact hid h
                · exact hlen h
              have hpipe' : ¬ (s.pipeChain.head? = some p ∨
                  (s.pipes p).beingUsed = true) := by
                rintro (h | h)
                · exact hhead h
                · exact hfree h
              rw [completing, if_neg hargs, Option.bind_some, hpipe]
              exact if_neg hpipe'

theorem pipeReadLoop_hasEffect {p : PipePtr} {len : Nat}
    (hctx : s.pcb.kernelContext s.activePCB = .kernelPipeRead p len) :
    s.HasEffect .resume (s.pipeReadLoop p len) := by
  unfold pipeReadLoop
  split
  · exact pipeSleep_hasEffect (.inl ⟨rfl, hctx ▸ .read len⟩) (.inl rfl)
      (.read len)
  · rename_i hplen
    refine finish_hasEffect (c := .read p len) ?_
    simp only [completing, hctx, if_neg hplen]

theorem pipeWriteLoop_hasEffect {p : PipePtr} {buf : Buffer} {len : Nat}
    (hctx : s.pcb.kernelContext s.activePCB = .kernelPipeWrite p buf len) :
    s.HasEffect .resume (s.pipeWriteLoop p buf len) := by
  unfold pipeWriteLoop
  split
  · exact pipeSleep_hasEffect (.inl ⟨rfl, hctx ▸ .write buf len⟩) (.inr rfl)
      (.write buf len)
  · rename_i hfree
    refine finish_hasEffect (c := .write p buf len) ?_
    simp only [completing, hctx, hfree, Bool.false_eq_true, if_false]

theorem kernelPipeInit_hasEffect {nonNull : Bool} :
    s.HasEffect (.trap ctx (.kernel (.pipeInit nonNull)))
      (s.kernelPipeInit nonNull) := by
  unfold kernelPipeInit
  cases nonNull with
  | false => exact hasEffect_stay rfl (ret_core _)
  | true =>
      refine ⟨_, .pipeInit (p := s.npipes), ?_⟩
      have hadd : s.addPipe.2.core = (s.setPipeQueue s.npipes []).core := by
        have hset := setPipe_core (s := s) s.npipes
          ⟨fun _ => 0, 0, s.addPipe.1, false, []⟩
        rw [setPipeQueue_core, ← hset]
        rfl
      simp only [Bool.not_true, Bool.false_eq_true, if_false, ret_core,
        setMode_core]
      rw [emit_core_of_device rfl, hadd]

/-! ### Locks and condition variables -/

/-- Every lock and every condition variable reads as unused: the codes for free
and unused locks are the same, and so are those for condition variables. -/
structure SyncIdle (s : Kernel) : Prop where
  lock : ∀ i, s.lockStatus i = unusedLock
  cvar : ∀ i, s.cvarStatus i = unusedCvar
  context : ∀ p, (s.pcb.kernelContext p).isSync = false

theorem setLockStatus_core_idle (h : s.SyncIdle) (i : Int) :
    (s.setLockStatus i freeLock).core = s.core := by
  have hsame : upd s.lockStatus i freeLock = s.lockStatus := by
    rw [show freeLock = s.lockStatus i from (h.lock i).symm]
    exact Function.update_eq_self i s.lockStatus
  rw [setLockStatus, hsame]

theorem setCvarStatus_core_idle (h : s.SyncIdle) (i : Int) :
    (s.setCvarStatus i usedCvar).core = s.core := by
  have hsame : upd s.cvarStatus i usedCvar = s.cvarStatus := by
    rw [show usedCvar = s.cvarStatus i from (h.cvar i).symm]
    exact Function.update_eq_self i s.cvarStatus
  rw [setCvarStatus, hsame]

theorem kernelLockInit_hasEffect {nonNull : Bool} (h : s.SyncIdle)
    (hlive : (s.kernelLockInit nonNull).Live) :
    s.HasEffect (.trap ctx (.kernel (.lockInit nonNull)))
      (s.kernelLockInit nonNull) := by
  revert hlive
  unfold kernelLockInit
  split
  · split
    · exact fun _ => hasEffect_stay rfl (ret_core _)
    · exact fun hlive => absurd hlive (not_live_of_core rfl)
  · split
    · exact fun _ => hasEffect_stay rfl (ret_core _)
    · refine fun _ => hasEffect_stay rfl ?_
      have hidle : (s.setLockList ‹_›).SyncIdle := ⟨h.lock, h.cvar, h.context⟩
      rw [ret_core, setLockStatus_core_idle hidle, setLockList_core]

theorem kernelAcquire_unused (h : s.SyncIdle) (lockId : Int) :
    s.kernelAcquire lockId = s.ret Rc.error := by
  unfold kernelAcquire
  simp only [h.lock, if_true, ite_self]

theorem kernelRelease_unused (h : s.SyncIdle) (lockId : Int) :
    s.kernelRelease lockId = (Rc.error, s) := by
  unfold kernelRelease
  simp only [h.lock, or_true, if_true, ite_self]

theorem kernelCvarInit_hasEffect {nonNull : Bool} (h : s.SyncIdle) :
    s.HasEffect (.trap ctx (.kernel (.cvarInit nonNull)))
      (s.kernelCvarInit nonNull) := by
  unfold kernelCvarInit
  split
  · exact hasEffect_stay rfl (ret_core _)
  · split
    · exact hasEffect_stay rfl (ret_core _)
    · refine hasEffect_stay rfl ?_
      have hidle : (s.setCvarList ‹_›).SyncIdle := ⟨h.lock, h.cvar, h.context⟩
      rw [ret_core, setCvarStatus_core_idle hidle, setCvarList_core]

theorem kernelReclaim_hasEffect {id : Int}
    (hlive : (s.kernelReclaim id).Live) :
    s.HasEffect (.trap ctx (.kernel (.reclaim id))) (s.kernelReclaim id) := by
  revert hlive
  unfold kernelReclaim removePipe
  split
  · exact fun _ => hasEffect_stay rfl (by rw [ret_core, setLockList_core])
  · split
    · exact fun _ => hasEffect_stay rfl (by rw [ret_core, setCvarList_core])
    · split
      · exact fun _ => hasEffect_stay rfl (ret_core _)
      · split
        · exact fun hlive => absurd hlive (not_live_of_core rfl)
        · exact fun _ => hasEffect_stay rfl (by rw [ret_core, setPipeChain_core])

/-! ### Steps -/

theorem trapKernelHandler_hasEffect {call : Syscall} (hsync : s.SyncIdle)
    (hzero : 0 ∈ s.history.usedPids)
    (hpossible : (Trap.kernel call).Possible s)
    (hlive : (s.trapKernelHandler call).Live) :
    s.HasEffect (.trap ctx (.kernel call)) (s.trapKernelHandler call) := by
  obtain ⟨hcaller, hfresh⟩ := hpossible
  have hactive (h : call.idleCall = false) : s.activePCB ≠ s.idlePCB := by
    rcases hcaller with hne | hidle
    · exact hne
    · rw [h] at hidle
      cases hidle
  cases call with
  | fork newPid =>
      exact kernelFork_hasEffect (hactive rfl) hzero (hfresh newPid rfl) hlive
  | exec args => exact execCase_hasEffect (hactive rfl) hlive
  | exit exitCode =>
      exact ⟨_, .exit (hactive rfl) rfl, by
        rw [trapKernelHandler, kernelExit_core, exited_core]⟩
  | wait nonNull => exact kernelWait_hasEffect (hactive rfl)
  | getPid => exact hasEffect_stay rfl (ret_core _)
  | brk addr => exact kernelBrk_hasEffect hlive
  | delay ticks => exact kernelDelay_hasEffect (hactive rfl)
  | ttyRead ttyId len => exact kernelTtyRead_hasEffect (hactive rfl)
  | ttyWrite ttyId buf len => exact kernelTtyWrite_hasEffect (hactive rfl)
  | pipeInit nonNull => exact kernelPipeInit_hasEffect
  | pipeRead pipeId nonNull len =>
      exact kernelPipeRead_hasEffect (hactive rfl) hlive
  | pipeWrite pipeId buf len =>
      exact kernelPipeWrite_hasEffect (hactive rfl) hlive
  | lockInit nonNull => exact kernelLockInit_hasEffect hsync hlive
  | acquire lockId =>
      rw [trapKernelHandler, kernelAcquire_unused hsync]
      exact hasEffect_stay rfl (ret_core _)
  | release lockId =>
      rw [trapKernelHandler, kernelRelease_unused hsync]
      exact hasEffect_stay rfl (ret_core _)
  | cvarInit nonNull => exact kernelCvarInit_hasEffect hsync
  | cvarSignal cvarId =>
      rw [trapKernelHandler, kernelCvarSignal]
      simp only [hsync.cvar, or_true, if_true]
      exact hasEffect_stay rfl (ret_core _)
  | cvarBroadcast cvarId =>
      rw [trapKernelHandler, kernelCvarBroadcast]
      simp only [hsync.cvar, or_true, if_true]
      exact hasEffect_stay rfl (ret_core _)
  | cvarWait cvarId lockId =>
      rw [trapKernelHandler, kernelCvarWait]
      simp only [hsync.cvar, true_or, or_true, if_true]
      exact hasEffect_stay rfl (ret_core _)
  | reclaim id => exact kernelReclaim_hasEffect hlive

theorem handle_hasEffect {t : Trap} (hsync : s.SyncIdle)
    (hzero : 0 ∈ s.history.usedPids) (hpossible : t.Possible s)
    (hlive : (s.handle t).Live) : s.HasEffect (.trap ctx t) (s.handle t) := by
  cases t with
  | kernel call =>
      exact trapKernelHandler_hasEffect hsync hzero hpossible hlive
  | clock =>
      refine ⟨_, .clock, ?_⟩
      rw [handle, trapClockHandler, swapProcess_core, swapped_core]
      rfl
  | illegal =>
      refine ⟨_, .fault hpossible (.inl rfl), ?_⟩
      rw [handle, trapIllegalHandler, trapFaultHandler, swapProcess_core,
        swapped_core]
  | math =>
      refine ⟨_, .fault hpossible (.inr rfl), ?_⟩
      rw [handle, trapMathHandler, trapFaultHandler, swapProcess_core,
        swapped_core]
  | memory addr beyondValid =>
      exact trapMemoryHandler_hasEffect hpossible hlive
  | ttyReceive t bytes => exact trapTTYReceiveHandler_hasEffect hpossible.1
  | ttyTransmit t => exact trapTTYTransmitHandler_hasEffect

theorem resume_hasEffect (hsync : s.SyncIdle) :
    s.HasEffect .resume s.resume := by
  have hreturns {result : Kernel} (hcore : result.core = s.core.setMode .user)
      (hctx : (s.pcb.kernelContext s.activePCB).returns = true) :
      s.HasEffect .resume result :=
    ⟨_, .returns hctx, hcore⟩
  unfold resume
  split
  · rename_i hctx
    exact hreturns toUser_core (by rw [hctx]; rfl)
  · rename_i hctx
    exact hreturns (ret_core _) (by rw [hctx]; rfl)
  · rename_i hctx
    exact ⟨_, .clockResumes hctx (scanned_blockedScan _ _), by
      rw [toUser_core, setMode_core]⟩
  · rename_i hctx
    exact hreturns toUser_core (by rw [hctx]; rfl)
  · rename_i hctx
    exact hreturns toUser_core (by rw [hctx]; rfl)
  · rename_i pid hctx
    exact kernelWaitResume_hasEffect hctx
  · rename_i hctx
    exact hreturns (ret_core _) (by rw [hctx]; rfl)
  · rename_i t len hctx
    rcases ttyReadFinish_core (s := s) t len with h | ⟨next, rest, hq, hl, h⟩
    · exact hreturns h (by rw [hctx]; rfl)
    · exact ⟨_, .ttyReadWakes hctx hq hl, h⟩
  · rename_i t buf len left written hctx
    exact ttyWriteLoop_hasEffect (.resume hctx) rfl _ _ _ _ _
  · rename_i p len hctx
    exact pipeReadLoop_hasEffect hctx
  · rename_i p buf len hctx
    exact pipeWriteLoop_hasEffect hctx
  · rename_i lockId hctx
    have hidle := hsync.context s.activePCB
    rw [hctx] at hidle
    cases hidle
  · rename_i lockId hctx
    have hidle := hsync.context s.activePCB
    rw [hctx] at hidle
    cases hidle

/-- The state a handler starts from: the hardware has stored the user context
of a trap. -/
def entered (s : Kernel) : Label → Kernel
  | .trap ctx _ => s.enter ctx
  | .resume => s

theorem entered_core (a : Label) : (s.entered a).core = s.core := by
  cases a with
  | trap ctx t => rfl
  | resume => rfl

theorem entered_entered (a : Label) :
    (s.entered a).entered a = s.entered a := by
  cases a with
  | trap ctx t =>
      show (s.setUctxt s.activePCB ctx).setUctxt s.activePCB ctx =
        s.setUctxt s.activePCB ctx
      simp only [setUctxt, upd, Function.update_idem]
  | resume => rfl

theorem entered_take (a : Label) : (s.entered a).take a = s.take a := by
  cases a with
  | trap ctx t =>
      have h := entered_entered (s := s) (.trap ctx t)
      exact congrArg (Kernel.handle · t) h
  | resume => rfl

theorem entered_enabled {a : Label} (h : a.Enabled s) :
    a.Enabled (s.entered a) := by
  cases a with
  | trap ctx t => cases t <;> exact h
  | resume => exact h

/-- Every step that does not end the machine has one of the listed effects. -/
theorem take_hasEffect {a : Label} (hsync : s.SyncIdle)
    (hzero : 0 ∈ s.history.usedPids) (henabled : a.Enabled s)
    (hlive : (s.take a).Live) : (s.entered a).HasEffect a (s.take a) := by
  cases a with
  | trap ctx t =>
      exact handle_hasEffect (s := s.enter ctx)
        ⟨hsync.lock, hsync.cvar, hsync.context⟩ hzero henabled.2 hlive
  | resume => exact resume_hasEffect hsync

end Kernel

end Yalnix
