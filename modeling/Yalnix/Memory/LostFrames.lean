import Yalnix.Memory.FailedFork
import Yalnix.Memory.SingleOwner
import Yalnix.Process.Runnable

/-!
# No frame is lost

A process that ends in `KernelExit` gives all its frames back.  The frames of a
process that `TrapMathHandler` or `TrapIllegalHandler` kills do not come back,
nor do the frames of a child that `KernelFork` gives up, nor the first frame of
a page that a load maps twice.
-/

namespace Yalnix

open Kernel Ledger

def Label.forks : Label → Bool
  | .trap _ (.kernel (.fork _)) => true
  | _ => false

namespace Kernel

/-- The pool has frames for the kernel stack of a new process. -/
def StackEnough (s : Kernel) : Prop :=
  kernelStackSize ≤ s.pfnList.length ∧ 0 ∉ s.pfnList.take kernelStackSize

/-- The frame is free, or a process that can run has it. -/
def Found (s : Kernel) (f : Nat) : Prop :=
  f ∈ s.pfnList ∨ ∃ p, s.CanRun p ∧
    f ∈ spaceFrames (s.pcb.userPageTable p) (s.pcb.kernelStackPt p)

end Kernel

/--
Steps that lose no frame.  Nobody is killed by a math or illegal trap, a `Fork`
that gets a kernel stack gets the rest of the child as well, and an `Exec` that
passes the checks gives no page two frames.
-/
structure KeepsFrames (s : Kernel) (a : Label) : Prop where
  system : a.ofSystem = true
  noFault : a.faults = false
  fork : a.forks = true → s.StackEnough → s.ForkEnough
  exec : ∀ e ∈ a.execArgs, e.nonNull = true →
    e.file.MapsOnce e.args (s.freedPool s.activePCB)

namespace Kernel

variable {s s' s₁ r : Kernel} {a : Label} {p : PcbPtr} {pid : Nat}

/-! ## A fork that goes through -/

theorem forkReady_readyQ (child : PcbPtr) :
    (s.forkReady child).readyQ = s.readyQ ++ [child] := by
  have hcopied : ((s.queueAdd (some .readyQ) child).kcCopy child
      .kernelFork).readyQ = s.readyQ ++ [child] := by
    unfold kcCopy
    split
    · rfl
    · rfl
  unfold forkReady
  simp only
  split
  · exact hcopied
  · exact hcopied

theorem forkCopy_readyQ {child parent : PcbPtr} {reserved : Nat}
    (h : (copyUPT (s.pcb.userPageTable parent) (List.range userPtSize)
      (s.pcb.userPageTable child) s.pfnList (s.kPt reserved).pfn).1 = true) :
    (s.forkCopy child parent reserved).readyQ = s.readyQ ++ [child] := by
  unfold forkCopy
  split
  · rename_i hcopy
    rw [hcopy] at h
    cases h
  · exact forkReady_readyQ child

theorem forkInit_readyQ {child : PcbPtr} {forked : Kernel}
    (h : s.forkInit pid = some (child, forked)) :
    child = s.npcb ∧ forked.readyQ = s.readyQ := by
  obtain ⟨rfl, herase⟩ := initProcess_eraseMemory h
  exact ⟨rfl, (congrArg Kernel.readyQ herase :)⟩

/-- With frames enough the child is made ready. -/
theorem kernelFork_readies (hpid : pid ≠ 0) (hactive : s.activePCB ≠ s.npcb)
    (h : s.ForkEnough) :
    (s.kernelFork pid).readyQ = s.readyQ ++ [s.npcb] := by
  obtain ⟨hpage, henough⟩ := h
  obtain ⟨hstack, hpages⟩ := enough_add.1 henough
  have hsome := (forkInit_isSome_iff hpid).2 hstack
  obtain ⟨⟨child, forked⟩, hinit⟩ := Option.isSome_iff_exists.1 hsome
  obtain ⟨reserved, hreserved⟩ := Option.isSome_iff_exists.1 hpage
  obtain ⟨rfl, hready⟩ := forkInit_readyQ hinit
  have hcounted := forkInit_counted hpid hactive hinit
  rw [← hcounted.kPt] at hreserved
  rw [kernelFork_copies hinit hreserved, forkCopy_readyQ]
  · exact congrArg (· ++ [s.npcb]) hready
  · rw [copyUPT_flag_iff, hcounted.table, hcounted.pool]
    exact hpages

/-- A `Fork` that returns has got a kernel stack. -/
theorem stackEnough_of_defined (hpid : pid ≠ 0)
    (hdefined : (s.kernelFork pid).mode ≠ .undefined) : s.StackEnough := by
  apply (forkInit_isSome_iff hpid).1
  cases hinit : s.forkInit pid with
  | none =>
      rw [kernelFork_none hinit] at hdefined
      exact absurd rfl hdefined
  | some made => rfl

/-! ## One step -/

theorem loads_noneLost {args : ExecArgs} {code : Int}
    (hexec : s.kernelExec args = some (code, s₁))
    (honce : args.nonNull = true →
      args.file.MapsOnce args.args (s.freedPool s.activePCB)) :
    NoneLost (s.stock s.activePCB) (s₁.stock s.activePCB) := by
  cases kernelExec_case hexec with
  | refused hsame hpool =>
      rw [hsame.stock hpool]
      exact .refl _
  | loads hnull haccepted hload =>
      have hrewritten := oneTable_of_rewritten (kernelExec_rewritten hexec)
      have hlost := loadImage_noneLost (by
        rw [setUserContext_freedPool]
        exact honce hnull _ haccepted) hload
      rw [setUserContext_holding] at hlost
      exact stock_atMost (congrFun hrewritten.kernelStackPt _) hlost

/-- The step lemma: only the active process and the pool exchange frames, and
together they lose none. -/
theorem FrameEffect.noneLost (h : s.FrameEffect a s') (heffect : Effect s a r)
    (hcore : s'.core = r.core) (hactive : s.activePCB < s.npcb)
    (hlive : s.history.terminated s.activePCB = false)
    (hfresh : s.history.terminated s.npcb = false)
    (hstack : ∀ i, i < kernelStackSize →
      (s.pcb.kernelStackPt s.activePCB i).valid = true)
    (hkeeps : KeepsFrames s a) : NoneLost s.frames s'.frames := by
  have hthen := terminated_of_core hcore
  have hothers (q : PcbPtr) (hq : q ≠ s.activePCB) :
      s'.history.terminated q = s.history.terminated q := by
    rw [hthen]
    exact heffect.terminated_other hq
  have hgoesOn (hends : s.ends a = none) :
      s'.history.terminated = s.history.terminated := by
    rw [hthen]
    rcases heffect.terminated_cases with hsame | ⟨-, hnot | hnot⟩
    · exact hsame
    · exact absurd hends hnot
    · rw [hkeeps.noFault] at hnot
      cases hnot
  have hexchange (htable : s.OneTable s.activePCB s')
      (hstake : NoneLost (s.stock s.activePCB)
        (s'.share s.activePCB ++ s'.pfnList)) : NoneLost s.frames s'.frames := by
    rw [← share_live hlive] at hstake
    exact htable.frames_atLeast hactive hothers hstake
  cases h with
  | moves hends htable hmoved =>
      refine hexchange htable ?_
      rw [share_live ((congrFun (hgoesOn hends) _).trans hlive)]
      exact (stock_conserved (congrFun htable.kernelStackPt _) hmoved).noneLost
  | @loads ctx args _ _ _ hexec hcode hsame hpool =>
      have hloaded := oneTable_of_rewritten (kernelExec_rewritten hexec)
      refine hexchange ⟨hsame.npcb.trans hloaded.npcb, fun q hq =>
        (congrFun hsame.userPageTable q).trans (hloaded.userPageTable q hq),
        hsame.kernelStackPt.trans hloaded.kernelStackPt⟩ ?_
      have hends : s.ends (.trap ctx (.kernel (.exec args))) = none := by
        simp only [Kernel.ends, hexec, if_pos hcode]
      rw [share_live ((congrFun (hgoesOn hends) _).trans hlive),
        hsame.stock hpool]
      exact loads_noneLost hexec (hkeeps.exec _ rfl)
  | execFails hexec hfreed =>
      have hloaded := oneTable_of_rewritten (kernelExec_rewritten hexec)
      refine hexchange ⟨hfreed.npcb.trans hloaded.npcb, fun q hq =>
        (congrFun hfreed.userPageTable q).trans (hloaded.userPageTable q hq),
        hfreed.kernelStackPt.trans hloaded.kernelStackPt⟩ ?_
      rw [← hloaded.kernelStackPt] at hstack
      exact (loads_noneLost hexec (hkeeps.exec _ rfl)).trans (hfreed.noneLost hstack)
  | ends _ _ hfreed =>
      exact hexchange hfreed.toSameTables.oneTable (hfreed.noneLost hstack)
  | forks hmade =>
      have hsame := hgoesOn rfl
      exact hmade.frames_noneLost (fun q _ => congrFun hsame q)
        ((congrFun hsame _).trans hfresh)

end Kernel

/-! ## Runs -/

/-- The initial pool and the boot stack are still there, and every process that
has not terminated can run. -/
structure Retained (b : Boot) (s : Kernel) : Prop where
  frames : NoneLost (b.pfnList ++ bootStack) s.frames
  stranded : s.NoneStranded

namespace Retained

variable {b : Boot} {s : Kernel}

/-- A frame is free or belongs to a process that has not terminated. -/
theorem found (h : Retained b s) {f : Nat} (hf : f ∈ b.pfnList) : s.Found f := by
  have hpos : 0 < (b.pfnList ++ bootStack).count f :=
    List.count_pos_iff.2 (List.mem_append_left _ hf)
  have hne : f ≠ 0 := by
    have hge := Boot.mem_pfnList hf
    unfold vmem1BasePage at hge
    rintro rfl
    exact absurd hge (by decide)
  have hmem : f ∈ s.frames :=
    List.count_pos_iff.1 (Nat.lt_of_lt_of_le hpos (h.frames f hne))
  rcases List.mem_append.1 hmem with hfree | howned
  · exact .inl hfree
  · obtain ⟨p, hp, hshare⟩ := List.mem_flatMap.1 howned
    cases hdead : s.history.terminated p with
    | true =>
        rw [share_dead hdead] at hshare
        cases hshare
    | false =>
        refine .inr ⟨p, h.stranded.canRun p (List.mem_range.1 hp) hdead, ?_⟩
        unfold share at hshare
        rw [hdead] at hshare
        exact hshare

/-- When nobody but idle is left, pool and idle have the initial pool. -/
theorem whole (h : Retained b s) (haccounted : Accounted b s)
    (hidle : 0 < s.npcb) (hlive : s.history.terminated 0 = false)
    (hended : ∀ p, 0 < p → p < s.npcb → s.history.terminated p = true) :
    (s.pfnList ++ ownedFrames (s.pcb.userPageTable 0)).Perm b.pfnList := by
  have hothers : (List.range s.npcb).flatMap s.share = s.share 0 := by
    obtain ⟨n, hn⟩ := Nat.exists_eq_succ_of_ne_zero (Nat.ne_of_gt hidle)
    have hdead : ∀ p ∈ (List.range n).map Nat.succ, s.share p = [] := by
      intro p hp
      obtain ⟨i, hi, rfl⟩ := List.mem_map.1 hp
      have hlt := List.mem_range.1 hi
      exact share_dead (hended _ (Nat.succ_pos i) (by omega))
    rw [hn, List.range_succ_eq_map, List.flatMap_cons,
      List.flatMap_eq_nil_iff.2 hdead, List.append_nil]
  have hframes : s.frames = s.pfnList ++
      (ownedFrames (s.pcb.userPageTable 0) ++ bootStack) := by
    unfold Kernel.frames inventory
    rw [hothers, share, hlive, ← haccounted.stack]
    rfl
  rw [List.perm_iff_count]
  intro f
  have hmost := haccounted.frames f trivial
  have hleast := h.frames f
  rw [hframes] at hmost hleast
  simp only [List.count_append] at hmost hleast ⊢
  by_cases hzero : f = 0
  · -- the initial pool has no frame of Region 0
    have hnone : b.pfnList.count 0 = 0 := by
      apply List.count_eq_zero_of_not_mem
      intro hmem
      exact absurd (Boot.mem_pfnList hmem) (by decide)
    rw [hzero] at hmost ⊢
    omega
  · have hkept := hleast hzero
    omega

end Retained

theorem KeepsFrames.entered {s : Kernel} {a : Label} (h : KeepsFrames s a) :
    KeepsFrames (s.entered a) a := by
  obtain ⟨-, hactive, -, -, hfreed, -⟩ := entered_frames (s := s) a
  refine ⟨h.system, h.noFault, ?_, ?_⟩
  · have hfork := h.fork
    cases a <;> exact hfork
  · rw [hactive, hfreed]
    exact h.exec

/-- A `Fork` that keeps all frames makes its child ready. -/
theorem KeepsFrames.readies {s : Kernel} {ctx : UserContext} {pid : Nat}
    (h : KeepsFrames s (.trap ctx (.kernel (.fork pid)))) (hpid : pid ≠ 0)
    (hactive : s.activePCB < s.npcb)
    (hlive : (s.take (.trap ctx (.kernel (.fork pid)))).Live) :
    (s.take (.trap ctx (.kernel (.fork pid)))).readyQ =
      s.readyQ ++ [s.npcb] := by
  have hcall : s.take (.trap ctx (.kernel (.fork pid))) =
      (s.enter ctx).kernelFork pid := rfl
  rw [hcall] at hlive ⊢
  have hdefined : ((s.enter ctx).kernelFork pid).mode ≠ .undefined := by
    rcases hlive with huser | hkernel
    · rw [huser]
      exact nofun
    · rw [hkernel]
      exact nofun
  have hstack := stackEnough_of_defined hpid hdefined
  exact kernelFork_readies hpid (Nat.ne_of_lt hactive) (h.entered.fork rfl hstack)

theorem ReachableFrom.retained {b : Boot} {s : Kernel} (hb : b.WellFormed)
    (hidle : b.idleFile.MapsOnce b.idleArgs b.pfnList)
    (hprog : ∀ pool, b.progFile.MapsOnce b.progArgs pool)
    (h : ReachableFrom b KeepsFrames s) (hlive : s.Live) : Retained b s := by
  revert hlive
  refine h.invariant (P := fun s => s.Live → Retained b s) ?_ ?_
  · rintro s ⟨rfl, hmode⟩ _
    exact ⟨Boot.kernelStart_noneLost hb hmode hidle hprog,
      (NoneStranded.started b).of_core
        (core_of_eraseMemory (Boot.kernelStart_eraseMemory hmode))⟩
  · intro s a s' hreach ih hmeets hstep hlive
    cases hstep with
    | take henabled =>
        have hs := ih henabled.live
        have hfrom := ReachableFrom.reachable hb hreach
        have hquiet := hfrom.quiescent henabled.live
        obtain ⟨hpop, hsettled, hcontexts⟩ :=
          hfrom.system (fun _ _ h => h.system) henabled.live
        obtain ⟨r, heffect, hcore⟩ :=
          take_hasEffect hquiet.sync hquiet.zero_used henabled hlive
        have hframe := take_frameEffect hquiet.zero_used henabled hlive
        obtain ⟨hframes, hactive, hnpcb, hhistory, -, hstack⟩ :=
          entered_frames (s := s) a
        have hentered := entered_core (s := s) a
        constructor
        · have hmapped := hfrom.stacksMapped henabled.live
          have hlost := hframe.noneLost heffect hcore
            (by rw [hactive, hnpcb]; exact hpop.active)
            (by rw [hactive, hhistory]; exact hsettled.live)
            (by rw [hnpcb, hhistory]; exact hsettled.fresh _ (Nat.le_refl _))
            (by rw [hactive, hstack]; exact fun i hi => hmapped.active_valid hi)
            hmeets.entered
          rw [hframes] at hlost
          exact hs.frames.trans hlost
        · refine NoneStranded.of_core ?_ hcore
          refine (hs.stranded.of_core hentered).effect
            (hpop.of_core hentered) (hsettled.of_core hentered)
            (hcontexts.of_core hentered) hmeets.system hmeets.noFault ?_
            heffect
          rintro ctx pid rfl
          have hpid : pid ≠ 0 := by
            rintro rfl
            exact henabled.2.2 0 rfl hquiet.zero_used
          have hready : (s.take (.trap ctx (.kernel (.fork pid)))).readyQ =
              r.readyQ := (congrArg Kernel.readyQ hcore :)
          rw [← hready]
          exact hmeets.readies hpid hpop.active hlive

/--
In every run whose steps lose no frame, at every return to user mode, each frame
of the initial pool is free or belongs to a process that can run.  If the
programs fit as well, pool and idle have the initial pool once every other
process has terminated.
-/
theorem no_frame_is_lost {b : Boot} (hb : b.WellFormed)
    (hidle : b.idleFile.MapsOnce b.idleArgs b.pfnList)
    (hprog : ∀ pool, b.progFile.MapsOnce b.progArgs pool) :
    (∀ s, ReachableFrom b KeepsFrames s → s.mode = .user →
      ∀ f ∈ b.pfnList, s.Found f) ∧
    (b.idleFile.frames b.idleArgs ≤ b.pfnList.length → ∀ s,
      ReachableFrom b (fun s a => KeepsFrames s a ∧ s.ExecFits a) s →
      s.mode = .user →
      (∀ p, p < s.npcb → p ≠ s.idlePCB → s.history.terminated p = true) →
      (s.pfnList ++ ownedFrames (s.pcb.userPageTable s.idlePCB)).Perm
        b.pfnList) := by
  constructor
  · intro s h huser f hf
    exact (h.retained hb hidle hprog (.inl huser)).found hf
  · intro hfits s h huser hended
    have hkeeps : ReachableFrom b KeepsFrames s := h.mono fun _ _ h => h.1
    have hprograms : ReachableFrom b ProgramsFit s :=
      h.mono fun _ _ h => ⟨h.1.system, h.2⟩
    obtain ⟨hpop, hsettled, -⟩ := (ReachableFrom.reachable hb h).system
      (fun _ _ h => h.1.system) (.inl huser)
    have hlive := hsettled.idle
    rw [hpop.idle] at hlive hended ⊢
    exact (hkeeps.retained hb hidle hprog (.inl huser)).whole
      (hprograms.accounted hb hfits (.inl huser))
      (Nat.lt_of_le_of_lt (Nat.zero_le _) hpop.active) hlive
      fun p hp hlt => hended p hlt (Nat.ne_of_gt hp)

instance (s : Kernel) : Decidable s.StackEnough :=
  inferInstanceAs (Decidable (_ ∧ _))

instance (s : Kernel) : Decidable s.ForkEnough :=
  inferInstanceAs (Decidable (_ ∧ _ ∧ _))

instance (file : Executable) (args : List (List UInt8)) (pool : List Nat) :
    Decidable (file.MapsOnce args pool) :=
  inferInstanceAs (Decidable (∀ _ ∈ _, _))

instance (s : Kernel) (a : Label) : Decidable (KeepsFrames s a) :=
  decidable_of_iff (a.ofSystem = true ∧ a.faults = false ∧
      (a.forks = true → s.StackEnough → s.ForkEnough) ∧
      ∀ e ∈ a.execArgs, e.nonNull = true →
        e.file.MapsOnce e.args (s.freedPool s.activePCB))
    ⟨fun h => ⟨h.1, h.2.1, h.2.2.1, h.2.2.2⟩,
      fun h => ⟨h.system, h.noFault, h.fork, h.exec⟩⟩

instance (s : Kernel) (f : Nat) : Decidable (s.Found f) :=
  decidable_of_iff (f ∈ s.pfnList ∨
      ∃ p ∈ s.idlePCB :: s.activePCB :: (s.readyQ ++ s.blockedQ),
        f ∈ spaceFrames (s.pcb.userPageTable p) (s.pcb.kernelStackPt p))
    (by simp only [Found, CanRun, List.mem_cons, List.mem_append])

theorem smallProgram_mapsOnce (pool : List Nat) :
    smallProgram.MapsOnce [] pool := by
  intro li hli
  cases hli
  have hcomputed := layout_computed (greetedFile_words smallInfo rfl) []
  have hfits : smallInfo.Fits [] :=
    ⟨by decide, .inr (by decide), .inr (by decide),
      .inr (.inr (.inl (by decide))),
      .inr ⟨by unfold LoadInfo.DataEmpty; decide, by decide⟩⟩
  have honce := ((hcomputed.rangesApart hfits).safe pool).2
  exact honce.sublist (List.take_sublist _ _)

/-- The first program loads itself again, forks and exits, and so does its
child. -/
def endingLabels : List Label :=
  tick ++ [call (.exec ⟨true, smallProgram, []⟩), call (.fork 2),
    call (.exit 0), .resume, call (.exit 0), .resume]

theorem no_frame_is_lost_ending :
    let s := (Boot.small 13).kernelStart.run endingLabels
    (∀ f ∈ (Boot.small 13).pfnList, s.Found f) ∧
      (s.pfnList ++ ownedFrames (s.pcb.userPageTable s.idlePCB)).Perm
        (Boot.small 13).pfnList := by
  intro s
  have hall := no_frame_is_lost (Boot.small_wellFormed 13)
    (smallProgram_mapsOnce _) smallProgram_mapsOnce
  have hstart : ReachableFrom (Boot.small 13)
      (fun s a => KeepsFrames s a ∧ s.ExecFits a)
      (Boot.small 13).kernelStart := .start ⟨rfl, by decide +kernel⟩
  have hrun := hstart.run endingLabels (by decide +kernel)
  exact ⟨hall.1 s (hrun.mono fun _ _ h => h.1) (by decide +kernel),
    hall.2 (by decide +kernel) s hrun (by decide +kernel) (by decide +kernel)⟩

/-- The first program divides by zero. -/
theorem frames_lost_by_fault :
    ¬ ∀ (b : Boot) (s : Kernel), b.WellFormed →
      ReachableFrom b (fun _ a => a.ofSystem = true) s → s.mode = .user →
        ∀ f ∈ b.pfnList, s.Found f := by
  intro hall
  let labels := tick ++ [.trap ⟨0, 0⟩ .math, .resume]
  let s := (Boot.small 13).kernelStart.run labels
  have hstart : ReachableFrom (Boot.small 13) (fun _ a => a.ofSystem = true)
      (Boot.small 13).kernelStart := .start ⟨rfl, by decide +kernel⟩
  have hfound := hall (Boot.small 13) s (Boot.small_wellFormed 13)
    (hstart.run labels (by decide +kernel)) (by decide +kernel)
  have hlost : ¬ ∀ f ∈ (Boot.small 13).pfnList, s.Found f := by
    decide +kernel
  exact hlost hfound

end Yalnix
