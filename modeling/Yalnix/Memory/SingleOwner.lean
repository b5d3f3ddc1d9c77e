import Yalnix.Memory.BootFrames

/-!
# No frame has two owners

As long as every program that is loaded fits into the frames that its process
gives back, no step makes a frame.  A load that runs out of frames calls
`free_addr_space`, and the `KernelExit` that follows calls it again.
-/

namespace Yalnix

open Kernel Ledger

/-- The arguments of an `Exec` call. -/
def Label.execArgs : Label → Option ExecArgs
  | .trap _ (.kernel (.exec args)) => some args
  | _ => none

namespace Kernel

/-- An `Exec` that passes the checks finds frames for all segments. -/
def ExecFits (s : Kernel) (a : Label) : Prop :=
  ∀ e ∈ a.execArgs, e.nonNull = true → ∀ li ∈ e.file.accepted e.args,
    (layout li e.args).frames ≤ (s.freedPool s.activePCB).length

instance (s : Kernel) (a : Label) : Decidable (s.ExecFits a) :=
  inferInstanceAs (Decidable (∀ _ ∈ _, _))

/-- A frame of the pool has at most one owner, and the pool has no frame of
Region 0. -/
structure SingleOwner (s : Kernel) (initial : List Nat) : Prop where
  once : ∀ f ∈ initial, s.frames.count f ≤ 1
  above : ∀ f ∈ s.pfnList, vmem1BasePage ≤ f

end Kernel

/-- Calls, faults and clock traps whose programs fit. -/
structure ProgramsFit (s : Kernel) (a : Label) : Prop where
  system : a.ofSystem = true
  exec : s.ExecFits a

namespace Kernel

variable {s s' s₁ r : Kernel} {a : Label} {p : PcbPtr}

/-! ## One step -/

/-- The frames that a load finds are frames of its process or of the pool. -/
theorem mem_freedPool {f : Nat} (h : f ∈ s.freedPool p) : f ∈ s.holding p := by
  have hperm := (discardRegion1_discarded (s.pcb.userPageTable p)
    s.pfnList).frames
  exact hperm.subset (List.mem_append_right _ h)

theorem FrameEffect.kernelStackPt (h : s.FrameEffect a s') (hp : p < s.npcb) :
    s'.pcb.kernelStackPt p = s.pcb.kernelStackPt p := by
  cases h with
  | moves _ htable => exact congrFun htable.kernelStackPt p
  | loads hexec _ hsame =>
      have hkept := (kernelExec_rewritten hexec).kernelStackPt
      exact (congrFun hsame.kernelStackPt p).trans (congrFun hkept p)
  | execFails hexec hfreed =>
      have hkept := (kernelExec_rewritten hexec).kernelStackPt
      exact (congrFun hfreed.kernelStackPt p).trans (congrFun hkept p)
  | ends _ _ hfreed => exact congrFun hfreed.kernelStackPt p
  | forks hmade => exact hmade.kernelStackPt p (Nat.ne_of_lt hp)

/-- A load that finds frames does not fail. -/
theorem loadImage_fits {file : Executable} {li : LoadInfo} {l : Layout}
    {code : Int} (hzero : 0 ∉ s.freedPool p)
    (hfits : l.frames ≤ (s.freedPool p).length)
    (h : s.loadImage file li l p = some (code, s')) : code ≠ Rc.error := by
  rcases loadImage_code h with ⟨-, hshort⟩ | ⟨-, ⟨rfl, -⟩ | ⟨rfl, -⟩⟩
  · exact absurd ⟨hfits, fun hmem => hzero (List.mem_of_mem_take hmem)⟩ hshort
  · decide
  · decide

/-- The hardware saves the user context and nothing else. -/
theorem entered_frames (a : Label) : (s.entered a).frames = s.frames ∧
    (s.entered a).activePCB = s.activePCB ∧ (s.entered a).npcb = s.npcb ∧
    (s.entered a).history = s.history ∧
    (s.entered a).freedPool s.activePCB = s.freedPool s.activePCB ∧
    (s.entered a).pcb.kernelStackPt = s.pcb.kernelStackPt := by
  cases a with
  | trap ctx t => exact ⟨rfl, rfl, rfl, rfl, rfl, rfl⟩
  | resume => exact ⟨rfl, rfl, rfl, rfl, rfl, rfl⟩

theorem setUserContext_holding (q : PcbPtr) (ctx : UserContext) :
    (s.setUserContext q ctx).holding p = s.holding p := rfl

theorem setUserContext_freedPool (q : PcbPtr) (ctx : UserContext) :
    (s.setUserContext q ctx).freedPool p = s.freedPool p := rfl

theorem loads_noneMade {args : ExecArgs} {code : Int}
    (hexec : s.kernelExec args = some (code, s₁)) (hcode : code ≠ Rc.error) :
    NoneMade (s.holding s.activePCB) (s₁.holding s.activePCB) := by
  cases kernelExec_case hexec with
  | refused => exact absurd rfl hcode
  | loads _ _ hload hiff =>
      have hmade := loadImage_noneMade (mt hiff.2 hcode) hload
      rw [setUserContext_holding] at hmade
      exact hmade

/-- An `Exec` that fits is only refused by the checks. -/
theorem execFails_same {ctx : UserContext} {args : ExecArgs}
    (hexec : s.kernelExec args = some (Rc.error, s₁))
    (hfits : s.ExecFits (.trap ctx (.kernel (.exec args))))
    (hzero : 0 ∉ s.freedPool s.activePCB) :
    SameTables s s₁ ∧ s₁.pfnList = s.pfnList := by
  cases kernelExec_case hexec with
  | refused hsame hpool => exact ⟨hsame, hpool⟩
  | loads hnull haccepted hload hiff =>
      have hframes := hfits args rfl hnull _ haccepted
      rw [← setUserContext_freedPool s.activePCB ⟨0, 0⟩] at hzero hframes
      exact absurd (hiff.1 rfl) (loadImage_fits hzero hframes hload)

/-- The step lemma: only the active process and the pool exchange frames, and
together they get none. -/
theorem FrameEffect.noneMade (h : s.FrameEffect a s') (heffect : Effect s a r)
    (hcore : s'.core = r.core) (hactive : s.activePCB < s.npcb)
    (hlive : s.history.terminated s.activePCB = false)
    (hfits : s.ExecFits a) (hzero : 0 ∉ s.freedPool s.activePCB) :
    NoneMade s.frames s'.frames := by
  have hthen := terminated_of_core hcore
  have hothers (q : PcbPtr) (hq : q ≠ s.activePCB) :
      s'.history.terminated q = s.history.terminated q := by
    rw [hthen]
    exact heffect.terminated_other hq
  have hexchange (htable : s.OneTable s.activePCB s')
      (hstake : NoneMade (s.stock s.activePCB)
        (s'.share s.activePCB ++ s'.pfnList)) : NoneMade s.frames s'.frames := by
    rw [← share_live hlive] at hstake
    exact htable.frames_atMost hactive hothers hstake
  cases h with
  | moves _ htable hmoved =>
      exact hexchange htable (share_atMost_stock.trans (stock_conserved
        (congrFun htable.kernelStackPt _) hmoved).noneMade)
  | loads hexec hcode hsame hpool =>
      have hloaded := oneTable_of_rewritten (kernelExec_rewritten hexec)
      have hmade := stock_atMost (congrFun hloaded.kernelStackPt _).symm
        (loads_noneMade hexec hcode)
      refine hexchange ⟨hsame.npcb.trans hloaded.npcb, fun q hq =>
        (congrFun hsame.userPageTable q).trans (hloaded.userPageTable q hq),
        hsame.kernelStackPt.trans hloaded.kernelStackPt⟩ ?_
      refine share_atMost_stock.trans ?_
      rw [hsame.stock hpool]
      exact hmade
  | execFails hexec hfreed =>
      obtain ⟨hsame, hpool⟩ := execFails_same hexec hfits hzero
      refine hexchange (hsame.trans hfreed.toSameTables).oneTable ?_
      rw [← hsame.stock hpool]
      exact hfreed.noneMade
  | ends _ _ hfreed =>
      exact hexchange hfreed.toSameTables.oneTable hfreed.noneMade
  | forks hmade =>
      refine hmade.frames_noneMade fun q _ => ?_
      rcases heffect.terminated_cases with hsame | ⟨-, hends | hfaults⟩
      · rw [hthen, hsame]
      · exact absurd rfl hends
      · cases hfaults

end Kernel

/-! ## Runs -/

/-- The frames come from the initial pool and the boot stack, which idle
keeps. -/
structure Accounted (b : Boot) (s : Kernel) : Prop where
  frames : NoneMade (b.pfnList ++ bootStack) s.frames
  stack : framesOf (s.pcb.kernelStackPt 0) (List.range kernelStackSize) =
    bootStack

namespace Accounted

variable {b : Boot} {s : Kernel}

theorem zero_not_free {p : PcbPtr} (h : Accounted b s) (hp : p < s.npcb)
    (hlive : s.history.terminated p = false) : 0 ∉ s.freedPool p := by
  intro hmem
  have hheld : 0 ∈ s.stock p :=
    stock_perm.symm.subset (List.mem_append_right _ (mem_freedPool hmem))
  rw [← share_live hlive] at hheld
  have hpart : AtMost (fun _ => True) (s.share p ++ s.pfnList) s.frames :=
    .stake List.nodup_range (List.mem_range.2 hp)
  have hpos := List.count_pos_iff.2 hheld
  have hmany := (hpart.trans h.frames) 0 trivial
  have hinitial : 0 ∈ b.pfnList ++ bootStack :=
    List.count_pos_iff.1 (Nat.lt_of_lt_of_le hpos hmany)
  rcases List.mem_append.1 hinitial with hpool | hstack
  · exact absurd (Boot.mem_pfnList hpool) (by decide)
  · exact absurd hstack (by decide)

/-- No frame occurs twice. -/
theorem once (h : Accounted b s) (f : Nat) : s.frames.count f ≤ 1 := by
  have honce : (b.pfnList ++ bootStack).Nodup := by
    rw [List.nodup_append]
    refine ⟨?_, by decide, ?_⟩
    · exact List.nodup_range.map fun _ _ heq => Nat.add_left_cancel heq
    · rintro f hpool _ hstack rfl
      have hge := Boot.mem_pfnList hpool
      obtain ⟨i, hi, rfl⟩ := List.mem_map.1 hstack
      have hi' := List.mem_range.1 hi
      unfold vmem1BasePage kernelStackBase at *
      unfold kernelStackSize at hi'
      omega
  exact Nat.le_trans (h.frames f trivial)
    (List.nodup_iff_count_le_one.1 honce f)

theorem singleOwner (h : Accounted b s) (hidle : 0 < s.npcb)
    (hlive : s.history.terminated 0 = false) : s.SingleOwner b.pfnList := by
  refine ⟨fun f _ => h.once f, fun f hf => ?_⟩
  have hpart : AtMost (fun _ => True) (s.share 0 ++ s.pfnList) s.frames :=
    .stake List.nodup_range (List.mem_range.2 hidle)
  have hfree := hpart f trivial
  rw [List.count_append] at hfree
  have hpos := List.count_pos_iff.2 hf
  have hmany := h.frames f trivial
  have hinitial : f ∈ b.pfnList ++ bootStack :=
    List.count_pos_iff.1 (by omega)
  rcases List.mem_append.1 hinitial with hpool | hstack
  · exact Boot.mem_pfnList hpool
  · -- idle has the frames of the boot stack, so the pool has not
    have hmem : f ∈ s.share 0 := by
      unfold share spaceFrames
      rw [hlive, h.stack]
      exact List.mem_append_right _ hstack
    have hshare := List.count_pos_iff.2 hmem
    have hone := h.once f
    omega

end Accounted

theorem ProgramsFit.entered {s : Kernel} {a : Label} (h : ProgramsFit s a) :
    (s.entered a).ExecFits a := by
  obtain ⟨-, hactive, -, -, hfreed, -⟩ := entered_frames (s := s) a
  unfold ExecFits
  rw [hactive, hfreed]
  exact h.exec

theorem ReachableFrom.accounted {b : Boot} {s : Kernel} (hb : b.WellFormed)
    (hidle : b.idleFile.frames b.idleArgs ≤ b.pfnList.length)
    (h : ReachableFrom b ProgramsFit s) (hlive : s.Live) : Accounted b s := by
  revert hlive
  refine h.invariant (P := fun s => s.Live → Accounted b s) ?_ ?_
  · rintro s ⟨rfl, hmode⟩ _
    exact ⟨Boot.kernelStart_noneMade hb hmode hidle,
      Boot.kernelStart_stack hb hmode⟩
  · intro s a s' hreach ih hmeets hstep hlive
    cases hstep with
    | take henabled =>
        have hs := ih henabled.live
        have hfrom := ReachableFrom.reachable hb hreach
        have hquiet := hfrom.quiescent henabled.live
        obtain ⟨hpop, hsettled, -⟩ :=
          hfrom.system (fun _ _ h => h.system) henabled.live
        obtain ⟨r, heffect, hcore⟩ :=
          take_hasEffect hquiet.sync hquiet.zero_used henabled hlive
        have hframe := take_frameEffect hquiet.zero_used henabled hlive
        obtain ⟨hframes, hactive, hnpcb, hhistory, hfreed, hstack⟩ :=
          entered_frames (s := s) a
        have hmade := hframe.noneMade heffect hcore
          (by rw [hactive, hnpcb]; exact hpop.active)
          (by rw [hactive, hhistory]; exact hsettled.live) hmeets.entered
          (by rw [hactive, hfreed]; exact hs.zero_not_free hpop.active
                hsettled.live)
        have hkept := hframe.kernelStackPt (p := 0) (by
          rw [hnpcb]
          exact Nat.lt_of_le_of_lt (Nat.zero_le _) hpop.active)
        rw [hframes] at hmade
        rw [hstack] at hkept
        exact ⟨hmade.trans hs.frames, by rw [hkept]; exact hs.stack⟩

/--
In every run whose programs fit, at every return to user mode, no frame of the
initial pool has two owners and the pool has no frame of Region 0.
-/
theorem no_frame_has_two_owners {b : Boot} (hb : b.WellFormed)
    (hidle : b.idleFile.frames b.idleArgs ≤ b.pfnList.length) {s : Kernel}
    (h : ReachableFrom b ProgramsFit s) (huser : s.mode = .user) :
    s.SingleOwner b.pfnList := by
  have haccounted := ReachableFrom.accounted hb hidle h (.inl huser)
  obtain ⟨hpop, hsettled, -⟩ := (ReachableFrom.reachable hb h).system
    (fun _ _ h => h.system) (.inl huser)
  have hlive := hsettled.idle
  rw [hpop.idle] at hlive
  exact haccounted.singleOwner
    (Nat.lt_of_le_of_lt (Nat.zero_le _) hpop.active) hlive

instance (s : Kernel) (a : Label) : Decidable (ProgramsFit s a) :=
  decidable_of_iff (a.ofSystem = true ∧ s.ExecFits a)
    ⟨fun h => ⟨h.1, h.2⟩, fun h => ⟨h.system, h.exec⟩⟩

/-- The first program loads itself again, forks and exits, and its child is
killed by a fault. -/
def reloadingLabels : List Label :=
  tick ++ [call (.exec ⟨true, smallProgram, []⟩), call (.fork 2),
    call (.exit 0), .resume, .trap ⟨0, 0⟩ .math, .resume]

theorem no_frame_has_two_owners_reloading :
    ((Boot.small 13).kernelStart.run reloadingLabels).SingleOwner
      (Boot.small 13).pfnList := by
  have hstart : ReachableFrom (Boot.small 13) ProgramsFit
      (Boot.small 13).kernelStart := .start ⟨rfl, by decide +kernel⟩
  exact no_frame_has_two_owners (Boot.small_wellFormed 13) (by decide +kernel)
    (hstart.run reloadingLabels (by decide +kernel)) (by decide +kernel)

/-- A program with one page more than `smallProgram`. -/
def biggerProgram : Executable :=
  { smallProgram with
    info := some ⟨vmem1Base, vmem1Base, 1, vmem1Base + pageSize, 2, 0,
      vmem1Base + 3 * pageSize, vmem1Base + 3 * pageSize⟩ }

/-- The program is loaded when no frame is left but those of its process. -/
theorem frames_freed_twice :
    ¬ ∀ (b : Boot) (s : Kernel), b.WellFormed →
      ReachableFrom b (fun _ a => a.ofSystem = true) s → s.mode = .user →
        s.SingleOwner b.pfnList := by
  intro hall
  let labels := tick ++ [call (.exec ⟨true, biggerProgram, []⟩), .resume]
  let s := (Boot.small 8).kernelStart.run labels
  have hstart : ReachableFrom (Boot.small 8) (fun _ a => a.ofSystem = true)
      (Boot.small 8).kernelStart := .start ⟨rfl, by decide +kernel⟩
  have hsingle := hall (Boot.small 8) s (Boot.small_wellFormed 8)
    (hstart.run labels (by decide +kernel)) (by decide +kernel)
  have htwice : s.frames.count 133 = 2 := by decide +kernel
  have honce := hsingle.once 133 (by decide +kernel)
  omega

end Yalnix
