import Yalnix.Memory.ImageWrites
import Yalnix.Process.ExitQueues
import Yalnix.Process.ProcessTree

/-!
# Exec loads the program or ends the process

A load that fails before its reads ends the caller through `KernelExit`.  A read
that fails gives `KILL`, which `KernelExec` takes for success: the process goes
on with its context cleared and half an image.  The bytes that are written after
the reads may lie where the kernel cannot write them.
-/

namespace Yalnix

open Kernel

/-! ## The result of a load -/

/-- The pool has frames for all segments of the layout. -/
def Layout.FramesIn (l : Layout) (pool : List Nat) : Prop :=
  l.frames ≤ pool.length ∧ 0 ∉ pool.take l.frames

theorem loopWrites_pool {first : Int} {count : Nat} {pool : List Nat} :
    ((loopWrites first count pool).2 = none ∧
        ¬ (count ≤ pool.length ∧ 0 ∉ pool.take count)) ∨
      (loopWrites first count pool).2 = some (pool.drop count) ∧
        count ≤ pool.length ∧ 0 ∉ pool.take count := by
  induction count generalizing first pool with
  | zero =>
      right
      refine ⟨rfl, Nat.zero_le _, ?_⟩
      simp
  | succ count ih =>
      rw [loopWrites]
      cases pool with
      | nil =>
          left
          refine ⟨rfl, ?_⟩
          simp
      | cons pfn pool =>
          rw [enough_cons]
          by_cases hzero : pfn = 0
          · left
            simp [allocatePFN, hzero]
          · simp only [allocatePFN, if_neg hzero, List.drop_succ_cons]
            rcases @ih (first + 1) pool with ⟨heq, hshort⟩ | ⟨heq, henough⟩
            · left
              exact ⟨heq, fun h => hshort h.2⟩
            · right
              exact ⟨heq, hzero, henough⟩

namespace Kernel

variable {s s' : Kernel} {p : PcbPtr}

/-- A segment that stays in the table gets its frames or there are too few. -/
theorem loadSegment_result {first : Int} {count : Nat} {ok : Bool}
    (h : s.loadSegment p first count = some (ok, s')) :
    (ok = false ∧ ¬ (count ≤ s.pfnList.length ∧ 0 ∉ s.pfnList.take count)) ∨
      ok = true ∧ s'.pfnList = s.pfnList.drop count ∧
        count ≤ s.pfnList.length ∧ 0 ∉ s.pfnList.take count := by
  rcases loadSegment_cases s p first count with
    ⟨heq, -⟩ | ⟨-, ⟨t, heq, hrest⟩ | ⟨t, heq, hrest⟩⟩
  · rw [heq] at h
    cases h
  · rw [heq] at h
    cases h
    rcases @loopWrites_pool first count s.pfnList with
      ⟨-, hshort⟩ | ⟨hpool, -⟩
    · exact .inl ⟨rfl, hshort⟩
    · rw [hrest] at hpool
      cases hpool
  · rw [heq] at h
    cases h
    rcases @loopWrites_pool first count s.pfnList with
      ⟨hpool, -⟩ | ⟨hpool, henough⟩
    · rw [hrest] at hpool
      cases hpool
    · rw [hrest] at hpool
      exact .inr ⟨rfl, Option.some.inj hpool, henough⟩

/-- The loops of a load that stays in the table, and the frames they need. -/
theorem buildImage_result {l : Layout} {ok : Bool}
    (h : s.buildImage l p = some (ok, s')) :
    ok = true ↔ l.FramesIn (s.freedPool p) := by
  have hpool : ((s.discardImage l p).setTextIndex p l.textPg1).pfnList =
      s.freedPool p := rfl
  have hframes : l.FramesIn (s.freedPool p) ↔
      ((l.textCount ≤ (s.freedPool p).length ∧
          0 ∉ (s.freedPool p).take l.textCount) ∧
        l.dataCount ≤ ((s.freedPool p).drop l.textCount).length ∧
          0 ∉ ((s.freedPool p).drop l.textCount).take l.dataCount) ∧
        l.stackCount ≤
            (((s.freedPool p).drop l.textCount).drop l.dataCount).length ∧
          0 ∉ (((s.freedPool p).drop l.textCount).drop
            l.dataCount).take l.stackCount := by
    unfold Layout.FramesIn Layout.frames
    rw [enough_add, enough_add, List.drop_drop]
  rw [hframes]
  unfold buildImage at h
  simp only at h
  split at h
  · cases h
  · rename_i htext
    cases h
    rcases loadSegment_result htext with ⟨-, hshort⟩ | ⟨hfalse, -⟩
    · exact iff_of_false Bool.false_ne_true fun h => hshort h.1.1
    · cases hfalse
  · rename_i s₁ htext
    rcases loadSegment_result htext with ⟨htrue, -⟩ | ⟨-, hrest₁, hfits₁⟩
    · cases htrue
    rw [hpool] at hrest₁ hfits₁
    have hpool₁ : (s₁.setDataIndex p l.dataPg1).pfnList =
        (s.freedPool p).drop l.textCount := hrest₁
    split at h
    · cases h
    · rename_i hdata
      cases h
      rcases loadSegment_result hdata with ⟨-, hshort⟩ | ⟨hfalse, -⟩
      · rw [hpool₁] at hshort
        exact iff_of_false Bool.false_ne_true fun h => hshort h.1.2
      · cases hfalse
    · rename_i s₂ hdata
      rcases loadSegment_result hdata with ⟨htrue, -⟩ | ⟨-, hrest₂, hfits₂⟩
      · cases htrue
      rw [hpool₁] at hrest₂ hfits₂
      have hpool₂ : ((s₂.setHeapIndex p l.heapIndex).setStackIndex p
          l.stackIndex).pfnList =
            ((s.freedPool p).drop l.textCount).drop l.dataCount := hrest₂
      rcases loadSegment_result h with ⟨rfl, hshort⟩ | ⟨rfl, -, hfits₃⟩
      · rw [hpool₂] at hshort
        exact iff_of_false Bool.false_ne_true fun h => hshort h.2
      · rw [hpool₂] at hfits₃
        exact iff_of_true rfl ⟨⟨hfits₁, hfits₂⟩, hfits₃⟩

/-- The code of a load that returns. -/
theorem loadImage_code {file : Executable} {li : LoadInfo} {l : Layout}
    {code : Int} (h : s.loadImage file li l p = some (code, s')) :
    (code = Rc.error ∧ ¬ l.FramesIn (s.freedPool p)) ∨
      l.FramesIn (s.freedPool p) ∧
        ((code = Rc.success ∧ file.textReads = true ∧
            file.dataReads = true) ∨
          code = Rc.kill ∧
            ¬ (file.textReads = true ∧ file.dataReads = true)) := by
  rw [loadImage_eq] at h
  split at h
  · cases h
  · rename_i hbuild
    cases h
    left
    exact ⟨rfl, fun hframes =>
      Bool.false_ne_true ((buildImage_result hbuild).2 hframes)⟩
  · rename_i s₁ hbuild
    right
    refine ⟨(buildImage_result hbuild).1 rfl, ?_⟩
    rcases readImage_cases h with ⟨hcode, -, hreads⟩ | ⟨hcode, hreads, -⟩
    · exact .inr ⟨hcode, hreads⟩
    · exact .inl ⟨hcode, hreads⟩

/-- A load that does not return leaves the table, or it has its frames and its
segments and cannot write the rest of the image. -/
theorem loadImage_faults_iff (file : Executable) (li : LoadInfo) (l : Layout) :
    s.loadImage file li l p = none ↔
      (∃ i ∈ mappedSubscripts l (s.freedPool p),
          ¬ (0 ≤ i ∧ i < userPtSize)) ∨
        l.FramesIn (s.freedPool p) ∧
          (file.textReads = true ∧ file.dataReads = true) ∧
            ¬ l.WritesInside := by
  rw [loadImage_none_iff, ← buildImage_none_iff]
  rcases hbuild : s.buildImage l p with _ | ⟨ok, s₁⟩
  · exact iff_of_true (.inl rfl) (.inl rfl)
  · apply or_congr Iff.rfl
    apply and_congr_left
    intro _
    rw [← buildImage_result hbuild]
    constructor
    · rintro ⟨s₂, hbuilt⟩
      cases hbuilt
      rfl
    · rintro rfl
      exact ⟨s₁, rfl⟩

/-! ## The result of the call -/

/-- The checks refuse the file, or the loader stays in the page table, and if
there are frames for all segments both reads succeed and the rest of the image
can be written. -/
def ExecSound (s : Kernel) (a : ExecArgs) : Prop :=
  a.nonNull = true → ∀ li, a.file.accepted a.args = some li →
    (∀ i ∈ mappedSubscripts (layout li a.args) (s.freedPool s.activePCB),
        0 ≤ i ∧ i < userPtSize) ∧
      ((layout li a.args).FramesIn (s.freedPool s.activePCB) →
        (a.file.textReads = true ∧ a.file.dataReads = true) ∧
          (layout li a.args).WritesInside)

/-- `LoadProgram` has completed with `SUCCESS` in `r`. -/
structure LoadCompleted (s : Kernel) (a : ExecArgs) (li : LoadInfo)
    (r : Kernel) : Prop where
  nonNull : a.nonNull = true
  accepted : a.file.accepted a.args = some li
  returns : (s.setUserContext s.activePCB ⟨0, 0⟩).loadProgram a.file a.args
    s.activePCB = some (Rc.success, r)
  context : r.pcb.userContext s.activePCB =
    ⟨(layout li a.args).sp, li.entry⟩

/-- What `KernelExec` returns, for sound and for other calls. -/
inductive ExecOutcome (s : Kernel) (a : ExecArgs) : Option (Int × Kernel) → Prop
  | refused {r : Kernel} : s.ExecSound a → ExecOutcome s a (some (Rc.error, r))
  | loaded {li : LoadInfo} {r : Kernel} : s.ExecSound a →
      s.LoadCompleted a li r → ExecOutcome s a (some (0, r))
  | faults : ¬ s.ExecSound a → ExecOutcome s a none
  | killed {r : Kernel} : ¬ s.ExecSound a → a.nonNull = true →
      (s.setUserContext s.activePCB ⟨0, 0⟩).loadProgram a.file a.args
        s.activePCB = some (Rc.kill, r) → ExecOutcome s a (some (0, r))

theorem execSound_accepted {a : ExecArgs} {li : LoadInfo}
    (hnull : a.nonNull = true) (haccepted : a.file.accepted a.args = some li) :
    s.ExecSound a ↔
      (∀ i ∈ mappedSubscripts (layout li a.args) (s.freedPool s.activePCB),
          0 ≤ i ∧ i < userPtSize) ∧
        ((layout li a.args).FramesIn (s.freedPool s.activePCB) →
          (a.file.textReads = true ∧ a.file.dataReads = true) ∧
            (layout li a.args).WritesInside) := by
  constructor
  · intro h
    exact h hnull li haccepted
  · intro h _ li' hli'
    rw [haccepted] at hli'
    cases hli'
    exact h

/-- The load of a file that the checks let through. -/
theorem kernelExec_accepted {a : ExecArgs} {li : LoadInfo}
    (hnull : a.nonNull = true) (haccepted : a.file.accepted a.args = some li)
    {result : Option (Int × Kernel)}
    (hload : (s.setUserContext s.activePCB ⟨0, 0⟩).loadImage a.file li
      (layout li a.args) s.activePCB = result) :
    (s.setUserContext s.activePCB ⟨0, 0⟩).loadProgram a.file a.args
        s.activePCB = result ∧
      s.kernelExec a = result.map fun r =>
        (if r.1 = Rc.error then Rc.error else 0, r.2) := by
  have hactive : (s.setUserContext s.activePCB ⟨0, 0⟩).activePCB =
    s.activePCB := rfl
  have hprogram : (s.setUserContext s.activePCB ⟨0, 0⟩).loadProgram a.file
      a.args s.activePCB = result := by
    rw [loadProgram_eq, haccepted]
    exact hload
  refine ⟨hprogram, ?_⟩
  unfold kernelExec
  simp only [hnull, hactive, hprogram, Bool.not_true, Bool.false_eq_true,
    if_false]
  rcases result with _ | ⟨code, r⟩
  · rfl
  · simp only [Option.map_some]
    split
    · rfl
    · rfl

theorem kernelExec_outcome (s : Kernel) (a : ExecArgs) :
    ExecOutcome s a (s.kernelExec a) := by
  cases hnull : a.nonNull with
  | false =>
      have hcall : s.kernelExec a = some (Rc.error, s) := by
        unfold kernelExec
        rw [hnull]
        rfl
      rw [hcall]
      apply ExecOutcome.refused
      intro htrue
      rw [hnull] at htrue
      cases htrue
  | true =>
      cases haccepted : a.file.accepted a.args with
      | none =>
          have hcall : s.kernelExec a = some (Rc.error,
              s.setUserContext s.activePCB ⟨0, 0⟩) := by
            unfold kernelExec
            simp only [hnull, loadProgram_eq, haccepted]
            rfl
          rw [hcall]
          apply ExecOutcome.refused
          intro _ li hli
          rw [haccepted] at hli
          cases hli
      | some li =>
          have hsound := @execSound_accepted s a li hnull haccepted
          have hnone := @loadImage_faults_iff
            (s.setUserContext s.activePCB ⟨0, 0⟩) s.activePCB a.file li
            (layout li a.args)
          rcases hload : (s.setUserContext s.activePCB ⟨0, 0⟩).loadImage a.file
            li (layout li a.args) s.activePCB with _ | ⟨code, r⟩
          · rw [(kernelExec_accepted hnull haccepted hload).2]
            apply ExecOutcome.faults
            rw [hsound]
            rintro ⟨hinside, hall⟩
            rcases hnone.1 hload with
              ⟨i, hi, hout⟩ | ⟨hframes, -, hwrites⟩
            · exact hout (hinside i hi)
            · exact hwrites (hall hframes).2
          · obtain ⟨hprogram, hcall⟩ :=
              kernelExec_accepted hnull haccepted hload
            rw [hcall]
            rw [hload] at hnone
            have hinside : ∀ i ∈ mappedSubscripts (layout li a.args)
                (s.freedPool s.activePCB), 0 ≤ i ∧ i < userPtSize := by
              intro i hi
              by_contra hout
              cases hnone.2 (.inl ⟨i, hi, hout⟩)
            rcases loadImage_code hload with
              ⟨rfl, hshort⟩ | ⟨hfits, ⟨rfl, hreads⟩ | ⟨rfl, hreads⟩⟩
            · apply ExecOutcome.refused
              rw [hsound]
              exact ⟨hinside, fun h => absurd h hshort⟩
            · apply ExecOutcome.loaded
              · rw [hsound]
                refine ⟨hinside, fun hframes => ⟨hreads, ?_⟩⟩
                by_contra hwrites
                cases hnone.2 (.inr ⟨hframes, hreads, hwrites⟩)
              · refine ⟨hnull, haccepted, hprogram, ?_⟩
                rw [loadImage_userContext hload, if_pos]
                exact ⟨by decide, hreads⟩
            · apply ExecOutcome.killed
              · rw [hsound]
                rintro ⟨-, hall⟩
                exact hreads (hall hfits).1
              · exact hnull
              · exact hprogram

/-! ## The end of a process -/

/-- The active process of `s` has ended in `r` with a status, and its parent has
been woken from `Wait` with that status or will find it in `defunct_q`. -/
structure Ended (s : Kernel) (status : Int) (r : Kernel) : Prop where
  terminated : r.history.terminated s.activePCB = true
  exitCode : r.pcb.exitCode s.activePCB = status
  told : ∀ q < s.npcb, q ≠ s.idlePCB → s.history.terminated q = false →
    s.IsParent q →
      (q ∈ s.blockedQ ∧ s.AwaitsExit q ∧ r.pcb.blockedCode q = status ∧
          (q = r.activePCB ∨ q ∈ r.readyQ)) ∨
        s.activePCB ∈ r.defunctQ

theorem Ended.of_core {status : Int} {r r' : Kernel} (h : s.Ended status r)
    (hcore : r'.core = r.core) : s.Ended status r' := by
  have hactive : r'.activePCB = r.activePCB := (congrArg Kernel.activePCB hcore :)
  have hready : r'.readyQ = r.readyQ := (congrArg Kernel.readyQ hcore :)
  have hdefunct : r'.defunctQ = r.defunctQ := (congrArg Kernel.defunctQ hcore :)
  have hcode : r'.pcb.exitCode = r.pcb.exitCode :=
    (congrArg (fun k : Kernel => k.pcb.exitCode) hcore :)
  have hblocked : r'.pcb.blockedCode = r.pcb.blockedCode :=
    (congrArg (fun k : Kernel => k.pcb.blockedCode) hcore :)
  constructor
  · rw [terminated_of_core hcore]
    exact h.terminated
  · rw [hcode]
    exact h.exitCode
  · rw [hactive, hready, hdefunct, hblocked]
    exact h.told

end Kernel

end Yalnix
