import Yalnix.Memory.UserSpace

/-!
# The space of a loaded program

After `LoadProgram` exactly the pages of the three segments are mapped.
-/

namespace Yalnix

namespace Kernel

variable {s s' : Kernel} {p : PcbPtr}

theorem loadSegment_space {first : Int} {count : Nat}
    (h : s.loadSegment p first count = some (true, s')) :
    (s'.space p).heapIndex = (s.space p).heapIndex ∧
      (s'.space p).stackIndex = (s.space p).stackIndex ∧
      ∀ i, ((s'.space p).table i).valid = true ↔
        ((s.space p).table i).valid = true ∨
          first ≤ i ∧ (i : Int) < first + count := by
  unfold loadSegment at h
  split at h
  · cases h
  · rename_i table pool hmap
    cases h
    rw [written_space]
    exact ⟨rfl, rfl, mapPages_valid hmap⟩
  · cases h

theorem discardImage_space (l : Layout) :
    ∀ i < userPtSize, (((s.discardImage l p).space p).table i).valid =
      false := by
  intro i hi
  have htable : ((s.discardImage l p).space p).table =
      (discardRegion1 (List.range userPtSize) (s.pcb.userPageTable p)
        s.pfnList).1 := upd_same _ _ _
  rw [htable, discardRegion1_valid]
  simp [hi]

theorem readImage_space {file : Executable} {li : LoadInfo} {l : Layout}
    {code : Int} (h : s.readImage file li l p = some (code, s')) :
    (s'.space p).heapIndex = (s.space p).heapIndex ∧
      (s'.space p).stackIndex = (s.space p).stackIndex ∧
      ∀ i, ((s'.space p).table i).valid = ((s.space p).table i).valid := by
  rcases readImage_cases h with ⟨-, rfl, -⟩ | ⟨-, -, rfl⟩
  · exact ⟨rfl, rfl, fun _ => rfl⟩
  · refine ⟨rfl, rfl, fun i => ?_⟩
    have htable : upd s.pcb.userPageTable p (protectText l.textPg1
        l.textCount (s.pcb.userPageTable p)) p =
        protectText l.textPg1 l.textCount (s.pcb.userPageTable p) :=
      upd_same _ _ _
    have hvalid : (protectText l.textPg1 l.textCount
        (s.pcb.userPageTable p) i).valid =
          (s.pcb.userPageTable p i).valid := protectText_valid i
    exact (congrArg (fun t : Nat → Pte => (t i).valid) htable).trans hvalid

end Kernel

/-- The page lies in one of the three segments. -/
def Layout.Maps (l : Layout) (i : Nat) : Prop :=
  (l.textPg1 ≤ i ∧ (i : Int) < l.textPg1 + l.textCount) ∨
    (l.dataPg1 ≤ i ∧ (i : Int) < l.dataPg1 + l.dataCount) ∨
    l.stackIndex ≤ i ∧ (i : Int) < l.stackIndex + l.stackCount

/-- The space that `LoadProgram` builds for a layout. -/
structure Space.Built (x : Space) (l : Layout) : Prop where
  heapIndex : x.heapIndex = l.heapIndex
  stackIndex : x.stackIndex = l.stackIndex
  valid : ∀ i < userPtSize, (x.table i).valid = true ↔ l.Maps i

namespace Kernel

variable {s s' : Kernel} {p : PcbPtr}

theorem buildImage_space {l : Layout}
    (h : s.buildImage l p = some (true, s')) : (s'.space p).Built l := by
  unfold buildImage at h
  simp only at h
  split at h
  · cases h
  · cases h
  · rename_i s₁ htext
    obtain ⟨-, -, hvalid₁⟩ := loadSegment_space htext
    split at h
    · cases h
    · cases h
    · rename_i s₂ hdata
      obtain ⟨-, -, hvalid₂⟩ := loadSegment_space hdata
      obtain ⟨hheap, hstack, hvalid₃⟩ := loadSegment_space h
      have hheap₀ : (((s₂.setHeapIndex p l.heapIndex).setStackIndex p
          l.stackIndex).space p).heapIndex = l.heapIndex := upd_same _ _ _
      have hstack₀ : (((s₂.setHeapIndex p l.heapIndex).setStackIndex p
          l.stackIndex).space p).stackIndex = l.stackIndex := upd_same _ _ _
      refine ⟨hheap.trans hheap₀, hstack.trans hstack₀, fun i hi => ?_⟩
      have hold : (((s.discardImage l p).space p).table i).valid = false :=
        discardImage_space l i hi
      have h₁ : ((s₁.space p).table i).valid = true ↔
          (((s.discardImage l p).space p).table i).valid = true ∨
            l.textPg1 ≤ i ∧ (i : Int) < l.textPg1 + l.textCount := hvalid₁ i
      have h₂ : ((s₂.space p).table i).valid = true ↔
          ((s₁.space p).table i).valid = true ∨
            l.dataPg1 ≤ i ∧ (i : Int) < l.dataPg1 + l.dataCount := hvalid₂ i
      have h₃ : ((s'.space p).table i).valid = true ↔
          ((s₂.space p).table i).valid = true ∨
            l.stackIndex ≤ i ∧ (i : Int) < l.stackIndex + l.stackCount :=
        hvalid₃ i
      unfold Layout.Maps
      rw [h₃, h₂, h₁, hold]
      simp only [Bool.false_eq_true, false_or, or_assoc]

/-- Everything that `LoadProgram` reports as loaded has the space of its
layout. -/
theorem loadProgram_space {file : Executable} {args : List (List UInt8)}
    {code : Int} (hcode : code ≠ Rc.error)
    (h : s.loadProgram file args p = some (code, s')) :
    ∃ li, file.accepted args = some li ∧
      (s'.space p).Built (layout li args) := by
  rw [loadProgram_eq] at h
  cases haccepted : file.accepted args with
  | none =>
      rw [haccepted] at h
      cases h
      exact absurd rfl hcode
  | some li =>
      rw [haccepted] at h
      simp only [loadImage_eq] at h
      split at h
      · cases h
      · cases h
        exact absurd rfl hcode
      · rename_i s₁ hbuild
        have hbuilt := buildImage_space hbuild
        obtain ⟨hheap, hstack, hvalid⟩ := readImage_space h
        refine ⟨li, rfl, hheap.trans hbuilt.heapIndex,
          hstack.trans hbuilt.stackIndex, fun i hi => ?_⟩
        rw [hvalid i]
        exact hbuilt.valid i hi

/-- Process `p` has the space that some `LoadProgram` has just built. -/
def Loaded (s : Kernel) (p : PcbPtr) (l : Layout) : Prop :=
  ∃ file args li code, ∃ s₀ s₁ : Kernel,
    s₀.loadProgram file args p = some (code, s₁) ∧ code ≠ Rc.error ∧
      file.accepted args = some li ∧ layout li args = l ∧
      s.space p = s₁.space p

theorem Loaded.built {l : Layout} (h : s.Loaded p l) : (s.space p).Built l := by
  obtain ⟨file, args, li, code, s₀, s₁, hload, hcode, haccepted, rfl, hspace⟩ :=
    h
  obtain ⟨li', haccepted', hbuilt⟩ := loadProgram_space hcode hload
  rw [haccepted] at haccepted'
  cases haccepted'
  rw [hspace]
  exact hbuilt

theorem Loaded.congr {l : Layout} (h : s.Loaded p l)
    (hspace : s'.space p = s.space p) : s'.Loaded p l := by
  obtain ⟨file, args, li, code, s₀, s₁, hload, hcode, haccepted, hl, hsame⟩ := h
  exact ⟨file, args, li, code, s₀, s₁, hload, hcode, haccepted, hl,
    hspace.trans hsame⟩

theorem loadProgram_loaded {file : Executable} {args : List (List UInt8)}
    {code : Int} (hcode : code ≠ Rc.error)
    (h : s.loadProgram file args p = some (code, s')) :
    ∃ l, s'.Loaded p l := by
  obtain ⟨li, haccepted, -⟩ := loadProgram_space hcode h
  exact ⟨_, file, args, li, code, s, s', h, hcode, haccepted, rfl, rfl⟩

theorem kcCopy_space (child q : PcbPtr) (k : KernelContext) :
    (s.kcCopy child k).space q = s.space q := by
  unfold kcCopy
  split
  · rfl
  · rfl

end Kernel

/-- The first program has been loaded when the boot ends. -/
theorem Boot.kernelStart_loaded {b : Boot}
    (hmode : b.kernelStart.mode = .user) : ∃ l, b.kernelStart.Loaded 1 l := by
  obtain ⟨st, heq⟩ := Boot.stages hmode
  obtain ⟨l, hloaded⟩ := Kernel.loadProgram_loaded st.loaded st.loadProg
  refine ⟨l, hloaded.congr ?_⟩
  rw [heq]
  unfold startProg
  rw [Kernel.kcCopy_space]
  rfl

end Yalnix
