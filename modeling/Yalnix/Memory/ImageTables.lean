import Yalnix.Memory.Frames
import Yalnix.Memory.LoadedSpace

/-!
# The page table of an image

What the three allocation loops of `LoadProgram` do to a page table and the
pool, entry by entry: inside its range a loop maps every page, outside it keeps
the entries, and on free pages it takes one frame from the pool for each.
-/

namespace Yalnix

open Ledger

/-- The pages of a loop over `count` pages from `first` on. -/
def InRange (first : Int) (count : Nat) (i : Nat) : Prop :=
  first ≤ i ∧ (i : Int) < first + count

/-- What an allocation loop that runs to its end has done. -/
structure SegmentMapped (first : Int) (count : Nat) (table table' : Nat → Pte)
    (pool pool' : List Nat) : Prop where
  inside : 0 < count → 0 ≤ first ∧ first + count ≤ userPtSize
  new : ∀ i, InRange first count i →
    (table' i).valid = true ∧ (table' i).prot = Prot.noXWR
  outside : ∀ i, ¬ InRange first count i → table' i = table i
  frames : (∀ i, InRange first count i → (table i).valid = false) →
    (ownedFrames table' ++ pool').Perm (ownedFrames table ++ pool)

theorem SegmentMapped.inTable {first : Int} {count i : Nat} {table table' : Nat → Pte}
    {pool pool' : List Nat} (h : SegmentMapped first count table table' pool pool')
    (hi : InRange first count i) : i < userPtSize := by
  obtain ⟨hge, hlt⟩ := hi
  have hin := h.inside (by omega)
  omega

theorem mapPages_segmentMapped {first : Int} {count : Nat} {table table' : Nat → Pte}
    {pool pool' : List Nat}
    (h : mapPages first count table pool = .done table' pool') :
    SegmentMapped first count table table' pool pool' := by
  induction count generalizing first table pool with
  | zero =>
      cases h
      constructor
      · intro hpos
        omega
      · rintro i ⟨hge, hlt⟩
        omega
      · intro i _
        rfl
      · intro _
        exact List.Perm.refl _
  | succ count ih =>
      rw [mapPages] at h
      split at h
      · cases h
      · rename_i hinside
        simp only at h
        rcases halloc : allocatePFN pool with ⟨_ | pfn, rest⟩
        · simp only [halloc] at h
          cases h
        · simp only [halloc] at h
          obtain ⟨rfl, -⟩ := allocatePFN_eq_some halloc
          have hrest := ih h
          have hsplit (i : Nat) : InRange first (count + 1) i ↔
              i = first.toNat ∨ InRange (first + 1) count i := by
            unfold InRange
            omega
          have hfirst : ¬ InRange (first + 1) count first.toNat := by
            unfold InRange
            omega
          constructor
          · intro _
            cases count with
            | zero => omega
            | succ count =>
                have hin := hrest.inside (Nat.succ_pos _)
                omega
          · intro i hi
            rcases (hsplit i).1 hi with rfl | hi
            · rw [hrest.outside _ hfirst, upd_same]
              exact ⟨rfl, rfl⟩
            · exact hrest.new i hi
          · intro i hi
            rw [hsplit, not_or] at hi
            rw [hrest.outside i hi.2]
            exact upd_other hi.1 _ _
          · intro hfree
            have hmap : (ownedFrames (upd table first.toNat
                ⟨true, Prot.noXWR, pfn⟩)).Perm (pfn :: ownedFrames table) := by
              apply ownedFrames_map
              · omega
              · exact hfree _ ((hsplit _).2 (.inl rfl))
            have htail := hrest.frames fun i hi => by
              have hne : i ≠ first.toNat := by
                rintro rfl
                exact hfirst hi
              rw [upd_other hne]
              exact hfree i ((hsplit i).2 (.inr hi))
            exact htail.trans ((hmap.append_right rest).trans
              List.perm_middle.symm)

/-! ## The image -/

/-- What the loop that throws Region 1 away has done. -/
structure Discarded (table table' : Nat → Pte) (pool pool' : List Nat) :
    Prop where
  invalid : ∀ i < userPtSize, (table' i).valid = false
  frames : (ownedFrames table' ++ pool').Perm (ownedFrames table ++ pool)

theorem discardRegion1_owned {pages : List Nat} {table : Nat → Pte}
    {pool : List Nat} (hin : ∀ i ∈ pages, i < userPtSize) :
    (ownedFrames (discardRegion1 pages table pool).1 ++
      (discardRegion1 pages table pool).2).Perm (ownedFrames table ++ pool) := by
  induction pages generalizing table pool with
  | nil => exact List.Perm.refl _
  | cons i pages ih =>
      have hi := hin i List.mem_cons_self
      have hpages : ∀ j ∈ pages, j < userPtSize :=
        fun j hj => hin j (List.mem_cons_of_mem _ hj)
      rw [discardRegion1]
      split
      · rename_i hvalid
        have hunmap : ((table i).pfn :: ownedFrames (upd table i
            ⟨false, (table i).prot, 0⟩)).Perm (ownedFrames table) :=
          ownedFrames_unmap hi hvalid rfl
        exact (ih hpages).trans
          (List.perm_middle.trans (hunmap.append_right pool))
      · exact ih hpages

theorem discardRegion1_discarded (table : Nat → Pte) (pool : List Nat) :
    Discarded table (discardRegion1 (List.range userPtSize) table pool).1 pool
      (discardRegion1 (List.range userPtSize) table pool).2 := by
  constructor
  · intro i hi
    rw [discardRegion1_valid]
    simp [hi]
  · apply discardRegion1_owned
    intro i hi
    exact List.mem_range.1 hi

/-- The tables and pools between the four loops of a load. -/
structure Image (l : Layout) (table table' : Nat → Pte)
    (pool pool' : List Nat) : Prop where
  loops : ∃ t₀ t₁ t₂ q₀ q₁ q₂, Discarded table t₀ pool q₀ ∧
    SegmentMapped l.textPg1 l.textCount t₀ t₁ q₀ q₁ ∧
    SegmentMapped l.dataPg1 l.dataCount t₁ t₂ q₁ q₂ ∧
    SegmentMapped l.stackIndex l.stackCount t₂ table' q₂ pool'

namespace Kernel

variable {s s' : Kernel} {p : PcbPtr}

/-- A segment loop writes the table and the pool only. -/
theorem loadSegment_mapped {first : Int} {count : Nat}
    (h : s.loadSegment p first count = some (true, s')) :
    SegmentMapped first count (s.space p).table (s'.space p).table s.pfnList
        s'.pfnList ∧
      s'.space p = { s.space p with table := (s'.space p).table } := by
  unfold loadSegment at h
  split at h
  · cases h
  · rename_i table pool hmap
    cases h
    rw [written_space]
    exact ⟨mapPages_segmentMapped hmap, rfl⟩
  · cases h

/-- The space and the pool when the text loop starts. -/
theorem discardImage_discarded (l : Layout) :
    Discarded (s.space p).table
        (((s.discardImage l p).setTextIndex p l.textPg1).space p).table
        s.pfnList ((s.discardImage l p).setTextIndex p l.textPg1).pfnList := by
  have hold := discardRegion1_discarded (s.space p).table s.pfnList
  have htable : (((s.discardImage l p).setTextIndex p l.textPg1).space
      p).table = (discardRegion1 (List.range userPtSize)
        (s.space p).table s.pfnList).1 := upd_same _ _ _
  rw [htable]
  exact hold

theorem setDataIndex_space (i : Int) :
    (s.setDataIndex p i).space p = { s.space p with dataIndex := i } := by
  unfold space memory Memory.space
  simp [setDataIndex, setPcb]

theorem setHeapStackIndex_space (i j : Int) :
    ((s.setHeapIndex p i).setStackIndex p j).space p =
      { s.space p with heapIndex := i, stackIndex := j } := by
  unfold space memory Memory.space
  simp [setHeapIndex, setStackIndex, setPcb]

/-- The four loops of a load that finds all its frames, and the indices. -/
theorem buildImage_image {l : Layout}
    (h : s.buildImage l p = some (true, s')) :
    Image l (s.space p).table (s'.space p).table s.pfnList s'.pfnList ∧
      (s'.space p).dataIndex = l.dataPg1 ∧
      (s'.space p).heapIndex = l.heapIndex ∧
      (s'.space p).stackIndex = l.stackIndex := by
  unfold buildImage at h
  simp only at h
  split at h
  · cases h
  · cases h
  · rename_i s₁ htext
    obtain ⟨hmapped₁, hspace₁⟩ := loadSegment_mapped htext
    split at h
    · cases h
    · cases h
    · rename_i s₂ hdata
      obtain ⟨hmapped₂, hspace₂⟩ := loadSegment_mapped hdata
      obtain ⟨hmapped₃, hspace₃⟩ := loadSegment_mapped h
      rw [setDataIndex_space] at hmapped₂ hspace₂
      rw [setHeapStackIndex_space] at hmapped₃ hspace₃
      constructor
      · exact ⟨_, _, _, _, _, _, discardImage_discarded l, hmapped₁, hmapped₂,
          hmapped₃⟩
      · rw [hspace₃, hspace₂]
        exact ⟨rfl, rfl, rfl⟩

/-- The reads change at most the protection of the text pages. -/
theorem readImage_table {file : Executable} {li : LoadInfo} {l : Layout}
    {code : Int} (h : s.readImage file li l p = some (code, s')) :
    s'.space p =
        { s.space p with
          table :=
            if code = Rc.success then
              protectText l.textPg1 l.textCount (s.space p).table
            else (s.space p).table } ∧
      s'.pfnList = s.pfnList := by
  rcases readImage_cases h with ⟨rfl, rfl, -⟩ | ⟨rfl, -, rfl⟩
  · exact ⟨rfl, rfl⟩
  · refine ⟨?_, rfl⟩
    have htable : upd s.pcb.userPageTable p (protectText l.textPg1
        l.textCount (s.pcb.userPageTable p)) p =
        protectText l.textPg1 l.textCount (s.space p).table :=
      upd_same _ _ _
    exact congrArg (fun t => { s.space p with table := t }) htable

/-- The space and the pool after a load that has not failed before its reads. -/
theorem loadProgram_image {file : Executable} {args : List (List UInt8)}
    {code : Int} (hcode : code ≠ Rc.error)
    (h : s.loadProgram file args p = some (code, s')) :
    ∃ li table, file.accepted args = some li ∧
      Image (layout li args) (s.space p).table table s.pfnList s'.pfnList ∧
      s'.space p =
        { table :=
            if code = Rc.success then
              protectText (layout li args).textPg1 (layout li args).textCount
                table
            else table
          heapIndex := (layout li args).heapIndex
          stackIndex := (layout li args).stackIndex
          dataIndex := (layout li args).dataPg1 } := by
  rw [loadProgram_eq] at h
  cases haccepted : file.accepted args with
  | none =>
      rw [haccepted] at h
      cases h
      exact absurd rfl hcode
  | some li =>
      rw [haccepted] at h
      simp only [loadImage_eq] at h
      split at h
      · cases h
      · cases h
        exact absurd rfl hcode
      · rename_i s₁ hbuild
        obtain ⟨himage, hdata, hheap, hstack⟩ := buildImage_image hbuild
        obtain ⟨hspace, hpool⟩ := readImage_table h
        refine ⟨li, (s₁.space p).table, rfl, ?_, ?_⟩
        · rw [hpool]
          exact himage
        · rw [hspace, ← hdata, ← hheap, ← hstack]

end Kernel

/-! ## Facts about layouts -/

theorem Executable.accepted_total {file : Executable}
    {args : List (List UInt8)} {li : LoadInfo}
    (h : file.accepted args = some li) :
    (layout li args).total < userPtSize := by
  unfold accepted at h
  split at h
  · cases h
  · split at h
    · cases h
    · split at h
      · cases h
      · split at h
        · cases h
        · rename_i htotal
          cases h
          exact Int.not_le.1 htotal

/-- Page counts are far below the limits of `int`. -/
theorem toInt32_pages (x : Int) :
    -(2 ^ 18) ≤ toInt32 x / pageSize ∧ toInt32 x / pageSize < 2 ^ 18 := by
  unfold toInt32 pageSize
  omega

/-- The checks leave an unmapped page between data and stack. -/
theorem layout_below_stack {li : LoadInfo} {args : List (List UInt8)}
    (htotal : (layout li args).total < userPtSize)
    (hcount : 0 < (layout li args).dataCount)
    (htop : (layout li args).dataPg1 + (layout li args).dataCount ≤
      userPtSize) :
    (layout li args).heapIndex =
        (layout li args).dataPg1 + (layout li args).dataCount ∧
      (layout li args).heapIndex < (layout li args).stackIndex := by
  unfold layout at *
  simp only at *
  have hstack := toInt32_pages ((vmem1Limit : Int) -
    downToPage (toInt32 (stackPointer args)))
  generalize toInt32 ((vmem1Limit : Int) -
    downToPage (toInt32 (stackPointer args))) / pageSize = stackNpg at *
  generalize toUInt32 ((li.idVaddr : Int) - vmem1Base) / pageSize = dataPg1
    at *
  have hbounds : -(2 ^ 31) ≤ toInt32 ((li.idNpg : Int) + li.udNpg) ∧
      toInt32 ((li.idNpg : Int) + li.udNpg) < 2 ^ 31 := by
    unfold toInt32
    omega
  generalize toInt32 ((li.idNpg : Int) + li.udNpg) = dataNpg at *
  unfold toInt32 userPtSize at *
  omega

end Yalnix
