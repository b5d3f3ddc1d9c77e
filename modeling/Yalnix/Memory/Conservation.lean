import Yalnix.Memory.ForkMemory
import Yalnix.Memory.ImageSafety

/-!
# The loops conserve frames

A loop over a page table moves frames between the table and the pool.  No loop
makes a frame.  None is lost either, as long as an entry is only mapped when it
was free; the number `0` does not count, since `AllocatePFN` drops it.
-/

namespace Yalnix

open Ledger

/-- No frame is there more often than before. -/
abbrev NoneMade (before after : List Nat) : Prop :=
  AtMost (fun _ => True) after before

/-- No frame is there less often than before. -/
abbrev NoneLost (before after : List Nat) : Prop := AtMost (· ≠ 0) before after

/-! ## One entry -/

/-- A failed `AllocatePFN` drops at most a `0`. -/
theorem allocatePFN_none {pool pool' : List Nat}
    (h : allocatePFN pool = (none, pool')) :
    Conserved (· ≠ 0) pool pool' := by
  cases pool with
  | nil =>
      cases h
      exact .refl _
  | cons pfn pool =>
      rw [allocatePFN] at h
      split at h
      · rename_i hzero
        cases h
        exact .tail (not_not.2 hzero)
      · cases h

/-- Mapping a page makes no frame, and loses the one that was mapped there. -/
theorem map_noneMade {table : Nat → Pte} {i prot pfn : Nat} {pool : List Nat}
    (hi : i < userPtSize) :
    NoneMade (ownedFrames table ++ pfn :: pool)
      (ownedFrames (upd table i ⟨true, prot, pfn⟩) ++ pool) := by
  cases hvalid : (table i).valid with
  | false =>
      have hmap : (ownedFrames (upd table i ⟨true, prot, pfn⟩)).Perm
          (pfn :: ownedFrames table) := ownedFrames_map hi hvalid
      exact .of_perm ((hmap.append_right pool).trans List.perm_middle.symm)
  | true =>
      have hfree : (upd table i invalidPte i).valid = false := by
        rw [upd_same]
        rfl
      have hmap : (ownedFrames (upd (upd table i invalidPte) i
          ⟨true, prot, pfn⟩)).Perm
            (pfn :: ownedFrames (upd table i invalidPte)) :=
        ownedFrames_map hi hfree
      rw [upd_upd] at hmap
      have hunmap : ((table i).pfn :: ownedFrames (upd table i invalidPte)).Perm
          (ownedFrames table) := ownedFrames_unmap hi hvalid rfl
      have hless : NoneMade (ownedFrames table)
          (ownedFrames (upd table i invalidPte)) :=
        (AtMost.cons_self _ _).trans (.of_perm hunmap)
      exact (AtMost.of_perm ((hmap.append_right pool).trans
        List.perm_middle.symm)).trans (hless.append_right _)

theorem map_conserved {table : Nat → Pte} {i prot pfn : Nat} {pool : List Nat}
    (hi : i < userPtSize) (hfree : (table i).valid = false) :
    Conserved (· ≠ 0) (ownedFrames table ++ pfn :: pool)
      (ownedFrames (upd table i ⟨true, prot, pfn⟩) ++ pool) := by
  have hmap : (ownedFrames (upd table i ⟨true, prot, pfn⟩)).Perm
      (pfn :: ownedFrames table) := ownedFrames_map hi hfree
  exact .of_perm (List.perm_middle.trans (hmap.append_right pool).symm)

/-! ## `KernelBrk` and the memory trap -/

theorem growPages_conserved {first count : Nat} {table table' : Nat → Pte}
    {pool pool' : List Nat} {ok : Bool}
    (hin : 0 < count → first + count ≤ userPtSize)
    (h : growPages first count table pool = (ok, table', pool')) :
    Conserved (· ≠ 0) (ownedFrames table ++ pool)
      (ownedFrames table' ++ pool') := by
  induction count generalizing first table pool with
  | zero =>
      cases h
      exact .refl _
  | succ count ih =>
      have hfirst := hin (Nat.succ_pos _)
      rw [growPages] at h
      split at h
      · exact ih (by omega) h
      · rename_i hfree
        rcases halloc : allocatePFN pool with ⟨_ | pfn, rest⟩
        · simp only [halloc] at h
          cases h
          exact (allocatePFN_none halloc).append_left _
        · simp only [halloc] at h
          obtain ⟨rfl, -⟩ := allocatePFN_eq_some halloc
          exact (map_conserved (by omega) (Bool.eq_false_iff.2 hfree)).trans
            (ih (by omega) h)

/-! ## `CopyUPT` -/

theorem copyUPT_conserved {uPt1 uPt2 table : Nat → Pte} {pages pool pool' : List Nat}
    {mapped mapped' : Nat} {ok : Bool} (hnodup : pages.Nodup)
    (hin : ∀ i ∈ pages, i < userPtSize)
    (hfree : ∀ i ∈ pages, (uPt2 i).valid = false)
    (h : copyUPT uPt1 pages uPt2 pool mapped = (ok, table, pool', mapped')) :
    Conserved (· ≠ 0) (ownedFrames uPt2 ++ pool)
      (ownedFrames table ++ pool') := by
  induction pages generalizing uPt2 pool mapped with
  | nil =>
      cases h
      exact .refl _
  | cons i pages ih =>
      obtain ⟨hi, hpages⟩ := List.nodup_cons.1 hnodup
      have hrest : ∀ j ∈ pages, j < userPtSize :=
        fun j hj => hin j (List.mem_cons_of_mem _ hj)
      rw [copyUPT] at h
      split at h
      · rcases halloc : allocatePFN pool with ⟨_ | pfn, rest⟩
        · simp only [halloc] at h
          cases h
          exact (allocatePFN_none halloc).append_left _
        · simp only [halloc] at h
          obtain ⟨rfl, -⟩ := allocatePFN_eq_some halloc
          have hmap : Conserved (· ≠ 0) (ownedFrames uPt2 ++ pfn :: rest)
              (ownedFrames (upd uPt2 i ⟨true, (uPt1 i).prot, pfn⟩) ++ rest) :=
            map_conserved (hin i List.mem_cons_self)
              (hfree i List.mem_cons_self)
          refine hmap.trans (ih hpages hrest (fun j hj => ?_) h)
          have hne : j ≠ i := by
            rintro rfl
            exact hi hj
          rw [upd_other hne]
          exact hfree j (List.mem_cons_of_mem _ hj)
      · exact ih hpages hrest
          (fun j hj => hfree j (List.mem_cons_of_mem _ hj)) h

/-! ## `free_addr_space` -/

/-- The walk pushes every mapped frame. -/
theorem freeTable_perm (table : Nat → Pte) (pages pool : List Nat) :
    (freeTable table pages pool).Perm
      (held (fun i => (table i).frame) pages ++ pool) := by
  induction pages generalizing pool with
  | nil => exact List.Perm.refl _
  | cons i pages ih =>
      rw [freeTable, held_cons]
      refine (ih _).trans ?_
      cases hvalid : (table i).valid with
      | true =>
          rw [Pte.frame_valid hvalid, if_pos rfl]
          exact List.perm_middle
      | false =>
          rw [Pte.frame_invalid hvalid, if_neg Bool.false_ne_true]
          exact List.Perm.refl _

/-- The mapped entries are among all entries. -/
theorem held_within_framesOf (table : Nat → Pte) (pages : List Nat) :
    AtMost (fun _ => True) (held (fun i => (table i).frame) pages)
      (framesOf table pages) := by
  induction pages with
  | nil => exact .refl _
  | cons i pages ih =>
      rw [held_cons]
      show AtMost _ _ ((table i).pfn :: framesOf table pages)
      cases hvalid : (table i).valid with
      | true =>
          rw [Pte.frame_valid hvalid]
          exact ih.append_left [(table i).pfn]
      | false =>
          rw [Pte.frame_invalid hvalid]
          exact ih.trans (.cons_self _ _)

theorem held_eq_framesOf {table : Nat → Pte} {pages : List Nat}
    (h : ∀ i ∈ pages, (table i).valid = true) :
    held (fun i => (table i).frame) pages = framesOf table pages := by
  induction pages with
  | nil => rfl
  | cons i pages ih =>
      rw [held_cons, Pte.frame_valid (h i List.mem_cons_self),
        ih fun j hj => h j (List.mem_cons_of_mem _ hj)]
      rfl

/-- The frames of an address space and of its kernel stack. -/
def spaceFrames (uPt kStack : Nat → Pte) : List Nat :=
  ownedFrames uPt ++ framesOf kStack (List.range kernelStackSize)

theorem freeAddrSpace_noneMade (uPt kStack : Nat → Pte) (pool : List Nat) :
    NoneMade (spaceFrames uPt kStack ++ pool)
      (freeAddrSpace uPt kStack pool) := by
  have hstack := (AtMost.of_perm (freeTable_perm kStack
    (List.range kernelStackSize) pool)).trans
      ((held_within_framesOf kStack (List.range kernelStackSize)).append_right
        pool)
  have huser : NoneMade _ (freeAddrSpace uPt kStack pool) :=
    .of_perm (freeTable_perm uPt (List.range userPtSize) _)
  unfold spaceFrames
  rw [List.append_assoc]
  exact huser.trans (hstack.append_left _)

theorem freeAddrSpace_perm {uPt kStack : Nat → Pte} (pool : List Nat)
    (h : ∀ i, i < kernelStackSize → (kStack i).valid = true) :
    (freeAddrSpace uPt kStack pool).Perm
      (spaceFrames uPt kStack ++ pool) := by
  have hstack := freeTable_perm kStack (List.range kernelStackSize) pool
  rw [held_eq_framesOf fun i hi => h i (List.mem_range.1 hi)] at hstack
  have huser := freeTable_perm uPt (List.range userPtSize)
    (freeTable kStack (List.range kernelStackSize) pool)
  unfold spaceFrames
  rw [List.append_assoc]
  exact huser.trans (hstack.append_left _)

/-! ## The allocation loops of `LoadProgram` -/

theorem mapPages_noneMade {first : Int} {count : Nat} {table table' : Nat → Pte}
    {pool pool' : List Nat}
    (h : mapPages first count table pool = .done table' pool') :
    NoneMade (ownedFrames table ++ pool) (ownedFrames table' ++ pool') := by
  induction count generalizing first table pool with
  | zero =>
      cases h
      exact .refl _
  | succ count ih =>
      rw [mapPages] at h
      split at h
      · cases h
      · rename_i hinside
        simp only at h
        rcases halloc : allocatePFN pool with ⟨_ | pfn, rest⟩
        · simp only [halloc] at h
          cases h
        · simp only [halloc] at h
          obtain ⟨rfl, -⟩ := allocatePFN_eq_some halloc
          exact (ih h).trans (map_noneMade (by omega))

end Yalnix
