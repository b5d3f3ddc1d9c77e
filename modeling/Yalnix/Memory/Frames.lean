import Yalnix.Foundation.Ledger
import Yalnix.Memory.PageLoops

/-!
# The frames of a page table

The loops move frames between the pool and a page table.  A loop that runs to
its end loses none and makes none.
-/

namespace Yalnix

open Ledger

/-- The frame that an entry maps. -/
def Pte.frame (e : Pte) : Option Nat := if e.valid then some e.pfn else none

theorem Pte.frame_valid {e : Pte} (h : e.valid = true) :
    e.frame = some e.pfn := if_pos h

theorem Pte.frame_invalid {e : Pte} (h : e.valid = false) : e.frame = none := by
  unfold frame
  rw [h]
  rfl

/-- The frames of all mapped pages of a user page table. -/
def ownedFrames (table : Nat → Pte) : List Nat :=
  held (fun i => (table i).frame) (List.range userPtSize)

theorem frame_upd (table : Nat → Pte) (i : Nat) (e : Pte) :
    (fun j => (upd table i e j).frame) =
      Function.update (fun j => (table j).frame) i e.frame := by
  funext j
  by_cases hj : j = i
  · subst hj
    simp
  · simp [hj]

/-- A free page gets a frame. -/
theorem ownedFrames_map {table : Nat → Pte} {i : Nat} {prot pfn : Nat}
    (hi : i < userPtSize) (hfree : (table i).valid = false) :
    (ownedFrames (upd table i ⟨true, prot, pfn⟩)).Perm
      (pfn :: ownedFrames table) := by
  unfold ownedFrames
  rw [frame_upd]
  exact held_give List.nodup_range (List.mem_range.2 hi)
    (Pte.frame_invalid hfree) pfn

/-- A mapped page loses its frame. -/
theorem ownedFrames_unmap {table : Nat → Pte} {i : Nat} {e : Pte}
    (hi : i < userPtSize) (hvalid : (table i).valid = true)
    (he : e.valid = false) :
    ((table i).pfn :: ownedFrames (upd table i e)).Perm
      (ownedFrames table) := by
  unfold ownedFrames
  rw [frame_upd, Pte.frame_invalid he]
  exact held_takeBack List.nodup_range (List.mem_range.2 hi)
    (Pte.frame_valid hvalid)

theorem ownedFrames_congr {table table' : Nat → Pte}
    (h : ∀ i < userPtSize, (table' i).frame = (table i).frame) :
    ownedFrames table' = ownedFrames table := by
  apply held_congr
  intro i hi
  exact h i (List.mem_range.1 hi)

/-! ## Growing and shrinking -/

theorem allocatePFN_eq_some {pool pool' : List Nat} {pfn : Nat}
    (h : allocatePFN pool = (some pfn, pool')) :
    pool = pfn :: pool' ∧ pfn ≠ 0 := by
  cases pool with
  | nil => cases h
  | cons first rest =>
      rw [allocatePFN] at h
      split at h
      · cases h
      · rename_i hne
        cases h
        exact ⟨rfl, hne⟩

theorem growPages_owned {first count : Nat} {table table' : Nat → Pte}
    {pool pool' : List Nat} (hin : first + count ≤ userPtSize)
    (h : growPages first count table pool = (true, table', pool')) :
    (ownedFrames table' ++ pool').Perm (ownedFrames table ++ pool) := by
  induction count generalizing first table pool with
  | zero =>
      cases h
      exact List.Perm.refl _
  | succ count ih =>
      rw [growPages] at h
      split at h
      · exact ih (by omega) h
      · rename_i hfree
        rcases halloc : allocatePFN pool with ⟨_ | pfn, rest⟩
        · simp only [halloc] at h
          cases h
        · simp only [halloc] at h
          obtain ⟨rfl, -⟩ := allocatePFN_eq_some halloc
          have hmap : (ownedFrames (upd table first
              ⟨true, Prot.noXWR, pfn⟩)).Perm (pfn :: ownedFrames table) :=
            ownedFrames_map (by omega) (Bool.eq_false_iff.2 hfree)
          have hrest := ih (by omega) h
          exact hrest.trans ((hmap.append_right rest).trans
            List.perm_middle.symm)

theorem shrinkPages_owned {first count : Nat} {table table' : Nat → Pte}
    {pool pool' : List Nat} (hin : first + count ≤ userPtSize)
    (h : shrinkPages first count table pool = (table', pool')) :
    (ownedFrames table' ++ pool').Perm (ownedFrames table ++ pool) := by
  induction count generalizing first table pool with
  | zero =>
      cases h
      exact List.Perm.refl _
  | succ count ih =>
      rw [shrinkPages] at h
      split at h
      · rename_i hvalid
        have hunmap : ((table first).pfn ::
            ownedFrames (upd table first invalidPte)).Perm
              (ownedFrames table) :=
          ownedFrames_unmap (by omega) hvalid rfl
        have hrest := ih (by omega) h
        exact hrest.trans (List.perm_middle.trans (hunmap.append_right pool))
      · exact ih (by omega) h

/-- Enough frames for one page and the rest. -/
theorem enough_cons {n pfn : Nat} {pool : List Nat} :
    n + 1 ≤ (pfn :: pool).length ∧ 0 ∉ (pfn :: pool).take (n + 1) ↔
      pfn ≠ 0 ∧ n ≤ pool.length ∧ 0 ∉ pool.take n := by
  simp only [List.length_cons, Nat.add_le_add_iff_right, List.take_succ_cons,
    List.mem_cons, not_or, ne_eq, @eq_comm _ 0 pfn]
  tauto

/-- Enough frames for one loop and the next. -/
theorem enough_add {m n : Nat} {pool : List Nat} :
    m + n ≤ pool.length ∧ 0 ∉ pool.take (m + n) ↔
      (m ≤ pool.length ∧ 0 ∉ pool.take m) ∧
        n ≤ (pool.drop m).length ∧ 0 ∉ (pool.drop m).take n := by
  rw [List.length_drop, List.take_add, List.mem_append, not_or]
  constructor
  · rintro ⟨hlength, hfirst, hrest⟩
    exact ⟨⟨by omega, hfirst⟩, by omega, hrest⟩
  · rintro ⟨⟨hlength, hfirst⟩, hlength', hrest⟩
    exact ⟨by omega, hfirst, hrest⟩

/-- On free pages the loop runs to its end exactly when the pool starts with
that many frames. -/
theorem growPages_complete {first count : Nat} {table : Nat → Pte}
    {pool : List Nat}
    (hfree : ∀ i, first ≤ i → i < first + count → (table i).valid = false) :
    (growPages first count table pool).1 = true ↔
      count ≤ pool.length ∧ 0 ∉ pool.take count := by
  induction count generalizing first table pool with
  | zero =>
      apply iff_of_true
      · rfl
      · simp
  | succ count ih =>
      have hfirst := hfree first (Nat.le_refl _) (by omega)
      rw [growPages, hfirst, if_neg Bool.false_ne_true]
      cases pool with
      | nil =>
          apply iff_of_false
          · exact Bool.false_ne_true
          · simp
      | cons pfn rest =>
          by_cases hzero : pfn = 0
          · subst hzero
            apply iff_of_false
            · exact Bool.false_ne_true
            · simp
          · simp only [allocatePFN, if_neg hzero]
            rw [ih]
            · simp [Ne.symm hzero]
            · intro i hi hlt
              have hne : i ≠ first := by omega
              rw [upd_other hne]
              exact hfree i (by omega) (by omega)

/-- The loop only pops. -/
theorem growPages_length {first count : Nat} {table : Nat → Pte}
    {pool : List Nat} :
    (growPages first count table pool).2.2.length ≤ pool.length := by
  induction count generalizing first table pool with
  | zero => exact Nat.le_refl _
  | succ count ih =>
      rw [growPages]
      split
      · exact ih
      · cases pool with
        | nil => exact Nat.le_refl _
        | cons pfn rest =>
            by_cases hzero : pfn = 0
            · simp [allocatePFN, hzero]
            · simp only [allocatePFN, if_neg hzero, List.length_cons]
              exact Nat.le_succ_of_le ih

end Yalnix
