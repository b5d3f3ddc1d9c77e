import Yalnix.Kernel.Memory

/-!
# What the page loops write

The loops over a page table are known by the entries they leave alone and by
the valid bits of the others.
-/

namespace Yalnix

/-! ## Growing -/

/-- A page that has a frame keeps it. -/
theorem growPages_valid {first count : Nat} {table : Nat → Pte}
    {pool : List Nat} {i : Nat} (hvalid : (table i).valid = true) :
    (growPages first count table pool).2.1 i = table i := by
  induction count generalizing first table pool with
  | zero => rfl
  | succ count ih =>
      rw [growPages]
      split
      · exact ih hvalid
      · rename_i hinvalid
        have hne : i ≠ first := fun heq => hinvalid (heq ▸ hvalid)
        split
        · rfl
        · rename_i pfn rest _
          have hkeep : upd table first ⟨true, Prot.noXWR, pfn⟩ i = table i :=
            upd_other hne _ _
          rw [ih (hkeep ▸ hvalid), hkeep]

theorem growPages_outside {first count : Nat} {table : Nat → Pte}
    {pool : List Nat} {i : Nat} (h : i < first ∨ first + count ≤ i) :
    (growPages first count table pool).2.1 i = table i := by
  induction count generalizing first table pool with
  | zero => rfl
  | succ count ih =>
      have hrest : i < first + 1 ∨ first + 1 + count ≤ i := by omega
      have hne : i ≠ first := by omega
      rw [growPages]
      split
      · exact ih hrest
      · split
        · rfl
        · rw [ih hrest]
          exact upd_other hne _ _

/-- A loop that runs to its end leaves no hole. -/
theorem growPages_all {first count : Nat} {table : Nat → Pte}
    {pool : List Nat} (hok : (growPages first count table pool).1 = true)
    {i : Nat} (hfirst : first ≤ i) (hi : i < first + count) :
    ((growPages first count table pool).2.1 i).valid = true := by
  induction count generalizing first table pool with
  | zero => omega
  | succ count ih =>
      rw [growPages] at hok ⊢
      split at hok
      · rename_i hvalid
        rw [if_pos hvalid]
        rcases Nat.eq_or_lt_of_le hfirst with rfl | hlt
        · rw [growPages_valid hvalid]
          exact hvalid
        · exact ih hok hlt (by omega)
      · rename_i hinvalid
        rw [if_neg hinvalid]
        split at hok
        · cases hok
        · rename_i pfn rest halloc
          rcases Nat.eq_or_lt_of_le hfirst with rfl | hlt
          · have hmapped : (upd table first ⟨true, Prot.noXWR, pfn⟩
                first).valid = true := by
              rw [upd_same]
            rw [growPages_valid hmapped]
            exact hmapped
          · exact ih hok hlt (by omega)

/-- The first page of the range is mapped if there is a frame at all. -/
theorem growPages_first {first count : Nat} {table table' : Nat → Pte}
    {pool rest : List Nat} {ok : Bool}
    (h : growPages first count table pool = (ok, table', rest))
    (hcount : 0 < count) (hinvalid : (table first).valid = false) :
    (table' first).valid = true ↔ (allocatePFN pool).1 ≠ none := by
  obtain ⟨count, rfl⟩ : ∃ n, count = n + 1 := ⟨count - 1, by omega⟩
  have hfree : ¬ (table first).valid = true := fun h =>
    absurd (h.symm.trans hinvalid) nofun
  rw [growPages, if_neg hfree] at h
  split at h
  · rename_i pool' halloc
    cases h
    rw [halloc]
    exact iff_of_false hfree fun h => h rfl
  · rename_i pfn pool' halloc
    have hmapped : (upd table first ⟨true, Prot.noXWR, pfn⟩ first).valid =
        true := by
      rw [upd_same]
    have hkeeps : (growPages (first + 1) count
        (upd table first ⟨true, Prot.noXWR, pfn⟩) pool').2.1 first =
          upd table first ⟨true, Prot.noXWR, pfn⟩ first :=
      growPages_valid hmapped
    rw [h] at hkeeps
    rw [← hkeeps] at hmapped
    rw [halloc]
    exact iff_of_true hmapped nofun

/-- Without a frame the loop leaves the table as it is. -/
theorem growPages_none {first count : Nat} {table table' : Nat → Pte}
    {pool rest : List Nat} {ok : Bool}
    (h : growPages first count table pool = (ok, table', rest))
    (hnone : (allocatePFN pool).1 = none) : table' = table := by
  induction count generalizing first with
  | zero =>
      cases h
      rfl
  | succ count ih =>
      rw [growPages] at h
      split at h
      · exact ih h
      · split at h
        · cases h
          rfl
        · rename_i pfn pool' halloc
          rw [halloc] at hnone
          cases hnone

/-- What the loop is known by. -/
structure Grown (first count : Nat) (table : Nat → Pte) (ok : Bool)
    (table' : Nat → Pte) : Prop where
  keeps : ∀ i, (table i).valid = true → table' i = table i
  outside : ∀ i, i < first ∨ first + count ≤ i → table' i = table i
  all : ok = true → ∀ i, first ≤ i → i < first + count →
    (table' i).valid = true

theorem growPages_grown {first count : Nat} {table table' : Nat → Pte}
    {pool rest : List Nat} {ok : Bool}
    (h : growPages first count table pool = (ok, table', rest)) :
    Grown first count table ok table' := by
  have hok : ok = (growPages first count table pool).1 := by rw [h]
  have htable : table' = (growPages first count table pool).2.1 := by rw [h]
  subst hok htable
  exact ⟨fun _ => growPages_valid, fun _ => growPages_outside,
    fun hok _ => growPages_all hok⟩

theorem Grown.inside {first count : Nat} {table table' : Nat → Pte}
    {ok : Bool} (h : Grown first count table ok table') {i : Nat}
    (hinvalid : (table i).valid = false) (hnew : (table' i).valid = true) :
    first ≤ i ∧ i < first + count := by
  by_contra hout
  rw [h.outside i (by omega)] at hnew
  exact absurd (hnew.symm.trans hinvalid) nofun

/-! ## Shrinking -/

theorem shrinkPages_outside {first count : Nat} {table : Nat → Pte}
    {pool : List Nat} {i : Nat} (h : i < first ∨ first + count ≤ i) :
    (shrinkPages first count table pool).1 i = table i := by
  induction count generalizing first table pool with
  | zero => rfl
  | succ count ih =>
      have hrest : i < first + 1 ∨ first + 1 + count ≤ i := by omega
      have hne : i ≠ first := by omega
      rw [shrinkPages]
      split
      · rw [ih hrest]
        exact upd_other hne _ _
      · exact ih hrest

theorem shrinkPages_inside {first count : Nat} {table : Nat → Pte}
    {pool : List Nat} {i : Nat} (hfirst : first ≤ i)
    (hi : i < first + count) :
    ((shrinkPages first count table pool).1 i).valid = false := by
  induction count generalizing first table pool with
  | zero => omega
  | succ count ih =>
      rw [shrinkPages]
      rcases Nat.eq_or_lt_of_le hfirst with rfl | hlt
      · split
        · rw [shrinkPages_outside (.inl (Nat.lt_succ_self _)), upd_same]
          rfl
        · rename_i hinvalid
          rw [shrinkPages_outside (.inl (Nat.lt_succ_self _))]
          exact Bool.eq_false_iff.2 hinvalid
      · split
        · exact ih hlt (by omega)
        · exact ih hlt (by omega)

/-- What the loop is known by. -/
structure Shrunk (first count : Nat) (table table' : Nat → Pte) : Prop where
  outside : ∀ i, i < first ∨ first + count ≤ i → table' i = table i
  inside : ∀ i, first ≤ i → i < first + count → (table' i).valid = false

theorem shrinkPages_shrunk {first count : Nat} {table table' : Nat → Pte}
    {pool rest : List Nat}
    (h : shrinkPages first count table pool = (table', rest)) :
    Shrunk first count table table' := by
  have htable : table' = (shrinkPages first count table pool).1 := by rw [h]
  subst htable
  exact ⟨fun _ => shrinkPages_outside, fun _ => shrinkPages_inside⟩

/-! ## Loading -/

theorem discardRegion1_valid {pages : List Nat} {table : Nat → Pte}
    {pool : List Nat} (i : Nat) :
    ((discardRegion1 pages table pool).1 i).valid =
      (!decide (i ∈ pages) && (table i).valid) := by
  induction pages generalizing table pool with
  | nil => rfl
  | cons j pages ih =>
      rw [discardRegion1]
      by_cases hij : i = j
      · subst hij
        split
        · rw [ih]
          simp
        · rename_i hinvalid
          rw [ih]
          simp [hinvalid]
      · split
        · rw [ih]
          simp [hij]
        · rw [ih]
          simp [hij]

theorem mapPages_valid {first : Int} {count : Nat} {table table' : Nat → Pte}
    {pool pool' : List Nat}
    (h : mapPages first count table pool = .done table' pool') (i : Nat) :
    (table' i).valid = true ↔
      (table i).valid = true ∨ first ≤ i ∧ (i : Int) < first + count := by
  induction count generalizing first table pool with
  | zero =>
      cases h
      constructor
      · exact .inl
      · rintro (hvalid | ⟨hle, hlt⟩)
        · exact hvalid
        · omega
  | succ count ih =>
      rw [mapPages] at h
      split at h
      · cases h
      · rename_i hinside
        simp only at h
        split at h
        · cases h
        · rename_i pfn rest halloc
          rw [ih h]
          by_cases hi : i = first.toNat
          · subst hi
            rw [upd_same]
            exact iff_of_true (.inl rfl) (.inr (by omega))
          · rw [upd_other hi]
            constructor
            · rintro (hvalid | hin)
              · exact .inl hvalid
              · exact .inr (by omega)
            · rintro (hvalid | hin)
              · exact .inl hvalid
              · exact .inr (by omega)

theorem protectText_outside {first : Int} {count : Nat} {table : Nat → Pte}
    {i : Nat} (h : ∀ n < count, i ≠ (first + n).toNat) :
    protectText first count table i = table i := by
  induction count generalizing first table with
  | zero => rfl
  | succ count ih =>
      have hne : i ≠ first.toNat := by
        have h₀ := h 0 (Nat.succ_pos _)
        rwa [Int.natCast_zero, Int.add_zero] at h₀
      rw [protectText, ih]
      · exact upd_other hne _ _
      · intro n hn
        have hn₁ := h (n + 1) (Nat.succ_lt_succ hn)
        rwa [Int.natCast_add, Int.natCast_one, Int.add_comm (n : Int) 1,
          ← Int.add_assoc] at hn₁

theorem protectText_valid {first : Int} {count : Nat} {table : Nat → Pte}
    (i : Nat) : (protectText first count table i).valid = (table i).valid := by
  induction count generalizing first table with
  | zero => rfl
  | succ count ih =>
      rw [protectText, ih, upd_apply]
      split
      · rename_i heq
        rw [heq]
      · rfl

end Yalnix
