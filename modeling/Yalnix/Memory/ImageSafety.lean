import Yalnix.Memory.LoadedImage

/-!
# Malformed files

`LoadInfo` reports whatever a file says.  The checks of `LoadProgram` compare
the entry point and one sum with constants; the text range, wrap-around and the
zeroed range are not looked at.
-/

namespace Yalnix

open ByteMemory

/-! ## What a load writes -/

/-- The subscripts that one allocation loop writes, and the pool when it runs to
its end. -/
def loopWrites (first : Int) : Nat → List Nat → List Int × Option (List Nat)
  | 0, pool => ([], some pool)
  | count + 1, pool =>
      match allocatePFN pool with
      | (none, _) => ([first], none)
      | (some _, pool) =>
          let rest := loopWrites (first + 1) count pool
          (first :: rest.1, rest.2)

/-- The subscripts that the three loops map, for the pool that the discarded
pages have left. -/
def mappedSubscripts (l : Layout) (pool : List Nat) : List Int :=
  let text := loopWrites l.textPg1 l.textCount pool
  match text.2 with
  | none => text.1
  | some pool =>
      let data := loopWrites l.dataPg1 l.dataCount pool
      match data.2 with
      | none => text.1 ++ data.1
      | some pool =>
          text.1 ++ data.1 ++ (loopWrites l.stackIndex l.stackCount pool).1

/-- No load of the layout writes outside the page table or maps an entry twice,
whatever frames there are, and the bytes that are zeroed lie in data pages.
The other writes are at `0 .. USER_PT_SIZE - 1` and at the text pages. -/
structure LoadSafe (l : Layout) (idEnd udEnd : Nat) : Prop where
  inside : ∀ pool, ∀ i ∈ mappedSubscripts l pool, 0 ≤ i ∧ i < userPtSize
  once : ∀ pool, (mappedSubscripts l pool).Nodup
  zeroed : ∀ k : Nat, (k : Int) < toUInt32 ((udEnd : Int) - idEnd) →
    l.dataPg1 ≤ addrPage ((idEnd + k) % 2 ^ 32) ∧
      addrPage ((idEnd + k) % 2 ^ 32) < l.dataPg1 + l.dataCount

/-! ## Which files are safe -/

namespace LoadInfo

/-- All fields are 32-bit values. -/
structure Words (li : LoadInfo) : Prop where
  tVaddr : li.tVaddr < 2 ^ 32
  tNpg : li.tNpg < 2 ^ 32
  idVaddr : li.idVaddr < 2 ^ 32
  idEnd : li.idEnd < 2 ^ 32
  udEnd : li.udEnd < 2 ^ 32

/-- The page of the text above `VMEM_1_BASE`, as an unsigned difference. -/
def textPage (li : LoadInfo) : Nat :=
  (li.tVaddr + (2 ^ 32 - vmem1Base)) % 2 ^ 32 / pageSize

def dataPage (li : LoadInfo) : Nat :=
  (li.idVaddr + (2 ^ 32 - vmem1Base)) % 2 ^ 32 / pageSize

/-- `id_npg + ud_npg` as a 32-bit value. -/
def dataPages (li : LoadInfo) : Nat := (li.idNpg + li.udNpg) % 2 ^ 32

/-- There are no text pages, or their end wraps around. -/
def TextEmpty (li : LoadInfo) : Prop :=
  li.tNpg = 0 ∨ 2 ^ 32 ≤ li.textPage + li.tNpg

/-- There are no data pages, or their number or their end is no `int`. -/
def DataEmpty (li : LoadInfo) : Prop :=
  li.dataPages = 0 ∨ 2 ^ 31 ≤ li.dataPages ∨
    2 ^ 31 ≤ li.dataPage + li.dataPages

end LoadInfo

/-- The pages of the argument block, whose number wraps around at `2 ^ 18`. -/
def blockPages (args : List (List UInt8)) : Nat :=
  (((blockBytes args + (pageSize - 1)) / pageSize + 2 ^ 18 : Int) % 2 ^ 19 -
    2 ^ 18).toNat

/-- The ranges of the file lie in Region 1 below the stack, text and data apart,
and the zeroed range lies in the data. -/
structure LoadInfo.Fits (li : LoadInfo) (args : List (List UInt8)) : Prop where
  stack : blockPages args ≤ userPtSize
  text : li.TextEmpty ∨ li.textPage + li.tNpg + blockPages args ≤ userPtSize
  data : li.DataEmpty ∨
    li.dataPage + li.dataPages + blockPages args ≤ userPtSize
  apart : li.TextEmpty ∨ li.DataEmpty ∨
    li.textPage + li.tNpg ≤ li.dataPage ∨
    li.dataPage + li.dataPages ≤ li.textPage
  zeroed : li.idEnd = li.udEnd ∨ ¬ li.DataEmpty ∧ li.idEnd < li.udEnd ∧
    (vmem1BasePage + li.dataPage) * pageSize ≤ li.idEnd ∧
    li.udEnd ≤ (vmem1BasePage + li.dataPage + li.dataPages) * pageSize

/-! ## The loops -/

theorem loopWrites_inRange {first : Int} {count : Nat} {pool : List Nat}
    {i : Int} (h : i ∈ (loopWrites first count pool).1) :
    first ≤ i ∧ i < first + count := by
  induction count generalizing first pool with
  | zero => cases h
  | succ count ih =>
      rw [loopWrites] at h
      rcases halloc : allocatePFN pool with ⟨_ | pfn, rest⟩
      · simp only [halloc, List.mem_singleton] at h
        omega
      · simp only [halloc, List.mem_cons] at h
        rcases h with h | h
        · omega
        · have hin := ih h
          omega

theorem loopWrites_nodup {first : Int} {count : Nat} {pool : List Nat} :
    (loopWrites first count pool).1.Nodup := by
  induction count generalizing first pool with
  | zero => exact List.nodup_nil
  | succ count ih =>
      rw [loopWrites]
      rcases halloc : allocatePFN pool with ⟨_ | pfn, rest⟩
      · exact List.nodup_singleton _
      · simp only [List.nodup_cons]
        refine ⟨?_, ih⟩
        intro h
        have hin := loopWrites_inRange h
        omega

/-- With frames for all pages a loop writes its whole range. -/
theorem loopWrites_enough {first : Int} {count more : Nat} :
    (∀ i : Int, first ≤ i → i < first + count →
        i ∈ (loopWrites first count (List.replicate (count + more) 1)).1) ∧
      (loopWrites first count (List.replicate (count + more) 1)).2 =
        some (List.replicate more 1) := by
  induction count generalizing first with
  | zero =>
      constructor
      · intro i hge hlt
        omega
      · rw [Nat.zero_add]
        rfl
  | succ count ih =>
      obtain ⟨hall, hrest⟩ := @ih (first + 1)
      have hpool : List.replicate (count + 1 + more) 1 =
          1 :: List.replicate (count + more) 1 := by
        rw [Nat.add_right_comm, List.replicate_succ]
      rw [hpool, loopWrites]
      simp only [allocatePFN, Nat.one_ne_zero, if_false]
      constructor
      · intro i hge hlt
        rw [List.mem_cons]
        by_cases hi : i = first
        · exact .inl hi
        · exact .inr (hall i (by omega) (by omega))
      · exact hrest

/-- A loop leaves the table exactly when one of its writes does. -/
theorem mapPages_outOfTable_iff {first : Int} {count : Nat}
    {table : Nat → Pte} {pool : List Nat} :
    mapPages first count table pool = .outOfTable ↔
      ∃ i ∈ (loopWrites first count pool).1, ¬ (0 ≤ i ∧ i < userPtSize) := by
  induction count generalizing first table pool with
  | zero =>
      constructor
      · intro h
        cases h
      · rintro ⟨i, hi, -⟩
        cases hi
  | succ count ih =>
      rw [mapPages, loopWrites]
      by_cases hfirst : first < 0 ∨ (userPtSize : Int) ≤ first
      · rw [if_pos hfirst]
        apply iff_of_true rfl
        refine ⟨first, ?_, by omega⟩
        rcases halloc : allocatePFN pool with ⟨_ | pfn, rest⟩
        · exact List.mem_singleton_self _
        · exact List.mem_cons_self
      · rw [if_neg hfirst]
        rcases halloc : allocatePFN pool with ⟨_ | pfn, rest⟩
        · simp only [List.mem_singleton, exists_eq_left]
          apply iff_of_false
          · intro h
            cases h
          · omega
        · simp only [ih, List.mem_cons, exists_eq_or_imp]
          constructor
          · exact .inr
          · rintro (hout | hrest)
            · omega
            · exact hrest

theorem loopWrites_of_done {first : Int} {count : Nat} {table t : Nat → Pte}
    {pool q : List Nat} (h : mapPages first count table pool = .done t q) :
    (loopWrites first count pool).2 = some q := by
  induction count generalizing first table pool with
  | zero =>
      cases h
      rfl
  | succ count ih =>
      rw [mapPages] at h
      split at h
      · cases h
      · rw [loopWrites]
        rcases halloc : allocatePFN pool with ⟨_ | pfn, rest⟩
        · simp only [halloc] at h
          cases h
        · simp only [halloc] at h
          exact ih h

theorem loopWrites_of_noFrame {first : Int} {count : Nat} {table t : Nat → Pte}
    {pool q : List Nat} (h : mapPages first count table pool = .noFrame t q) :
    (loopWrites first count pool).2 = none := by
  induction count generalizing first table pool with
  | zero => cases h
  | succ count ih =>
      rw [mapPages] at h
      split at h
      · cases h
      · rw [loopWrites]
        rcases halloc : allocatePFN pool with ⟨_ | pfn, rest⟩
        · rfl
        · simp only [halloc] at h
          exact ih h

namespace Kernel

variable {s : Kernel} {p : PcbPtr}

/-- The pool when the old Region 1 has been thrown away. -/
def freedPool (s : Kernel) (p : PcbPtr) : List Nat :=
  (discardRegion1 (List.range userPtSize) (s.pcb.userPageTable p)
    s.pfnList).2

/-- What a segment loop of a load does, in terms of its subscripts. -/
theorem loadSegment_cases (s : Kernel) (p : PcbPtr) (first : Int)
    (count : Nat) :
    (s.loadSegment p first count = none ∧
        ∃ i ∈ (loopWrites first count s.pfnList).1,
          ¬ (0 ≤ i ∧ i < userPtSize)) ∨
      (∀ i ∈ (loopWrites first count s.pfnList).1,
          0 ≤ i ∧ i < userPtSize) ∧
        ((∃ s', s.loadSegment p first count = some (false, s') ∧
            (loopWrites first count s.pfnList).2 = none) ∨
          ∃ s', s.loadSegment p first count = some (true, s') ∧
            (loopWrites first count s.pfnList).2 = some s'.pfnList) := by
  have hout := @mapPages_outOfTable_iff first count (s.pcb.userPageTable p)
    s.pfnList
  unfold loadSegment
  rcases hmap : mapPages first count (s.pcb.userPageTable p) s.pfnList with
    ⟨table, pool⟩ | ⟨table, pool⟩ | _
  · rw [hmap] at hout
    right
    constructor
    · intro i hi
      by_contra hni
      cases hout.2 ⟨i, hi, hni⟩
    · exact .inr ⟨_, rfl, loopWrites_of_done hmap⟩
  · rw [hmap] at hout
    right
    constructor
    · intro i hi
      by_contra hni
      cases hout.2 ⟨i, hi, hni⟩
    · exact .inl ⟨_, rfl, loopWrites_of_noFrame hmap⟩
  · rw [hmap] at hout
    exact .inl ⟨rfl, hout.1 rfl⟩

/-- The loops leave the page table exactly when one of their subscripts does. -/
theorem buildImage_none_iff (l : Layout) :
    s.buildImage l p = none ↔
      ∃ i ∈ mappedSubscripts l (s.freedPool p),
        ¬ (0 ≤ i ∧ i < userPtSize) := by
  have hpool : ((s.discardImage l p).setTextIndex p l.textPg1).pfnList =
      s.freedPool p := rfl
  unfold buildImage mappedSubscripts
  rw [← hpool]
  simp only
  rcases loadSegment_cases ((s.discardImage l p).setTextIndex p l.textPg1) p
    l.textPg1 l.textCount with
      ⟨heq, i, hi, hout⟩ | ⟨htext, ⟨s₁, heq, hrest⟩ | ⟨s₁, heq, hrest⟩⟩
  · rw [heq]
    apply iff_of_true rfl
    refine ⟨i, ?_, hout⟩
    split
    · exact hi
    · split
      · exact List.mem_append_left _ hi
      · exact List.mem_append_left _ (List.mem_append_left _ hi)
  · rw [heq, hrest]
    apply iff_of_false
    · exact nofun
    · rintro ⟨i, hi, hout⟩
      exact hout (htext i hi)
  · rw [heq, hrest]
    simp only
    have hpool₁ : (s₁.setDataIndex p l.dataPg1).pfnList = s₁.pfnList := rfl
    rw [← hpool₁]
    rcases loadSegment_cases (s₁.setDataIndex p l.dataPg1) p l.dataPg1
      l.dataCount with
        ⟨heq, i, hi, hout⟩ | ⟨hdata, ⟨s₂, heq, hrest⟩ | ⟨s₂, heq, hrest⟩⟩
    · rw [heq]
      apply iff_of_true rfl
      refine ⟨i, ?_, hout⟩
      split
      · exact List.mem_append_right _ hi
      · exact List.mem_append_left _ (List.mem_append_right _ hi)
    · rw [heq, hrest]
      apply iff_of_false
      · exact nofun
      · rintro ⟨i, hi, hout⟩
        rcases List.mem_append.1 hi with hi | hi
        · exact hout (htext i hi)
        · exact hout (hdata i hi)
    · rw [heq, hrest]
      simp only
      have hpool₂ : ((s₂.setHeapIndex p l.heapIndex).setStackIndex p
        l.stackIndex).pfnList = s₂.pfnList := rfl
      rw [← hpool₂]
      rcases loadSegment_cases ((s₂.setHeapIndex p l.heapIndex).setStackIndex p
        l.stackIndex) p l.stackIndex l.stackCount with
          ⟨heq, i, hi, hout⟩ | ⟨hstack, ⟨s₃, heq, -⟩ | ⟨s₃, heq, -⟩⟩
      · rw [heq]
        apply iff_of_true rfl
        exact ⟨i, List.mem_append_right _ hi, hout⟩
      all_goals
        rw [heq]
        apply iff_of_false
        · exact nofun
        · rintro ⟨i, hi, hout⟩
          rcases List.mem_append.1 hi with hi | hi
          · rcases List.mem_append.1 hi with hi | hi
            · exact hout (htext i hi)
            · exact hout (hdata i hi)
          · exact hout (hstack i hi)

end Kernel

/-! ## Ranges -/

/-- The subscripts of a loop. -/
def Within (first : Int) (count : Nat) (i : Int) : Prop :=
  first ≤ i ∧ i < first + count

/-- The three ranges lie in the table and do not meet. -/
structure Layout.RangesApart (l : Layout) : Prop where
  text : ∀ i, Within l.textPg1 l.textCount i → 0 ≤ i ∧ i < userPtSize
  data : ∀ i, Within l.dataPg1 l.dataCount i → 0 ≤ i ∧ i < userPtSize
  stack : ∀ i, Within l.stackIndex l.stackCount i → 0 ≤ i ∧ i < userPtSize
  textData : ∀ i, Within l.textPg1 l.textCount i →
    ¬ Within l.dataPg1 l.dataCount i
  textStack : ∀ i, Within l.textPg1 l.textCount i →
    ¬ Within l.stackIndex l.stackCount i
  dataStack : ∀ i, Within l.dataPg1 l.dataCount i →
    ¬ Within l.stackIndex l.stackCount i

theorem Layout.RangesApart.safe {l : Layout} (h : l.RangesApart)
    (pool : List Nat) :
    (∀ i ∈ mappedSubscripts l pool, 0 ≤ i ∧ i < userPtSize) ∧
      (mappedSubscripts l pool).Nodup := by
  have htext (i : Int)
      (hi : i ∈ (loopWrites l.textPg1 l.textCount pool).1) :
      Within l.textPg1 l.textCount i := loopWrites_inRange hi
  unfold mappedSubscripts
  simp only
  split
  · constructor
    · intro i hi
      exact h.text i (htext i hi)
    · exact loopWrites_nodup
  · rename_i pool₁ _
    have hdata (i : Int)
        (hi : i ∈ (loopWrites l.dataPg1 l.dataCount pool₁).1) :
        Within l.dataPg1 l.dataCount i := loopWrites_inRange hi
    have hnodup : ((loopWrites l.textPg1 l.textCount pool).1 ++
        (loopWrites l.dataPg1 l.dataCount pool₁).1).Nodup := by
      rw [List.nodup_append]
      refine ⟨loopWrites_nodup, loopWrites_nodup, ?_⟩
      rintro i hi j hj rfl
      exact h.textData i (htext i hi) (hdata i hj)
    have hin (i : Int) (hi : i ∈ (loopWrites l.textPg1 l.textCount pool).1 ++
        (loopWrites l.dataPg1 l.dataCount pool₁).1) :
        0 ≤ i ∧ i < userPtSize := by
      rcases List.mem_append.1 hi with hi | hi
      · exact h.text i (htext i hi)
      · exact h.data i (hdata i hi)
    split
    · exact ⟨hin, hnodup⟩
    · rename_i pool₂ _
      have hstack (i : Int)
          (hi : i ∈ (loopWrites l.stackIndex l.stackCount pool₂).1) :
          Within l.stackIndex l.stackCount i := loopWrites_inRange hi
      constructor
      · intro i hi
        rcases List.mem_append.1 hi with hi | hi
        · exact hin i hi
        · exact h.stack i (hstack i hi)
      · rw [List.nodup_append]
        refine ⟨hnodup, loopWrites_nodup, ?_⟩
        rintro i hi j hj rfl
        rcases List.mem_append.1 hi with hi | hi
        · exact h.textStack i (htext i hi) (hstack i hj)
        · exact h.dataStack i (hdata i hi) (hstack i hj)

/-- With frames for all pages every subscript of the three ranges is written. -/
theorem mappedSubscripts_enough (l : Layout) :
    ∃ pool text data stack,
      mappedSubscripts l pool = text ++ data ++ stack ∧
      (∀ i, Within l.textPg1 l.textCount i → i ∈ text) ∧
      (∀ i, Within l.dataPg1 l.dataCount i → i ∈ data) ∧
      ∀ i, Within l.stackIndex l.stackCount i → i ∈ stack := by
  have htext := @loopWrites_enough l.textPg1 l.textCount
    (l.dataCount + (l.stackCount + 0))
  have hdata := @loopWrites_enough l.dataPg1 l.dataCount (l.stackCount + 0)
  have hstack := @loopWrites_enough l.stackIndex l.stackCount 0
  rcases heq₁ : loopWrites l.textPg1 l.textCount (List.replicate
    (l.textCount + (l.dataCount + (l.stackCount + 0))) 1) with ⟨text, pool₁⟩
  rcases heq₂ : loopWrites l.dataPg1 l.dataCount (List.replicate
    (l.dataCount + (l.stackCount + 0)) 1) with ⟨data, pool₂⟩
  rcases heq₃ : loopWrites l.stackIndex l.stackCount (List.replicate
    (l.stackCount + 0) 1) with ⟨stack, pool₃⟩
  rw [heq₁] at htext
  rw [heq₂] at hdata
  rw [heq₃] at hstack
  obtain ⟨htext, rfl⟩ := htext
  obtain ⟨hdata, rfl⟩ := hdata
  refine ⟨List.replicate (l.textCount + (l.dataCount + (l.stackCount + 0))) 1,
    text, data, stack, ?_, ?_, ?_, ?_⟩
  · unfold mappedSubscripts
    rw [heq₁]
    simp only
    rw [heq₂]
    simp only
    rw [heq₃]
  · rintro i ⟨hge, hlt⟩
    exact htext i hge hlt
  · rintro i ⟨hge, hlt⟩
    exact hdata i hge hlt
  · rintro i ⟨hge, hlt⟩
    exact hstack.1 i hge hlt

theorem rangesApart_of_safe {l : Layout}
    (hinside : ∀ pool, ∀ i ∈ mappedSubscripts l pool, 0 ≤ i ∧ i < userPtSize)
    (honce : ∀ pool, (mappedSubscripts l pool).Nodup) : l.RangesApart := by
  obtain ⟨pool, text, data, stack, heq, htext, hdata, hstack⟩ :=
    mappedSubscripts_enough l
  have hin := hinside pool
  have hnodup := honce pool
  rw [heq] at hin hnodup
  rw [List.nodup_append, List.nodup_append] at hnodup
  obtain ⟨⟨-, -, hapart⟩, -, habove⟩ := hnodup
  constructor
  · intro i hi
    exact hin i (List.mem_append_left _ (List.mem_append_left _ (htext i hi)))
  · intro i hi
    exact hin i (List.mem_append_left _ (List.mem_append_right _ (hdata i hi)))
  · intro i hi
    exact hin i (List.mem_append_right _ (hstack i hi))
  · intro i hi hi'
    exact hapart i (htext i hi) i (hdata i hi') rfl
  · intro i hi hi'
    exact habove i (List.mem_append_left _ (htext i hi)) i (hstack i hi') rfl
  · intro i hi hi'
    exact habove i (List.mem_append_right _ (hdata i hi)) i (hstack i hi') rfl

/-! ## The layout of an arbitrary file -/

/-- The layout of `li`, as far as the loops depend on it. -/
structure Layout.Computed (l : Layout) (li : LoadInfo)
    (args : List (List UInt8)) : Prop where
  textPg1 : l.textPg1 = li.textPage
  textEmpty : li.TextEmpty → l.textCount = 0
  textCount : ¬ li.TextEmpty → l.textCount = li.tNpg
  dataPg1 : l.dataPg1 = li.dataPage
  dataEmpty : li.DataEmpty → l.dataCount = 0
  dataCount : ¬ li.DataEmpty → l.dataCount = li.dataPages
  stackCount : l.stackCount = blockPages args
  stackIndex : blockPages args ≠ 0 →
    l.stackIndex = (userPtSize : Int) - blockPages args

theorem textPage_eq (li : LoadInfo) :
    toUInt32 ((li.tVaddr : Int) - vmem1Base) / pageSize = li.textPage := by
  unfold LoadInfo.textPage toUInt32 vmem1Base pageSize
  omega

theorem dataPage_eq (li : LoadInfo) :
    toUInt32 ((li.idVaddr : Int) - vmem1Base) / pageSize = li.dataPage := by
  unfold LoadInfo.dataPage toUInt32 vmem1Base pageSize
  omega

theorem dataPages_eq (li : LoadInfo) :
    toInt32 ((li.idNpg : Int) + li.udNpg) =
      if li.dataPages < 2 ^ 31 then (li.dataPages : Int)
      else li.dataPages - 2 ^ 32 := by
  unfold LoadInfo.dataPages toInt32
  split
  · omega
  · omega

/-- The stack pages of the layout are those of the argument block. -/
theorem layout_stack (li : LoadInfo) (args : List (List UInt8)) :
    (layout li args).stackCount = blockPages args ∧
      (blockPages args ≠ 0 →
        (layout li args).stackIndex = (userPtSize : Int) - blockPages args) := by
  have hindex : (layout li args).stackIndex = userPtSize -
      toInt32 ((vmem1Limit : Int) -
        downToPage (toInt32 (stackPointer args))) / pageSize := rfl
  have hcount : (layout li args).stackCount = (toInt32 ((vmem1Limit : Int) -
    downToPage (toInt32 (stackPointer args))) / pageSize).toNat := rfl
  rw [stackPointer_wraps, stackNpg_wraps] at hindex hcount
  rw [hindex, hcount]
  unfold blockPages
  constructor
  · rfl
  · intro hpages
    omega

theorem layout_computed {li : LoadInfo} (h : li.Words)
    (args : List (List UInt8)) : (layout li args).Computed li args := by
  have htextPage : li.textPage < 2 ^ 19 := by
    unfold LoadInfo.textPage pageSize
    omega
  have hdataPage : li.dataPage < 2 ^ 19 := by
    unfold LoadInfo.dataPage pageSize
    omega
  have htNpg := h.tNpg
  have hdataPages : li.dataPages < 2 ^ 32 := Nat.mod_lt _ (by omega)
  have htextCount : (layout li args).textCount =
      (toUInt32 ((li.textPage : Int) + li.tNpg) - li.textPage).toNat := by
    unfold layout
    simp only [textPage_eq]
  have hdataCount : (layout li args).dataCount =
      (toInt32 ((li.dataPage : Int) + toInt32 ((li.idNpg : Int) + li.udNpg)) -
        li.dataPage).toNat := by
    unfold layout
    simp only [dataPage_eq]
  rw [dataPages_eq] at hdataCount
  constructor
  · exact textPage_eq li
  · intro hempty
    unfold LoadInfo.TextEmpty at hempty
    rw [htextCount]
    unfold toUInt32
    omega
  · intro hfull
    unfold LoadInfo.TextEmpty at hfull
    rw [htextCount]
    unfold toUInt32
    omega
  · exact dataPage_eq li
  · intro hempty
    unfold LoadInfo.DataEmpty at hempty
    rw [hdataCount]
    unfold toInt32
    split
    · omega
    · omega
  · intro hfull
    unfold LoadInfo.DataEmpty at hfull
    rw [hdataCount, if_pos (by omega)]
    unfold toInt32
    omega
  · exact (layout_stack li args).1
  · exact (layout_stack li args).2

/-! ## Safe files -/

/-- The ranges of a computed layout are apart when those of the file are. -/
theorem Layout.Computed.rangesApart {l : Layout} {li : LoadInfo}
    {args : List (List UInt8)} (h : l.Computed li args)
    (hfits : li.Fits args) : l.RangesApart := by
  have htextPg := h.textPg1
  have hdataPg := h.dataPg1
  have hcount := h.stackCount
  have hindex := h.stackIndex
  have htext (i : Int) (hi : Within l.textPg1 l.textCount i) :
      ¬ li.TextEmpty ∧ l.textCount = li.tNpg := by
    by_cases hempty : li.TextEmpty
    · rw [h.textEmpty hempty] at hi
      obtain ⟨hge, hlt⟩ := hi
      omega
    · exact ⟨hempty, h.textCount hempty⟩
  have hdata (i : Int) (hi : Within l.dataPg1 l.dataCount i) :
      ¬ li.DataEmpty ∧ l.dataCount = li.dataPages := by
    by_cases hempty : li.DataEmpty
    · rw [h.dataEmpty hempty] at hi
      obtain ⟨hge, hlt⟩ := hi
      omega
    · exact ⟨hempty, h.dataCount hempty⟩
  obtain ⟨hstack, hbelow, hdataBelow, hapart, -⟩ := hfits
  constructor
  · intro i hi
    obtain ⟨hfull, heq⟩ := htext i hi
    have htop := hbelow.resolve_left hfull
    unfold Within at hi
    omega
  · intro i hi
    obtain ⟨hfull, heq⟩ := hdata i hi
    have htop := hdataBelow.resolve_left hfull
    unfold Within at hi
    omega
  · intro i hi
    unfold Within at hi
    omega
  · intro i hi hi'
    obtain ⟨hfull, heq⟩ := htext i hi
    obtain ⟨hfull', heq'⟩ := hdata i hi'
    have hranges := (hapart.resolve_left hfull).resolve_left hfull'
    unfold Within at hi hi'
    omega
  · intro i hi hi'
    obtain ⟨hfull, heq⟩ := htext i hi
    have htop := hbelow.resolve_left hfull
    unfold Within at hi hi'
    omega
  · intro i hi hi'
    obtain ⟨hfull, heq⟩ := hdata i hi
    have htop := hdataBelow.resolve_left hfull
    unfold Within at hi hi'
    omega

/-- Data pages that are not empty lie in the table, and their range is known. -/
theorem Layout.Computed.zeroed_iff {l : Layout} {li : LoadInfo}
    {args : List (List UInt8)} {idEnd udEnd : Nat} (h : l.Computed li args)
    (hdata : li.DataEmpty ∨ li.dataPage + li.dataPages ≤ userPtSize)
    (hid : idEnd < 2 ^ 32) (hud : udEnd < 2 ^ 32) :
    (∀ k : Nat, (k : Int) < toUInt32 ((udEnd : Int) - idEnd) →
        l.dataPg1 ≤ addrPage ((idEnd + k) % 2 ^ 32) ∧
          addrPage ((idEnd + k) % 2 ^ 32) < l.dataPg1 + l.dataCount) ↔
      idEnd = udEnd ∨ ¬ li.DataEmpty ∧ idEnd < udEnd ∧
        (vmem1BasePage + li.dataPage) * pageSize ≤ idEnd ∧
        udEnd ≤ (vmem1BasePage + li.dataPage + li.dataPages) * pageSize := by
  rw [h.dataPg1]
  constructor
  · intro hall
    by_cases heq : idEnd = udEnd
    · exact .inl heq
    right
    have hfirst := hall 0 (by unfold toUInt32; omega)
    have hfull : ¬ li.DataEmpty := by
      intro hempty
      rw [h.dataEmpty hempty] at hfirst
      omega
    have hinside := hdata.resolve_left hfull
    rw [h.dataCount hfull] at hall hfirst
    have horder : idEnd < udEnd := by
      -- otherwise the top of the address space is zeroed, too
      by_contra hge
      have htop := hall (2 ^ 32 - 1 - idEnd) (by unfold toUInt32; omega)
      unfold addrPage vmem1BasePage pageSize userPtSize at *
      omega
    have hlast := hall (udEnd - idEnd - 1) (by unfold toUInt32; omega)
    refine ⟨hfull, horder, ?_, ?_⟩
    · unfold addrPage vmem1BasePage pageSize userPtSize at *
      omega
    · unfold addrPage vmem1BasePage pageSize userPtSize at *
      omega
  · rintro (heq | ⟨hfull, horder, hlow, hhigh⟩) k hk
    · unfold toUInt32 at hk
      omega
    · rw [h.dataCount hfull]
      unfold toUInt32 at hk
      unfold addrPage vmem1BasePage pageSize at *
      omega

theorem LoadSafe.fits {l : Layout} {li : LoadInfo} {args : List (List UInt8)}
    (h : l.Computed li args) (hsafe : LoadSafe l li.idEnd li.udEnd)
    (hid : li.idEnd < 2 ^ 32) (hud : li.udEnd < 2 ^ 32) : li.Fits args := by
  obtain ⟨hinside, honce, hzeroed⟩ := hsafe
  obtain ⟨htext, hdata, hstack, htextData, htextStack, hdataStack⟩ :=
    rangesApart_of_safe hinside honce
  have htextPg := h.textPg1
  have hdataPg := h.dataPg1
  have hcount := h.stackCount
  have hindex := h.stackIndex
  have hblock : blockPages args ≤ userPtSize := by
    by_cases hpages : blockPages args = 0
    · omega
    · have hfirst := hstack l.stackIndex
        (by unfold Within; omega)
      have heq := hindex hpages
      omega
  -- the last page of a range that ends below the table is no stack page
  have hbelow {first : Int} {count : Nat} (hcount' : count ≠ 0)
      (hin : ∀ i, Within first count i → 0 ≤ i ∧ i < userPtSize)
      (hout : ∀ i, Within first count i →
        ¬ Within l.stackIndex l.stackCount i) :
      first + count + blockPages args ≤ userPtSize := by
    have hlast : Within first count (first + count - 1) := by
      unfold Within
      omega
    have htop := hin _ hlast
    have hnot := hout _ hlast
    unfold Within at hnot
    omega
  have hbelowText : li.TextEmpty ∨
      li.textPage + li.tNpg + blockPages args ≤ userPtSize := by
    by_cases hempty : li.TextEmpty
    · exact .inl hempty
    · right
      have heq := h.textCount hempty
      have hlow := hbelow (by unfold LoadInfo.TextEmpty at hempty; omega)
        htext htextStack
      omega
  have hbelowData : li.DataEmpty ∨
      li.dataPage + li.dataPages + blockPages args ≤ userPtSize := by
    by_cases hempty : li.DataEmpty
    · exact .inl hempty
    · right
      have heq := h.dataCount hempty
      have hlow := hbelow (by unfold LoadInfo.DataEmpty at hempty; omega)
        hdata hdataStack
      omega
  constructor
  · exact hblock
  · exact hbelowText
  · exact hbelowData
  · by_cases hempty : li.TextEmpty
    · exact .inl hempty
    by_cases hempty' : li.DataEmpty
    · exact .inr (.inl hempty')
    right
    right
    have heq := h.textCount hempty
    have heq' := h.dataCount hempty'
    have hstart := htextData l.textPg1
    have hstart' := htextData l.dataPg1
    unfold LoadInfo.TextEmpty at hempty
    unfold LoadInfo.DataEmpty at hempty'
    unfold Within at hstart hstart'
    omega
  · rw [h.zeroed_iff _ hid hud] at hzeroed
    · exact hzeroed
    · apply hbelowData.imp_right
      omega

/-- No accepted file makes the loader write where it must not. -/
def ProgramFile.LoadsSafely (f : ProgramFile) (args : List (List UInt8)) :
    Prop :=
  ∀ li, f.file.accepted args = some li →
    LoadSafe (layout li args) li.idEnd li.udEnd

/-- All fields of the file are 32-bit values. -/
def ProgramFile.Words (f : ProgramFile) : Prop :=
  ∀ li, f.file.info = some li → li.Words

/-- The loader writes where it may exactly for the files that it refuses and
those whose ranges fit. -/
theorem loadsSafely_iff {f : ProgramFile} (h : f.Words)
    (args : List (List UInt8)) :
    f.LoadsSafely args ↔ ∀ li, f.file.accepted args = some li →
      li.Fits args := by
  apply forall_congr'
  intro li
  apply imp_congr_right
  intro haccepted
  have hwords := h li (Executable.accepted_info haccepted)
  have hcomputed := layout_computed hwords args
  constructor
  · intro hsafe
    exact hsafe.fits hcomputed hwords.idEnd hwords.udEnd
  · intro hfits
    have hapart := hcomputed.rangesApart hfits
    constructor
    · intro pool
      exact (hapart.safe pool).1
    · intro pool
      exact (hapart.safe pool).2
    · rw [hcomputed.zeroed_iff _ hwords.idEnd hwords.udEnd]
      · exact hfits.zeroed
      · apply hfits.data.imp_right
        omega

theorem greetedFile_words : greetedFile.Words := by
  intro li hli
  cases hli
  constructor
  · decide
  · decide
  · decide
  · decide
  · decide

theorem loadsSafely_iff_greeting :
    greetedFile.LoadsSafely greetingArgs.strings ↔
      ∀ li, greetedFile.file.accepted greetingArgs.strings = some li →
        li.Fits greetingArgs.strings :=
  loadsSafely_iff greetedFile_words _

/-- The small program with 200 pages of text, below a page of data. -/
def longText : ProgramFile :=
  { greetedFile with
    file := { smallProgram with info := some { smallInfo with tNpg := 200 } } }

theorem long_text_leaves_table :
    ¬ ∀ (f : ProgramFile) (args : List (List UInt8)),
      f.Words → f.LoadsSafely args := by
  intro hall
  have hwords : longText.Words := by
    intro li hli
    cases hli
    constructor
    · decide
    · decide
    · decide
    · decide
    · decide
  have hsafe := hall longText [] hwords { smallInfo with tNpg := 200 }
    (by decide +kernel)
  have hmem : (128 : Int) ∈ mappedSubscripts
      (layout { smallInfo with tNpg := 200 } []) (List.replicate 256 1) := by
    decide +kernel
  have hinside := hsafe.inside _ _ hmem
  unfold userPtSize at hinside
  omega

end Yalnix
