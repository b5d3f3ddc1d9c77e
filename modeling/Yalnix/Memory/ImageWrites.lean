import Yalnix.Memory.ImageSafety

/-!
# Writing the image

When the text pages are protected `LoadProgram` zeroes the end of the data and
builds the argument block through the new page table.  Where these bytes lie is
up to the file and the arguments; the kernel can write them in pages of data and
stack that are no text pages.
-/

namespace Yalnix

/-- Page `i` is a page of data or stack and no page of text. -/
def Layout.PageWritable (l : Layout) (i : Nat) : Prop :=
  (InRange l.dataPg1 l.dataCount i ∨ InRange l.stackIndex l.stackCount i) ∧
    ¬ InRange l.textPg1 l.textCount i

instance (l : Layout) (i : Nat) : Decidable (l.PageWritable i) :=
  inferInstanceAs (Decidable ((_ ∧ _ ∨ _ ∧ _) ∧ ¬ (_ ∧ _)))

/-- The bytes that are zeroed and the argument block lie in pages that can be
written. -/
def Layout.WritesInside (l : Layout) : Prop :=
  ∀ r ∈ l.writes, r.length = 0 ∨
    (vmem1Base ≤ r.start ∧ r.start + r.length ≤ vmem1Limit) ∧
      ∀ i < userPtSize, r.Meets i → l.PageWritable i

instance (l : Layout) : Decidable l.WritesInside :=
  inferInstanceAs (Decidable (∀ _ ∈ _, _ ∨ _ ∧ ∀ _ < _, _ → _))

namespace Image

variable {l : Layout} {table table' : Nat → Pte} {pool pool' : List Nat}

/-- The pages of a complete image that can be written. -/
theorem writable_iff (h : Image l table table' pool pool') {i : Nat}
    (hi : i < userPtSize) :
    ((protectText l.textPg1 l.textCount table' i).valid = true ∧
        (protectText l.textPg1 l.textCount table' i).prot.testBit 1 = true) ↔
      l.PageWritable i := by
  obtain ⟨t₀, t₁, t₂, q₀, q₁, q₂, hdiscarded, htext, hdata, hstack⟩ := h
  by_cases hprotected : InRange l.textPg1 l.textCount i
  · have hbase : 0 ≤ l.textPg1 := by
      apply (htext.inside _).1
      unfold InRange at hprotected
      omega
    rw [protectText_prot hbase hprotected]
    apply iff_of_false
    · rintro ⟨-, hbit⟩
      cases hbit
    · exact fun h => h.2 hprotected
  · rw [protectText_outside]
    · have hnew {t : Nat → Pte} (h : (t i).valid = true ∧
          (t i).prot = Prot.noXWR) :
          (t i).valid = true ∧ (t i).prot.testBit 1 = true := by
        rw [h.2]
        exact ⟨h.1, rfl⟩
      unfold Layout.PageWritable
      by_cases hstackPage : InRange l.stackIndex l.stackCount i
      · exact iff_of_true (hnew (hstack.new i hstackPage))
          ⟨.inr hstackPage, hprotected⟩
      rw [hstack.outside i hstackPage]
      by_cases hdataPage : InRange l.dataPg1 l.dataCount i
      · exact iff_of_true (hnew (hdata.new i hdataPage))
          ⟨.inl hdataPage, hprotected⟩
      rw [hdata.outside i hdataPage, htext.outside i hprotected,
        hdiscarded.invalid i hi]
      apply iff_of_false
      · rintro ⟨hvalid, -⟩
        cases hvalid
      · rintro ⟨hin | hin, -⟩
        · exact hdataPage hin
        · exact hstackPage hin
    · intro n hn heq
      have hbase := htext.inside (by omega)
      unfold InRange at hprotected
      omega

/-- The kernel can write the image exactly when its layout says so. -/
theorem writes_iff (h : Image l table table' pool pool') :
    (∀ r ∈ l.writes,
        r.Writable (protectText l.textPg1 l.textCount table')) ↔
      l.WritesInside := by
  apply forall_congr'
  intro r
  apply imp_congr_right
  intro _
  apply or_congr_right
  apply and_congr_right
  intro _
  apply forall_congr'
  intro i
  apply imp_congr_right
  intro hi
  exact imp_congr_right fun _ => h.writable_iff hi

end Image

namespace Kernel

variable {s s₁ : Kernel} {p : PcbPtr}

theorem readImage_none_iff (file : Executable) (li : LoadInfo) (l : Layout) :
    s.readImage file li l p = none ↔
      (file.textReads = true ∧ file.dataReads = true) ∧
        ¬ ∀ r ∈ l.writes, r.Writable (protectText l.textPg1 l.textCount
          (s.pcb.userPageTable p)) := by
  have htable : (s.setUserPageTable p (protectText l.textPg1 l.textCount
      (s.pcb.userPageTable p))).pcb.userPageTable p =
        protectText l.textPg1 l.textCount (s.pcb.userPageTable p) :=
    upd_same _ _ _
  unfold readImage
  cases htext : file.textReads with
  | false => simp
  | true =>
      cases hdata : file.dataReads with
      | false => simp
      | true =>
          simp only [htable, Bool.not_true, Bool.false_eq_true, if_false]
          split
          · rename_i hwrites
            exact iff_of_false nofun fun h => h.2 hwrites
          · rename_i hwrites
            exact iff_of_true rfl ⟨⟨trivial, trivial⟩, hwrites⟩

/-- A load goes wrong when its loops leave the page table, or when it reads both
segments and cannot write the rest of the image. -/
theorem loadImage_none_iff (file : Executable) (li : LoadInfo) (l : Layout) :
    s.loadImage file li l p = none ↔
      s.buildImage l p = none ∨
        (∃ s₁, s.buildImage l p = some (true, s₁)) ∧
          (file.textReads = true ∧ file.dataReads = true) ∧
            ¬ l.WritesInside := by
  rw [loadImage_eq]
  rcases hbuild : s.buildImage l p with _ | ⟨_ | _, s₁⟩
  · exact iff_of_true rfl (.inl rfl)
  · apply iff_of_false
    · exact nofun
    · rintro (hnone | ⟨⟨s₂, hbuilt⟩, -⟩)
      · cases hnone
      · cases hbuilt
  · have hwrites := (buildImage_image hbuild).1.writes_iff
    change (∀ r ∈ l.writes, r.Writable (protectText l.textPg1 l.textCount
      (s₁.pcb.userPageTable p))) ↔ _ at hwrites
    simp only
    rw [readImage_none_iff, hwrites]
    constructor
    · exact fun h => .inr ⟨⟨s₁, rfl⟩, h⟩
    · rintro (hnone | ⟨-, h⟩)
      · cases hnone
      · exact h

end Kernel

/-! ## Files whose ranges fit -/

/-- Where the argument block of arguments that fit in Region 1 begins. -/
structure BlockPlaced (args : List (List UInt8)) (sp : Nat) : Prop where
  pointer : stackPointer args = sp
  base : vmem1Base ≤ sp
  words : sp + (args.length + 3) * 4 ≤ vmem1Limit
  strings : sp ≤ vmem1Limit - totalSize args ∧ totalSize args ≤ vmem1Limit
  size : argsSize args = totalSize args
  pages : vmem1Limit ≤ sp + blockPages args * pageSize
  some : blockPages args ≠ 0

theorem blockPlaced {args : List (List UInt8)}
    (hblock : blockBytes args ≤ vmem1Limit - vmem1Base) :
    ∃ sp, BlockPlaced args sp := by
  have hbytes : blockBytes args = totalSize args +
      (args.length + 3 + postArgvNullSpace) * 4 := rfl
  have hsize : argsSize args = totalSize args := by
    unfold argsSize
    rw [sum_sizes]
    unfold toInt32 vmem1Limit vmem1Base at *
    omega
  have hpages : blockPages args =
      (blockBytes args + (pageSize - 1)) / pageSize := by
    unfold blockPages vmem1Limit vmem1Base pageSize at *
    omega
  obtain ⟨low, hlow⟩ : ∃ low, low + blockBytes args = vmem1Limit :=
    ⟨vmem1Limit - blockBytes args, by unfold vmem1Limit vmem1Base at *; omega⟩
  have hbase : vmem1Base ≤ low := by
    unfold vmem1Limit vmem1Base at *
    omega
  have hpointer : stackPointer args = ((low - low % 8 : Nat) : Int) := by
    have hdiff : (vmem1Limit : Int) - blockBytes args = low := by omega
    rw [stackPointer_wraps, hdiff, toUInt32_of_inside (by omega)
      (by unfold vmem1Limit at hlow; omega)]
    omega
  unfold postArgvNullSpace at hbytes
  refine ⟨low - low % 8, hpointer, ?_, ?_, ?_, hsize, ?_, ?_⟩
  · unfold vmem1Base at *
    omega
  · omega
  · omega
  · rw [hpages]
    unfold vmem1Limit pageSize at *
    omega
  · rw [hpages]
    unfold pageSize
    omega

/-- The bytes of the range are in pages that can be written. -/
def Layout.Holds (l : Layout) (r : ByteRange) : Prop :=
  (vmem1Base ≤ r.start ∧ r.start + r.length ≤ vmem1Limit) ∧
    ∀ i < userPtSize, r.Meets i → l.PageWritable i

/-- A range of Region 1 between the first and the last page of a segment. -/
theorem Layout.holds_of_segment {l : Layout} {start length : Nat} (first : Int)
    (count : Nat) (hpages : ∀ i, InRange first count i → l.PageWritable i)
    (hregion : vmem1Base ≤ start ∧ start + length ≤ vmem1Limit)
    (hlow : (vmem1Base : Int) + first * pageSize ≤ start)
    (hhigh : ((start + length : Nat) : Int) ≤
      vmem1Base + (first + count) * pageSize) : l.Holds ⟨start, length⟩ := by
  refine ⟨hregion, ?_⟩
  rintro i - ⟨hstart, hend⟩
  simp only at hstart hend
  apply hpages
  unfold InRange
  unfold vmem1Base pageSize at *
  omega

/-- A range inside the argument block is in stack pages. -/
theorem BlockPlaced.holds {li : LoadInfo} {args : List (List UInt8)} {sp : Nat}
    (h : BlockPlaced args sp)
    (hcomputed : (layout li args).Computed li args)
    (hapart : (layout li args).RangesApart) {start length : Nat}
    (hlow : sp ≤ start) (hhigh : start + length ≤ vmem1Limit) :
    (layout li args).Holds ⟨start, length⟩ := by
  have hbase := h.base
  have hpages := h.pages
  have hcount := hcomputed.stackCount
  have hindex := hcomputed.stackIndex h.some
  apply Layout.holds_of_segment (layout li args).stackIndex
    (layout li args).stackCount
  · exact fun i hi => ⟨.inr hi, fun htext => hapart.textStack i htext hi⟩
  · exact ⟨hbase.trans hlow, hhigh⟩
  · rw [hindex]
    unfold vmem1Limit vmem1Base pageSize userPtSize at *
    omega
  · rw [hindex, hcount]
    unfold vmem1Limit vmem1Base pageSize userPtSize at *
    omega

/-- The range that is zeroed is empty or in data pages. -/
theorem LoadInfo.Fits.zeroed_inside {li : LoadInfo} {args : List (List UInt8)}
    (h : li.Fits args) (hwords : li.Words)
    (hcomputed : (layout li args).Computed li args)
    (hapart : (layout li args).RangesApart) :
    (toUInt32 ((li.udEnd : Int) - li.idEnd)).toNat = 0 ∨
      (layout li args).Holds
        ⟨li.idEnd, (toUInt32 ((li.udEnd : Int) - li.idEnd)).toNat⟩ := by
  rcases h.zeroed with hnone | ⟨hfull, horder, hlow, hhigh⟩
  · left
    unfold toUInt32
    omega
  · right
    have hbelow := h.data.resolve_left hfull
    have hindex := hcomputed.dataPg1
    have hcount := hcomputed.dataCount hfull
    have hlength : (toUInt32 ((li.udEnd : Int) - li.idEnd)).toNat =
        li.udEnd - li.idEnd := by
      have htop := hwords.udEnd
      unfold toUInt32
      omega
    rw [hlength]
    apply Layout.holds_of_segment (layout li args).dataPg1
      (layout li args).dataCount
    · exact fun i hi => ⟨.inl hi, fun htext => hapart.textData i htext hi⟩
    · unfold vmem1BasePage vmem1Limit vmem1Base pageSize userPtSize at *
      omega
    · rw [hindex]
      unfold vmem1BasePage vmem1Base pageSize at *
      omega
    · rw [hindex, hcount]
      unfold vmem1BasePage vmem1Base pageSize at *
      omega

/-- A file whose ranges fit is written where it may be. -/
theorem LoadInfo.Fits.writesInside {li : LoadInfo} {args : List (List UInt8)}
    (h : li.Fits args) (hwords : li.Words)
    (hblock : blockBytes args ≤ vmem1Limit - vmem1Base) :
    (layout li args).WritesInside := by
  have hcomputed := layout_computed hwords args
  have hapart := hcomputed.rangesApart h
  obtain ⟨sp, hplaced⟩ := blockPlaced hblock
  have hstrings := hplaced.strings
  have hsp : (stackPointer args).toNat = sp := by
    rw [hplaced.pointer]
    exact Int.toNat_natCast sp
  have hcp : (toUInt32 ((vmem1Limit : Int) - argsSize args)).toNat =
      vmem1Limit - totalSize args := by
    rw [hplaced.size, toUInt32_of_inside]
    · omega
    · omega
    · unfold vmem1Limit
      omega
  have hlength : sp + (toUInt32 ((vmem1Limit : Int) - sp)).toNat ≤
      vmem1Limit := by
    rw [toUInt32_of_inside]
    · omega
    · omega
    · unfold vmem1Limit
      omega
  have hend : vmem1Limit - totalSize args + totalSize args ≤ vmem1Limit := by
    omega
  have hwrites : (layout li args).writes = imageWrites li args := rfl
  unfold Layout.WritesInside
  rw [hwrites]
  unfold imageWrites
  simp only [hsp, hcp, List.mem_cons, List.not_mem_nil, or_false,
    forall_eq_or_imp, forall_eq]
  refine ⟨?_, .inr ?_, .inr ?_, .inr ?_⟩
  · exact h.zeroed_inside hwords hcomputed hapart
  · exact hplaced.holds hcomputed hapart (Nat.le_refl _) hlength
  · exact hplaced.holds hcomputed hapart (Nat.le_refl _) hplaced.words
  · exact hplaced.holds hcomputed hapart hstrings.1 hend

/-- It is loaded, or the call fails. -/
theorem LoadInfo.Fits.loads {li : LoadInfo} {args : List (List UInt8)}
    (h : li.Fits args) (hwords : li.Words)
    (hblock : blockBytes args ≤ vmem1Limit - vmem1Base) (s : Kernel)
    (file : Executable) (p : PcbPtr) :
    s.loadImage file li (layout li args) p ≠ none := by
  rw [Ne, Kernel.loadImage_none_iff, Kernel.buildImage_none_iff]
  rintro (⟨i, hi, hout⟩ | ⟨-, -, hwrites⟩)
  · have hapart := (layout_computed hwords args).rangesApart h
    exact hout ((hapart.safe _).1 i hi)
  · exact hwrites (h.writesInside hwords hblock)

end Yalnix
