import Yalnix.Memory.ArgumentBlock

/-!
# The page table of a loaded program

After a successful load of a well-formed image the page table is exactly the
image, and no frame has been lost or made.
-/

namespace Yalnix

open ByteMemory

/-- The page table, the pool and the memory after the load of `li`. -/
structure ExactImage (li : LoadInfo) (stackNpg : Nat) (x y : Space)
    (pool pool' : List Nat) (m' : Bytes) : Prop where
  valid : ∀ i < userPtSize, (y.table i).valid = true ↔
    InRange (addrPage li.tVaddr) li.tNpg i ∨
      InRange (addrPage li.idVaddr) (li.idNpg + li.udNpg) i ∨
      y.stackIndex ≤ i
  text : ∀ i, InRange (addrPage li.tVaddr) li.tNpg i →
    (y.table i).prot = Prot.xNoWR
  data : ∀ i, InRange (addrPage li.idVaddr) (li.idNpg + li.udNpg) i →
    (y.table i).prot = Prot.noXWR
  stack : ∀ i : Nat, y.stackIndex ≤ i → i < userPtSize →
    (y.table i).prot = Prot.noXWR
  distinct : (ownedFrames y.table).Nodup
  heapIndex : y.heapIndex = addrPage li.idVaddr + (li.idNpg + li.udNpg)
  stackIndex : y.stackIndex + stackNpg = userPtSize
  stackPages : 0 < stackNpg
  gap : y.heapIndex < y.stackIndex
  unmapped : ∀ i : Nat, y.heapIndex ≤ i → (i : Int) < y.stackIndex →
    (y.table i).valid = false
  zeroed : ∀ a, li.idEnd ≤ a → a < li.udEnd → m' a = 0
  frames : (ownedFrames y.table ++ pool').Perm (ownedFrames x.table ++ pool)

/-- The zeroed end of the data lies in the data pages. -/
structure LoadInfo.EndsInside (li : LoadInfo) : Prop where
  idEnd : addrPage li.idVaddr ≤ addrPage li.idEnd
  udEnd : (li.udEnd : Int) ≤
    (vmem1BasePage + addrPage li.idVaddr + (li.idNpg + li.udNpg)) * pageSize

/-! ## Protection -/

theorem protectText_pfn {first : Int} {count : Nat} {table : Nat → Pte}
    (i : Nat) : (protectText first count table i).pfn = (table i).pfn := by
  induction count generalizing first table with
  | zero => rfl
  | succ count ih =>
      rw [protectText, ih, upd_apply]
      split
      · rename_i heq
        rw [heq]
      · rfl

theorem protectText_prot {first : Int} {count i : Nat} {table : Nat → Pte}
    (hbase : 0 ≤ first) (hi : InRange first count i) :
    (protectText first count table i).prot = Prot.xNoWR := by
  induction count generalizing first table with
  | zero =>
      obtain ⟨hge, hlt⟩ := hi
      omega
  | succ count ih =>
      rw [protectText]
      obtain ⟨hge, hlt⟩ := hi
      by_cases heq : i = first.toNat
      · rw [protectText_outside (fun n _ => by omega), heq, upd_same]
      · apply ih (by omega)
        unfold InRange
        omega

theorem protectText_owned {first : Int} {count : Nat} {table : Nat → Pte} :
    ownedFrames (protectText first count table) = ownedFrames table := by
  apply ownedFrames_congr
  intro i _
  unfold Pte.frame
  rw [protectText_valid, protectText_pfn]

/-! ## The loops of a straight layout -/

/-- The segments of the image do not meet. -/
structure Layout.Apart (l : Layout) : Prop where
  textBase : 0 ≤ l.textPg1
  textBelow : l.textPg1 + l.textCount ≤ l.dataPg1
  dataBelow : l.dataPg1 + l.dataCount < l.stackIndex
  stackTop : l.stackIndex + l.stackCount = userPtSize

theorem Layout.Straight.apart {l : Layout} {li : LoadInfo}
    {args : List (List UInt8)} {sp : Nat} (h : l.Straight li)
    (hfits : l.BlockFits args sp) : l.Apart := by
  constructor
  · exact h.textBase
  · exact h.textBelow
  · rw [← h.heapIndex]
    exact hfits.gap
  · exact hfits.stackCount

namespace Image

variable {l : Layout} {table table' : Nat → Pte} {pool pool' : List Nat}

/-- Every frame is in the table or in the pool, as before. -/
theorem frames (h : Image l table table' pool pool') (hapart : l.Apart) :
    (ownedFrames table' ++ pool').Perm (ownedFrames table ++ pool) := by
  obtain ⟨t₀, t₁, t₂, q₀, q₁, q₂, hdiscarded, htext, hdata, hstack⟩ := h
  have htextBelow := hapart.textBelow
  have hdataBelow := hapart.dataBelow
  have hfree₁ : ∀ i, InRange l.textPg1 l.textCount i →
      (t₀ i).valid = false := by
    intro i hi
    exact hdiscarded.invalid i (htext.inTable hi)
  have hfree₂ : ∀ i, InRange l.dataPg1 l.dataCount i →
      (t₁ i).valid = false := by
    intro i hi
    rw [htext.outside i (by unfold InRange at *; omega)]
    exact hdiscarded.invalid i (hdata.inTable hi)
  have hfree₃ : ∀ i, InRange l.stackIndex l.stackCount i →
      (t₂ i).valid = false := by
    intro i hi
    rw [hdata.outside i (by unfold InRange at *; omega),
      htext.outside i (by unfold InRange at *; omega)]
    exact hdiscarded.invalid i (hstack.inTable hi)
  exact ((hstack.frames hfree₃).trans (hdata.frames hfree₂)).trans
    ((htext.frames hfree₁).trans hdiscarded.frames)

/-- Data and stack are readable and writable. -/
theorem prot (h : Image l table table' pool pool') (hapart : l.Apart) (i : Nat)
    (hi : InRange l.dataPg1 l.dataCount i ∨
      InRange l.stackIndex l.stackCount i) :
    (table' i).prot = Prot.noXWR := by
  obtain ⟨t₀, t₁, t₂, q₀, q₁, q₂, -, -, hdata, hstack⟩ := h
  rcases hi with hi | hi
  · have hdataBelow := hapart.dataBelow
    rw [hstack.outside i (by unfold InRange at *; omega)]
    exact (hdata.new i hi).2
  · exact (hstack.new i hi).2

end Image

/-! ## The load -/

variable {s s' : Kernel} {f : ProgramFile} {args : ArgVector} {p : PcbPtr}
  {argbuf m m' : Bytes} {li : LoadInfo} {l : Layout} {sp : Nat}

/-- The argument block is built above the zeroed end of the data. -/
theorem loadedMemory_zeroed (h : l.Straight li)
    (hfits : l.BlockFits args.strings sp) (hends : li.EndsInside)
    (hsize : argsSize args.strings = totalSize args.strings)
    (hterminated : Terminated args.strings) {a : Nat} (hge : li.idEnd ≤ a)
    (hlt : a < li.udEnd) :
    f.loadedMemory li args.strings argbuf m a = 0 := by
  have hlimit := hends.udEnd
  have hbelow : a < sp := by
    have hgap := hfits.gap
    rw [hfits.stackIndex, h.heapIndex, h.dataPg1, h.dataCount] at hgap
    unfold addrPage vmem1BasePage pageSize at *
    omega
  have hlength : (toUInt32 ((li.udEnd : Int) - li.idEnd)).toNat =
      li.udEnd - li.idEnd := by
    have hinside := h.dataInside
    rw [h.heapIndex, h.dataPg1, h.dataCount] at hinside
    rw [toUInt32_of_inside]
    · omega
    · omega
    · unfold userPtSize vmem1BasePage pageSize at *
      omega
  unfold ProgramFile.loadedMemory
  simp only [hlength]
  rw [(buildArgs_finished hfits hsize hterminated).below a hbelow]
  exact zero_inside hge (by omega)

theorem loaded_valid_iff (h : l.Straight li) (hapart : l.Apart) {y : Space}
    (hbuilt : y.Built l) {i : Nat} (hi : i < userPtSize) :
    (y.table i).valid = true ↔
      InRange (addrPage li.tVaddr) li.tNpg i ∨
        InRange (addrPage li.idVaddr) (li.idNpg + li.udNpg) i ∨
        y.stackIndex ≤ i := by
  have htop := hapart.stackTop
  rw [hbuilt.valid i hi, ← h.textPg1, ← h.textCount, ← h.dataPg1,
    ← h.dataCount, hbuilt.stackIndex]
  unfold Layout.Maps InRange
  omega

/-- No page between the break and the stack belongs to the image. -/
theorem loaded_unmapped (h : l.Straight li) (hapart : l.Apart) {y : Space}
    (hbuilt : y.Built l) {i : Nat} (hge : y.heapIndex ≤ i)
    (hlt : (i : Int) < y.stackIndex) : (y.table i).valid = false := by
  have htop := hapart.stackTop
  have hend := h.heapIndex
  have htext := hapart.textBelow
  rw [hbuilt.heapIndex] at hge
  rw [hbuilt.stackIndex] at hlt
  rw [Bool.eq_false_iff, Ne, hbuilt.valid i (by omega)]
  unfold Layout.Maps
  omega

/--
After a successful load the page table is exactly the image, the frames are
distinct and none is lost.
-/
theorem loaded_image_exact (h : LoadsProgram s f args p argbuf m s' m')
    (hwell : ∀ li, f.file.info = some li → li.WellFormed ∧ li.EndsInside)
    (hframes : (ownedFrames (s.space p).table ++ s.pfnList).Nodup) :
    ∃ li, f.file.info = some li ∧
      ExactImage li (layout li args.strings).stackCount (s.space p)
        (s'.space p) s.pfnList s'.pfnList m' := by
  obtain ⟨li, sp, haccepted, hstraight, hfits, hmemory⟩ :=
    h.layout fun li hli => (hwell li hli).1
  have hinfo := Executable.accepted_info haccepted
  have hapart := hstraight.apart hfits
  obtain ⟨li', table, haccepted', himage, hspace⟩ :=
    Kernel.loadProgram_image (by decide) h.returns
  rw [haccepted] at haccepted'
  cases haccepted'
  obtain ⟨li', haccepted', hbuilt⟩ :=
    Kernel.loadProgram_space (by decide) h.returns
  rw [haccepted] at haccepted'
  cases haccepted'
  rw [if_pos rfl] at hspace
  have htable : (s'.space p).table = protectText
      (layout li args.strings).textPg1 (layout li args.strings).textCount
        table := by
    rw [hspace]
  have hperm : (ownedFrames (s'.space p).table ++ s'.pfnList).Perm
      (ownedFrames (s.space p).table ++ s.pfnList) := by
    rw [htable, protectText_owned]
    exact himage.frames hapart
  have htextBelow := hapart.textBelow
  have hdataBelow := hapart.dataBelow
  have hprot (i : Nat) (hi : InRange (layout li args.strings).dataPg1
      (layout li args.strings).dataCount i ∨
        InRange (layout li args.strings).stackIndex
          (layout li args.strings).stackCount i) :
      ((s'.space p).table i).prot = Prot.noXWR := by
    rw [htable, protectText_outside]
    · exact himage.prot hapart i hi
    · intro n hn
      have hbase := hapart.textBase
      unfold InRange at hi
      omega
  refine ⟨li, hinfo, ?_⟩
  constructor
  · intro i hi
    exact loaded_valid_iff hstraight hapart hbuilt hi
  · intro i hi
    rw [← hstraight.textPg1, ← hstraight.textCount] at hi
    rw [htable]
    exact protectText_prot hapart.textBase hi
  · intro i hi
    rw [← hstraight.dataPg1, ← hstraight.dataCount] at hi
    exact hprot i (.inl hi)
  · intro i hge hlt
    have htop := hapart.stackTop
    rw [hbuilt.stackIndex] at hge
    apply hprot i
    right
    unfold InRange
    omega
  · have hnodup := hperm.nodup_iff.2 hframes
    exact (List.nodup_append.1 hnodup).1
  · rw [hbuilt.heapIndex, hstraight.heapIndex, hstraight.dataPg1,
      hstraight.dataCount]
    rfl
  · rw [hbuilt.stackIndex]
    exact hapart.stackTop
  · have htop := hapart.stackTop
    have hfirst := hfits.stackIndex
    have hbound := hfits.top
    unfold addrPage vmem1Limit userPtSize vmem1BasePage pageSize
      postArgvNullSpace at *
    omega
  · rw [hbuilt.heapIndex, hbuilt.stackIndex]
    exact hfits.gap
  · intro i hge hlt
    exact loaded_unmapped hstraight hapart hbuilt hge hlt
  · intro a hge hlt
    have hsize := argsSize_eq h.room
    have hregion0 := h.region0
    rw [hsize] at hregion0
    rw [hmemory]
    exact loadedMemory_zeroed hstraight hfits (hwell li hinfo).2 hsize
      (terminated_of_size (Int.ofNat_le.1 hregion0)) hge hlt
  · exact hperm

/-! The small program is loaded over its own image. -/

theorem greetedFile_fits : ∀ li, greetedFile.file.info = some li →
    li.WellFormed ∧ li.EndsInside := by
  intro li hli
  cases hli
  refine ⟨smallInfo_wellFormed, ?_, ?_⟩
  · decide
  · decide

theorem loaded_image_exact_greeting : ∃ (s' : Kernel) (li : LoadInfo),
    greetedFile.file.info = some li ∧
      ExactImage li (layout li greetingArgs.strings).stackCount
        (runningProgram.space 1) (s'.space 1) runningProgram.pfnList s'.pfnList
        (greetedFile.loadedMemory smallInfo greetingArgs.strings (fun _ => 0)
          fun _ => 0) := by
  obtain ⟨s', hloads⟩ := greeting_loads
  refine ⟨s', loaded_image_exact hloads greetedFile_fits ?_⟩
  decide +kernel

/-- The running program with its first frame mapped at its data page, too. -/
def sharedFrame : Kernel :=
  runningProgram.setUserPageTable 1 fun i =>
    if i = 1 then (runningProgram.space 1).table 0
    else (runningProgram.space 1).table i

/-- A frame that the old table maps twice is mapped twice by the new one. -/
theorem shared_frame_stays_shared :
    ¬ ∀ (s s' : Kernel) (f : ProgramFile) (args : ArgVector) (p : PcbPtr)
        (argbuf m m' : Bytes),
      LoadsProgram s f args p argbuf m s' m' →
      (∀ li, f.file.info = some li → li.WellFormed ∧ li.EndsInside) →
      s.pfnList.Nodup → 0 ∉ s.pfnList →
      (∀ q < s.npcb, (∀ i < userPtSize, (s.pcb.userPageTable q i).valid = true →
          (s.pcb.userPageTable q i).pfn ∉ s.pfnList) ∧
        ∀ i < kernelStackSize, (s.pcb.kernelStackPt q i).pfn ∉ s.pfnList) →
      (ownedFrames (s'.space p).table).Nodup := by
  intro hall
  have hload : (sharedFrame.loadProgram greetedFile.file greetingArgs.strings
      1).map (fun r => (r.1, decide (ownedFrames (r.2.space 1).table).Nodup)) =
        some (Rc.success, false) := by
    decide +kernel
  rcases hresult : sharedFrame.loadProgram greetedFile.file
    greetingArgs.strings 1 with _ | ⟨code, s'⟩
  · rw [hresult] at hload
    cases hload
  · rw [hresult] at hload
    obtain ⟨hcode, hshared⟩ := Prod.mk.inj (Option.some.inj hload)
    simp only at hcode hshared
    rw [hcode] at hresult
    have hloads : LoadsProgram sharedFrame greetedFile greetingArgs 1
        (fun _ => 0) (fun _ => 0) s' (greetedFile.loadedMemory smallInfo
          greetingArgs.strings (fun _ => 0) fun _ => 0) :=
      ⟨hresult, by decide, by decide, smallInfo, rfl, rfl⟩
    have hnodup := hall sharedFrame s' greetedFile greetingArgs 1 (fun _ => 0)
      (fun _ => 0) _ hloads greetedFile_fits (by decide +kernel)
      (by decide +kernel) (by decide +kernel)
    exact of_decide_eq_false hshared hnodup

end Yalnix
