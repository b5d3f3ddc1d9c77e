import Yalnix.Kernel.ProgramMemory
import Yalnix.Memory.ImageTables
import Yalnix.Memory.UserBreak

/-!
# Layouts without wrap-around

The page numbers and the stack pointer that `LoadProgram` computes, for images
whose segments lie in Region 1 and arguments that it accepts.
-/

namespace Yalnix

/-- The text pages lie below the data pages, inside Region 1. -/
structure LoadInfo.WellFormed (li : LoadInfo) : Prop where
  text : vmem1Base ≤ li.tVaddr
  below : addrPage li.tVaddr + li.tNpg ≤ addrPage li.idVaddr
  data : addrPage li.idVaddr + (li.idNpg + li.udNpg) ≤ userPtSize

/-- The layout of a well-formed image, as its fields say. -/
structure Layout.Straight (l : Layout) (li : LoadInfo) : Prop where
  textPg1 : l.textPg1 = addrPage li.tVaddr
  textCount : l.textCount = li.tNpg
  dataPg1 : l.dataPg1 = addrPage li.idVaddr
  dataCount : l.dataCount = li.idNpg + li.udNpg
  heapIndex : l.heapIndex = l.dataPg1 + l.dataCount
  textBase : 0 ≤ l.textPg1
  textBelow : l.textPg1 + l.textCount ≤ l.dataPg1
  dataInside : l.heapIndex ≤ userPtSize
  total : l.total = userPtSize - l.stackIndex + l.heapIndex

/-- The page number of an address of Region 1 that `LoadProgram` computes. -/
theorem layoutPage_eq {addr : Nat} (hbase : 0 ≤ addrPage addr)
    (htop : addrPage addr ≤ userPtSize) :
    toUInt32 ((addr : Int) - vmem1Base) / pageSize = addrPage addr := by
  unfold addrPage toUInt32 vmem1Base pageSize vmem1BasePage userPtSize at *
  omega

theorem toUInt32_of_inside {x : Int} (hbase : 0 ≤ x) (htop : x < 2 ^ 32) :
    toUInt32 x = x := by
  unfold toUInt32
  omega

theorem toInt32_of_inside {x : Int} (hbase : -(2 ^ 31) ≤ x)
    (htop : x < 2 ^ 31) : toInt32 x = x := by
  unfold toInt32
  omega

theorem LoadInfo.WellFormed.straight {li : LoadInfo} (h : li.WellFormed)
    (args : List (List UInt8)) : (layout li args).Straight li := by
  obtain ⟨htext, hbelow, hdata⟩ := h
  have hbase : 0 ≤ addrPage li.tVaddr := by
    unfold addrPage pageSize vmem1BasePage vmem1Base at *
    omega
  unfold userPtSize at hdata
  have htextPg := layoutPage_eq hbase (by unfold userPtSize; omega)
  have hdataPg : toUInt32 ((li.idVaddr : Int) - vmem1Base) / pageSize =
      addrPage li.idVaddr :=
    layoutPage_eq (by omega) (by unfold userPtSize; omega)
  have hnpg := toInt32_of_inside (x := (li.idNpg : Int) + li.udNpg) (by omega)
    (by omega)
  have htextEnd := toUInt32_of_inside (x := addrPage li.tVaddr + li.tNpg)
    (by omega) (by omega)
  have hdataEnd := toInt32_of_inside
    (x := addrPage li.idVaddr + ((li.idNpg : Int) + li.udNpg)) (by omega)
    (by omega)
  have hstack := toInt32_pages ((vmem1Limit : Int) -
    downToPage (toInt32 (stackPointer args)))
  unfold layout
  simp only [htextPg, hdataPg, hnpg, htextEnd, hdataEnd]
  generalize toInt32 ((vmem1Limit : Int) -
    downToPage (toInt32 (stackPointer args))) / pageSize = stackNpg at *
  have hsum := toInt32_of_inside (x := stackNpg + addrPage li.idVaddr)
    (by omega) (by omega)
  have htotal := toInt32_of_inside (x := stackNpg + addrPage li.idVaddr +
    ((li.idNpg : Int) + li.udNpg)) (by omega) (by omega)
  simp only [hsum, htotal]
  constructor
  · rfl
  · simp only
    omega
  · rfl
  · simp only
    omega
  · simp only
    omega
  · exact hbase
  · simp only
    omega
  · simp only
    unfold userPtSize
    omega
  · simp only
    omega

/-! ## Arguments -/

theorem sum_sizes (args : List (List UInt8)) :
    (args.map fun arg => ((arg.length + 1 : Nat) : Int)).sum =
      (totalSize args : Int) := by
  unfold totalSize
  induction args with
  | nil => rfl
  | cons arg args ih =>
      rw [List.map_cons, List.sum_cons, ih, List.map_cons, List.sum_cons]
      omega

theorem argsSize_eq {args : List (List UInt8)}
    (hroom : (totalSize args : Int) ≤ argsSize args) :
    argsSize args = totalSize args := by
  unfold argsSize at *
  rw [sum_sizes] at *
  unfold toInt32 at *
  omega

/-- The bytes of the argument block. -/
def blockBytes (args : List (List UInt8)) : Nat :=
  totalSize args + (args.length + 3 + postArgvNullSpace) * 4

theorem stackPointer_wraps (args : List (List UInt8)) :
    stackPointer args = toUInt32 ((vmem1Limit : Int) - blockBytes args) -
      toUInt32 ((vmem1Limit : Int) - blockBytes args) % 8 := by
  have hsize : argsSize args = toInt32 (totalSize args) := by
    unfold argsSize
    rw [sum_sizes]
  have hbelow : toUInt32 (toUInt32 ((vmem1Limit : Int) - argsSize args) -
      ((args.length : Int) + 3 + postArgvNullSpace) * 4) =
        toUInt32 ((vmem1Limit : Int) - blockBytes args) := by
    rw [hsize]
    unfold blockBytes toUInt32 toInt32
    omega
  unfold stackPointer
  simp only [hbelow]

/-- The page count of the stack above a block of `n` bytes. -/
theorem stackNpg_wraps (n : Nat) :
    toInt32 ((vmem1Limit : Int) - downToPage (toInt32
      (toUInt32 ((vmem1Limit : Int) - n) -
        toUInt32 ((vmem1Limit : Int) - n) % 8))) / pageSize =
      (((n : Int) + (pageSize - 1)) / pageSize + 2 ^ 18) % 2 ^ 19 - 2 ^ 18 := by
  unfold toUInt32 toInt32 downToPage vmem1Limit pageSize
  omega

/-- Where the argument block lies, without wrap-around. -/
structure Layout.BlockFits (l : Layout) (args : List (List UInt8)) (sp : Nat) :
    Prop where
  stored : l.sp = sp
  pointer : stackPointer args = sp
  aligned : sp % 8 = 0
  base : vmem1Base < sp
  top : sp + (args.length + 3 + postArgvNullSpace) * 4 + totalSize args ≤
    vmem1Limit
  stackIndex : l.stackIndex = addrPage sp
  stackCount : l.stackIndex + l.stackCount = userPtSize
  gap : l.heapIndex < l.stackIndex

theorem blockFits {li : LoadInfo} {args : List (List UInt8)}
    (h : (layout li args).Straight li)
    (htotal : (layout li args).total < userPtSize)
    (hroom : (totalSize args : Int) ≤ argsSize args)
    (hregion0 : argsSize args ≤ vmem1Base)
    (hvector : (args.length + 1) * 4 ≤ vmem1Limit - vmem1Base) :
    ∃ sp, (layout li args).BlockFits args sp := by
  have hheap : 0 ≤ (layout li args).heapIndex := by
    have hbase := h.textBase
    have hbelow := h.textBelow
    have hend := h.heapIndex
    omega
  have hcheck := h.total
  have hstored : (layout li args).sp = stackPointer args := rfl
  have hnpg : (layout li args).stackIndex = userPtSize -
      toInt32 ((vmem1Limit : Int) -
        downToPage (toInt32 (stackPointer args))) / pageSize := rfl
  have hcount : (layout li args).stackCount = (toInt32 ((vmem1Limit : Int) -
    downToPage (toInt32 (stackPointer args))) / pageSize).toNat := rfl
  rw [stackPointer_wraps, stackNpg_wraps] at hnpg hcount
  rw [argsSize_eq hroom] at hregion0
  have hblock : blockBytes args = totalSize args +
      (args.length + 3 + postArgvNullSpace) * 4 := rfl
  have hpointer := stackPointer_wraps args
  unfold vmem1Base vmem1Limit at hvector
  unfold vmem1Base at hregion0
  unfold postArgvNullSpace at hblock
  have hpages : (((blockBytes args : Int) + (pageSize - 1)) / pageSize +
      2 ^ 18) % 2 ^ 19 - 2 ^ 18 =
        ((blockBytes args : Int) + (pageSize - 1)) / pageSize := by
    unfold pageSize
    omega
  rw [hpages] at hnpg hcount
  have hpos : 0 ≤ ((blockBytes args : Int) + (pageSize - 1)) / pageSize := by
    unfold pageSize
    omega
  have hinside : blockBytes args + pageSize ≤ vmem1Limit - vmem1Base := by
    unfold vmem1Limit vmem1Base userPtSize pageSize at *
    omega
  rw [toUInt32_of_inside (by omega) (by unfold vmem1Limit; omega)] at hpointer
  generalize hlow : (vmem1Limit : Int) - blockBytes args = low at *
  have hsp : low - low % 8 = ((low - low % 8).toNat : Int) := by omega
  refine ⟨(low - low % 8).toNat, ?_, ?_, ?_, ?_, ?_, ?_, ?_, ?_⟩
  · omega
  · omega
  · omega
  · unfold vmem1Limit vmem1Base pageSize at *
    omega
  · unfold vmem1Limit postArgvNullSpace at *
    omega
  · unfold addrPage userPtSize vmem1BasePage vmem1Limit vmem1Base pageSize at *
    omega
  · rw [hnpg, hcount, Int.toNat_of_nonneg hpos]
    exact Int.sub_add_cancel _ _
  · omega

end Yalnix
