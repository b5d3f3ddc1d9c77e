import Yalnix.Kernel.Process

/-!
# Loading a program

`LoadProgram` of `load_program.c`: the layout it computes from the file and the
arguments, and the page tables it builds.  Opening the file, `LoadInfo` and the
two reads are outside the kernel; what they report is given.  The zeroed end of
the data and the argument block are written through the new page table, so they
need pages that can be written.
-/

namespace Yalnix

/-- The fields of `struct load_info` that the loader uses, as 32-bit values. -/
structure LoadInfo where
  entry : Nat
  tVaddr : Nat
  tNpg : Nat
  idVaddr : Nat
  idNpg : Nat
  udNpg : Nat
  idEnd : Nat
  udEnd : Nat
  deriving DecidableEq, Repr

/-- What `open`, `LoadInfo` and the two `read`s report about a file. -/
structure Executable where
  opens : Bool
  info : Option LoadInfo
  textReads : Bool
  dataReads : Bool
  deriving DecidableEq, Repr

/-- `length` bytes from the address `start` on. -/
structure ByteRange where
  start : Nat
  length : Nat
  deriving DecidableEq, Repr

/-- The page numbers and counts that `LoadProgram` computes. -/
structure Layout where
  textPg1 : Int
  textCount : Nat
  dataPg1 : Int
  dataCount : Nat
  /-- The `int` that is compared with `MAX_PT_LEN`. -/
  total : Int
  heapIndex : Int
  stackIndex : Int
  stackCount : Nat
  sp : Int
  /-- What is written when the text can no longer be. -/
  writes : List ByteRange
  deriving DecidableEq, Repr

/-- The bytes of the strings and their terminators. -/
def totalSize (args : List (List UInt8)) : Nat :=
  (args.map fun arg => arg.length + 1).sum

/-- `sum of strlen + 1` over the argument strings. -/
def argsSize (args : List (List UInt8)) : Int :=
  toInt32 ((args.map fun arg => ((arg.length + 1 : Nat) : Int)).sum)

/-- The stack pointer below the argument block, as an `unsigned int`. -/
def stackPointer (args : List (List UInt8)) : Int :=
  let cp := toUInt32 ((vmem1Limit : Int) - argsSize args)
  let below := toUInt32
    (cp - ((args.length : Int) + 3 + postArgvNullSpace) * 4)
  below - below % 8

/-- The ranges of `bzero` and `memset`, the words from `argc` to the NULL for
`envp`, and the strings. -/
def imageWrites (li : LoadInfo) (args : List (List UInt8)) : List ByteRange :=
  let cp := (toUInt32 ((vmem1Limit : Int) - argsSize args)).toNat
  let cpp := (stackPointer args).toNat
  [⟨li.idEnd, (toUInt32 ((li.udEnd : Int) - li.idEnd)).toNat⟩,
    ⟨cpp, (toUInt32 ((vmem1Limit : Int) - cpp)).toNat⟩,
    ⟨cpp, (args.length + 3) * 4⟩,
    ⟨cp, totalSize args⟩]

def layout (li : LoadInfo) (args : List (List UInt8)) : Layout :=
  let textPg1 := toUInt32 ((li.tVaddr : Int) - vmem1Base) / pageSize
  let textEnd := toUInt32 (textPg1 + li.tNpg)
  let dataPg1 := toUInt32 ((li.idVaddr : Int) - vmem1Base) / pageSize
  let dataNpg := toInt32 ((li.idNpg : Int) + li.udNpg)
  let dataEnd := toInt32 (dataPg1 + dataNpg)
  let cp2 := toInt32 (stackPointer args)
  let stackNpg := toInt32 ((vmem1Limit : Int) - downToPage cp2) / pageSize
  { textPg1 := textPg1
    textCount := (textEnd - textPg1).toNat
    dataPg1 := dataPg1
    dataCount := (dataEnd - dataPg1).toNat
    total := toInt32 (toInt32 (stackNpg + dataPg1) + dataNpg)
    heapIndex := dataEnd
    stackIndex := (userPtSize : Int) - stackNpg
    stackCount := stackNpg.toNat
    sp := stackPointer args
    writes := imageWrites li args }

/-- The fields of a file that passes the checks of `LoadProgram`. -/
def Executable.accepted (file : Executable) (args : List (List UInt8)) :
    Option LoadInfo :=
  if !file.opens then none
  else
    match file.info with
    | none => none
    | some li =>
        if li.entry < vmem1Base then none
        else if (userPtSize : Int) ≤ (layout li args).total then none
        else some li

/-- Page `i` of Region 1 has a byte of the range. -/
def ByteRange.Meets (r : ByteRange) (i : Nat) : Prop :=
  r.start < vmem1Base + (i + 1) * pageSize ∧
    vmem1Base + i * pageSize < r.start + r.length

instance (r : ByteRange) (i : Nat) : Decidable (r.Meets i) :=
  inferInstanceAs (Decidable (_ ∧ _))

/-- The range is in Region 1, and its pages are mapped and not protected from
writing: the kernel writes it without a trap. -/
def ByteRange.Writable (r : ByteRange) (table : Nat → Pte) : Prop :=
  r.length = 0 ∨
    (vmem1Base ≤ r.start ∧ r.start + r.length ≤ vmem1Limit) ∧
      ∀ i < userPtSize, r.Meets i →
        (table i).valid = true ∧ (table i).prot.testBit 1 = true

instance (r : ByteRange) (table : Nat → Pte) : Decidable (r.Writable table) :=
  inferInstanceAs (Decidable (_ ∨ _ ∧ ∀ _ < _, _ → _))

namespace Kernel

/--
One allocation loop on the page table of `p`.  When the pool runs out
`free_addr_space` is called on the half-built tables and the flag is false;
`none` is a subscript outside the table.
-/
def loadSegment (s : Kernel) (p : PcbPtr) (first : Int) (count : Nat) :
    Option (Bool × Kernel) :=
  match mapPages first count (s.pcb.userPageTable p) s.pfnList with
  | .outOfTable => none
  | .done table pool =>
      some (true, (s.setUserPageTable p table).setPfnList pool)
  | .noFrame table pool =>
      some (false, (s.setUserPageTable p table).setPfnList
        (freeAddrSpace table (s.pcb.kernelStackPt p) pool))

/-- The end of `LoadProgram`: the reads, the protection of the text pages, the
entry point and the writes to the new image, or `none` when one of them traps. -/
def readImage (s : Kernel) (file : Executable) (li : LoadInfo) (l : Layout)
    (p : PcbPtr) : Option (Int × Kernel) :=
  if !file.textReads then some (Rc.kill, s)
  else if !file.dataReads then some (Rc.kill, s)
  else
    let s := s.setUserPageTable p
      (protectText l.textPg1 l.textCount (s.pcb.userPageTable p))
    if ∀ r ∈ l.writes, r.Writable (s.pcb.userPageTable p) then
      some (Rc.success,
        s.setUserContext p { s.pcb.userContext p with pc := li.entry })
    else none

/-- The stack pointer is stored and the old Region 1 thrown away. -/
def discardImage (s : Kernel) (l : Layout) (p : PcbPtr) : Kernel :=
  let s := s.setUserContext p { s.pcb.userContext p with sp := l.sp }
  let old := discardRegion1 (List.range userPtSize)
    (s.pcb.userPageTable p) s.pfnList
  ((s.setPtbr1 p).setUserPageTable p old.1).setPfnList old.2

/-- Everything of `LoadProgram` after its checks, for a given layout. -/
def loadImage (s : Kernel) (file : Executable) (li : LoadInfo) (l : Layout)
    (p : PcbPtr) : Option (Int × Kernel) :=
  let s := (s.discardImage l p).setTextIndex p l.textPg1
  match s.loadSegment p l.textPg1 l.textCount with
  | none => none
  | some (false, s) => some (Rc.error, s)
  | some (true, s) =>
      let s := s.setDataIndex p l.dataPg1
      match s.loadSegment p l.dataPg1 l.dataCount with
      | none => none
      | some (false, s) => some (Rc.error, s)
      | some (true, s) =>
          let s := (s.setHeapIndex p l.heapIndex).setStackIndex p l.stackIndex
          match s.loadSegment p l.stackIndex l.stackCount with
          | none => none
          | some (false, s) => some (Rc.error, s)
          | some (true, s) => s.readImage file li l p

/-- `LoadProgram`: the result code and the state, or `none` when a page table
subscript leaves the table or the kernel traps on a write to the image. -/
def loadProgram (s : Kernel) (file : Executable) (args : List (List UInt8))
    (p : PcbPtr) : Option (Int × Kernel) :=
  if !file.opens then some (Rc.error, s)
  else
    match file.info with
    | none => some (Rc.error, s)
    | some li =>
        if li.entry < vmem1Base then some (Rc.error, s)
        else if (userPtSize : Int) ≤ (layout li args).total then
          some (Rc.error, s)
        else s.loadImage file li (layout li args) p

/-- How a load ends that has frames for its image. -/
theorem readImage_cases {s s' : Kernel} {file : Executable} {li : LoadInfo}
    {l : Layout} {p : PcbPtr} {code : Int}
    (h : s.readImage file li l p = some (code, s')) :
    (code = Rc.kill ∧ s' = s ∧
        ¬ (file.textReads = true ∧ file.dataReads = true)) ∨
      code = Rc.success ∧ (file.textReads = true ∧ file.dataReads = true) ∧
        s' = (s.setUserPageTable p (protectText l.textPg1 l.textCount
            (s.pcb.userPageTable p))).setUserContext p
          { s.pcb.userContext p with pc := li.entry } := by
  unfold readImage at h
  cases htext : file.textReads with
  | false =>
      left
      rw [htext] at h
      cases h
      exact ⟨rfl, rfl, by simp⟩
  | true =>
      rw [htext] at h
      cases hdata : file.dataReads with
      | false =>
          left
          rw [hdata] at h
          cases h
          exact ⟨rfl, rfl, by simp⟩
      | true =>
          right
          rw [hdata] at h
          simp only [Bool.not_true, Bool.false_eq_true, if_false] at h
          split at h
          · cases h
            exact ⟨rfl, ⟨rfl, rfl⟩, rfl⟩
          · cases h

end Kernel

end Yalnix
