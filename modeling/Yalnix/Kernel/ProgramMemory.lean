import Yalnix.Foundation.ByteMemory
import Yalnix.Kernel.LoadProgram

/-!
# The memory of a loaded program

What `LoadProgram` writes to user memory: the two segments it reads, the zeroed
end of the data and the argument block on the new stack.  Memory is given by
the byte at each virtual address.  The arguments are saved in `argbuf` before
Region 1 is thrown away and copied to the stack from there.
-/

namespace Yalnix

open ByteMemory

/-- A file with the bytes that the two reads yield. -/
structure ProgramFile where
  file : Executable
  text : Bytes
  data : Bytes

/-- `strlen`; no string is longer than virtual memory. -/
def strlen (m : Bytes) (s : Nat) : Nat := stringLength m s vmem1Limit

/-- `strcpy` from another memory. -/
def strcpy (m : Bytes) (dst : Nat) (m' : Bytes) (src : Nat) : Bytes :=
  write m dst (read m' src (strlen m' src + 1))

/-- The loop that saves the arguments, with `cp2` as it moves along. -/
def saveArgs : List (List UInt8) → Bytes → Nat → Bytes
  | [], argbuf, _ => argbuf
  | arg :: rest, argbuf, cp2 =>
      let argbuf := write argbuf cp2 (arg ++ [0])
      saveArgs rest argbuf (cp2 + strlen argbuf cp2 + 1)

/-- The loop that builds the argument list; it returns the memory and `cpp`. -/
def copyArgs (argbuf : Bytes) :
    Nat → Bytes → Nat → Nat → Nat → Bytes × Nat
  | 0, m, cpp, _, _ => (m, cpp)
  | count + 1, m, cpp, cp, cp2 =>
      let m := storeWord m cpp cp
      let m := strcpy m cp argbuf cp2
      copyArgs argbuf count m (cpp + 4) (cp + strlen m cp + 1)
        (cp2 + strlen argbuf cp2 + 1)

/-- The end of `LoadProgram`, from its `memset` on. -/
def buildArgs (args : List (List UInt8)) (argbuf m : Bytes) : Bytes :=
  let saved := saveArgs args argbuf 0
  let cp := (toUInt32 ((vmem1Limit : Int) - argsSize args)).toNat
  let cpp := (stackPointer args).toNat
  let m := zero m cpp (toUInt32 ((vmem1Limit : Int) - cpp)).toNat
  let m := storeWord m cpp args.length
  let built := copyArgs saved args.length m (cpp + 4) cp 0
  storeWord (storeWord built.1 built.2 0) (built.2 + 4) 0

/-- `segment_size`. -/
def segmentSize (npg : Nat) : Nat :=
  (toUInt32 ((npg : Int) * 2 ^ pageShift)).toNat

/-- User memory after a load that succeeds. -/
def ProgramFile.loadedMemory (f : ProgramFile) (li : LoadInfo)
    (args : List (List UInt8)) (argbuf m : Bytes) : Bytes :=
  let m := write m li.tVaddr (read f.text 0 (segmentSize li.tNpg))
  let m := write m li.idVaddr (read f.data 0 (segmentSize li.idNpg))
  let m := zero m li.idEnd (toUInt32 ((li.udEnd : Int) - li.idEnd)).toNat
  buildArgs args argbuf m

/-- A NULL-terminated vector of strings.  Its pointers lie in one region. -/
structure ArgVector where
  strings : List (List UInt8)
  terminated : ∀ arg ∈ strings, 0 ∉ arg
  inRegion : (strings.length + 1) * 4 ≤ vmem1Limit - vmem1Base

/--
`LoadProgram` returns `SUCCESS`: with the state and the memory before and
after.  `malloc` has found `argbuf` in Region 0, with room for the strings.
-/
structure LoadsProgram (s : Kernel) (f : ProgramFile) (args : ArgVector)
    (p : PcbPtr) (argbuf m : Bytes) (s' : Kernel) (m' : Bytes) : Prop where
  returns : s.loadProgram f.file args.strings p = some (Rc.success, s')
  room : (totalSize args.strings : Int) ≤ argsSize args.strings
  region0 : argsSize args.strings ≤ vmem1Base
  memory : ∃ li, f.file.info = some li ∧
    m' = f.loadedMemory li args.strings argbuf m

end Yalnix
