import Mathlib.Algebra.Order.Ring.Int
import Mathlib.Logic.Function.Basic

/-!
# Machine constants and return codes

The constants of `hardware.h`, `yalnix.h`, `kernel.h` and `include.h` that the
kernel computes with, page table entries, and 32-bit C arithmetic.
-/

namespace Yalnix

def pageSize : Nat := 0x2000

/-- `1 << PAGESHIFT` is the page size. -/
def pageShift : Nat := 13

def vmem1Base : Nat := 0x100000

def vmem1Limit : Nat := 0x200000

/-- `VMEM_1_BASE >> PAGESHIFT`, the first frame of the pool. -/
def vmem1BasePage : Nat := 128

/-- `USER_PT_SIZE`, also `MAX_PT_LEN`. -/
def userPtSize : Nat := 128

/-- `KERNEL_STACK_BASE >> PAGESHIFT`. -/
def kernelStackBase : Nat := 126

def kernelStackSize : Nat := 2

def numTerminals : Nat := 4

def terminalMaxLine : Nat := 1024

def pipeBufferLen : Nat := 256

def maxLocks : Int := 100

def maxCvars : Int := 5000

/-- The id of the head of the pipe list. -/
abbrev headPipeId : Int := maxLocks + maxCvars + 1

/-- `POST_ARGV_NULL_SPACE`. -/
def postArgvNullSpace : Nat := 0x20

/-! ## Return codes and blocked codes -/

namespace Rc

def success : Int := 0

def error : Int := -1

def kill : Int := -2

end Rc

/-!
The blocked codes of `include.h`.  They are plain integers there: `KernelExit`
stores an arbitrary exit code in the same field.
-/

namespace Blocked

def notBlocked : Int := 0
def delay : Int := 1
def wait : Int := 2
def ttyRead : Int := 3
def ttyWrite : Int := 4
def ttyTransmit : Int := 5
def pipeRead : Int := 6
def pipeWrite : Int := 7
def lockAcquire : Int := 8

end Blocked

/-- `UNUSED_LOCK` and `FREE_LOCK` are both `0`. -/
def unusedLock : Int := 0

def freeLock : Int := 0

/-- `UNUSED_CVAR` and `USED_CVAR` are both `0`. -/
def unusedCvar : Int := 0

def usedCvar : Int := 0

inductive TerminalStatus where
  | terminalOpen
  | terminalClosed
  deriving DecidableEq, Repr

/-! ## Page table entries -/

structure Pte where
  valid : Bool
  prot : Nat
  pfn : Nat
  deriving DecidableEq, Repr

namespace Prot

/-- Read and write, no execute. -/
def noXWR : Nat := 3

/-- Read and execute, no write. -/
def xNoWR : Nat := 5

def none : Nat := 0

end Prot

/-- An unmapped entry, as `init_process` and `KernelBrk` leave it. -/
def invalidPte : Pte := ⟨false, Prot.none, 0⟩

/-! ## 32-bit arithmetic -/

/-- The value of a C `int` after wrap-around. -/
def toInt32 (x : Int) : Int := (x + 2 ^ 31) % 2 ^ 32 - 2 ^ 31

/-- The value of a C `unsigned int` after wrap-around. -/
def toUInt32 (x : Int) : Int := x % 2 ^ 32

/-- `UP_TO_PAGE` on a signed 32-bit value. -/
def upToPage (x : Int) : Int :=
  let y := toInt32 (x + (pageSize - 1))
  y - y % pageSize

/-- `DOWN_TO_PAGE` on a signed 32-bit value. -/
def downToPage (x : Int) : Int := x - x % pageSize

/-- A user buffer: the byte at each offset from the pointer that was passed. -/
abbrev Buffer := Nat → UInt8

/-- The `n` bytes of a buffer from offset `start`. -/
def bytesOf (buf : Buffer) (start n : Nat) : List UInt8 :=
  (List.range n).map fun i => buf (start + i)

/-- `memcpy` of `n` bytes of `src` to offset `start` of `dst`. -/
def memcpy (dst : Buffer) (start : Nat) (src : Buffer) (n : Nat) : Buffer :=
  fun i => if start ≤ i ∧ i < start + n then src (i - start) else dst i

/-- `memset` of the first `n` bytes to zero. -/
def memzero (dst : Buffer) (n : Nat) : Buffer :=
  fun i => if i < n then 0 else dst i

@[simp] theorem bytesOf_length (buf : Buffer) (start n : Nat) :
    (bytesOf buf start n).length = n := by
  simp [bytesOf]

@[simp] theorem bytesOf_zero (buf : Buffer) (start : Nat) :
    bytesOf buf start 0 = [] := rfl

theorem bytesOf_append (buf : Buffer) (start m n : Nat) :
    bytesOf buf start m ++ bytesOf buf (start + m) n =
      bytesOf buf start (m + n) := by
  simp [bytesOf, List.range_add, Nat.add_assoc, Function.comp_def]

theorem bytesOf_take (buf : Buffer) (start n m : Nat) :
    (bytesOf buf start n).take m = bytesOf buf start (min m n) := by
  simp [bytesOf, ← List.map_take, List.take_range]

theorem bytesOf_drop (buf : Buffer) (start n m : Nat) :
    (bytesOf buf start n).drop m = bytesOf buf (start + m) (n - m) := by
  apply List.ext_getElem
  · simp
  · intro i h₁ h₂
    simp [bytesOf, Nat.add_assoc]

theorem bytesOf_congr {buf buf' : Buffer} {start start' n : Nat}
    (h : ∀ i < n, buf (start + i) = buf' (start' + i)) :
    bytesOf buf start n = bytesOf buf' start' n := by
  refine List.map_congr_left fun i hi => h i (List.mem_range.1 hi)

end Yalnix
