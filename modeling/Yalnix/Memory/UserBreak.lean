import Yalnix.Kernel.Machine
import Yalnix.Memory.Frames
import Yalnix.Memory.UserSpace

/-!
# Brk

Every outcome of `KernelBrk`, with the frames it takes and gives back.  A call
that returns `0` does what it should; one that runs out of frames half way
through keeps the pages it has mapped and does not move the break.
-/

namespace Yalnix

open Kernel Ledger

namespace Kernel

variable {s : Kernel} {addr : Nat}

/-- The table after a call has written it, and the pool. -/
def remapped (s : Kernel) (table : Nat → Pte) (pool : List Nat) : Kernel :=
  (s.setUserPageTable s.activePCB table).setPfnList pool

/-- The page of the break lies between data and stack. -/
def BrkInside (s : Kernel) (addr : Nat) : Prop :=
  addr ≠ 0 ∧ (s.space s.activePCB).dataIndex < brkTarget addr ∧
    brkTarget addr < (s.space s.activePCB).stackIndex

/-- The call asks for free pages above the heap. -/
def BrkGrows (s : Kernel) (addr : Nat) : Prop :=
  s.BrkInside addr ∧ (s.space s.activePCB).heapIndex < brkTarget addr ∧
    0 ≤ (s.space s.activePCB).heapIndex ∧ brkTarget addr ≤ userPtSize ∧
    ∀ i : Nat, (s.space s.activePCB).heapIndex ≤ i →
      (i : Int) < brkTarget addr →
        ((s.space s.activePCB).table i).valid = false

/-- The pages that the call asks for. -/
def brkCount (s : Kernel) (addr : Nat) : Nat :=
  (brkTarget addr - (s.space s.activePCB).heapIndex).toNat

/-- The loop of a growing call. -/
def brkGrown (s : Kernel) (addr : Nat) : Bool × (Nat → Pte) × List Nat :=
  growPages (s.space s.activePCB).heapIndex.toNat (s.brkCount addr)
    (s.space s.activePCB).table s.pfnList

/-- The outcomes of `KernelBrk`. -/
inductive BrkOutcome (s : Kernel) (addr : Nat) : Kernel → Prop where
  | refused : BrkOutcome s addr (s.ret Rc.error)
  | undefined : BrkOutcome s addr s.toUndefined
  | runsOut {table : Nat → Pte} {rest : List Nat} : s.BrkGrows addr →
      s.brkGrown addr = (false, table, rest) →
      BrkOutcome s addr ((s.remapped table rest).ret Rc.error)
  | grown {table : Nat → Pte} {rest : List Nat} : s.BrkGrows addr →
      s.brkGrown addr = (true, table, rest) →
      BrkOutcome s addr (((s.remapped table rest).setHeapIndex s.activePCB
        (brkTarget addr)).ret 0)
  | shrunk {table : Nat → Pte} {rest : List Nat} : s.BrkInside addr →
      brkTarget addr ≤ (s.space s.activePCB).heapIndex →
      (brkTarget addr < (s.space s.activePCB).heapIndex →
        0 ≤ brkTarget addr ∧ (s.space s.activePCB).heapIndex ≤ userPtSize) →
      (∀ i : Nat, brkTarget addr ≤ i →
        (i : Int) < (s.space s.activePCB).heapIndex →
          ((s.space s.activePCB).table i).valid = true) →
      shrinkPages (brkTarget addr).toNat
        ((s.space s.activePCB).heapIndex - brkTarget addr).toNat
        (s.space s.activePCB).table s.pfnList = (table, rest) →
      BrkOutcome s addr (((s.remapped table rest).setHeapIndex s.activePCB
        (brkTarget addr)).ret 0)

theorem kernelBrk_outcome (s : Kernel) (addr : Nat) :
    BrkOutcome s addr (s.kernelBrk addr) := by
  unfold kernelBrk
  simp only
  split
  · exact .refused
  · rename_i hnull
    split
    · exact .refused
    · rename_i hinside
      rw [not_or, Int.not_le, Int.not_le] at hinside
      have hbrk : s.BrkInside addr := ⟨hnull, hinside.2, hinside.1⟩
      split
      · rename_i hgrows
        split
        · exact .undefined
        · rename_i htable
          split
          · exact .refused
          · rename_i hfree
            have hbase : 0 ≤ s.pcb.userHeapPtIndex s.activePCB := by omega
            have hall : s.BrkGrows addr := by
              refine ⟨hbrk, hgrows, hbase, by omega, ?_⟩
              intro i hi hlt
              have hheap : s.pcb.userHeapPtIndex s.activePCB ≤ i := hi
              exact any_range_eq_false
                (P := fun i => (s.pcb.userPageTable s.activePCB i).valid)
                hfree (by omega) (by omega)
            generalize hgrown : growPages
              (s.pcb.userHeapPtIndex s.activePCB).toNat
              (brkTarget addr - s.pcb.userHeapPtIndex s.activePCB).toNat
              (s.pcb.userPageTable s.activePCB) s.pfnList = grown
            obtain ⟨ok, table, rest⟩ := grown
            cases ok with
            | true => exact .grown hall hgrown
            | false => exact .runsOut hall hgrown
      · rename_i hshrinks
        split
        · exact .undefined
        · rename_i htable
          split
          · exact .refused
          · rename_i hfull
            have hle := Int.not_lt.1 hshrinks
            generalize hshrunk : shrinkPages (brkTarget addr).toNat
              (s.pcb.userHeapPtIndex s.activePCB - brkTarget addr).toNat
              (s.pcb.userPageTable s.activePCB) s.pfnList = shrunk
            obtain ⟨table, rest⟩ := shrunk
            refine .shrunk hbrk hle ?_ ?_ hshrunk
            · intro hlt
              have hlt : brkTarget addr <
                s.pcb.userHeapPtIndex s.activePCB := hlt
              show 0 ≤ brkTarget addr ∧
                s.pcb.userHeapPtIndex s.activePCB ≤ userPtSize
              omega
            · intro i hi hlt
              have hheap : (i : Int) <
                s.pcb.userHeapPtIndex s.activePCB := hlt
              have hfalse := any_range_eq_false
                (P := fun i => !(s.pcb.userPageTable s.activePCB i).valid)
                (i := i) hfull (by omega) (by omega)
              show (s.pcb.userPageTable s.activePCB i).valid = true
              simpa using hfalse

/-- The space after the call has been answered. -/
theorem answered_space (table : Nat → Pte) (rest : List Nat) (target : Int)
    (result : Int) :
    ((((s.remapped table rest).setHeapIndex s.activePCB target).ret
        result).space s.activePCB) =
      { s.space s.activePCB with table := table, heapIndex := target } :=
  moved_space table rest target

theorem failed_space (table : Nat → Pte) (rest : List Nat) (result : Int) :
    ((s.remapped table rest).ret result).space s.activePCB =
      { s.space s.activePCB with table := table } :=
  written_space table rest

end Kernel

/-! ## A call that returns `0` -/

/-- The page of an address rounded up, in Region 1 and without wrap-around. -/
def breakPage (addr : Nat) : Int :=
  ((addr + (pageSize - 1)) / pageSize : Nat) - (vmem1BasePage : Int)

/-- A page at or above the first of Region 1 is computed without wrap-around. -/
theorem brkTarget_eq {addr : Nat} (haddr : addr < 2 ^ 32)
    (hpos : 0 < brkTarget addr) : brkTarget addr = breakPage addr := by
  unfold brkTarget breakPage upToPage toInt32 at *
  unfold pageSize vmem1BasePage at *
  simp only at hpos ⊢
  omega

/-- The Region 1 page that contains an address. -/
def addrPage (addr : Nat) : Int :=
  (addr / pageSize : Nat) - (vmem1BasePage : Int)

/-- The entry of a page of the table is valid. -/
def Space.Maps (x : Space) (i : Int) : Prop :=
  0 ≤ i ∧ i < userPtSize ∧ (x.table i.toNat).valid = true

/-- The segments lie in order, and the pages from the data up to the break are
mapped. -/
structure Space.InOrder (x : Space) : Prop where
  heap : x.dataIndex ≤ x.heapIndex
  stack : x.heapIndex ≤ x.stackIndex
  filled : ∀ i : Int, x.dataIndex ≤ i → i < x.heapIndex → x.Maps i

theorem Space.InOrder.valid {x : Space} (h : x.InOrder) {i : Nat}
    (hge : x.dataIndex ≤ i) (hlt : (i : Int) < x.heapIndex) :
    (x.table i).valid = true := by
  have hmaps := (h.filled i hge hlt).2.2
  simpa using hmaps

/-- What a call for page `t` should do. -/
structure BreakMoved (x : Space) (pool : List Nat) (t : Int) (y : Space)
    (pool' : List Nat) : Prop where
  above : x.dataIndex < t
  below : t < x.stackIndex
  heapIndex : y.heapIndex = t
  dataIndex : y.dataIndex = x.dataIndex
  stackIndex : y.stackIndex = x.stackIndex
  mapped : ∀ i : Nat, (x.table i).valid = false ∧ (y.table i).valid = true ↔
    x.heapIndex ≤ i ∧ (i : Int) < t
  prot : ∀ i : Nat, x.heapIndex ≤ i → (i : Int) < t →
    (y.table i).prot = Prot.noXWR
  unmapped : ∀ i : Nat, (x.table i).valid = true ∧ (y.table i).valid = false ↔
    t ≤ i ∧ (i : Int) < x.heapIndex
  filled : ∀ i : Int, x.dataIndex ≤ i → i < t → y.Maps i
  other : ∀ i : Nat, ¬ (x.heapIndex ≤ i ∧ (i : Int) < t) →
    ¬ (t ≤ i ∧ (i : Int) < x.heapIndex) → y.table i = x.table i
  frames : (ownedFrames y.table ++ pool').Perm (ownedFrames x.table ++ pool)

theorem BreakMoved.inOrder {x y : Space} {pool pool' : List Nat} {t : Int}
    (h : BreakMoved x pool t y pool') : y.InOrder := by
  have habove := h.above
  have hbelow := h.below
  constructor
  · rw [h.dataIndex, h.heapIndex]
    omega
  · rw [h.heapIndex, h.stackIndex]
    omega
  · rw [h.dataIndex, h.heapIndex]
    exact h.filled

theorem growPages_prot {first count : Nat} {table : Nat → Pte}
    {pool : List Nat} {i : Nat} (hinvalid : (table i).valid = false)
    (hnew : ((growPages first count table pool).2.1 i).valid = true) :
    ((growPages first count table pool).2.1 i).prot = Prot.noXWR := by
  induction count generalizing first table pool with
  | zero =>
      rw [growPages] at hnew
      rw [hinvalid] at hnew
      cases hnew
  | succ count ih =>
      rw [growPages] at hnew ⊢
      split
      · rename_i hvalid
        rw [if_pos hvalid] at hnew
        exact ih hinvalid hnew
      · rename_i hfree
        rw [if_neg hfree] at hnew
        rcases halloc : allocatePFN pool with ⟨_ | pfn, rest⟩
        · simp only [halloc] at hnew
          rw [hinvalid] at hnew
          cases hnew
        · simp only [halloc] at hnew ⊢
          by_cases hi : i = first
          · subst hi
            have hmapped : (upd table i ⟨true, Prot.noXWR, pfn⟩ i).valid =
                true := by
              rw [upd_same]
            rw [growPages_valid hmapped, upd_same]
          · apply ih
            · rw [upd_other hi]
              exact hinvalid
            · exact hnew

theorem brk_grown_moved {s : Kernel} {addr : Nat} {table : Nat → Pte}
    {rest : List Nat} (h : (s.space s.activePCB).InOrder)
    (hgrows : s.BrkGrows addr) (hgrown : s.brkGrown addr = (true, table, rest)) :
    BreakMoved (s.space s.activePCB) s.pfnList (brkTarget addr)
      { s.space s.activePCB with table := table, heapIndex := brkTarget addr }
      rest := by
  obtain ⟨⟨-, hdata, hstack⟩, hheap, hbase, htable, hfree⟩ := hgrows
  have hloop := growPages_grown hgrown
  have hcount : ((s.brkCount addr : Nat) : Int) =
      brkTarget addr - (s.space s.activePCB).heapIndex := by
    unfold brkCount
    omega
  constructor
  · exact hdata
  · exact hstack
  · rfl
  · rfl
  · rfl
  · intro i
    constructor
    · rintro ⟨hinvalid, hnew⟩
      have hin := hloop.inside hinvalid hnew
      omega
    · rintro ⟨hge, hlt⟩
      exact ⟨hfree i hge hlt, hloop.all rfl i (by omega) (by omega)⟩
  · intro i hge hlt
    have hnew := hloop.all rfl i (by omega) (by omega)
    have hresult : table = (growPages (s.space s.activePCB).heapIndex.toNat
        (s.brkCount addr) (s.space s.activePCB).table s.pfnList).2.1 := by
      unfold brkGrown at hgrown
      rw [hgrown]
    show (table i).prot = Prot.noXWR
    rw [hresult] at hnew ⊢
    exact growPages_prot (hfree i hge hlt) hnew
  · intro i
    constructor
    · rintro ⟨hvalid, hgone⟩
      rw [← hloop.keeps i hvalid] at hvalid
      have hgone : (table i).valid = false := hgone
      rw [hvalid] at hgone
      cases hgone
    · rintro ⟨hge, hlt⟩
      omega
  · intro i hge hlt
    by_cases hold : i < (s.space s.activePCB).heapIndex
    · obtain ⟨hpos, hin, hvalid⟩ := h.filled i hge hold
      rw [← hloop.keeps i.toNat hvalid] at hvalid
      exact ⟨hpos, hin, hvalid⟩
    · exact ⟨by omega, by omega, hloop.all rfl i.toNat (by omega) (by omega)⟩
  · intro i hout _
    exact hloop.outside i (by omega)
  · exact growPages_owned (by omega) hgrown

theorem brk_shrunk_moved {s : Kernel} {addr : Nat} {table : Nat → Pte}
    {rest : List Nat} (h : (s.space s.activePCB).InOrder)
    (hinside : s.BrkInside addr)
    (hle : brkTarget addr ≤ (s.space s.activePCB).heapIndex)
    (hshrunk : shrinkPages (brkTarget addr).toNat
      ((s.space s.activePCB).heapIndex - brkTarget addr).toNat
        (s.space s.activePCB).table s.pfnList = (table, rest)) :
    BreakMoved (s.space s.activePCB) s.pfnList (brkTarget addr)
      { s.space s.activePCB with table := table, heapIndex := brkTarget addr }
      rest := by
  obtain ⟨-, hdata, hstack⟩ := hinside
  obtain ⟨hbase, -, -⟩ := h.filled (s.space s.activePCB).dataIndex
    (by omega) (by omega)
  obtain ⟨-, htop, -⟩ := h.filled ((s.space s.activePCB).heapIndex - 1)
    (by omega) (by omega)
  have hloop := shrinkPages_shrunk hshrunk
  constructor
  · exact hdata
  · exact hstack
  · rfl
  · rfl
  · rfl
  · intro i
    constructor
    · rintro ⟨hinvalid, hnew⟩
      have hnew : (table i).valid = true := hnew
      by_cases hin : (brkTarget addr).toNat ≤ i ∧ i < (brkTarget addr).toNat +
          ((s.space s.activePCB).heapIndex - brkTarget addr).toNat
      · rw [hloop.inside i hin.1 hin.2] at hnew
        cases hnew
      · rw [hloop.outside i (by omega), hinvalid] at hnew
        cases hnew
    · rintro ⟨hge, hlt⟩
      omega
  · intro i hge hlt
    omega
  · intro i
    constructor
    · rintro ⟨hvalid, hgone⟩
      have hgone : (table i).valid = false := hgone
      by_contra hout
      rw [hloop.outside i (by omega), hvalid] at hgone
      cases hgone
    · rintro ⟨hge, hlt⟩
      exact ⟨h.valid (by omega) hlt, hloop.inside i (by omega) (by omega)⟩
  · intro i hge hlt
    obtain ⟨hpos, hin, hvalid⟩ := h.filled i hge (by omega)
    rw [← hloop.outside i.toNat (by omega)] at hvalid
    exact ⟨hpos, hin, hvalid⟩
  · intro i _ hout
    exact hloop.outside i (by omega)
  · exact shrinkPages_owned (by omega) hshrunk

/-- The address that a call accepts lies in Region 1. -/
theorem breakPage_inside {addr : Nat} (hpos : 0 < breakPage addr) :
    vmem1Base < addr ∧
      (breakPage addr ≤ userPtSize → addr ≤ vmem1Limit) ∧
      (breakPage addr < userPtSize → addr < vmem1Limit) := by
  unfold breakPage pageSize vmem1BasePage at *
  unfold vmem1Base vmem1Limit userPtSize
  omega

theorem Kernel.BrkOutcome.moved {s r : Kernel} {addr : Nat}
    (h : BrkOutcome s addr r) (hx : (s.space s.activePCB).InOrder)
    (hok : r.Succeeded s.activePCB) :
    0 < brkTarget addr ∧ brkTarget addr ≤ userPtSize ∧
      BreakMoved (s.space s.activePCB) s.pfnList (brkTarget addr)
        (r.space s.activePCB) r.pfnList := by
  cases h with
  | refused =>
      have herror := (ret_succeeded rfl).1 hok
      cases herror
  | undefined => cases hok.1
  | runsOut =>
      have herror := (ret_succeeded rfl).1 hok
      cases herror
  | grown hgrows hgrown =>
      have hmoved := brk_grown_moved hx hgrows hgrown
      obtain ⟨-, hheap, hbase, htable, -⟩ := hgrows
      rw [answered_space]
      exact ⟨by omega, htable, hmoved⟩
  | shrunk hinside hle htable hfull hshrunk =>
      have hmoved := brk_shrunk_moved hx hinside hle hshrunk
      obtain ⟨-, hdata, -⟩ := hinside
      obtain ⟨hbase, -, -⟩ := hx.filled (s.space s.activePCB).dataIndex
        (by omega) (by omega)
      obtain ⟨-, htop, -⟩ := hx.filled ((s.space s.activePCB).heapIndex - 1)
        (by omega) (by omega)
      rw [answered_space]
      exact ⟨by omega, by omega, hmoved⟩

/--
A call that returns `0` moves the break to the page of the address and changes
nothing else, and the process is in order for the next call.
-/
theorem brk_succeeds_exactly {s : Kernel} {addr : Nat} (haddr : addr < 2 ^ 32)
    (hx : (s.space s.activePCB).InOrder)
    (hok : (s.kernelBrk addr).Succeeded s.activePCB) :
    BreakMoved (s.space s.activePCB) s.pfnList (breakPage addr)
        ((s.kernelBrk addr).space s.activePCB) (s.kernelBrk addr).pfnList ∧
      ((s.kernelBrk addr).space s.activePCB).InOrder ∧
      vmem1Base < addr ∧ addr ≤ vmem1Limit ∧
      ((s.space s.activePCB).stackIndex ≤ userPtSize → addr < vmem1Limit) := by
  obtain ⟨hpos, htop, hmoved⟩ := (kernelBrk_outcome s addr).moved hx hok
  have heq := brkTarget_eq haddr hpos
  rw [heq] at hpos htop hmoved
  obtain ⟨hbase, hlimit, hbelow⟩ := breakPage_inside hpos
  have hstack := hmoved.below
  refine ⟨hmoved, hmoved.inOrder, hbase, hlimit htop, ?_⟩
  intro htable
  apply hbelow
  omega

/-! The small program moves its break up by one page. -/

/-- The first program of the small machine, running. -/
def runningProgram : Kernel := (Boot.small 20).kernelStart.run tick

/-- The address of page `i` of Region 1. -/
def pageAddr (i : Nat) : Nat := vmem1Base + i * pageSize

theorem runningProgram_inOrder :
    (runningProgram.space runningProgram.activePCB).InOrder := by
  have hindices : (runningProgram.space runningProgram.activePCB).dataIndex = 1 ∧
      (runningProgram.space runningProgram.activePCB).heapIndex = 2 ∧
      (runningProgram.space runningProgram.activePCB).stackIndex = 127 := by
    decide +kernel
  obtain ⟨hdata, hheap, hstack⟩ := hindices
  have hvalid : ((runningProgram.space runningProgram.activePCB).table 1).valid =
      true := by
    decide +kernel
  constructor
  · omega
  · omega
  · intro i hge hlt
    have hi : i = 1 := by omega
    subst hi
    exact ⟨by decide, by decide, hvalid⟩

theorem brk_succeeds_exactly_grown :
    BreakMoved (runningProgram.space runningProgram.activePCB)
        runningProgram.pfnList (breakPage (pageAddr 3))
        ((runningProgram.kernelBrk (pageAddr 3)).space runningProgram.activePCB)
        (runningProgram.kernelBrk (pageAddr 3)).pfnList ∧
      breakPage (pageAddr 3) = 3 := by
  have hexact := brk_succeeds_exactly (s := runningProgram) (by decide)
    runningProgram_inOrder
    (by decide +kernel : (runningProgram.kernelBrk (pageAddr 3)).Succeeded
      runningProgram.activePCB)
  exact ⟨hexact.1, by decide⟩

end Yalnix
