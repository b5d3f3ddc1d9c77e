import Yalnix.Memory.ForkMemory
import Yalnix.Memory.SingleOwner
import Yalnix.Memory.UserContexts
import Yalnix.Process.OnePlace

/-!
# Page protection

The loops that write page tables take frames from the pool only, and map a page
either writable or executable.
-/

namespace Yalnix

open Kernel Memory

/-! ## Entries and loops -/

/-- Writable or executable, not both. -/
def Prot.OneOf (prot : Nat) : Prop := prot = Prot.noXWR ∨ prot = Prot.xNoWR

namespace Pte

variable (F : Nat → Prop)

/-- The frame is one of `F`, or none, and a valid page is not both writable and
executable. -/
structure Within (e : Pte) : Prop where
  frame : e.pfn = 0 ∨ F e.pfn
  prot : e.valid = true → Prot.OneOf e.prot

/-- A valid page has a frame. -/
structure Backed (e : Pte) : Prop extends Within F e where
  backed : e.valid = true → F e.pfn

end Pte

/-- What the loops write into an entry keeps the property. -/
structure EntryRule (F : Nat → Prop) (Q : Pte → Prop) : Prop where
  mapped : ∀ {pfn}, F pfn → Q ⟨true, Prot.noXWR, pfn⟩
  copied : ∀ {e : Pte} {pfn}, e.Within F → e.valid = true → F pfn →
    Q ⟨true, e.prot, pfn⟩
  dropped : ∀ {e : Pte}, Q e → Q ⟨false, e.prot, 0⟩
  unmapped : Q invalidPte
  text : ∀ {e : Pte}, Q e → Q ⟨e.valid, Prot.xNoWR, e.pfn⟩
  frame : ∀ {e : Pte}, Q e → e.pfn = 0 ∨ F e.pfn

theorem Pte.within_rule (F : Nat → Prop) : EntryRule F (Pte.Within F) where
  mapped := fun h => ⟨.inr h, fun _ => .inl rfl⟩
  copied := fun h hvalid hpfn => ⟨.inr hpfn, fun _ => h.prot hvalid⟩
  dropped := fun _ => ⟨.inl rfl, nofun⟩
  unmapped := ⟨.inl rfl, nofun⟩
  text := fun h => ⟨h.frame, fun _ => .inr rfl⟩
  frame := fun h => h.frame

theorem Pte.backed_rule (F : Nat → Prop) : EntryRule F (Pte.Backed F) where
  mapped := fun h => ⟨(within_rule F).mapped h, fun _ => h⟩
  copied := fun h hvalid hpfn =>
    ⟨(within_rule F).copied h hvalid hpfn, fun _ => hpfn⟩
  dropped := fun h => ⟨(within_rule F).dropped h.toWithin, nofun⟩
  unmapped := ⟨(within_rule F).unmapped, nofun⟩
  text := fun h => ⟨(within_rule F).text h.toWithin, h.backed⟩
  frame := fun h => h.frame

/-- A table whose entries have the property, and a pool of frames of `F`.  A `0`
in the pool is never handed out. -/
structure Protected (F : Nat → Prop) (Q : Pte → Prop) (table : Nat → Pte)
    (pool : List Nat) : Prop where
  table : ∀ i, Q (table i)
  pool : ∀ f ∈ pool, f = 0 ∨ F f

namespace Protected

variable {F : Nat → Prop} {Q : Pte → Prop} {table table' : Nat → Pte}
  {pool rest : List Nat}

theorem write (h : Protected F Q table pool) {i : Nat} {e : Pte} (he : Q e) :
    Protected F Q (upd table i e) pool where
  table := fun j => by
    by_cases hj : j = i
    · simpa [hj] using he
    · rw [upd_other hj]
      exact h.table j
  pool := h.pool

theorem allocated (h : Protected F Q table pool) {pfn : Nat}
    (halloc : allocatePFN pool = (some pfn, rest)) :
    F pfn ∧ Protected F Q table rest := by
  obtain ⟨rfl, hpfn⟩ := allocatePFN_eq_some halloc
  have hhead := h.pool pfn List.mem_cons_self
  exact ⟨hhead.resolve_left hpfn, h.table,
    fun f hf => h.pool f (List.mem_cons_of_mem _ hf)⟩

theorem empty (h : Protected F Q table pool)
    (halloc : allocatePFN pool = (none, rest)) : Protected F Q table rest := by
  refine ⟨h.table, fun f hf => h.pool f ?_⟩
  cases pool with
  | nil => cases halloc; cases hf
  | cons pfn pool =>
      rw [allocatePFN] at halloc
      split at halloc
      · cases halloc
        exact List.mem_cons_of_mem _ hf
      · cases halloc

theorem free (hQ : EntryRule F Q) (h : Protected F Q table pool) (i : Nat) :
    Protected F Q table (deallocatePFN pool (table i).pfn) where
  table := h.table
  pool := fun f hf => by
    rcases List.mem_cons.1 hf with rfl | hf
    · exact hQ.frame (h.table i)
    · exact h.pool f hf

theorem growPages (hQ : EntryRule F Q) {first count : Nat} {ok : Bool}
    (h : Protected F Q table pool)
    (hgrow : growPages first count table pool = (ok, table', rest)) :
    Protected F Q table' rest := by
  induction count generalizing first table pool with
  | zero =>
      cases hgrow
      exact h
  | succ count ih =>
      rw [Yalnix.growPages] at hgrow
      split at hgrow
      · exact ih h hgrow
      · rcases halloc : allocatePFN pool with ⟨_ | pfn, pool'⟩
        · simp only [halloc] at hgrow
          cases hgrow
          exact h.empty halloc
        · simp only [halloc] at hgrow
          obtain ⟨hpfn, hrest⟩ := h.allocated halloc
          exact ih (hrest.write (hQ.mapped hpfn)) hgrow

theorem shrinkPages (hQ : EntryRule F Q) {first count : Nat}
    (h : Protected F Q table pool)
    (hshrink : shrinkPages first count table pool = (table', rest)) :
    Protected F Q table' rest := by
  induction count generalizing first table pool with
  | zero =>
      cases hshrink
      exact h
  | succ count ih =>
      rw [Yalnix.shrinkPages] at hshrink
      split at hshrink
      · exact ih ((h.free hQ first).write hQ.unmapped) hshrink
      · exact ih h hshrink

theorem discardRegion1 (hQ : EntryRule F Q) (pages : List Nat)
    (h : Protected F Q table pool) :
    Protected F Q (discardRegion1 pages table pool).1
      (discardRegion1 pages table pool).2 := by
  induction pages generalizing table pool with
  | nil => exact h
  | cons i pages ih =>
      rw [Yalnix.discardRegion1]
      split
      · exact ih ((h.free hQ i).write (hQ.dropped (h.table i)))
      · exact ih h

theorem mapPages (hQ : EntryRule F Q) {first : Int} {count : Nat}
    (h : Protected F Q table pool)
    (hmap : mapPages first count table pool = .done table' rest) :
    Protected F Q table' rest := by
  induction count generalizing first table pool with
  | zero =>
      cases hmap
      exact h
  | succ count ih =>
      rw [Yalnix.mapPages] at hmap
      split at hmap
      · cases hmap
      · rcases halloc : allocatePFN pool with ⟨_ | pfn, pool'⟩
        · simp only [halloc] at hmap
          cases hmap
        · simp only [halloc] at hmap
          obtain ⟨hpfn, hrest⟩ := h.allocated halloc
          exact ih (hrest.write (hQ.mapped hpfn)) hmap

/-- The entry that was marked valid without a frame has the one it had. -/
theorem mapPages_noFrame {first : Int} {count : Nat}
    (h : Protected F (Pte.Within F) table pool)
    (hmap : Yalnix.mapPages first count table pool = .noFrame table' rest) :
    Protected F (Pte.Within F) table' rest := by
  induction count generalizing first table pool with
  | zero => cases hmap
  | succ count ih =>
      rw [Yalnix.mapPages] at hmap
      split at hmap
      · cases hmap
      · rcases halloc : allocatePFN pool with ⟨_ | pfn, pool'⟩
        · simp only [halloc] at hmap
          cases hmap
          exact (h.empty halloc).write ⟨(h.table _).frame, fun _ => .inl rfl⟩
        · simp only [halloc] at hmap
          obtain ⟨hpfn, hrest⟩ := h.allocated halloc
          exact ih (hrest.write ((Pte.within_rule F).mapped hpfn)) hmap

theorem protectText (hQ : EntryRule F Q) {first : Int} {count : Nat}
    (h : Protected F Q table pool) :
    Protected F Q (protectText first count table) pool := by
  induction count generalizing first table with
  | zero => exact h
  | succ count ih =>
      rw [Yalnix.protectText]
      exact ih (h.write (hQ.text (h.table _)))

theorem copyUPT (hQ : EntryRule F Q) {parent : Nat → Pte}
    (hparent : ∀ i, (parent i).Within F) {pages : List Nat} {ok : Bool}
    {mapped mapped' : Nat} (h : Protected F Q table pool)
    (hcopy : copyUPT parent pages table pool mapped =
      (ok, table', rest, mapped')) : Protected F Q table' rest := by
  induction pages generalizing table pool mapped with
  | nil =>
      cases hcopy
      exact h
  | cons i pages ih =>
      rw [Yalnix.copyUPT] at hcopy
      split at hcopy
      · rename_i hvalid
        rcases halloc : allocatePFN pool with ⟨_ | pfn, pool'⟩
        · simp only [halloc] at hcopy
          cases hcopy
          exact h.empty halloc
        · simp only [halloc] at hcopy
          obtain ⟨hpfn, hrest⟩ := h.allocated halloc
          exact ih (hrest.write (hQ.copied (hparent i) hvalid hpfn)) hcopy
      · exact ih h hcopy

theorem freeTable (Good : Pte → Prop) (hgood : ∀ e, Good e → e.pfn = 0 ∨ F e.pfn)
    {pages : List Nat} (hpages : ∀ i ∈ pages, Good (table i))
    (hpool : ∀ f ∈ pool, f = 0 ∨ F f) :
    ∀ f ∈ freeTable table pages pool, f = 0 ∨ F f := by
  induction pages generalizing pool with
  | nil => exact hpool
  | cons i pages ih =>
      rw [Yalnix.freeTable]
      refine ih (fun j hj => hpages j (List.mem_cons_of_mem _ hj)) ?_
      split
      · intro f hf
        rcases List.mem_cons.1 hf with rfl | hf
        · exact hgood _ (hpages i List.mem_cons_self)
        · exact hpool f hf
      · exact hpool

/-- `free_addr_space` gives back what the two tables have. -/
theorem freeAddrSpace {kStack : Nat → Pte}
    (h : Protected F (Pte.Within F) table pool)
    (hstack : ∀ i < kernelStackSize, F (kStack i).pfn) :
    Protected F (Pte.Within F) table (freeAddrSpace table kStack pool) where
  table := h.table
  pool := by
    refine freeTable (Pte.Within F) (fun _ he => he.frame)
      (fun i _ => h.table i) ?_
    exact freeTable (fun e => F e.pfn) (fun _ he => .inr he)
      (fun i hi => hstack i (List.mem_range.1 hi)) h.pool

end Protected

/-! ## The state -/

/-- Every process has entries within the frames of `F`, those that are not dead a
frame for each valid page, and only idle has another kernel stack. -/
structure Memory.Guarded (F : Nat → Prop) (dead : PcbPtr → Prop) (m : Memory) :
    Prop where
  pool : ∀ f ∈ m.pfnList, f = 0 ∨ F f
  table : ∀ p < m.npcb, ∀ i, (m.userPageTable p i).Within F
  backed : ∀ p < m.npcb, ¬ dead p → ∀ i, (m.userPageTable p i).Backed F
  stack : ∀ p < m.npcb, p ≠ 0 → ∀ i < kernelStackSize, F (m.kernelStackPt p i).pfn

variable {F : Nat → Prop} {dead dead' : PcbPtr → Prop}

namespace Memory.Guarded

variable {m m' : Memory} {p : PcbPtr}

theorem mono (h : m.Guarded F dead) (hdead : ∀ p, dead p → dead' p) :
    m.Guarded F dead' where
  pool := h.pool
  table := h.table
  backed := fun p hp hlive => h.backed p hp (mt (hdead p) hlive)
  stack := h.stack

theorem quiet (h : m.Guarded F dead) (hquiet : m.Quiet m') :
    m'.Guarded F dead := by
  obtain ⟨hnpcb, hpool, htable, hstack⟩ := Kernel.quiet_tables hquiet
  constructor
  · simpa [hpool] using h.pool
  · simpa [hnpcb, htable] using h.table
  · simpa [hnpcb, htable] using h.backed
  · simpa [hnpcb, hstack] using h.stack

theorem free (h : m.Guarded F dead) (hactive : m.active < m.npcb)
    (hidle : m.active ≠ 0) : m.free.Guarded F dead := by
  have hfree := Protected.freeAddrSpace ⟨h.table _ hactive, h.pool⟩
    (h.stack _ hactive hidle)
  exact ⟨hfree.pool, h.table, h.backed, h.stack⟩

/-- A handler has written the table of one process. -/
theorem rewritten (h : m.Guarded F dead) (hsame : Rewritten m p m')
    (hdead : ∀ q, dead q → dead' q)
    (hp : Protected F (Pte.Within F) (m'.userPageTable p) m'.pfnList)
    (hlive : ¬ dead' p → ∀ i, (m'.userPageTable p i).Backed F) :
    m'.Guarded F dead' where
  pool := hp.pool
  table := fun q hq => by
    by_cases hqp : q = p
    · subst hqp
      exact hp.table
    · rw [hsame.userPageTable q hqp]
      exact h.table q (hsame.npcb ▸ hq)
  backed := fun q hq hql => by
    by_cases hqp : q = p
    · subst hqp
      exact hlive hql
    · rw [hsame.userPageTable q hqp]
      exact h.backed q (hsame.npcb ▸ hq) (mt (hdead q) hql)
  stack := fun q hq => by
    rw [hsame.kernelStackPt]
    exact h.stack q (hsame.npcb ▸ hq)

end Memory.Guarded

namespace Kernel

variable {Q : Pte → Prop} {s s' : Kernel} {p : PcbPtr}

/-- The table of the process and the pool, between the writes of a handler. -/
def Shields (s : Kernel) (F : Nat → Prop) (Q : Pte → Prop) (p : PcbPtr) : Prop :=
  Protected F Q (s.pcb.userPageTable p) s.pfnList

theorem shields_write {table : Nat → Pte} {pool : List Nat}
    (h : Protected F Q table pool) :
    ((s.setUserPageTable p table).setPfnList pool).Shields F Q p := by
  have htable : upd s.pcb.userPageTable p table p = table := upd_same _ _ _
  rw [← htable] at h
  exact h

/-! ### Brk and memory traps -/

theorem kernelBrk_shields (hQ : EntryRule F Q) (h : s.Shields F Q s.activePCB)
    (addr : Nat) : (s.kernelBrk addr).Shields F Q s.activePCB := by
  have hgrow {first count : Nat} {ok : Bool} {table : Nat → Pte}
      {rest : List Nat} (heq : growPages first count
        (s.space s.activePCB).table s.pfnList = (ok, table, rest)) :
      (s.remapped table rest).Shields F Q s.activePCB :=
    shields_write (Protected.growPages hQ h heq)
  have hbrk := kernelBrk_outcome s addr
  revert hbrk
  generalize s.kernelBrk addr = r
  intro hbrk
  cases hbrk with
  | refused => exact h
  | undefined => exact h
  | runsOut _ hgrown => exact hgrow hgrown
  | grown _ hgrown => exact ⟨(hgrow hgrown).table, (hgrow hgrown).pool⟩
  | @shrunk table rest _ _ _ _ hshrunk =>
      have hwritten : (s.remapped table rest).Shields F Q s.activePCB :=
        shields_write (Protected.shrinkPages hQ h hshrunk)
      exact ⟨hwritten.table, hwritten.pool⟩

/-- What keeps both properties of entries keeps the state guarded. -/
theorem guarded_of_shields (h : s.memory.Guarded F dead) (hp : p < s.npcb)
    (hsame : Rewritten s.memory p s'.memory)
    (hall : ∀ Q, EntryRule F Q → s.Shields F Q p → s'.Shields F Q p) :
    s'.memory.Guarded F dead := by
  refine h.rewritten hsame (fun _ hq => hq)
    (hall _ (Pte.within_rule F) ⟨h.table p hp, h.pool⟩) ?_
  intro hlive
  exact (hall _ (Pte.backed_rule F) ⟨h.backed p hp hlive, h.pool⟩).table

theorem trapMemoryHandler_guarded (h : s.memory.Guarded F dead)
    (hactive : s.activePCB < s.npcb) (hidle : s.activePCB ≠ 0) (addr : Nat)
    (beyondValid : Bool) :
    (s.trapMemoryHandler addr beyondValid).memory.Guarded F dead := by
  unfold trapMemoryHandler
  simp only
  split
  · exact (h.free hactive hidle).quiet (kernelExit_quiet Rc.error)
  · split
    · exact h
    · rw [toUser_memory]
      generalize hgrow : growPages (faultTarget addr).toNat
        (s.pcb.userStackPtIndex s.activePCB - faultTarget addr).toNat
        (s.pcb.userPageTable s.activePCB) s.pfnList = grown
      obtain ⟨ok, table, rest⟩ := grown
      exact guarded_of_shields h hactive (setUserPageTable_rewritten table rest)
        fun Q hQ hs => shields_write (Protected.growPages hQ hs hgrow)

/-! ### Loading -/

theorem loadSegment_shields (hQ : EntryRule F Q) (h : s.Shields F Q p)
    {first : Int} {count : Nat}
    (hload : s.loadSegment p first count = some (true, s')) :
    s'.Shields F Q p := by
  unfold loadSegment at hload
  split at hload
  · cases hload
  · rename_i hmap
    cases hload
    exact shields_write (Protected.mapPages hQ h hmap)
  · cases hload

theorem loadSegment_short (h : s.Shields F (Pte.Within F) p)
    (hstack : ∀ i < kernelStackSize, F (s.pcb.kernelStackPt p i).pfn)
    {first : Int} {count : Nat} {ok : Bool}
    (hload : s.loadSegment p first count = some (ok, s')) :
    s'.Shields F (Pte.Within F) p := by
  unfold loadSegment at hload
  split at hload
  · cases hload
  · rename_i hmap
    cases hload
    exact shields_write (Protected.mapPages (Pte.within_rule F) h hmap)
  · rename_i hmap
    cases hload
    exact shields_write ((Protected.mapPages_noFrame h hmap).freeAddrSpace hstack)

theorem discardImage_shields (hQ : EntryRule F Q) (h : s.Shields F Q p)
    (l : Layout) : (s.discardImage l p).Shields F Q p := by
  have hold := Protected.discardRegion1 hQ (List.range userPtSize) h
  exact shields_write (s := (s.setUserContext p { s.pcb.userContext p with
    sp := l.sp }).setPtbr1 p) hold

theorem buildImage_shields (hQ : EntryRule F Q) (h : s.Shields F Q p)
    {l : Layout} (hbuild : s.buildImage l p = some (true, s')) :
    s'.Shields F Q p := by
  have hstart : ((s.discardImage l p).setTextIndex p l.textPg1).Shields F Q p :=
    discardImage_shields hQ h l
  unfold buildImage at hbuild
  simp only at hbuild
  split at hbuild
  · cases hbuild
  · cases hbuild
  · rename_i s₁ htext
    have htext := loadSegment_shields hQ hstart htext
    have h₁ : (s₁.setDataIndex p l.dataPg1).Shields F Q p := htext
    split at hbuild
    · cases hbuild
    · cases hbuild
    · rename_i s₂ hdata
      have hdata := loadSegment_shields hQ h₁ hdata
      have h₂ : ((s₂.setHeapIndex p l.heapIndex).setStackIndex p
          l.stackIndex).Shields F Q p := hdata
      exact loadSegment_shields hQ h₂ hbuild

theorem buildImage_short (h : s.Shields F (Pte.Within F) p)
    (hstack : ∀ i < kernelStackSize, F (s.pcb.kernelStackPt p i).pfn)
    {l : Layout} {ok : Bool} (hbuild : s.buildImage l p = some (ok, s')) :
    s'.Shields F (Pte.Within F) p := by
  have hstart : ((s.discardImage l p).setTextIndex p l.textPg1).Shields F
      (Pte.Within F) p := discardImage_shields (Pte.within_rule F) h l
  unfold buildImage at hbuild
  simp only at hbuild
  split at hbuild
  · cases hbuild
  · rename_i htext
    cases hbuild
    exact loadSegment_short hstart hstack htext
  · rename_i s₁ htext
    have hshort := loadSegment_short hstart hstack htext
    have h₁ : (s₁.setDataIndex p l.dataPg1).Shields F (Pte.Within F) p := hshort
    have hstack₁ : s₁.pcb.kernelStackPt = s.pcb.kernelStackPt :=
      (loadSegment_rewritten htext).kernelStackPt
    rw [← hstack₁] at hstack
    split at hbuild
    · cases hbuild
    · rename_i hdata
      cases hbuild
      exact loadSegment_short h₁ hstack hdata
    · rename_i s₂ hdata
      have hshort := loadSegment_short h₁ hstack hdata
      have h₂ : ((s₂.setHeapIndex p l.heapIndex).setStackIndex p
          l.stackIndex).Shields F (Pte.Within F) p := hshort
      have hstack₂ : s₂.pcb.kernelStackPt = s₁.pcb.kernelStackPt :=
        (loadSegment_rewritten hdata).kernelStackPt
      rw [← hstack₂] at hstack
      exact loadSegment_short h₂ hstack hbuild

theorem readImage_shields (hQ : EntryRule F Q) (h : s.Shields F Q p)
    {file : Executable} {li : LoadInfo} {l : Layout} {code : Int}
    (hread : s.readImage file li l p = some (code, s')) :
    s'.Shields F Q p := by
  rcases readImage_cases hread with ⟨-, rfl, -⟩ | ⟨-, -, rfl⟩
  · exact h
  · have htext : Protected F Q (protectText l.textPg1 l.textCount
        (s.pcb.userPageTable p)) s.pfnList := Protected.protectText hQ h
    have hwritten : ((s.setUserPageTable p (protectText l.textPg1 l.textCount
        (s.pcb.userPageTable p))).setPfnList s.pfnList).Shields F Q p :=
      shields_write htext
    exact ⟨hwritten.table, hwritten.pool⟩

/-- A load that runs out of frames leaves a page without one. -/
theorem loadProgram_guarded {file : Executable} {args : List (List UInt8)}
    {code : Int} (h : s.memory.Guarded F dead) (hp : p < s.npcb)
    (hload : s.loadProgram file args p = some (code, s'))
    (hdead : ∀ q, dead q → dead' q)
    (hfails : code = Rc.error → file.accepted args ≠ none →
      dead' p ∧ ∀ i < kernelStackSize, F (s.pcb.kernelStackPt p i).pfn) :
    s'.memory.Guarded F dead' := by
  have hsame := loadProgram_rewritten hload
  rw [loadProgram_eq] at hload
  cases haccepted : file.accepted args with
  | none =>
      rw [haccepted] at hload
      cases hload
      exact h.mono hdead
  | some li =>
      rw [haccepted] at hload hfails
      have hwithin : s.Shields F (Pte.Within F) p := ⟨h.table p hp, h.pool⟩
      simp only [loadImage_eq] at hload
      split at hload
      · cases hload
      · rename_i hbuild
        cases hload
        obtain ⟨hgone, hstack⟩ := hfails rfl nofun
        exact h.rewritten hsame hdead (buildImage_short hwithin hstack hbuild)
          (absurd hgone)
      · rename_i s₁ hbuild
        have hread {Q : Pte → Prop} (hQ : EntryRule F Q)
            (h : s.Shields F Q p) : s'.Shields F Q p :=
          readImage_shields hQ (buildImage_shields hQ h hbuild) hload
        refine h.rewritten hsame hdead (hread (Pte.within_rule F) hwithin) ?_
        intro hlive
        exact (hread (Pte.backed_rule F)
          ⟨h.backed p hp (mt (hdead p) hlive), h.pool⟩).table

theorem execCase_guarded {args : ExecArgs} (h : s.memory.Guarded F dead)
    (hactive : s.activePCB < s.npcb) (hidle : s.activePCB ≠ 0)
    (hdead : ∀ q, dead q → dead' q)
    (hfails : ∀ s₁, s.kernelExec args = some (Rc.error, s₁) →
      dead' s.activePCB) : (s.execCase args).memory.Guarded F dead' := by
  unfold execCase
  split
  · exact h.mono hdead
  · rename_i code s₁ hexec
    have hsame := kernelExec_rewritten hexec
    have h₁ : s₁.memory.Guarded F dead' := by
      unfold kernelExec at hexec
      split at hexec
      · cases hexec
        exact h.mono hdead
      · simp only at hexec
        have hcleared : (s.setUserContext s.activePCB ⟨0, 0⟩).memory.Guarded F
            dead := ⟨h.pool, h.table, h.backed, h.stack⟩
        split at hexec
        · cases hexec
        · rename_i result s₂ hload
          have hguarded (hgone : result = Rc.error → dead' s.activePCB) :
              s₂.memory.Guarded F dead' :=
            loadProgram_guarded hcleared hactive hload hdead fun herror _ =>
              ⟨hgone herror, h.stack _ hactive hidle⟩
          split at hexec
          · rename_i herror
            cases hexec
            exact hguarded fun _ => hfails s₁ (by simp_all [kernelExec])
          · rename_i hcode
            cases hexec
            exact hguarded fun herror => absurd herror hcode
    split
    · exact ⟨h₁.pool, h₁.table, h₁.backed, h₁.stack⟩
    · have hfree : s₁.memory.free.Guarded F dead' := by
        apply h₁.free
        · rw [hsame.active, hsame.npcb]
          exact hactive
        · rw [hsame.active]
          exact hidle
      exact hfree.quiet (kernelExit_quiet (s := s₁.setReg0 s₁.activePCB code)
        Rc.error)

/-! ### Fork -/

theorem initProcess_table {active : Option PcbPtr} {pid : Nat}
    {ctx : UserContext} {c : PcbPtr}
    (hinit : s.initProcess active pid ctx = some (c, s')) :
    s'.pcb.userPageTable s.npcb = fun _ => invalidPte := by
  unfold initProcess at hinit
  simp only at hinit
  split at hinit
  · cases hinit
  · cases hinit
    exact upd_same _ _ _

theorem initProcess_guarded {active : Option PcbPtr} {pid : Nat}
    {ctx : UserContext} {c : PcbPtr} (h : s.memory.Guarded F dead)
    (hpid : pid ≠ 0 ∨ s.npcb = 0)
    (hinit : s.initProcess active pid ctx = some (c, s')) :
    s'.memory.Guarded F dead := by
  obtain ⟨rfl, hnpcb, hmade, -⟩ := initProcess_made hinit
  have hold {q : PcbPtr} (hq : q < s'.npcb) (hnew : q ≠ s.npcb) :
      q < s.npcb := by
    rw [hnpcb] at hq
    exact Nat.lt_of_le_of_ne (Nat.le_of_lt_succ hq) hnew
  have htable := initProcess_table hinit
  have hchild : (∀ f ∈ s'.pfnList, f = 0 ∨ F f) ∧ (s.npcb ≠ 0 →
        ∀ i < kernelStackSize, F (s'.pcb.kernelStackPt s.npcb i).pfn) := by
    unfold initProcess at hinit
    simp only at hinit
    split at hinit
    · cases hinit
    · rename_i stack pool hstack
      cases hinit
      simp only [upd_same]
      split at hstack
      · obtain ⟨hpool, hframes, -⟩ :=
          allocKernelStack_frames List.nodup_range hstack
        have hin (f : Nat) (hf : f ∈ framesOf stack (List.range kernelStackSize) ++
            pool) : f = 0 ∨ F f := h.pool f (show f ∈ s.pfnList from hpool ▸ hf)
        refine ⟨fun f hf => hin f (List.mem_append_right _ hf), fun _ i hi => ?_⟩
        have hmem := List.mem_range.2 hi
        refine (hin _ (List.mem_append_left _ ?_)).resolve_left (hframes i hmem)
        exact List.mem_map_of_mem hmem
      · rename_i hzero
        cases hstack
        exact ⟨h.pool, fun hpos => absurd (hpid.resolve_left hzero) hpos⟩
  obtain ⟨hpool, hstack⟩ := hchild
  constructor
  · exact hpool
  · intro q hq i
    by_cases hnew : q = s.npcb
    · subst hnew
      show (s'.pcb.userPageTable s.npcb i).Within F
      rw [htable]
      exact (Pte.within_rule F).unmapped
    · rw [hmade.userPageTable q hnew]
      exact h.table q (hold hq hnew) i
  · intro q hq hlive i
    by_cases hnew : q = s.npcb
    · subst hnew
      show (s'.pcb.userPageTable s.npcb i).Backed F
      rw [htable]
      exact (Pte.backed_rule F).unmapped
    · rw [hmade.userPageTable q hnew]
      exact h.backed q (hold hq hnew) hlive i
  · intro q hq hpos
    by_cases hnew : q = s.npcb
    · subst hnew
      exact hstack hpos
    · rw [hmade.kernelStackPt q hnew]
      exact h.stack q (hold hq hnew) hpos

theorem kcCopy_guarded (h : s.memory.Guarded F dead) (child : PcbPtr)
    (k : KernelContext) : (s.kcCopy child k).memory.Guarded F dead := by
  unfold kcCopy
  split
  · exact h
  · refine ⟨h.pool, h.table, h.backed, fun q hq hpos i hi => ?_⟩
    have hframe := h.stack q hq hpos i hi
    by_cases hchild : q = child
    · subst hchild
      simpa [memory, setReg0, setUctxt, setKPt, setKernelStackPt,
        setKernelContext, setPcb, hi] using hframe
    · have hother : upd s.pcb.kernelStackPt child (fun i =>
          if i < kernelStackSize then
            { s.pcb.kernelStackPt child i with valid := true }
          else s.pcb.kernelStackPt child i) q = s.pcb.kernelStackPt q :=
        upd_other hchild _ _
      exact (congrArg (fun t : Nat → Pte => F (t i).pfn) hother).mpr hframe

theorem forkCopy_guarded {child parent reserved : Nat}
    (h : s.memory.Guarded F dead) (hparent : parent < s.npcb)
    (hlive : ∀ i, (s.pcb.userPageTable child i).Backed F) :
    (s.forkCopy child parent reserved).memory.Guarded F dead := by
  have hwritten {ok : Bool} {table : Nat → Pte} {pool : List Nat} {mapped : Nat}
      (hcopy : copyUPT (s.pcb.userPageTable parent) (List.range userPtSize)
        (s.pcb.userPageTable child) s.pfnList (s.kPt reserved).pfn =
          (ok, table, pool, mapped)) :
      ((s.setUserPageTable child table).setPfnList pool).memory.Guarded F
        dead := by
    have hparent' := h.table parent hparent
    have hbacked := Protected.copyUPT (Pte.backed_rule F) hparent'
      ⟨hlive, h.pool⟩ hcopy
    have hshields : ((s.setUserPageTable child table).setPfnList pool).Shields F
        (Pte.Backed F) child := shields_write hbacked
    exact h.rewritten (setUserPageTable_rewritten table pool) (fun _ hq => hq)
      ⟨fun i => (hshields.table i).toWithin, hshields.pool⟩
      fun _ => hshields.table
  unfold forkCopy
  split
  · rename_i hcopy
    have h₁ := hwritten hcopy
    exact ⟨h₁.pool, h₁.table, h₁.backed, h₁.stack⟩
  · rename_i table pool mapped hcopy
    have h₁ := hwritten hcopy
    have hready : (((((s.setUserPageTable child table).setPfnList pool).setKPt
        (upd s.kPt reserved invalidPte)).queueAdd (some .readyQ) child).kcCopy
          child .kernelFork).memory.Guarded F dead := by
      apply kcCopy_guarded
      rw [queueAdd_memory]
      exact ⟨h₁.pool, h₁.table, h₁.backed, h₁.stack⟩
    simp only [forkReady]
    split
    · exact hready
    · rw [ret_memory]
      exact hready

theorem kernelFork_guarded {pid : Nat} (h : s.memory.Guarded F dead)
    (hactive : s.activePCB < s.npcb) (hpid : pid ≠ 0) :
    (s.kernelFork pid).memory.Guarded F dead := by
  unfold kernelFork
  split
  · exact h
  · rename_i child forked hinit
    obtain ⟨rfl, hnpcb, -⟩ := initProcess_made hinit
    have hforked := initProcess_guarded h (.inl hpid) hinit
    have hempty : ∀ i, (forked.pcb.userPageTable s.npcb i).Backed F := by
      intro i
      rw [initProcess_table hinit]
      exact (Pte.backed_rule F).unmapped
    have hcopied : (forked.copyIndices s.npcb s.activePCB).memory.Guarded F
        dead := ⟨hforked.pool, hforked.table, hforked.backed, hforked.stack⟩
    simp only
    split
    · exact hcopied
    · apply forkCopy_guarded hcopied
      · exact hnpcb ▸ Nat.lt_succ_of_lt hactive
      · exact hempty

/-! ### Every step -/

/-- A failed `Exec` leaves a page without a frame, and its process is dead. -/
theorem take_guarded {a : Label} (h : s.memory.Guarded F dead)
    (henabled : a.Enabled s) (hidle : s.idlePCB = 0)
    (hactive : s.activePCB < s.npcb) (hused : 0 ∈ s.history.usedPids)
    (hdead : ∀ q, dead q → dead' q)
    (hfails : ∀ args ∈ a.execArgs, ∀ s₁,
      (s.entered a).kernelExec args = some (Rc.error, s₁) → dead' s.activePCB) :
    (s.take a).memory.Guarded F dead' := by
  cases a with
  | resume => exact (h.mono hdead).quiet resume_quiet
  | trap ctx t =>
      have hentered : (s.enter ctx).memory.Guarded F dead :=
        ⟨h.pool, h.table, h.backed, h.stack⟩
      have hnot (hcan : s.activePCB ≠ s.idlePCB) : s.activePCB ≠ 0 :=
        hidle ▸ hcan
      by_cases hquiet : t.usesMemory = false
      · exact (hentered.mono hdead).quiet (handle_quiet hquiet)
      · cases t with
        | kernel call =>
            obtain ⟨-, hcan, hpid⟩ := henabled
            cases call with
            | fork pid =>
                have hfresh : pid ≠ 0 := fun hzero => hpid pid rfl (hzero ▸ hused)
                exact (kernelFork_guarded hentered hactive hfresh).mono hdead
            | exec args =>
                exact execCase_guarded hentered hactive
                  (hnot (hcan.resolve_right nofun)) hdead (hfails args rfl)
            | exit code =>
                exact ((hentered.free hactive
                  (hnot (hcan.resolve_right nofun))).quiet
                    (kernelExit_quiet code)).mono hdead
            | brk addr =>
                exact (guarded_of_shields hentered hactive
                  (kernelBrk_rewritten addr) fun Q hQ hs =>
                    kernelBrk_shields hQ hs addr).mono hdead
            | _ => exact absurd rfl hquiet
        | memory addr beyondValid =>
            exact (trapMemoryHandler_guarded hentered hactive
              (hnot henabled.2) addr beyondValid).mono hdead
        | _ => exact absurd rfl hquiet

end Kernel

/-- A failed `Exec` ends in `KernelExit`. -/
theorem Kernel.take_execFails_terminated {s s₁ : Kernel} {a : Label}
    {args : ExecArgs} (hargs : args ∈ a.execArgs)
    (hexec : (s.entered a).kernelExec args = some (Rc.error, s₁)) :
    (s.take a).history.terminated s.activePCB = true := by
  cases a with
  | resume => cases hargs
  | trap ctx t =>
      cases t with
      | kernel call =>
          cases call with
          | exec args' =>
              cases hargs
              have hexec : (s.enter ctx).kernelExec args = some (Rc.error, s₁) :=
                hexec
              have htake : s.take (.trap ctx (.kernel (.exec args))) =
                  (s₁.setReg0 s₁.activePCB Rc.error).kernelExit Rc.error := by
                simp [take, handle, trapKernelHandler, execCase, hexec]
              have hactive : s₁.activePCB = s.activePCB :=
                (kernelExec_rewritten hexec).active
              rw [htake, ← hactive]
              exact kernelExit_terminated Rc.error
          | _ => cases hargs
      | _ => cases hargs

/-! ## Boot and runs -/

/-- A load of idle that runs out of frames goes unnoticed; then nothing is known
of the frames of idle. -/
theorem Boot.started_guarded {b : Boot} (hb : b.WellFormed)
    (hmode : b.kernelStart.mode = .user) (hpool : ∀ f ∈ b.pfnList, F f)
    (hidle : b.idleFile.frames b.idleArgs ≤ b.pfnList.length ∨
      dead 0 ∧ ∀ f, F f) : b.kernelStart.memory.Guarded F dead := by
  obtain ⟨st, heq⟩ := Boot.stages hmode
  have hfirst : st.idleMade.npcb = 1 := st.npcb.1
  have hsecond : st.progMade.npcb = 2 := st.npcb.2
  have hfree : ∀ f ∈ b.setUpGlobals.memory.pfnList, f = 0 ∨ F f := by
    simp only [Kernel.memory, Boot.pfnList_setUpGlobals]
    exact fun f hf => .inr (hpool f hf)
  have hempty : b.setUpGlobals.memory.Guarded F dead :=
    ⟨hfree, fun p hp => absurd hp (Nat.not_lt_zero p),
      fun p hp => absurd hp (Nat.not_lt_zero p),
      fun p hp => absurd hp (Nat.not_lt_zero p)⟩
  have hnone : b.setUpGlobals.npcb = 0 := by simp only [Boot.setUpGlobals]
  have hmade := Kernel.initProcess_guarded hempty (.inr hnone) st.idle
  have hloaded : st.idleLoaded.memory.Guarded F dead := by
    refine Kernel.loadProgram_guarded hmade (by rw [hfirst]; exact Nat.one_pos)
      st.loadIdle (fun _ hq => hq) ?_
    intro herror haccepted
    rcases hidle with hfits | ⟨hdead, hall⟩
    · obtain ⟨li, hli⟩ := Option.ne_none_iff_exists'.1 haccepted
      have hload := st.loadIdle
      rw [Executable.frames, hli] at hfits
      simp only [loadProgram_eq, hli] at hload
      rw [← st.idleMade_freedPool] at hfits
      refine absurd herror (loadImage_fits ?_ hfits hload)
      rw [st.idleMade_freedPool]
      exact b.zero_not_mem_pfnList
    · exact ⟨hdead, fun i _ => hall _⟩
  have hidled : ({ st.idleLoaded with
      idlePCB := 0, activePCB := 0 } : Kernel).memory.Guarded F dead :=
    ⟨hloaded.pool, hloaded.table, hloaded.backed, hloaded.stack⟩
  have hprog := Kernel.initProcess_guarded hidled (.inl hb.progPid_ne_zero)
    st.prog
  have hready : st.progLoaded.memory.Guarded F dead :=
    Kernel.loadProgram_guarded hprog (by rw [hsecond]; exact Nat.one_lt_two)
      st.loadProg (fun _ hq => hq) fun herror => absurd herror st.loaded
  rw [heq]
  unfold Boot.startProg
  apply Kernel.kcCopy_guarded
  exact ⟨hready.pool, hready.table, hready.backed, hready.stack⟩

/-- `PROT_WRITE` is bit 1. -/
def Prot.Writable (prot : Nat) : Prop := prot.testBit 1 = true

instance (prot : Nat) : Decidable (Prot.Writable prot) :=
  inferInstanceAs (Decidable (_ = _))

/-- `PROT_EXEC` is bit 2. -/
def Prot.Executable (prot : Nat) : Prop := prot.testBit 2 = true

instance (prot : Nat) : Decidable (Prot.Executable prot) :=
  inferInstanceAs (Decidable (_ = _))

theorem Prot.OneOf.apart {prot : Nat} (h : Prot.OneOf prot) :
    ¬ (Prot.Writable prot ∧ Prot.Executable prot) := by
  rcases h with rfl | rfl
  · exact fun hboth => absurd hboth.2 (by decide)
  · exact fun hboth => absurd hboth.1 (by decide)

/-- In every run no page of a user table is both writable and executable, also
after calls that fail half way through. -/
theorem no_page_writable_and_executable {s : Kernel}
    (h : Reachable (fun _ _ => True) s) {p : PcbPtr} (hp : p < s.npcb) (i : Nat)
    (hvalid : (s.pcb.userPageTable p i).valid = true) :
    ¬ (Prot.Writable (s.pcb.userPageTable p i).prot ∧
      Prot.Executable (s.pcb.userPageTable p i).prot) := by
  have hguarded : s.memory.Guarded (fun _ => True) (fun _ => True) := by
    refine h.invariant (P := fun s => s.memory.Guarded (fun _ => True)
      (fun _ => True)) ?_ ?_
    · rintro s ⟨b, hb, rfl, hmode⟩
      exact Boot.started_guarded hb hmode (fun _ _ => trivial)
        (.inr ⟨trivial, fun _ => trivial⟩)
    · intro s a s' hreach ih _ hstep
      cases hstep with
      | take henabled =>
          have hcensus := Reachable.census hreach henabled.live
          exact Kernel.take_guarded ih henabled hcensus.idle hcensus.active
            hcensus.zero_used (fun _ hq => hq) fun _ _ _ _ => trivial
  exact ((hguarded.table p hp i).prot hvalid).apart

theorem no_page_writable_and_executable_text :
    let s := (Boot.small 20).kernelStart.run (tick ++ [call (.brk (pageAddr 6))])
    (s.pcb.userPageTable 1 0).valid = true ∧
      Prot.Executable (s.pcb.userPageTable 1 0).prot ∧
      ¬ (Prot.Writable (s.pcb.userPageTable 1 0).prot ∧
        Prot.Executable (s.pcb.userPageTable 1 0).prot) := by
  intro s
  have hreach : Reachable (fun _ _ => True) s :=
    reachable_small 20 _ (by decide +kernel) (by decide +kernel)
  exact ⟨by decide +kernel, by decide +kernel,
    no_page_writable_and_executable hreach (by decide +kernel) 0
      (by decide +kernel)⟩

/-- In every run every valid page of a process that has not terminated has a
frame of the pool: none has a frame of the kernel. -/
theorem user_pages_from_pool {b : Boot} (hb : b.WellFormed)
    (hidle : b.idleFile.frames b.idleArgs ≤ b.pfnList.length) {s : Kernel}
    (h : ReachableFrom b (fun _ _ => True) s) (hlive : s.Live) {p : PcbPtr}
    (hp : p < s.npcb) (hgoes : s.history.terminated p = false) (i : Nat)
    (hvalid : (s.pcb.userPageTable p i).valid = true) :
    (s.pcb.userPageTable p i).pfn ∈ b.pfnList := by
  have hguarded : s.memory.Guarded (· ∈ b.pfnList)
      (s.history.terminated · = true) := by
    revert hlive
    refine h.invariant (P := fun s => s.Live →
      s.memory.Guarded (· ∈ b.pfnList) (s.history.terminated · = true)) ?_ ?_
    · rintro s ⟨rfl, hmode⟩ _
      exact Boot.started_guarded hb hmode (fun _ hf => hf) (.inl hidle)
    · intro s a s' hreach ih _ hstep hlive
      cases hstep with
      | take henabled =>
          have hcensus := Reachable.census (ReachableFrom.reachable hb hreach)
            henabled.live
          have hsync := (Reachable.quiescent (ReachableFrom.reachable hb hreach)
            henabled.live).sync
          obtain ⟨r, heffect, hcore⟩ :=
            take_hasEffect hsync hcensus.zero_used henabled hlive
          refine Kernel.take_guarded (ih henabled.live) henabled hcensus.idle
            hcensus.active hcensus.zero_used ?_ ?_
          · intro q hq
            rw [terminated_of_core hcore]
            refine heffect.terminated ?_
            rw [terminated_of_core (entered_core a)]
            exact hq
          · intro args hargs s₁ hexec
            exact take_execFails_terminated hargs hexec
  exact (hguarded.backed p hp (by simp [hgoes]) i).backed hvalid

/-- The first program runs out of frames in a `Brk` and goes on. -/
theorem user_pages_from_pool_short :
    let b := Boot.small 9
    let s := b.kernelStart.run (tick ++ [call (.brk (pageAddr 8))])
    (s.pcb.userPageTable 1 2).valid = true ∧
      (s.pcb.userPageTable 1 2).pfn ∈ b.pfnList := by
  intro b s
  have hstart : ReachableFrom b (fun _ _ => True) b.kernelStart :=
    .start ⟨rfl, by decide +kernel⟩
  have hreach : ReachableFrom b (fun _ _ => True) s :=
    hstart.run _ (by decide +kernel)
  have hp : (1 : PcbPtr) < s.npcb := by decide +kernel
  have hgoes : s.history.terminated 1 = false := by decide +kernel
  have hvalid : (s.pcb.userPageTable 1 2).valid = true := by decide +kernel
  exact ⟨hvalid, user_pages_from_pool (Boot.small_wellFormed 9)
    (by decide +kernel) hreach (.inl (by decide +kernel)) hp hgoes 2 hvalid⟩

end Yalnix
