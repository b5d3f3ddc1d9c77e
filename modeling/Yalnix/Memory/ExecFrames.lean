import Yalnix.Memory.FrameEffects
import Yalnix.Process.ExecResult

/-!
# Exec and frames

A load that returns no `ERROR` makes no frame.  A load whose loops map every
page once loses none, whether it finds frames for all segments or not.
-/

namespace Yalnix

open Ledger

/-! ## The subscripts of a load -/

/-- A loop that ran to its end has written its whole range. -/
theorem loopWrites_all {first : Int} {count : Nat} {pool rest : List Nat}
    (h : (loopWrites first count pool).2 = some rest) {i : Int}
    (hge : first ≤ i) (hlt : i < first + count) :
    i ∈ (loopWrites first count pool).1 := by
  induction count generalizing first pool with
  | zero => omega
  | succ count ih =>
      rw [loopWrites] at h ⊢
      rcases halloc : allocatePFN pool with ⟨_ | pfn, pool'⟩
      · simp only [halloc] at h
        cases h
      · simp only [halloc] at h ⊢
        rw [List.mem_cons]
        by_cases hi : i = first
        · exact .inl hi
        · exact .inr (ih h (by omega) (by omega))

theorem take_past {xs ys : List Int} {n k : Nat} (h : xs.length = n) :
    (xs ++ ys).take (n + k) = xs ++ ys.take k := by
  rw [← h, List.take_length_add_append]

/-- A loop that ran to its end has written as many subscripts as it has taken
frames. -/
theorem loopWrites_found {first : Int} {count : Nat} {pool rest : List Nat}
    (h : (loopWrites first count pool).2 = some rest) :
    (loopWrites first count pool).1.length = count ∧
      pool.idxOf 0 = count + rest.idxOf 0 := by
  induction count generalizing first pool with
  | zero =>
      cases h
      exact ⟨rfl, (Nat.zero_add _).symm⟩
  | succ count ih =>
      rw [loopWrites] at h ⊢
      rcases halloc : allocatePFN pool with ⟨_ | pfn, pool'⟩
      · simp only [halloc] at h
        cases h
      · simp only [halloc] at h ⊢
        obtain ⟨rfl, hpfn⟩ := allocatePFN_eq_some halloc
        obtain ⟨hlength, hfound⟩ := ih h
        rw [List.length_cons, List.idxOf_cons_ne _ hpfn, hlength, hfound]
        exact ⟨rfl, by omega⟩

/-- The subscripts that get a frame: the last one gets none when the pool is
empty or its next entry is 0. -/
def framedSubscripts (l : Layout) (pool : List Nat) : List Int :=
  (mappedSubscripts l pool).take (pool.idxOf 0)

/-- No page gets two frames when the file is loaded with this pool. -/
def Executable.MapsOnce (file : Executable) (args : List (List UInt8))
    (pool : List Nat) : Prop :=
  ∀ li ∈ file.accepted args, (framedSubscripts (layout li args) pool).Nodup

section Subscripts

variable {l : Layout} {pool pool₁ pool₂ : List Nat}
  (hnodup : (framedSubscripts l pool).Nodup)
  (htext : (loopWrites l.textPg1 l.textCount pool).2 = some pool₁)
include hnodup htext

theorem stack_apart
    (hdata : (loopWrites l.dataPg1 l.dataCount pool₁).2 = some pool₂) :
    ((loopWrites l.textPg1 l.textCount pool).1 ++
      ((loopWrites l.dataPg1 l.dataCount pool₁).1 ++
        (loopWrites l.stackIndex l.stackCount pool₂).1.take
          (pool₂.idxOf 0))).Nodup := by
  obtain ⟨htextLength, htextFound⟩ := loopWrites_found htext
  obtain ⟨hdataLength, hdataFound⟩ := loopWrites_found hdata
  unfold framedSubscripts mappedSubscripts at hnodup
  simp only [htext, hdata, List.append_assoc] at hnodup
  rw [htextFound, take_past htextLength, hdataFound,
    take_past hdataLength] at hnodup
  exact hnodup

theorem data_apart_text {i : Int}
    (hi : i ∈ (loopWrites l.dataPg1 l.dataCount pool₁).1.take
      (pool₁.idxOf 0)) :
    i ∉ (loopWrites l.textPg1 l.textCount pool).1 := by
  intro hmem
  cases hdata : (loopWrites l.dataPg1 l.dataCount pool₁).2 with
  | none =>
      obtain ⟨hlength, hfound⟩ := loopWrites_found htext
      unfold framedSubscripts mappedSubscripts at hnodup
      simp only [htext, hdata] at hnodup
      rw [hfound, take_past hlength] at hnodup
      exact (List.nodup_append.1 hnodup).2.2 i hmem i hi rfl
  | some pool₂ =>
      have hapart := (List.nodup_append.1
        (stack_apart hnodup htext hdata)).2.2
      exact hapart i hmem i
        (List.mem_append_left _ (List.mem_of_mem_take hi)) rfl

theorem stack_apart_text
    (hdata : (loopWrites l.dataPg1 l.dataCount pool₁).2 = some pool₂) {i : Int}
    (hi : i ∈ (loopWrites l.stackIndex l.stackCount pool₂).1.take
      (pool₂.idxOf 0)) :
    i ∉ (loopWrites l.textPg1 l.textCount pool).1 ∧
      i ∉ (loopWrites l.dataPg1 l.dataCount pool₁).1 := by
  obtain ⟨-, hrest, hapart⟩ :=
    List.nodup_append.1 (stack_apart hnodup htext hdata)
  constructor
  · intro hmem
    exact hapart i hmem i (List.mem_append_right _ hi) rfl
  · intro hmem
    exact (List.nodup_append.1 hrest).2.2 i hmem i hi rfl

end Subscripts

/-- A page that gets no frame keeps the one it has. -/
theorem unframed_noneLost {table : Nat → Pte} {i : Nat} (hi : i < userPtSize)
    (prot : Nat) : NoneLost (ownedFrames table)
      (ownedFrames (upd table i ⟨true, prot, (table i).pfn⟩)) := by
  cases hvalid : (table i).valid with
  | true =>
      have hsame : ownedFrames (upd table i ⟨true, prot, (table i).pfn⟩) =
          ownedFrames table := by
        apply ownedFrames_congr
        intro j _
        by_cases hj : j = i
        · rw [hj, upd_same, Pte.frame_valid hvalid]
          rfl
        · rw [upd_other hj]
      rw [hsame]
      exact .refl _
  | false =>
      have hmap : (ownedFrames (upd table i
          ⟨true, prot, (table i).pfn⟩)).Perm
            ((table i).pfn :: ownedFrames table) := ownedFrames_map hi hvalid
      exact (AtMost.cons_self _ _).trans (.of_perm hmap.symm)

/-- A loop that gives frames to free pages only loses none, even when it stops
early. -/
theorem mapPages_noneLost {first : Int} {count : Nat} {table t : Nat → Pte}
    {pool q : List Nat}
    (hfree : ∀ i ∈ (loopWrites first count pool).1.take (pool.idxOf 0),
      (table i.toNat).valid = false)
    (h : mapPages first count table pool = .done t q ∨
      mapPages first count table pool = .noFrame t q) :
    NoneLost (ownedFrames table ++ pool) (ownedFrames t ++ q) := by
  induction count generalizing first table pool with
  | zero =>
      rcases h with h | h
      · cases h
        exact .refl _
      · cases h
  | succ count ih =>
      rw [mapPages] at h
      rw [loopWrites] at hfree
      split at h
      · rcases h with h | h
        · cases h
        · cases h
      · rename_i hinside
        simp only at h
        rcases halloc : allocatePFN pool with ⟨_ | pfn, rest⟩
        · simp only [halloc] at h hfree
          rcases h with h | h
          · cases h
          · cases h
            exact ((allocatePFN_none halloc).noneLost.append_left _).trans
              ((unframed_noneLost (by omega) Prot.noXWR).append_right _)
        · simp only [halloc] at h hfree
          obtain ⟨rfl, hpfn⟩ := allocatePFN_eq_some halloc
          rw [List.idxOf_cons_ne _ hpfn, List.take_succ_cons] at hfree
          have hmap : Conserved (· ≠ 0) (ownedFrames table ++ pfn :: rest)
              (ownedFrames (upd table first.toNat ⟨true, Prot.noXWR, pfn⟩) ++
                rest) :=
            map_conserved (by omega) (hfree first List.mem_cons_self)
          refine hmap.noneLost.trans (ih (fun i hi => ?_) h)
          have hin := loopWrites_inRange (List.mem_of_mem_take hi)
          rw [upd_other (by omega)]
          exact hfree i (List.mem_cons_of_mem _ hi)

namespace Kernel

variable {s s' : Kernel} {p : PcbPtr}

/-! ## The segments -/

theorem loadSegment_noneMade {first : Int} {count : Nat}
    (h : s.loadSegment p first count = some (true, s')) :
    NoneMade (s.holding p) (s'.holding p) := by
  unfold loadSegment at h
  split at h
  · cases h
  · rename_i table pool hmap
    cases h
    rw [setTable_holding]
    exact mapPages_noneMade hmap
  · cases h

/-- What `free_addr_space` pushes when the frames run out is there twice. -/
theorem loadSegment_noneLost {first : Int} {count : Nat} {ok : Bool}
    (hfree : ∀ i ∈ (loopWrites first count s.pfnList).1.take
      (s.pfnList.idxOf 0), (s.pcb.userPageTable p i.toNat).valid = false)
    (h : s.loadSegment p first count = some (ok, s')) :
    NoneLost (s.holding p) (s'.holding p) := by
  unfold loadSegment at h
  split at h
  · cases h
  · rename_i table pool hmap
    cases h
    rw [setTable_holding]
    exact mapPages_noneLost hfree (.inl hmap)
  · rename_i table pool hmap
    cases h
    rw [setTable_holding]
    have hfreed : NoneLost pool
        (freeAddrSpace table (s.pcb.kernelStackPt p) pool) := by
      have hstack := freeTable_perm (s.pcb.kernelStackPt p)
        (List.range kernelStackSize) pool
      have huser := freeTable_perm table (List.range userPtSize)
        (freeTable (s.pcb.kernelStackPt p) (List.range kernelStackSize) pool)
      intro f _
      unfold freeAddrSpace
      rw [huser.count_eq, List.count_append, hstack.count_eq,
        List.count_append]
      omega
    exact (mapPages_noneLost hfree (.inr hmap)).trans (hfreed.append_left _)

/-- A segment loop that ran to its end has mapped the pages it wrote. -/
theorem loadSegment_valid {first : Int} {count : Nat}
    (h : s.loadSegment p first count = some (true, s')) {i : Int}
    (hi : 0 ≤ i) (hout : i ∉ (loopWrites first count s.pfnList).1) :
    (s'.pcb.userPageTable p i.toNat).valid =
      (s.pcb.userPageTable p i.toNat).valid := by
  have hwrites : (loopWrites first count s.pfnList).2 = some s'.pfnList := by
    rcases loadSegment_cases s p first count with
      ⟨heq, -⟩ | ⟨-, ⟨t, heq, -⟩ | ⟨t, heq, hrest⟩⟩
    · rw [heq] at h
      cases h
    · rw [heq] at h
      cases h
    · rw [heq] at h
      cases h
      exact hrest
  have hiff : (s'.pcb.userPageTable p i.toNat).valid = true ↔
      (s.pcb.userPageTable p i.toNat).valid = true ∨
        first ≤ i.toNat ∧ (i.toNat : Int) < first + count :=
    (loadSegment_space h).2.2 i.toNat
  rw [Bool.eq_iff_iff, hiff]
  constructor
  · rintro (hvalid | ⟨hge, hlt⟩)
    · exact hvalid
    · exact absurd (loopWrites_all hwrites (by omega) (by omega)) hout
  · exact .inl

/-! ## The image -/

theorem discardImage_conserved (l : Layout) :
    Conserved (· ≠ 0) (s.holding p)
      (((s.discardImage l p).setTextIndex p l.textPg1).holding p) :=
  .of_perm (discardImage_discarded l).frames.symm

theorem readImage_holding {file : Executable} {li : LoadInfo} {l : Layout}
    {code : Int} (h : s.readImage file li l p = some (code, s')) :
    s'.holding p = s.holding p := by
  rcases readImage_cases h with ⟨-, rfl, -⟩ | ⟨-, -, rfl⟩
  · rfl
  · have htable : upd s.pcb.userPageTable p (protectText l.textPg1
        l.textCount (s.pcb.userPageTable p)) p =
        protectText l.textPg1 l.textCount (s.pcb.userPageTable p) :=
      upd_same _ _ _
    have howned := congrArg ownedFrames htable
    rw [protectText_owned] at howned
    exact congrArg (· ++ s.pfnList) howned

theorem loadImage_noneMade {file : Executable} {li : LoadInfo} {l : Layout}
    {code : Int} (hcode : code ≠ Rc.error)
    (h : s.loadImage file li l p = some (code, s')) :
    NoneMade (s.holding p) (s'.holding p) := by
  have hstart := (discardImage_conserved (s := s) (p := p) l).noneMade
  unfold loadImage at h
  simp only at h
  split at h
  · cases h
  · cases h
    exact absurd rfl hcode
  · rename_i s₁ htext
    have h₁ := (loadSegment_noneMade htext).trans hstart
    split at h
    · cases h
    · cases h
      exact absurd rfl hcode
    · rename_i s₂ hdata
      have h₂ := (loadSegment_noneMade hdata).trans h₁
      split at h
      · cases h
      · cases h
        exact absurd rfl hcode
      · rename_i s₃ hstack
        have h₃ := (loadSegment_noneMade hstack).trans h₂
        rw [readImage_holding h]
        exact h₃

/-- The discarded table is free, so a load whose framed subscripts are distinct
gives frames to free pages only. -/
theorem loadImage_noneLost {file : Executable} {li : LoadInfo} {l : Layout}
    {code : Int} (hnodup : (framedSubscripts l (s.freedPool p)).Nodup)
    (h : s.loadImage file li l p = some (code, s')) :
    NoneLost (s.holding p) (s'.holding p) := by
  have hstart := (discardImage_conserved (s := s) (p := p) l).noneLost
  have hold (i : Int) (hi : 0 ≤ i ∧ i < userPtSize) :
      ((s.discardImage l p).pcb.userPageTable p i.toNat).valid = false :=
    discardImage_space l i.toNat (by omega)
  have hwrites {first : Int} {count : Nat} {r : Kernel} {x : Bool × Kernel}
      (hseg : r.loadSegment p first count = some x) :
      ∀ i ∈ (loopWrites first count r.pfnList).1.take (r.pfnList.idxOf 0),
        0 ≤ i ∧ i < userPtSize := by
    rcases loadSegment_cases r p first count with ⟨heq, -⟩ | ⟨hin, -⟩
    · rw [heq] at hseg
      cases hseg
    · exact fun i hi => hin i (List.mem_of_mem_take hi)
  have hdone {first : Int} {count : Nat} {r r' : Kernel}
      (hseg : r.loadSegment p first count = some (true, r')) :
      (loopWrites first count r.pfnList).2 = some r'.pfnList := by
    rcases loadSegment_cases r p first count with
      ⟨heq, -⟩ | ⟨-, ⟨t, heq, -⟩ | ⟨t, heq, hrest⟩⟩
    · rw [heq] at hseg
      cases hseg
    · rw [heq] at hseg
      cases hseg
    · rw [heq] at hseg
      cases hseg
      exact hrest
  unfold loadImage at h
  simp only at h
  split at h
  · cases h
  · rename_i htext
    cases h
    exact hstart.trans (loadSegment_noneLost
      (fun i hi => hold i (hwrites htext i hi)) htext)
  · rename_i s₁ htext
    have h₁ := hstart.trans (loadSegment_noneLost
      (fun i hi => hold i (hwrites htext i hi)) htext)
    have hpool₁ := hdone htext
    have hvalid₁ {i : Int} (hi : 0 ≤ i ∧ i < userPtSize)
        (hout : i ∉ (loopWrites l.textPg1 l.textCount (s.freedPool p)).1) :
        (s₁.pcb.userPageTable p i.toNat).valid = false :=
      (loadSegment_valid htext hi.1 hout).trans (hold i hi)
    split at h
    · cases h
    · rename_i hdata
      cases h
      refine h₁.trans (loadSegment_noneLost (s := s₁.setDataIndex p l.dataPg1)
        (fun i hi => ?_) hdata)
      exact hvalid₁ (hwrites hdata i hi) (data_apart_text hnodup hpool₁ hi)
    · rename_i s₂ hdata
      have h₂ := h₁.trans (loadSegment_noneLost
        (s := s₁.setDataIndex p l.dataPg1)
        (fun i hi => hvalid₁ (hwrites hdata i hi)
          (data_apart_text hnodup hpool₁ hi)) hdata)
      have hpool₂ := hdone hdata
      have hvalid₂ {i : Int} (hi : 0 ≤ i ∧ i < userPtSize)
          (hstack : i ∈ (loopWrites l.stackIndex l.stackCount
            s₂.pfnList).1.take (s₂.pfnList.idxOf 0)) :
          (s₂.pcb.userPageTable p i.toNat).valid = false := by
        obtain ⟨htextOut, hdataOut⟩ :=
          stack_apart_text hnodup hpool₁ hpool₂ hstack
        exact (loadSegment_valid hdata hi.1 hdataOut).trans
          (hvalid₁ hi htextOut)
      split at h
      · cases h
      · rename_i hstack
        cases h
        exact h₂.trans (loadSegment_noneLost
          (s := (s₂.setHeapIndex p l.heapIndex).setStackIndex p l.stackIndex)
          (fun i hi => hvalid₂ (hwrites hstack i hi) hi) hstack)
      · rename_i s₃ hstack
        have h₃ := h₂.trans (loadSegment_noneLost
          (s := (s₂.setHeapIndex p l.heapIndex).setStackIndex p l.stackIndex)
          (fun i hi => hvalid₂ (hwrites hstack i hi) hi) hstack)
        rw [readImage_holding h]
        exact h₃

theorem loadProgram_noneMade {file : Executable} {args : List (List UInt8)}
    {code : Int} (hcode : file.accepted args ≠ none → code ≠ Rc.error)
    (h : s.loadProgram file args p = some (code, s')) :
    NoneMade (s.holding p) (s'.holding p) := by
  rw [loadProgram_eq] at h
  cases haccepted : file.accepted args with
  | none =>
      rw [haccepted] at h
      cases h
      exact .refl _
  | some li =>
      rw [haccepted] at h hcode
      exact loadImage_noneMade (hcode nofun) h

theorem loadProgram_noneLost {file : Executable} {args : List (List UInt8)}
    {code : Int} (honce : file.MapsOnce args (s.freedPool p))
    (h : s.loadProgram file args p = some (code, s')) :
    NoneLost (s.holding p) (s'.holding p) := by
  rw [loadProgram_eq] at h
  cases haccepted : file.accepted args with
  | none =>
      rw [haccepted] at h
      cases h
      exact .refl _
  | some li =>
      rw [haccepted] at h
      exact loadImage_noneLost (honce li haccepted) h

/-! ## The call -/

/-- What an `Exec` call comes to: the checks refuse it, or an image is loaded. -/
inductive ExecCase (s : Kernel) (a : ExecArgs) : Int → Kernel → Prop where
  | refused {s₁ : Kernel} : SameTables s s₁ → s₁.pfnList = s.pfnList →
      ExecCase s a Rc.error s₁
  | loads {li : LoadInfo} {code result : Int} {s₁ : Kernel} :
      a.nonNull = true → a.file.accepted a.args = some li →
      (s.setUserContext s.activePCB ⟨0, 0⟩).loadImage a.file li
        (layout li a.args) s.activePCB = some (result, s₁) →
      (code = Rc.error ↔ result = Rc.error) → ExecCase s a code s₁

theorem kernelExec_case {a : ExecArgs} {code : Int} {s₁ : Kernel}
    (h : s.kernelExec a = some (code, s₁)) : ExecCase s a code s₁ := by
  cases hnull : a.nonNull with
  | false =>
      have hcall : s.kernelExec a = some (Rc.error, s) := by
        unfold kernelExec
        rw [hnull]
        rfl
      rw [hcall] at h
      cases h
      exact .refused ⟨rfl, rfl, rfl⟩ rfl
  | true =>
      cases haccepted : a.file.accepted a.args with
      | none =>
          have hcall : s.kernelExec a = some (Rc.error,
              s.setUserContext s.activePCB ⟨0, 0⟩) := by
            unfold kernelExec
            simp only [hnull, loadProgram_eq, haccepted]
            rfl
          rw [hcall] at h
          cases h
          exact .refused ⟨rfl, rfl, rfl⟩ rfl
      | some li =>
          rcases hload : (s.setUserContext s.activePCB ⟨0, 0⟩).loadImage a.file
            li (layout li a.args) s.activePCB with _ | ⟨result, r⟩
          · rw [(kernelExec_accepted hnull haccepted hload).2] at h
            cases h
          · rw [(kernelExec_accepted hnull haccepted hload).2] at h
            cases h
            refine .loads hnull haccepted hload ?_
            simp only
            split
            · rename_i herror
              exact iff_of_true rfl herror
            · rename_i herror
              exact iff_of_false (by decide) herror

end Kernel

end Yalnix
