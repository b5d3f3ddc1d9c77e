import Yalnix.Memory.Changes

/-!
# The context that LoadProgram stores

The stack pointer is stored as soon as the checks are passed, the entry point
only when all segments have frames and both reads succeed.
-/

namespace Yalnix

/-- The frames of the three segments. -/
def Layout.frames (l : Layout) : Nat := l.textCount + l.dataCount + l.stackCount

/-- The frames that a load needs. -/
def Executable.frames (file : Executable) (args : List (List UInt8)) : Nat :=
  match file.accepted args with
  | none => 0
  | some li => (layout li args).frames

/-- The user context in the PCB after `LoadProgram`, with `frames` in the pool
and `ctx` in the PCB before. -/
def loadedContext (ctx : UserContext) (file : Executable)
    (args : List (List UInt8)) (frames : Nat) : UserContext :=
  match file.accepted args with
  | none => ctx
  | some li =>
      { sp := (layout li args).sp
        pc :=
          if (layout li args).frames ≤ frames ∧ file.textReads = true ∧
              file.dataReads = true then li.entry
          else ctx.pc }

/-- The context that `LoadProgram` has stored with `frames` in the pool, if it
returns `SUCCESS`. -/
def storedContext (file : Executable) (args : List (List UInt8))
    (frames : Nat) : Option UserContext :=
  match file.accepted args with
  | none => none
  | some li =>
      if (layout li args).frames ≤ frames ∧ file.textReads = true ∧
          file.dataReads = true then
        some ⟨(layout li args).sp, li.entry⟩
      else none

/-- A successful load leaves what it has stored. -/
theorem loadedContext_of_stored {file : Executable} {args : List (List UInt8)}
    {frames : Nat} {ctx : UserContext}
    (h : storedContext file args frames = some ctx) (before : UserContext) :
    loadedContext before file args frames = ctx := by
  unfold storedContext at h
  unfold loadedContext
  split at h
  · cases h
  · split at h
    · rename_i hloads
      cases h
      simp only [if_pos hloads]
    · cases h

/-! ## Frames -/

theorem allocatePFN_length {pool : List Nat} (hzero : 0 ∉ pool) :
    (pool = [] ∧ allocatePFN pool = (none, [])) ∨
      ∃ pfn rest, pool = pfn :: rest ∧ 0 ∉ rest ∧
        allocatePFN pool = (some pfn, rest) := by
  cases pool with
  | nil => exact .inl ⟨rfl, rfl⟩
  | cons pfn rest =>
      have hpfn : pfn ≠ 0 := fun h => hzero (h ▸ List.mem_cons_self)
      refine .inr ⟨pfn, rest, rfl, fun h => hzero (List.mem_cons_of_mem _ h), ?_⟩
      rw [allocatePFN, if_neg hpfn]

/-- The loop takes one frame a page. -/
theorem mapPages_done {first : Int} {count : Nat} {table table' : Nat → Pte}
    {pool rest : List Nat} (hzero : 0 ∉ pool)
    (h : mapPages first count table pool = .done table' rest) :
    pool.length = count + rest.length ∧ 0 ∉ rest := by
  induction count generalizing first table pool with
  | zero =>
      cases h
      exact ⟨(Nat.zero_add _).symm, hzero⟩
  | succ count ih =>
      rw [mapPages] at h
      split at h
      · cases h
      · rcases allocatePFN_length hzero with
          ⟨rfl, halloc⟩ | ⟨pfn, pool', rfl, hrest, halloc⟩
        · simp only [halloc] at h
          cases h
        · simp only [halloc] at h
          obtain ⟨hlength, hzero'⟩ := ih hrest h
          rw [List.length_cons, hlength]
          exact ⟨by omega, hzero'⟩

/-- The loop stops early when there are fewer frames than pages. -/
theorem mapPages_noFrame {first : Int} {count : Nat} {table table' : Nat → Pte}
    {pool rest : List Nat} (hzero : 0 ∉ pool)
    (h : mapPages first count table pool = .noFrame table' rest) :
    pool.length < count := by
  induction count generalizing first table pool with
  | zero => cases h
  | succ count ih =>
      rw [mapPages] at h
      split at h
      · cases h
      · rcases allocatePFN_length hzero with
          ⟨rfl, halloc⟩ | ⟨pfn, pool', rfl, hrest, halloc⟩
        · exact Nat.succ_pos _
        · simp only [halloc] at h
          have hlength := ih hrest h
          rw [List.length_cons]
          omega

theorem discardRegion1_invalid {pages : List Nat} {table : Nat → Pte}
    (pool : List Nat) (h : ∀ i ∈ pages, (table i).valid = false) :
    discardRegion1 pages table pool = (table, pool) := by
  induction pages with
  | nil => rfl
  | cons i pages ih =>
      rw [discardRegion1, h i List.mem_cons_self]
      exact ih fun j hj => h j (List.mem_cons_of_mem _ hj)

/-! ## Segments -/

namespace Kernel

variable {s s' : Kernel} {p : PcbPtr}

/-- `LoadProgram` from the discarding of the old Region 1 to the flush before
its reads. -/
def buildImage (s : Kernel) (l : Layout) (p : PcbPtr) :
    Option (Bool × Kernel) :=
  let s := (s.discardImage l p).setTextIndex p l.textPg1
  match s.loadSegment p l.textPg1 l.textCount with
  | none => none
  | some (false, s) => some (false, s)
  | some (true, s) =>
      let s := s.setDataIndex p l.dataPg1
      match s.loadSegment p l.dataPg1 l.dataCount with
      | none => none
      | some (false, s) => some (false, s)
      | some (true, s) =>
          let s := (s.setHeapIndex p l.heapIndex).setStackIndex p l.stackIndex
          s.loadSegment p l.stackIndex l.stackCount

theorem loadImage_eq (file : Executable) (li : LoadInfo) (l : Layout) :
    s.loadImage file li l p =
      match s.buildImage l p with
      | none => none
      | some (false, s) => some (Rc.error, s)
      | some (true, s) => s.readImage file li l p := by
  unfold loadImage buildImage
  simp only
  rcases ((s.discardImage l p).setTextIndex p l.textPg1).loadSegment p
    l.textPg1 l.textCount with _ | ⟨_ | _, s₁⟩
  · rfl
  · rfl
  · simp only
    rcases (s₁.setDataIndex p l.dataPg1).loadSegment p l.dataPg1
      l.dataCount with _ | ⟨_ | _, s₂⟩
    · rfl
    · rfl
    · rfl

theorem loadSegment_userContext {first : Int} {count : Nat} {ok : Bool}
    (h : s.loadSegment p first count = some (ok, s')) :
    s'.pcb.userContext = s.pcb.userContext := by
  unfold loadSegment at h
  split at h
  · cases h
  · cases h
    rfl
  · cases h
    rfl

theorem loadSegment_true {first : Int} {count : Nat} (hzero : 0 ∉ s.pfnList)
    (h : s.loadSegment p first count = some (true, s')) :
    s.pfnList.length = count + s'.pfnList.length ∧ 0 ∉ s'.pfnList := by
  unfold loadSegment at h
  split at h
  · cases h
  · rename_i table pool hmap
    cases h
    exact mapPages_done hzero hmap
  · cases h

theorem loadSegment_false {first : Int} {count : Nat} (hzero : 0 ∉ s.pfnList)
    (h : s.loadSegment p first count = some (false, s')) :
    s.pfnList.length < count := by
  unfold loadSegment at h
  split at h
  · cases h
  · cases h
  · rename_i table pool hmap
    cases h
    exact mapPages_noFrame hzero hmap

theorem readImage_userContext {file : Executable} {li : LoadInfo} {l : Layout}
    {code : Int} (h : s.readImage file li l p = some (code, s')) :
    s'.pcb.userContext p =
      { s.pcb.userContext p with
        pc :=
          if file.textReads = true ∧ file.dataReads = true then li.entry
          else (s.pcb.userContext p).pc } := by
  rcases readImage_cases h with ⟨-, rfl, hreads⟩ | ⟨-, hreads, rfl⟩
  · rw [if_neg hreads]
  · rw [if_pos hreads]
    exact upd_same _ _ _

theorem readImage_code {file : Executable} {li : LoadInfo} {l : Layout}
    {code : Int} (h : s.readImage file li l p = some (code, s')) :
    code ≠ Rc.error := by
  rcases readImage_cases h with ⟨rfl, -, -⟩ | ⟨rfl, -, -⟩
  · decide
  · decide

/-- A load that fails for want of frames has only stored the stack pointer. -/
theorem loadImage_userContext {file : Executable} {li : LoadInfo} {l : Layout}
    {code : Int} (h : s.loadImage file li l p = some (code, s')) :
    s'.pcb.userContext p =
      { sp := l.sp
        pc :=
          if code ≠ Rc.error ∧ file.textReads = true ∧ file.dataReads = true
          then li.entry
          else (s.pcb.userContext p).pc } := by
  have hcontext : ((s.discardImage l p).setTextIndex p
      l.textPg1).pcb.userContext p = { s.pcb.userContext p with sp := l.sp } :=
    upd_same _ _ _
  have hfails (hctx : s'.pcb.userContext p =
      { s.pcb.userContext p with sp := l.sp }) (hcode : code = Rc.error) :
      s'.pcb.userContext p =
        { sp := l.sp
          pc :=
            if code ≠ Rc.error ∧ file.textReads = true ∧ file.dataReads = true
            then li.entry
            else (s.pcb.userContext p).pc } := by
    rw [hctx, if_neg fun hok => hok.1 hcode]
  unfold loadImage at h
  simp only at h
  split at h
  · cases h
  · rename_i htext
    cases h
    exact hfails ((congrFun (loadSegment_userContext htext) p).trans hcontext)
      rfl
  · rename_i s₁ htext
    have hcontext₁ :=
      (congrFun (loadSegment_userContext htext) p).trans hcontext
    split at h
    · cases h
    · rename_i hdata
      cases h
      exact hfails
        ((congrFun (loadSegment_userContext hdata) p).trans hcontext₁) rfl
    · rename_i s₂ hdata
      have hcontext₂ :=
        (congrFun (loadSegment_userContext hdata) p).trans hcontext₁
      split at h
      · cases h
      · rename_i hstack
        cases h
        exact hfails
          ((congrFun (loadSegment_userContext hstack) p).trans hcontext₂) rfl
      · rename_i s₃ hstack
        have hcontext₃ :=
          (congrFun (loadSegment_userContext hstack) p).trans hcontext₂
        have hread := readImage_userContext h
        have hcode := readImage_code h
        rw [hcontext₃] at hread
        simp only [ne_eq, hcode, not_false_eq_true, true_and]
        exact hread

/-- A process without pages of its own gets the frames of all segments, or the
load fails. -/
theorem loadImage_frames {file : Executable} {li : LoadInfo} {l : Layout}
    {code : Int} (hzero : 0 ∉ s.pfnList)
    (hfresh : ∀ i, (s.pcb.userPageTable p i).valid = false)
    (h : s.loadImage file li l p = some (code, s')) :
    code ≠ Rc.error ↔ l.frames ≤ s.pfnList.length := by
  have hpool : ((s.discardImage l p).setTextIndex p l.textPg1).pfnList =
      s.pfnList := by
    have hinvalid : ∀ i ∈ List.range userPtSize,
        (s.pcb.userPageTable p i).valid = false := fun i _ => hfresh i
    have hdiscard := discardRegion1_invalid s.pfnList hinvalid
    exact congrArg Prod.snd hdiscard
  have hframes : l.frames = l.textCount + l.dataCount + l.stackCount := rfl
  have hfails (hcode : code = Rc.error) (hlt : s.pfnList.length < l.frames) :
      code ≠ Rc.error ↔ l.frames ≤ s.pfnList.length :=
    iff_of_false (fun hne => hne hcode) (Nat.not_le.2 hlt)
  unfold loadImage at h
  simp only at h
  split at h
  · cases h
  · rename_i htext
    cases h
    have hlt := loadSegment_false (hpool.symm ▸ hzero) htext
    rw [hpool] at hlt
    exact hfails rfl (by omega)
  · rename_i s₁ htext
    obtain ⟨hlen₁, hzero₁⟩ := loadSegment_true (hpool.symm ▸ hzero) htext
    rw [hpool] at hlen₁
    split at h
    · cases h
    · rename_i hdata
      cases h
      have hlt : s₁.pfnList.length < l.dataCount := loadSegment_false
        (s := s₁.setDataIndex p l.dataPg1) hzero₁ hdata
      exact hfails rfl (by omega)
    · rename_i s₂ hdata
      obtain ⟨hlen₂, hzero₂⟩ :=
        loadSegment_true (s := s₁.setDataIndex p l.dataPg1) hzero₁ hdata
      have hlen₂' : s₁.pfnList.length = l.dataCount + s₂.pfnList.length := hlen₂
      split at h
      · cases h
      · rename_i hstack
        cases h
        have hlt : s₂.pfnList.length < l.stackCount := loadSegment_false
          (s := (s₂.setHeapIndex p l.heapIndex).setStackIndex p l.stackIndex)
          hzero₂ hstack
        exact hfails rfl (by omega)
      · rename_i s₃ hstack
        have hlen₃ : s₂.pfnList.length = l.stackCount + s₃.pfnList.length :=
          (loadSegment_true (s := (s₂.setHeapIndex p
            l.heapIndex).setStackIndex p l.stackIndex) hzero₂ hstack).1
        exact iff_of_true (readImage_code h) (by omega)

theorem loadProgram_eq (file : Executable) (args : List (List UInt8)) :
    s.loadProgram file args p =
      match file.accepted args with
      | none => some (Rc.error, s)
      | some li => s.loadImage file li (layout li args) p := by
  unfold loadProgram Executable.accepted
  split
  · rfl
  · cases file.info with
    | none => rfl
    | some li =>
        simp only
        split
        · rfl
        · split
          · rfl
          · rfl

/-- The context that `LoadProgram` leaves in the PCB of a fresh process. -/
theorem loadProgram_userContext {file : Executable}
    {args : List (List UInt8)} {code : Int} (hzero : 0 ∉ s.pfnList)
    (hfresh : ∀ i, (s.pcb.userPageTable p i).valid = false)
    (h : s.loadProgram file args p = some (code, s')) :
    s'.pcb.userContext p = loadedContext (s.pcb.userContext p) file args
      s.pfnList.length := by
  rw [loadProgram_eq] at h
  unfold loadedContext
  cases haccepted : file.accepted args with
  | none =>
      rw [haccepted] at h
      cases h
      rfl
  | some li =>
      rw [haccepted] at h
      rw [loadImage_userContext h]
      simp only [loadImage_frames hzero hfresh h]

/-- The context that a successful `LoadProgram` leaves. -/
theorem loadProgram_userContext_of_ne {file : Executable}
    {args : List (List UInt8)} {code : Int} (hcode : code ≠ Rc.error)
    (h : s.loadProgram file args p = some (code, s')) :
    s'.pcb.userContext p = loadedContext (s.pcb.userContext p) file args
      (file.frames args) := by
  rw [loadProgram_eq] at h
  unfold loadedContext Executable.frames
  cases haccepted : file.accepted args with
  | none =>
      rw [haccepted] at h
      cases h
      exact absurd rfl hcode
  | some li =>
      rw [haccepted] at h
      rw [loadImage_userContext h]
      simp only [hcode, ne_eq, not_false_eq_true, Nat.le_refl]

/-- What `LoadProgram` has stored in the PCB of `p` when it returns `SUCCESS`. -/
def storedBy (s : Kernel) (file : Executable) (args : List (List UInt8))
    (p : PcbPtr) : Option UserContext :=
  match s.loadProgram file args p with
  | none => none
  | some (code, s₁) =>
      if code = Rc.success then some (s₁.pcb.userContext p) else none

/-- A load that returns stores a context if `frames` is enough for its image
exactly when it does not fail, and both its reads succeed. -/
theorem storedBy_eq {file : Executable} {args : List (List UInt8)}
    {code : Int} {frames : Nat}
    (hframes : ∀ li ∈ file.accepted args,
      (layout li args).frames ≤ frames ↔ code ≠ Rc.error)
    (h : s.loadProgram file args p = some (code, s')) :
    s.storedBy file args p = storedContext file args frames := by
  unfold storedBy storedContext
  rw [h]
  simp only
  rw [loadProgram_eq] at h
  cases haccepted : file.accepted args with
  | none =>
      rw [haccepted] at h
      cases h
      rfl
  | some li =>
      rw [haccepted] at h
      have hcontext := loadImage_userContext h
      simp only [hframes li haccepted]
      simp only [loadImage_eq] at h
      split at h
      · cases h
      · cases h
        rw [if_neg (by decide), if_neg fun h => h.1 rfl]
      · rcases readImage_cases h with ⟨rfl, -, hreads⟩ | ⟨rfl, hreads, -⟩
        · rw [if_neg (by decide), if_neg fun h => hreads h.2]
        · have hloads : (Rc.success : Int) ≠ Rc.error ∧
              file.textReads = true ∧ file.dataReads = true :=
            ⟨by decide, hreads⟩
          rw [if_pos rfl, if_pos hloads, hcontext, if_pos hloads]

/-- The load of a fresh process, from a pool without frame 0. -/
theorem storedBy_fresh {file : Executable} {args : List (List UInt8)}
    {code : Int} (hzero : 0 ∉ s.pfnList)
    (hfresh : ∀ i, (s.pcb.userPageTable p i).valid = false)
    (h : s.loadProgram file args p = some (code, s')) :
    s.storedBy file args p = storedContext file args s.pfnList.length := by
  apply storedBy_eq _ h
  intro li haccepted
  rw [loadProgram_eq, haccepted] at h
  exact (loadImage_frames hzero hfresh h).symm

end Kernel

end Yalnix
