import Yalnix.Memory.ImageLayout

/-!
# The argument block

The arguments are saved in `argbuf` and copied to the top of the new stack, with
three cursors that `strlen` moves along.  The block at the stored stack pointer
decodes to the argument vector.
-/

namespace Yalnix

open ByteMemory

/-- `argc`, the pointers, the two NULL words, the gap and the strings, from the
stack pointer to the end of Region 1. -/
structure ArgumentBlock (m : Bytes) (sp : Nat) (args : List (List UInt8)) :
    Prop where
  argc : loadWord m sp = args.length
  strings : ∀ (i : Nat) (hi : i < args.length),
    StringAt m (loadWord m (sp + 4 * (1 + i))) args[i]
  order : ∀ i, i < args.length →
    loadWord m (sp + 4 * (1 + i)) + totalSize (args.drop i) = vmem1Limit
  argvEnd : loadWord m (sp + 4 * (1 + args.length)) = 0
  envpEnd : loadWord m (sp + 4 * (2 + args.length)) = 0
  gap : ∀ a, sp + 4 * (3 + args.length) ≤ a →
    a + totalSize args < vmem1Limit → m a = 0
  gapSize : sp + 4 * (3 + args.length) + 4 * postArgvNullSpace +
    totalSize args ≤ vmem1Limit
  aligned : sp % 8 = 0

@[simp] theorem totalSize_nil : totalSize [] = 0 := rfl

@[simp] theorem totalSize_cons (arg : List UInt8) (args : List (List UInt8)) :
    totalSize (arg :: args) = arg.length + 1 + totalSize args := by
  simp [totalSize]

theorem length_lt_totalSize {arg : List UInt8} {args : List (List UInt8)}
    (h : arg ∈ args) : arg.length < totalSize args := by
  induction args with
  | nil => cases h
  | cons first args ih =>
      rw [totalSize_cons]
      rcases List.mem_cons.1 h with rfl | hrest
      · omega
      · have hlt := ih hrest
        omega

theorem totalSize_take_drop (args : List (List UInt8)) (i : Nat) :
    totalSize (args.take i) + totalSize (args.drop i) = totalSize args := by
  induction args generalizing i with
  | nil => simp
  | cons arg args ih =>
      cases i with
      | zero => simp
      | succ i =>
          have hrest := ih i
          simp only [List.take_succ_cons, List.drop_succ_cons, totalSize_cons]
          omega

/-! ## Strings one after the other -/

theorem stringsAt_get {m : Bytes} {a : Nat} {args : List (List UInt8)}
    (h : StringsAt m a args) {i : Nat} (hi : i < args.length) :
    StringAt m (a + totalSize (args.take i)) args[i] := by
  induction args generalizing a i with
  | nil => cases hi
  | cons arg args ih =>
      obtain ⟨hfirst, hrest⟩ := h
      cases i with
      | zero => exact hfirst
      | succ i =>
          have hget := ih hrest (i := i) (by simpa using hi)
          simp only [List.take_succ_cons, totalSize_cons,
            List.getElem_cons_succ]
          rw [show a + (arg.length + 1 + totalSize (args.take i)) =
            a + arg.length + 1 + totalSize (args.take i) by omega]
          exact hget

/-- What the loops rely on: no zero byte inside a string, and no string longer
than virtual memory. -/
def Terminated (args : List (List UInt8)) : Prop :=
  ∀ arg ∈ args, 0 ∉ arg ∧ arg.length < vmem1Limit

theorem Terminated.head {arg : List UInt8} {args : List (List UInt8)}
    (h : Terminated (arg :: args)) : 0 ∉ arg ∧ arg.length < vmem1Limit :=
  h arg List.mem_cons_self

theorem Terminated.tail {arg : List UInt8} {args : List (List UInt8)}
    (h : Terminated (arg :: args)) : Terminated args :=
  fun other hother => h other (List.mem_cons_of_mem _ hother)

theorem strlen_eq {m : Bytes} {a : Nat} {arg : List UInt8}
    (h : StringAt m a arg) (harg : 0 ∉ arg ∧ arg.length < vmem1Limit) :
    strlen m a = arg.length :=
  h.length harg.1 harg.2

/-- The saving loop leaves the strings in order and writes nothing below. -/
theorem saveArgs_stringsAt {args : List (List UInt8)} {argbuf : Bytes}
    {cp2 : Nat} (h : Terminated args) :
    StringsAt (saveArgs args argbuf cp2) cp2 args ∧
      ∀ a < cp2, saveArgs args argbuf cp2 a = argbuf a := by
  induction args generalizing argbuf cp2 with
  | nil =>
      constructor
      · trivial
      · intro a _
        rfl
  | cons arg args ih =>
      have hsaved : StringAt (write argbuf cp2 (arg ++ [0])) cp2 arg :=
        StringAt.write
      have hlength := strlen_eq hsaved h.head
      have htail : StringsAt (saveArgs args (write argbuf cp2 (arg ++ [0]))
          (cp2 + arg.length + 1)) (cp2 + arg.length + 1) args ∧
            ∀ a < cp2 + arg.length + 1, saveArgs args
              (write argbuf cp2 (arg ++ [0])) (cp2 + arg.length + 1) a =
                write argbuf cp2 (arg ++ [0]) a := ih h.tail
      obtain ⟨hrest, hbelow⟩ := htail
      simp only [saveArgs, hlength]
      constructor
      · refine ⟨hsaved.congr ?_, hrest⟩
        intro a _ hlt
        exact hbelow a (by omega)
      · intro a ha
        rw [hbelow a (by omega)]
        exact write_outside (.inl ha)

/-- What the building loop leaves behind. -/
structure CopiedArgs (args : List (List UInt8)) (m : Bytes) (cpp cp : Nat)
    (built : Bytes × Nat) : Prop where
  moved : built.2 = cpp + 4 * args.length
  strings : StringsAt built.1 cp args
  pointers : ∀ i < args.length,
    loadWord built.1 (cpp + 4 * i) = cp + totalSize (args.take i)
  outside : ∀ a, (a < cpp ∨ cpp + 4 * args.length ≤ a) →
    (a < cp ∨ cp + totalSize args ≤ a) → built.1 a = m a

theorem copyArgs_copied {args : List (List UInt8)} {argbuf m : Bytes}
    {cpp cp cp2 : Nat} (h : Terminated args) (hsaved : StringsAt argbuf cp2 args)
    (hroom : cpp + 4 * args.length ≤ cp) (htop : cp + totalSize args < 2 ^ 32) :
    CopiedArgs args m cpp cp (copyArgs argbuf args.length m cpp cp cp2) := by
  induction args generalizing m cpp cp cp2 with
  | nil =>
      constructor
      · rfl
      · trivial
      · intro i hi
        cases hi
      · intro a _ _
        rfl
  | cons arg args ih =>
      obtain ⟨hfirst, hrest⟩ := hsaved
      rw [totalSize_cons] at htop
      rw [List.length_cons] at hroom
      have hcopied : strcpy (storeWord m cpp cp) cp argbuf cp2 =
          write (storeWord m cpp cp) cp (arg ++ [0]) := by
        unfold strcpy
        rw [strlen_eq hfirst h.head, hfirst]
      have hstring : StringAt (write (storeWord m cpp cp) cp (arg ++ [0])) cp
          arg := StringAt.write
      have htail : CopiedArgs args (write (storeWord m cpp cp) cp (arg ++ [0]))
          (cpp + 4) (cp + arg.length + 1) (copyArgs argbuf args.length
            (write (storeWord m cpp cp) cp (arg ++ [0])) (cpp + 4)
              (cp + arg.length + 1) (cp2 + arg.length + 1)) :=
        ih h.tail hrest (by omega) (by omega)
      simp only [List.length_cons, copyArgs, hcopied, strlen_eq hstring h.head,
        strlen_eq hfirst h.head]
      have hkept : ∀ a, cpp ≤ a → a < cpp + 4 → (copyArgs argbuf args.length
          (write (storeWord m cpp cp) cp (arg ++ [0])) (cpp + 4)
            (cp + arg.length + 1) (cp2 + arg.length + 1)).1 a =
              storeWord m cpp cp a := by
        intro a _ hlt
        rw [htail.outside a (by omega) (by omega)]
        exact write_outside (by omega)
      constructor
      · rw [htail.moved]
        rw [List.length_cons]
        omega
      · refine ⟨hstring.congr ?_, htail.strings⟩
        intro a hge hlt
        exact htail.outside a (by omega) (by omega)
      · intro i hi
        cases i with
        | zero =>
            rw [show cpp + 4 * 0 = cpp by omega, loadWord_congr hkept,
              loadWord_storeWord (by omega)]
            rfl
        | succ i =>
            have hpointer := htail.pointers i (by simpa using hi)
            rw [show cpp + 4 * (i + 1) = cpp + 4 + 4 * i by omega, hpointer]
            simp only [List.take_succ_cons, totalSize_cons]
            omega
      · intro a hwords hstrings
        rw [List.length_cons] at hwords
        rw [totalSize_cons] at hstrings
        rw [htail.outside a (by omega) (by omega), write_outside]
        · exact storeWord_outside (by omega)
        · rw [List.length_append, List.length_singleton]
          omega

/-! ## The block -/

/-- The memory between the pointers and the strings is zeroed, and nothing below
the stack pointer is written. -/
structure FinishedArgs (args : List (List UInt8)) (sp : Nat) (m m' : Bytes) :
    Prop where
  argc : loadWord m' sp = args.length
  strings : StringsAt m' (vmem1Limit - totalSize args) args
  pointers : ∀ i < args.length, loadWord m' (sp + 4 * (1 + i)) =
    vmem1Limit - totalSize args + totalSize (args.take i)
  zeroed : ∀ a, sp + 4 * (1 + args.length) ≤ a →
    a + totalSize args < vmem1Limit → m' a = 0
  below : ∀ a < sp, m' a = m a

/-- The end of the function, around its loop. -/
theorem CopiedArgs.finished {args : List (List UInt8)} {sp : Nat}
    {m m₂ : Bytes} {cpp : Nat}
    (htop : sp + (args.length + 3 + postArgvNullSpace) * 4 + totalSize args ≤
      vmem1Limit)
    (h : CopiedArgs args
      (storeWord (zero m sp (vmem1Limit - sp)) sp args.length) (sp + 4)
        (vmem1Limit - totalSize args) (m₂, cpp)) :
    FinishedArgs args sp m (storeWord (storeWord m₂ cpp 0) (cpp + 4) 0) := by
  have hcpp : cpp = sp + 4 + 4 * args.length := h.moved
  have hlast (a : Nat) (ha : a < cpp ∨ cpp + 8 ≤ a) :
      storeWord (storeWord m₂ cpp 0) (cpp + 4) 0 a = m₂ a := by
    rw [storeWord_outside (by omega), storeWord_outside (by omega)]
  have hzeroed (a : Nat) (hge : cpp ≤ a)
      (hlt : a + totalSize args < vmem1Limit) :
      storeWord (storeWord m₂ cpp 0) (cpp + 4) 0 a = 0 := by
    by_cases hword : a < cpp + 8
    · by_cases hfirst : a < cpp + 4
      · rw [storeWord_outside (by omega)]
        exact storeWord_zero hge hfirst
      · exact storeWord_zero (by omega) (by omega)
    · have hsame : m₂ a = _ := h.outside a (by omega) (by omega)
      rw [hlast a (by omega), hsame, storeWord_outside (by omega),
        zero_inside (by omega) (by omega)]
  have hbound : vmem1Limit < 2 ^ 32 := by decide
  constructor
  · have hargc : ∀ x, sp ≤ x → x < sp + 4 →
        storeWord (storeWord m₂ cpp 0) (cpp + 4) 0 x =
          storeWord (zero m sp (vmem1Limit - sp)) sp args.length x := by
      intro x hge hlt
      rw [hlast x (by omega)]
      exact h.outside x (by omega) (by omega)
    rw [loadWord_congr hargc, loadWord_storeWord (by omega)]
  · apply h.strings.congr
    intro x hge
    exact hlast x (by omega)
  · intro i hi
    have hpointer : loadWord m₂ (sp + 4 + 4 * i) =
        vmem1Limit - totalSize args + totalSize (args.take i) :=
      h.pointers i hi
    rw [← hpointer, show sp + 4 * (1 + i) = sp + 4 + 4 * i by omega]
    apply loadWord_congr
    intro x hge hlt
    exact hlast x (by omega)
  · intro a hge hlt
    exact hzeroed a (by omega) hlt
  · intro a ha
    have hsame : m₂ a = _ := h.outside a (by omega) (by omega)
    rw [hlast a (by omega), hsame, storeWord_outside (by omega),
      zero_outside (by omega)]

theorem buildArgs_finished {l : Layout} {args : List (List UInt8)} {sp : Nat}
    {argbuf m : Bytes} (h : l.BlockFits args sp)
    (hsize : argsSize args = totalSize args) (hterminated : Terminated args) :
    FinishedArgs args sp m (buildArgs args argbuf m) := by
  have htop := h.top
  have hbase := h.base
  have hcp : (toUInt32 ((vmem1Limit : Int) - argsSize args)).toNat =
      vmem1Limit - totalSize args := by
    rw [hsize, toUInt32_of_inside]
    · omega
    · omega
    · unfold vmem1Limit
      omega
  have hcpp : (stackPointer args).toNat = sp := by
    rw [h.pointer]
    omega
  have hlength : (toUInt32 ((vmem1Limit : Int) - sp)).toNat =
      vmem1Limit - sp := by
    rw [toUInt32_of_inside]
    · omega
    · omega
    · unfold vmem1Limit
      omega
  have hsaved : StringsAt (saveArgs args argbuf 0) 0 args :=
    (saveArgs_stringsAt hterminated).1
  have hcopied : CopiedArgs args
      (storeWord (zero m sp (vmem1Limit - sp)) sp args.length) (sp + 4)
        (vmem1Limit - totalSize args)
        (copyArgs (saveArgs args argbuf 0) args.length
          (storeWord (zero m sp (vmem1Limit - sp)) sp args.length) (sp + 4)
            (vmem1Limit - totalSize args) 0) := by
    apply copyArgs_copied hterminated hsaved
    · omega
    · unfold vmem1Limit at *
      omega
  unfold buildArgs
  simp only [hcp, hcpp, hlength]
  exact hcopied.finished htop

/-- A finished block decodes to the arguments. -/
theorem FinishedArgs.block {args : List (List UInt8)} {sp : Nat} {m m' : Bytes}
    {l : Layout} (h : FinishedArgs args sp m m') (hfits : l.BlockFits args sp) :
    ArgumentBlock m' sp args := by
  have htop := hfits.top
  constructor
  · exact h.argc
  · intro i hi
    rw [h.pointers i hi]
    exact stringsAt_get h.strings hi
  · intro i hi
    have hsplit := totalSize_take_drop args i
    rw [h.pointers i hi]
    omega
  · apply loadWord_zero
    intro x hge hlt
    unfold postArgvNullSpace at htop
    exact h.zeroed x hge (by omega)
  · apply loadWord_zero
    intro x hge hlt
    unfold postArgvNullSpace at htop
    exact h.zeroed x (by omega) (by omega)
  · intro a hge hlt
    exact h.zeroed a (by omega) hlt
  · omega
  · exact hfits.aligned

/-! ## The stack pages -/

theorem Executable.accepted_info {file : Executable}
    {args : List (List UInt8)} {li : LoadInfo}
    (h : file.accepted args = some li) : file.info = some li := by
  unfold accepted at h
  split at h
  · cases h
  · split at h
    · cases h
    · rename_i hinfo
      split at h
      · cases h
      · split at h
        · cases h
        · cases h
          exact hinfo

theorem terminated_of_size {args : ArgVector}
    (hsize : totalSize args.strings ≤ vmem1Base) : Terminated args.strings := by
  intro arg harg
  refine ⟨args.terminated arg harg, ?_⟩
  have hlt := length_lt_totalSize harg
  unfold vmem1Base vmem1Limit at *
  omega

namespace LoadsProgram

variable {s s' : Kernel} {f : ProgramFile} {args : ArgVector} {p : PcbPtr}
  {argbuf m m' : Bytes}

/-- The file that was loaded, its layout and the block on its stack. -/
theorem layout (h : LoadsProgram s f args p argbuf m s' m')
    (hwell : ∀ li, f.file.info = some li → li.WellFormed) :
    ∃ li sp, f.file.accepted args.strings = some li ∧
      (Yalnix.layout li args.strings).Straight li ∧
      (Yalnix.layout li args.strings).BlockFits args.strings sp ∧
      m' = f.loadedMemory li args.strings argbuf m := by
  obtain ⟨li, table, haccepted, -, -⟩ :=
    Kernel.loadProgram_image (by decide) h.returns
  have hinfo := Executable.accepted_info haccepted
  have hstraight := (hwell li hinfo).straight args.strings
  obtain ⟨li', hinfo', hmemory⟩ := h.memory
  rw [hinfo] at hinfo'
  cases hinfo'
  obtain ⟨sp, hfits⟩ := blockFits hstraight
    (Executable.accepted_total haccepted) h.room h.region0 args.inRegion
  exact ⟨li, sp, haccepted, hstraight, hfits, hmemory⟩

end LoadsProgram

def greetingArgs : ArgVector :=
  { strings := [[104, 105], []]
    terminated := by decide
    inRegion := by decide }

def greetedFile : ProgramFile :=
  { file := smallProgram
    text := fun _ => 1
    data := fun _ => 2 }

/-- The fields of `smallProgram`. -/
def smallInfo : LoadInfo :=
  ⟨vmem1Base, vmem1Base, 1, vmem1Base + pageSize, 1, 0,
    vmem1Base + pageSize + 16, vmem1Base + pageSize + 32⟩

theorem smallInfo_wellFormed : smallInfo.WellFormed := by
  constructor
  · decide
  · decide
  · decide

theorem greeting_loads : ∃ s', LoadsProgram runningProgram greetedFile
    greetingArgs 1 (fun _ => 0) (fun _ => 0) s'
      (greetedFile.loadedMemory smallInfo greetingArgs.strings (fun _ => 0)
        fun _ => 0) := by
  have hcode : (runningProgram.loadProgram greetedFile.file
      greetingArgs.strings 1).map Prod.fst = some Rc.success := by
    decide +kernel
  rcases hload : runningProgram.loadProgram greetedFile.file
    greetingArgs.strings 1 with _ | ⟨code, s'⟩
  · rw [hload] at hcode
    cases hcode
  · rw [hload] at hcode
    have hsuccess : code = Rc.success := Option.some.inj hcode
    rw [hsuccess] at hload
    refine ⟨s', hload, ?_, ?_, smallInfo, rfl, rfl⟩
    · decide
    · decide

end Yalnix
