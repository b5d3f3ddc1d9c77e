import Yalnix.Process.ExitLoops
import Yalnix.Sync.Ids

/-!
# Table subscripts

The tables of locks, condition variables and terminals have fixed sizes.  Every
subscript that a system call uses is listed here in the order of the source,
and compared with the size of its table.
-/

namespace Yalnix

/-- The tables that system calls index. -/
inductive Table where
  | lockStatus
  | lockAquireQueues
  | cvarStatus
  | cvarWaitQueues
  | ttyReadbuffers
  | ttyReadQueues
  | ttyWriteQueues
  | ttyReadTrackers
  | ttyWriteTrackers
  deriving DecidableEq, Repr

def Table.size : Table → Int
  | .lockStatus => maxLocks
  | .lockAquireQueues => maxLocks
  | .cvarStatus => maxCvars
  | .cvarWaitQueues => maxCvars
  | _ => numTerminals

structure Subscript where
  table : Table
  index : Int
  deriving DecidableEq, Repr

def Subscript.InBounds (x : Subscript) : Prop :=
  0 ≤ x.index ∧ x.index < x.table.size

instance (x : Subscript) : Decidable x.InBounds :=
  inferInstanceAs (Decidable (_ ∧ _))

namespace Kernel

variable (s : Kernel)

/-! ## The subscripts of each call -/

def lockInitSubscripts (lockIdpNonNull : Bool) : List Subscript :=
  match s.lockList with
  | [] => []
  | lockId :: _ => if lockIdpNonNull then [⟨.lockStatus, lockId⟩] else []

def acquireSubscripts (lockId : Int) : List Subscript :=
  if lockId < 0 ∨ maxLocks < lockId then []
  else if s.lockStatus lockId = unusedLock ∨
      s.lockStatus lockId = s.pcb.pid s.activePCB ∨
      s.lockStatus lockId = freeLock then [⟨.lockStatus, lockId⟩]
  else [⟨.lockStatus, lockId⟩, ⟨.lockAquireQueues, lockId⟩]

def releaseSubscripts (lockId : Int) : List Subscript :=
  if lockId < 0 ∨ maxLocks < lockId then []
  else if s.lockStatus lockId ≠ s.pcb.pid s.activePCB ∨
      s.lockStatus lockId = unusedLock then [⟨.lockStatus, lockId⟩]
  else [⟨.lockStatus, lockId⟩, ⟨.lockAquireQueues, lockId⟩]

def cvarInitSubscripts (cvarIdpNonNull : Bool) : List Subscript :=
  if !cvarIdpNonNull then []
  else
    match s.cvarList with
    | [] => []
    | cvarId :: _ => [⟨.cvarStatus, cvarId - maxLocks⟩]

/-- `KernelCvarSignal` and `KernelCvarBroadcast`. -/
def cvarWakeSubscripts (cvarId : Int) : List Subscript :=
  let i := cvarId - maxLocks
  if cvarId < 0 then []
  else if s.cvarStatus i = unusedCvar then [⟨.cvarStatus, i⟩]
  else [⟨.cvarStatus, i⟩, ⟨.cvarWaitQueues, i⟩]

def cvarWaitSubscripts (cvarId lockId : Int) : List Subscript :=
  let i := cvarId - maxLocks
  if cvarId < 0 then []
  else if s.cvarStatus i = unusedCvar ∨ lockId < 0 then [⟨.cvarStatus, i⟩]
  else if s.lockStatus lockId = unusedLock then
    [⟨.cvarStatus, i⟩, ⟨.lockStatus, lockId⟩]
  else
    [⟨.cvarStatus, i⟩, ⟨.lockStatus, lockId⟩] ++ s.releaseSubscripts lockId ++
      if (s.kernelRelease lockId).1 = Rc.error then []
      else [⟨.cvarWaitQueues, i⟩]

/-- The buffer and the queue are looked up before `tty_id` is checked. -/
def ttyReadSubscripts (ttyId len : Int) : List Subscript :=
  [⟨.ttyReadbuffers, ttyId⟩, ⟨.ttyReadQueues, ttyId⟩] ++
    if ttyId < 0 ∨ (numTerminals : Int) ≤ ttyId ∨ len ≤ 0 ∨
        s.ttyReadQueues ttyId.toNat ≠ [] ∨
        s.ttyReadbuffers ttyId.toNat 0 = 0 then []
    else [⟨.ttyReadTrackers, ttyId⟩]

def ttyWriteSubscripts (ttyId len : Int) : List Subscript :=
  let active := s.activePCB
  let queue := s.ttyWriteQueues ttyId.toNat ++ [active]
  [⟨.ttyWriteQueues, ttyId⟩] ++
    if ttyId < 0 ∨ (numTerminals : Int) ≤ ttyId ∨ len ≤ 0 ∨
        s.pcb.pid (queue.headD active) ≠ s.pcb.pid active then []
    else [⟨.ttyWriteTrackers, ttyId⟩]

def callSubscripts : Syscall → List Subscript
  | .ttyRead ttyId len => s.ttyReadSubscripts ttyId len
  | .ttyWrite ttyId _ len => s.ttyWriteSubscripts ttyId len
  | .lockInit nonNull => s.lockInitSubscripts nonNull
  | .acquire lockId => s.acquireSubscripts lockId
  | .release lockId => s.releaseSubscripts lockId
  | .cvarInit nonNull => s.cvarInitSubscripts nonNull
  | .cvarSignal cvarId => s.cvarWakeSubscripts cvarId
  | .cvarBroadcast cvarId => s.cvarWakeSubscripts cvarId
  | .cvarWait cvarId lockId => s.cvarWaitSubscripts cvarId lockId
  | _ => []

/-- The rest of a call behind its sleep. -/
def resumeSubscripts : List Subscript :=
  match s.pcb.kernelContext s.activePCB with
  | .kernelTtyRead t _ => [⟨.ttyReadTrackers, t⟩]
  | .kernelTtyWrite t _ _ bytesLeft _ =>
      if bytesLeft = 0 then [] else [⟨.ttyWriteTrackers, t⟩]
  | .kernelAcquire lockId => [⟨.lockStatus, lockId⟩]
  | .kernelCvarWait lockId => s.acquireSubscripts lockId
  | _ => []

/-- The subscripts of a step that runs a system call. -/
def subscripts : Label → List Subscript
  | .trap _ (.kernel c) => s.callSubscripts c
  | .trap _ _ => []
  | .resume => s.resumeSubscripts

/-! ## Where they are in bounds -/

/-- `100` passes the range check of the lock calls, the calls on condition
variables have no upper bound, and the last id of `cvar_list` is too high. -/
def SafeCall : Syscall → Prop
  | .ttyRead ttyId _ => 0 ≤ ttyId ∧ ttyId < numTerminals
  | .ttyWrite ttyId _ _ => 0 ≤ ttyId ∧ ttyId < numTerminals
  | .lockInit nonNull =>
      nonNull = true → ∀ id ∈ s.lockList.head?, 0 ≤ id ∧ id ≠ maxLocks
  | .acquire lockId => lockId ≠ maxLocks
  | .release lockId => lockId ≠ maxLocks
  | .cvarInit nonNull =>
      nonNull = true → s.cvarList.head? ≠ some (maxLocks + maxCvars)
  | .cvarSignal cvarId =>
      cvarId < 0 ∨ maxLocks ≤ cvarId ∧ cvarId < maxLocks + maxCvars
  | .cvarBroadcast cvarId =>
      cvarId < 0 ∨ maxLocks ≤ cvarId ∧ cvarId < maxLocks + maxCvars
  | .cvarWait cvarId _ =>
      cvarId < 0 ∨ maxLocks ≤ cvarId ∧ cvarId < maxLocks + maxCvars
  | _ => True

def SafeStep : Label → Prop
  | .trap _ (.kernel c) => s.SafeCall c
  | _ => True

variable {s} {r : Kernel}

/-! ## Contexts at terminals -/

end Kernel

/-- The terminal that a suspended call is at. -/
def KernelContext.terminal : KernelContext → Option Nat
  | .kernelTtyRead t _ => some t
  | .kernelTtyWrite t _ _ _ _ => some t
  | _ => none

namespace Kernel

/-- The suspended terminal calls have passed the check of their `tty_id`. -/
def AtTerminals (s : Kernel) : Prop :=
  ∀ p, ∀ t ∈ (s.pcb.kernelContext p).terminal, t < numTerminals

namespace AtTerminals

variable {s r : Kernel} {q : Option QueueRef} {k : KernelContext}

theorem of_core (h : s.AtTerminals) (hcore : r.core = s.core) :
    r.AtTerminals := by
  have hs : s.core.AtTerminals := h
  rw [← hcore] at hs
  exact hs

theorem of_eq (h : s.AtTerminals)
    (hcontext : r.pcb.kernelContext = s.pcb.kernelContext) :
    r.AtTerminals := by
  unfold AtTerminals
  rw [hcontext]
  exact h

/-- One context is written. -/
theorem of_upd (h : s.AtTerminals) (p : PcbPtr)
    (hk : ∀ t ∈ k.terminal, t < numTerminals)
    (hcontext : r.pcb.kernelContext = upd s.pcb.kernelContext p k) :
    r.AtTerminals := by
  intro q t ht
  rw [hcontext] at ht
  by_cases hq : q = p
  · rw [hq, upd_same] at ht
    exact hk t ht
  · rw [upd_other hq] at ht
    exact h q t ht

theorem swapped (h : s.AtTerminals)
    (hk : ∀ t ∈ k.terminal, t < numTerminals) :
    (s.swapped q k).AtTerminals := by
  apply h.of_upd s.activePCB hk
  rw [swapped_pcb]

theorem writesOn {a : Label} {t : Nat} (h : s.AtTerminals)
    (hwrites : WritesOn s a t r) : t < numTerminals ∧ r.AtTerminals := by
  cases hwrites with
  | call _ ht => exact ⟨ht, h⟩
  | resume hctx => exact ⟨h s.activePCB _ (by rw [hctx]; rfl), h⟩

theorem recheck {p : PcbPtr} (h : s.AtTerminals) (hcheck : Recheck s p r) :
    r.AtTerminals := by
  cases hcheck <;> exact h

theorem writeDone (h : s.AtTerminals) (t : Nat) :
    (s.writeDone t).AtTerminals := by
  unfold Kernel.writeDone
  split
  · exact h
  · exact h

theorem effect {a : Label} (h : s.AtTerminals) (heffect : Effect s a r) :
    r.AtTerminals := by
  have hsame : s.AtTerminals := h
  cases heffect with
  | fork => exact h.of_upd (k := .kernelFork) s.npcb nofun rfl
  | @exit _ code =>
      have hc := s.exitCleanup_cleaned code
      have hcleaned : ((s.exitCleanup code).2.setTerminated
          s.activePCB).AtTerminals := h.of_eq hc.context
      exact hcleaned.swapped nofun
  | fault =>
      exact swapped (s := (s.setExitCode s.activePCB Rc.error).setTerminated
        s.activePCB) h nofun
  | @waitSleeps _ queue =>
      exact swapped (s := (s.setDefunctQ queue).setBlockedCode s.activePCB
        Blocked.wait) h nofun
  | @delay _ ticks =>
      exact swapped (s := (s.setClockTicks s.activePCB ticks).setBlockedCode
        s.activePCB Blocked.delay) h nofun
  | clock => exact h.swapped nofun
  | clockResumes _ hscan => exact h.of_eq hscan.context
  | @ttyReadSleeps _ ttyId _ _ ht =>
      refine swapped (s := (s.setBlockedCode s.activePCB
        Blocked.ttyRead).setTtyTerminal s.activePCB ttyId.toNat) h ?_
      intro t hmem
      rw [← Option.some.inj hmem]
      exact ht
  | @ttyWriteWaits _ ttyId _ _ _ ht =>
      refine swapped (s := ((s.setTtyWriteQueue ttyId.toNat
        (s.ttyWriteQueues ttyId.toNat ++ [s.activePCB])).setBlockedCode
          s.activePCB Blocked.ttyWrite).setTtyTerminal s.activePCB
            ttyId.toNat) h ?_
      intro t hmem
      rw [← Option.some.inj hmem]
      exact ht
  | @ttyWriteSleeps _ t s₁ _ _ _ _ hwrites =>
      obtain ⟨ht, hs₁⟩ := h.writesOn hwrites
      refine swapped (s := (s₁.setBlockedCode s₁.activePCB
        Blocked.ttyTransmit).setTtyTerminal s₁.activePCB t) hs₁ ?_
      intro u hmem
      rw [← Option.some.inj hmem]
      exact ht
  | ttyWriteReturns hwrites => exact (h.writesOn hwrites).2.writeDone _
  | @ttyTransmitted _ _ _ _ r' _ _ hcheck =>
      have hchecked : r'.AtTerminals := h.recheck hcheck
      exact hchecked
  | @pipeSleeps _ p code k _ _ hk =>
      refine swapped (s := (s.setBlockedCode s.activePCB code).setPipeQueue p
        ((s.pipes p).queue ++ [s.activePCB])) h ?_
      cases hk with
      | _ => exact nofun
  | _ => exact hsame

end AtTerminals

end Kernel

theorem Reachable.atTerminals {guard : Kernel → Label → Prop} {s : Kernel}
    (h : Reachable guard s) (hlive : s.Live) : s.AtTerminals := by
  have hrun : Reachable (fun _ _ => True) s := h.mono fun _ _ _ => trivial
  refine hrun.core_invariant (P := Kernel.AtTerminals)
    (fun _ _ hcore hs => hs.of_core hcore) (fun _ _ _ => trivial) ?_ ?_ hlive
  · intro b _ p t ht
    by_cases hp : p = 1
    · subst hp
      cases ht
    · have hctx : b.started.pcb.kernelContext p = .kernelStart :=
        upd_other hp _ _
      rw [hctx] at ht
      cases ht
  · intro s a r hs _ _ _ _ heffect
    exact hs.effect heffect

/-! ## Each call -/

namespace Kernel

variable {s : Kernel}

/-- All the subscripts are in bounds. -/
def InBounds (xs : List Subscript) : Prop := ∀ x ∈ xs, x.InBounds

instance (xs : List Subscript) : Decidable (InBounds xs) :=
  inferInstanceAs (Decidable (∀ x ∈ xs, x.InBounds))

theorem inBounds_nil : InBounds [] := nofun

theorem inBounds_singleton (x : Subscript) : InBounds [x] ↔ x.InBounds := by
  constructor
  · intro h
    exact h x List.mem_cons_self
  · intro h y hy
    rw [List.mem_singleton.1 hy]
    exact h

theorem lockInit_inBounds_iff {i : IssuedIds} (h : Numbered s.ids i)
    (nonNull : Bool) :
    InBounds (s.lockInitSubscripts nonNull) ↔
      s.SafeCall (.lockInit nonNull) := by
  unfold lockInitSubscripts SafeCall
  cases hlist : s.lockList with
  | nil => exact ⟨fun _ _ => nofun, fun _ => inBounds_nil⟩
  | cons id rest =>
      have hle : id ≤ maxLocks := by
        apply h.lock
        apply List.mem_append_left
        show id ∈ s.lockList
        rw [hlist]
        exact List.mem_cons_self
      cases nonNull with
      | false => exact ⟨fun _ => nofun, fun _ => inBounds_nil⟩
      | true =>
          show InBounds [⟨.lockStatus, id⟩] ↔ _
          rw [inBounds_singleton]
          constructor
          · rintro ⟨hpos, hlt⟩ - x hx
            rw [← Option.some.inj hx]
            exact ⟨hpos, Int.ne_of_lt hlt⟩
          · intro hsafe
            obtain ⟨hpos, hne⟩ := hsafe rfl id rfl
            exact ⟨hpos, Int.lt_iff_le_and_ne.2 ⟨hle, hne⟩⟩

/-- The range check of the lock calls lets one id too many pass. -/
theorem lock_inBounds_iff (lockId : Int) :
    InBounds (if lockId < 0 ∨ maxLocks < lockId then []
      else [⟨.lockStatus, lockId⟩]) ↔ lockId ≠ maxLocks := by
  split
  · rename_i hout
    constructor
    · rintro - rfl
      simp [maxLocks] at hout
    · intro _
      exact inBounds_nil
  · rename_i hin
    obtain ⟨hpos, hle⟩ := not_or.1 hin
    rw [inBounds_singleton]
    constructor
    · intro h
      exact Int.ne_of_lt h.2
    · intro hne
      exact ⟨Int.not_lt.1 hpos,
        Int.lt_iff_le_and_ne.2 ⟨Int.not_lt.1 hle, hne⟩⟩

theorem acquireSubscripts_idle (h : s.SyncIdle) (lockId : Int) :
    s.acquireSubscripts lockId =
      if lockId < 0 ∨ maxLocks < lockId then []
      else [⟨.lockStatus, lockId⟩] := by
  unfold acquireSubscripts
  split
  · rfl
  · rw [if_pos (.inl (h.lock lockId))]

theorem releaseSubscripts_idle (h : s.SyncIdle) (lockId : Int) :
    s.releaseSubscripts lockId =
      if lockId < 0 ∨ maxLocks < lockId then []
      else [⟨.lockStatus, lockId⟩] := by
  unfold releaseSubscripts
  split
  · rfl
  · rw [if_pos (.inr (h.lock lockId))]

theorem cvarInit_inBounds_iff {i : IssuedIds} (h : Numbered s.ids i)
    (nonNull : Bool) :
    InBounds (s.cvarInitSubscripts nonNull) ↔
      s.SafeCall (.cvarInit nonNull) := by
  unfold cvarInitSubscripts SafeCall
  cases nonNull with
  | false => exact ⟨fun _ => nofun, fun _ => inBounds_nil⟩
  | true =>
      simp only [Bool.not_true, Bool.false_eq_true, if_false]
      cases hlist : s.cvarList with
      | nil => exact ⟨fun _ _ => nofun, fun _ => inBounds_nil⟩
      | cons id rest =>
          obtain ⟨hgt, hle⟩ : maxLocks < id ∧ id ≤ maxLocks + maxCvars := by
            apply h.cvar
            apply List.mem_append_left
            show id ∈ s.cvarList
            rw [hlist]
            exact List.mem_cons_self
          rw [inBounds_singleton]
          constructor
          · rintro ⟨-, hlt⟩ - htop
            have htop : id = maxLocks + maxCvars := Option.some.inj htop
            have hlt : id - maxLocks < maxCvars := hlt
            omega
          · intro hsafe
            have hne : id ≠ maxLocks + maxCvars := fun htop =>
              hsafe trivial (congrArg some htop)
            constructor
            · show 0 ≤ id - maxLocks
              omega
            · show id - maxLocks < maxCvars
              omega

/-- The calls on condition variables check the lower end only. -/
theorem cvar_inBounds_iff (cvarId : Int) :
    InBounds (if cvarId < 0 then []
      else [⟨.cvarStatus, cvarId - maxLocks⟩]) ↔
      cvarId < 0 ∨ maxLocks ≤ cvarId ∧ cvarId < maxLocks + maxCvars := by
  split
  · rename_i hneg
    exact ⟨fun _ => .inl hneg, fun _ => inBounds_nil⟩
  · rename_i hpos
    rw [inBounds_singleton]
    show 0 ≤ cvarId - maxLocks ∧ cvarId - maxLocks < maxCvars ↔ _
    constructor
    · rintro ⟨hlow, hhigh⟩
      exact .inr ⟨by omega, by omega⟩
    · rintro (hneg | ⟨hlow, hhigh⟩)
      · exact absurd hneg hpos
      · exact ⟨by omega, by omega⟩

theorem cvarWakeSubscripts_idle (h : s.SyncIdle) (cvarId : Int) :
    s.cvarWakeSubscripts cvarId =
      if cvarId < 0 then [] else [⟨.cvarStatus, cvarId - maxLocks⟩] := by
  unfold cvarWakeSubscripts
  simp only
  rw [if_pos (h.cvar _)]

theorem cvarWaitSubscripts_idle (h : s.SyncIdle) (cvarId lockId : Int) :
    s.cvarWaitSubscripts cvarId lockId =
      if cvarId < 0 then [] else [⟨.cvarStatus, cvarId - maxLocks⟩] := by
  unfold cvarWaitSubscripts
  simp only
  split
  · rfl
  · rw [if_pos (.inl (h.cvar _))]

/-- A terminal call uses its `tty_id` for all its subscripts. -/
theorem tty_inBounds_iff {ttyId : Int} {xs : List Subscript}
    (hne : xs ≠ []) (hindex : ∀ x ∈ xs, x.index = ttyId)
    (hsize : ∀ x ∈ xs, x.table.size = numTerminals) :
    InBounds xs ↔ 0 ≤ ttyId ∧ ttyId < numTerminals := by
  constructor
  · intro h
    obtain ⟨x, hx⟩ := List.exists_mem_of_ne_nil xs hne
    obtain ⟨hpos, hlt⟩ := h x hx
    rw [hindex x hx] at hpos hlt
    rw [hsize x hx] at hlt
    exact ⟨hpos, hlt⟩
  · rintro ⟨hpos, hlt⟩ x hx
    unfold Subscript.InBounds
    rw [hindex x hx, hsize x hx]
    exact ⟨hpos, hlt⟩

theorem ttyRead_inBounds_iff (ttyId len : Int) :
    InBounds (s.ttyReadSubscripts ttyId len) ↔
      0 ≤ ttyId ∧ ttyId < numTerminals := by
  have hall (x : Subscript) (hx : x ∈ s.ttyReadSubscripts ttyId len) :
      x.index = ttyId ∧ x.table.size = numTerminals := by
    unfold ttyReadSubscripts at hx
    split at hx
    · simp only [List.append_nil, List.mem_cons, List.not_mem_nil,
        or_false] at hx
      rcases hx with rfl | rfl
      · exact ⟨rfl, rfl⟩
      · exact ⟨rfl, rfl⟩
    · simp only [List.cons_append, List.nil_append, List.mem_cons,
        List.not_mem_nil, or_false] at hx
      rcases hx with rfl | rfl | rfl
      · exact ⟨rfl, rfl⟩
      · exact ⟨rfl, rfl⟩
      · exact ⟨rfl, rfl⟩
  exact tty_inBounds_iff (List.cons_ne_nil _ _) (fun x hx => (hall x hx).1)
    fun x hx => (hall x hx).2

theorem ttyWrite_inBounds_iff (ttyId len : Int) :
    InBounds (s.ttyWriteSubscripts ttyId len) ↔
      0 ≤ ttyId ∧ ttyId < numTerminals := by
  have hall (x : Subscript) (hx : x ∈ s.ttyWriteSubscripts ttyId len) :
      x.index = ttyId ∧ x.table.size = numTerminals := by
    unfold ttyWriteSubscripts at hx
    simp only at hx
    split at hx
    · rw [List.append_nil] at hx
      rw [List.mem_singleton.1 hx]
      exact ⟨rfl, rfl⟩
    · simp only [List.cons_append, List.nil_append, List.mem_cons,
        List.not_mem_nil, or_false] at hx
      rcases hx with rfl | rfl
      · exact ⟨rfl, rfl⟩
      · exact ⟨rfl, rfl⟩
  exact tty_inBounds_iff (List.cons_ne_nil _ _) (fun x hx => (hall x hx).1)
    fun x hx => (hall x hx).2

theorem call_inBounds_iff {i : IssuedIds} (hsync : s.SyncIdle)
    (hids : Numbered s.ids i) (c : Syscall) :
    InBounds (s.callSubscripts c) ↔ s.SafeCall c := by
  cases c with
  | ttyRead ttyId len => exact ttyRead_inBounds_iff ttyId len
  | ttyWrite ttyId buf len => exact ttyWrite_inBounds_iff ttyId len
  | lockInit nonNull => exact lockInit_inBounds_iff hids nonNull
  | acquire lockId =>
      rw [callSubscripts, acquireSubscripts_idle hsync]
      exact lock_inBounds_iff lockId
  | release lockId =>
      rw [callSubscripts, releaseSubscripts_idle hsync]
      exact lock_inBounds_iff lockId
  | cvarInit nonNull => exact cvarInit_inBounds_iff hids nonNull
  | cvarSignal cvarId =>
      rw [callSubscripts, cvarWakeSubscripts_idle hsync]
      exact cvar_inBounds_iff cvarId
  | cvarBroadcast cvarId =>
      rw [callSubscripts, cvarWakeSubscripts_idle hsync]
      exact cvar_inBounds_iff cvarId
  | cvarWait cvarId lockId =>
      rw [callSubscripts, cvarWaitSubscripts_idle hsync]
      exact cvar_inBounds_iff cvarId
  | _ => exact ⟨fun _ => trivial, fun _ => inBounds_nil⟩

/-- A suspended call goes on at the terminal that it has checked. -/
theorem resume_inBounds (hsync : s.SyncIdle) (hterminals : s.AtTerminals) :
    InBounds s.resumeSubscripts := by
  have hcontext := hsync.context s.activePCB
  have hterminal := hterminals s.activePCB
  unfold resumeSubscripts
  split
  · rename_i t len hctx
    rw [hctx] at hterminal
    rw [inBounds_singleton]
    have hlt := hterminal t rfl
    exact ⟨Int.natCast_nonneg t, Int.ofNat_lt.2 hlt⟩
  · rename_i t buf len left written hctx
    rw [hctx] at hterminal
    have hlt := hterminal t rfl
    split
    · exact inBounds_nil
    · rw [inBounds_singleton]
      exact ⟨Int.natCast_nonneg t, Int.ofNat_lt.2 hlt⟩
  · rename_i lockId hctx
    rw [hctx] at hcontext
    cases hcontext
  · rename_i lockId hctx
    rw [hctx] at hcontext
    cases hcontext
  · exact inBounds_nil

end Kernel

/--
In every reachable state, the subscripts of a system call are in bounds if and
only if: a terminal is one of the four, a lock id is not `MAX_LOCKS`, the id of
a condition variable is negative or between `MAX_LOCKS` and
`MAX_LOCKS + MAX_CVARS`, and `LockInit` and `CvarInit` do not find one of the ids
on top of their list that have no entry.  A call that resumes stays in bounds.
-/
theorem subscripts_in_bounds_iff {s : Kernel}
    (h : Reachable (fun _ _ => True) s) {a : Label} (ha : a.Enabled s) :
    Kernel.InBounds (s.subscripts a) ↔ s.SafeStep a := by
  have hsync := (Reachable.quiescent h ha.live).sync
  cases a with
  | trap ctx t =>
      cases t with
      | kernel c =>
          obtain ⟨i, hi⟩ := Reachable.idsTracked h
          exact Kernel.call_inBounds_iff hsync (Tracked.numbered hi) c
      | _ => exact ⟨fun _ => trivial, fun _ => Kernel.inBounds_nil⟩
  | resume =>
      have hterminals := h.atTerminals ha.live
      exact ⟨fun _ => trivial,
        fun _ => Kernel.resume_inBounds hsync hterminals⟩

/-- The first `CvarInit` is out of bounds, and with another id on top it is not. -/
theorem subscripts_in_bounds_iff_reclaimed :
    let s := (Boot.small 20).kernelStart.run tick
    let r := s.take (call (.reclaim 200))
    ¬ Kernel.InBounds (s.subscripts (call (.cvarInit true))) ∧
      Kernel.InBounds (r.subscripts (call (.cvarInit true))) := by
  intro s r
  have hreach : Reachable (fun _ _ => True) s :=
    reachable_small 20 tick (by decide +kernel) (by decide +kernel)
  have hreach' : Reachable (fun _ _ => True) r :=
    hreach.run [call (.reclaim 200)] (by decide +kernel)
  have htop : s.cvarList.head? = some 5100 := by decide +kernel
  have htop' : r.cvarList.head? = some 200 := by decide +kernel
  constructor
  · intro hin
    exact (subscripts_in_bounds_iff hreach (by decide +kernel)).1 hin rfl htop
  · apply (subscripts_in_bounds_iff hreach' (by decide +kernel)).2
    intro _ htop''
    rw [htop'] at htop''
    exact absurd htop'' (by decide)

/-- The first id that `CvarInit` hands out has no entry in `cvar_status`. -/
theorem subscripts_out_of_bounds :
    ¬ ∀ (s : Kernel), Reachable (fun _ _ => True) s →
      ∀ a : Label, a.Enabled s → Kernel.InBounds (s.subscripts a) := by
  intro hall
  have hreach : Reachable (fun _ _ => True)
      ((Boot.small 20).kernelStart.run tick) :=
    reachable_small 20 tick (by decide +kernel) (by decide +kernel)
  have hin := hall _ hreach (call (.cvarInit true)) (by decide +kernel)
  revert hin
  decide +kernel

end Yalnix
