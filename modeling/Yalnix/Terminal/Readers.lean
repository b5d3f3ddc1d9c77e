import Yalnix.Process.OnePlace
import Yalnix.Terminal.Input

/-!
# Terminal readers

A reader sleeps in the queue of its terminal until a receive trap makes it
ready; it reads when it resumes.  The readers that were woken and have not
resumed yet, followed by those that still sleep, are the calls that have not
completed, in the order in which they were made.
-/

namespace Yalnix

/-! ## Readers on the way -/

/-- The terminal that a suspended reader reads from. -/
def KernelContext.readsFrom : KernelContext → Option Nat
  | .kernelTtyRead t _ => some t
  | _ => none

theorem KernelContext.SleepsOn.readsFrom_eq_none {p : PipePtr}
    {k : KernelContext} (h : k.SleepsOn p) : k.readsFrom = none := by
  cases h <;> rfl

namespace Kernel

def readsFrom (s : Kernel) (p : PcbPtr) : Option Nat :=
  (s.pcb.kernelContext p).readsFrom

/-- The ready processes that will read from terminal `t` when they resume. -/
def readyReaders (s : Kernel) (t : Nat) : List PcbPtr :=
  s.readyQ.filter fun p => s.readsFrom p = some t

/-- The readers of terminal `t` that were woken and have not resumed. -/
def wokenReaders (s : Kernel) (t : Nat) : List PcbPtr :=
  if s.mode = .kernel ∧ s.readsFrom s.activePCB = some t then
    s.activePCB :: s.readyReaders t
  else s.readyReaders t

/-- The running process does not resume as a reader of `t`. -/
def Aside (s : Kernel) (t : Nat) : Prop :=
  s.mode = .kernel → s.readsFrom s.activePCB ≠ some t

/-- A reader sleeps in the queue of its terminal, and nowhere else. -/
structure ReaderContexts (s : Kernel) : Prop where
  queued : ∀ t < numTerminals, ∀ p ∈ s.ttyReadQueues t, s.readsFrom p = some t
  blocked : ∀ p ∈ s.blockedQ, s.readsFrom p = none
  positive : ∀ p t len, s.pcb.kernelContext p = .kernelTtyRead t len → 0 < len

/-- What a step does to the readers of `t`, other than a `TtyRead` call. -/
inductive ReadersMove (s : Kernel) (t : Nat) (a : Label) (r : Kernel) :
    Prop where
  | same : s.Aside t → r.wokenReaders t = s.readyReaders t →
      r.ttyReadQueues t = s.ttyReadQueues t → ReadersMove s t a r
  | wakes {ctx : UserContext} {bytes : List UInt8} {next : PcbPtr} :
      a = .trap ctx (.ttyReceive t bytes) →
      r.wokenReaders t = s.readyReaders t ++ [next] →
      s.ttyReadQueues t = next :: r.ttyReadQueues t → ReadersMove s t a r
  | resumes : s.mode = .kernel → s.readsFrom s.activePCB = some t →
      r.wokenReaders t = s.readyReaders t →
      r.ttyReadQueues t = s.ttyReadQueues t → ReadersMove s t a r

variable {s r : Kernel} {t : Nat} {a : Label} {q : Option QueueRef}
  {k : KernelContext}

theorem Aside.wokenReaders (h : s.Aside t) :
    s.wokenReaders t = s.readyReaders t :=
  if_neg fun ⟨hmode, hreads⟩ => h hmode hreads

theorem aside_of_user (h : s.mode = .user) : s.Aside t := fun hmode => by
  rw [h] at hmode
  cases hmode

theorem aside_of_trap {ctx : UserContext} {trap : Trap}
    (h : (Label.trap ctx trap).Enabled s) : s.Aside t :=
  aside_of_user h.1

theorem wokenReaders_user : (r.setMode .user).wokenReaders t =
    r.readyReaders t :=
  if_neg fun h => nomatch h.1

/-! ## Steps that move no reader -/

/-- Processes that do not read from a terminal become ready; nothing else
happens to the readers. -/
structure KeepsReaders (s r : Kernel) : Prop where
  active : r.activePCB = s.activePCB
  context : r.pcb.kernelContext = s.pcb.kernelContext
  ready : ∃ woken, r.readyQ = s.readyQ ++ woken ∧
    ∀ p ∈ woken, s.readsFrom p = none
  blocked : ∀ p ∈ r.blockedQ, s.readsFrom p = none
  readers : r.ttyReadQueues = s.ttyReadQueues

namespace KeepsReaders

theorem readyReaders (h : KeepsReaders s r) (t : Nat) :
    r.readyReaders t = s.readyReaders t := by
  obtain ⟨woken, hready, hwoken⟩ := h.ready
  have hreads : r.readsFrom = s.readsFrom := by
    funext p
    rw [Kernel.readsFrom, h.context]
    rfl
  have hnone : woken.filter (fun p => s.readsFrom p = some t) = [] := by
    refine List.filter_eq_nil_iff.2 fun p hp => ?_
    rw [hwoken p hp]
    simp
  simp only [Kernel.readyReaders, hreads]
  rw [hready, List.filter_append, hnone, List.append_nil]

theorem contexts (h : KeepsReaders s r) (hs : s.ReaderContexts) :
    r.ReaderContexts where
  queued := fun t ht p hp => by
    rw [h.readers] at hp
    rw [Kernel.readsFrom, h.context]
    exact hs.queued t ht p hp
  blocked := fun p hp => by
    rw [Kernel.readsFrom, h.context]
    exact h.blocked p hp
  positive := by
    rw [h.context]
    exact hs.positive

theorem refl (hs : s.ReaderContexts) : KeepsReaders s s where
  active := rfl
  context := rfl
  ready := ⟨[], (List.append_nil _).symm, nofun⟩
  blocked := hs.blocked
  readers := rfl

/-- The running process goes on. -/
theorem user (h : KeepsReaders s r) (hs : s.ReaderContexts)
    (haside : ∀ t, s.Aside t) :
    (r.setMode .user).ReaderContexts ∧
      ∀ t, ReadersMove s t a (r.setMode .user) := by
  refine ⟨{ h.contexts hs with }, fun t => .same (haside t) ?_ ?_⟩
  · rw [wokenReaders_user, h.readyReaders]
  · exact congrFun h.readers t

end KeepsReaders

theorem switched_readyQ : (s.switched q k).readyQ = s.readyQ.tail ++
    if q = some .readyQ then [s.activePCB] else [] := by
  rcases q with _ | ref
  · exact (List.append_nil _).symm
  · cases ref with
    | readyQ => rfl
    | _ => exact (List.append_nil _).symm

theorem switched_readsFrom (p : PcbPtr) : (s.switched q k).readsFrom p =
    if p = s.activePCB then k.readsFrom else s.readsFrom p := by
  rw [Kernel.readsFrom, switched_pcb]
  by_cases hp : p = s.activePCB
  · subst hp
    rw [if_pos rfl]
    exact congrArg KernelContext.readsFrom (upd_same _ _ _)
  · rw [if_neg hp]
    exact congrArg KernelContext.readsFrom (upd_other hp _ _)

/-- The next process comes from `ready_q`, or it is idle, which does not
read. -/
theorem switched_wokenReaders (hactive : s.activePCB ∉ s.readyQ)
    (hidle : (s.switched q k).readsFrom s.idlePCB = none)
    (hq : q = some .readyQ → k.readsFrom = none) :
    (s.switched q k).wokenReaders t = s.readyReaders t := by
  have hmode : (s.switched q k).mode = .kernel := rfl
  have hnone : List.filter (fun p => (s.switched q k).readsFrom p = some t)
      (if q = some .readyQ then [s.activePCB] else []) = [] := by
    split
    · rename_i hready
      rw [List.filter_cons, switched_readsFrom, if_pos rfl, hq hready]
      rfl
    · rfl
  have hsame {queue : List PcbPtr} (hnot : s.activePCB ∉ queue) :
      queue.filter (fun p => (s.switched q k).readsFrom p = some t) =
        queue.filter (fun p => s.readsFrom p = some t) := by
    refine List.filter_congr fun p hp => ?_
    have hne : p ≠ s.activePCB := fun heq => hnot (heq ▸ hp)
    rw [switched_readsFrom, if_neg hne]
  simp only [wokenReaders, hmode, true_and, Placement.switched_active,
    readyReaders, switched_readyQ, List.filter_append, hnone, List.append_nil]
  cases hready : s.readyQ with
  | nil =>
      have hnext : s.nextProcess = s.idlePCB := by
        simp [nextProcess, hready]
      rw [hnext, hidle]
      rfl
  | cons next rest =>
      rw [hready] at hactive
      have hnext : s.nextProcess = next := by
        simp [nextProcess, hready]
      rw [hnext, ← hsame hactive, List.filter_cons, List.tail_cons]
      simp only [decide_eq_true_eq]

theorem switched_blockedQ {p : PcbPtr} (h : p ∈ (s.switched q k).blockedQ) :
    p ∈ s.blockedQ ∨ p = s.activePCB := by
  rcases q with _ | ref
  · exact .inl h
  · cases ref with
    | blockedQ =>
        rcases List.mem_append.1 h with h | h
        · exact .inl h
        · exact .inr (List.mem_singleton.1 h)
    | _ => exact .inl h

theorem switched_readQueues (hq : ∀ t, q ≠ some (.ttyReadQueue t)) :
    (s.switched q k).ttyReadQueues = s.ttyReadQueues := by
  rcases q with _ | ref
  · rfl
  · cases ref with
    | ttyReadQueue t => exact absurd rfl (hq t)
    | _ => rfl

/-- The running process leaves for somewhere else than a read queue. -/
theorem ReaderContexts.switched (h : s.ReaderContexts)
    (hreaders : ∀ t < numTerminals, s.activePCB ∉ s.ttyReadQueues t)
    (hk : k.readsFrom = none) (hq : ∀ t, q ≠ some (.ttyReadQueue t)) :
    (s.switched q k).ReaderContexts where
  queued := fun t ht p hp => by
    rw [switched_readQueues hq] at hp
    have hne : p ≠ s.activePCB := fun heq => hreaders t ht (heq ▸ hp)
    rw [switched_readsFrom, if_neg hne]
    exact h.queued t ht p hp
  blocked := fun p hp => by
    rw [switched_readsFrom]
    split
    · exact hk
    · rename_i hne
      exact h.blocked p ((switched_blockedQ hp).resolve_right hne)
  positive := fun p t len hctx => by
    rw [switched_pcb] at hctx
    by_cases hp : p = s.activePCB
    · subst hp
      have hkctx : k = .kernelTtyRead t len :=
        (upd_same _ _ _).symm.trans hctx
      rw [hkctx] at hk
      cases hk
    · exact h.positive p t len ((upd_other hp _ _).symm.trans hctx)

theorem not_reader_of_places (h : (s.spot s.activePCB).places = 0) :
    s.activePCB ∉ s.readyQ ∧
      ∀ t < numTerminals, s.activePCB ∉ s.ttyReadQueues t := by
  have hsum : s.readyQ.count s.activePCB + s.blockedQ.count s.activePCB +
      readerCount s.ttyReadQueues s.activePCB = 0 := h
  refine ⟨List.count_eq_zero.1 (by omega), fun t ht => ?_⟩
  have hle := count_le_readerCount s.ttyReadQueues ht s.activePCB
  exact List.count_eq_zero.1 (by omega)

/-- Idle goes on in the clock handler or where it was started. -/
theorem idle_readsFrom (h : Population s) : s.readsFrom s.idlePCB = none := by
  rw [h.idle, Kernel.readsFrom]
  rcases h.idle_context with hctx | hctx
  · rw [hctx]
    rfl
  · rw [hctx]
    rfl

namespace KeepsReaders

/-- The running process goes to sleep, or it is preempted. -/
theorem swapped (h : KeepsReaders s r) (hs : s.ReaderContexts)
    (haside : ∀ t, s.Aside t) (hpop : Population r)
    (hplaces : (r.spot r.activePCB).places = 0)
    (hk : k.readsFrom = none) (hq : ∀ t, q ≠ some (.ttyReadQueue t)) :
    (r.swapped q k).ReaderContexts ∧
      ∀ t, ReadersMove s t a (r.swapped q k) := by
  obtain ⟨hready, hreaders⟩ := not_reader_of_places hplaces
  have hcontexts := h.contexts hs
  have hidle (q : Option QueueRef) :
      (r.switched q k).readsFrom r.idlePCB = none := by
    rw [switched_readsFrom]
    split
    · exact hk
    · exact idle_readsFrom hpop
  have hswitched (q : Option QueueRef) (hq : ∀ t, q ≠ some (.ttyReadQueue t)) :
      (r.switched q k).ReaderContexts ∧
        ∀ t, ReadersMove s t a (r.switched q k) := by
    refine ⟨hcontexts.switched hreaders hk hq, fun t =>
      .same (haside t) ?_ ?_⟩
    · rw [switched_wokenReaders hready (hidle q) fun _ => hk]
      exact h.readyReaders t
    · rw [switched_readQueues hq, h.readers]
  by_cases heq : r.activePCB = r.idlePCB
  · rw [hpop.swapped_of_eq heq]
    exact hswitched none nofun
  · rw [hpop.swapped_of_ne heq]
    exact hswitched q hq

theorem recheck {x : PcbPtr} (h : KeepsReaders s r)
    (hx : s.readsFrom x = none) {r' : Kernel} (hcheck : Recheck r x r') :
    KeepsReaders s r' := by
  obtain ⟨woken, hready, hwoken⟩ := h.ready
  have happend : ∃ woken, r.readyQ ++ [x] = s.readyQ ++ woken ∧
      ∀ p ∈ woken, s.readsFrom p = none := by
    refine ⟨woken ++ [x], by rw [hready, List.append_assoc], fun p hp => ?_⟩
    rcases List.mem_append.1 hp with hp | hp
    · exact hwoken p hp
    · rw [List.mem_singleton.1 hp]
      exact hx
  have hblocked : ∀ p ∈ r.blockedQ ++ [x], s.readsFrom p = none := by
    intro p hp
    rcases List.mem_append.1 hp with hp | hp
    · exact h.blocked p hp
    · rw [List.mem_singleton.1 hp]
      exact hx
  cases hcheck with
  | ticking => exact { h with blocked := hblocked }
  | due => exact { h with ready := happend }
  | opened => exact { h with ready := happend }
  | closed => exact h
  | other => exact { h with blocked := hblocked }

theorem scanned {limit : Nat} {r' : Kernel} (h : KeepsReaders s r)
    (hscan : Scanned limit r r') : KeepsReaders s r' := by
  induction hscan with
  | done => exact h
  | empty _ _ ih => exact ih h
  | @next _ r r₁ r' p rest hcons hcheck _ ih =>
      have hp : s.readsFrom p = none :=
        h.blocked p (hcons ▸ List.mem_cons_self)
      have hrest : KeepsReaders s (r.setBlockedQ rest) :=
        { h with
          blocked := fun q hq =>
            h.blocked q (hcons ▸ List.mem_cons_of_mem _ hq) }
      exact ih (hrest.recheck hp hcheck)

theorem exitCleanup (hs : s.ReaderContexts) (code : Int) :
    KeepsReaders s (s.exitCleanup code).2 := by
  have hc := s.exitCleanup_cleaned code
  obtain ⟨woken, hready, hwoken, -⟩ := s.exitCleanup_woken code
  refine ⟨hc.active, hc.context, ⟨woken, hready, fun p hp =>
    hs.blocked p (hwoken p hp).1⟩, fun p hp => ?_, hc.readers⟩
  have hcount := hc.count p
  have hle := hc.ready p
  have hpos := List.count_pos_iff.2 hp
  exact hs.blocked p (List.count_pos_iff.1 (by omega))

theorem writeDone (h : KeepsReaders s r)
    (hwriters : ∀ p ∈ (r.ttyWriteQueues t).tail, s.readsFrom p = none) :
    KeepsReaders s (r.writeDone t) := by
  unfold Kernel.writeDone
  split
  · exact { h with }
  · rename_i next rest htail
    obtain ⟨woken, hready, hwoken⟩ := h.ready
    refine
      { h with
        ready := ⟨woken ++ [next], ?_, fun p hp => ?_⟩ }
    · show r.readyQ ++ [next] = _
      rw [hready, List.append_assoc]
    · rcases List.mem_append.1 hp with hp | hp
      · exact hwoken p hp
      · rw [List.mem_singleton.1 hp]
        exact hwriters next (htail ▸ List.mem_cons_self)

theorem pipeWakes (hs : s.ReaderContexts) {c : PipeCall}
    {moved : List PcbPtr} (h : s.MovesFront c.pipe (s.wake c) moved) :
    KeepsReaders s (s.afterWake c.pipe (s.wake c)) where
  active := rfl
  context := rfl
  ready := ⟨moved, h.ready, fun p hp => hs.blocked p (by
    rw [h.blocked]
    exact List.mem_append_left _ hp)⟩
  blocked := fun p hp => hs.blocked p (by
    rw [h.blocked]
    exact List.mem_append_right _ hp)
  readers := rfl

end KeepsReaders

/-! ## Every step -/

theorem readsFrom_of_writesTo {p : PcbPtr} {u : Nat}
    (h : (s.pcb.kernelContext p).writesTo = some u) : s.readsFrom p = none := by
  unfold Kernel.readsFrom
  cases hctx : s.pcb.kernelContext p with
  | kernelTtyRead t len =>
      rw [hctx] at h
      cases h
  | _ => rfl

/-- A step that resumes elsewhere than in `KernelTtyRead`. -/
theorem aside_of_context (h : s.readsFrom s.activePCB = none) (t : Nat) :
    s.Aside t := fun _ hreads => by
  rw [h] at hreads
  cases hreads

theorem WritesOn.aside {u : Nat} {s₁ : Kernel} (h : WritesOn s a u s₁)
    (henabled : a.Enabled s) (t : Nat) : s.Aside t := by
  cases h with
  | call => exact aside_of_trap henabled
  | resume hctx =>
      refine aside_of_context ?_ t
      rw [Kernel.readsFrom, hctx]
      rfl

theorem WritesOn.keepsReaders {u : Nat} {s₁ : Kernel} (h : WritesOn s a u s₁)
    (hs : s.ReaderContexts) : KeepsReaders s s₁ := by
  cases h with
  | call => exact { KeepsReaders.refl hs with }
  | resume => exact KeepsReaders.refl hs

/-- The writers behind the head of a queue are asleep in `KernelTtyWrite`. -/
theorem WritesOn.tail {u : Nat} {s₁ : Kernel} (h : WritesOn s a u s₁)
    (hsettled : Settled s) (hpop : Population s) (henabled : a.Enabled s) :
    ∀ p ∈ (s₁.ttyWriteQueues u).tail, s.readsFrom p = none := by
  intro p hp
  obtain ⟨hplaced, -, hhead, -⟩ := hsettled.writesOn hpop henabled h
  have hne : p ≠ s₁.activePCB := fun heq => by
    obtain ⟨rest, hcons⟩ := List.head?_eq_some_iff.1 hhead
    have hnodup := hplaced.nodup u
    rw [hcons] at hnodup hp
    exact (List.nodup_cons.1 hnodup).1 (heq ▸ hp)
  have hcontext : s₁.pcb.kernelContext = s.pcb.kernelContext := by
    cases h <;> rfl
  refine readsFrom_of_writesTo (u := u) ?_
  rw [← hcontext]
  exact (hplaced.parked p hne).context u (List.mem_of_mem_tail hp)

/-- A reader that resumes is not a reader any more. -/
theorem readersMove_returns (hmode : s.mode = .kernel) (t : Nat) :
    ReadersMove s t a (s.setMode .user) := by
  by_cases hreads : s.readsFrom s.activePCB = some t
  · exact .resumes hmode hreads wokenReaders_user rfl
  · exact .same (fun _ => hreads) wokenReaders_user rfl

/-- The child that `Fork` made has its own context. -/
theorem ReaderContexts.forked (hs : s.ReaderContexts) (hpop : Population s)
    (haside : ∀ t, s.Aside t) (pid : Nat) :
    ((s.forked pid).setMode .user).ReaderContexts ∧
      ∀ t, ReadersMove s t a ((s.forked pid).setMode .user) := by
  have hother {p : PcbPtr} (hp : s.Member p) :
      (s.forked pid).readsFrom p = s.readsFrom p :=
    congrArg KernelContext.readsFrom (upd_other (Nat.ne_of_lt hp.2) _ _)
  have hchild : (s.forked pid).readsFrom s.npcb = none :=
    congrArg KernelContext.readsFrom (upd_same _ _ _)
  refine ⟨⟨fun t ht p hp => ?_, fun p hp => ?_, fun p t len hctx => ?_⟩,
    fun t => .same (haside t) ?_ rfl⟩
  · exact (hother (hpop.readers t p hp)).trans (hs.queued t ht p hp)
  · exact (hother (hpop.blocked p hp)).trans (hs.blocked p hp)
  · by_cases hp : p = s.npcb
    · subst hp
      have hfork : KernelContext.kernelFork = .kernelTtyRead t len :=
        (upd_same _ _ _).symm.trans hctx
      cases hfork
    · exact hs.positive p t len ((upd_other hp _ _).symm.trans hctx)
  · rw [wokenReaders_user]
    show List.filter _ (s.readyQ ++ [s.npcb]) = _
    rw [List.filter_append, List.filter_cons, hchild]
    refine (List.append_nil _).trans (List.filter_congr fun p hp => ?_)
    rw [hother (hpop.ready p hp)]

/-- A receive trap wakes the first reader. -/
theorem ReaderContexts.receives (hs : s.ReaderContexts)
    (haside : ∀ t, s.Aside t) {ctx : UserContext} {u : Nat}
    {bytes : List UInt8} {next : PcbPtr} {rest : List PcbPtr}
    (hu : u < numTerminals) (hcons : s.ttyReadQueues u = next :: rest) :
    let r := (((s.setTtyReadQueue u rest).setBlockedCode next
      Blocked.notBlocked).setReadyQ (s.readyQ ++ [next])).setMode .user
    r.ReaderContexts ∧
      ∀ t, ReadersMove s t (.trap ctx (.ttyReceive u bytes)) r := by
  intro r
  have hnext : s.readsFrom next = some u :=
    hs.queued u hu next (hcons ▸ List.mem_cons_self)
  refine ⟨⟨fun t ht p hp => ?_, hs.blocked, hs.positive⟩, fun t => ?_⟩
  · have hp' : p ∈ upd s.ttyReadQueues u rest t := hp
    by_cases hne : t = u
    · subst hne
      rw [upd_same] at hp'
      exact hs.queued t ht p (hcons ▸ List.mem_cons_of_mem _ hp')
    · rw [upd_other hne] at hp'
      exact hs.queued t ht p hp'
  · have hwoken : r.wokenReaders t = s.readyReaders t ++
        [next].filter (fun p => s.readsFrom p = some t) := by
      rw [wokenReaders_user]
      exact List.filter_append _ _
    by_cases hne : t = u
    · subst hne
      have hqueue : s.ttyReadQueues t = next :: r.ttyReadQueues t := by
        rw [hcons]
        exact congrArg (next :: ·) (upd_same _ _ _).symm
      refine .wakes rfl ?_ hqueue
      rw [hwoken, List.filter_cons, hnext]
      simp
    · refine .same (haside t) ?_ (upd_other hne _ _)
      rw [hwoken, List.filter_cons, hnext]
      simp [Ne.symm hne]

theorem Effect.readers (heffect : Effect s a r) (hpop : Population s)
    (hsettled : Settled s) (henabled : a.Enabled s) (horderly : Orderly s a)
    (hs : s.ReaderContexts)
    (hcall : ∀ ctx ttyId len, a ≠ .trap ctx (.kernel (.ttyRead ttyId len))) :
    r.ReaderContexts ∧ ∀ t, ReadersMove s t a r := by
  have hkeeps := KeepsReaders.refl hs
  have hcontext {k : KernelContext}
      (hctx : s.pcb.kernelContext s.activePCB = k) (hk : k.readsFrom = none) :
      ∀ t, s.Aside t :=
    aside_of_context (by rw [Kernel.readsFrom, hctx]; exact hk)
  cases heffect with
  | stay => exact hkeeps.user hs fun _ => aside_of_trap henabled
  | returns => exact ⟨{ hs with }, readersMove_returns henabled⟩
  | fork => exact hs.forked hpop (fun _ => aside_of_trap henabled) _
  | @forkFails _ pid =>
      have hnew : KeepsReaders s (s.newProcess (some s.activePCB) pid) :=
        { hkeeps with }
      exact hnew.user hs fun _ => aside_of_trap henabled
  | @exit _ code _ hends =>
      cases a with
      | trap ctx trap =>
          have hclean : KeepsReaders s ((s.exitCleanup code).2.setTerminated
              s.activePCB) := { KeepsReaders.exitCleanup hs code with }
          have hq (t : Nat) : (s.exitCleanup code).1 ≠
              some (.ttyReadQueue t) := fun heq => by
            rcases (s.exitCleanup_cleaned code).swapQ with hq | hq <;>
              rw [hq] at heq <;> cases heq
          exact hclean.swapped hs (fun _ => aside_of_trap henabled)
            { hpop.exitCleanup code with }
            (hsettled.exitCleanup code).active rfl hq
      | resume => cases hends
  | fault =>
      exact KeepsReaders.swapped { hkeeps with } hs
        (fun _ => aside_of_trap henabled) { hpop with } hsettled.active rfl nofun
  | waitFails =>
      exact KeepsReaders.user { hkeeps with } hs
        fun _ => aside_of_trap henabled
  | waitReaps =>
      exact KeepsReaders.user { hkeeps with } hs
        fun _ => aside_of_trap henabled
  | @waitSleeps _ queue _ _ hreap =>
      have hqueue : Population ((s.setDefunctQ queue).setBlockedCode
          s.activePCB Blocked.wait) :=
        { hpop with
          defunct := fun p hp => hpop.defunct p ((reapLoop_none hreap).1 ▸ hp) }
      exact KeepsReaders.swapped { hkeeps with } hs
        (fun _ => aside_of_trap henabled) hqueue hsettled.active rfl nofun
  | waitResumes hctx =>
      exact KeepsReaders.user { hkeeps with } hs (hcontext hctx rfl)
  | waitResumesOther hctx =>
      exact KeepsReaders.user { hkeeps with } hs (hcontext hctx rfl)
  | delay =>
      exact KeepsReaders.swapped { hkeeps with } hs
        (fun _ => aside_of_trap henabled) { hpop with } hsettled.active rfl nofun
  | clock =>
      exact hkeeps.swapped hs (fun _ => aside_of_trap henabled) hpop
        hsettled.active rfl nofun
  | clockResumes hctx hscan =>
      exact (hkeeps.scanned hscan).user hs (hcontext hctx rfl)
  | ttyReadSleeps => exact absurd rfl (hcall _ _ _)
  | ttyReadWakes hctx hcons hleft =>
      have halone := horderly.reader
      simp only [ReaderAlone, hctx, hcons] at halone
      exact absurd hleft (halone.resolve_left nofun)
  | ttyReceives ht hcons =>
      exact hs.receives (fun _ => aside_of_trap henabled) ht hcons
  | @ttyWriteWaits _ ttyId _ _ hne =>
      have hqueue : Population (s.setTtyWriteQueue ttyId.toNat
          (s.ttyWriteQueues ttyId.toNat ++ [s.activePCB])) := by
        refine hpop.setTtyWriteQueue fun p hp => ?_
        rcases List.mem_append.1 hp with hp | hp
        · exact hpop.writers _ p hp
        · rw [List.mem_singleton.1 hp]
          exact hpop.active_member hne
      exact KeepsReaders.swapped { hkeeps with } hs
        (fun _ => aside_of_trap henabled) { hqueue with } hsettled.active rfl
        nofun
  | ttyWriteSleeps buf len left written hwrites =>
      obtain ⟨hplaced, -⟩ := hsettled.writesOn hpop henabled hwrites
      exact KeepsReaders.swapped { hwrites.keepsReaders hs with } hs
        (hwrites.aside henabled) { hpop.writesOn hwrites with } hplaced.active
        rfl nofun
  | ttyWriteReturns hwrites =>
      exact ((hwrites.keepsReaders hs).writeDone
        (hwrites.tail hsettled hpop henabled)).user hs (hwrites.aside henabled)
  | @ttyTransmitted _ t head _ _ hcons hpid hcheck =>
      have hne : head ≠ s.activePCB := fun heq => hpid (by rw [heq])
      have hwrites : head ∈ s.ttyWriteQueues t := hcons ▸ List.mem_cons_self
      have hhead := readsFrom_of_writesTo
        ((hsettled.parked head hne).context t hwrites)
      exact (hkeeps.recheck hhead hcheck).user hs
        fun _ => aside_of_trap henabled
  | pipeInit =>
      exact KeepsReaders.user { hkeeps with } hs
        fun _ => aside_of_trap henabled
  | @pipeSleeps _ p code k hfrom _ hk =>
      have haside : ∀ t, s.Aside t := by
        rcases hfrom with ⟨-, hctx⟩ | ⟨ha, -⟩
        · exact hcontext rfl hctx.readsFrom_eq_none
        · cases a with
          | trap ctx trap => exact fun _ => aside_of_trap henabled
          | resume => cases ha
      have hne : s.activePCB ≠ s.idlePCB := by
        rcases hfrom with ⟨-, hctx⟩ | ⟨-, hne⟩
        · exact hpop.sleepsOn_active hctx
        · exact hne
      exact KeepsReaders.swapped { hkeeps with } hs haside
        (hpop.pipeSleeper hne p code) hsettled.active hk.readsFrom_eq_none nofun
  | @pipeWakes _ c hcompleting =>
      have hpid (p : PipePtr) (x : PcbPtr) (hx : x ∈ (s.pipes p).queue) :
          s.pcb.pid x ≠ 0 := hpop.pid_pos x (hpop.pipes p x hx)
      obtain ⟨moved, hmoves⟩ := wake_moves hpid
        (horderly.pipe c hcompleting).clean
      refine (KeepsReaders.pipeWakes hs hmoves).user hs ?_
      cases a with
      | trap ctx trap => exact fun _ => aside_of_trap henabled
      | resume =>
          simp only [completing] at hcompleting
          split at hcompleting
          · rename_i hctx
            exact hcontext hctx rfl
          · rename_i hctx
            exact hcontext hctx rfl
          · cases hcompleting

/-- A call goes to sleep behind the others. -/
theorem ReaderContexts.sleeps (hs : s.ReaderContexts) (hpop : Population s)
    (hsettled : Settled s) (hne : s.activePCB ≠ s.idlePCB) (u len : Nat)
    (hlen : 0 < len) :
    let r := ((s.setBlockedCode s.activePCB Blocked.ttyRead).setTtyTerminal
      s.activePCB u).swapped (some (.ttyReadQueue u)) (.kernelTtyRead u len)
    r.ReaderContexts ∧ ∀ t, r.wokenReaders t = s.readyReaders t ∧
      r.ttyReadQueues t = s.ttyReadQueues t ++
        if t = u then [s.activePCB] else [] := by
  let s₁ := (s.setBlockedCode s.activePCB Blocked.ttyRead).setTtyTerminal
    s.activePCB u
  have hpop₁ : Population s₁ := { hpop with }
  obtain ⟨hready, hreaders⟩ := not_reader_of_places hsettled.active
  intro r
  have hr : r = s₁.switched (some (.ttyReadQueue u)) (.kernelTtyRead u len) :=
    hpop₁.swapped_of_ne hne
  have hqueues (t : Nat) : r.ttyReadQueues t = s.ttyReadQueues t ++
      if t = u then [s.activePCB] else [] := by
    rw [hr]
    show upd s.ttyReadQueues u (s.ttyReadQueues u ++ [s.activePCB]) t = _
    by_cases ht : t = u
    · subst ht
      rw [upd_same, if_pos rfl]
    · rw [upd_other ht, if_neg ht, List.append_nil]
  have hreads (p : PcbPtr) : r.readsFrom p =
      if p = s.activePCB then some u else s.readsFrom p := by
    rw [hr, switched_readsFrom]
    rfl
  refine ⟨⟨fun t ht p hp => ?_, fun p hp => ?_, fun p t n hctx => ?_⟩,
    fun t => ⟨?_, hqueues t⟩⟩
  · rw [hqueues] at hp
    rw [hreads]
    rcases List.mem_append.1 hp with hp | hp
    · rw [if_neg fun heq : p = s.activePCB => hreaders t ht (heq ▸ hp)]
      exact hs.queued t ht p hp
    · split at hp
      · rename_i heq
        rw [if_pos (List.mem_singleton.1 hp), heq]
      · cases hp
  · have hplaces : s.readyQ.count s.activePCB + s.blockedQ.count s.activePCB +
        readerCount s.ttyReadQueues s.activePCB = 0 := hsettled.active
    have hp' : p ∈ s.blockedQ := by
      rw [hr] at hp
      exact hp
    have hpos := List.count_pos_iff.2 hp'
    have hne' : p ≠ s.activePCB := fun heq => by
      rw [heq] at hpos
      omega
    rw [hreads, if_neg hne']
    exact hs.blocked p hp'
  · rw [hr, switched_pcb] at hctx
    by_cases hp : p = s.activePCB
    · subst hp
      have hk : KernelContext.kernelTtyRead u len = .kernelTtyRead t n :=
        (upd_same _ _ _).symm.trans hctx
      cases hk
      exact hlen
    · exact hs.positive p t n ((upd_other hp _ _).symm.trans hctx)
  · have hidle : (s₁.switched (some (.ttyReadQueue u))
        (.kernelTtyRead u len)).readsFrom s₁.idlePCB = none := by
      rw [← hr, hreads]
      exact (if_neg (Ne.symm hne)).trans (idle_readsFrom hpop)
    have hwoken : _ = s₁.readyReaders t :=
      switched_wokenReaders hready hidle fun hq => nomatch hq
    rw [← hr] at hwoken
    exact hwoken

theorem ReaderContexts.of_core (h : s.ReaderContexts)
    (hcore : r.core = s.core) : r.ReaderContexts := by
  have hs : s.core.ReaderContexts := { h with }
  rw [← hcore] at hs
  exact { hs with }

theorem readers_of_core (hcore : r.core = s.core) (t : Nat) :
    r.wokenReaders t = s.wokenReaders t ∧
      r.ttyReadQueues t = s.ttyReadQueues t :=
  ⟨(congrArg (fun k : Kernel => k.wokenReaders t) hcore :),
    (congrArg (fun k : Kernel => k.ttyReadQueues t) hcore :)⟩

theorem ReadersMove.of_core {r' : Kernel} (h : ReadersMove s t a r)
    (hcore : r'.core = r.core) : ReadersMove s t a r' := by
  obtain ⟨hwoken, hqueue⟩ := readers_of_core hcore t
  cases h with
  | same haside h₁ h₂ => exact .same haside (hwoken.trans h₁) (hqueue.trans h₂)
  | wakes ha h₁ h₂ => exact .wakes ha (hwoken.trans h₁) (by rw [h₂, hqueue])
  | resumes hmode hreads h₁ h₂ =>
      exact .resumes hmode hreads (hwoken.trans h₁) (hqueue.trans h₂)

/-- The terminal at which a `TtyRead` call goes to sleep. -/
def sleepsToRead (s : Kernel) (a : Label) : Option Nat :=
  match s.completesRead a, a.ttyReads with
  | none, some (t, _) => some t
  | _, _ => none

/-- A `TtyRead` call returns at once, or it sleeps behind the others. -/
theorem kernelTtyRead_readers {ctx : UserContext} {ttyId len : Int}
    (hpop : Population s) (hsettled : Settled s)
    (henabled : (Label.trap ctx (.kernel (.ttyRead ttyId len))).Enabled s)
    (hs : s.ReaderContexts) :
    let a : Label := .trap ctx (.kernel (.ttyRead ttyId len))
    (s.take a).ReaderContexts ∧ ∀ t,
      (s.take a).wokenReaders t = s.readyReaders t ∧
      (s.take a).ttyReadQueues t = s.ttyReadQueues t ++
        if s.sleepsToRead a = some t then [s.activePCB] else [] := by
  intro a
  have hne : s.activePCB ≠ s.idlePCB :=
    henabled.2.1.resolve_right Bool.false_ne_true
  have hstay (hcore : (s.take a).core = (s.setMode .user).core)
      (hnone : s.sleepsToRead a = none) :
      (s.take a).ReaderContexts ∧ ∀ t,
        (s.take a).wokenReaders t = s.readyReaders t ∧
        (s.take a).ttyReadQueues t = s.ttyReadQueues t ++
          if s.sleepsToRead a = some t then [s.activePCB] else [] := by
    have huser : (s.setMode .user).ReaderContexts := { hs with }
    refine ⟨huser.of_core hcore, fun t => ?_⟩
    obtain ⟨hwoken, hqueue⟩ := readers_of_core hcore t
    rw [hwoken, hqueue, hnone, wokenReaders_user]
    exact ⟨rfl, (List.append_nil _).symm⟩
  by_cases hargs : 0 ≤ ttyId ∧ ttyId < numTerminals ∧ 0 < len
  · have hreads : a.ttyReads = some (ttyId.toNat, len.toNat) := if_pos hargs
    have hcompletes : s.completesRead a =
        if s.ttyReadQueues ttyId.toNat = [] ∧
            s.ttyReadbuffers ttyId.toNat 0 ≠ 0 then
          some (ttyId.toNat, len.toNat)
        else none := by
      rw [completesRead, hreads]
    have htake : s.take a = (s.enter ctx).kernelTtyRead ttyId len := rfl
    rw [kernelTtyRead_accepted hargs] at htake
    have hcall : ((s.enter ctx).emit (.ttyReadCall ttyId.toNat
        (s.enter ctx).activePCB len.toNat)).core = s.core :=
      emit_core_of_device rfl
    by_cases hfound : s.ttyReadQueues ttyId.toNat = [] ∧
        s.ttyReadbuffers ttyId.toNat 0 ≠ 0
    · have hsome : s.completesRead a = some (ttyId.toNat, len.toNat) :=
        hcompletes.trans (if_pos hfound)
      refine hstay ?_ (by rw [sleepsToRead, hsome])
      rw [htake]
      simp only
      rw [if_pos (by exact hfound)]
      rcases ttyReadFinish_core (s := (s.enter ctx).emit (.ttyReadCall
        ttyId.toNat (s.enter ctx).activePCB len.toNat)) ttyId.toNat len.toNat
        with hcore | ⟨next, rest, hcons, -⟩
      · rw [hcore, hcall, setMode_core]
      · cases hfound.1.symm.trans hcons
    · have hnone : s.completesRead a = none :=
        hcompletes.trans (if_neg hfound)
      have hsleeps : s.sleepsToRead a = some ttyId.toNat := by
        rw [sleepsToRead, hnone, hreads]
      obtain ⟨hcontexts, hmoves⟩ := hs.sleeps hpop hsettled hne
        ttyId.toNat len.toNat (by omega)
      have hcore : (s.take a).core = (((s.setBlockedCode s.activePCB
          Blocked.ttyRead).setTtyTerminal s.activePCB ttyId.toNat).swapped
            (some (.ttyReadQueue ttyId.toNat))
            (.kernelTtyRead ttyId.toNat len.toNat)).core := by
        rw [htake]
        simp only
        rw [if_neg (by exact hfound), swapProcess_core, setTtyTerminal_core,
          setBlockedCode_core, hcall, swapped_core, setTtyTerminal_core,
          setBlockedCode_core]
        rfl
      refine ⟨hcontexts.of_core hcore, fun t => ?_⟩
      obtain ⟨hwoken, hqueue⟩ := readers_of_core hcore t
      rw [hwoken, hqueue, hsleeps, (hmoves t).1, (hmoves t).2]
      simp only [Option.some.injEq, eq_comm, and_self]
  · have hreads : a.ttyReads = none := if_neg hargs
    have hcompletes : s.completesRead a = none := by
      rw [completesRead, hreads]
    obtain ⟨result, hret⟩ := kernelTtyRead_refused (s := s.enter ctx) hargs
    refine hstay ?_ (by rw [sleepsToRead, hcompletes, hreads])
    show ((s.enter ctx).kernelTtyRead ttyId len).core = _
    rw [hret]
    rfl

end Kernel

/-! ## Runs -/

/-- The callers of `TtyRead` on terminal `t`, in the order of their calls. -/
def ttyReadCallers (t : Nat) (events : List Event) : List PcbPtr :=
  events.filterMap fun
    | .ttyReadCall t' p _ => if t' = t then some p else none
    | _ => none

/-- The reads from terminal `t` that have returned, with their bytes, in the
order of their completion. -/
def ttyReadReturns (t : Nat) (events : List Event) :
    List (PcbPtr × List UInt8) :=
  events.filterMap fun
    | .ttyReadReturn t' p bytes => if t' = t then some (p, bytes) else none
    | _ => none

/-- Reads complete in the order of their calls, and none comes back empty. -/
structure ServedInOrder (t : Nat) (events : List Event) : Prop where
  order : ((ttyReadReturns t events).map Prod.fst).IsPrefix
    (ttyReadCallers t events)
  filled : ∀ result ∈ ttyReadReturns t events, result.2 ≠ []

theorem ttyReadCallers_input (s : Kernel) (t : Nat) :
    ttyReadCallers t s.history.trace =
      ttyReadCallers t (s.input t).events := by
  unfold ttyReadCallers Kernel.input
  rw [List.filterMap_filter]
  refine List.filterMap_congr fun e _ => ?_
  cases e with
  | ttyReadCall t' p len =>
      by_cases ht : t' = t
      · simp [Event.onInput, ht]
      · simp [Event.onInput, ht]
  | _ => simp

theorem ttyReadReturns_input (s : Kernel) (t : Nat) :
    ttyReadReturns t s.history.trace =
      ttyReadReturns t (s.input t).events := by
  unfold ttyReadReturns Kernel.input
  rw [List.filterMap_filter]
  refine List.filterMap_congr fun e _ => ?_
  cases e with
  | ttyReadReturn t' p bytes =>
      by_cases ht : t' = t
      · simp [Event.onInput, ht]
      · simp [Event.onInput, ht]
  | _ => simp

/--
The steps that serve the readers in order: none that puts a process in two
places; a read that completes finds no other reader woken, or it is itself the
next one to resume and leaves bytes for the others.
-/
structure ServesReaders (s : Kernel) (a : Label) : Prop
    extends Orderly s a where
  rest : ∀ read ∈ s.completesRead a, s.readyReaders read.1 = [] ∨
    s.mode = .kernel ∧
      (s.input read.1).taken read.2 < s.ttyReadTrackers read.1

/-- The calls that have not completed are those of the readers on the way. -/
structure ReadersWait (t : Nat) (i : Input) (woken queue : List PcbPtr) :
    Prop where
  pending : ttyReadCallers t i.events =
    (ttyReadReturns t i.events).map Prod.fst ++ (woken ++ queue)
  filled : ∀ result ∈ ttyReadReturns t i.events, result.2 ≠ []
  bytes : woken ≠ [] → 0 < i.tracker

namespace ReadersWait

variable {t len : Nat} {i : Input} {woken queue : List PcbPtr} {p : PcbPtr}

theorem call (h : ReadersWait t i woken queue) :
    ReadersWait t (i.call t p len) woken (queue ++ [p]) where
  pending := by
    have hpending := h.pending
    simp only [ttyReadCallers, ttyReadReturns] at hpending ⊢
    simp [Input.call, hpending]
  filled := by
    have hfilled := h.filled
    simp only [ttyReadReturns] at hfilled ⊢
    simpa [Input.call] using hfilled
  bytes := h.bytes

theorem receive (h : ReadersWait t i woken queue) {bytes : List UInt8}
    (hbytes : 0 < bytes.length) {woken' queue' : List PcbPtr}
    (hsame : woken' ++ queue' = woken ++ queue) :
    ReadersWait t (i.receive t bytes) woken' queue' where
  pending := by
    have hpending := h.pending
    simp only [ttyReadCallers, ttyReadReturns] at hpending ⊢
    simp [Input.receive, hpending, hsame]
  filled := by
    have hfilled := h.filled
    simp only [ttyReadReturns] at hfilled ⊢
    simpa [Input.receive] using hfilled
  bytes := fun _ => by
    show 0 < i.tracker + min bytes.length (terminalMaxLine - i.tracker)
    unfold terminalMaxLine
    omega

theorem finish (h : ReadersWait t i (p :: woken) queue) (hlen : 0 < len)
    (hrest : woken = [] ∨ i.taken len < i.tracker) :
    ReadersWait t (i.finish t p len) woken queue where
  pending := by
    have hpending := h.pending
    simp only [ttyReadCallers, ttyReadReturns] at hpending ⊢
    simp [Input.finish, hpending]
  filled := fun result hresult => by
    have htracker : 0 < i.tracker := h.bytes (List.cons_ne_nil _ _)
    have htaken : 0 < i.taken len := by
      have hline : 0 < lineLength i.contents := by
        unfold lineLength
        split
        · exact Nat.succ_pos _
        · rw [Input.contents_length]
          exact htracker
      unfold Input.taken
      omega
    simp only [ttyReadReturns, Input.finish, List.filterMap_append,
      List.filterMap_cons, if_true, List.filterMap_nil] at hresult
    rcases List.mem_append.1 hresult with hresult | hresult
    · exact h.filled result hresult
    · rw [List.mem_singleton.1 hresult]
      have hlength : (i.contents.take (i.taken len)).length = i.taken len := by
        rw [List.length_take, Input.contents_length,
          Nat.min_eq_left (i.taken_le len)]
      intro hempty
      exact Nat.ne_of_gt htaken
        (hlength.symm.trans (congrArg List.length hempty :))
  bytes := fun hwoken => by
    show 0 < i.tracker - i.taken len
    have hlt := hrest.resolve_left hwoken
    omega

/-- A call that finds nobody waiting is served at once. -/
theorem call_finish (h : ReadersWait t i [] []) (hlen : 0 < len)
    (htracker : 0 < i.tracker) :
    ReadersWait t ((i.call t p len).finish t p len) [] [] := by
  have hcall : ReadersWait t (i.call t p len) [p] [] :=
    { h.call (p := p) with bytes := fun _ => htracker }
  exact hcall.finish hlen (.inl rfl)

end ReadersWait

namespace Kernel

variable {s : Kernel} {a : Label}

/-- The readers of terminal `t` on the way. -/
def ReadersWait (s : Kernel) (t : Nat) : Prop :=
  Yalnix.ReadersWait t (s.input t) (s.wokenReaders t) (s.ttyReadQueues t)

theorem completesRead_of_readsFrom {t : Nat}
    (h : s.readsFrom s.activePCB = some t) :
    ∃ len, s.completesRead .resume = some (t, len) := by
  unfold Kernel.readsFrom at h
  cases hctx : s.pcb.kernelContext s.activePCB with
  | kernelTtyRead u len =>
      rw [hctx] at h
      cases h
      exact ⟨len, by rw [completesRead, hctx]⟩
  | _ =>
      rw [hctx] at h
      cases h

theorem readsFrom_of_completesRead {t len : Nat}
    (h : s.completesRead .resume = some (t, len)) :
    s.pcb.kernelContext s.activePCB = .kernelTtyRead t len := by
  simp only [completesRead] at h
  split at h
  · rename_i hctx
    cases h
    exact hctx
  · cases h

/-- A step other than a `TtyRead` call keeps the readers waiting in order. -/
theorem ReadersMove.wait {s' : Kernel} {t : Nat} (hmove : ReadersMove s t a s')
    (hinput : s.InputStep t a (s'.input t)) (henabled : a.Enabled s)
    (hserves : ServesReaders s a) (hs : s.ReaderContexts)
    (hwait : s.ReadersWait t) (hcall : a.ttyReads = none) :
    s'.ReadersWait t := by
  have hnone {len : Nat} (h : a.ttyReads = some (t, len)) : False := by
    rw [hcall] at h
    cases h
  have hrest {len : Nat} (h : s.completesRead a = some (t, len)) :
      s.readyReaders t = [] ∨ (s.input t).taken len < (s.input t).tracker :=
    (hserves.rest _ h).imp_right And.right
  unfold Kernel.ReadersWait at hwait ⊢
  generalize s'.input t = i at hinput
  cases hmove with
  | same haside hwoken hqueue =>
      rw [haside.wokenReaders] at hwait
      rw [hwoken, hqueue]
      cases hinput with
      | receives => exact hwait.receive henabled.2.2.1 rfl
      | sleeps hreads => exact (hnone hreads).elim
      | reads hreads => exact (hnone hreads).elim
      | resumes hcompletes =>
          have hctx := readsFrom_of_completesRead hcompletes
          exact absurd (congrArg KernelContext.readsFrom hctx)
            (haside henabled)
      | other => exact hwait
  | @wakes ctx bytes next ha hwoken hqueue =>
      subst ha
      rw [Aside.wokenReaders (aside_of_trap henabled)] at hwait
      cases hinput with
      | receives =>
          refine hwait.receive henabled.2.2.1 ?_
          rw [hwoken, hqueue, List.append_assoc]
          rfl
      | sleeps hreads => exact (hnone hreads).elim
      | reads hreads => exact (hnone hreads).elim
      | other hreceive => exact absurd rfl (hreceive _ _)
  | resumes hmode hreads hwoken hqueue =>
      have hfirst : s.wokenReaders t = s.activePCB :: s.readyReaders t :=
        if_pos ⟨hmode, hreads⟩
      obtain ⟨len, hcompletes⟩ := completesRead_of_readsFrom hreads
      have hresume : a = .resume := by
        cases a with
        | trap ctx trap =>
            rw [henabled.1] at hmode
            cases hmode
        | resume => rfl
      subst hresume
      rw [hfirst] at hwait
      rw [hwoken, hqueue]
      cases hinput with
      | sleeps hcall => exact (hnone hcall).elim
      | reads hcall => exact (hnone hcall).elim
      | @resumes len' hcompletes' =>
          have hctx := readsFrom_of_completesRead hcompletes'
          exact hwait.finish (hs.positive _ _ _ hctx) (hrest hcompletes')
      | other _ _ hother => exact absurd hcompletes (hother len)

/-- A `TtyRead` call is served at once or queues up. -/
theorem ReadersWait.ttyRead {ctx : UserContext} {ttyId len : Int} {t : Nat}
    (hpop : Population s) (hsettled : Settled s)
    (henabled : (Label.trap ctx (.kernel (.ttyRead ttyId len))).Enabled s)
    (hserves : ServesReaders s (.trap ctx (.kernel (.ttyRead ttyId len))))
    (hs : s.ReaderContexts) (hfaithful : (s.input t).Faithful)
    (hwait : s.ReadersWait t) :
    (s.take (.trap ctx (.kernel (.ttyRead ttyId len)))).ReadersWait t := by
  obtain ⟨-, hmoves⟩ := kernelTtyRead_readers hpop hsettled henabled hs
  obtain ⟨hwoken, hqueue⟩ := hmoves t
  have hinput := take_inputStep (s := s)
    (.trap ctx (.kernel (.ttyRead ttyId len))) t
  unfold Kernel.ReadersWait at hwait ⊢
  rw [Aside.wokenReaders (aside_of_trap henabled)] at hwait
  rw [hwoken, hqueue]
  generalize (s.take (.trap ctx (.kernel (.ttyRead ttyId len)))).input t = i
    at hinput
  cases hinput with
  | @sleeps _ n hreads hcompletes =>
      have hsleeps : s.sleepsToRead (.trap ctx (.kernel (.ttyRead ttyId len))) =
          some t := by
        rw [sleepsToRead, hreads, hcompletes]
      rw [if_pos hsleeps]
      exact hwait.call
  | @reads _ n hreads hcompletes =>
      have hsleeps : s.sleepsToRead (.trap ctx (.kernel (.ttyRead ttyId len))) ≠
          some t := by
        rw [sleepsToRead, hcompletes]
        exact (Option.some_ne_none t).symm
      have hfound : s.ttyReadQueues t = [] ∧ s.ttyReadbuffers t 0 ≠ 0 := by
        rw [completesRead, hreads] at hcompletes
        by_contra hnot
        simp only [if_neg hnot] at hcompletes
        cases hcompletes
      have hready : s.readyReaders t = [] := by
        rcases hserves.rest _ hcompletes with hready | ⟨hmode, -⟩
        · exact hready
        · rw [henabled.1] at hmode
          cases hmode
      have htracker : 0 < (s.input t).tracker := by
        by_contra hzero
        exact hfound.2 (hfaithful.clear 0 (by omega))
      have hn : 0 < n := by
        rw [Label.ttyReads] at hreads
        split at hreads
        · cases hreads
          omega
        · cases hreads
      rw [if_neg hsleeps, hready, hfound.1]
      rw [hready, hfound.1] at hwait
      exact hwait.call_finish hn htracker
  | other hreceive hreads hcompletes =>
      have hsleeps : s.sleepsToRead (.trap ctx (.kernel (.ttyRead ttyId len))) ≠
          some t := by
        unfold sleepsToRead
        split
        · rename_i u n _ hreads'
          intro heq
          cases heq
          exact hreads n hreads'
        · exact (Option.some_ne_none t).symm
      rw [if_neg hsleeps, List.append_nil]
      exact hwait

end Kernel

theorem Label.ttyReads_of_not_call {a : Label}
    (h : ∀ ctx ttyId len, a ≠ .trap ctx (.kernel (.ttyRead ttyId len))) :
    a.ttyReads = none := by
  cases a with
  | trap ctx trap =>
      cases trap with
      | kernel call =>
          cases call with
          | ttyRead ttyId len => exact absurd rfl (h ctx ttyId len)
          | _ => rfl
      | _ => rfl
  | resume => rfl

theorem Booted.readers {s : Kernel} (h : Booted s) :
    s.ReaderContexts ∧ ∀ t, s.ReadersWait t := by
  obtain ⟨b, hb, hcore⟩ := h.core
  have hreads (p : PcbPtr) : b.started.readsFrom p = none := by
    have hctx : b.started.pcb.kernelContext p = .kernelStart := by
      by_cases hp : p = 1
      · subst hp
        rfl
      · exact upd_other hp _ _
    rw [Kernel.readsFrom, hctx]
    rfl
  have hcontexts : b.started.ReaderContexts :=
    { queued := fun _ _ _ hp => nomatch hp
      blocked := fun _ hp => nomatch hp
      positive := fun p t len hctx => by
        have hnone := hreads p
        rw [Kernel.readsFrom, hctx] at hnone
        cases hnone }
  refine ⟨hcontexts.of_core hcore, fun t => ?_⟩
  obtain ⟨hwoken, hqueue⟩ := Kernel.readers_of_core hcore t
  have hempty : b.started.wokenReaders t = [] := by
    rw [Kernel.Aside.wokenReaders (Kernel.aside_of_context (hreads _) t)]
    refine List.filter_eq_nil_iff.2 fun p _ => ?_
    rw [hreads]
    simp
  obtain ⟨b', -, rfl, hmode⟩ := h
  unfold Kernel.ReadersWait
  rw [hwoken, hqueue, hempty,
    Kernel.input_of_devices (Boot.kernelStart_devices hmode)]
  exact ⟨rfl, nofun, fun h => absurd rfl h⟩

/-- The readers of every terminal wait in the order of their calls. -/
theorem Reachable.readersWait {s : Kernel} (h : Reachable ServesReaders s)
    (hlive : s.Live) : s.ReaderContexts ∧ ∀ t, s.ReadersWait t := by
  revert hlive
  refine h.invariant
    (P := fun s => s.Live → s.ReaderContexts ∧ ∀ t, s.ReadersWait t)
    (fun s hbooted _ => hbooted.readers) ?_
  intro s a s' hreach ih hserves hstep hlive
  cases hstep with
  | take henabled =>
      obtain ⟨hs, hwait⟩ := ih henabled.live
      obtain ⟨hpop, hsettled⟩ :=
        Reachable.settled (fun _ _ h => h.toOrderly) hreach henabled.live
      by_cases hcall : ∃ ctx ttyId len,
          a = .trap ctx (.kernel (.ttyRead ttyId len))
      · obtain ⟨ctx, ttyId, len, rfl⟩ := hcall
        exact ⟨(Kernel.kernelTtyRead_readers hpop hsettled henabled hs).1,
          fun t => (hwait t).ttyRead hpop hsettled henabled hserves hs
            (Reachable.input hreach t)⟩
      · have hnot ctx ttyId len :
            a ≠ .trap ctx (.kernel (.ttyRead ttyId len)) :=
          fun heq => hcall ⟨ctx, ttyId, len, heq⟩
        have hquiet := Reachable.quiescent hreach henabled.live
        obtain ⟨r, heffect, hcore⟩ := Kernel.take_hasEffect hquiet.sync
          hquiet.zero_used henabled hlive
        have hentered := Kernel.entered_core (s := s) a
        obtain ⟨hcontexts, hmoves⟩ := heffect.readers (hpop.of_core hentered)
          (hsettled.of_core hentered) (Kernel.entered_enabled henabled)
          hserves.toOrderly.entered (hs.of_core hentered) hnot
        refine ⟨hcontexts.of_core hcore, fun t => ?_⟩
        have hmove : s.ReadersMove t a (s.take a) := by
          have hmove := (hmoves t).of_core hcore
          cases a with
          | trap ctx trap =>
              cases hmove with
              | same h₁ h₂ h₃ => exact .same h₁ h₂ h₃
              | wakes h₁ h₂ h₃ => exact .wakes h₁ h₂ h₃
              | resumes h₁ h₂ h₃ h₄ => exact .resumes h₁ h₂ h₃ h₄
          | resume => exact hmove
        exact hmove.wait (Kernel.take_inputStep a t) henabled hserves hs
          (hwait t) (Label.ttyReads_of_not_call hnot)

instance (s : Kernel) (a : Label) : Decidable (ServesReaders s a) :=
  decidable_of_iff (Orderly s a ∧ ∀ read ∈ s.completesRead a,
      s.readyReaders read.1 = [] ∨ s.mode = .kernel ∧
        (s.input read.1).taken read.2 < s.ttyReadTrackers read.1)
    ⟨fun h => ⟨h.1, h.2⟩, fun h => ⟨h.toOrderly, h.rest⟩⟩

/--
In a run of steps that serve the readers, the reads from every terminal complete
in the order of their calls, and each of them returns at least one byte.
-/
theorem readers_served_in_order {s : Kernel} (h : Reachable ServesReaders s)
    (hlive : s.Live) (t : Nat) : ServedInOrder t s.history.trace := by
  obtain ⟨-, hwait⟩ := h.readersWait hlive
  have ht := hwait t
  constructor
  · rw [ttyReadCallers_input, ttyReadReturns_input, ht.pending]
    exact List.prefix_append _ _
  · rw [ttyReadReturns_input]
    exact ht.filled

/-- Two readers sleep, and each is woken by a line of its own. -/
theorem readers_served_in_order_two :
    let labels := tick ++ [call (.fork 2), call (.ttyRead 0 5), .resume,
      call (.ttyRead 0 5), .resume, .trap ⟨0, 0⟩ (.ttyReceive 0 [97, 10]),
      .trap ⟨0, 0⟩ (.ttyReceive 0 [98, 10])] ++ tick ++ tick
    let s := (Boot.small 20).kernelStart.run labels
    ttyReadReturns 0 s.history.trace = [(1, [97, 10]), (2, [98, 10])] ∧
      ServedInOrder 0 s.history.trace := by
  intro labels s
  have hreach : Reachable ServesReaders s :=
    reachable_small 20 labels (by decide +kernel) (by decide +kernel)
  exact ⟨by decide +kernel,
    readers_served_in_order hreach (.inl (by decide +kernel)) 0⟩

/-- A line wakes the parent; before it resumes, the child calls `TtyRead` and
takes the line.  The parent comes back empty. -/
theorem reader_comes_back_empty :
    ¬ ∀ (s : Kernel) (t : Nat), Reachable (fun _ _ => True) s → s.Live →
      t < numTerminals → ServedInOrder t s.history.trace := by
  intro hall
  let labels := tick ++ [call (.fork 2), call (.ttyRead 0 5), .resume,
    .trap ⟨0, 0⟩ (.ttyReceive 0 [97, 10]), call (.ttyRead 0 5)] ++ tick
  let s := (Boot.small 20).kernelStart.run labels
  have hreach : Reachable (fun _ _ => True) s :=
    reachable_small 20 labels (by decide +kernel) (by decide +kernel)
  have hserved := hall s 0 hreach (.inl (by decide +kernel)) (by decide)
  have hreturns : (1, []) ∈ ttyReadReturns 0 s.history.trace := by
    decide +kernel
  exact hserved.filled _ hreturns rfl

end Yalnix
