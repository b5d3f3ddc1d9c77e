import Yalnix.Process.Population

/-!
# Where the processes are

`Spot` collects what the queues and the PCB say about one process.  `Parked` is
the invariant of the spots of processes that do not run; a step changes few
spots, and every other one is carried over as it is.
-/

namespace Yalnix

/-! ## The spot of a process -/

/-- The entries of a process in the terminal read queues. -/
def readerCount (queues : Nat → List PcbPtr) (p : PcbPtr) : Nat :=
  ((List.range numTerminals).map fun t => (queues t).count p).sum

@[ext]
structure Spot where
  ready : Nat
  blocked : Nat
  readers : Nat
  /-- It is in the write queue of a terminal. -/
  writes : Nat → Prop
  /-- It is in the write queue of a terminal, behind its head. -/
  waits : Nat → Prop
  terminated : Bool
  code : Int
  context : KernelContext

/-- The entries in `ready_q`, `blocked_q` and the terminal read queues. -/
def Spot.places (v : Spot) : Nat := v.ready + v.blocked + v.readers

/--
A process that does not run has at most one entry, and none once it has
terminated.  A terminal writer is ready or asleep outside these queues: behind
the head of its queue with `BLOCKED_TTY_WRITE`, or at the head until the
terminal opens.  Its kernel context names the terminal.
-/
structure Parked (v : Spot) : Prop where
  once : v.places ≤ 1
  dead : v.terminated = true → v.places = 0
  writer_live : ∀ t, v.writes t → v.terminated = false
  writer : ∀ t, v.writes t → v.blocked = 0 ∧ v.readers = 0
  sleeping : ∀ t, v.writes t →
    v.code = Blocked.ttyWrite ∨ v.code = Blocked.ttyTransmit → v.places = 0
  waiting : ∀ t, v.waits t → v.code = Blocked.ttyWrite
  context : ∀ t, v.writes t → v.context.writesTo = some t
  queued : v.places = 1 → ∀ t, v.context.writesTo = some t → v.writes t

namespace Kernel

def spot (s : Kernel) (p : PcbPtr) : Spot :=
  { ready := s.readyQ.count p
    blocked := s.blockedQ.count p
    readers := readerCount s.ttyReadQueues p
    writes := fun t => p ∈ s.ttyWriteQueues t
    waits := fun t => p ∈ (s.ttyWriteQueues t).tail
    terminated := s.history.terminated p
    code := s.pcb.blockedCode p
    context := s.pcb.kernelContext p }

end Kernel

section ReaderCount

variable (queues : Nat → List PcbPtr)

theorem readerCount_eq_zero {p : PcbPtr} (h : ∀ t, p ∉ queues t) :
    readerCount queues p = 0 := by
  rw [readerCount, List.sum_eq_zero_iff_forall_eq_nat]
  intro n hn
  obtain ⟨t, -, rfl⟩ := List.mem_map.1 hn
  exact List.count_eq_zero_of_not_mem (h t)

/-- One queue is replaced by another one. -/
theorem readerCount_upd {t : Nat} (ht : t < numTerminals)
    (queue : List PcbPtr) (p : PcbPtr) :
    readerCount (upd queues t queue) p + (queues t).count p =
      readerCount queues p + queue.count p := by
  have hrange : List.range numTerminals = [0, 1, 2, 3] := rfl
  have hcases : t = 0 ∨ t = 1 ∨ t = 2 ∨ t = 3 := by
    unfold numTerminals at ht
    omega
  simp only [readerCount, hrange, List.map_cons, List.map_nil, List.sum_cons,
    List.sum_nil, upd_apply]
  rcases hcases with rfl | rfl | rfl | rfl <;> simp <;> omega

theorem count_le_readerCount {t : Nat} (ht : t < numTerminals)
    (p : PcbPtr) : (queues t).count p ≤ readerCount queues p := by
  have h := readerCount_upd queues ht [] p
  rw [List.count_nil] at h
  omega

end ReaderCount

namespace Parked

variable {v : Spot}

/-- A process that does not write to a terminal. -/
theorem of_quiet (hwrites : ∀ t, ¬ v.writes t) (hwaits : ∀ t, ¬ v.waits t)
    (hcontext : v.context.writesTo = none) (honce : v.places ≤ 1)
    (hdead : v.terminated = true → v.places = 0) : Parked v where
  once := honce
  dead := hdead
  writer_live := fun t h => absurd h (hwrites t)
  writer := fun t h => absurd h (hwrites t)
  sleeping := fun t h => absurd h (hwrites t)
  waiting := fun t h => absurd h (hwaits t)
  context := fun t h => absurd h (hwrites t)
  queued := fun _ t h => by
    rw [hcontext] at h
    cases h

/-- A process with an entry in `blocked_q` or in a read queue is no writer. -/
theorem quiet (h : Parked v) (hpos : 0 < v.blocked + v.readers) :
    (∀ t, ¬ v.writes t) ∧ v.context.writesTo = none ∧
      v.places = 1 ∧ v.terminated = false := by
  have hwrites : ∀ t, ¬ v.writes t := fun t ht => by
    have := h.writer t ht
    omega
  have hplaces : v.places = 1 := by
    have := h.once
    unfold Spot.places at this ⊢
    omega
  refine ⟨hwrites, ?_, hplaces, ?_⟩
  · cases hto : v.context.writesTo with
    | none => rfl
    | some t => exact absurd (h.queued hplaces t hto) (hwrites t)
  · cases hterm : v.terminated with
    | false => rfl
    | true =>
        have := h.dead hterm
        omega

/-- A sleeping writer that is not behind the head becomes ready. -/
theorem wakes {t : Nat} {r : Spot} (h : Parked v) (hwrites : v.writes t)
    (hplaces : v.places = 0) (hwaits : ∀ t, ¬ r.waits t)
    (hready : r.ready = v.ready + 1) (hblocked : r.blocked = v.blocked)
    (hreaders : r.readers = v.readers) (hqueue : ∀ t, r.writes t ↔ v.writes t)
    (hterm : r.terminated = v.terminated) (hcode : r.code = Blocked.notBlocked)
    (hcontext : r.context = v.context) : Parked r where
  once := by
    unfold Spot.places at hplaces ⊢
    omega
  dead := fun hr => by
    rw [hterm, h.writer_live t hwrites] at hr
    cases hr
  writer_live := fun _ _ => hterm.trans (h.writer_live t hwrites)
  writer := fun _ _ => by
    rw [hblocked, hreaders]
    exact h.writer t hwrites
  sleeping := fun _ _ hr => by
    rw [hcode] at hr
    rcases hr with hr | hr <;> cases hr
  waiting := fun t ht => absurd ht (hwaits t)
  context := fun t ht => by
    rw [hcontext]
    exact h.context t ((hqueue t).1 ht)
  queued := fun _ t' ht' => by
    rw [hcontext, h.context t hwrites] at ht'
    cases ht'
    exact (hqueue t).2 hwrites

/-- The same process in write queues that lost or got other entries. -/
theorem requeue {writes waits : Nat → Prop} (h : Parked v)
    (hwrites : ∀ t, writes t ↔ v.writes t)
    (hwaits : ∀ t, waits t → v.waits t) :
    Parked { v with writes := writes, waits := waits } where
  once := h.once
  dead := h.dead
  writer_live := fun t ht => h.writer_live t ((hwrites t).1 ht)
  writer := fun t ht => h.writer t ((hwrites t).1 ht)
  sleeping := fun t ht => h.sleeping t ((hwrites t).1 ht)
  waiting := fun t ht => h.waiting t (hwaits t ht)
  context := fun t ht => h.context t ((hwrites t).1 ht)
  queued := fun hone t ht => (hwrites t).2 (h.queued hone t ht)

end Parked

/-! ## All processes -/

/-- Every process is in order, but for what the running one is about to do. -/
structure Placement (s : Kernel) : Prop where
  nodup : ∀ t, (s.ttyWriteQueues t).Nodup
  fresh : ∀ p, s.npcb ≤ p → s.history.terminated p = false
  idle : s.history.terminated s.idlePCB = false
  parked : ∀ p, p ≠ s.activePCB → Parked (s.spot p)
  active : (s.spot s.activePCB).places = 0

/-- The running process has not terminated.  In user mode it is in no write
queue; a writer resumes at the head of its queue. -/
structure Settled (s : Kernel) : Prop extends Placement s where
  live : s.history.terminated s.activePCB = false
  user : s.mode = .user → ∀ t, s.activePCB ∉ s.ttyWriteQueues t
  kernel : s.mode = .kernel → ∀ t, s.activePCB ∈ s.ttyWriteQueues t ↔
    (s.pcb.kernelContext s.activePCB).writesTo = some t
  head : s.mode = .kernel → ∀ t, s.activePCB ∈ s.ttyWriteQueues t →
    (s.ttyWriteQueues t).head? = some s.activePCB

namespace Placement

open Kernel

variable {s r : Kernel} {q : Option QueueRef} {k : KernelContext}

theorem not_waits {p : PcbPtr} (h : ∀ t, p ∉ s.ttyWriteQueues t) (t : Nat) :
    ¬ (s.spot p).waits t :=
  fun ht => h t (List.mem_of_mem_tail ht)

/-- Idle is in no queue. -/
theorem idle_spot (hs : Population s) :
    (s.spot s.idlePCB).places = 0 ∧ ∀ t, s.idlePCB ∉ s.ttyWriteQueues t := by
  have hnot {queue : List PcbPtr} (hqueue : ∀ p ∈ queue, s.Member p) :
      s.idlePCB ∉ queue := fun hp => by
    have := (hqueue _ hp).1
    rw [hs.idle] at this
    exact Nat.lt_irrefl 0 this
  refine ⟨?_, fun t => hnot (hs.writers t)⟩
  simp only [Spot.places, spot, List.count_eq_zero_of_not_mem (hnot hs.ready),
    List.count_eq_zero_of_not_mem (hnot hs.blocked),
    readerCount_eq_zero _ fun t => hnot (hs.readers t)]

/-- A PCB that was not made yet is in no queue. -/
theorem fresh_spot (hs : Population s) :
    (s.spot s.npcb).places = 0 ∧ ∀ t, s.npcb ∉ s.ttyWriteQueues t := by
  have hnot {queue : List PcbPtr} (hqueue : ∀ p ∈ queue, s.Member p) :
      s.npcb ∉ queue := fun hp => Nat.lt_irrefl _ (hqueue _ hp).2
  refine ⟨?_, fun t => hnot (hs.writers t)⟩
  simp only [Spot.places, spot, List.count_eq_zero_of_not_mem (hnot hs.ready),
    List.count_eq_zero_of_not_mem (hnot hs.blocked),
    readerCount_eq_zero _ fun t => hnot (hs.readers t)]

/-! ## Switching -/

theorem queueAdd_spot {p x : PcbPtr} (hne : p ≠ x) :
    (s.queueAdd q x).spot p = s.spot p := by
  have hadd (queue : List PcbPtr) :
      (queue ++ [x]).count p = queue.count p := by
    rw [List.count_append, List.count_singleton]
    simp [hne.symm]
  rcases q with _ | ref
  · rfl
  · cases ref with
    | readyQ => exact Spot.ext (hadd _) rfl rfl rfl rfl rfl rfl rfl
    | blockedQ => exact Spot.ext rfl (hadd _) rfl rfl rfl rfl rfl rfl
    | ttyReadQueue t =>
        refine Spot.ext rfl rfl ?_ rfl rfl rfl rfl rfl
        show readerCount (upd s.ttyReadQueues t _) p = _
        unfold readerCount
        congr 2
        funext t'
        by_cases ht : t' = t
        · subst ht
          rw [upd_same, hadd]
        · rw [upd_other ht]
    | _ => rfl

/-- The running process gets one entry, unless it goes to `defunct_q` or to no
queue. -/
theorem queueAdd_places (x : PcbPtr)
    (ht : ∀ t, q = some (.ttyReadQueue t) → t < numTerminals) :
    ((s.queueAdd q x).spot x).places ≤ (s.spot x).places + 1 := by
  rcases q with _ | ref
  · exact Nat.le_succ _
  · cases ref with
    | readyQ =>
        simp only [Spot.places, spot, queueAdd, setReadyQ, List.count_append,
          List.count_singleton_self]
        omega
    | blockedQ =>
        simp only [Spot.places, spot, queueAdd, setBlockedQ, List.count_append,
          List.count_singleton_self]
        omega
    | ttyReadQueue t =>
        have hcount := readerCount_upd s.ttyReadQueues (ht t rfl)
          (s.ttyReadQueues t ++ [x]) x
        simp only [List.count_append, List.count_singleton_self] at hcount
        simp only [Spot.places, spot, queueAdd, setTtyReadQueue]
        omega
    | _ => exact Nat.le_succ _

/-- The spots after a switch, but for `ready_q` and the saved context. -/
theorem switched_spot (p : PcbPtr) : (s.switched q k).spot p =
    { ((s.setReadyQ s.readyQ.tail).queueAdd q s.activePCB).spot p with
      context := upd s.pcb.kernelContext s.activePCB k p } := by
  rcases q with _ | ref
  · rfl
  · cases ref <;> rfl

theorem switched_spot_other {p : PcbPtr} (hactive : p ≠ s.activePCB)
    (hnext : p ≠ s.nextProcess) : (s.switched q k).spot p = s.spot p := by
  have htail : s.readyQ.tail.count p = s.readyQ.count p := by
    cases hready : s.readyQ with
    | nil => rfl
    | cons x rest =>
        have hx : x ≠ p := fun heq => hnext (by simp [nextProcess, hready, heq])
        rw [List.tail_cons, List.count_cons_of_ne hx]
  rw [switched_spot, queueAdd_spot hactive]
  exact Spot.ext htail rfl rfl rfl rfl rfl rfl (upd_other hactive _ _)

theorem switched_active : (s.switched q k).activePCB = s.nextProcess := by
  rcases q with _ | ref
  · rfl
  · cases ref <;> rfl

theorem switched_frame :
    (s.switched q k).ttyWriteQueues = s.ttyWriteQueues ∧
      (s.switched q k).npcb = s.npcb ∧
      (s.switched q k).idlePCB = s.idlePCB ∧
      (s.switched q k).history = s.history ∧
      (s.switched q k).mode = .kernel := by
  rcases q with _ | ref
  · exact ⟨rfl, rfl, rfl, rfl, rfl⟩
  · cases ref <;> exact ⟨rfl, rfl, rfl, rfl, rfl⟩

/-- The process that runs next comes from `ready_q`, or it is idle. -/
theorem switched_next (h : Placement s) (hs : Population s)
    (hidle : s.activePCB = s.idlePCB → q = none ∧ k.writesTo = none) :
    ((s.switched q k).spot s.nextProcess).places = 0 ∧
      s.history.terminated s.nextProcess = false ∧
      (∀ t, s.nextProcess ∈ s.ttyWriteQueues t ↔
        ((s.switched q k).spot s.nextProcess).context.writesTo = some t) ∧
      ∀ t, s.nextProcess ∉ (s.ttyWriteQueues t).tail := by
  obtain ⟨hplaces, hqueues⟩ := idle_spot hs
  cases hready : s.readyQ with
  | nil =>
      have hnext : s.nextProcess = s.idlePCB := by simp [nextProcess, hready]
      have hempty : s.setReadyQ s.readyQ.tail = s := by
        rcases s with ⟨⟩
        simp only at hready
        subst hready
        rfl
      rw [hnext]
      have hspot : (s.switched q k).spot s.idlePCB =
          { s.spot s.idlePCB with
            context := upd s.pcb.kernelContext s.activePCB k s.idlePCB } := by
        rw [switched_spot, hempty]
        by_cases heq : s.idlePCB = s.activePCB
        · rw [(hidle heq.symm).1]
          rfl
        · rw [queueAdd_spot heq]
      have hcontext : ((s.switched q k).spot s.idlePCB).context.writesTo =
          none := by
        rw [hspot]
        by_cases heq : s.idlePCB = s.activePCB
        · simp only [heq, upd_same]
          exact (hidle heq.symm).2
        · show (upd s.pcb.kernelContext s.activePCB k s.idlePCB).writesTo = none
          rw [upd_other heq, hs.idle]
          rcases hs.idle_context with hctx | hctx <;> rw [hctx] <;> rfl
      refine ⟨?_, h.idle, fun t => ?_, fun t ht =>
        hqueues t (List.mem_of_mem_tail ht)⟩
      · rw [hspot]
        exact hplaces
      · rw [hcontext]
        constructor
        · exact fun ht => absurd ht (hqueues t)
        · exact fun ht => (Option.some_ne_none t ht.symm).elim
  | cons n rest =>
      have hnext : s.nextProcess = n := by simp [nextProcess, hready]
      have hpos : 0 < (s.spot n).ready := by
        simp [spot, hready]
      have hne : n ≠ s.activePCB := fun heq => by
        have hactive := h.active
        rw [← heq] at hactive
        unfold Spot.places at hactive
        omega
      have hn := h.parked n hne
      have hone : (s.spot n).places = 1 := by
        have honce := hn.once
        unfold Spot.places at honce ⊢
        omega
      rw [hnext]
      have hspot : (s.switched q k).spot n =
          { s.spot n with ready := rest.count n } := by
        rw [switched_spot, queueAdd_spot hne, upd_other hne, hready]
        rfl
      have hcount : (s.spot n).ready = rest.count n + 1 := by
        simp [spot, hready]
      rw [hspot]
      refine ⟨?_, ?_, fun t => ⟨hn.context t, hn.queued hone t⟩, ?_⟩
      · unfold Spot.places at hone ⊢
        simp only
        omega
      · cases hterm : s.history.terminated n with
        | false => rfl
        | true =>
            have := hn.dead hterm
            omega
      · intro t ht
        have hzero := hn.sleeping t (List.mem_of_mem_tail ht)
          (.inl (hn.waiting t ht))
        omega

/-- A switch, when the process that goes to sleep is left in order. -/
theorem switched (h : Placement s) (hs : Population s)
    (hidle : s.activePCB = s.idlePCB → q = none ∧ k.writesTo = none)
    (hparked : Parked ((s.switched q k).spot s.activePCB)) :
    Settled (s.switched q k) := by
  obtain ⟨hplaces, hlive, hcontext, htail⟩ := h.switched_next hs hidle
  obtain ⟨hqueues, hnpcb, hidlePCB, hhistory, hmode⟩ :=
    switched_frame (s := s) (q := q) (k := k)
  exact
    { nodup := by rw [hqueues]; exact h.nodup
      fresh := by rw [hnpcb, hhistory]; exact h.fresh
      idle := by rw [hidlePCB, hhistory]; exact h.idle
      parked := fun p hp => by
        rw [switched_active] at hp
        by_cases hactive : p = s.activePCB
        · rw [hactive]
          exact hparked
        · rw [switched_spot_other hactive hp]
          exact h.parked p hactive
      active := by rw [switched_active]; exact hplaces
      live := by rw [switched_active, hhistory]; exact hlive
      user := fun hu => by
        rw [hmode] at hu
        cases hu
      kernel := fun _ => by
        rw [switched_active, hqueues]
        exact hcontext
      head := fun _ t ht => by
        rw [switched_active, hqueues] at ht ⊢
        cases hqueue : s.ttyWriteQueues t with
        | nil =>
            rw [hqueue] at ht
            cases ht
        | cons x rest =>
            have hnot := htail t
            rw [hqueue] at ht hnot
            rcases List.mem_cons.1 ht with heq | hmem
            · rw [heq]
              rfl
            · exact absurd hmem hnot }

theorem swapped (h : Placement s) (hs : Population s)
    (hk : s.activePCB = s.idlePCB → k = .trapClockHandler)
    (hparked : s.activePCB ≠ s.idlePCB →
      Parked ((s.switched q k).spot s.activePCB)) :
    Settled (s.swapped q k) := by
  by_cases heq : s.activePCB = s.idlePCB
  · rw [hs.swapped_of_eq heq]
    have hwriter : ∀ t, s.activePCB ∉ s.ttyWriteQueues t := by
      rw [heq]
      exact (idle_spot hs).2
    have hplaces : ((s.switched none k).spot s.activePCB).places ≤
        (s.spot s.activePCB).places :=
      Nat.add_le_add_right (Nat.add_le_add_right
        (s.readyQ.tail_sublist.count_le _) _) _
    rw [h.active] at hplaces
    refine h.switched hs (fun _ => ⟨rfl, by rw [hk heq]; rfl⟩) ?_
    refine .of_quiet hwriter (not_waits hwriter) ?_ (by omega) fun _ => by omega
    show (upd s.pcb.kernelContext s.activePCB k s.activePCB).writesTo = none
    rw [upd_same, hk heq]
    rfl
  · rw [hs.swapped_of_ne heq]
    exact h.switched hs (fun h => absurd h heq) (hparked heq)

/-- A switch away from a process that does not write to a terminal. -/
theorem swapped_quiet (h : Placement s) (hs : Population s)
    (hk : s.activePCB = s.idlePCB → k = .trapClockHandler)
    (hwriter : ∀ t, s.activePCB ∉ s.ttyWriteQueues t)
    (hto : k.writesTo = none)
    (ht : ∀ t, q = some (.ttyReadQueue t) → t < numTerminals)
    (hlive : s.history.terminated s.activePCB = false ∨ q = none ∨
      q = some .defunctQ) : Settled (s.swapped q k) := by
  refine h.swapped hs hk fun _ => ?_
  have hready : s.readyQ.tail.count s.activePCB ≤
      s.readyQ.count s.activePCB := s.readyQ.tail_sublist.count_le _
  have hplaces : ((s.setReadyQ s.readyQ.tail).spot s.activePCB).places ≤
      (s.spot s.activePCB).places :=
    Nat.add_le_add_right (Nat.add_le_add_right hready _) _
  rw [h.active] at hplaces
  have hqueues : ∀ t, ¬ ((s.switched q k).spot s.activePCB).writes t := by
    intro t
    rw [spot, switched_frame.1]
    exact hwriter t
  refine .of_quiet hqueues ?_ ?_ ?_ ?_
  · exact fun t hwaits => hqueues t (List.mem_of_mem_tail hwaits)
  · rw [switched_spot]
    show (upd s.pcb.kernelContext s.activePCB k s.activePCB).writesTo = none
    rw [upd_same]
    exact hto
  · rw [switched_spot]
    have hadd := queueAdd_places (s := s.setReadyQ s.readyQ.tail) s.activePCB ht
    exact Nat.le_trans hadd (by omega)
  · intro hterm
    rw [spot, switched_frame.2.2.2.1] at hterm
    rcases hlive with hlive | rfl | rfl
    · rw [hlive] at hterm
      cases hterm
    · exact Nat.le_zero.1 hplaces
    · exact Nat.le_zero.1 hplaces

/-! ## One other process moves -/

theorem setBlockedCode_spot {p x : PcbPtr} (hne : p ≠ x) (code : Int) :
    (s.setBlockedCode x code).spot p = s.spot p :=
  Spot.ext rfl rfl rfl rfl rfl rfl (upd_other hne _ _) rfl

/-- The running process gets a blocked code. -/
theorem setBlockedCode_active (h : Placement s) (code : Int) :
    Placement (s.setBlockedCode s.activePCB code) :=
  { h with
    parked := fun p hp => by
      rw [setBlockedCode_spot (show p ≠ s.activePCB from hp)]
      exact h.parked p hp }

/-- What a step does not change that leaves the running process alone. -/
structure Same (s r : Kernel) : Prop where
  active : r.activePCB = s.activePCB
  idle : r.idlePCB = s.idlePCB
  npcb : r.npcb = s.npcb
  terminated : r.history.terminated = s.history.terminated
  writers : r.ttyWriteQueues = s.ttyWriteQueues

theorem Same.trans {s' : Kernel} (h : Same s s') (h' : Same s' r) :
    Same s r :=
  ⟨h'.active.trans h.active, h'.idle.trans h.idle, h'.npcb.trans h.npcb,
    h'.terminated.trans h.terminated, h'.writers.trans h.writers⟩

theorem touch (h : Placement s) (hsame : Same s r) {x : PcbPtr}
    (hx : x ≠ s.activePCB) (hspot : ∀ p, p ≠ x → r.spot p = s.spot p)
    (hparked : Parked (r.spot x)) : Placement r where
  nodup := by rw [hsame.writers]; exact h.nodup
  fresh := by rw [hsame.npcb, hsame.terminated]; exact h.fresh
  idle := by rw [hsame.idle, hsame.terminated]; exact h.idle
  parked := fun p hp => by
    rw [hsame.active] at hp
    by_cases heq : p = x
    · rw [heq]
      exact hparked
    · rw [hspot p heq]
      exact h.parked p hp
  active := by
    rw [hsame.active, hspot _ hx.symm]
    exact h.active

/-- A process that does not write to a terminal may get another entry. -/
theorem touch_quiet (h : Placement s) (hsame : Same s r) {x : PcbPtr}
    (hpos : 0 < (s.spot x).blocked + (s.spot x).readers)
    (hspot : ∀ p, p ≠ x → r.spot p = s.spot p)
    (hcontext : r.pcb.kernelContext x = s.pcb.kernelContext x)
    (honce : (r.spot x).places ≤ 1) : Placement r := by
  have hx : x ≠ s.activePCB := fun heq => by
    have hactive := h.active
    rw [← heq] at hactive
    unfold Spot.places at hactive
    omega
  obtain ⟨hwrites, hto, -, hlive⟩ := (h.parked x hx).quiet hpos
  have hwriter : ∀ t, x ∉ r.ttyWriteQueues t := by
    rw [hsame.writers]
    exact hwrites
  refine h.touch hsame hx hspot
    (.of_quiet hwriter (not_waits hwriter) ?_ honce ?_)
  · show (r.pcb.kernelContext x).writesTo = none
    rw [hcontext]
    exact hto
  · intro hterm
    have hsame' : r.history.terminated x = s.history.terminated x := by
      rw [hsame.terminated]
    exact absurd (hterm.symm.trans (hsame'.trans hlive)) nofun

theorem appendReady_spot {p x : PcbPtr} (hne : p ≠ x) :
    (s.setReadyQ (s.readyQ ++ [x])).spot p = s.spot p :=
  queueAdd_spot (q := some .readyQ) hne

theorem appendBlocked_spot {p x : PcbPtr} (hne : p ≠ x) :
    (s.setBlockedQ (s.blockedQ ++ [x])).spot p = s.spot p :=
  queueAdd_spot (q := some .blockedQ) hne

theorem recheck_same {x : PcbPtr} (h : Recheck s x r) : Same s r := by
  cases h <;> exact ⟨rfl, rfl, rfl, rfl, rfl⟩

theorem recheck_spot {x p : PcbPtr} (h : Recheck s x r) (hne : p ≠ x) :
    r.spot p = s.spot p := by
  cases h with
  | ticking => exact appendBlocked_spot hne
  | due => exact (appendReady_spot hne).trans (setBlockedCode_spot hne _)
  | opened =>
      have hset : ((s.setBlockedCode x Blocked.notBlocked).setTtyTerminal x
          0).spot p = s.spot p := by
        show (s.setBlockedCode x Blocked.notBlocked).spot p = s.spot p
        exact setBlockedCode_spot hne _
      exact (appendReady_spot hne).trans hset
  | closed => rfl
  | other => exact appendBlocked_spot hne

theorem recheck_places {x : PcbPtr} (h : Recheck s x r) :
    r.pcb.kernelContext = s.pcb.kernelContext ∧
      (r.spot x).places ≤ (s.spot x).places + 1 := by
  have hready : (s.readyQ ++ [x]).count x = s.readyQ.count x + 1 := by simp
  have hblocked : (s.blockedQ ++ [x]).count x = s.blockedQ.count x + 1 := by
    simp
  cases h with
  | closed => exact ⟨rfl, Nat.le_succ _⟩
  | _ =>
      refine ⟨rfl, ?_⟩
      simp only [Spot.places, spot, setBlockedQ, setReadyQ, setClockTicks,
        setBlockedCode, setTtyTerminal, setPcb, hready, hblocked]
      omega

/-- One round of the clock's scan. -/
theorem rechecked (h : Placement s) {x : PcbPtr} {rest : List PcbPtr}
    (hcons : s.blockedQ = x :: rest) (hcheck : Recheck (s.setBlockedQ rest) x r) :
    Placement r := by
  have hcount : (s.spot x).blocked = rest.count x + 1 := by simp [spot, hcons]
  have hpop : Same s (s.setBlockedQ rest) := ⟨rfl, rfl, rfl, rfl, rfl⟩
  have hsame := hpop.trans (recheck_same hcheck)
  obtain ⟨hcontext, hplaces⟩ := recheck_places hcheck
  have hpopped : ((s.setBlockedQ rest).spot x).places + 1 =
      (s.spot x).places := by
    simp only [Spot.places, spot, setBlockedQ, hcons, List.count_cons_self]
    omega
  have hx : x ≠ s.activePCB := fun heq => by
    have hactive := h.active
    rw [← heq] at hactive
    omega
  have honce := (h.parked x hx).once
  refine h.touch_quiet hsame (x := x) (by omega) ?_ ?_ (by omega)
  · intro p hp
    rw [recheck_spot hcheck hp]
    have hrest : rest.count p = s.blockedQ.count p := by
      rw [hcons, List.count_cons_of_ne hp.symm]
    exact Spot.ext rfl hrest rfl rfl rfl rfl rfl rfl
  · rw [hcontext]
    rfl

theorem scanned_same {limit : Nat} (h : Scanned limit s r) : Same s r := by
  induction h with
  | done => exact ⟨rfl, rfl, rfl, rfl, rfl⟩
  | empty _ _ ih => exact ih
  | @next _ s _ _ _ rest _ hcheck _ ih =>
      have hpop : Same s (s.setBlockedQ rest) := ⟨rfl, rfl, rfl, rfl, rfl⟩
      exact (hpop.trans (recheck_same hcheck)).trans ih

theorem scanned {limit : Nat} (h : Placement s) (hscan : Scanned limit s r) :
    Placement r := by
  induction hscan with
  | done => exact h
  | empty _ _ ih => exact ih h
  | next hcons hcheck _ ih => exact ih (h.rechecked hcons hcheck)

/-! ## Several processes move -/

/-- Processes move from `blocked_q` to `ready_q`, and only these get another
blocked code. -/
theorem moved (h : Placement s) (hsame : Same s r)
    (hreaders : r.ttyReadQueues = s.ttyReadQueues)
    (hcontext : r.pcb.kernelContext = s.pcb.kernelContext)
    (hcount : ∀ p, r.readyQ.count p + r.blockedQ.count p =
      s.readyQ.count p + s.blockedQ.count p)
    (hready : ∀ p, s.readyQ.count p ≤ r.readyQ.count p)
    (hcode : ∀ p, p ∉ s.blockedQ →
      r.pcb.blockedCode p = s.pcb.blockedCode p) : Placement r := by
  have hplaces (p : PcbPtr) : (r.spot p).places = (s.spot p).places := by
    simp only [Spot.places, spot, hreaders, hcount p]
  have hterm (p : PcbPtr) : r.history.terminated p = s.history.terminated p :=
    congrFun hsame.terminated p
  refine
    { nodup := by rw [hsame.writers]; exact h.nodup
      fresh := by rw [hsame.npcb, hsame.terminated]; exact h.fresh
      idle := by rw [hsame.idle, hsame.terminated]; exact h.idle
      parked := fun p hp => ?_
      active := by rw [hsame.active, hplaces]; exact h.active }
  rw [hsame.active] at hp
  have hold := h.parked p hp
  by_cases hmem : p ∈ s.blockedQ
  · have hpos : 0 < (s.spot p).blocked := List.count_pos_iff.2 hmem
    obtain ⟨hwrites, hto, hone, hlive⟩ := hold.quiet (by omega)
    have hwriter : ∀ t, p ∉ r.ttyWriteQueues t := by
      rw [hsame.writers]
      exact hwrites
    refine .of_quiet hwriter (not_waits hwriter) ?_ ?_ ?_
    · show (r.pcb.kernelContext p).writesTo = none
      rw [hcontext]
      exact hto
    · exact Nat.le_of_eq ((hplaces p).trans hone)
    · intro hdead
      exact absurd (hdead.symm.trans ((hterm p).trans hlive)) nofun
  · have hzero : s.blockedQ.count p = 0 := List.count_eq_zero_of_not_mem hmem
    have hsum := hcount p
    have hle := hready p
    have hspot : r.spot p = s.spot p := by
      refine Spot.ext ?_ ?_ ?_ ?_ ?_ (hterm p) (hcode p hmem) ?_
      · show r.readyQ.count p = s.readyQ.count p
        omega
      · show r.blockedQ.count p = s.blockedQ.count p
        omega
      · show readerCount r.ttyReadQueues p = _
        rw [hreaders]
        rfl
      · show (fun t => p ∈ r.ttyWriteQueues t) = _
        rw [hsame.writers]
        rfl
      · show (fun t => p ∈ (r.ttyWriteQueues t).tail) = _
        rw [hsame.writers]
        rfl
      · show r.pcb.kernelContext p = _
        rw [hcontext]
        rfl
    rw [hspot]
    exact hold

theorem exitCleanup (h : Placement s) (code : Int) :
    Placement (s.exitCleanup code).2 := by
  have hc := s.exitCleanup_cleaned code
  exact h.moved ⟨hc.active, hc.idle, hc.npcb, hc.terminated, hc.writers⟩
    hc.readers hc.context hc.count hc.ready hc.code

/-! ## Fork -/

theorem newProcess_spot {p : PcbPtr} (pid : Nat) (hne : p ≠ s.npcb) :
    (s.newProcess (some s.activePCB) pid).spot p = s.spot p :=
  Spot.ext rfl rfl rfl rfl rfl rfl (upd_other hne _ _) rfl

/-- A child that is not ready yet. -/
theorem newProcess (h : Placement s) (hs : Population s) (pid : Nat) :
    Placement (s.newProcess (some s.activePCB) pid) := by
  obtain ⟨hplaces, hqueues⟩ := fresh_spot hs
  have hactive : s.activePCB ≠ s.npcb := Nat.ne_of_lt hs.active
  refine
    { nodup := h.nodup
      fresh := fun p hp => h.fresh p (Nat.le_of_succ_le hp)
      idle := h.idle
      parked := fun p hp => ?_
      active := h.active }
  by_cases hnew : p = s.npcb
  · subst hnew
    exact
      { once := Nat.le_succ_of_le (Nat.le_of_eq hplaces)
        dead := fun _ => hplaces
        writer_live := fun t ht => absurd ht (hqueues t)
        writer := fun t ht => absurd ht (hqueues t)
        sleeping := fun t ht => absurd ht (hqueues t)
        waiting := fun t ht => absurd (List.mem_of_mem_tail ht) (hqueues t)
        context := fun t ht => absurd ht (hqueues t)
        queued := fun hone => absurd (hplaces.symm.trans hone) nofun }
  · rw [newProcess_spot pid hnew]
    exact h.parked p hp

theorem forked (h : Placement s) (hs : Population s) (pid : Nat) :
    Placement (s.forked pid) := by
  obtain ⟨hplaces, hqueues⟩ := fresh_spot hs
  have hnew := h.newProcess hs pid
  have hactive : s.npcb ≠ s.activePCB := Nat.ne_of_gt hs.active
  refine hnew.touch ⟨rfl, rfl, rfl, rfl, rfl⟩ hactive (fun p hp => ?_) ?_
  · have hready : (s.readyQ ++ [s.npcb]).count p = s.readyQ.count p := by
      simp [hp.symm]
    exact Spot.ext hready rfl rfl rfl rfl rfl rfl (upd_other hp _ _)
  · have hready : (s.readyQ ++ [s.npcb]).count s.npcb =
        s.readyQ.count s.npcb + 1 := by simp
    refine .of_quiet hqueues (not_waits hqueues) ?_ ?_ ?_
    · show (upd s.pcb.kernelContext s.npcb .kernelFork s.npcb).writesTo = none
      rw [upd_same]
      rfl
    · have hone : ((s.forked pid).spot s.npcb).places =
          (s.spot s.npcb).places + 1 := by
        show (s.readyQ ++ [s.npcb]).count s.npcb + s.blockedQ.count s.npcb +
          readerCount s.ttyReadQueues s.npcb = _
        rw [hready]
        show _ = s.readyQ.count s.npcb + s.blockedQ.count s.npcb +
          readerCount s.ttyReadQueues s.npcb + 1
        omega
      exact Nat.le_of_eq (hone.trans (congrArg Nat.succ hplaces))
    · intro hdead
      exact absurd (hdead.symm.trans (h.fresh s.npcb (Nat.le_refl _))) nofun

/-! ## Terminals -/

/-- A process becomes ready. -/
theorem readied_spot {p x : PcbPtr} (hne : p ≠ x) :
    ((s.setBlockedCode x Blocked.notBlocked).setReadyQ
      (s.readyQ ++ [x])).spot p = s.spot p := by
  have h := appendReady_spot (s := s.setBlockedCode x Blocked.notBlocked) hne
  exact h.trans (setBlockedCode_spot hne _)

/-- The first reader leaves its queue and becomes ready. -/
theorem received (h : Placement s) {t : Nat} {x : PcbPtr} {rest : List PcbPtr}
    (ht : t < numTerminals) (hcons : s.ttyReadQueues t = x :: rest) :
    Placement (((s.setTtyReadQueue t rest).setBlockedCode x
      Blocked.notBlocked).setReadyQ (s.readyQ ++ [x])) := by
  have hcount (p : PcbPtr) := readerCount_upd s.ttyReadQueues ht rest p
  have hle := count_le_readerCount s.ttyReadQueues ht x
  have hx : x ≠ s.activePCB := fun heq => by
    have hactive := h.active
    rw [← heq] at hactive
    rw [hcons, List.count_cons_self] at hle
    simp only [Spot.places, spot] at hactive
    omega
  refine h.touch_quiet ⟨rfl, rfl, rfl, rfl, rfl⟩ (x := x) ?_ ?_ rfl ?_
  · rw [hcons, List.count_cons_self] at hle
    simp only [spot]
    omega
  · intro p hp
    have hreaders : readerCount (upd s.ttyReadQueues t rest) p =
        readerCount s.ttyReadQueues p := by
      have := hcount p
      rw [hcons, List.count_cons_of_ne hp.symm] at this
      omega
    have hqueue : (s.setTtyReadQueue t rest).spot p = s.spot p :=
      Spot.ext rfl rfl hreaders rfl rfl rfl rfl rfl
    exact (readied_spot (s := s.setTtyReadQueue t rest) hp).trans hqueue
  · have honce := (h.parked x hx).once
    have hready : (s.readyQ ++ [x]).count x = s.readyQ.count x + 1 := by simp
    have hreaders := hcount x
    rw [hcons, List.count_cons_self] at hreaders
    simp only [Spot.places, spot] at honce
    show (s.readyQ ++ [x]).count x + s.blockedQ.count x +
      readerCount (upd s.ttyReadQueues t rest) x ≤ 1
    omega

/-- The terminal of a sleeping head opens. -/
theorem transmitted (h : Placement s) {t : Nat} {x : PcbPtr}
    {rest : List PcbPtr} (hcons : s.ttyWriteQueues t = x :: rest)
    (hx : x ≠ s.activePCB)
    (hcode : s.pcb.blockedCode x = Blocked.ttyTransmit)
    (hcheck : Recheck s x r) : Placement r := by
  have hwrites : (s.spot x).writes t := by
    show x ∈ s.ttyWriteQueues t
    rw [hcons]
    exact List.mem_cons_self
  have hold := h.parked x hx
  have hwaits : ∀ t, ¬ (s.spot x).waits t := fun t' ht' => by
    have hwrite : s.pcb.blockedCode x = Blocked.ttyWrite := hold.waiting t' ht'
    rw [hcode] at hwrite
    cases hwrite
  have hready : (s.readyQ ++ [x]).count x = s.readyQ.count x + 1 := by simp
  refine h.touch (recheck_same hcheck) hx (fun p hp => recheck_spot hcheck hp) ?_
  cases hcheck with
  | opened =>
      exact hold.wakes hwrites (hold.sleeping t hwrites (.inr hcode)) hwaits
        hready rfl rfl (fun _ => Iff.rfl) rfl (upd_same _ _ _) rfl
  | closed => exact hold
  | ticking hdelay =>
      rw [hcode] at hdelay
      cases hdelay
  | due hdelay =>
      rw [hcode] at hdelay
      cases hdelay
  | other _ hother => exact absurd hcode hother

theorem writeQueue_same (t : Nat) (queue : List PcbPtr) :
    (s.setTtyWriteQueue t queue).ttyWriteQueues t = queue :=
  upd_same _ _ _

theorem writeQueue_other {t t' : Nat} (h : t' ≠ t) (queue : List PcbPtr) :
    (s.setTtyWriteQueue t queue).ttyWriteQueues t' = s.ttyWriteQueues t' :=
  upd_other h _ _

/-- A write queue gets or loses the running process. -/
theorem setTtyWriteQueue (h : Placement s) {t : Nat} {queue : List PcbPtr}
    (hnodup : queue.Nodup)
    (hmem : ∀ p, p ≠ s.activePCB → (p ∈ queue ↔ p ∈ s.ttyWriteQueues t))
    (htail : ∀ p, p ≠ s.activePCB → p ∈ queue.tail →
      p ∈ (s.ttyWriteQueues t).tail) :
    Placement (s.setTtyWriteQueue t queue) := by
  refine
    { h with
      nodup := fun t' => ?_
      parked := fun p hp => (h.parked p hp).requeue (fun t' => ?_) fun t' => ?_ }
  · by_cases ht : t' = t
    · subst ht
      rw [writeQueue_same]
      exact hnodup
    · rw [writeQueue_other ht]
      exact h.nodup t'
  · by_cases ht : t' = t
    · subst ht
      rw [writeQueue_same]
      exact hmem p hp
    · rw [writeQueue_other ht]
      rfl
  · by_cases ht : t' = t
    · subst ht
      rw [writeQueue_same]
      exact htail p hp
    · rw [writeQueue_other ht]
      exact id

theorem enterWriter (h : Placement s) {t : Nat}
    (hnot : s.activePCB ∉ s.ttyWriteQueues t) :
    Placement (s.setTtyWriteQueue t
      (s.ttyWriteQueues t ++ [s.activePCB])) := by
  refine h.setTtyWriteQueue ?_ (fun p hp => by simp [hp]) fun p hp hmem => ?_
  · refine List.nodup_append.2 ⟨h.nodup t, by simp, ?_⟩
    intro x hx y hy heq
    rw [heq, List.mem_singleton.1 hy] at hx
    exact hnot hx
  · cases hqueue : s.ttyWriteQueues t with
    | nil =>
        rw [hqueue] at hmem
        cases hmem
    | cons x rest =>
        rw [hqueue] at hmem
        simpa [hp] using hmem

/-- The running process at the head of a write queue leaves it, and the next
writer becomes ready. -/
theorem writeDone (h : Placement s) {t : Nat}
    (hhead : (s.ttyWriteQueues t).head? = some s.activePCB) :
    Placement (s.writeDone t) := by
  obtain ⟨queue, hqueue⟩ := List.head?_eq_some_iff.1 hhead
  have hnodup := h.nodup t
  rw [hqueue, List.nodup_cons] at hnodup
  have hpop : Placement (s.setTtyWriteQueue t queue) := by
    refine h.setTtyWriteQueue hnodup.2 (fun p hp => ?_) fun p hp hmem => ?_
    · rw [hqueue, List.mem_cons]
      simp [hp]
    · rw [hqueue, List.tail_cons]
      exact List.mem_of_mem_tail hmem
  unfold Kernel.writeDone
  rw [hqueue, List.tail_cons]
  cases queue with
  | nil => exact hpop
  | cons next rest =>
      have hnext : next ≠ s.activePCB := fun heq => hnodup.1
        (heq ▸ List.mem_cons_self)
      have hwaits : next ∈ (s.ttyWriteQueues t).tail := by
        rw [hqueue]
        exact List.mem_cons_self
      have hold := h.parked next hnext
      have hwrites : (s.spot next).writes t := List.mem_of_mem_tail hwaits
      have hplaces := hold.sleeping t hwrites (.inl (hold.waiting t hwaits))
      have hnow := hpop.parked next hnext
      have hready : (s.readyQ ++ [next]).count next =
          s.readyQ.count next + 1 := by simp
      refine hpop.touch ⟨rfl, rfl, rfl, rfl, rfl⟩ hnext
        (fun p hp => readied_spot (s := s.setTtyWriteQueue t (next :: rest)) hp)
        (hnow.wakes (t := t) ?_ hplaces (fun t' ht' => ?_) hready rfl rfl
          (fun _ => Iff.rfl) rfl (upd_same _ _ _) rfl)
      · show next ∈ (s.setTtyWriteQueue t (next :: rest)).ttyWriteQueues t
        rw [writeQueue_same]
        exact List.mem_cons_self
      · have ht'' : next ∈ ((s.setTtyWriteQueue t
            (next :: rest)).ttyWriteQueues t').tail := ht'
        by_cases heq : t' = t
        · subst heq
          rw [writeQueue_same] at ht''
          exact (List.nodup_cons.1 hnodup.2).1 ht''
        · rw [writeQueue_other heq] at ht''
          have hto := hold.context t' (List.mem_of_mem_tail ht'')
          rw [hold.context t hwrites] at hto
          exact heq (Option.some.inj hto).symm

/-- A writer goes to sleep. -/
theorem swapped_writer (h : Placement s) (hs : Population s)
    (hne : s.activePCB ≠ s.idlePCB)
    (hlive : s.history.terminated s.activePCB = false)
    (hto : ∀ t, s.activePCB ∈ s.ttyWriteQueues t → k.writesTo = some t)
    (hwaits : ∀ t, s.activePCB ∈ (s.ttyWriteQueues t).tail →
      s.pcb.blockedCode s.activePCB = Blocked.ttyWrite) :
    Settled (s.swapped none k) := by
  refine h.swapped hs (fun heq => absurd heq hne) fun _ => ?_
  have hplaces : ((s.switched none k).spot s.activePCB).places = 0 := by
    refine Nat.le_zero.1 (Nat.le_trans ?_ (Nat.le_of_eq h.active))
    exact Nat.add_le_add_right (Nat.add_le_add_right
      (s.readyQ.tail_sublist.count_le _) _) _
  have hzero := hplaces
  unfold Spot.places at hzero
  exact
    { once := by omega
      dead := fun _ => hplaces
      writer_live := fun _ _ => hlive
      writer := fun _ _ => by omega
      sleeping := fun _ _ _ => hplaces
      waiting := hwaits
      context := fun t ht => by
        show (upd s.pcb.kernelContext s.activePCB k s.activePCB).writesTo = _
        rw [upd_same]
        exact hto t ht
      queued := fun hone => absurd (hplaces.symm.trans hone) nofun }

end Placement

end Yalnix
