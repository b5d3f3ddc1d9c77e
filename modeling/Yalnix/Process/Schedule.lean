import Yalnix.Foundation.Turns
import Yalnix.Process.Idle

/-!
# The scheduler

`SwapProcess` pops `ready_q` and every wake-up appends to it, so the processes
take turns in every run, whatever they do.
-/

namespace Yalnix

open Kernel Turns

def Label.clocks : Label → Bool
  | .trap _ .clock => true
  | _ => false

def Kernel.line (s : Kernel) : Line PcbPtr :=
  { turn := s.activePCB
    waiting := s.readyQ }

namespace Kernel

variable {s s₁ : Kernel} {q : Option QueueRef} {k : KernelContext}
  {first : PcbPtr} {rest : List PcbPtr}

theorem switched_tail : ∃ added,
    (s.switched q k).readyQ = s.readyQ.tail ++ added := by
  rcases q with _ | ref
  · exact ⟨[], by simp [switched, queueAdd, setReadyQ, setActivePCB,
      setKernelContext, setPcb, setMode]⟩
  · cases ref with
    | readyQ => exact ⟨[s.activePCB], rfl⟩
    | _ => exact ⟨[], (List.append_nil _).symm⟩

/-- With a process in `ready_q` every switch goes to the first one. -/
theorem swapped_line (hready : s.readyQ = first :: rest) : ∃ added,
    (s.swapped q k).activePCB = first ∧
      (s.swapped q k).readyQ = rest ++ added := by
  unfold swapped
  rw [if_neg (by simp [hready])]
  obtain ⟨added, hadded⟩ := switched_tail (s := s) (k := k)
    (q := if s.pcb.pid s.activePCB = s.pcb.pid s.idlePCB then none else q)
  refine ⟨added, ?_, by simpa [hready] using hadded⟩
  simp [Placement.switched_active, nextProcess, hready]

/-- A switch passes the turn, after some processes may have been woken. -/
theorem swapped_moves (woken : List PcbPtr)
    (hready : s₁.readyQ = s.readyQ ++ woken) (must : Bool) :
    Moves must s.line (s₁.swapped q k).line := by
  cases hcons : s.readyQ with
  | nil => exact .nobody hcons
  | cons first rest =>
      rw [hcons, List.cons_append] at hready
      obtain ⟨added, hturn, hwaiting⟩ :=
        swapped_line (q := q) (k := k) hready
      refine .passes first rest (woken ++ added) hcons hturn ?_
      rw [List.append_assoc] at hwaiting
      exact hwaiting

theorem wakeAll_readyQ (waiters : List PcbPtr) (st : PipeWake) :
    ∃ woken, (st.wakeAll waiters).readyQ = st.readyQ ++ woken := by
  induction waiters generalizing st with
  | nil => exact ⟨[], by simp [PipeWake.wakeAll]⟩
  | cons waiter rest ih =>
      obtain ⟨woken, hready⟩ := ih (st.wakeOne waiter)
      exact ⟨_, by
        rw [PipeWake.wakeAll, hready, PipeWake.wakeOne, List.append_assoc]⟩

end Kernel

namespace Census

variable {D : PcbPtr → Prop} {s r : Kernel} {a : Label}

/-- A pipe wake-up appends to `ready_q`, right process or not. -/
theorem wake_readyQ (h : Census D s) (c : PipeCall) :
    ∃ woken, (s.wake c).readyQ = s.readyQ ++ woken := by
  have hpos (p : PcbPtr) (hp : p ∈ (s.pipes c.pipe).queue) :
      s.pcb.pid p ≠ 0 := h.pid_pos p (h.pipes _ p hp)
  cases c with
  | read p len =>
      simp only [wake, wakeAfterRead, pipeWake]
      cases hqueue : (s.pipes p).queue with
      | nil => exact ⟨[], by simp⟩
      | cons waiter rest =>
          cases hblocked : s.blockedQ with
          | nil =>
              simp only [List.length_nil, takeBlocked]
              split
              · exact ⟨[waiter], rfl⟩
              · exact ⟨[], by simp⟩
          | cons curr blocked =>
              have hwaiter : s.pcb.pid waiter ≠ 0 :=
                hpos waiter (by simp [PipeCall.pipe, hqueue])
              simp only [List.length_cons, takeBlocked_cons hwaiter]
              split
              · exact ⟨[waiter], rfl⟩
              · exact ⟨[curr], rfl⟩
  | write p buf len =>
      have hclosed : s.wake (.write p buf len) = (s.pipeWake p).wakeAll
          ((s.pipes p).queue.take (rounds (s.pipes p).queue)) :=
        broadcast_eq _ _ _ hpos (Nat.le_refl _)
      rw [hclosed]
      exact wakeAll_readyQ _ _

/-- What a step does to the line.  A clock trap always passes the turn. -/
theorem moves (h : Census D s) (heffect : Effect s a r) :
    Moves a.clocks s.line r.line := by
  have hstays {r : Kernel} (hnot : a.clocks = false)
      (hactive : r.activePCB = s.activePCB)
      (hready : ∃ woken, r.readyQ = s.readyQ ++ woken) :
      Moves a.clocks s.line r.line := by
    obtain ⟨woken, hready⟩ := hready
    exact .stays woken hnot hactive hready
  have hkeeps {r : Kernel} (hnot : a.clocks = false)
      (hactive : r.activePCB = s.activePCB) (hready : r.readyQ = s.readyQ) :
      Moves a.clocks s.line r.line :=
    hstays hnot hactive ⟨[], by simp [hready]⟩
  have hswapped {s₁ : Kernel} {q : Option QueueRef} {k : KernelContext}
      (hready : s₁.readyQ = s.readyQ) :
      Moves a.clocks s.line (s₁.swapped q k).line :=
    swapped_moves [] (by simp [hready]) _
  cases heffect with
  | @stay _ t hreturns =>
      refine hkeeps ?_ rfl rfl
      cases t <;> simp [Trap.returns, Label.clocks] at hreturns ⊢
  | returns => exact hkeeps rfl rfl rfl
  | fork => exact hstays rfl rfl ⟨[s.npcb], rfl⟩
  | forkFails => exact hkeeps rfl rfl rfl
  | @exit _ code =>
      obtain ⟨woken, hready, -, -⟩ := s.exitCleanup_woken code
      have hset : ((s.exitCleanup code).2.setTerminated
          s.activePCB).readyQ = s.readyQ ++ woken := hready
      exact swapped_moves woken hset _
  | fault => exact hswapped rfl
  | waitFails => exact hkeeps rfl rfl rfl
  | waitReaps => exact hkeeps rfl rfl rfl
  | waitSleeps => exact hswapped rfl
  | waitResumes => exact hkeeps rfl rfl rfl
  | waitResumesOther => exact hkeeps rfl rfl rfl
  | delay => exact hswapped rfl
  | clock => exact hswapped rfl
  | clockResumes _ hscan => exact hstays rfl hscan.woken.1 hscan.woken.2
  | ttyReadSleeps => exact hswapped rfl
  | @ttyReadWakes _ _ next => exact hstays rfl rfl ⟨[next], rfl⟩
  | @ttyReceives _ _ _ next => exact hstays rfl rfl ⟨[next], rfl⟩
  | ttyWriteWaits => exact hswapped rfl
  | ttyWriteSleeps _ _ _ _ hwrites =>
      refine hswapped ?_
      cases hwrites <;> rfl
  | @ttyWriteReturns _ t s₁ hwrites =>
      have hdone : (s₁.writeDone t).activePCB = s₁.activePCB ∧
          ∃ woken, (s₁.writeDone t).readyQ = s₁.readyQ ++ woken := by
        unfold Kernel.writeDone
        split
        · exact ⟨rfl, [], (List.append_nil _).symm⟩
        · exact ⟨rfl, _, rfl⟩
      cases hwrites with
      | call => exact hstays rfl hdone.1 hdone.2
      | resume => exact hstays rfl hdone.1 hdone.2
  | ttyTransmitted _ _ hcheck => exact hstays rfl hcheck.woken.1 hcheck.woken.2
  | pipeInit => exact hkeeps rfl rfl rfl
  | pipeSleeps => exact hswapped rfl
  | @pipeWakes _ c hcompleting =>
      refine hstays ?_ rfl (h.wake_readyQ c)
      cases a with
      | trap ctx t => cases t <;> first | rfl | cases hcompleting
      | resume => rfl

end Census

/-! ## Runs -/

theorem Kernel.Admits.system {guard : Kernel → Label → Prop} {s : Kernel}
    {labels : List Label} (h : s.Admits guard labels) :
    TransitionSystem.Admits Kernel.take
      (fun s a => a.Enabled s ∧ guard s a) s labels := by
  induction labels generalizing s with
  | nil => trivial
  | cons a rest ih => exact ⟨h.1, ih h.2⟩

theorem Kernel.Admits.of_system {guard : Kernel → Label → Prop} {s : Kernel}
    {labels : List Label}
    (h : TransitionSystem.Admits Kernel.take
      (fun s a => a.Enabled s ∧ guard s a) s labels) : s.Admits guard labels := by
  induction labels generalizing s with
  | nil => trivial
  | cons a rest ih => exact ⟨h.1, ih h.2⟩

theorem Kernel.run_append {s : Kernel} (front back : List Label) :
    s.run (front ++ back) = (s.run front).run back :=
  List.foldl_append

theorem Kernel.Admits.of_append {guard : Kernel → Label → Prop} {s : Kernel}
    {front back : List Label} (h : s.Admits guard (front ++ back)) :
    s.Admits guard front ∧ (s.run front).Admits guard back :=
  h.system.of_append.imp .of_system .of_system

/-- The run goes on, or it has ended in a state in which the machine does. -/
theorem Kernel.Admits.live {guard : Kernel → Label → Prop} {s : Kernel}
    {labels : List Label} (h : s.Admits guard labels)
    (hlive : (s.run labels).Live) : s.Live := by
  cases labels with
  | nil => exact hlive
  | cons a rest => exact h.1.1.live

/-- A step of a run passes the turn as `Census.moves` says, or ends the run. -/
theorem Reachable.moves {guard : Kernel → Label → Prop} {s : Kernel}
    {a : Label} (h : Reachable guard s) (henabled : a.Enabled s) :
    Moves a.clocks s.line (s.take a).line ∨
      a.clocks = false ∧ ¬ (s.take a).Live := by
  have hs := Reachable.quiescent h henabled.live
  have hmoves (hlive : (s.take a).Live) :
      Moves a.clocks s.line (s.take a).line := by
    have hcensus := (Reachable.census h henabled.live).of_core (entered_core a)
    obtain ⟨r, heffect, hcore⟩ :=
      take_hasEffect hs.sync hs.zero_used henabled hlive
    have hline {s s' : Kernel} (hcore : s'.core = s.core) : s'.line = s.line :=
      (congrArg Kernel.line hcore :)
    rw [hline hcore, ← hline (entered_core a)]
    exact hcensus.moves heffect
  by_cases hlive : (s.take a).Live
  · exact .inl (hmoves hlive)
  · refine .inr ⟨?_, hlive⟩
    -- the clock handler ends in a switch
    cases a with
    | resume => rfl
    | trap ctx t =>
        cases t with
        | clock =>
            have hcore : (s.take (.trap ctx .clock)).core =
                (s.swapped (some .readyQ) .trapClockHandler).core := by
              rw [swapped_core]
              exact swapProcess_core _ _
            have hmode := (congrArg Kernel.mode hcore :)
            exact absurd (.inr (hmode.trans swapped_mode)) hlive
        | _ => rfl

theorem Reachable.turn {guard : Kernel → Label → Prop} {s : Kernel}
    (h : Reachable guard s) (labels : List Label)
    (hadmits : s.Admits guard labels) {k : Nat} {p : PcbPtr}
    (hk : s.readyQ[k]? = some p) (hclocks : k < labels.countP Label.clocks) :
    ∃ front back, labels = front ++ back ∧
      front.countP Label.clocks ≤ k + 1 ∧ (s.run front).activePCB = p := by
  have hplace : s.line.waiting[k]? = some p := hk
  refine Turns.served ?_ ?_ h labels hadmits.system hplace hclocks
  · intro s a hs hok
    exact .next hs hok.2 (.take hok.1)
  · intro s a hs hok
    refine (hs.moves hok.1).imp_right fun ⟨hnot, hdead⟩ => ⟨hnot, ?_⟩
    exact fun b hb => hdead hb.1.live

/--
Round robin: a process with `k` others before it in `ready_q` is switched to
at the `k + 1`st clock trap of any run at the latest, whatever the processes do
meanwhile.
-/
theorem ready_process_gets_turn {s : Kernel}
    (h : Reachable (fun _ _ => True) s) (labels : List Label)
    (hadmits : s.Admits (fun _ _ => True) labels) {k : Nat} {p : PcbPtr}
    (hk : s.readyQ[k]? = some p) (hclocks : k < labels.countP Label.clocks) :
    ∃ front back, labels = front ++ back ∧
      front.countP Label.clocks ≤ k + 1 ∧ (s.run front).activePCB = p :=
  h.turn labels hadmits hk hclocks

/-- The third process is switched to at the second clock trap. -/
theorem ready_process_gets_turn_third :
    let s := (Boot.small 30).kernelStart.run
      (tick ++ [call (.fork 2), call (.fork 3)])
    ∃ front back, tick ++ tick = front ++ back ∧
      front.countP Label.clocks ≤ 2 ∧ (s.run front).activePCB = 3 := by
  intro s
  have hreach : Reachable (fun _ _ => True) s :=
    reachable_small 30 _ (by decide +kernel) (by decide +kernel)
  exact ready_process_gets_turn hreach (tick ++ tick) (by decide +kernel)
    (k := 1) (by decide +kernel) (by decide)

end Yalnix
