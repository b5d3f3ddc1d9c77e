import Yalnix.Memory.UserSpace
import Yalnix.Process.Delay
import Yalnix.Process.WaitTurns

/-!
# A delay ends

Every clock trap leaves one scan to make, and a scan is only put off by a process
that waits for its turn.  So a sleeper is found after a bounded number of clock
traps, and has its own turn after another round.
-/

namespace Yalnix

open Kernel

/-- The clock traps are the traps that pass the turn. -/
theorem clockTraps_eq (labels : List Label) :
    clockTraps labels = labels.countP Label.clocks := by
  have hsame : Label.isClock = Label.clocks := by
    funext a
    cases a with
    | resume => rfl
    | trap ctx t => cases t <;> rfl
  rw [clockTraps, hsame]

namespace Kernel

variable {s : Kernel}

theorem pendingScans_le : s.pendingScans.card ≤ s.npcb := by
  have hle := Finset.card_filter_le (Finset.range s.npcb) s.HasScan
  rwa [Finset.card_range] at hle

/-- A run with more scans has one that is the next after so many. -/
theorem exists_scan {labels : List Label} {n : Nat} (h : n < s.scansIn labels) :
    ∃ front a back, labels = front ++ a :: back ∧ s.scansIn front = n ∧
      (s.run front).scansAt a = true := by
  induction labels generalizing s n with
  | nil => simp [scansIn] at h
  | cons a rest ih =>
      by_cases hscan : s.scansAt a = true
      · cases n with
        | zero => exact ⟨[], a, rest, rfl, rfl, hscan⟩
        | succ n =>
            have hrest : n < (s.take a).scansIn rest := by
              simp only [scansIn, hscan, if_true] at h
              omega
            obtain ⟨front, b, back, rfl, hfront, hnext⟩ := ih hrest
            refine ⟨a :: front, b, back, rfl, ?_, hnext⟩
            simp only [scansIn, hscan, if_true]
            omega
      · have hrest : n < (s.take a).scansIn rest := by
          simpa [scansIn, hscan] using h
        obtain ⟨front, b, back, rfl, hfront, hnext⟩ := ih hrest
        exact ⟨a :: front, b, back, rfl, by simpa [scansIn, hscan] using hfront,
          hnext⟩

theorem scansIn_append (front back : List Label) :
    s.scansIn (front ++ back) = s.scansIn front + (s.run front).scansIn back := by
  induction front generalizing s with
  | nil => simp [scansIn, run]
  | cons a rest ih =>
      have hrun : s.run (a :: rest) = (s.take a).run rest := rfl
      simp only [List.cons_append, scansIn, ih, hrun]
      omega

end Kernel

/-- The scans to make and those made are the clock traps and the scans there
were to make. -/
theorem Reachable.scans_owed {guard : Kernel → Label → Prop}
    (himp : ∀ s a, guard s a → a.ofProcesses = true) {s : Kernel}
    (h : Reachable guard s) (labels : List Label)
    (hadmits : s.Admits guard labels) (hlive : (s.run labels).Live) :
    (s.run labels).pendingScans.card + s.scansIn labels =
      s.pendingScans.card + clockTraps labels := by
  induction labels generalizing s with
  | nil => rfl
  | cons a rest ih =>
      obtain ⟨⟨henabled, hguard⟩, hrest⟩ := hadmits
      have hgoes : (s.take a).Live := by
        cases rest with
        | nil => exact hlive
        | cons b rest => exact hrest.1.1.live
      have hnext : Reachable guard (s.take a) :=
        .next h hguard (.take henabled)
      obtain ⟨hpop, -, hcontexts⟩ := h.processes himp henabled.live
      obtain ⟨r, heffect, hcore⟩ := h.take_process himp hguard henabled hgoes
      have hpending {x y : Kernel} (hcore : y.core = x.core) :
          y.pendingScans = x.pendingScans := (congrArg pendingScans hcore :)
      have hentered := entered_core (s := s) a
      have hstep := heffect.pendingScans_card (hpop.of_core hentered)
        (hcontexts.of_core hentered) (entered_enabled henabled)
      rw [scansAt_entered, hpending hentered, ← hpending hcore] at hstep
      have hcount : clockTraps (a :: rest) =
          clockTraps rest + if a.isClock = true then 1 else 0 :=
        List.countP_cons
      have hscans : s.scansIn (a :: rest) =
          (if s.scansAt a = true then 1 else 0) + (s.take a).scansIn rest := rfl
      have hrun := ih hnext hrest hlive
      rw [hcount, hscans]
      show ((s.take a).run rest).pendingScans.card + _ = _
      omega

theorem Settled.ready_nodup {s : Kernel} (h : Settled s) : s.readyQ.Nodup := by
  rw [List.nodup_iff_count_le_one]
  intro p
  by_cases hp : p = s.activePCB
  · rw [hp, List.count_eq_zero_of_not_mem h.active_not_ready]
    exact Nat.zero_le 1
  · have honce : s.readyQ.count p + s.blockedQ.count p +
        readerCount s.ttyReadQueues p ≤ 1 := (h.parked p hp).once
    omega

/-- Idle is in no queue, so there are less ready processes than PCBs. -/
theorem ready_length_lt {s : Kernel} (hpop : Population s) (hs : Settled s) :
    s.readyQ.length < s.npcb := by
  have hsub : s.readyQ.toFinset ⊆ (Finset.range s.npcb).erase 0 := by
    intro p hp
    have hmember := hpop.ready p (List.mem_toFinset.1 hp)
    simp [hmember.2, Nat.ne_of_gt hmember.1]
  have hcard := Finset.card_le_card hsub
  rw [List.toFinset_card_of_nodup hs.ready_nodup] at hcard
  have hpos : 0 < s.npcb := Nat.lt_of_le_of_lt (Nat.zero_le _) hpop.active
  rw [Finset.card_erase_of_mem (Finset.mem_range.2 hpos),
    Finset.card_range] at hcard
  omega

/--
In every run of processes the caller of `Delay(n)` has the processor again before
`n` clock traps and two more for each PCB have been taken.
-/
theorem delay_returns_within {s : Kernel}
    (h : Reachable (fun _ a => a.ofProcesses = true) s)
    {ctx : UserContext} {n : Int} (hn : 0 < n) (labels : List Label)
    (hadmits : s.Admits (fun _ a => a.ofProcesses = true)
      (.trap ctx (.kernel (.delay n)) :: labels))
    (hlive : (s.run (.trap ctx (.kernel (.delay n)) :: labels)).Live)
    (hclocks : n + 2 * (s.run (.trap ctx (.kernel (.delay n)) ::
      labels)).npcb ≤ clockTraps labels) :
    ∃ front back, labels = front ++ back ∧
      (s.run (.trap ctx (.kernel (.delay n)) :: front)).activePCB =
        s.activePCB := by
  obtain ⟨⟨henabled, hguard⟩, hrest⟩ := hadmits
  have himp (s : Kernel) (a : Label) (ha : a.ofProcesses = true) :
      a.ofProcesses = true := ha
  have hcalled := h.delay_sleeps henabled hn (hrest.live hlive)
  have hreach : Reachable (fun _ a => a.ofProcesses = true)
      (s.take (.trap ctx (.kernel (.delay n)))) := .next h hguard (.take henabled)
  have hrun (labels : List Label) :
      s.run (.trap ctx (.kernel (.delay n)) :: labels) =
        (s.take (.trap ctx (.kernel (.delay n)))).run labels := rfl
  simp only [hrun] at hlive hclocks ⊢
  generalize s.take (.trap ctx (.kernel (.delay n))) = t at *
  generalize s.activePCB = p at *
  -- the scan that finds the sleeper
  have howed := hreach.scans_owed himp labels hrest hlive
  have hpending := (t.run labels).pendingScans_le
  have hpos : 0 < (t.run labels).npcb :=
    Nat.lt_of_le_of_lt (Nat.zero_le _) ((hreach.run labels hrest).census hlive).active
  obtain ⟨m, rfl⟩ : ∃ m : Nat, n = m := ⟨n.toNat, by omega⟩
  have hmany : m < t.scansIn labels := by omega
  obtain ⟨front, a, back, rfl, hscans, hscan⟩ := exists_scan hmany
  obtain ⟨hfront, ⟨henabled', hguard'⟩, -⟩ := hrest.of_append
  rw [List.append_cons] at hrest hlive hclocks
  obtain ⟨hfound, hback⟩ := hrest.of_append
  rw [run_append] at hlive hclocks
  have hfoundLive : (t.run (front ++ [a])).Live := hback.live hlive
  have hdelayed := hcalled.run himp hreach front hfront henabled'.live (by omega)
  have hlast : (t.run front).take a = t.run (front ++ [a]) := by
    rw [run_append]
    rfl
  have hwoken := hdelayed.take himp (hreach.run front hfront) hguard' henabled'
    (by rwa [hlast])
  rw [if_pos hscan, hscans, hlast] at hwoken
  obtain ⟨-, hready, -⟩ := hwoken.resolve_left (by omega)
  -- its turn
  have hreachFound := hreach.run (front ++ [a]) hfound
  have hsofar := hreach.scans_owed himp (front ++ [a]) hfound hfoundLive
  have hone : t.scansIn (front ++ [a]) = m + 1 := by
    simp [scansIn_append, scansIn, hscans, hscan]
  have hsplit : clockTraps (front ++ [a] ++ back) =
      clockTraps (front ++ [a]) + clockTraps back := List.countP_append
  have hgrows := run_npcb_le (s := t.run (front ++ [a])) back
  have hleft := (t.run (front ++ [a])).pendingScans_le
  obtain ⟨hpop, hsettled, -⟩ := hreachFound.processes himp hfoundLive
  have hlength := ready_length_lt hpop hsettled
  obtain ⟨k, hk⟩ := List.mem_iff_getElem?.1 hready
  have hlt := (List.getElem?_eq_some_iff.1 hk).1
  obtain ⟨front', back', rfl, -, hturn⟩ := hreachFound.turn back hback hk (by
    rw [← clockTraps_eq]
    omega)
  refine ⟨front ++ [a] ++ front', back', by simp, ?_⟩
  rw [run_append]
  exact hturn

/-- The first process calls `Delay(1)`, and idle is interrupted five times. -/
theorem delay_returns_within_one :
    let s := (Boot.small 20).kernelStart.run tick
    let labels := Label.resume :: (tick ++ tick ++ tick ++ tick ++ tick)
    ∃ front back, labels = front ++ back ∧
      (s.run (call (.delay 1) :: front)).activePCB = s.activePCB := by
  intro s labels
  have hreach : Reachable (fun _ a => a.ofProcesses = true) s :=
    reachable_small 20 tick (by decide +kernel) (by decide +kernel)
  exact delay_returns_within hreach (n := 1) (by decide) labels (by decide +kernel)
    (.inl (by decide +kernel)) (by decide +kernel)

end Yalnix
