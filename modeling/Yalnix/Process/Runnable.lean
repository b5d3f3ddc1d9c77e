import Yalnix.Process.ProcessTree
import Yalnix.Process.SystemRuns

/-!
# No process is stranded

In a run of process and memory calls every process that has not terminated
runs, is ready or sleeps in `blocked_q`.
-/

namespace Yalnix

namespace Kernel

/-- The scheduler can still choose the process. -/
def CanRun (s : Kernel) (p : PcbPtr) : Prop :=
  p = s.idlePCB ∨ p = s.activePCB ∨ p ∈ s.readyQ ∨ p ∈ s.blockedQ

/-- Every process that has not terminated can run.  The scan of `blocked_q`
drops processes that sleep until a terminal opens, and there is none. -/
structure NoneStranded (s : Kernel) : Prop where
  canRun : ∀ p, p < s.npcb → s.history.terminated p = false → s.CanRun p
  kept : ∀ p ∈ s.blockedQ, s.pcb.blockedCode p ≠ Blocked.ttyTransmit

variable {s r : Kernel} {a : Label} {p : PcbPtr} {q : Option QueueRef}
  {k : KernelContext}

/-! ## Switching -/

theorem mem_next_or_tail (h : p ∈ s.readyQ) :
    p = s.nextProcess ∨ p ∈ s.readyQ.tail := by
  unfold nextProcess
  cases hready : s.readyQ with
  | nil =>
      rw [hready] at h
      cases h
  | cons x rest =>
      rw [hready] at h
      exact List.mem_cons.1 h

/-- Everybody but the process that is switched away can run as before. -/
theorem CanRun.switched_other (h : s.CanRun p) (hp : p ≠ s.activePCB) :
    (s.switched q k).CanRun p := by
  have hnext : (s.switched q k).activePCB = s.nextProcess :=
    Placement.switched_active
  have hidle : (s.switched q k).idlePCB = s.idlePCB :=
    Placement.switched_frame.2.2.1
  have hkept : ∀ x, (x ∈ s.readyQ.tail → x ∈ (s.switched q k).readyQ) ∧
      (x ∈ s.blockedQ → x ∈ (s.switched q k).blockedQ) := by
    intro x
    rcases q with _ | ref
    · exact ⟨id, id⟩
    · cases ref with
      | readyQ => exact ⟨List.mem_append_left _, id⟩
      | blockedQ => exact ⟨id, List.mem_append_left _⟩
      | _ => exact ⟨id, id⟩
  unfold CanRun
  rw [hnext, hidle]
  rcases h with hidle | hactive | hready | hblocked
  · exact .inl hidle
  · exact absurd hactive hp
  · rcases mem_next_or_tail hready with hnext | htail
    · exact .inr (.inl hnext)
    · exact .inr (.inr (.inl ((hkept p).1 htail)))
  · exact .inr (.inr (.inr ((hkept p).2 hblocked)))

theorem CanRun.swapped_other (h : s.CanRun p) (hpop : Population s)
    (hp : p ≠ s.activePCB) : (s.swapped q k).CanRun p := by
  by_cases hidle : s.activePCB = s.idlePCB
  · rw [hpop.swapped_of_eq hidle]
    exact h.switched_other hp
  · rw [hpop.swapped_of_ne hidle]
    exact h.switched_other hp

/-- The process that is switched away is idle, or it is in the queue. -/
theorem canRun_swapped_active (hpop : Population s)
    (hq : q = some .readyQ ∨ q = some .blockedQ) :
    (s.swapped q k).CanRun s.activePCB := by
  by_cases hidle : s.activePCB = s.idlePCB
  · rw [hpop.swapped_of_eq hidle]
    exact .inl hidle
  · rw [hpop.swapped_of_ne hidle]
    rcases hq with rfl | rfl
    · exact .inr (.inr (.inl (List.mem_append_right _ List.mem_cons_self)))
    · exact .inr (.inr (.inr (List.mem_append_right _ List.mem_cons_self)))

theorem mem_swapped_blocked (hpop : Population s)
    (h : p ∈ (s.swapped q k).blockedQ) :
    p ∈ s.blockedQ ∨ p = s.activePCB ∧ q = some .blockedQ := by
  by_cases hidle : s.activePCB = s.idlePCB
  · rw [hpop.swapped_of_eq hidle] at h
    exact .inl h
  · rw [hpop.swapped_of_ne hidle] at h
    rcases q with _ | ref
    · exact .inl h
    · cases ref with
      | blockedQ =>
          rcases List.mem_append.1 h with h | h
          · exact .inl h
          · exact .inr ⟨List.mem_singleton.1 h, rfl⟩
      | _ => exact .inl h

/-! ## Rechecks -/

theorem Recheck.canRun (h : Recheck s p r)
    (hcode : s.pcb.blockedCode p ≠ Blocked.ttyTransmit) :
    (∀ x, s.CanRun x ∨ x = p → r.CanRun x) ∧
      ((∀ x ∈ s.blockedQ, s.pcb.blockedCode x ≠ Blocked.ttyTransmit) →
        ∀ x ∈ r.blockedQ, r.pcb.blockedCode x ≠ Blocked.ttyTransmit) := by
  have hready {x : PcbPtr} {r : Kernel} (hidle : r.idlePCB = s.idlePCB)
      (hactive : r.activePCB = s.activePCB) (hr : r.readyQ = s.readyQ ++ [p])
      (hb : r.blockedQ = s.blockedQ) (hx : s.CanRun x ∨ x = p) :
      r.CanRun x := by
    unfold CanRun
    rw [hidle, hactive, hr, hb]
    rcases hx with (hx | hx | hx | hx) | rfl
    · exact .inl hx
    · exact .inr (.inl hx)
    · exact .inr (.inr (.inl (List.mem_append_left _ hx)))
    · exact .inr (.inr (.inr hx))
    · exact .inr (.inr (.inl (List.mem_append_right _ List.mem_cons_self)))
  have hblocked {x : PcbPtr} {r : Kernel} (hidle : r.idlePCB = s.idlePCB)
      (hactive : r.activePCB = s.activePCB) (hr : r.readyQ = s.readyQ)
      (hb : r.blockedQ = s.blockedQ ++ [p]) (hx : s.CanRun x ∨ x = p) :
      r.CanRun x := by
    unfold CanRun
    rw [hidle, hactive, hr, hb]
    rcases hx with (hx | hx | hx | hx) | rfl
    · exact .inl hx
    · exact .inr (.inl hx)
    · exact .inr (.inr (.inl hx))
    · exact .inr (.inr (.inr (List.mem_append_left _ hx)))
    · exact .inr (.inr (.inr (List.mem_append_right _ List.mem_cons_self)))
  have happend (hkept : ∀ x ∈ s.blockedQ,
      s.pcb.blockedCode x ≠ Blocked.ttyTransmit) : ∀ x ∈ s.blockedQ ++ [p],
        s.pcb.blockedCode x ≠ Blocked.ttyTransmit := by
    intro x hx
    rcases List.mem_append.1 hx with hx | hx
    · exact hkept x hx
    · rw [List.mem_singleton.1 hx]
      exact hcode
  cases h with
  | ticking => exact ⟨fun _ => hblocked rfl rfl rfl rfl, happend⟩
  | due =>
      refine ⟨fun _ => hready rfl rfl rfl rfl, fun hkept x hx => ?_⟩
      change upd s.pcb.blockedCode p Blocked.notBlocked x ≠ _
      by_cases hxp : x = p
      · rw [hxp, upd_same]
        decide
      · rw [upd_other hxp]
        exact hkept x hx
  | opened htransmit => exact absurd htransmit hcode
  | closed htransmit => exact absurd htransmit hcode
  | other => exact ⟨fun _ => hblocked rfl rfl rfl rfl, happend⟩

theorem Scanned.canRun {limit : Nat} (h : Scanned limit s r)
    (hkept : ∀ x ∈ s.blockedQ, s.pcb.blockedCode x ≠ Blocked.ttyTransmit) :
    (∀ x, s.CanRun x → r.CanRun x) ∧
      ∀ x ∈ r.blockedQ, r.pcb.blockedCode x ≠ Blocked.ttyTransmit := by
  induction h with
  | done => exact ⟨fun _ => id, hkept⟩
  | empty _ _ ih => exact ih hkept
  | @next limit s s' r p rest hcons hcheck _ ih =>
      obtain ⟨hcan, hcodes⟩ := hcheck.canRun
        (hkept p (hcons ▸ List.mem_cons_self))
      obtain ⟨hrest, hfinal⟩ := ih (hcodes fun x hx =>
        hkept x (hcons ▸ List.mem_cons_of_mem _ hx))
      refine ⟨fun x hx => hrest x (hcan x ?_), hfinal⟩
      rcases hx with hx | hx | hx | hx
      · exact .inl (.inl hx)
      · exact .inl (.inr (.inl hx))
      · exact .inl (.inr (.inr (.inl hx)))
      · rw [hcons] at hx
        rcases List.mem_cons.1 hx with rfl | hx
        · exact .inr rfl
        · exact .inl (.inr (.inr (.inr hx)))

/-! ## Every effect -/

namespace NoneStranded

theorem of_core (h : s.NoneStranded) (hcore : r.core = s.core) :
    r.NoneStranded := by
  have hs : s.core.NoneStranded := ⟨h.canRun, h.kept⟩
  rw [← hcore] at hs
  exact ⟨hs.canRun, hs.kept⟩

/-- The process that is switched away has terminated, or it goes to one of the
two queues. -/
theorem swapped (h : s.NoneStranded) (hpop : Population s)
    (hactive : s.history.terminated s.activePCB = false →
      q = some .readyQ ∨ q = some .blockedQ)
    (hcode : q = some .blockedQ →
      s.pcb.blockedCode s.activePCB ≠ Blocked.ttyTransmit) :
    (s.swapped q k).NoneStranded := by
  constructor
  · intro p hp hlive
    rw [swapped_npcb] at hp
    rw [swapped_history] at hlive
    by_cases heq : p = s.activePCB
    · subst heq
      exact canRun_swapped_active hpop (hactive hlive)
    · exact (h.canRun p hp hlive).swapped_other hpop heq
  · intro p hp
    rw [swapped_pcb]
    rcases mem_swapped_blocked hpop hp with hp | ⟨rfl, hq⟩
    · exact h.kept p hp
    · exact hcode hq

theorem exited (h : s.NoneStranded) (hpop : Population s)
    (hsettled : Settled s) (code : Int) : (s.exited code).NoneStranded := by
  have hc := s.exitCleanup_cleaned code
  obtain ⟨woken, hready, hwoken, hcode⟩ := s.exitCleanup_woken code
  have hdead : upd s.history.terminated s.activePCB true s.activePCB = true :=
    upd_same _ _ _
  have hset : ((s.exitCleanup code).2.setTerminated
      s.activePCB).NoneStranded := by
    constructor
    · intro p hp hlive
      have hlt : p < (s.exitCleanup code).2.npcb := hp
      have hterminated : upd (s.exitCleanup code).2.history.terminated
          s.activePCB true p = false := hlive
      rw [hc.npcb] at hlt
      rw [hc.terminated] at hterminated
      have hne : p ≠ s.activePCB := by
        rintro rfl
        rw [hdead] at hterminated
        cases hterminated
      rw [upd_other hne] at hterminated
      rcases h.canRun p hlt hterminated with hidle | hactive | hmem | hmem
      · exact .inl (hidle.trans hc.idle.symm)
      · exact absurd hactive hne
      · have hmem' : p ∈ (s.exitCleanup code).2.readyQ := by
          rw [hready]
          exact List.mem_append_left _ hmem
        exact .inr (.inr (.inl hmem'))
      · -- a blocked process stays, or it is a parent that is woken
        have hcount := hc.count p
        have hpos := List.count_pos_iff.2 hmem
        by_cases hstays : p ∈ (s.exitCleanup code).2.blockedQ
        · exact .inr (.inr (.inr hstays))
        · rw [List.count_eq_zero_of_not_mem hstays] at hcount
          have hmem' : p ∈ (s.exitCleanup code).2.readyQ :=
            List.count_pos_iff.1 (by omega)
          exact .inr (.inr (.inl hmem'))
    · intro p hp
      have hstays : p ∈ (s.exitCleanup code).2.blockedQ := hp
      have hold := (s.exitCleanup_blocked code).subset hstays
      have hsame : p ∉ woken := by
        intro hmem
        have hne : p ≠ s.activePCB := by
          rintro rfl
          have hnone := hsettled.active
          have hpos : 0 < s.blockedQ.count s.activePCB :=
            List.count_pos_iff.2 hold
          simp only [Spot.places, spot] at hnone
          omega
        have honce := (hsettled.parked p hne).once
        have hcount := hc.count p
        have hpos := List.count_pos_iff.2 hstays
        rw [hready, List.count_append] at hcount
        have hposWoken := List.count_pos_iff.2 hmem
        simp only [Spot.places, spot] at honce
        omega
      have hkept := h.kept p hold
      rw [← hcode p hsame] at hkept
      exact hkept
  have hpop' : Population ((s.exitCleanup code).2.setTerminated
      s.activePCB) := { hpop.exitCleanup code with }
  refine hset.swapped hpop' ?_ ?_
  · intro hlive
    have hterminated : upd (s.exitCleanup code).2.history.terminated
        s.activePCB true (s.exitCleanup code).2.activePCB = false := hlive
    rw [hc.active, hc.terminated, hdead] at hterminated
    cases hterminated
  · intro hq
    rcases hc.swapQ with hnone | hdefunct
    · rw [hnone] at hq
      cases hq
    · rw [hdefunct] at hq
      cases hq

theorem forked (h : s.NoneStranded) (pid : Nat) :
    (s.forked pid).NoneStranded := by
  constructor
  · intro p hp hlive
    have hlt : p < s.npcb + 1 := hp
    by_cases heq : p = s.npcb
    · subst heq
      exact .inr (.inr (.inl (List.mem_append_right _ List.mem_cons_self)))
    · rcases h.canRun p (by omega) hlive with hx | hx | hx | hx
      · exact .inl hx
      · exact .inr (.inl hx)
      · exact .inr (.inr (.inl (List.mem_append_left _ hx)))
      · exact .inr (.inr (.inr hx))
  · intro p hp
    change upd s.pcb.blockedCode s.npcb Blocked.notBlocked p ≠ _
    by_cases heq : p = s.npcb
    · rw [heq, upd_same]
      decide
    · rw [upd_other heq]
      exact h.kept p hp

/-- A step after which a new process is ready, if there is one, and that kills
nobody. -/
theorem effect (h : s.NoneStranded) (hpop : Population s)
    (hsettled : Settled s) (hsaved : s.SystemContexts)
    (ha : a.ofSystem = true) (hfaults : a.faults = false)
    (hfork : ∀ ctx pid, a = .trap ctx (.kernel (.fork pid)) →
      r.readyQ = s.readyQ ++ [s.npcb])
    (heffect : Effect s a r) : r.NoneStranded := by
  have hactive := hsaved s.activePCB
  have hsleeps {s₁ : Kernel} {code : Int} {k : KernelContext} (hcode : code ≠ Blocked.ttyTransmit)
      (hpop₁ : Population (s₁.setBlockedCode s₁.activePCB code))
      (hs₁ : s₁.NoneStranded) :
      ((s₁.setBlockedCode s₁.activePCB code).swapped (some .blockedQ)
        k).NoneStranded := by
    have hset : upd s₁.pcb.blockedCode s₁.activePCB code s₁.activePCB = code :=
      upd_same _ _ _
    have hs₂ : (s₁.setBlockedCode s₁.activePCB code).NoneStranded := by
      refine ⟨hs₁.canRun, fun p hp => ?_⟩
      change upd s₁.pcb.blockedCode s₁.activePCB code p ≠ _
      by_cases heq : p = s₁.activePCB
      · rw [heq, hset]
        exact hcode
      · rw [upd_other heq]
        exact hs₁.kept p hp
    refine hs₂.swapped hpop₁ (fun _ => .inr rfl) fun _ => ?_
    rw [← hset] at hcode
    exact hcode
  cases heffect with
  | fork => exact ⟨(h.forked _).canRun, (h.forked _).kept⟩
  | forkFails =>
      have hready : s.readyQ = s.readyQ ++ [s.npcb] := hfork _ _ rfl
      have hlength := congrArg List.length hready
      rw [List.length_append, List.length_singleton] at hlength
      omega
  | @exit _ code => exact h.exited hpop hsettled code
  | fault _ hfault =>
      rcases hfault with rfl | rfl
      · cases hfaults
      · cases hfaults
  | waitSleeps _ _ hreap =>
      obtain ⟨rfl, -⟩ := reapLoop_none hreap
      exact hsleeps nofun { hpop with } ⟨h.canRun, h.kept⟩
  | waitResumes =>
      refine ⟨h.canRun, fun p hp => ?_⟩
      change upd s.pcb.blockedCode s.activePCB Blocked.notBlocked p ≠ _
      by_cases heq : p = s.activePCB
      · rw [heq, upd_same]
        decide
      · rw [upd_other heq]
        exact h.kept p hp
  | delay => exact hsleeps nofun { hpop with } ⟨h.canRun, h.kept⟩
  | clock => exact h.swapped hpop (fun _ => .inl rfl) nofun
  | clockResumes _ hscan =>
      obtain ⟨hcan, hkept⟩ := hscan.canRun h.kept
      have hsame := Placement.scanned_same hscan
      refine ⟨fun p hp hlive => ?_, hkept⟩
      have hlt := hsame.npcb ▸ hp
      have hthen := congrFun hsame.terminated p
      exact hcan p (h.canRun p hlt (hthen.symm.trans hlive))
  | ttyReadSleeps => cases ha
  | ttyReadWakes hctx =>
      rw [hctx] at hactive
      cases hactive
  | ttyReceives => cases ha
  | ttyWriteWaits => cases ha
  | ttyWriteSleeps _ _ _ _ hwrites =>
      exact absurd hwrites (not_writesOn_of_system ha hactive)
  | ttyWriteReturns hwrites =>
      exact absurd hwrites (not_writesOn_of_system ha hactive)
  | ttyTransmitted => cases ha
  | pipeInit => cases ha
  | pipeSleeps hfrom => exact absurd hfrom (not_sleepsOn_of_system ha hactive)
  | pipeWakes hcompleting =>
      rw [completing_of_system ha hactive] at hcompleting
      cases hcompleting
  | _ => exact ⟨h.canRun, h.kept⟩

theorem started (b : Boot) : b.started.NoneStranded := by
  refine ⟨fun p hp _ => ?_, nofun⟩
  have hlt : p < 2 := hp
  rcases Nat.lt_or_ge p 1 with hzero | hone
  · exact .inl (Nat.lt_one_iff.1 hzero)
  · have heq : p = 1 := by omega
    exact .inr (.inr (.inl (List.mem_singleton.2 heq)))

end NoneStranded

end Kernel

end Yalnix
