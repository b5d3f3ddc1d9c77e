import Yalnix.Process.Reaping
import Yalnix.Process.Schedule

/-!
# From the exit of a child to the answer of its parent

`KernelExit` puts a parent that is asleep in `Wait` on `ready_q`.  The parent
answers as soon as it has had its turn.
-/

namespace Yalnix

open Kernel

namespace Kernel

variable {s r : Kernel} {a : Label} {p c : PcbPtr}

/-- Steps only add to what has happened. -/
theorem FamilyEffect.trace (h : s.FamilyEffect r) (hs : s.Kinship) :
    ∃ new, r.history.trace = s.history.trace ++ new := by
  cases h with
  | goesOn => exact ⟨[], by simp [setMode]⟩
  | fork => exact ⟨[], (List.append_nil _).symm⟩
  | @exit code _ hne =>
      have hcase := exitCleanup_case hs.pop hs.settled hs.tree hne
        (hs.familyQueued hne) code
      refine ⟨[.exit s.activePCB code], ?_⟩
      rw [exited, swapped_history]
      generalize s.exitCleanup code = result at hcase ⊢
      cases hcase <;> rfl
  | waitFails => exact ⟨_, rfl⟩
  | waitReaps => exact ⟨_, rfl⟩
  | waitSleeps => exact ⟨[], by rw [swapped_history, List.append_nil]; rfl⟩
  | waitResumes => exact ⟨_, rfl⟩
  | delay => exact ⟨[], by rw [swapped_history, List.append_nil]; rfl⟩
  | clock => exact ⟨[], by rw [swapped_history, List.append_nil]⟩
  | clockResumes _ _ hscan =>
      refine ⟨[], ?_⟩
      rw [List.append_nil]
      exact congrArg History.trace hscan.history

/-- A process that carries the status of a child has not run since. -/
theorem Kinship.carrier (hs : s.Kinship)
    (hp : s.history.reporter p = some c) :
    (s.pcb.kernelContext p).waits = true ∧ p ∉ s.blockedQ ∧
      (p = s.activePCB → s.mode = .kernel) := by
  obtain ⟨hwaking, hwaits⟩ :=
    (hs.waiting.awaits p).carries.1 (by simp [waiter, hp])
  refine ⟨hwaits, fun hmem => ?_, fun heq => ?_⟩
  · rcases hwaking with hready | ⟨rfl, -⟩
    · exact (hs.settled.blocked_once hmem).2 hready
    · exact hs.settled.active_not_blocked hmem
  · rcases hwaking with hready | ⟨-, -, hmode⟩
    · exact absurd (heq ▸ hready) hs.settled.active_not_ready
    · exact hmode

/-- It carries the status until it is resumed, and then it returns it. -/
theorem FamilyEffect.carried (h : s.FamilyEffect r) (hs : s.Kinship)
    (hp : s.history.reporter p = some c) :
    p ≠ s.activePCB ∧ r.history.reporter p = some c ∨
      p = s.activePCB ∧ .waitReturn p (some c) (some (s.pcb.blockedCode p)) 0 ∈
        r.history.trace := by
  obtain ⟨hwaits, hnot, hresumed⟩ := hs.carrier hp
  by_cases heq : p = s.activePCB
  · subst heq
    have hmode := hresumed rfl
    have huser (h : s.mode = .user) : False := by simp [h] at hmode
    refine .inr ⟨rfl, ?_⟩
    cases h with
    | goesOn hidle => simp [hidle hmode] at hwaits
    | waitResumes =>
        rw [← hp]
        exact List.mem_append_right _ (List.mem_singleton.2 rfl)
    | clockResumes _ hctx => simp [hctx, KernelContext.waits] at hwaits
    | fork hmode => exact (huser hmode).elim
    | exit hmode => exact (huser hmode).elim
    | waitFails hmode => exact (huser hmode).elim
    | waitReaps hmode => exact (huser hmode).elim
    | waitSleeps hmode => exact (huser hmode).elim
    | delay hmode => exact (huser hmode).elim
    | clock hmode => exact (huser hmode).elim
  · refine .inl ⟨heq, ?_⟩
    cases h with
    | @exit code _ hne =>
        have hcase := exitCleanup_case hs.pop hs.settled hs.tree hne
          (hs.familyQueued hne) code
        rw [exited, swapped_history]
        generalize s.exitCleanup code = result at hcase ⊢
        cases hcase with
        | @reported parent _ hparent =>
            -- another process is woken
            have hother : p ≠ parent := fun hsame => hnot (hsame ▸ hparent)
            exact (upd_other hother _ _).trans hp
        | _ => exact hp
    | waitSleeps => rw [swapped_history]; exact hp
    | waitResumes => exact (upd_other heq _ _).trans hp
    | delay => rw [swapped_history]; exact hp
    | clock => rw [swapped_history]; exact hp
    | clockResumes _ _ hscan =>
        exact (congrFun (congrArg History.reporter hscan.history) p).trans hp
    | _ => exact hp

/-- `KernelExit` wakes the parent that is asleep in `Wait`. -/
theorem Kinship.exited_wakes (hs : s.Kinship) (hne : s.activePCB ≠ s.idlePCB)
    (hchild : s.history.creator s.activePCB = p) (hp : p ∈ s.blockedQ)
    (hwait : s.pcb.blockedCode p = Blocked.wait) (code : Int) :
    (s.exited code).history.reporter p = some s.activePCB ∧
      .exit s.activePCB code ∈ (s.exited code).history.trace ∧
      (((s.exited code).activePCB = p ∧ (s.exited code).mode = .kernel) ∨
        ∃ k, k + 1 = s.readyQ.length ∧ (s.exited code).readyQ[k]? = some p) := by
  have hactive := hs.pop.active_member hne
  have hmember := hs.pop.blocked p hp
  have hppid : s.pcb.ppid s.activePCB = s.pcb.pid p := by
    have hleft := hchild ▸ hs.blocked_present hp
    rw [(hs.linked.ppid_eq hactive (.inl hs.settled.live) hleft).1, hchild]
  have hpos := hs.pop.pid_pos p hmember
  have hcase := exitCleanup_case hs.pop hs.settled hs.tree hne
    (hs.familyQueued hne) code
  unfold exited
  generalize s.exitCleanup code = result at hcase ⊢
  cases hcase with
  | @reported parent hpid hparent =>
      obtain rfl := hs.pop.pid_inj parent p (hs.pop.blocked parent hparent)
        hmember (hpid.trans hppid)
      refine ⟨?_, ?_, ?_⟩
      · rw [swapped_history]
        exact upd_same _ _ _
      · rw [swapped_history]
        exact List.mem_append_right _ (List.mem_singleton.2 rfl)
      · have hready : ((((s.exiting code).orphaned).reported parent).setTerminated
            s.activePCB).readyQ = s.readyQ ++ [parent] := rfl
        cases hcons : s.readyQ with
        | nil =>
            rw [hcons] at hready
            obtain ⟨-, hturn, -⟩ := swapped_line hready
            exact .inl ⟨hturn, swapped_mode⟩
        | cons first rest =>
            rw [hcons, List.cons_append] at hready
            obtain ⟨added, -, hwaiting⟩ := swapped_line hready
            refine .inr ⟨rest.length, rfl, ?_⟩
            rw [hwaiting]
            simp
  | @stays parent hpid hwhere =>
      have hpop : s.Member parent := hwhere.elim (hs.pop.ready parent)
        fun hb => hs.pop.blocked parent hb.1
      obtain rfl := hs.pop.pid_inj parent p hpop hmember (hpid.trans hppid)
      rcases hwhere with hready | ⟨-, hcode⟩
      · exact absurd hready (hs.settled.blocked_once hp).2
      · exact absurd hwait hcode
  | alone hzero => exact absurd (hppid.symm.trans hzero) hpos
  | childless hzero => exact absurd (hppid.symm.trans hzero) hpos

/-- `Wait` has returned the status of `c` to `p`. -/
def Returned (s : Kernel) (p c : PcbPtr) : Prop :=
  ∃ code, .waitReturn p (some c) (some code) 0 ∈ s.history.trace

end Kernel

/-! ## Runs -/

namespace Reachable

variable {s : Kernel} {a : Label} {p c : PcbPtr}

theorem mem_trace_core {e : Event} (he : e.atDevice = false) :
    e ∈ s.core.history.trace ↔ e ∈ s.history.trace := by
  simp [core, eraseDevices, eraseMemory, he]

theorem take_trace (h : Reachable Parental s) (henabled : a.Enabled s)
    (hguard : Parental s a) (hlive : (s.take a).Live) {e : Event}
    (he : e.atDevice = false) (hmem : e ∈ s.history.trace) :
    e ∈ (s.take a).history.trace := by
  obtain ⟨r, hfamily, hcore⟩ := h.family henabled hguard hlive
  have hs := (h.kinship henabled.live).of_core (entered_core a)
  obtain ⟨new, htrace⟩ := hfamily.trace hs
  rw [← mem_trace_core he, hcore, mem_trace_core he, htrace]
  refine List.mem_append_left _ ?_
  rwa [← mem_trace_core he, entered_core, mem_trace_core he]

theorem run_trace (h : Reachable Parental s) (labels : List Label)
    (hadmits : s.Admits Parental labels) (hlive : (s.run labels).Live)
    {e : Event} (he : e.atDevice = false) (hmem : e ∈ s.history.trace) :
    e ∈ (s.run labels).history.trace := by
  induction labels generalizing s with
  | nil => exact hmem
  | cons a rest ih =>
      obtain ⟨⟨henabled, hguard⟩, hrest⟩ := hadmits
      exact ih (.next h hguard (.take henabled)) hrest hlive
        (h.take_trace henabled hguard (hrest.live hlive) he hmem)

theorem take_carried (h : Reachable Parental s) (henabled : a.Enabled s)
    (hguard : Parental s a) (hlive : (s.take a).Live)
    (hp : s.history.reporter p = some c) :
    p ≠ s.activePCB ∧ (s.take a).history.reporter p = some c ∨
      p = s.activePCB ∧ (s.take a).Returned p c := by
  obtain ⟨r, hfamily, hcore⟩ := h.family henabled hguard hlive
  have hs := (h.kinship henabled.live).of_core (entered_core a)
  have hentered : (s.entered a).history.reporter p = some c := by
    rw [← hp]
    exact (congrFun (congrArg (fun s => s.history.reporter)
      (entered_core a)) p :)
  have hactive : (s.entered a).activePCB = s.activePCB :=
    (congrArg Kernel.activePCB (entered_core a) :)
  have hreporter : (s.take a).history.reporter p = r.history.reporter p :=
    (congrFun (congrArg (fun s => s.history.reporter) hcore) p :)
  rw [hreporter, ← hactive]
  rcases hfamily.carried hs hentered with hkept | ⟨heq, hmem⟩
  · exact .inl hkept
  · have hreturned := (mem_trace_core rfl).2 hmem
    rw [← hcore] at hreturned
    exact .inr ⟨heq, _, (mem_trace_core rfl).1 hreturned⟩

theorem run_carried (h : Reachable Parental s) (labels : List Label)
    (hadmits : s.Admits Parental labels) (hlive : (s.run labels).Live)
    (hp : s.history.reporter p = some c) :
    (s.run labels).history.reporter p = some c ∨
      (s.run labels).Returned p c := by
  induction labels generalizing s with
  | nil => exact .inl hp
  | cons a rest ih =>
      obtain ⟨⟨henabled, hguard⟩, hrest⟩ := hadmits
      have hthen := hrest.live hlive
      have hnext : Reachable Parental (s.take a) :=
        .next h hguard (.take henabled)
      rcases h.take_carried henabled hguard hthen hp with
        ⟨-, hkept⟩ | ⟨-, code, hmem⟩
      · exact ih hnext hrest hlive hkept
      · exact .inr ⟨code, hnext.run_trace rest hrest hlive rfl hmem⟩

/-- A process that carries a status has returned it once it has had its turn. -/
theorem run_returned (h : Reachable Parental s) (front back : List Label)
    (hback : back ≠ []) (hadmits : s.Admits Parental (front ++ back))
    (hlive : (s.run (front ++ back)).Live)
    (hp : s.history.reporter p = some c)
    (hturn : (s.run front).activePCB = p) :
    (s.run (front ++ back)).Returned p c := by
  obtain ⟨hfront, hrest⟩ := hadmits.of_append
  rw [run_append] at hlive ⊢
  have hreach := h.run front hfront
  obtain ⟨b, rest, rfl⟩ := List.exists_cons_of_ne_nil hback
  rcases h.run_carried front hfront hrest.1.1.live hp with hkept | ⟨code, hmem⟩
  · have hthen := hrest.2.live hlive
    rcases hreach.take_carried hrest.1.1 hrest.1.2 hthen hkept with
      ⟨hne, -⟩ | ⟨-, code, hmem⟩
    · exact absurd hturn.symm hne
    · have hnext : Reachable Parental ((s.run front).take b) :=
        .next hreach hrest.1.2 (.take hrest.1.1)
      exact ⟨code, hnext.run_trace rest hrest.2 hlive rfl hmem⟩
  · exact ⟨code, hreach.run_trace _ hrest hlive rfl hmem⟩

end Reachable

/--
When a process exits while its parent sleeps in `Wait`, the `Wait` returns its
exit code in every run of these calls that goes on for more clock traps than
processes were ready, whatever the processes do meanwhile.
-/
theorem wait_returns_after_exit {s : Kernel} (h : Reachable Parental s)
    {p : PcbPtr} (hchild : s.history.creator s.activePCB = p)
    (hsleeps : p ∈ s.blockedQ) (hwait : s.pcb.blockedCode p = Blocked.wait)
    (ctx : UserContext) (code : Int) (rest : List Label)
    (hadmits : s.Admits Parental (.trap ctx (.kernel (.exit code)) :: rest))
    (hlive : (s.run (.trap ctx (.kernel (.exit code)) :: rest)).Live)
    (hclocks : s.readyQ.length < rest.countP Label.clocks) :
    .waitReturn p (some s.activePCB) (some code) 0 ∈
      (s.run (.trap ctx (.kernel (.exit code)) :: rest)).history.trace := by
  obtain ⟨⟨henabled, hguard⟩, hrest⟩ := hadmits
  have hs := h.kinship henabled.live
  have hne : s.activePCB ≠ s.idlePCB := henabled.2.1.resolve_right nofun
  have hnext : Reachable Parental (s.take (.trap ctx (.kernel (.exit code)))) :=
    .next h hguard (.take henabled)
  have hcore : (s.take (.trap ctx (.kernel (.exit code)))).core =
      (s.exited code).core := by
    rw [exited_core]
    exact kernelExit_core code
  obtain ⟨hreporter, hexit, hplace⟩ :=
    hs.exited_wakes hne hchild hsleeps hwait code
  have hcarried : (s.take (.trap ctx (.kernel (.exit code)))).history.reporter p
      = some s.activePCB := by
    rw [← hreporter]
    exact (congrFun (congrArg (fun s => s.history.reporter) hcore) p :)
  have hturn : ∃ front back, rest = front ++ back ∧ back ≠ [] ∧
      ((s.take (.trap ctx (.kernel (.exit code)))).run front).activePCB = p := by
    have hnonempty (front back : List Label) (hsplit : rest = front ++ back)
        (hfront : front.countP Label.clocks ≤ s.readyQ.length) :
        back ≠ [] := by
      rintro rfl
      rw [hsplit, List.append_nil] at hclocks
      omega
    rcases hplace with ⟨hactive, -⟩ | ⟨k, hlength, hk⟩
    · refine ⟨[], rest, rfl, hnonempty [] rest rfl (by simp), ?_⟩
      rw [← hactive]
      exact (congrArg Kernel.activePCB hcore :)
    · have hready : (s.take (.trap ctx (.kernel (.exit code)))).readyQ[k]? =
          some p := by
        rw [← hk]
        exact (congrArg (fun s => s.readyQ[k]?) hcore :)
      obtain ⟨front, back, hsplit, hfront, hturn⟩ := hnext.turn rest hrest hready (by omega)
      exact ⟨front, back, hsplit, hnonempty _ _ hsplit (by omega), hturn⟩
  obtain ⟨front, back, rfl, hback, hturn⟩ := hturn
  obtain ⟨status, hmem⟩ :=
    hnext.run_returned front back hback hrest hlive hcarried hturn
  -- what was returned is the code that the child has exited with
  have hfinal := (hnext.run _ hrest).kinship hlive
  have hstays := hnext.run_trace _ hrest hlive rfl
    ((Reachable.mem_trace_core rfl).1
      (hcore ▸ (Reachable.mem_trace_core rfl).2 hexit))
  have hown := hfinal.handed.desk.sound.own _ (mem_reports.2 ⟨0, hmem⟩)
  have hsame : code = status :=
    Option.some.inj ((hfinal.handed.ended _ _ hstays).2.2.symm.trans hown.2)
  subst hsame
  exact hmem

/-- The second child runs before the parent has its turn. -/
theorem wait_returns_after_exit_two_children :
    let s := (Boot.small 30).kernelStart.run (tick ++
      [call (.fork 2), call (.fork 3), call (.wait true), .resume])
    .waitReturn 1 (some s.activePCB) (some 7) 0 ∈
      (s.run (.trap ⟨0, 0⟩ (.kernel (.exit 7)) ::
        .resume :: (tick ++ tick))).history.trace := by
  intro s
  have hreach : Reachable Parental s :=
    reachable_small 30 _ (by decide +kernel) (by decide +kernel)
  exact wait_returns_after_exit hreach (by decide +kernel)
    (by decide +kernel) (by decide +kernel) ⟨0, 0⟩ 7 _ (by decide +kernel)
    (.inl (by decide +kernel)) (by decide +kernel)

end Yalnix
