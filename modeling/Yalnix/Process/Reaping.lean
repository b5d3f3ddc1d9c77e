import Yalnix.Process.ExitStatus

/-!
# Exit statuses in every run

In a run of process and memory calls in which no fork runs out of frames and no
math or illegal trap comes, every exit status is delivered to the creator once.
-/

namespace Yalnix

open HandOver

namespace Kernel

variable {s r : Kernel} {a : Label} {p c : PcbPtr}

/-- What holds of the processes in every state of such a run. -/
structure Kinship (s : Kernel) : Prop where
  pop : Population s
  settled : Settled s
  contexts : s.SystemContexts
  stranded : s.NoneStranded
  tree : Tree s.kin
  own : s.OwnPids
  linked : s.Linked
  waiting : s.Waiting
  handed : s.Handed s.desk

theorem Effect.forks (h : Effect s a r) (hguard : Parental s a)
    (hpop : Population s) {ctx : UserContext} {pid : Nat}
    (ha : a = .trap ctx (.kernel (.fork pid))) :
    r.readyQ = s.readyQ ++ [s.npcb] := by
  have hfits := hguard.fits (by rw [ha]; rfl)
  have hself : s.activePCB ≠ s.npcb := Nat.ne_of_lt hpop.active
  cases h with
  | stay hreturns =>
      cases ha
      cases hreturns
  | fork => rfl
  | forkFails _ _ hfull => exact absurd hfits (hfull hself)
  | exit _ hends =>
      subst ha
      cases hends
  | fault _ hfault =>
      rcases hfault with rfl | rfl <;> cases ha
  | ttyWriteSleeps _ _ _ _ hwrites =>
      subst ha
      cases hwrites
  | ttyWriteReturns hwrites =>
      subst ha
      cases hwrites
  | pipeSleeps hfrom =>
      subst ha
      rcases hfrom with ⟨hresume, -⟩ | ⟨hcalls, -⟩
      · cases hresume
      · cases hcalls
  | pipeWakes hcompleting =>
      subst ha
      cases hcompleting
  | _ => cases ha

/-- Idle's program does not end. -/
theorem active_of_ends (henabled : a.Enabled s) (hends : s.ends a ≠ none) :
    s.activePCB ≠ s.idlePCB := by
  cases a with
  | resume => exact absurd rfl hends
  | trap ctx t =>
      obtain ⟨-, hpossible⟩ := henabled
      cases t with
      | memory => exact hpossible
      | kernel call =>
          cases call with
          | exit => exact hpossible.1.resolve_right nofun
          | exec => exact hpossible.1.resolve_right nofun
          | _ => exact absurd rfl hends
      | _ => exact absurd rfl hends

namespace Kinship

theorem of_core (h : s.Kinship) (hcore : r.core = s.core) : r.Kinship where
  pop := h.pop.of_core hcore
  settled := h.settled.of_core hcore
  contexts := h.contexts.of_core hcore
  stranded := h.stranded.of_core hcore
  tree := by
    have hkin : r.kin = s.kin := (congrArg Kernel.kin hcore :)
    exact hkin ▸ h.tree
  own := h.own.of_core hcore
  linked := h.linked.of_core hcore
  waiting := h.waiting.of_core hcore
  handed := (h.handed.of_core hcore).rebase

/-- Nobody is stranded, so the scans of `KernelExit` find the whole family. -/
theorem familyQueued (h : s.Kinship) (hne : s.activePCB ≠ s.idlePCB) :
    s.FamilyQueued := by
  intro p hlt hidle hlive hrelated
  have hself := h.tree.ppid_active_ne h.pop (h.pop.active_member hne)
    h.settled.live
  rcases h.stranded.canRun p hlt hlive with heq | rfl | hready | hblocked
  · exact absurd heq hidle
  · rcases hrelated with heq | heq
    · exact absurd heq.symm hself
    · exact absurd heq hself
  · exact .inl hready
  · exact .inr hblocked

theorem effect (h : s.Kinship) (henabled : a.Enabled s)
    (hentered : s.entered a = s) (hguard : Parental s a)
    (heffect : Effect s a r) : r.Kinship := by
  have horderly := orderly_of_system hguard.system (h.contexts s.activePCB)
  have hfamilial : Familial s a :=
    { toOrderly := horderly
      exits := fun hends => by
        rw [hentered] at hends
        exact h.familyQueued (active_of_ends henabled hends)
      childless := fun hfaults => by simp [hguard.faults] at hfaults }
  have hfamily := heffect.family henabled hguard h.pop h.contexts h.own
  exact
    { pop := h.pop.effect horderly.clean heffect
      settled := h.settled.effect h.pop henabled horderly heffect
      contexts := h.contexts.effect hguard.system heffect
      stranded := h.stranded.effect h.pop h.settled h.contexts hguard.system
        hguard.faults (fun _ _ ha => heffect.forks hguard h.pop ha) heffect
      tree := h.tree.effect h.pop h.settled hfamilial hentered heffect
      own := h.own.effect hfamily
      linked := h.linked.effect h.pop h.settled h.tree h.familyQueued hfamily
      waiting := h.waiting.effect h.pop h.settled h.tree h.stranded
        h.familyQueued hfamily
      handed := (h.handed.effect h.pop h.settled h.tree h.linked h.waiting
        h.familyQueued hfamily).rebase }

/-- A process in `blocked_q` has not ended. -/
theorem blocked_present (h : s.Kinship) (hp : p ∈ s.blockedQ) :
    s.left p = false := by
  have hne : p ≠ s.activePCB := fun heq =>
    h.settled.active_not_blocked (heq ▸ hp)
  rw [left_eq_false, h.pop.idle]
  refine ⟨Nat.ne_of_gt (h.pop.blocked p hp).1, ?_⟩
  cases hterm : s.history.terminated p with
  | false => rfl
  | true =>
      have hplaces : s.readyQ.count p + s.blockedQ.count p +
          readerCount s.ttyReadQueues p = 0 :=
        (h.settled.parked p hne).dead hterm
      have hcount := List.count_pos_iff.2 hp
      omega

theorem started {b : Boot} (hb : b.WellFormed) : b.started.Kinship where
  pop := .started hb
  settled := .started hb
  contexts := .started b
  stranded := .started b
  tree := .started hb
  own := .started b
  linked := .started b
  waiting := .started b
  handed := .started b

end Kinship

end Kernel

theorem Reachable.kinship {s : Kernel} (h : Reachable Parental s)
    (hlive : s.Live) : s.Kinship :=
  h.core_invariant (fun _ _ hcore hs => hs.of_core hcore)
    (fun _ _ hguard => hguard.entered) (fun _ hb => .started hb)
    (fun _ _ _ hs henabled hentered _ hguard heffect =>
      hs.effect henabled hentered hguard heffect) hlive

namespace Reachable

variable {s : Kernel} {a : Label}

theorem family (h : Reachable Parental s) (henabled : a.Enabled s)
    (hguard : Parental s a) (hlive : (s.take a).Live) :
    ∃ r, (s.entered a).FamilyEffect r ∧ (s.take a).core = r.core := by
  have hs := (h.kinship henabled.live).of_core (Kernel.entered_core a)
  have hquiet := Reachable.quiescent h henabled.live
  obtain ⟨r, heffect, hcore⟩ :=
    Kernel.take_hasEffect hquiet.sync hquiet.zero_used henabled hlive
  exact ⟨r, heffect.family (Kernel.entered_enabled henabled) hguard.entered
    hs.pop hs.contexts hs.own, hcore⟩

end Reachable

/--
The system calls refine the abstract hand-over: every state shows a desk that
can come about, and every step is matched by steps of the desk.
-/
theorem calls_refine_hand_over {s : Kernel} (h : Reachable Parental s)
    (hlive : s.Live) : Possible s.desk ∧
      ∀ a, a.Enabled s → Parental s a → (s.take a).Live →
        Relation.ReflTransGen HandOver.Step s.desk (s.take a).desk := by
  refine ⟨(h.kinship hlive).handed.desk.possible, fun a henabled hguard hthen => ?_⟩
  obtain ⟨r, hfamily, hcore⟩ := h.family henabled hguard hthen
  have hs := (h.kinship hlive).of_core (Kernel.entered_core a)
  have hdesk {s s' : Kernel} (hcore : s'.core = s.core) : s'.desk = s.desk := by
    rw [← Kernel.desk_core, hcore, Kernel.desk_core]
  have hsteps := (hs.handed.effect hs.pop hs.settled hs.tree hs.linked
    hs.waiting hs.familyQueued hfamily).desk.steps
  rwa [hdesk (Kernel.entered_core a), ← hdesk hcore] at hsteps

/-- A child that is woken for exits, and its desk place follows. -/
theorem calls_refine_hand_over_exit :
    let labels := tick ++ [call (.fork 2), call (.wait true), .resume]
    let s := (Boot.small 30).kernelStart.run labels
    s.place 2 = .working ∧ (s.take (call (.exit 7))).place 2 = .carried ∧
      Relation.ReflTransGen HandOver.Step s.desk (s.take (call (.exit 7))).desk := by
  intro labels s
  have hreach : Reachable Parental s :=
    reachable_small 30 labels (by decide +kernel) (by decide +kernel)
  refine ⟨by decide +kernel, by decide +kernel, ?_⟩
  exact (calls_refine_hand_over hreach (.inl (by decide +kernel))).2 _
    (by decide +kernel) (by decide +kernel) (.inr (by decide +kernel))

/-! ## Where a status is -/

deriving instance DecidableEq for Event

namespace Kernel

/-- A process that waits, or will be able to. -/
def Present (s : Kernel) (p : PcbPtr) : Prop :=
  p ≠ s.idlePCB ∧ s.history.terminated p = false

instance (s : Kernel) (p : PcbPtr) : Decidable (s.Present p) :=
  inferInstanceAs (Decidable (_ ∧ _))

/-- The status `code` of the process `c` is in `defunct_q`, in the blocked code
of its creator, or in the answer of a `Wait` of its creator, and only there. -/
structure InOnePlace (s : Kernel) (c : PcbPtr) (code : Int) : Prop where
  once : s.defunctQ.count c +
    (if s.history.reporter (s.history.creator c) = some c then 1 else 0) +
      (s.reports.map fun e => e.2.1).count c = 1
  kept : c ∈ s.defunctQ → s.pcb.exitCode c = code
  carried : s.history.reporter (s.history.creator c) = some c →
    s.pcb.blockedCode (s.history.creator c) = code ∧
      s.Waking (s.history.creator c) ∧
        (s.pcb.kernelContext (s.history.creator c)).waits = true
  told : ∀ e ∈ s.reports, e.2.1 = c → e = (s.history.creator c, c, code)

end Kernel

/--
Whoever exits while its creator goes on leaves its status in exactly one place:
its PCB in `defunct_q`, the blocked code of the creator that was woken from
`Wait` and has not run yet, or the answer of one completed `Wait` of it.
-/
theorem exit_status_in_one_place {s : Kernel} (h : Reachable Parental s)
    (hlive : s.Live) {c : PcbPtr} {code : Int}
    (hexit : .exit c code ∈ s.history.trace)
    (hparent : s.Present (s.history.creator c)) : s.InOnePlace c code := by
  have hs := h.kinship hlive
  have hsound := hs.handed.desk.sound
  obtain ⟨hmember, hterm, hcode⟩ := hs.handed.ended c code hexit
  have honce : (s.reports.map fun e => e.2.1).count c =
      if s.place c = .taken then 1 else 0 := hsound.once c
  have hleft : s.left (s.history.creator c) = false :=
    Kernel.left_eq_false.2 hparent
  have hreporter (hr : s.history.reporter (s.history.creator c) = some c) :
      s.place c = .carried := (hs.handed.carried _ _ hr).1
  refine ⟨?_, fun hmem => ?_, fun hr => ?_, fun e he hec => ?_⟩
  · rw [honce]
    rcases Kernel.place_of_terminated hmember hterm with hp | hp | hp | hp
    · have hmem := (Kernel.place_kept.1 hp).2.2
      have hcount := List.count_eq_one_of_mem hs.tree.nodup hmem
      have hnot : s.history.reporter (s.history.creator c) ≠ some c :=
        fun hr => by simp [hreporter hr] at hp
      simp [hp, hnot]
      exact hcount
    · have hcarried := Kernel.place_carried.1 hp
      rw [List.count_eq_zero_of_not_mem hcarried.2.2.1]
      simp [hp, hcarried.2.2.2]
    · have hmem : c ∉ s.defunctQ := fun hmem => by
        simp [Kernel.place_kept.2 ⟨hmember, hterm, hmem⟩] at hp
      have hnot : s.history.reporter (s.history.creator c) ≠ some c :=
        fun hr => by simp [hreporter hr] at hp
      rw [List.count_eq_zero_of_not_mem hmem]
      simp [hp, hnot]
    · have hlost : s.left (s.history.creator c) = true := hsound.lost c hp
      simp [hleft] at hlost
  · have hkept := hs.handed.kept c hmem
    exact Option.some.inj (hkept.symm.trans hcode)
  · obtain ⟨-, -, hcarried⟩ := hs.handed.carried _ _ hr
    have hwakes := (hs.waiting.awaits (s.history.creator c)).carries.1
      (by simp [Kernel.waiter, hr])
    exact ⟨Option.some.inj (hcarried.symm.trans hcode), hwakes.1, hwakes.2⟩
  · obtain ⟨hclient, hresult⟩ := hsound.own e he
    have hcreator : s.history.creator e.2.1 = e.1 := hclient
    have hstatus : s.codeOf e.2.1 = some e.2.2 := hresult
    rw [hec] at hcreator hstatus
    have hsame : code = e.2.2 := Option.some.inj (hcode.symm.trans hstatus)
    rw [hcreator, hsame, ← hec]

/-- The first child exits while its creator is ready, the second one while it is
asleep in `Wait`: one status is kept, then one is carried. -/
theorem exit_status_in_one_place_two_children :
    let labels := tick ++ [call (.fork 2), call (.fork 3)] ++ tick ++
      [call (.exit 7), .resume] ++ tick ++ [call (.wait true), call (.wait true),
        .resume, call (.exit 9)]
    let s := (Boot.small 30).kernelStart.run labels
    s.InOnePlace 2 7 ∧ s.InOnePlace 3 9 := by
  intro labels s
  have hreach : Reachable Parental s :=
    reachable_small 30 labels (by decide +kernel) (by decide +kernel)
  have hlive : s.Live := .inr (by decide +kernel)
  exact ⟨exit_status_in_one_place hreach hlive (by decide +kernel)
      (by decide +kernel),
    exit_status_in_one_place hreach hlive (by decide +kernel)
      (by decide +kernel)⟩

/-! ## What `Wait` answers -/

namespace Kernel

variable {s : Kernel} {p c : PcbPtr}

/-- A completed `Wait` of `p` has stored the status that its child `c` exited
with, or it has failed. -/
def Answered (s : Kernel) (p : PcbPtr) (child : Option PcbPtr)
    (status : Option Int) (result : Int) : Prop :=
  (result = Rc.error ∧ child = none ∧ status = none) ∨
    result = 0 ∧ ∃ c code, child = some c ∧ status = some code ∧
      s.history.creator c = p ∧ .exit c code ∈ s.history.trace

theorem mem_reports {code : Int} : (p, c, code) ∈ s.reports ↔
    ∃ result, .waitReturn p (some c) (some code) result ∈ s.history.trace := by
  simp only [reports, List.mem_filterMap]
  constructor
  · rintro ⟨e, he, hreport⟩
    cases e with
    | waitReturn q child status result =>
        cases child <;> cases status <;>
          simp [Event.report] at hreport
        obtain ⟨rfl, rfl, rfl⟩ := hreport
        exact ⟨result, he⟩
    | _ => simp [Event.report] at hreport
  · rintro ⟨result, he⟩
    exact ⟨_, he, rfl⟩

/-- `KernelWait` fails when `num_children` is 0. -/
theorem kernelWait_fails_iff {ctx : UserContext} :
    (s.take (.trap ctx (.kernel (.wait true)))).mode = .user ∧
        (s.take (.trap ctx (.kernel (.wait true)))).reg0 s.activePCB =
          Rc.error ↔ s.pcb.numChildren s.activePCB = 0 := by
  show ((s.enter ctx).kernelWait true).mode = .user ∧
    ((s.enter ctx).kernelWait true).reg0 s.activePCB = Rc.error ↔ _
  unfold kernelWait
  have hsame : (s.enter ctx).pcb.numChildren (s.enter ctx).activePCB =
      s.pcb.numChildren s.activePCB := rfl
  by_cases hzero : s.pcb.numChildren s.activePCB = 0
  · simp only [hsame, hzero, or_true, if_true, iff_true]
    exact ⟨rfl, upd_same _ _ _⟩
  · simp only [hsame, hzero, Bool.not_true, Bool.false_eq_true, or_false,
      if_false, iff_false]
    split
    · rintro ⟨-, hreg⟩
      exact absurd ((upd_same _ _ _).symm.trans hreg) (by decide)
    · rintro ⟨hmode, -⟩
      have hswapped := congrArg Kernel.mode (swapProcess_core
        (s := ((s.enter ctx).setDefunctQ ‹_›).setBlockedCode
          (s.enter ctx).activePCB Blocked.wait) (some .blockedQ)
        (.kernelWait ((s.enter ctx).pcb.pid (s.enter ctx).activePCB)))
      rw [swapped_mode] at hswapped
      exact absurd (hmode.symm.trans hswapped) nofun

theorem exit_of_codeOf {code : Int} (h : s.codeOf c = some code) :
    .exit c code ∈ s.history.trace := by
  obtain ⟨e, he, hcode⟩ := List.mem_filterMap.1 (List.mem_of_getLast? h)
  cases e with
  | exit q code' =>
      simp only [Event.exitOf, Option.ite_none_right_eq_some,
        Option.some.injEq] at hcode
      obtain ⟨rfl, rfl⟩ := hcode
      exact he
  | _ => simp [Event.exitOf] at hcode

end Kernel

/--
Every `Wait` that returns stores the status of one child of the caller that has
exited, or fails and stores nothing.  No child is reported by two of them.
-/
theorem wait_stores_one_status {s : Kernel} (h : Reachable Parental s)
    (hlive : s.Live) :
    (∀ p child status result,
      .waitReturn p child status result ∈ s.history.trace →
        s.Answered p child status result) ∧
      (s.reports.map fun e => e.2.1).Nodup := by
  have hs := h.kinship hlive
  refine ⟨fun p child status result hmem => ?_, hs.handed.desk.sound.log_nodup⟩
  rcases hs.handed.returned p child status result hmem with
    ⟨hchild, hstatus, hresult⟩ | ⟨hresult, c, code, rfl, rfl⟩
  · exact .inl ⟨hresult, hchild, hstatus⟩
  · have hreport : (p, c, code) ∈ s.reports :=
      Kernel.mem_reports.2 ⟨result, hmem⟩
    obtain ⟨hcreator, hcode⟩ := hs.handed.desk.sound.own _ hreport
    exact .inr ⟨hresult, c, code, rfl, rfl, hcreator,
      Kernel.exit_of_codeOf hcode⟩

/-- Both children are reported, one from `defunct_q`. -/
theorem wait_stores_one_status_two_children :
    let labels := tick ++ [call (.fork 2), call (.fork 3)] ++ tick ++
      [call (.exit 7), .resume] ++ tick ++ [call (.wait true), call (.wait true),
        .resume, call (.exit 9), .resume]
    let s := (Boot.small 30).kernelStart.run labels
    s.reports = [(1, 2, 7), (1, 3, 9)] ∧ s.Answered 1 (some 3) (some 9) 0 ∧
      (s.reports.map fun e => e.2.1).Nodup := by
  intro labels s
  have hreach : Reachable Parental s :=
    reachable_small 30 labels (by decide +kernel) (by decide +kernel)
  obtain ⟨hanswered, hnodup⟩ :=
    wait_stores_one_status hreach (.inl (by decide +kernel))
  exact ⟨by decide +kernel, hanswered 1 _ _ _ (by decide +kernel), hnodup⟩

/--
A process asleep in `Wait` has a child that goes on, none in `defunct_q`, and
carries no status: it does not sleep through an exit.
-/
theorem sleeping_parent_is_owed {s : Kernel} (h : Reachable Parental s)
    (hlive : s.Live) {p : PcbPtr} (hp : p ∈ s.blockedQ)
    (hwait : s.pcb.blockedCode p = Blocked.wait) :
    s.history.reporter p = none ∧ (∀ d ∈ s.defunctQ, s.history.creator d ≠ p) ∧
      ∃ c, s.Member c ∧ s.history.creator c = p ∧
        s.history.terminated c = false := by
  have hs := h.kinship hlive
  have hmember := hs.pop.blocked p hp
  have hne : p ≠ s.activePCB := fun heq =>
    hs.settled.active_not_blocked (heq ▸ hp)
  have hready := (hs.settled.blocked_once hp).2
  obtain ⟨hpos, hnone⟩ := hs.waiting.owed p hp hwait
  have hpresent := hs.blocked_present hp
  refine ⟨?_, fun d hd heq => ?_, ?_⟩
  · have hcarries := (hs.waiting.awaits p).carries
    simpa [Kernel.waiter, Kernel.Waking, hready, hne] using hcarries
  · have hlink := hs.linked.ppid_eq (hs.pop.defunct d hd) (.inr hd)
      (heq ▸ hpresent)
    exact hnone d hd (heq ▸ hlink.1)
  · have hcount : s.pcb.numChildren p = (s.kin.children p).card :=
      hs.tree.count p hmember.1 hmember.2 (Kernel.left_eq_false.1 hpresent).2
    obtain ⟨c, hc⟩ := Finset.card_pos.1 (by omega : 0 < (s.kin.children p).card)
    obtain ⟨hlt, hppid, hcounted⟩ := Kin.mem_children.1 hc
    have hzero : c ≠ 0 := fun heq => by
      have hidle := Kernel.ppid_idle hs.pop hs.settled hs.tree
      rw [heq] at hppid
      exact hs.pop.pid_pos p hmember (hppid.symm.trans hidle)
    have hchild : s.Member c := ⟨Nat.pos_of_ne_zero hzero, hlt⟩
    exact ⟨c, hchild, (hs.linked.creator_eq hs.pop hchild hcounted hmember
      hppid).1, hcounted.resolve_right fun hd => hnone c hd hppid⟩

/-- The parent sleeps, and its child runs. -/
theorem sleeping_parent_is_owed_one_child :
    let labels := tick ++ [call (.fork 2), call (.wait true), .resume]
    let s := (Boot.small 30).kernelStart.run labels
    s.activePCB = 2 ∧ s.history.reporter 1 = none ∧
      (∀ d ∈ s.defunctQ, s.history.creator d ≠ 1) ∧
      ∃ c, s.Member c ∧ s.history.creator c = 1 ∧
        s.history.terminated c = false := by
  intro labels s
  have hreach : Reachable Parental s :=
    reachable_small 30 labels (by decide +kernel) (by decide +kernel)
  exact ⟨by decide +kernel, sleeping_parent_is_owed hreach
    (.inl (by decide +kernel)) (by decide +kernel) (by decide +kernel)⟩

/-- `Wait` fails exactly when every child of the caller has been reported. -/
theorem wait_fails_iff {s : Kernel} (h : Reachable Parental s)
    (huser : s.mode = .user) (hne : s.activePCB ≠ s.idlePCB)
    (ctx : UserContext) :
    (s.take (.trap ctx (.kernel (.wait true)))).mode = .user ∧
        (s.take (.trap ctx (.kernel (.wait true)))).reg0 s.activePCB =
          Rc.error ↔
      ∀ c, s.Member c → s.history.creator c = s.activePCB → s.Told c := by
  have hs := h.kinship (.inl huser)
  have hactive := hs.pop.active_member hne
  have hpresent : s.left s.activePCB = false :=
    Kernel.left_eq_false.2 ⟨hne, hs.settled.live⟩
  have hcount : s.pcb.numChildren s.activePCB =
      (s.kin.children s.activePCB).card :=
    hs.tree.count _ hactive.1 hactive.2 hs.settled.live
  have hchild {c : PcbPtr} (hc : s.Member c) (hcounted : s.kin.Counted c) :
      c ∈ s.kin.children s.activePCB ↔ s.history.creator c = s.activePCB := by
    rw [Kin.mem_children]
    refine ⟨fun hmem => ?_, fun heq => ⟨hc.2, ?_, hcounted⟩⟩
    · exact (hs.linked.creator_eq hs.pop hc hcounted hactive hmem.2.1).1
    · exact heq ▸ (hs.linked.ppid_eq hc hcounted (heq ▸ hpresent)).1
  have hplace {c : PcbPtr} (hc : s.Member c)
      (hcreator : s.history.creator c = s.activePCB) :
      s.Told c ↔ ¬ s.kin.Counted c := by
    constructor
    · rintro ⟨e, he, rfl⟩ (hlive | hmem)
      · have htaken := hs.handed.desk.sound.taken_of_mem he
        have hplace : s.place e.2.1 = .working :=
          Kernel.place_working.2 ⟨hc, hlive⟩
        exact absurd (htaken.symm.trans hplace) nofun
      · have htaken := hs.handed.desk.sound.taken_of_mem he
        have hplace : s.place e.2.1 = .kept :=
          Kernel.place_kept.2 ⟨hc, hs.tree.dead _ hmem, hmem⟩
        exact absurd (htaken.symm.trans hplace) nofun
    · intro hgone
      obtain ⟨hterm, hmem⟩ := not_or.1 hgone
      rcases Kernel.place_of_terminated hc (Bool.not_eq_false _ ▸ hterm) with
        hp | hp | hp | hp
      · exact absurd (Kernel.place_kept.1 hp).2.2 hmem
      · have hcarried := (Kernel.place_carried.1 hp).2.2.2
        rw [hcreator, hs.waiting.reporter_active hs.settled huser] at hcarried
        cases hcarried
      · exact hs.handed.desk.sound.mem_of_taken hp
      · have hlost : s.left (s.history.creator c) = true :=
          hs.handed.desk.sound.lost c hp
        simp [hcreator, hpresent] at hlost
  rw [Kernel.kernelWait_fails_iff, hcount]
  constructor
  · intro hzero c hc hcreator
    rw [hplace hc hcreator]
    intro hcounted
    have hpos := Finset.card_pos.2 ⟨c, (hchild hc hcounted).2 hcreator⟩
    omega
  · intro hall
    have hempty : s.kin.children s.activePCB = ∅ := by
      refine Finset.eq_empty_of_forall_notMem fun c hc => ?_
      obtain ⟨hlt, hppid, hcounted⟩ := Kin.mem_children.1 hc
      have hzero : c ≠ 0 := fun heq => by
        have hidle := Kernel.ppid_idle hs.pop hs.settled hs.tree
        rw [heq] at hppid
        exact hs.pop.pid_pos _ hactive (hppid.symm.trans hidle)
      have hmember : s.Member c := ⟨Nat.pos_of_ne_zero hzero, hlt⟩
      have hcreator := (hchild hmember hcounted).1 hc
      exact (hplace hmember hcreator).1 (hall c hmember hcreator) hcounted
    simp [hempty]

/-- The second `Wait` of a process with one child fails. -/
theorem wait_fails_iff_after_two :
    let labels := tick ++ [call (.fork 2), call (.wait true), .resume,
      call (.exit 7), .resume]
    let s := (Boot.small 30).kernelStart.run labels
    (s.take (.trap ⟨0, 0⟩ (.kernel (.wait true)))).mode = .user ∧
      (s.take (.trap ⟨0, 0⟩ (.kernel (.wait true)))).reg0 s.activePCB =
        Rc.error := by
  intro labels s
  have hreach : Reachable Parental s :=
    reachable_small 30 labels (by decide +kernel) (by decide +kernel)
  have huser : s.mode = .user := by decide +kernel
  have htold : ∀ c < s.npcb, s.Member c → s.history.creator c = s.activePCB →
      s.Told c := by decide +kernel
  have hne : s.activePCB ≠ s.idlePCB := by decide +kernel
  have hfails := wait_fails_iff hreach huser hne ⟨0, 0⟩
  exact hfails.2 fun c hc => htold c hc.2 hc

end Yalnix
