import Mathlib.Data.List.Nodup
import Yalnix.Process.ProcessRuns

/-!
# Countdowns

A scan of `TrapClockHandler` examines the processes in `blocked_q` once each.  A
process in `Delay` is counted down by the scans and by nothing else.
-/

namespace Yalnix

namespace Kernel

variable {s r : Kernel} {a : Label} {p : PcbPtr}

/-! ## One scan -/

/-- The processes that the scan hands to `CheckBlocked`, one after another. -/
def examined : Nat → Kernel → List PcbPtr
  | 0, _ => []
  | limit + 1, s =>
      match s.blockedQ with
      | [] => examined limit s
      | p :: rest =>
          let checked := (s.setBlockedQ rest).checkBlocked p
          p :: examined limit (checked.2.queueAdd checked.1 p)

/-- `CheckBlocked` finds the delay of the process at its end. -/
def due (s : Kernel) (p : PcbPtr) : Bool :=
  decide (s.pcb.blockedCode p = Blocked.delay ∧ s.pcb.clockTicks p ≤ 0)

/-- What the scans count down, and where the process is. -/
structure SameDelay (s r : Kernel) (p : PcbPtr) : Prop where
  code : r.pcb.blockedCode p = s.pcb.blockedCode p
  ticks : r.pcb.clockTicks p = s.pcb.clockTicks p
  blocked : p ∈ r.blockedQ ↔ p ∈ s.blockedQ
  ready : p ∈ r.readyQ ↔ p ∈ s.readyQ

theorem SameDelay.trans {s' : Kernel} (h : SameDelay s s' p)
    (h' : SameDelay s' r p) : SameDelay s r p where
  code := h'.code.trans h.code
  ticks := h'.ticks.trans h.ticks
  blocked := h'.blocked.trans h.blocked
  ready := h'.ready.trans h.ready

/-- The recheck of another process. -/
theorem Recheck.sameDelay {q : PcbPtr} (h : Recheck s q r) (hne : p ≠ q) :
    SameDelay s r p := by
  have happend (queue : List PcbPtr) : p ∈ queue ++ [q] ↔ p ∈ queue := by
    simp [hne]
  cases h with
  | ticking => exact ⟨rfl, upd_other hne _ _, happend _, Iff.rfl⟩
  | due => exact ⟨upd_other hne _ _, rfl, Iff.rfl, happend _⟩
  | opened => exact ⟨upd_other hne _ _, rfl, Iff.rfl, happend _⟩
  | closed => exact ⟨rfl, rfl, Iff.rfl, Iff.rfl⟩
  | other => exact ⟨rfl, rfl, happend _, Iff.rfl⟩

theorem Recheck.blockedQ {q : PcbPtr} (h : Recheck s q r) :
    ∃ back, r.blockedQ = s.blockedQ ++ back ∧ ∀ x ∈ back, x = q := by
  cases h with
  | ticking => exact ⟨[q], rfl, fun _ hx => List.mem_singleton.1 hx⟩
  | due => exact ⟨[], (List.append_nil _).symm, nofun⟩
  | opened => exact ⟨[], (List.append_nil _).symm, nofun⟩
  | closed => exact ⟨[], (List.append_nil _).symm, nofun⟩
  | other => exact ⟨[q], rfl, fun _ hx => List.mem_singleton.1 hx⟩

/-- A process that is not among the entries still to be popped. -/
theorem Scanned.sameDelay {limit : Nat} (h : Scanned limit s r)
    {front back : List PcbPtr} (hqueue : s.blockedQ = front ++ back)
    (hlength : front.length = limit) (hp : p ∉ front) :
    SameDelay s r p := by
  induction h generalizing front back with
  | done => exact ⟨rfl, rfl, Iff.rfl, Iff.rfl⟩
  | empty hempty _ _ =>
      rw [hempty] at hqueue
      rw [(List.append_eq_nil_iff.1 hqueue.symm).1] at hlength
      cases hlength
  | @next limit s s' r q rest hcons hcheck _ ih =>
      cases front with
      | nil => cases hlength
      | cons x front =>
          rw [hcons, List.cons_append] at hqueue
          injection hqueue with hx hrest
          subst hx hrest
          have hne : p ≠ q := fun heq => hp (heq ▸ List.mem_cons_self)
          have hpop : SameDelay s (s.setBlockedQ (front ++ back)) p :=
            ⟨rfl, rfl, by rw [hcons]; simp [hne, setBlockedQ], Iff.rfl⟩
          obtain ⟨new, hqueue', -⟩ := hcheck.blockedQ
          have hafter : s'.blockedQ = front ++ (back ++ new) := by
            rw [hqueue', ← List.append_assoc]
            rfl
          exact (hpop.trans (hcheck.sameDelay hne)).trans
            (ih hafter (Nat.succ.inj hlength)
              fun hmem => hp (List.mem_cons_of_mem _ hmem))

/-- A delayed process is counted down once by a scan, or it becomes ready. -/
theorem Scanned.delayed {limit : Nat} (h : Scanned limit s r)
    {front back : List PcbPtr} (hqueue : s.blockedQ = front ++ back)
    (hlength : front.length = limit) (hcount : front.count p = 1)
    (hback : p ∉ back) (hready : p ∉ s.readyQ)
    (hcode : s.pcb.blockedCode p = Blocked.delay) :
    0 < s.pcb.clockTicks p ∧ r.pcb.blockedCode p = Blocked.delay ∧
        r.pcb.clockTicks p = s.pcb.clockTicks p - 1 ∧ p ∈ r.blockedQ ∧
        p ∉ r.readyQ ∨
      s.pcb.clockTicks p ≤ 0 ∧ p ∈ r.readyQ ∧ p ∉ r.blockedQ := by
  induction h generalizing front back with
  | done =>
      rw [List.length_eq_zero_iff.1 hlength] at hcount
      cases hcount
  | empty hempty _ _ =>
      rw [hempty] at hqueue
      rw [(List.append_eq_nil_iff.1 hqueue.symm).1] at hlength
      cases hlength
  | @next limit s s' r q rest hcons hcheck hscan ih =>
      cases front with
      | nil => cases hlength
      | cons x front =>
          rw [hcons, List.cons_append] at hqueue
          injection hqueue with hx hrest
          subst hx hrest
          obtain ⟨new, hqueue', hnew⟩ := hcheck.blockedQ
          have hafter : s'.blockedQ = front ++ (back ++ new) := by
            rw [hqueue', ← List.append_assoc]
            rfl
          by_cases hq : q = p
          · subst hq
            have hfront : q ∉ front := by
              rw [List.count_cons_self] at hcount
              exact List.count_eq_zero.1 (by omega)
            have hrest := hscan.sameDelay hafter (Nat.succ.inj hlength) hfront
            cases hcheck with
            | ticking _ hticks =>
                refine .inl ⟨hticks, hrest.code.trans hcode,
                  hrest.ticks.trans (upd_same _ _ _), hrest.blocked.2 ?_,
                  fun hmem => hready (hrest.ready.1 hmem)⟩
                exact List.mem_append_right _ List.mem_cons_self
            | due _ hticks =>
                refine .inr ⟨Int.not_lt.1 hticks, hrest.ready.2 ?_, ?_⟩
                · exact List.mem_append_right _ List.mem_cons_self
                · rw [hrest.blocked]
                  intro hmem
                  rcases List.mem_append.1 hmem with hmem | hmem
                  · exact hfront hmem
                  · exact hback hmem
            | opened hother => exact absurd (hcode.symm.trans hother) nofun
            | closed hother => exact absurd (hcode.symm.trans hother) nofun
            | other hnot => exact absurd hcode hnot
          · have hsame := hcheck.sameDelay (Ne.symm hq)
            rw [List.count_cons_of_ne hq] at hcount
            have hback' : p ∉ back ++ new := fun hmem => by
              rcases List.mem_append.1 hmem with hmem | hmem
              · exact hback hmem
              · exact hq (hnew p hmem).symm
            have hrest := ih hafter (Nat.succ.inj hlength) hcount hback'
              (fun hmem => hready (hsame.ready.1 hmem))
              (hsame.code.trans hcode)
            rw [hsame.ticks] at hrest
            exact hrest

/-- A process that waits for something else keeps its code. -/
theorem Recheck.waiting {q : PcbPtr} (h : Recheck s q r)
    (hdelay : s.pcb.blockedCode p ≠ Blocked.delay)
    (htransmit : s.pcb.blockedCode p ≠ Blocked.ttyTransmit) :
    r.pcb.blockedCode p = s.pcb.blockedCode p := by
  cases h with
  | due hcode =>
      have hne : p ≠ q := fun heq => hdelay (heq ▸ hcode)
      exact upd_other hne _ _
  | opened hcode =>
      have hne : p ≠ q := fun heq => htransmit (heq ▸ hcode)
      exact upd_other hne _ _
  | _ => rfl

theorem Scanned.waiting {limit : Nat} (h : Scanned limit s r)
    (hdelay : s.pcb.blockedCode p ≠ Blocked.delay)
    (htransmit : s.pcb.blockedCode p ≠ Blocked.ttyTransmit) :
    r.pcb.blockedCode p = s.pcb.blockedCode p := by
  induction h with
  | done => rfl
  | empty _ _ ih => exact ih hdelay htransmit
  | next _ hcheck _ ih =>
      have hsame := hcheck.waiting hdelay htransmit
      rw [ih (hsame.trans_ne hdelay) (hsame.trans_ne htransmit), hsame]
      rfl

/-- The scan pops the entries that were there, in order. -/
theorem examined_eq {limit : Nat} {front back : List PcbPtr}
    (hqueue : s.blockedQ = front ++ back) (hlength : front.length = limit) :
    examined limit s = front := by
  induction limit generalizing s front back with
  | zero =>
      rw [List.length_eq_zero_iff.1 hlength]
      rfl
  | succ limit ih =>
      cases front with
      | nil => cases hlength
      | cons x front =>
          have hcheck := recheck_checkBlocked (s.setBlockedQ (front ++ back)) x
          obtain ⟨new, hqueue', -⟩ := hcheck.blockedQ
          have hafter := hqueue'.trans
            (List.append_assoc front back new)
          rw [examined, hqueue]
          simp only [List.cons_append]
          rw [ih hafter (Nat.succ.inj hlength)]

/-- The entries that are due leave for `ready_q`, the others stay.  Both keep
their order. -/
theorem Scanned.closed {limit : Nat} (h : Scanned limit s r)
    {front back : List PcbPtr} (hqueue : s.blockedQ = front ++ back)
    (hlength : front.length = limit) (hnodup : front.Nodup)
    (hcode : ∀ p ∈ front, s.pcb.blockedCode p ≠ Blocked.ttyTransmit) :
    r.blockedQ = back ++ front.filter (fun p => !s.due p) ∧
      r.readyQ = s.readyQ ++ front.filter s.due := by
  induction h generalizing front back with
  | done =>
      rw [List.length_eq_zero_iff.1 hlength] at hqueue ⊢
      exact ⟨hqueue.trans (List.append_nil _).symm, (List.append_nil _).symm⟩
  | empty hempty _ _ =>
      rw [hempty] at hqueue
      rw [(List.append_eq_nil_iff.1 hqueue.symm).1] at hlength
      cases hlength
  | @next limit s s' r q rest hcons hcheck _ ih =>
      cases front with
      | nil => cases hlength
      | cons x front =>
          rw [hcons, List.cons_append] at hqueue
          injection hqueue with hx hrest
          subst hx hrest
          obtain ⟨hfresh, hnodup'⟩ := List.nodup_cons.1 hnodup
          have hsame (p : PcbPtr) (hp : p ∈ front) : SameDelay s s' p := by
            have hne : p ≠ q := fun heq => hfresh (heq ▸ hp)
            have hcheck' := hcheck.sameDelay hne
            refine ⟨hcheck'.code, hcheck'.ticks, ?_, hcheck'.ready⟩
            rw [hcheck'.blocked, hcons]
            simp [hne, setBlockedQ]
          have hdue (p : PcbPtr) (hp : p ∈ front) : s'.due p = s.due p := by
            unfold due
            rw [(hsame p hp).code, (hsame p hp).ticks]
          have hcode' (p : PcbPtr) (hp : p ∈ front) :
              s'.pcb.blockedCode p ≠ Blocked.ttyTransmit := by
            rw [(hsame p hp).code]
            exact hcode p (List.mem_cons_of_mem _ hp)
          have hleave : front.filter s'.due = front.filter s.due :=
            List.filter_congr hdue
          have hstay : front.filter (fun p => !s'.due p) =
              front.filter (fun p => !s.due p) := by
            apply List.filter_congr
            intro p hp
            rw [hdue p hp]
          obtain ⟨new, hqueue', -⟩ := hcheck.blockedQ
          have hafter : s'.blockedQ = front ++ (back ++ new) := by
            rw [hqueue', ← List.append_assoc]
            rfl
          obtain ⟨hblocked, hready⟩ :=
            ih hafter (Nat.succ.inj hlength) hnodup' hcode'
          rw [hblocked, hready, hleave, hstay, List.filter_cons,
            List.filter_cons]
          cases hcheck with
          | ticking hdelay hticks =>
              have hnot : s.due q = false :=
                decide_eq_false fun h => absurd hticks (Int.not_lt.2 h.2)
              rw [List.append_cancel_left hqueue'.symm, hnot]
              simp only [Bool.not_false, if_true, Bool.false_eq_true, if_false,
                List.append_assoc, List.singleton_append]
              exact ⟨trivial, rfl⟩
          | due hdelay hticks =>
              have hyes : s.due q = true :=
                decide_eq_true ⟨hdelay, Int.not_lt.1 hticks⟩
              have hnew : new = [] := by
                have hself : (front ++ back) ++ [] = (front ++ back) ++ new :=
                  (List.append_nil _).trans hqueue'
                exact (List.append_cancel_left hself).symm
              rw [hnew, hyes]
              simp only [Bool.not_true, Bool.false_eq_true, if_false, if_true,
                List.append_nil]
              refine ⟨trivial, ?_⟩
              show (s.readyQ ++ [q]) ++ _ = _
              rw [List.append_assoc]
              rfl
          | opened hother => exact absurd hother (hcode q List.mem_cons_self)
          | closed hother => exact absurd hother (hcode q List.mem_cons_self)
          | other hnot =>
              have hno : s.due q = false :=
                decide_eq_false fun h => absurd h.1 hnot
              rw [List.append_cancel_left hqueue'.symm, hno]
              simp only [Bool.not_false, if_true, Bool.false_eq_true, if_false,
                List.append_assoc, List.singleton_append]
              exact ⟨trivial, rfl⟩

/-- What a scan does to `blocked_q` and `ready_q`. -/
structure ScansOnce (s r : Kernel) : Prop where
  examined : examined s.blockedQ.length s = s.blockedQ
  nodup : s.blockedQ.Nodup
  stay : r.blockedQ = s.blockedQ.filter fun p => !s.due p
  leave : r.readyQ = s.readyQ ++ s.blockedQ.filter s.due

/-- The processes in `blocked_q` sleep in `Delay` or in `Wait`. -/
def Sleepers (s : Kernel) : Prop :=
  ∀ p ∈ s.blockedQ, s.pcb.blockedCode p = Blocked.delay ∨
    s.pcb.blockedCode p = Blocked.wait

theorem Sleepers.code (h : s.Sleepers) :
    ∀ p ∈ s.blockedQ, s.pcb.blockedCode p ≠ Blocked.ttyTransmit := by
  intro p hp hcode
  rcases h p hp with hdelay | hwait
  · rw [hdelay] at hcode
    cases hcode
  · rw [hwait] at hcode
    cases hcode

/-! ## Every step -/

/-- The step goes on behind the switch of a clock trap, with the scan. -/
def scansAt (s : Kernel) : Label → Bool
  | .resume => (s.pcb.kernelContext s.activePCB).scans
  | .trap _ _ => false

theorem scansAt_goesOn
    (h : (s.pcb.kernelContext s.activePCB).goesOn = true) :
    s.scansAt .resume = false := by
  unfold scansAt
  cases hctx : s.pcb.kernelContext s.activePCB with
  | trapClockHandler =>
      rw [hctx] at h
      cases h
  | _ => rfl

theorem scansAt_waits {pid : Nat}
    (h : s.pcb.kernelContext s.activePCB = .kernelWait pid) :
    s.scansAt .resume = false := by
  unfold scansAt
  rw [h]
  rfl

/-- The processes that stay blocked keep their order, and others come behind
them. -/
def KeepsOrder (s r : Kernel) : Prop :=
  ∃ stay added, r.blockedQ = stay ++ added ∧ stay.Sublist s.blockedQ ∧
    ∀ q ∈ added, q ∉ s.blockedQ

theorem KeepsOrder.of_sublist (h : r.blockedQ.Sublist s.blockedQ) :
    KeepsOrder s r :=
  ⟨r.blockedQ, [], (List.append_nil _).symm, h, nofun⟩

theorem swapped_blockedQ {q : Option QueueRef} {k : KernelContext}
    (hpop : Population s) : (s.swapped q k).blockedQ =
      if q = some .blockedQ ∧ s.activePCB ≠ s.idlePCB then
        s.blockedQ ++ [s.activePCB]
      else s.blockedQ := by
  by_cases heq : s.activePCB = s.idlePCB
  · rw [hpop.swapped_of_eq heq, if_neg fun h => h.2 heq]
    rfl
  · rw [hpop.swapped_of_ne heq]
    rcases q with _ | ref
    · rw [if_neg fun h => nomatch h.1]
      rfl
    · cases ref with
      | blockedQ =>
          rw [if_pos ⟨rfl, heq⟩]
          rfl
      | _ =>
          rw [if_neg fun h => nomatch h.1]
          rfl

end Kernel

theorem Settled.active_not_blocked {s : Kernel} (h : Settled s) :
    s.activePCB ∉ s.blockedQ := by
  have hsum : s.readyQ.count s.activePCB + s.blockedQ.count s.activePCB +
      readerCount s.ttyReadQueues s.activePCB = 0 := h.active
  exact List.count_eq_zero.1 (by omega)

theorem Settled.active_not_ready {s : Kernel} (h : Settled s) :
    s.activePCB ∉ s.readyQ := by
  have hsum : s.readyQ.count s.activePCB + s.blockedQ.count s.activePCB +
      readerCount s.ttyReadQueues s.activePCB = 0 := h.active
  exact List.count_eq_zero.1 (by omega)

theorem Settled.blocked_once {s : Kernel} (h : Settled s) {p : PcbPtr}
    (hp : p ∈ s.blockedQ) : s.blockedQ.count p = 1 ∧ p ∉ s.readyQ := by
  have hne : p ≠ s.activePCB := fun heq => h.active_not_blocked (heq ▸ hp)
  have honce : s.readyQ.count p + s.blockedQ.count p +
      readerCount s.ttyReadQueues p ≤ 1 := (h.parked p hne).once
  have hpos := List.count_pos_iff.2 hp
  exact ⟨by omega, List.count_eq_zero.1 (by omega)⟩

theorem Settled.blocked_nodup {s : Kernel} (h : Settled s) :
    s.blockedQ.Nodup := by
  rw [List.nodup_iff_count_le_one]
  intro p
  by_cases hp : p ∈ s.blockedQ
  · exact Nat.le_of_eq (h.blocked_once hp).1
  · rw [List.count_eq_zero_of_not_mem hp]
    exact Nat.zero_le 1

namespace Kernel

variable {s r : Kernel} {a : Label} {p : PcbPtr}

/-- The active process is switched away, to `blocked_q` or not. -/
theorem KeepsOrder.swapped {s' : Kernel} {q : Option QueueRef}
    {k : KernelContext} (hpop : Population s')
    (hsub : s'.blockedQ.Sublist s.blockedQ)
    (hactive : s'.activePCB ∉ s.blockedQ) :
    KeepsOrder s (s'.swapped q k) := by
  have hqueue := swapped_blockedQ (s := s') (q := q) (k := k) hpop
  split at hqueue
  · refine ⟨s'.blockedQ, [s'.activePCB], hqueue, hsub, ?_⟩
    intro x hx
    rw [List.mem_singleton.1 hx]
    exact hactive
  · apply KeepsOrder.of_sublist
    rw [hqueue]
    exact hsub

theorem ProcessEffect.keepsOrder (heffect : s.ProcessEffect a r)
    (hpop : Population s) (hsettled : Settled s) (hsleepers : s.Sleepers) :
    KeepsOrder s r := by
  have hactive := hsettled.active_not_blocked
  have hsame : s.blockedQ.Sublist s.blockedQ := List.Sublist.refl _
  cases heffect with
  | @exit _ code =>
      have hc := s.exitCleanup_cleaned code
      have hpop' : Population ((s.exitCleanup code).2.setTerminated
          s.activePCB) := { hpop.exitCleanup code with }
      refine .swapped hpop' (s.exitCleanup_blocked code) ?_
      show (s.exitCleanup code).2.activePCB ∉ s.blockedQ
      rw [hc.active]
      exact hactive
  | @waitSleeps _ queue _ _ hreap =>
      have hpop' : Population ((s.setDefunctQ queue).setBlockedCode
          s.activePCB Blocked.wait) :=
        { hpop with
          defunct := fun p hp => hpop.defunct p ((reapLoop_none hreap).1 ▸ hp) }
      exact .swapped hpop' hsame hactive
  | @delay _ ticks =>
      have hpop' : Population ((s.setClockTicks s.activePCB
          ticks).setBlockedCode s.activePCB Blocked.delay) := { hpop with }
      exact .swapped hpop' hsame hactive
  | clock => exact .swapped hpop hsame hactive
  | @clockResumes r' _ hscan =>
      obtain ⟨hqueue, -⟩ := hscan.closed (List.append_nil _).symm rfl
        hsettled.blocked_nodup hsleepers.code
      apply KeepsOrder.of_sublist
      show r'.blockedQ.Sublist s.blockedQ
      rw [hqueue, List.nil_append]
      exact List.filter_sublist
  | _ => exact .of_sublist hsame

theorem ProcessEffect.scansOnce (heffect : s.ProcessEffect a r)
    (hsettled : Settled s) (hsleepers : s.Sleepers)
    (hscans : s.scansAt a = true) : ScansOnce s r := by
  cases heffect with
  | returns hgoes =>
      rw [scansAt_goesOn hgoes] at hscans
      cases hscans
  | waitResumes hctx =>
      rw [scansAt_waits hctx] at hscans
      cases hscans
  | waitResumesOther hctx =>
      rw [scansAt_waits hctx] at hscans
      cases hscans
  | @clockResumes r' _ hscan =>
      obtain ⟨hstay, hleave⟩ := hscan.closed (List.append_nil _).symm rfl
        hsettled.blocked_nodup hsleepers.code
      rw [List.nil_append] at hstay
      exact {
        examined := examined_eq (List.append_nil _).symm rfl
        nodup := hsettled.blocked_nodup
        stay := hstay
        leave := hleave }
  | _ => cases hscans

/-! ## The sleepers -/

namespace Sleepers

theorem of_core (h : s.Sleepers) (hcore : r.core = s.core) : r.Sleepers := by
  have hs : s.core.Sleepers := h
  rw [← hcore] at hs
  exact hs

/-- The codes of the processes that stay in `blocked_q` are as they were. -/
theorem of_same (h : s.Sleepers) (hqueue : ∀ p ∈ r.blockedQ, p ∈ s.blockedQ)
    (hcode : ∀ p ∈ r.blockedQ, r.pcb.blockedCode p = s.pcb.blockedCode p) :
    r.Sleepers := by
  intro p hp
  rw [hcode p hp]
  exact h p (hqueue p hp)

theorem swapped {q : Option QueueRef} {k : KernelContext} (h : s.Sleepers)
    (hpop : Population s)
    (hactive : q = some .blockedQ →
      s.pcb.blockedCode s.activePCB = Blocked.delay ∨
        s.pcb.blockedCode s.activePCB = Blocked.wait) :
    (s.swapped q k).Sleepers := by
  intro p hp
  rw [swapped_blockedQ hpop] at hp
  rw [swapped_pcb]
  show s.pcb.blockedCode p = _ ∨ s.pcb.blockedCode p = _
  split at hp
  · rename_i hq
    rcases List.mem_append.1 hp with hp | hp
    · exact h p hp
    · rw [List.mem_singleton.1 hp]
      exact hactive hq.1
  · exact h p hp

/-- The active process gets a code to sleep with. -/
theorem setBlockedCode (h : s.Sleepers) (hsettled : Settled s) (code : Int) :
    (s.setBlockedCode s.activePCB code).Sleepers := by
  apply h.of_same (r := s.setBlockedCode s.activePCB code) fun _ hp => hp
  intro p hp
  have hne : p ≠ s.activePCB :=
    fun heq => hsettled.active_not_blocked (heq ▸ hp)
  exact upd_other hne _ _

theorem scanned (h : s.Sleepers) (hsettled : Settled s)
    (hscan : Scanned s.blockedQ.length s r) : r.Sleepers := by
  obtain ⟨hqueue, -⟩ := hscan.closed (List.append_nil _).symm rfl
    hsettled.blocked_nodup h.code
  rw [List.nil_append] at hqueue
  intro p hp
  rw [hqueue] at hp
  obtain ⟨hp, hstays⟩ := List.mem_filter.1 hp
  obtain ⟨hcount, hready⟩ := hsettled.blocked_once hp
  rcases h p hp with hdelay | hwait
  · rcases hscan.delayed (List.append_nil _).symm rfl hcount List.not_mem_nil
      hready hdelay with ⟨-, hcode, -⟩ | ⟨hticks, -⟩
    · exact .inl hcode
    · have hdue : s.due p = true := decide_eq_true ⟨hdelay, hticks⟩
      rw [hdue] at hstays
      cases hstays
  · right
    rw [hscan.waiting (by rw [hwait]; decide) (by rw [hwait]; decide)]
    exact hwait

theorem exitCleanup (h : s.Sleepers) (hsettled : Settled s) (code : Int) :
    ((s.exitCleanup code).2.setTerminated s.activePCB).Sleepers := by
  obtain ⟨woken, hready, -, hcode⟩ := s.exitCleanup_woken code
  have hc := s.exitCleanup_cleaned code
  have hsub := (s.exitCleanup_blocked code).subset
  apply h.of_same fun _ hp => hsub hp
  intro p hp
  apply hcode p
  intro hwoken
  -- a woken process has left `blocked_q`
  obtain ⟨hcount, hnot⟩ := hsettled.blocked_once (hsub hp)
  have hsum := hc.count p
  rw [hready, List.count_append, List.count_eq_zero_of_not_mem hnot, hcount]
    at hsum
  have hone := List.count_pos_iff.2 hwoken
  have htwo : 0 < (s.exitCleanup code).2.blockedQ.count p :=
    List.count_pos_iff.2 hp
  omega

theorem effect (h : s.Sleepers) (hpop : Population s) (hsettled : Settled s)
    (heffect : s.ProcessEffect a r) : r.Sleepers := by
  have hsame : s.Sleepers := h
  have hmade (p : PcbPtr) (hp : p ∈ s.blockedQ) :
      upd s.pcb.blockedCode s.npcb Blocked.notBlocked p =
        s.pcb.blockedCode p :=
    upd_other (Nat.ne_of_lt (hpop.blocked p hp).2) _ _
  cases heffect with
  | fork => exact h.of_same (fun _ hp => hp) hmade
  | forkFails => exact h.of_same (fun _ hp => hp) hmade
  | @exit _ code =>
      have hpop' : Population ((s.exitCleanup code).2.setTerminated
          s.activePCB) := { hpop.exitCleanup code with }
      apply (h.exitCleanup hsettled code).swapped hpop'
      intro hq
      rcases (s.exitCleanup_cleaned code).swapQ with hnone | hdefunct
      · rw [hnone] at hq
        cases hq
      · rw [hdefunct] at hq
        cases hq
  | @waitSleeps _ queue _ _ hreap =>
      have hpop' : Population ((s.setDefunctQ queue).setBlockedCode
          s.activePCB Blocked.wait) :=
        { hpop with
          defunct := fun p hp => hpop.defunct p ((reapLoop_none hreap).1 ▸ hp) }
      exact (h.setBlockedCode hsettled _).swapped (s := (s.setDefunctQ
        queue).setBlockedCode s.activePCB Blocked.wait) hpop'
        fun _ => .inr (upd_same _ _ _)
  | waitResumes => exact h.setBlockedCode hsettled _
  | @delay _ ticks =>
      have hpop' : Population ((s.setClockTicks s.activePCB
          ticks).setBlockedCode s.activePCB Blocked.delay) := { hpop with }
      exact (h.setBlockedCode hsettled _).swapped (s := (s.setClockTicks
        s.activePCB ticks).setBlockedCode s.activePCB Blocked.delay) hpop'
        fun _ => .inl (upd_same _ _ _)
  | clock => exact h.swapped hpop nofun
  | clockResumes _ hscan =>
      have hscanned := h.scanned hsettled hscan
      exact hscanned
  | _ => exact hsame

end Sleepers

/-! ## Asleep in a delay -/

/-- The process is asleep in `Delay` with so many ticks left. -/
structure Delayed (p : PcbPtr) (ticks : Int) (s : Kernel) : Prop where
  code : s.pcb.blockedCode p = Blocked.delay
  blocked : p ∈ s.blockedQ
  ready : p ∉ s.readyQ
  active : p ≠ s.activePCB
  left : s.pcb.clockTicks p = ticks

namespace Delayed

variable {ticks : Int}

theorem of_core (h : Delayed p ticks s) (hcore : r.core = s.core) :
    Delayed p ticks r := by
  have hs : Delayed p ticks s.core := { h with }
  rw [← hcore] at hs
  exact { hs with }

theorem of_same (h : Delayed p ticks s) (hsame : SameDelay s r p)
    (hactive : r.activePCB = s.activePCB) : Delayed p ticks r where
  code := hsame.code.trans h.code
  blocked := hsame.blocked.2 h.blocked
  ready := mt hsame.ready.1 h.ready
  active := hactive ▸ h.active
  left := hsame.ticks.trans h.left

/-- Another process leaves the processor. -/
theorem swapped {q : Option QueueRef} {k : KernelContext}
    (h : Delayed p ticks s) (hpop : Population s) :
    Delayed p ticks (s.swapped q k) := by
  have hidle : p ≠ s.idlePCB := by
    intro heq
    have hpos := (hpop.blocked p h.blocked).1
    rw [heq, hpop.idle] at hpos
    exact Nat.lt_irrefl 0 hpos
  have hnext : p ≠ s.nextProcess := by
    unfold nextProcess
    cases hready : s.readyQ with
    | nil => exact hidle
    | cons n rest =>
        intro heq
        exact h.ready (hready ▸ heq ▸ List.mem_cons_self)
  have hswitched (q : Option QueueRef) :
      p ∈ (s.switched q k).blockedQ ∧ p ∉ (s.switched q k).readyQ ∧
        p ≠ (s.switched q k).activePCB := by
    have htail : p ∉ s.readyQ.tail := mt List.mem_of_mem_tail h.ready
    have hadd : p ∉ s.readyQ.tail ++ [s.activePCB] := by
      intro hmem
      rcases List.mem_append.1 hmem with hmem | hmem
      · exact htail hmem
      · exact h.active (List.mem_singleton.1 hmem)
    rw [Placement.switched_active]
    rcases q with _ | ref
    · exact ⟨h.blocked, htail, hnext⟩
    · cases ref with
      | readyQ => exact ⟨h.blocked, hadd, hnext⟩
      | blockedQ => exact ⟨List.mem_append_left _ h.blocked, htail, hnext⟩
      | _ => exact ⟨h.blocked, htail, hnext⟩
  have hplace : p ∈ (s.swapped q k).blockedQ ∧ p ∉ (s.swapped q k).readyQ ∧
      p ≠ (s.swapped q k).activePCB := by
    by_cases heq : s.activePCB = s.idlePCB
    · rw [hpop.swapped_of_eq heq]
      exact hswitched none
    · rw [hpop.swapped_of_ne heq]
      exact hswitched q
  refine ⟨?_, hplace.1, hplace.2.1, hplace.2.2, ?_⟩
  · rw [swapped_pcb]
    exact h.code
  · rw [swapped_pcb]
    exact h.left

/-- Waiting parents are woken, a delayed process is not. -/
theorem exitCleanup (h : Delayed p ticks s) (hsettled : Settled s)
    (code : Int) :
    Delayed p ticks ((s.exitCleanup code).2.setTerminated s.activePCB) := by
  have hc := s.exitCleanup_cleaned code
  obtain ⟨woken, hready, hwoken, hcode⟩ := s.exitCleanup_woken code
  have hasleep : p ∉ woken := by
    intro hmem
    have hwait := (hwoken p hmem).2
    rw [h.code] at hwait
    cases hwait
  have hnot : p ∉ (s.exitCleanup code).2.readyQ := by
    rw [hready]
    intro hmem
    rcases List.mem_append.1 hmem with hmem | hmem
    · exact h.ready hmem
    · exact hasleep hmem
  have hmem : p ∈ (s.exitCleanup code).2.blockedQ := by
    have hcount := hc.count p
    rw [List.count_eq_zero_of_not_mem hnot,
      (hsettled.blocked_once h.blocked).1] at hcount
    exact List.count_pos_iff.1 (by omega)
  have hticks := congrFun (s.exitCleanup_ticks code) p
  refine h.of_same ⟨hcode p hasleep, hticks, ?_, ?_⟩ hc.active
  · exact ⟨fun _ => h.blocked, fun _ => hmem⟩
  · exact ⟨fun h' => absurd h' hnot, fun h' => absurd h' h.ready⟩

/-- A scan counts the process down, or makes it ready. -/
theorem scanned (h : Delayed p ticks s) (hsettled : Settled s)
    (hscan : Scanned s.blockedQ.length s r) :
    0 < ticks ∧ Delayed p (ticks - 1) r ∨
      ticks ≤ 0 ∧ p ∈ r.readyQ ∧ p ∉ r.blockedQ := by
  have hcount := (hsettled.blocked_once h.blocked).1
  rcases hscan.delayed (List.append_nil _).symm rfl hcount List.not_mem_nil
    h.ready h.code with ⟨hpos, hcode, hticks, hblocked, hready⟩ | hdue
  · refine .inl ⟨h.left ▸ hpos, hcode, hblocked, hready, ?_, h.left ▸ hticks⟩
    rw [(Placement.scanned_same hscan).active]
    exact h.active
  · exact .inr ⟨h.left ▸ hdue.1, hdue.2⟩

/-- Only the scans count a delayed process down. -/
theorem effect (h : Delayed p ticks s) (hpop : Population s)
    (hsettled : Settled s) (heffect : s.ProcessEffect a r) :
    if s.scansAt a = true then
      0 < ticks ∧ Delayed p (ticks - 1) r ∨
        ticks ≤ 0 ∧ p ∈ r.readyQ ∧ p ∉ r.blockedQ
    else Delayed p ticks r := by
  have hsame : SameDelay s s p := ⟨rfl, rfl, Iff.rfl, Iff.rfl⟩
  have hmade : p ≠ s.npcb := Nat.ne_of_lt (hpop.blocked p h.blocked).2
  have hchild : SameDelay s (s.newProcess (some s.activePCB) 0) p :=
    ⟨upd_other hmade _ _, upd_other hmade _ _, Iff.rfl, Iff.rfl⟩
  cases heffect with
  | returns hgoes =>
      rw [scansAt_goesOn hgoes]
      exact h.of_same { hsame with } rfl
  | fork =>
      have happend : p ∈ s.readyQ ++ [s.npcb] ↔ p ∈ s.readyQ := by
        simp [hmade]
      exact h.of_same { hchild with ready := happend } rfl
  | forkFails => exact h.of_same { hchild with } rfl
  | @exit _ code =>
      have hpop' : Population ((s.exitCleanup code).2.setTerminated
          s.activePCB) := { hpop.exitCleanup code with }
      exact (h.exitCleanup hsettled code).swapped hpop'
  | @waitSleeps _ queue _ _ hreap =>
      have hpop' : Population ((s.setDefunctQ queue).setBlockedCode
          s.activePCB Blocked.wait) :=
        { hpop with
          defunct := fun p hp => hpop.defunct p ((reapLoop_none hreap).1 ▸ hp) }
      have hset : Delayed p ticks ((s.setDefunctQ queue).setBlockedCode
          s.activePCB Blocked.wait) :=
        h.of_same { hsame with code := upd_other h.active _ _ } rfl
      exact hset.swapped hpop'
  | waitResumes hctx =>
      rw [scansAt_waits hctx]
      exact h.of_same { hsame with code := upd_other h.active _ _ } rfl
  | waitResumesOther hctx =>
      rw [scansAt_waits hctx]
      exact h.of_same { hsame with } rfl
  | @delay _ n =>
      have hpop' : Population ((s.setClockTicks s.activePCB
          n).setBlockedCode s.activePCB Blocked.delay) := { hpop with }
      have hset : Delayed p ticks ((s.setClockTicks s.activePCB
          n).setBlockedCode s.activePCB Blocked.delay) :=
        h.of_same { hsame with
          code := upd_other h.active _ _
          ticks := upd_other h.active _ _ } rfl
      exact hset.swapped hpop'
  | clock => exact h.swapped hpop
  | @clockResumes r' hctx hscan =>
      have hscans : s.scansAt .resume = true :=
        congrArg KernelContext.scans hctx
      rw [hscans]
      rcases h.scanned hsettled hscan with ⟨hpos, hnext⟩ | hdue
      · exact .inl ⟨hpos, { hnext with }⟩
      · exact .inr hdue
  | _ => exact h.of_same { hsame with } rfl

/-- The caller of `Delay` goes to sleep with the ticks that it asked for. -/
theorem of_delay (ticks : Int) (hpop : Population s) (hsettled : Settled s)
    (hne : s.activePCB ≠ s.idlePCB) :
    Delayed s.activePCB ticks (((s.setClockTicks s.activePCB
      ticks).setBlockedCode s.activePCB Blocked.delay).swapped
        (some .blockedQ) .kernelDelay) := by
  let s₁ := (s.setClockTicks s.activePCB ticks).setBlockedCode s.activePCB
    Blocked.delay
  have hpop₁ : Population s₁ := { hpop with }
  have hready : s.activePCB ∉ s.readyQ := hsettled.active_not_ready
  have hnext : s.activePCB ≠ s₁.nextProcess := by
    show s.activePCB ≠ s.readyQ.headD s.idlePCB
    cases hcons : s.readyQ with
    | nil => exact hne
    | cons n rest =>
        intro heq
        exact hready (hcons ▸ heq ▸ List.mem_cons_self)
  have hswapped : s₁.swapped (some .blockedQ) .kernelDelay =
      s₁.switched (some .blockedQ) .kernelDelay := hpop₁.swapped_of_ne hne
  refine ⟨?_, ?_, ?_, ?_, ?_⟩
  · rw [swapped_pcb]
    exact upd_same _ _ _
  · show _ ∈ (s₁.swapped _ _).blockedQ
    rw [hswapped]
    exact List.mem_append_right _ List.mem_cons_self
  · show _ ∉ (s₁.swapped _ _).readyQ
    rw [hswapped]
    exact mt List.mem_of_mem_tail hready
  · show _ ≠ (s₁.swapped _ _).activePCB
    rw [hswapped, Placement.switched_active]
    exact hnext
  · rw [swapped_pcb]
    exact upd_same _ _ _

end Delayed

/-! ## Runs -/

/-- The scans in a run. -/
def scansIn : Kernel → List Label → Nat
  | _, [] => 0
  | s, a :: rest =>
      (if s.scansAt a = true then 1 else 0) + scansIn (s.take a) rest

theorem scansAt_entered (s : Kernel) (a : Label) :
    (s.entered a).scansAt a = s.scansAt a := by
  cases a with
  | trap ctx t => rfl
  | resume => rfl

end Kernel

theorem Reachable.sleepers {s : Kernel}
    (h : Reachable (fun _ a => a.ofProcesses = true) s) (hlive : s.Live) :
    s.Sleepers := by
  refine (h.core_invariant
    (P := fun s => (Population s ∧ Settled s ∧ s.ProcessContexts) ∧ s.Sleepers)
    (fun _ _ hcore hs => ⟨⟨hs.1.1.of_core hcore, hs.1.2.1.of_core hcore,
      hs.1.2.2.of_core hcore⟩, hs.2.of_core hcore⟩)
    (fun _ _ h => h) ?_ ?_ hlive).2
  · intro b hb
    exact ⟨⟨Population.started hb, Settled.started hb,
      Kernel.ProcessContexts.started b⟩, nofun⟩
  · intro s a r ⟨⟨hpop, hsettled, hcontexts⟩, hsleepers⟩ henabled _ _ ha
      heffect
    have horderly := hcontexts.orderly ha
    have hprocess := heffect.process ha hcontexts
    exact ⟨⟨hpop.effect horderly.clean heffect,
      hsettled.effect hpop henabled horderly heffect,
      hcontexts.effect hpop hprocess⟩,
      hsleepers.effect hpop hsettled hprocess⟩

theorem Kernel.Delayed.take {guard : Kernel → Label → Prop}
    (himp : ∀ s a, guard s a → a.ofProcesses = true) {s : Kernel} {a : Label}
    (hreach : Reachable guard s) (ha : guard s a) (henabled : a.Enabled s)
    (hlive : (s.take a).Live) {p : PcbPtr} {ticks : Int}
    (h : Delayed p ticks s) :
    if s.scansAt a = true then
      0 < ticks ∧ Delayed p (ticks - 1) (s.take a) ∨
        ticks ≤ 0 ∧ p ∈ (s.take a).readyQ ∧ p ∉ (s.take a).blockedQ
    else Delayed p ticks (s.take a) := by
  obtain ⟨hpop, hsettled, -⟩ := hreach.processes himp henabled.live
  obtain ⟨r, heffect, hcore⟩ := hreach.take_process himp ha henabled hlive
  have hentered := Kernel.entered_core (s := s) a
  have hnext := (h.of_core hentered).effect (hpop.of_core hentered)
    (hsettled.of_core hentered) heffect
  rw [Kernel.scansAt_entered] at hnext
  split at hnext
  · rename_i hscans
    rw [if_pos hscans]
    rcases hnext with ⟨hpos, hnext⟩ | ⟨hdue, hready, hblocked⟩
    · exact .inl ⟨hpos, hnext.of_core hcore⟩
    · have hreadyQ := (congrArg Kernel.readyQ hcore :)
      have hblockedQ := (congrArg Kernel.blockedQ hcore :)
      exact .inr ⟨hdue, hreadyQ ▸ hready, hblockedQ ▸ hblocked⟩
  · rename_i hscans
    rw [if_neg hscans]
    exact hnext.of_core hcore

theorem Kernel.Delayed.run {guard : Kernel → Label → Prop}
    (himp : ∀ s a, guard s a → a.ofProcesses = true) {s : Kernel}
    (hreach : Reachable guard s) {p : PcbPtr} {ticks : Int}
    (h : Delayed p ticks s) (labels : List Label)
    (hadmits : s.Admits guard labels) (hlive : (s.run labels).Live)
    (hscans : s.scansIn labels ≤ ticks) :
    Delayed p (ticks - s.scansIn labels) (s.run labels) := by
  induction labels generalizing s ticks with
  | nil =>
      show Delayed p (ticks - 0) s
      rw [Int.sub_zero]
      exact h
  | cons a rest ih =>
      obtain ⟨⟨henabled, hguard⟩, hrest⟩ := hadmits
      have hgoes : (s.take a).Live := by
        cases rest with
        | nil => exact hlive
        | cons b rest => exact hrest.1.1.live
      have hnext := h.take himp hreach hguard henabled hgoes
      have hreach' : Reachable guard (s.take a) :=
        .next hreach hguard (.take henabled)
      simp only [Kernel.scansIn] at hscans ⊢
      split at hnext
      · rename_i hscan
        rw [if_pos hscan] at hscans ⊢
        rcases hnext with ⟨-, hnext⟩ | ⟨hdue, -⟩
        · have hdelayed := ih hreach' hnext hrest hlive (by omega)
          rw [Int.sub_sub] at hdelayed
          push_cast
          exact hdelayed
        · omega
      · rename_i hscan
        rw [if_neg hscan] at hscans ⊢
        rw [Nat.zero_add] at hscans ⊢
        exact ih hreach' hnext hrest hlive hscans

/-- The caller of `Delay` after its call. -/
theorem Reachable.delay_sleeps {s : Kernel}
    (h : Reachable (fun _ a => a.ofProcesses = true) s)
    {ctx : UserContext} {n : Int}
    (henabled : (Label.trap ctx (.kernel (.delay n))).Enabled s) (hn : 0 < n)
    (hlive : (s.take (.trap ctx (.kernel (.delay n)))).Live) :
    (s.take (.trap ctx (.kernel (.delay n)))).Delayed s.activePCB n := by
  obtain ⟨hpop, hsettled, -⟩ := h.processes (fun _ _ h => h) henabled.live
  obtain ⟨r, heffect, hcore⟩ :=
    h.take_process (fun _ _ h => h) rfl henabled hlive
  cases heffect with
  | refused hrefused => exact absurd hn (Int.not_lt.2 hrefused)
  | delay hne _ =>
      have hdelayed := Kernel.Delayed.of_delay (s := s.enter ctx) n
        { hpop with } (hsettled.of_core rfl) hne
      exact hdelayed.of_core hcore

theorem Reachable.orderly_scan {s : Kernel} {a : Label}
    (h : Reachable (fun _ a => a.ofProcesses = true) s)
    (ha : a.ofProcesses = true) (henabled : a.Enabled s)
    (hlive : (s.take a).Live) :
    s.KeepsOrder (s.take a) ∧
      (s.scansAt a = true → s.ScansOnce (s.take a)) := by
  obtain ⟨hpop, hsettled, -⟩ := h.processes (fun _ _ h => h) henabled.live
  have hsleepers := h.sleepers henabled.live
  obtain ⟨r, heffect, hcore⟩ :=
    h.take_process (fun _ _ h => h) ha henabled hlive
  have hentered := Kernel.entered_core (s := s) a
  have hreadyQ := (congrArg Kernel.readyQ hcore :)
  have hblockedQ := (congrArg Kernel.blockedQ hcore :)
  have hsettled' := hsettled.of_core hentered
  have hsleepers' := hsleepers.of_core hentered
  constructor
  · obtain ⟨stay, added, hqueue, hsub, hnew⟩ :=
      heffect.keepsOrder (hpop.of_core hentered) hsettled' hsleepers'
    have hqueue' := (congrArg Kernel.blockedQ hentered :)
    exact ⟨stay, added, hblockedQ.trans hqueue, hqueue' ▸ hsub, hqueue' ▸ hnew⟩
  · intro hscan
    cases a with
    | trap ctx t => cases hscan
    | resume =>
        have honce := heffect.scansOnce hsettled' hsleepers' hscan
        exact { honce with
          stay := hblockedQ.trans honce.stay
          leave := hreadyQ.trans honce.leave }

/--
In every run of processes, the caller of `Delay(n)` sleeps through `n` scans, its
ticks counted down by each, and the scan after them makes it ready.  Every step
keeps the order of the blocked processes, and every scan examines each of them
once and leaves it in one of the two queues.
-/
theorem delay_ends_at_its_scan {s : Kernel}
    (h : Reachable (fun _ a => a.ofProcesses = true) s) :
    (∀ (ctx : UserContext) (n : Int) (labels : List Label), 0 < n →
      s.Admits (fun _ a => a.ofProcesses = true)
        (.trap ctx (.kernel (.delay n)) :: labels) →
      (s.run (.trap ctx (.kernel (.delay n)) :: labels)).Live →
      let r := s.run (.trap ctx (.kernel (.delay n)) :: labels)
      let scans := (s.take (.trap ctx (.kernel (.delay n)))).scansIn labels
      (scans ≤ n → r.Delayed s.activePCB (n - scans)) ∧
      (scans = n → ∀ a, a.ofProcesses = true → a.Enabled r →
        (r.take a).Live → r.scansAt a = true →
        s.activePCB ∈ (r.take a).readyQ ∧
          s.activePCB ∉ (r.take a).blockedQ)) ∧
    ∀ a, a.ofProcesses = true → a.Enabled s → (s.take a).Live →
      s.KeepsOrder (s.take a) ∧
        (s.scansAt a = true → s.ScansOnce (s.take a)) := by
  constructor
  · intro ctx n labels hn hadmits hlive r scans
    obtain ⟨⟨henabled, hguard⟩, hrest⟩ := hadmits
    have hgoes : (s.take (.trap ctx (.kernel (.delay n)))).Live := by
      cases labels with
      | nil => exact hlive
      | cons b rest => exact hrest.1.1.live
    have hnext : Reachable (fun _ a => a.ofProcesses = true)
        (s.take (.trap ctx (.kernel (.delay n)))) :=
      .next h hguard (.take henabled)
    have hdelayed := h.delay_sleeps henabled hn hgoes
    have hrun (hscans : scans ≤ n) : r.Delayed s.activePCB (n - scans) :=
      hdelayed.run (fun _ _ h => h) hnext labels hrest hlive hscans
    refine ⟨hrun, ?_⟩
    intro hscans a ha henabled' hlive' hscan
    have hreach : Reachable (fun _ a => a.ofProcesses = true) r :=
      hnext.run labels hrest
    have hlast := (hrun (Int.le_of_eq hscans)).take (fun _ _ h => h) hreach ha
      henabled' hlive'
    rw [if_pos hscan] at hlast
    rcases hlast with ⟨hpos, -⟩ | ⟨-, hready, hblocked⟩
    · omega
    · exact ⟨hready, hblocked⟩
  · intro a ha henabled hlive
    exact h.orderly_scan ha henabled hlive

/-- Idle scans once for the clock trap before the call and once for the next. -/
theorem delay_ends_at_its_scan_one :
    let s := (Boot.small 20).kernelStart.run tick
    let r := s.run [call (.delay 1), .resume, .trap ⟨0, 0⟩ .clock]
    r.Delayed s.activePCB 0 ∧ s.activePCB ∈ (r.take .resume).readyQ ∧
      r.ScansOnce (r.take .resume) := by
  intro s r
  have hreach : Reachable (fun _ a => a.ofProcesses = true) s :=
    reachable_small 20 tick (by decide +kernel) (by decide +kernel)
  obtain ⟨hruns, -⟩ := delay_ends_at_its_scan hreach
  have hscans : (s.take (.trap ⟨0, 0⟩ (.kernel (.delay 1)))).scansIn
      [.resume, .trap ⟨0, 0⟩ .clock] = 1 := by
    decide +kernel
  have hlive : r.Live := .inr (by decide +kernel)
  obtain ⟨hasleep, hready⟩ := hruns ⟨0, 0⟩ 1 [.resume, .trap ⟨0, 0⟩ .clock]
    (by decide) (by decide +kernel) hlive
  rw [hscans] at hasleep hready
  have hreach' : Reachable (fun _ a => a.ofProcesses = true) r :=
    hreach.run [call (.delay 1), .resume, .trap ⟨0, 0⟩ .clock]
      (by decide +kernel)
  have henabled : Label.resume.Enabled r := by decide +kernel
  have hlive' : (r.take .resume).Live := .inl (by decide +kernel)
  have hscan : r.scansAt .resume = true := by decide +kernel
  exact ⟨hasleep (Int.le_refl 1),
    (hready rfl .resume rfl henabled hlive' hscan).1,
    ((delay_ends_at_its_scan hreach').2 .resume rfl henabled hlive').2 hscan⟩

end Yalnix
