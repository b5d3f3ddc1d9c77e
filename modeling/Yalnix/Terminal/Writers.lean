import Mathlib.Data.List.Nodup
import Yalnix.Terminal.WriterRuns

/-!
# No writer sleeps through its wake-up

The head of a write queue is ready, or it sleeps until the terminal opens; the
others sleep until they are the head.
-/

namespace Yalnix

namespace Writing

variable {v : Writing}

/-! ## The invariant -/

/-- What holds of the processes other than the active one. -/
structure Others (v : Writing) : Prop where
  saved : ∀ p, (v.context p).ofWriters = true
  idle_code : v.code v.idle = Blocked.notBlocked
  active_ready : v.active ∉ v.ready
  ready_code : ∀ p ∈ v.ready, v.code p = Blocked.notBlocked
  ready_nodup : v.ready.Nodup
  queue_nodup : ∀ t, (v.queue t).Nodup
  queued : ∀ p t, p ≠ v.active →
    (p ∈ v.queue t ↔ (v.context p).writesTo = some t)
  head : ∀ t p rest, v.queue t = p :: rest → p = v.active ∨ p ∈ v.ready ∨
    v.code p = Blocked.ttyTransmit ∧ v.terminal p = t ∧
      v.tracker t = .terminalClosed
  tail : ∀ t p rest, v.queue t = p :: rest → ∀ q ∈ rest, q ≠ v.active →
    v.code q = Blocked.ttyWrite

/-- The head of a write queue is active, ready, or waits for its terminal; the
other writers sleep. -/
structure WritersWait (v : Writing) : Prop extends Others v where
  active_code : v.code v.active = Blocked.notBlocked
  active_queued : ∀ t, v.active ∈ v.queue t ↔
    (v.context v.active).writesTo = some t
  active_first : ∀ t p rest, v.queue t = p :: rest → v.active ∉ rest

namespace Others

/-- The active process is marked as blocked. -/
theorem block (h : Others v) (hne : v.active ≠ v.idle) (code : Int) :
    Others (v.block code) := by
  have hcode (p : PcbPtr) (hp : p ≠ v.active) :
      (v.block code).code p = v.code p := upd_other hp _ _
  refine { h with idle_code := ?_, ready_code := ?_, head := ?_, tail := ?_ }
  · rw [← h.idle_code]
    exact hcode _ (Ne.symm hne)
  · intro p hp
    rw [hcode p fun heq => h.active_ready (heq ▸ hp)]
    exact h.ready_code p hp
  · intro t p rest hqueue
    by_cases hp : p = v.active
    · exact .inl hp
    · rw [hcode p hp]
      exact h.head t p rest hqueue
  · intro t p rest hqueue q hq hne
    rw [hcode q hne]
    exact h.tail t p rest hqueue q hq hne

theorem setTerminal (h : Others v) (t : Nat) :
    Others (v.setTerminal v.active t) := by
  refine { h with head := ?_ }
  intro t' p rest hqueue
  by_cases hp : p = v.active
  · exact .inl hp
  · have hterminal : (v.setTerminal v.active t).terminal p = v.terminal p :=
      upd_other hp _ _
    rw [hterminal]
    exact h.head t' p rest hqueue

theorem transmit (h : Others v) (t : Nat) (chunk : List UInt8) :
    Others (v.transmit t chunk) := by
  refine { h with head := ?_ }
  intro t' p rest hqueue
  rcases h.head t' p rest hqueue with hp | hp | ⟨hcode, hterminal, hclosed⟩
  · exact .inl hp
  · exact .inr (.inl hp)
  · refine .inr (.inr ⟨hcode, hterminal, ?_⟩)
    show upd v.tracker t .terminalClosed t' = .terminalClosed
    by_cases ht : t' = t
    · rw [ht, upd_same]
    · rw [upd_other ht, hclosed]

/-- The active process enters a write queue. -/
theorem enter {t : Nat} (h : Others v) (hnot : v.active ∉ v.queue t)
    (bytes : List UInt8) : Others (v.enter t bytes) := by
  have hqueue (t' : Nat) : (v.enter t bytes).queue t' =
      if t' = t then v.queue t ++ [v.active] else v.queue t' :=
    upd_apply _ _ _ _
  refine { h with queue_nodup := ?_, queued := ?_, head := ?_, tail := ?_ }
  · intro t'
    rw [hqueue]
    split
    · refine (h.queue_nodup t).append (List.nodup_singleton _) ?_
      intro p hp hmem
      exact hnot (List.mem_singleton.1 hmem ▸ hp)
    · exact h.queue_nodup t'
  · intro p t' hp
    rw [hqueue]
    split
    · rename_i ht
      subst ht
      rw [List.mem_append, List.mem_singleton]
      have hnot : ¬ p = v.active := hp
      rw [or_iff_left hnot]
      exact h.queued p t' hp
    · exact h.queued p t' hp
  · intro t' p rest hcons
    rw [hqueue] at hcons
    split at hcons
    · rename_i ht
      subst ht
      cases hold : v.queue t' with
      | nil =>
          rw [hold] at hcons
          cases hcons
          exact .inl rfl
      | cons first others =>
          rw [hold] at hcons
          injection hcons with hfirst _
          subst hfirst
          exact h.head t' first others hold
    · exact h.head t' p rest hcons
  · intro t' p rest hcons q hq hne
    rw [hqueue] at hcons
    split at hcons
    · rename_i ht
      subst ht
      cases hold : v.queue t' with
      | nil =>
          rw [hold] at hcons
          cases hcons
          cases hq
      | cons first others =>
          rw [hold] at hcons
          injection hcons with _ hrest
          subst hrest
          rcases List.mem_append.1 hq with hq | hq
          · exact h.tail t' first others hold q hq hne
          · exact absurd (List.mem_singleton.1 hq) hne
    · exact h.tail t' p rest hcons q hq hne

/-- The active process is switched away: it is ready, or it has a reason to
sleep. -/
theorem swap {requeue : Bool} {k : KernelContext} (h : Others v)
    (hk : k.ofWriters = true)
    (hqueued : ∀ t, v.active ∈ v.queue t ↔ k.writesTo = some t)
    (hrequeue : requeue = true →
      v.active ≠ v.idle ∧ v.code v.active = Blocked.notBlocked)
    (hhead : ∀ t rest, v.queue t = v.active :: rest → requeue = true ∨
      v.code v.active = Blocked.ttyTransmit ∧ v.terminal v.active = t ∧
        v.tracker t = .terminalClosed)
    (htail : ∀ t p rest, v.queue t = p :: rest → v.active ∈ rest →
      v.code v.active = Blocked.ttyWrite) :
    WritersWait (v.swap requeue k) := by
  let v' := v.swap requeue k
  have hready : v'.ready = v.ready.tail ++ if requeue then [v.active] else [] :=
    rfl
  have hback : ∀ p ∈ (if requeue then [v.active] else []),
      p = v.active ∧ requeue = true := by
    intro p hp
    split at hp
    · rename_i hre
      exact ⟨List.mem_singleton.1 hp, hre⟩
    · cases hp
  -- the next process is the head of the ready queue, or idle
  have hnext : v'.active ∈ v.ready ∧ v.ready = v'.active :: v.ready.tail ∨
      v'.active = v.idle ∧ v.ready = [] := by
    show v.ready.headD v.idle ∈ v.ready ∧
        v.ready = v.ready.headD v.idle :: v.ready.tail ∨
      v.ready.headD v.idle = v.idle ∧ v.ready = []
    cases v.ready with
    | nil => exact .inr ⟨rfl, rfl⟩
    | cons next rest => exact .inl ⟨List.mem_cons_self, rfl⟩
  have hcontext (p : PcbPtr) (hp : p ≠ v.active) :
      v'.context p = v.context p := upd_other hp _ _
  have hsame : v'.context v.active = k := upd_same _ _ _
  have hin (p : PcbPtr) (hp : p ∈ v'.ready) : p ∈ v.ready ∨
      p = v.active ∧ requeue = true := by
    rw [hready] at hp
    rcases List.mem_append.1 hp with hp | hp
    · exact .inl (List.mem_of_mem_tail hp)
    · exact .inr (hback p hp)
  have hallQueued (p : PcbPtr) (t : Nat) :
      p ∈ v'.queue t ↔ (v'.context p).writesTo = some t := by
    by_cases hp : p = v.active
    · rw [hp, hsame]
      exact hqueued t
    · rw [hcontext p hp]
      exact h.queued p t hp
  have hallTail (t : Nat) (p : PcbPtr) (rest : List PcbPtr)
      (hcons : v'.queue t = p :: rest) (q : PcbPtr) (hq : q ∈ rest) :
      v'.code q = Blocked.ttyWrite := by
    by_cases hne : q = v.active
    · rw [hne] at hq ⊢
      exact htail t p rest hcons hq
    · exact h.tail t p rest hcons q hq hne
  have hactiveCode : v'.code v'.active = Blocked.notBlocked := by
    rcases hnext with ⟨hmem, -⟩ | ⟨hidle, -⟩
    · exact h.ready_code _ hmem
    · rw [hidle]
      exact h.idle_code
  refine
    { saved := ?_
      idle_code := h.idle_code
      active_ready := ?_
      ready_code := ?_
      ready_nodup := ?_
      queue_nodup := h.queue_nodup
      queued := fun p t _ => hallQueued p t
      head := ?_
      tail := fun t p rest hcons q hq _ => hallTail t p rest hcons q hq
      active_code := hactiveCode
      active_queued := fun t => hallQueued _ t
      active_first := ?_ }
  · intro p
    by_cases hp : p = v.active
    · show (v'.context p).ofWriters = true
      rw [hp, hsame]
      exact hk
    · show (v'.context p).ofWriters = true
      rw [hcontext p hp]
      exact h.saved p
  · intro hmem
    rcases hnext with ⟨hactive, hcons⟩ | ⟨hidle, hempty⟩
    · rw [hready] at hmem
      rcases List.mem_append.1 hmem with hmem | hmem
      · have hnodup := h.ready_nodup
        rw [hcons] at hnodup
        exact (List.nodup_cons.1 hnodup).1 hmem
      · exact h.active_ready ((hback _ hmem).1 ▸ hactive)
    · rcases hin _ hmem with hmem | ⟨heq, hre⟩
      · rw [hempty] at hmem
        cases hmem
      · exact (hrequeue hre).1 (heq.symm.trans hidle)
  · intro p hp
    rcases hin p hp with hp | ⟨heq, hre⟩
    · exact h.ready_code p hp
    · show v.code p = Blocked.notBlocked
      rw [heq]
      exact (hrequeue hre).2
  · rw [hready]
    refine List.Nodup.append (h.ready_nodup.sublist (List.tail_sublist _)) ?_ ?_
    · split
      · exact List.nodup_singleton _
      · exact List.nodup_nil
    · intro p hp hmem
      exact h.active_ready ((hback p hmem).1 ▸ List.mem_of_mem_tail hp)
  · intro t p rest hcons
    by_cases hp : p = v.active
    · rw [hp] at hcons ⊢
      rcases hhead t rest hcons with hre | hsleeps
      · refine .inr (.inl ?_)
        rw [hready, hre]
        exact List.mem_append_right _ List.mem_cons_self
      · exact .inr (.inr hsleeps)
    · rcases h.head t p rest hcons with heq | hmem | hsleeps
      · exact absurd heq hp
      · rcases hnext with ⟨-, hqueue⟩ | ⟨-, hempty⟩
        · rw [hqueue] at hmem
          rcases List.mem_cons.1 hmem with heq | hmem
          · exact .inl heq
          · exact .inr (.inl (hready ▸ List.mem_append_left _ hmem))
        · rw [hempty] at hmem
          cases hmem
      · exact .inr (.inr hsleeps)
  · intro t p rest hcons hmem
    have hcode := hallTail t p rest hcons _ hmem
    rw [hactiveCode] at hcode
    cases hcode

/-- A writer sleeps at the head of its queue while the terminal is closed. -/
theorem sleep {t : Nat} {k : KernelContext} (h : Others v)
    (hne : v.active ≠ v.idle) (hk : k.ofWriters = true)
    (hto : k.writesTo = some t) (hclosed : v.tracker t = .terminalClosed)
    (hfirst : (v.queue t).head? = some v.active)
    (honly : ∀ t', t' ≠ t → v.active ∉ v.queue t')
    (hrest : ∀ t p rest, v.queue t = p :: rest → v.active ∉ rest) :
    WritersWait (v.sleep t k) := by
  have hmem : v.active ∈ v.queue t := List.mem_of_head? hfirst
  refine ((h.block hne Blocked.ttyTransmit).setTerminal t).swap hk ?_ nofun
    ?_ ?_
  · intro t'
    rw [hto]
    constructor
    · intro hin
      by_contra hother
      exact honly t' (fun heq => hother (heq ▸ rfl)) hin
    · intro heq
      injection heq with heq
      exact heq ▸ hmem
  · intro t' rest hcons
    have ht : t' = t := by
      by_contra hother
      have hcons' : v.queue t' = v.active :: rest := hcons
      exact honly t' hother (hcons' ▸ List.mem_cons_self)
    subst ht
    exact .inr ⟨upd_same _ _ _, upd_same _ _ _, hclosed⟩
  · intro t' p rest hcons hin
    exact absurd hin (hrest t' p rest hcons)

/-- The head of a write queue returns. -/
theorem finish {t : Nat} (h : Others v)
    (hcode : v.code v.active = Blocked.notBlocked)
    (hfirst : (v.queue t).head? = some v.active)
    (honly : ∀ t', t' ≠ t → v.active ∉ v.queue t')
    (hrest : ∀ t p rest, v.queue t = p :: rest → v.active ∉ rest)
    (result : Int) : WritersWait (v.finish t result) := by
  obtain ⟨rest, hcons⟩ : ∃ rest, v.queue t = v.active :: rest := by
    cases hqueue : v.queue t with
    | nil =>
        rw [hqueue] at hfirst
        cases hfirst
    | cons first rest =>
        rw [hqueue] at hfirst
        injection hfirst with hfirst
        exact ⟨rest, by rw [hfirst]⟩
  have hactive : v.active ∉ rest := hrest t _ rest hcons
  have htail : (v.queue t).tail = rest := by rw [hcons]; rfl
  have hcontext (p : PcbPtr) (hp : p ≠ v.active) :
      upd v.context v.active .kernelStart p = v.context p := upd_other hp _ _
  have hqueue (t' : Nat) : upd v.queue t rest t' =
      if t' = t then rest else v.queue t' := upd_apply _ _ _ _
  have hgone (t' : Nat) : v.active ∉ upd v.queue t rest t' := by
    rw [hqueue]
    split
    · exact hactive
    · rename_i ht
      exact honly t' ht
  have hsaved (p : PcbPtr) :
      (upd v.context v.active .kernelStart p).ofWriters = true := by
    by_cases hp : p = v.active
    · rw [hp, upd_same]
      rfl
    · rw [hcontext p hp]
      exact h.saved p
  have hqueued (p : PcbPtr) (t' : Nat) (hp : p ≠ v.active) :
      p ∈ upd v.queue t rest t' ↔
        (upd v.context v.active .kernelStart p).writesTo = some t' := by
    rw [hcontext p hp, hqueue, ← h.queued p t' hp]
    split
    · rename_i ht
      rw [ht, hcons, List.mem_cons, or_iff_right hp]
    · rfl
  have hactiveQueued (t' : Nat) : v.active ∈ upd v.queue t rest t' ↔
      (upd v.context v.active .kernelStart v.active).writesTo = some t' := by
    rw [upd_same]
    exact iff_of_false (hgone t') nofun
  have hfirst' (t' : Nat) (p : PcbPtr) (others : List PcbPtr)
      (hcons' : upd v.queue t rest t' = p :: others) :
      v.active ∉ others := fun hin =>
    hgone t' (hcons' ▸ List.mem_cons_of_mem _ hin)
  have hrestNodup : rest.Nodup := by
    have hall := h.queue_nodup t
    rw [hcons] at hall
    exact (List.nodup_cons.1 hall).2
  have hnodup (t' : Nat) : (upd v.queue t rest t').Nodup := by
    rw [hqueue]
    split
    · exact hrestNodup
    · exact h.queue_nodup t'
  unfold Writing.finish
  simp only [htail]
  cases rest with
  | nil =>
      refine
        { saved := hsaved
          idle_code := h.idle_code
          active_ready := h.active_ready
          ready_code := h.ready_code
          ready_nodup := h.ready_nodup
          queue_nodup := hnodup
          queued := hqueued
          head := ?_
          tail := ?_
          active_code := hcode
          active_queued := hactiveQueued
          active_first := hfirst' }
      · intro t' p others hcons'
        have hold : upd v.queue t [] t' = p :: others := hcons'
        rw [hqueue] at hold
        split at hold
        · cases hold
        · exact h.head t' p others hold
      · intro t' p others hcons'
        have hold : upd v.queue t [] t' = p :: others := hcons'
        rw [hqueue] at hold
        split at hold
        · cases hold
        · exact h.tail t' p others hold
  | cons next rest =>
      have hne : next ≠ v.active := fun heq => hactive (heq ▸ List.mem_cons_self)
      have hsleeps : v.code next = Blocked.ttyWrite :=
        h.tail t _ _ hcons next List.mem_cons_self hne
      have hnotReady : next ∉ v.ready := fun hmem => by
        rw [h.ready_code next hmem] at hsleeps
        cases hsleeps
      have hidle : v.idle ≠ next := fun heq => by
        rw [← heq, h.idle_code] at hsleeps
        cases hsleeps
      have hcodes (p : PcbPtr) (hp : p ≠ next) :
          upd v.code next Blocked.notBlocked p = v.code p := upd_other hp _ _
      refine
        { saved := hsaved
          idle_code := ?_
          active_ready := ?_
          ready_code := ?_
          ready_nodup := ?_
          queue_nodup := hnodup
          queued := hqueued
          head := ?_
          tail := ?_
          active_code := (hcodes _ (Ne.symm hne)).trans hcode
          active_queued := hactiveQueued
          active_first := hfirst' }
      · exact (hcodes _ hidle).trans h.idle_code
      · intro hmem
        rcases List.mem_append.1 hmem with hmem | hmem
        · exact h.active_ready hmem
        · exact hne (List.mem_singleton.1 hmem).symm
      · intro p hp
        rcases List.mem_append.1 hp with hp | hp
        · exact (hcodes p fun heq => hnotReady (heq ▸ hp)).trans
            (h.ready_code p hp)
        · rw [List.mem_singleton.1 hp]
          exact upd_same _ _ _
      · refine h.ready_nodup.append (List.nodup_singleton _) ?_
        intro p hp hmem
        exact hnotReady (List.mem_singleton.1 hmem ▸ hp)
      · intro t' p others hcons'
        have hold : upd v.queue t (next :: rest) t' = p :: others := hcons'
        rw [hqueue] at hold
        by_cases hp : p = next
        · exact .inr (.inl (hp ▸ List.mem_append_right _ List.mem_cons_self))
        · split at hold
          · injection hold with heq _
            exact absurd heq.symm hp
          · rcases h.head t' p others hold with heq | hmem | ⟨hwaits, hto⟩
            · exact .inl heq
            · exact .inr (.inl (List.mem_append_left _ hmem))
            · exact .inr (.inr ⟨(hcodes p hp).trans hwaits, hto⟩)
      · intro t' p others hcons' q hq hq'
        have hold : upd v.queue t (next :: rest) t' = p :: others := hcons'
        rw [hqueue] at hold
        split at hold
        · injection hold with _ heq
          subst heq
          have hother : q ≠ next := fun heq =>
            (List.nodup_cons.1 hrestNodup).1 (heq ▸ hq)
          exact (hcodes q hother).trans (h.tail t _ _ hcons q
            (List.mem_cons_of_mem _ hq) hq')
        · rename_i ht
          have hother : q ≠ next := fun heq => by
            -- a process writes to one terminal only
            have hhere := (h.queued next t hne).1
              (hcons ▸ List.mem_cons_of_mem _ List.mem_cons_self)
            have hthere := (h.queued next t' hne).1
              (hold ▸ List.mem_cons_of_mem _ (heq ▸ hq))
            rw [hhere] at hthere
            injection hthere with hthere
            exact ht hthere.symm
          exact (hcodes q hother).trans (h.tail t' p others hold q hq hq')

end Others

namespace WritersWait

/-- A process that does not write is in no write queue. -/
theorem not_queued (h : WritersWait v) (hto : v.Aside) (t : Nat) :
    v.active ∉ v.queue t := by
  unfold Aside at hto
  rw [h.active_queued t, hto]
  exact nofun

theorem run (h : WritersWait v) (hto : v.Aside) : WritersWait v.run := by
  have hcontext (p : PcbPtr) (hp : p ≠ v.active) :
      v.run.context p = v.context p := upd_other hp _ _
  have hactive : v.run.context v.active = .kernelStart := upd_same _ _ _
  refine { h with saved := ?_, queued := ?_, active_queued := ?_ }
  · intro p
    by_cases hp : p = v.active
    · rw [hp, hactive]
      rfl
    · rw [hcontext p hp]
      exact h.saved p
  · intro p t hp
    rw [hcontext p hp]
    exact h.queued p t hp
  · intro t
    refine iff_of_false (h.not_queued hto t) ?_
    show (v.run.context v.active).writesTo ≠ some t
    rw [hactive]
    exact nofun

/-- The loop of a writer at the head of its queue. -/
theorem write_of {t : Nat} {buf : Buffer} {len left written : Nat}
    (h : Others v) (hne : v.active ≠ v.idle)
    (hcode : v.code v.active = Blocked.notBlocked)
    (hfirst : (v.queue t).head? = some v.active)
    (honly : ∀ t', t' ≠ t → v.active ∉ v.queue t')
    (hrest : ∀ t p rest, v.queue t = p :: rest → v.active ∉ rest)
    (hleft : 0 < left) (hlen : left + written = len) :
    WritersWait (v.write t buf len left written) := by
  unfold Writing.write
  split
  · rename_i hclosed
    exact h.sleep hne (KernelContext.ofWriters_write hleft hlen) rfl hclosed
      hfirst honly hrest
  · split
    · rename_i hlong
      refine (h.transmit t _).sleep hne ?_ rfl (upd_same _ _ _) hfirst honly
        hrest
      apply KernelContext.ofWriters_write
      · omega
      · omega
    · exact (h.transmit t _).finish hcode hfirst honly hrest _

/-- A writer that resumes is the head of its queue. -/
theorem write (h : WritersWait v) {t : Nat} {buf : Buffer}
    {len left written : Nat} (hne : v.active ≠ v.idle)
    (hctx : v.context v.active = .kernelTtyWrite t buf len left written) :
    WritersWait (v.write t buf len left written) := by
  have hsaved := h.saved v.active
  rw [hctx] at hsaved
  obtain ⟨hleft, hlen⟩ := of_decide_eq_true hsaved
  have hmem : v.active ∈ v.queue t := by
    rw [h.active_queued, hctx]
    rfl
  refine write_of h.toOthers hne h.active_code ?_ ?_ h.active_first hleft hlen
  · cases hqueue : v.queue t with
    | nil =>
        rw [hqueue] at hmem
        cases hmem
    | cons first rest =>
        rw [hqueue] at hmem
        rcases List.mem_cons.1 hmem with heq | hin
        · rw [heq]
          rfl
        · exact absurd hin (h.active_first t first rest hqueue)
  · intro t' ht hin
    rw [h.active_queued, hctx] at hin
    injection hin with hin
    exact ht hin.symm

/-- A new writer that finds the queue empty. -/
theorem enter_write (h : WritersWait v) {t : Nat} {buf : Buffer} {len : Nat}
    (hne : v.active ≠ v.idle) (hto : v.Aside) (hlen : 0 < len) {bytes : List UInt8}
    (hfirst : ((v.enter t bytes).queue t).head? = some v.active) :
    WritersWait ((v.enter t bytes).write t buf len len 0) := by
  have hqueue (t' : Nat) : (v.enter t bytes).queue t' =
      if t' = t then v.queue t ++ [v.active] else v.queue t' :=
    upd_apply _ _ _ _
  have hempty : v.queue t = [] := by
    rw [hqueue, if_pos rfl] at hfirst
    cases hold : v.queue t with
    | nil => rfl
    | cons first rest =>
        rw [hold] at hfirst
        injection hfirst with hfirst
        refine absurd ?_ (h.not_queued hto t)
        rw [hold, hfirst]
        exact List.mem_cons_self
  refine write_of (h.enter (h.not_queued hto t) bytes) hne h.active_code
    hfirst ?_ ?_ hlen (Nat.add_zero _)
  · intro t' ht
    rw [hqueue, if_neg ht]
    exact h.not_queued hto t'
  · intro t' p rest hcons hin
    rw [hqueue] at hcons
    split at hcons
    · rw [hempty] at hcons
      cases hcons
      cases hin
    · exact h.not_queued hto t' (hcons ▸ List.mem_cons_of_mem _ hin)

/-- A new writer that finds others before it. -/
theorem enter_wait (h : WritersWait v) {t : Nat} {buf : Buffer} {len : Nat}
    (hne : v.active ≠ v.idle) (hto : v.Aside) (hlen : 0 < len) {bytes : List UInt8}
    (hfirst : ((v.enter t bytes).queue t).head? ≠ some v.active) :
    WritersWait ((((v.enter t bytes).block Blocked.ttyWrite).setTerminal
      v.active t).swap false (.kernelTtyWrite t buf len len 0)) := by
  have hqueue (t' : Nat) : (v.enter t bytes).queue t' =
      if t' = t then v.queue t ++ [v.active] else v.queue t' :=
    upd_apply _ _ _ _
  have henter := h.enter (h.not_queued hto t) bytes
  refine ((henter.block hne Blocked.ttyWrite).setTerminal t).swap
    (KernelContext.ofWriters_write hlen (Nat.add_zero _)) ?_ nofun ?_ ?_
  · intro t'
    show v.active ∈ (v.enter t bytes).queue t' ↔ some t = some t'
    rw [hqueue]
    split
    · rename_i ht
      rw [ht]
      exact iff_of_true (List.mem_append_right _ List.mem_cons_self) rfl
    · rename_i ht
      refine iff_of_false (h.not_queued hto t') fun heq => ?_
      injection heq with heq
      exact ht heq.symm
  · intro t' rest hcons
    have hcons' : (v.enter t bytes).queue t' = v.active :: rest := hcons
    rw [hqueue] at hcons'
    split at hcons'
    · refine absurd ?_ hfirst
      rw [hqueue, if_pos rfl, hcons']
      rfl
    · refine absurd ?_ (h.not_queued hto t')
      rw [hcons']
      exact List.mem_cons_self
  · intro _ _ _ _ _
    exact upd_same _ _ _

theorem delay (h : WritersWait v) (hne : v.active ≠ v.idle) (hto : v.Aside) :
    WritersWait ((v.block Blocked.delay).swap false .kernelDelay) := by
  have hnot := h.not_queued hto
  refine (h.block hne Blocked.delay).swap rfl ?_ nofun ?_ ?_
  · exact fun t => iff_of_false (hnot t) nofun
  · intro t rest hcons
    refine absurd ?_ (hnot t)
    rw [show v.queue t = v.active :: rest from hcons]
    exact List.mem_cons_self
  · intro t p rest hcons hin
    refine absurd ?_ (hnot t)
    rw [show v.queue t = p :: rest from hcons]
    exact List.mem_cons_of_mem _ hin

theorem clock (h : WritersWait v) (hto : v.Aside) :
    WritersWait (v.swap (decide (v.active ≠ v.idle)) .trapClockHandler) := by
  have hnot := h.not_queued hto
  refine h.toOthers.swap rfl ?_ ?_ ?_ ?_
  · exact fun t => iff_of_false (hnot t) nofun
  · intro hre
    exact ⟨of_decide_eq_true hre, h.active_code⟩
  · intro t rest hcons
    exact absurd (hcons ▸ List.mem_cons_self) (hnot t)
  · intro t p rest hcons hin
    exact absurd (hcons ▸ List.mem_cons_of_mem _ hin) (hnot t)

/-- A process that sleeps in a delay or for its terminal becomes ready. -/
theorem wake (h : WritersWait v) {p : PcbPtr}
    (hcode : v.code p = Blocked.delay ∨ v.code p = Blocked.ttyTransmit) :
    WritersWait (v.wake p) := by
  have hblocked : v.code p ≠ Blocked.notBlocked ∧
      v.code p ≠ Blocked.ttyWrite := by
    rcases hcode with hcode | hcode <;> rw [hcode] <;> decide
  have hcodes (q : PcbPtr) (hq : q ≠ p) : (v.wake p).code q = v.code q :=
    upd_other hq _ _
  have hne {q : PcbPtr} (hq : v.code q = Blocked.notBlocked) : q ≠ p :=
    fun heq => hblocked.1 (heq ▸ hq)
  have hready : p ∉ v.ready := fun hmem => hblocked.1 (h.ready_code p hmem)
  refine
    { h with
      idle_code := (hcodes _ (hne h.idle_code)).trans h.idle_code
      active_ready := ?_
      ready_code := ?_
      ready_nodup := ?_
      head := ?_
      tail := ?_
      active_code := (hcodes _ (hne h.active_code)).trans h.active_code }
  · intro hmem
    rcases List.mem_append.1 hmem with hmem | hmem
    · exact h.active_ready hmem
    · exact hne h.active_code (List.mem_singleton.1 hmem)
  · intro q hq
    rcases List.mem_append.1 hq with hq | hq
    · rw [hcodes q (hne (h.ready_code q hq))]
      exact h.ready_code q hq
    · rw [List.mem_singleton.1 hq]
      exact upd_same _ _ _
  · refine h.ready_nodup.append (List.nodup_singleton _) ?_
    intro q hq hmem
    exact hready (List.mem_singleton.1 hmem ▸ hq)
  · intro t q rest hcons
    by_cases hq : q = p
    · rw [hq]
      exact .inr (.inl (List.mem_append_right _ List.mem_cons_self))
    · rcases h.head t q rest hcons with hactive | hmem | ⟨hwaits, hto⟩
      · exact .inl hactive
      · exact .inr (.inl (List.mem_append_left _ hmem))
      · exact .inr (.inr ⟨(hcodes q hq).trans hwaits, hto⟩)
  · intro t q rest hcons x hx hactive
    have hwrites := h.tail t q rest hcons x hx hactive
    rw [hcodes x fun heq => hblocked.2 (heq ▸ hwrites)]
    exact hwrites

/-- The terminal of a ready process does not matter. -/
theorem setTerminal (h : WritersWait v) {p : PcbPtr} (hp : p ∈ v.ready)
    (t : Nat) : WritersWait (v.setTerminal p t) := by
  refine { h with head := ?_ }
  intro t' q rest hcons
  by_cases hq : q = p
  · exact .inr (.inl (hq ▸ hp))
  · have hterminal : (v.setTerminal p t).terminal q = v.terminal q :=
      upd_other hq _ _
    rw [hterminal]
    exact h.head t' q rest hcons

theorem recheck (h : WritersWait v) (p : PcbPtr) (ticks : Int) :
    WritersWait (v.recheck p ticks) := by
  unfold Writing.recheck
  split
  · rename_i hdelay
    split
    · exact h
    · exact h.wake (.inl hdelay)
  · split
    · rename_i htransmit
      split
      · refine (h.wake (.inr htransmit)).setTerminal ?_ 0
        exact List.mem_append_right _ List.mem_cons_self
      · exact h
    · exact h

theorem scanned {v' : Writing} (h : WritersWait v) (hscan : Scanned v v') :
    WritersWait v' := by
  induction hscan with
  | done => exact h
  | next p ticks _ ih => exact ih (h.recheck p ticks)

/-- A terminal opens whose first writer, if there is one, is ready. -/
theorem opened (h : WritersWait v) {t : Nat}
    (hfirst : ∀ p rest, v.queue t = p :: rest → p ∈ v.ready) :
    WritersWait (v.opened t) := by
  refine { h with head := ?_ }
  intro t' p rest hcons
  by_cases ht : t' = t
  · rw [ht] at hcons
    exact .inr (.inl (hfirst p rest hcons))
  · have htracker : (v.opened t).tracker t' = v.tracker t' :=
      upd_other ht _ _
    rw [htracker]
    exact h.head t' p rest hcons

/-- The terminal opens and its first writer is checked. -/
theorem opened_recheck (h : WritersWait v) {t : Nat} {p : PcbPtr}
    {rest : List PcbPtr} (hto : v.Aside) (hqueue : v.queue t = p :: rest)
    (ticks : Int) : WritersWait ((v.opened t).recheck p ticks) := by
  have hhead {q : PcbPtr} {others : List PcbPtr}
      (hcons : v.queue t = q :: others) : q = p := by
    rw [hqueue] at hcons
    injection hcons with hq
    exact hq.symm
  rcases h.head t p rest hqueue with hactive | hready | ⟨hcode, hterminal, -⟩
  · refine absurd ?_ (h.not_queued hto t)
    rw [hqueue, hactive]
    exact List.mem_cons_self
  · have hopened : WritersWait (v.opened t) := by
      apply h.opened
      intro q others hcons
      rw [hhead hcons]
      exact hready
    exact hopened.recheck p ticks
  · have hwoken : WritersWait (v.wake p) := h.wake (.inr hcode)
    have hlast : p ∈ (v.wake p).ready :=
      List.mem_append_right _ List.mem_cons_self
    have hopened : WritersWait ((v.wake p).opened t) := by
      apply hwoken.opened
      intro q others hcons
      rw [hhead hcons]
      exact hlast
    have hopen : (v.opened t).tracker ((v.opened t).terminal p) =
        .terminalOpen := by
      show upd v.tracker t .terminalOpen (v.terminal p) = .terminalOpen
      rw [hterminal]
      exact upd_same _ _ _
    have hcheck : (v.opened t).recheck p ticks =
        ((v.wake p).opened t).setTerminal p 0 := by
      have hcode' : (v.opened t).code p = Blocked.ttyTransmit := hcode
      unfold Writing.recheck
      rw [if_neg (by rw [hcode']; decide), if_pos hcode', if_pos hopen]
      rfl
    rw [hcheck]
    exact hopened.setTerminal hlast 0

/-- A process is made. -/
theorem make (h : WritersWait v) {c : PcbPtr} (hc : v.Fresh c) :
    WritersWait (v.make c) := by
  have hcode (p : PcbPtr) (hp : p ≠ c) : (v.make c).code p = v.code p :=
    upd_other hp _ _
  have hqueued {p : PcbPtr} {t : Nat} (hp : p ∈ v.queue t) : p ≠ c :=
    fun heq => hc.queue t (heq ▸ hp)
  refine
    { h with
      idle_code := (hcode _ hc.idle.symm).trans h.idle_code
      ready_code := ?_
      head := ?_
      tail := ?_
      active_code := (hcode _ hc.active.symm).trans h.active_code }
  · intro p hp
    rw [hcode p fun heq => hc.ready (heq ▸ hp)]
    exact h.ready_code p hp
  · intro t p rest hcons
    have hcons' : v.queue t = p :: rest := hcons
    have hp : p ≠ c := hqueued (hcons' ▸ List.mem_cons_self)
    have hterminal : (v.make c).terminal p = v.terminal p := upd_other hp _ _
    rw [hcode p hp, hterminal]
    exact h.head t p rest hcons
  · intro t p rest hcons q hq hne
    have hcons' : v.queue t = p :: rest := hcons
    rw [hcode q (hqueued (hcons' ▸ List.mem_cons_of_mem _ hq))]
    exact h.tail t p rest hcons q hq hne

/-- A process is made and becomes ready. -/
theorem fork (h : WritersWait v) {c : PcbPtr} (hc : v.Fresh c) :
    WritersWait (v.fork c) := by
  have hmade := h.make hc
  have hcontext (p : PcbPtr) (hp : p ≠ c) :
      (v.fork c).context p = v.context p := upd_other hp _ _
  have hchild : (v.fork c).context c = .kernelFork := upd_same _ _ _
  refine
    { hmade with
      saved := ?_
      active_ready := ?_
      ready_code := ?_
      ready_nodup := ?_
      queued := ?_
      head := ?_
      active_queued := ?_ }
  · intro p
    by_cases hp : p = c
    · rw [hp, hchild]
      rfl
    · rw [hcontext p hp]
      exact h.saved p
  · intro hmem
    rcases List.mem_append.1 hmem with hmem | hmem
    · exact h.active_ready hmem
    · exact hc.active (List.mem_singleton.1 hmem).symm
  · intro p hp
    rcases List.mem_append.1 hp with hp | hp
    · exact hmade.ready_code p hp
    · rw [List.mem_singleton.1 hp]
      exact upd_same _ _ _
  · refine h.ready_nodup.append (List.nodup_singleton _) ?_
    intro p hp hmem
    exact hc.ready (List.mem_singleton.1 hmem ▸ hp)
  · intro p t hp
    by_cases heq : p = c
    · rw [heq, hchild]
      exact iff_of_false (hc.queue t) nofun
    · rw [hcontext p heq]
      exact h.queued p t hp
  · intro t p rest hcons
    rcases hmade.head t p rest hcons with hactive | hready | hsleeps
    · exact .inl hactive
    · exact .inr (.inl (List.mem_append_left _ hready))
    · exact .inr (.inr hsleeps)
  · intro t
    show v.active ∈ v.queue t ↔
      ((v.fork c).context v.active).writesTo = some t
    rw [hcontext _ hc.active.symm]
    exact h.active_queued t

/-! ## Every step -/

theorem change {v' : Writing} (h : WritersWait v) (hchange : v.Change v') :
    WritersWait v' := by
  cases hchange with
  | stays hto => exact h.run hto
  | makes hc => exact h.make hc
  | forks hc => exact h.fork hc
  | delays hne hto => exact h.delay hne hto
  | clock hto => exact h.clock hto
  | scans hto hscan => exact (h.scanned hscan).run (hto.scanned hscan)
  | writes hne hto hlen hfirst => exact h.enter_write hne hto hlen hfirst
  | waits hne hto hlen hfirst => exact h.enter_wait hne hto hlen hfirst
  | resumes hne hctx => exact h.write hne hctx
  | @opens t hto hqueue =>
      have hopened : WritersWait (v.opened t) := by
        apply h.opened
        intro p rest hcons
        rw [hqueue] at hcons
        cases hcons
      exact hopened.run hto
  | @wakes t head rest ticks hto hqueue =>
      refine (h.opened_recheck hto hqueue ticks).run ?_
      obtain ⟨hactive, hcontext, -⟩ :=
        recheck_same (v := v.opened t) head ticks
      unfold Aside
      rw [hactive, hcontext]
      exact hto

theorem started (b : Boot) : WritersWait b.started.writing := by
  rw [b.started_writing]
  have hready : ∀ p ∈ [1], upd (upd b.pcb.blockedCode 0 Blocked.notBlocked) 1
      Blocked.notBlocked p = Blocked.notBlocked := by
    intro p hp
    rw [List.mem_singleton.1 hp]
    exact upd_same _ _ _
  constructor
  · exact
      { saved := fun _ => rfl
        idle_code := rfl
        active_ready := fun hmem => Nat.zero_ne_one (List.mem_singleton.1 hmem)
        ready_code := hready
        ready_nodup := List.nodup_singleton _
        queue_nodup := fun _ => List.nodup_nil
        queued := fun _ _ _ => iff_of_false List.not_mem_nil nofun
        head := fun _ _ _ => nofun
        tail := fun _ _ _ => nofun }
  · rfl
  · exact fun _ => iff_of_false List.not_mem_nil nofun
  · exact fun _ _ _ => nofun

end WritersWait

end Writing

theorem Reachable.writersWait {guard : Kernel → Label → Prop}
    (himp : ∀ s a, guard s a → a.ofWriters = true) {s : Kernel}
    (h : Reachable guard s) (hlive : s.Live) : s.writing.WritersWait := by
  refine (Reachable.writers himp (I := Writing.WritersWait) ?_ ?_ ?_ ?_ h
    hlive).2
  · exact fun _ hv => hv.saved
  · exact fun _ hv hto t => hv.not_queued hto t
  · intro b _ hmode
    rw [b.kernelStart_writing hmode]
    exact .started b
  · exact fun _ _ hv hchange => hv.change hchange

/--
In user mode the first writer in the queue of an open terminal is ready, and
the writers behind the first one are not.
-/
theorem writer_never_sleeps_through_wakeup {s : Kernel}
    (h : Reachable (fun _ a => a.ofWriters = true) s) (hmode : s.mode = .user)
    {t : Nat} {p : PcbPtr} {rest : List PcbPtr}
    (hqueue : s.ttyWriteQueues t = p :: rest) :
    (s.ttyWriteTrackers t = .terminalOpen → p ∈ s.readyQ) ∧
      ∀ q ∈ rest, q ∉ s.readyQ := by
  have hwait := Reachable.writersWait (fun _ _ ha => ha) h (.inl hmode)
  have hnot : s.activePCB ∉ s.ttyWriteQueues t :=
    hwait.not_queued (Kernel.writing_aside hmode) t
  rw [hqueue] at hnot
  constructor
  · intro hopen
    rcases hwait.head t p rest hqueue with hactive | hready | ⟨-, -, hclosed⟩
    · have hactive' : p = s.activePCB := hactive
      rw [hactive'] at hnot
      exact absurd List.mem_cons_self hnot
    · exact hready
    · have hopen' : s.writing.tracker t = .terminalOpen := hopen
      rw [hopen'] at hclosed
      cases hclosed
  · intro q hq hready
    have hne : q ≠ s.activePCB := by
      intro heq
      exact hnot (heq ▸ List.mem_cons_of_mem _ hq)
    have hsleeps := hwait.tail t p rest hqueue q hq hne
    rw [hwait.ready_code q hready] at hsleeps
    cases hsleeps

/-- The terminal opens between the two chunks of the first writer, while the
second one waits. -/
theorem writer_never_sleeps_through_wakeup_two :
    let labels := tick ++ [call (.fork 2),
      call (.ttyWrite 0 (fun _ => 65) 1500), .resume,
      call (.ttyWrite 0 (fun _ => 66) 5), .resume,
      .trap ⟨0, 0⟩ (.ttyTransmit 0)]
    let s := (Boot.small 20).kernelStart.run labels
    s.ttyWriteTrackers 0 = .terminalOpen ∧ s.ttyWriteQueues 0 = [1, 2] ∧
      1 ∈ s.readyQ ∧ 2 ∉ s.readyQ := by
  intro labels s
  have hreach : Reachable (fun _ a => a.ofWriters = true) s :=
    reachable_small 20 labels (by decide +kernel) (by decide +kernel)
  have hopen : s.ttyWriteTrackers 0 = .terminalOpen := by decide +kernel
  have hqueue : s.ttyWriteQueues 0 = [1, 2] := by decide +kernel
  have hwakes := writer_never_sleeps_through_wakeup hreach (by decide +kernel)
    hqueue
  exact ⟨hopen, hqueue, hwakes.1 hopen, hwakes.2 2 List.mem_cons_self⟩

end Yalnix
