import Yalnix.Foundation.ServiceLog
import Yalnix.Terminal.Writers

/-!
# Output at the terminals

The calls to `TtyWrite` on a terminal are the jobs of a queue server: the chunks
that are transmitted are their pieces.
-/

namespace Yalnix

open ServiceLog

/-! ## The log of a terminal -/

/-- The calls that entered the write queue of terminal `t`, with their bytes. -/
def ttyWriteCalls (t : Nat) (events : List Event) :
    List (PcbPtr × List UInt8) :=
  events.filterMap fun
    | .ttyWriteCall t' p bytes => if t' = t then some (p, bytes) else none
    | _ => none

/-- The chunks handed to terminal `t`, with the process that did. -/
def ttyTransmits (t : Nat) (events : List Event) :
    List (PcbPtr × List UInt8) :=
  events.filterMap fun
    | .ttyTransmit t' p chunk => if t' = t then some (p, chunk) else none
    | _ => none

/-- The calls on terminal `t` that have returned, with their results. -/
def ttyWriteReturns (t : Nat) (events : List Event) : List (PcbPtr × Int) :=
  events.filterMap fun
    | .ttyWriteReturn t' p result => if t' = t then some (p, result) else none
    | _ => none

def outputLog (t : Nat) (events : List Event) : Log PcbPtr UInt8 :=
  ⟨ttyWriteCalls t events, ttyTransmits t events, ttyWriteReturns t events⟩

section OutputLog

variable {t u : Nat} {events : List Event} {p : PcbPtr}

theorem outputLog_filter : outputLog t (events.filter Event.atDevice) =
    outputLog t events := by
  unfold outputLog ttyWriteCalls ttyTransmits ttyWriteReturns
  simp only [List.filterMap_filter, Log.mk.injEq]
  refine ⟨?_, ?_, ?_⟩
  · refine List.filterMap_congr fun e _ => ?_
    cases e <;> rfl
  · refine List.filterMap_congr fun e _ => ?_
    cases e <;> rfl
  · refine List.filterMap_congr fun e _ => ?_
    cases e <;> rfl

theorem outputLog_call {bytes : List UInt8} :
    outputLog t (events ++ [.ttyWriteCall t p bytes]) =
      (outputLog t events).call p bytes := by
  simp [outputLog, ttyWriteCalls, ttyTransmits, ttyWriteReturns, Log.call]

theorem outputLog_piece {chunk : List UInt8} :
    outputLog t (events ++ [.ttyTransmit t p chunk]) =
      (outputLog t events).piece p chunk := by
  simp [outputLog, ttyWriteCalls, ttyTransmits, ttyWriteReturns, Log.piece]

theorem outputLog_ret {result : Int} :
    outputLog t (events ++ [.ttyWriteReturn t p result]) =
      (outputLog t events).ret p result := by
  simp [outputLog, ttyWriteCalls, ttyTransmits, ttyWriteReturns, Log.ret]

/-- The events of other terminals and the transmit traps are not logged. -/
theorem outputLog_other {e : Event} (h : match e with
    | .ttyWriteCall t' _ _ => t' ≠ t
    | .ttyTransmit t' _ _ => t' ≠ t
    | .ttyWriteReturn t' _ _ => t' ≠ t
    | _ => True) :
    outputLog t (events ++ [e]) = outputLog t events := by
  cases e with
  | ttyWriteCall t' _ _ =>
      have ht : t' ≠ t := h
      simp [outputLog, ttyWriteCalls, ttyTransmits, ttyWriteReturns, ht]
  | ttyTransmit t' _ _ =>
      have ht : t' ≠ t := h
      simp [outputLog, ttyWriteCalls, ttyTransmits, ttyWriteReturns, ht]
  | ttyWriteReturn t' _ _ =>
      have ht : t' ≠ t := h
      simp [outputLog, ttyWriteCalls, ttyTransmits, ttyWriteReturns, ht]
  | _ => simp [outputLog, ttyWriteCalls, ttyTransmits, ttyWriteReturns]

end OutputLog

/-! ## The queue of a terminal -/

/-- What the writer of a job is suspended in. -/
inductive InProgress (t : Nat) (j : Job PcbPtr UInt8) : KernelContext → Prop
  | write {buf : Buffer} {len left written : Nat} :
      j.items = bytesOf buf 0 len → j.pieces.flatten = bytesOf buf 0 written →
      InProgress t j (.kernelTtyWrite t buf len left written)

namespace Writing

/-- The calls on terminal `t` are served in order, and those not yet served
stand in its write queue. -/
structure Output (t : Nat) (v : Writing)
    (served pending : List (Job PcbPtr UInt8)) : Prop where
  serves : (outputLog t v.events).Serves terminalMaxLine served pending
  queue : v.queue t = pending.map Job.client
  progress : ∀ j ∈ pending, InProgress t j (v.context j.client)

namespace Output

variable {t u : Nat} {v v' : Writing}
  {served rest pending : List (Job PcbPtr UInt8)} {j : Job PcbPtr UInt8}

theorem of_same (h : Output t v served pending)
    (hlog : outputLog t v'.events = outputLog t v.events)
    (hqueue : v'.queue t = v.queue t)
    (hcontext : ∀ p ∈ v.queue t, v'.context p = v.context p) :
    Output t v' served pending := by
  constructor
  · rw [hlog]
    exact h.serves
  · rw [hqueue]
    exact h.queue
  · intro j hj
    have hmem : j.client ∈ v.queue t := by
      rw [h.queue]
      exact List.mem_map_of_mem hj
    rw [hcontext _ hmem]
    exact h.progress j hj

/-- A step by a process outside the queue. -/
theorem of_aside (h : Output t v served pending)
    (hnot : v.active ∉ v.queue t) {k : KernelContext}
    (hlog : outputLog t v'.events = outputLog t v.events)
    (hqueue : v'.queue t = v.queue t)
    (hcontext : v'.context = upd v.context v.active k) :
    Output t v' served pending := by
  apply h.of_same hlog hqueue
  intro p hp
  have hne : p ≠ v.active := fun heq => hnot (heq ▸ hp)
  rw [hcontext]
  exact upd_other hne _ _

end Output

/-! ## A round of the loop -/

variable {t u : Nat} {v v' : Writing}

theorem sleep_context (t : Nat) (k : KernelContext) :
    (v.sleep t k).context = upd v.context v.active k := rfl

/-- What the end of a call writes. -/
theorem finish_same (t : Nat) (result : Int) :
    (v.finish t result).context = upd v.context v.active .kernelStart ∧
      (v.finish t result).queue = upd v.queue t (v.queue t).tail ∧
      (v.finish t result).events =
        v.events ++ [.ttyWriteReturn t v.active result] := by
  unfold finish
  simp only
  split
  · rename_i hnil
    rw [hnil]
    exact ⟨rfl, rfl, rfl⟩
  · rename_i next rest hcons
    rw [hcons]
    exact ⟨rfl, rfl, rfl⟩

/-- The loop of the active process changes nothing at the other terminals. -/
theorem write_other {buf : Buffer} {len left written : Nat} (hu : u ≠ t) :
    outputLog u (v.write t buf len left written).events =
        outputLog u v.events ∧
      (v.write t buf len left written).queue u = v.queue u ∧
      ∃ k, (v.write t buf len left written).context =
        upd v.context v.active k := by
  have htransmit (chunk : List UInt8) :
      outputLog u (v.events ++ [.ttyTransmit t v.active chunk]) =
        outputLog u v.events := outputLog_other hu.symm
  unfold write
  split
  · exact ⟨rfl, rfl, _, rfl⟩
  · split
    · exact ⟨htransmit _, rfl, _, rfl⟩
    · obtain ⟨hcontext, hqueue, hevents⟩ := finish_same
        (v := v.transmit t (bytesOf buf written left)) t
        ((written + left : Nat) : Int)
      refine ⟨?_, ?_, _, hcontext⟩
      · rw [hevents, outputLog_other hu.symm]
        exact htransmit _
      · rw [hqueue]
        exact upd_other hu _ _

namespace Output

variable {served rest pending : List (Job PcbPtr UInt8)}
  {j : Job PcbPtr UInt8}

/-- The first writer of the queue sleeps, transmits a chunk, or returns. -/
theorem write {buf : Buffer} {len left written : Nat}
    (hserves : (outputLog t v.events).Serves terminalMaxLine served (j :: rest))
    (hqueue : v.queue t = (j :: rest).map Job.client)
    (hrest : ∀ i ∈ rest, InProgress t i (v.context i.client))
    (hclient : j.client = v.active)
    (hnot : v.active ∉ rest.map Job.client)
    (hitems : j.items = bytesOf buf 0 len)
    (hpieces : j.pieces.flatten = bytesOf buf 0 written)
    (hleft : 0 < left) (hlen : left + written = len) :
    ∃ served' pending',
      Output t (v.write t buf len left written) served' pending' := by
  -- the context of the active process does not matter to the others
  have hothers (k : KernelContext) (i : Job PcbPtr UInt8) (hi : i ∈ rest) :
      InProgress t i (upd v.context v.active k i.client) := by
    have hne : i.client ≠ v.active := by
      intro heq
      exact hnot (heq ▸ List.mem_map_of_mem hi)
    rw [upd_other hne]
    exact hrest i hi
  have hchunk (n : Nat) (hpos : 0 < n) (hbound : n ≤ terminalMaxLine) :
      (outputLog t (v.transmit t (bytesOf buf written n)).events).Serves
        terminalMaxLine served (j.add (bytesOf buf written n) :: rest) := by
    have hlength : (bytesOf buf written n).length = n := bytesOf_length _ _ _
    have hpiece := hserves.piece (hlength.symm ▸ hpos) (hlength.symm ▸ hbound)
    rw [hclient, ← outputLog_piece] at hpiece
    exact hpiece
  have hflatten (n : Nat) : (j.add (bytesOf buf written n)).pieces.flatten =
      bytesOf buf 0 (written + n) := by
    rw [Job.add_flatten, hpieces, ← bytesOf_append, Nat.zero_add]
  unfold Writing.write
  split
  · refine ⟨served, j :: rest, hserves, hqueue, ?_⟩
    intro i hi
    rw [sleep_context]
    rcases List.mem_cons.1 hi with rfl | hi
    · rw [hclient, upd_same]
      exact .write hitems hpieces
    · exact hothers _ i hi
  · split
    · refine ⟨served, j.add _ :: rest,
        hchunk terminalMaxLine (by decide) (Nat.le_refl _), hqueue, ?_⟩
      intro i hi
      rw [sleep_context]
      rcases List.mem_cons.1 hi with rfl | hi
      · have hactive : (j.add (bytesOf buf written
            terminalMaxLine)).client = v.active := hclient
        rw [hactive]
        show InProgress t _ (upd v.context v.active _ v.active)
        rw [upd_same]
        exact .write hitems (hflatten _)
      · exact hothers _ i hi
    · rename_i hshort
      obtain ⟨hcontext, hqueue', hevents⟩ := finish_same
        (v := v.transmit t (bytesOf buf written left)) t
        ((written + left : Nat) : Int)
      have hwhole : (j.add (bytesOf buf written left)).pieces.flatten =
          (j.add (bytesOf buf written left)).items := by
        rw [hflatten, Nat.add_comm, hlen]
        exact hitems.symm
      have hlength : ((j.add (bytesOf buf written left)).items.length : Int) =
          ((written + left : Nat) : Int) := by
        show (j.items.length : Int) = _
        rw [hitems, bytesOf_length, ← hlen, Nat.add_comm]
      have hdone := (hchunk left hleft (by omega)).ret hwhole
      rw [hlength] at hdone
      refine ⟨served ++ [j.add (bytesOf buf written left)], rest, ?_, ?_, ?_⟩
      · rw [hevents, outputLog_ret]
        exact hclient ▸ hdone
      · rw [hqueue']
        show upd v.queue t (v.queue t).tail t = _
        rw [upd_same, hqueue]
        rfl
      · intro i hi
        rw [hcontext]
        exact hothers _ i hi

/-- The queue with the active process at its end. -/
theorem enter (h : Output t v served pending) (bytes : List UInt8) :
    let jobs : List (Job PcbPtr UInt8) :=
      pending ++ [⟨v.active, bytes, []⟩]
    (outputLog t (v.enter t bytes).events).Serves terminalMaxLine served
        jobs ∧
      (v.enter t bytes).queue t = jobs.map Job.client := by
  intro jobs
  constructor
  · have hcall := h.serves.call v.active bytes
    rw [← outputLog_call] at hcall
    exact hcall
  · show upd v.queue t (v.queue t ++ [v.active]) t = _
    rw [upd_same, h.queue, List.map_append]
    rfl

theorem enter_other (hu : u ≠ t) (bytes : List UInt8) :
    outputLog u (v.enter t bytes).events = outputLog u v.events ∧
      (v.enter t bytes).queue u = v.queue u :=
  ⟨outputLog_other hu.symm, upd_other hu _ _⟩

theorem writes {len : Nat} {buf : Buffer} (h : Output u v served pending)
    (hnot : v.active ∉ v.queue u) (hlen : 0 < len)
    (hfirst : ((v.enter t (bytesOf buf 0 len)).queue t).head? =
      some v.active) :
    ∃ served' pending', Output u
      ((v.enter t (bytesOf buf 0 len)).write t buf len len 0)
        served' pending' := by
  by_cases hu : u = t
  · subst hu
    obtain ⟨hserves, hqueue⟩ := h.enter (bytesOf buf 0 len)
    have hempty : pending = [] := by
      cases pending with
      | nil => rfl
      | cons j rest =>
          rw [hqueue] at hfirst
          injection hfirst with hfirst
          rw [h.queue] at hnot
          exact absurd (hfirst ▸ List.mem_cons_self) hnot
    subst hempty
    exact write hserves hqueue nofun rfl List.not_mem_nil rfl rfl hlen
      (Nat.add_zero _)
  · obtain ⟨hlog, hqueue⟩ := enter_other (v := v) hu (bytesOf buf 0 len)
    obtain ⟨hlog', hqueue', k, hcontext⟩ :=
      @write_other t u (v.enter t (bytesOf buf 0 len)) buf len len 0 hu
    exact ⟨served, pending, h.of_aside hnot (hlog'.trans hlog)
      (hqueue'.trans hqueue) hcontext⟩

theorem waits {len : Nat} {buf : Buffer} (h : Output u v served pending)
    (hnot : v.active ∉ v.queue u) :
    ∃ served' pending', Output u ((((v.enter t (bytesOf buf 0 len)).block
      Blocked.ttyWrite).setTerminal v.active t).swap false
        (.kernelTtyWrite t buf len len 0)) served' pending' := by
  by_cases hu : u = t
  · subst hu
    obtain ⟨hserves, hqueue⟩ := h.enter (bytesOf buf 0 len)
    refine ⟨served, _, hserves, hqueue, ?_⟩
    intro j hj
    show InProgress u j (upd v.context v.active _ j.client)
    rcases List.mem_append.1 hj with hj | hj
    · have hne : j.client ≠ v.active := by
        intro heq
        rw [h.queue, ← heq] at hnot
        exact hnot (List.mem_map_of_mem hj)
      rw [upd_other hne]
      exact h.progress j hj
    · rw [List.mem_singleton.1 hj, upd_same]
      exact .write rfl rfl
  · obtain ⟨hlog, hqueue⟩ := enter_other (v := v) hu (bytesOf buf 0 len)
    exact ⟨served, pending, h.of_aside hnot hlog hqueue rfl⟩

theorem resumes {len left written : Nat} {buf : Buffer} (hw : WritersWait v)
    (h : Output u v served pending)
    (hctx : v.context v.active = .kernelTtyWrite t buf len left written) :
    ∃ served' pending',
      Output u (v.write t buf len left written) served' pending' := by
  have hqueued := hw.active_queued u
  rw [hctx] at hqueued
  by_cases hu : u = t
  · subst hu
    have hmem : v.active ∈ v.queue u := hqueued.2 rfl
    have hsaved := hw.saved v.active
    rw [hctx] at hsaved
    obtain ⟨hleft, hlen⟩ := of_decide_eq_true hsaved
    have hqueue := h.queue
    cases pending with
    | nil =>
        rw [hqueue] at hmem
        cases hmem
    | cons j rest =>
        have hnot := hw.active_first u _ _ hqueue
        have hclient : j.client = v.active := by
          rw [hqueue] at hmem
          rcases List.mem_cons.1 hmem with heq | hmem
          · exact heq.symm
          · exact absurd hmem hnot
        have hprogress := h.progress j List.mem_cons_self
        rw [hclient, hctx] at hprogress
        cases hprogress with
        | write hitems hpieces =>
            exact write h.serves hqueue
              (fun i hi => h.progress i (List.mem_cons_of_mem _ hi)) hclient
              hnot hitems hpieces hleft hlen
  · have hnot : v.active ∉ v.queue u := by
      intro hmem
      have hto := hqueued.1 hmem
      injection hto with hto
      exact hu hto.symm
    obtain ⟨hlog, hqueue, k, hcontext⟩ :=
      @write_other t u v buf len left written hu
    exact ⟨served, pending, h.of_aside hnot hlog hqueue hcontext⟩

/-! ## Every step -/

theorem change (hw : WritersWait v) (h : Output u v served pending)
    (hchange : v.Change v') :
    ∃ served' pending', Output u v' served' pending' := by
  have hnot (hto : v.Aside) : v.active ∉ v.queue u := hw.not_queued hto u
  cases hchange with
  | stays hto =>
      exact ⟨served, pending, h.of_aside (hnot hto) rfl rfl rfl⟩
  | makes =>
      exact ⟨served, pending, h.of_same rfl rfl fun _ _ => rfl⟩
  | @forks c hc =>
      refine ⟨served, pending, h.of_same rfl rfl ?_⟩
      intro p hp
      have hne : p ≠ c := fun heq => hc.queue u (heq ▸ hp)
      exact upd_other hne _ _
  | delays _ hto =>
      exact ⟨served, pending, h.of_aside (hnot hto) rfl rfl rfl⟩
  | clock hto =>
      exact ⟨served, pending, h.of_aside (hnot hto) rfl rfl rfl⟩
  | @scans v₁ hto hscan =>
      obtain ⟨hactive, hcontext, hqueue, hevents⟩ := hscan.same
      refine ⟨served, pending, h.of_aside (hnot hto) (k := .kernelStart) ?_ ?_
        ?_⟩
      · show outputLog u v₁.events = _
        rw [hevents]
      · exact congrFun hqueue u
      · show upd v₁.context v₁.active _ = _
        rw [hactive, hcontext]
  | writes _ hto hlen hfirst => exact h.writes (hnot hto) hlen hfirst
  | waits _ hto => exact h.waits (hnot hto)
  | resumes _ hctx => exact h.resumes hw hctx
  | opens hto =>
      exact ⟨served, pending, h.of_aside (hnot hto) (outputLog_other trivial)
        rfl rfl⟩
  | @wakes t head rest ticks hto =>
      obtain ⟨hactive, hcontext, hqueue, hevents⟩ :=
        recheck_same (v := v.opened t) head ticks
      refine ⟨served, pending, h.of_aside (hnot hto) (k := .kernelStart) ?_ ?_
        ?_⟩
      · show outputLog u ((v.opened t).recheck head ticks).events = _
        rw [hevents]
        exact outputLog_other trivial
      · exact congrFun hqueue u
      · show upd ((v.opened t).recheck head ticks).context
          ((v.opened t).recheck head ticks).active _ = _
        rw [hactive, hcontext]
        rfl

theorem started (b : Boot) (t : Nat) : Output t b.started.writing [] [] := by
  rw [b.started_writing]
  constructor
  · exact .empty
  · rfl
  · exact nofun

end Output

end Writing

/-! ## Runs -/

/-- The calls on terminal `t` were served one after another, in the order in
which they entered its write queue: their chunks have `1` to `terminalMaxLine`
bytes and make up what was to be written, and the result is its length. -/
def WrittenInOrder (t : Nat) (events : List Event) : Prop :=
  ∃ served pending, (outputLog t events).Serves terminalMaxLine served pending

theorem ttyWrite_complete_in_order {s : Kernel}
    (h : Reachable (fun _ a => a.ofWriters = true) s) (hlive : s.Live)
    (t : Nat) : WrittenInOrder t s.history.trace := by
  have hrun := Reachable.writers (fun _ _ ha => ha)
    (I := fun v => v.WritersWait ∧
      ∀ t, ∃ served pending, v.Output t served pending) ?_ ?_ ?_ ?_ h hlive
  · obtain ⟨-, -, houtput⟩ := hrun
    obtain ⟨served, pending, ht⟩ := houtput t
    have hserves := ht.serves
    rw [show s.writing.events = s.history.trace.filter Event.atDevice from rfl,
      outputLog_filter] at hserves
    exact ⟨served, pending, hserves⟩
  · exact fun _ hv => hv.1.saved
  · exact fun _ hv hto t => hv.1.not_queued hto t
  · intro b _ hmode
    rw [b.kernelStart_writing hmode]
    exact ⟨.started b, fun t => ⟨[], [], .started b t⟩⟩
  · intro v v' ⟨hw, houtput⟩ hchange
    constructor
    · exact hw.change hchange
    · intro t
      obtain ⟨served, pending, ht⟩ := houtput t
      exact ht.change hw hchange

/-- The first writer returns after its second chunk; then the second one
transmits. -/
theorem ttyWrite_complete_in_order_two :
    let labels := tick ++ [call (.fork 2),
      call (.ttyWrite 0 (fun _ => 65) 1500), .resume,
      call (.ttyWrite 0 (fun _ => 66) 5), .resume,
      .trap ⟨0, 0⟩ (.ttyTransmit 0)] ++ tick ++
        [.trap ⟨0, 0⟩ (.ttyTransmit 0)] ++ tick
    let s := (Boot.small 20).kernelStart.run labels
    (ttyTransmits 0 s.history.trace).map Prod.fst = [1, 1, 2] ∧
      ttyWriteReturns 0 s.history.trace = [(1, 1500), (2, 5)] ∧
      WrittenInOrder 0 s.history.trace := by
  intro labels s
  have hreach : Reachable (fun _ a => a.ofWriters = true) s :=
    reachable_small 20 labels (by decide +kernel) (by decide +kernel)
  have hlive : s.Live := .inl (by decide +kernel)
  exact ⟨by decide +kernel, by decide +kernel,
    ttyWrite_complete_in_order hreach hlive 0⟩

end Yalnix
