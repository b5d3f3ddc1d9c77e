import Yalnix.Process.Preemption

/-!
# Both returns of Fork

`KernelFork` returns to the parent at once.  The child is put behind the ready
processes with a copy of the parent's kernel stack, and returns from the same
call when it has had its turn.
-/

namespace Yalnix

open Kernel

theorem Memory.keptContext_copied {m : Memory} {p : PcbPtr}
    (h : (m.kernelContext p).reloadsUserContext = false) :
    m.keptContext p = m.uctxt p := by
  simp [keptContext, h]

namespace Kernel

variable {s : Kernel}

/-- What is left of a `Fork` that has made its child. -/
structure Forked (s : Kernel) (pid : Nat) (s' : Kernel) : Prop where
  mode : s'.mode = .user
  active : s'.activePCB = s.activePCB
  result : s'.reg0 s.activePCB = pid
  ready : s'.readyQ = s.readyQ ++ [s.npcb]
  npcb : s'.npcb = s.npcb + 1
  childPid : s'.pcb.pid s.npcb = pid

theorem ret_reg0 (result : Int) : (s.ret result).reg0 s.activePCB = result :=
  upd_same _ _ _

theorem forkReady_case (child : PcbPtr) :
    (s.forkReady child).mode = .undefined ∨
      (s.forkReady child).mode = .user ∧
        (s.forkReady child).activePCB = s.activePCB ∧
        (s.forkReady child).reg0 s.activePCB = s.pcb.pid child ∧
        (s.forkReady child).readyQ = s.readyQ ++ [child] ∧
        (s.forkReady child).npcb = s.npcb ∧
        (s.forkReady child).pcb.pid = s.pcb.pid := by
  have hcopied :
      ((s.queueAdd (some .readyQ) child).kcCopy child .kernelFork).activePCB =
        s.activePCB ∧
      ((s.queueAdd (some .readyQ) child).kcCopy child .kernelFork).readyQ =
        s.readyQ ++ [child] ∧
      ((s.queueAdd (some .readyQ) child).kcCopy child .kernelFork).npcb =
        s.npcb ∧
      ((s.queueAdd (some .readyQ) child).kcCopy child .kernelFork).pcb.pid =
        s.pcb.pid := by
    unfold kcCopy
    split
    · exact ⟨rfl, rfl, rfl, rfl⟩
    · exact ⟨rfl, rfl, rfl, rfl⟩
  obtain ⟨hactive, hready, hnpcb, hpid⟩ := hcopied
  unfold forkReady
  simp only
  split
  · rename_i hundefined
    exact .inl hundefined
  · refine .inr ⟨rfl, hactive, ?_, hready, hnpcb, hpid⟩
    rw [← hactive, ret_reg0, hpid]

theorem kernelFork_case (pid : Nat) :
    (s.kernelFork pid).mode = .undefined ∨
      (s.kernelFork pid).reg0 s.activePCB = Rc.error ∨
      s.Forked pid (s.kernelFork pid) := by
  unfold kernelFork
  split
  · exact .inl rfl
  · rename_i child forked hinit
    obtain ⟨rfl, hmade⟩ := initProcess_eraseMemory hinit
    have herase := (copyIndices_eraseMemory (s := forked) s.npcb
      s.activePCB).trans hmade
    have hactive : (forked.copyIndices s.npcb s.activePCB).activePCB =
        s.activePCB := (congrArg Kernel.activePCB herase :)
    have hready : (forked.copyIndices s.npcb s.activePCB).readyQ = s.readyQ :=
      (congrArg Kernel.readyQ herase :)
    have hnpcb : (forked.copyIndices s.npcb s.activePCB).npcb = s.npcb + 1 :=
      (congrArg Kernel.npcb herase :)
    have hpid : (forked.copyIndices s.npcb s.activePCB).pcb.pid s.npcb = pid :=
      (congrArg (fun k : Kernel => k.pcb.pid s.npcb) herase :).trans
        (upd_same _ _ _)
    simp only
    generalize forked.copyIndices s.npcb s.activePCB = made at *
    rw [← hactive]
    split
    · exact .inr (.inl (ret_reg0 _))
    · rename_i reserved _
      unfold forkCopy
      split
      · exact .inr (.inl (ret_reg0 _))
      · rename_i table pool _ _
        rcases forkReady_case (s := ((made.setUserPageTable s.npcb
            table).setPfnList pool).setKPt (upd made.kPt reserved invalidPte))
            s.npcb with
          hundefined | ⟨hmode, hsame, hresult, hqueue, hcount, hpids⟩
        · exact .inl hundefined
        · refine .inr (.inr ⟨hmode, hsame.trans hactive, ?_, ?_,
            hcount.trans hnpcb, ?_⟩)
          · rw [← hactive]
            exact hresult.trans (congrArg Nat.cast hpid)
          · rw [← hready]
            exact hqueue
          · exact (congrFun hpids _).trans hpid

end Kernel

namespace Reachable

variable {guard : Kernel → Label → Prop} {s : Kernel} {ctx : UserContext}
  {pid : Nat}

/-- After a fork that does not fail the child waits behind the ready processes,
with the context of its parent. -/
theorem forked (h : Reachable guard s)
    (henabled : (Label.trap ctx (.kernel (.fork pid))).Enabled s)
    (hlive : (s.take (.trap ctx (.kernel (.fork pid)))).Live)
    (hforks : (s.take (.trap ctx (.kernel (.fork pid)))).reg0 s.activePCB ≠
      Rc.error) :
    s.Forked pid (s.take (.trap ctx (.kernel (.fork pid)))) ∧
      (s.take (.trap ctx (.kernel (.fork pid)))).uctxt s.activePCB = ctx ∧
      ((s.take (.trap ctx (.kernel (.fork pid)))).suspended s.npcb).resumesAt =
        .kernelFork ∧
      ((s.take (.trap ctx (.kernel (.fork pid)))).suspended s.npcb).context =
        ctx := by
  have hactive := (Reachable.census h henabled.live).active
  have hne : s.activePCB ≠ s.npcb := Nat.ne_of_lt hactive
  have hforked : s.Forked pid (s.take (.trap ctx (.kernel (.fork pid)))) := by
    rcases kernelFork_case (s := s.enter ctx) pid with hundefined | herror | hf
    · rcases hlive with huser | hkernel
      · exact absurd (hundefined.symm.trans huser) (by simp)
      · exact absurd (hundefined.symm.trans hkernel) (by simp)
    · exact absurd herror hforks
    · exact ⟨hf.mode, hf.active, hf.result, hf.ready, hf.npcb, hf.childPid⟩
  have hctx : (s.enter ctx).uctxt s.activePCB = ctx := upd_same _ _ _
  refine ⟨hforked, ?_⟩
  cases take_memoryEffect hlive with
  | quiet _ _ hfork => exact absurd rfl (hfork _ _)
  | ends hends => cases hends
  | forks hmade hchild =>
      rcases hchild hne with hready | hsame
      · have hcontext : ((s.take (.trap ctx (.kernel (.fork pid)))).suspended
            s.npcb).resumesAt = .kernelFork := hready.context
        have hcopied := Memory.keptContext_copied (p := s.npcb)
          (m := (s.take (.trap ctx (.kernel (.fork pid)))).memory)
          (congrArg KernelContext.reloadsUserContext hready.context)
        exact ⟨(hmade.uctxt _ hne).trans hctx, hcontext,
          hcopied.trans (hready.uctxt.trans hctx)⟩
      · exact absurd (congrArg List.length (hforked.ready.symm.trans hsame))
          (by simp [Kernel.entered, Kernel.enter, Kernel.setUctxt])

end Reachable

/--
`Fork` returns twice: the pid of the child to the parent at once, and `0` to the
child at its first turn, with the same `sp` and `pc` and the page table that the
fork has made, whatever the processes do meanwhile.
-/
theorem fork_returns_twice {s : Kernel} (h : Reachable (fun _ _ => True) s)
    (ctx : UserContext) (pid : Nat) (rest : List Label)
    (hadmits : s.Admits (fun _ _ => True)
      (.trap ctx (.kernel (.fork pid)) :: rest))
    (hforks : (s.take (.trap ctx (.kernel (.fork pid)))).reg0 s.activePCB ≠
      Rc.error)
    (hclocks : s.readyQ.length + 1 < rest.countP Label.clocks) :
    let s₁ := s.take (.trap ctx (.kernel (.fork pid)))
    (s₁.mode = .user ∧ s₁.activePCB = s.activePCB ∧
      s₁.reg0 s.activePCB = pid ∧ s₁.uctxt s.activePCB = ctx) ∧
    s₁.pcb.pid s.npcb = pid ∧
    ∃ front back, rest = front ++ .resume :: back ∧
      front.countP Label.clocks ≤ s.readyQ.length + 1 ∧
      s₁.Away s.npcb front ∧
      let s₂ := s₁.run (front ++ [.resume])
      s₂.mode = .user ∧ s₂.activePCB = s.npcb ∧ s₂.reg0 s.npcb = 0 ∧
        s₂.uctxt s.npcb = ctx ∧ s₂.space s.npcb = s₁.space s.npcb := by
  intro s₁
  have henabled := hadmits.1.1
  have hlive : s₁.Live := by
    cases rest with
    | nil => simp at hclocks
    | cons b rest => exact hadmits.2.1.1.live
  obtain ⟨hforked, huctxt, hcontext, hstart⟩ := h.forked henabled hlive hforks
  have hreach : Reachable (fun _ _ => True) s₁ :=
    .next h trivial (.take henabled)
  have hready : s₁.readyQ[s.readyQ.length]? = some s.npcb := by
    rw [hforked.ready]
    simp
  have hchild : s.npcb < s₁.npcb := by
    rw [hforked.npcb]
    exact Nat.lt_succ_self _
  have hother : s₁.activePCB ≠ s.npcb := by
    rw [hforked.active]
    exact Nat.ne_of_lt (Reachable.census h henabled.live).active
  refine ⟨⟨hforked.mode, hforked.active, hforked.result, huctxt⟩,
    hforked.childPid, ?_⟩
  obtain ⟨front, back, hrest, hcount, haway, hfront, hactive, hkernel⟩ :=
    hreach.first_turn rest hadmits.2 hready hchild hother hclocks
  refine ⟨front, back, hrest, hcount, haway, ?_⟩
  obtain ⟨hspace, hsuspended, hgets⟩ :=
    hreach.run_keeps hchild hother hfront (.inr hkernel) haway
  have hresumes : (s₁.run front).pcb.kernelContext s.npcb = .kernelFork :=
    (congrArg Suspended.resumesAt hsuspended).trans hcontext
  have hreturns : (s₁.run front).resume = (s₁.run front).ret 0 := by
    unfold Kernel.resume
    rw [hactive, hresumes]
  intro s₂
  have hs₂ : s₂ = (s₁.run front).ret 0 :=
    (run_append front [.resume]).trans hreturns
  rw [hs₂]
  refine ⟨rfl, hactive, ?_, (hgets hactive).2.trans hstart, hspace⟩
  rw [← hactive]
  exact ret_reg0 0

/-- The parent exits before its child has run, and another process goes first. -/
theorem fork_returns_twice_orphan :
    let s := (Boot.small 30).kernelStart.run (tick ++ [call (.fork 2)])
    let rest := [call (.exit 0), .resume] ++ tick ++ tick ++ tick
    let s₁ := s.take (.trap ⟨8, 4⟩ (.kernel (.fork 3)))
    s₁.reg0 1 = 3 ∧ ∃ front back, rest = front ++ .resume :: back ∧
      front.countP Label.clocks ≤ 2 ∧
        (s₁.run (front ++ [.resume])).reg0 3 = 0 ∧
          (s₁.run (front ++ [.resume])).uctxt 3 = ⟨8, 4⟩ := by
  intro s rest s₁
  have hreach : Reachable (fun _ _ => True) s :=
    reachable_small 30 _ (by decide +kernel) (by decide +kernel)
  have hadmits : s.Admits (fun _ _ => True)
      (.trap ⟨8, 4⟩ (.kernel (.fork 3)) :: rest) := by decide +kernel
  have hforks : s₁.reg0 s.activePCB ≠ Rc.error := by decide +kernel
  have hclocks : s.readyQ.length + 1 < rest.countP Label.clocks := by
    decide +kernel
  have hnpcb : s.npcb = 3 := by decide +kernel
  have hactive : s.activePCB = 1 := by decide +kernel
  have hlength : s.readyQ.length = 1 := by decide +kernel
  clear_value s
  obtain ⟨⟨-, -, hresult, -⟩, -, front, back, hsplit, hcount, -, -, -, hzero,
    hstart, -⟩ := fork_returns_twice hreach ⟨8, 4⟩ 3 rest hadmits hforks hclocks
  rw [hnpcb] at hzero hstart
  rw [hactive] at hresult
  rw [hlength] at hcount
  exact ⟨hresult, front, back, hsplit, hcount, hzero, hstart⟩

end Yalnix
