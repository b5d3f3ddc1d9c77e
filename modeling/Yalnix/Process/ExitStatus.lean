import Yalnix.Foundation.HandOver
import Yalnix.Process.Families

/-!
# Exit statuses

The status of a process travels in its own PCB through `defunct_q`, or in the
`blocked_code` of a parent that is woken from `Wait`.  Both ways hand it over as
`HandOver` says: the processes are the workers, their creators the clients.
-/

namespace Yalnix

open HandOver

namespace Event

/-- The status of a child that a `Wait` stores. -/
def report : Event → Option (PcbPtr × PcbPtr × Int)
  | .waitReturn p (some c) (some status) _ => some (p, c, status)
  | _ => none

/-- The code that the process exits with. -/
def exitOf (c : PcbPtr) : Event → Option Int
  | .exit p code => if p = c then some code else none
  | _ => none

theorem report_atDevice {e : Event} (h : e.atDevice = true) :
    e.report = none := by
  cases e <;> first | rfl | cases h

theorem exitOf_atDevice {e : Event} {c : PcbPtr} (h : e.atDevice = true) :
    e.exitOf c = none := by
  cases e <;> first | rfl | cases h

end Event

/-- What reads no device events reads the core of the trace. -/
theorem filterMap_process {Value : Type*} {f : Event → Option Value}
    (hf : ∀ e : Event, e.atDevice = true → f e = none) (trace : List Event) :
    (trace.filter fun e => !e.atDevice).filterMap f = trace.filterMap f := by
  induction trace with
  | nil => rfl
  | cons e trace ih =>
      cases he : e.atDevice with
      | true => simp [he, hf e he, ih]
      | false => simp [he, List.filterMap_cons, ih]

namespace Kernel

variable {s r : Kernel} {a : Label} {p c d : PcbPtr} {code : Int}

/-- Who was told the status of whom. -/
def reports (s : Kernel) : List (PcbPtr × PcbPtr × Int) :=
  s.history.trace.filterMap Event.report

/-- A `Wait` has stored the status of the process. -/
def Told (s : Kernel) (c : PcbPtr) : Prop := ∃ e ∈ s.reports, e.2.1 = c

instance (s : Kernel) (c : PcbPtr) : Decidable (s.Told c) :=
  inferInstanceAs (Decidable (∃ e ∈ s.reports, e.2.1 = c))

/-- The code a process has exited with. -/
def codeOf (s : Kernel) (c : PcbPtr) : Option Int :=
  (s.history.trace.filterMap (Event.exitOf c)).getLast?

/-- Where the status of a process is. -/
def place (s : Kernel) (c : PcbPtr) : Place :=
  if ¬ s.Member c then .absent
  else if s.history.terminated c = false then .working
  else if c ∈ s.defunctQ then .kept
  else if s.history.reporter (s.history.creator c) = some c then .carried
  else if s.Told c then .taken
  else .dropped

/-- The hand-over that a state of the machine shows. -/
def desk (s : Kernel) : Desk PcbPtr PcbPtr Int :=
  { place := s.place
    client := s.history.creator
    result := s.codeOf
    left := s.left
    log := s.reports }

theorem reports_core : s.core.reports = s.reports :=
  filterMap_process (fun _ => Event.report_atDevice) _

theorem codeOf_core : s.core.codeOf = s.codeOf :=
  funext fun c => congrArg List.getLast?
    (filterMap_process (fun _ => Event.exitOf_atDevice (c := c)) _)

theorem desk_core : s.core.desk = s.desk := by
  unfold desk place Told
  simp only [reports_core, codeOf_core]
  rfl

theorem reports_emit (e : Event) :
    (s.emit e).reports = s.reports ++ e.report.toList := by
  cases h : e.report <;> simp [reports, emit, setHistory, h]

theorem codeOf_emit (e : Event) : (s.emit e).codeOf c =
    (e.exitOf c).or (s.codeOf c) := by
  cases h : e.exitOf c <;> simp [codeOf, emit, setHistory, h]

theorem desk_eq (hnpcb : r.npcb = s.npcb) (hidle : r.idlePCB = s.idlePCB)
    (hhistory : r.history = s.history) (hdefunct : r.defunctQ = s.defunctQ) :
    r.desk = s.desk := by
  rcases r with ⟨⟩
  rcases s with ⟨⟩
  simp only at hnpcb hidle hhistory hdefunct
  subst hnpcb hidle hhistory hdefunct
  rfl

/-- An event that is about no status. -/
theorem desk_emit {e : Event} (hreport : e.report = none)
    (hexit : ∀ c, e.exitOf c = none) : (s.emit e).desk = s.desk := by
  have hreports : (s.emit e).reports = s.reports := by
    simp [reports_emit, hreport]
  have hcodes : (s.emit e).codeOf = s.codeOf := by
    funext c
    simp [codeOf_emit, hexit c]
  refine Desk.ext (funext fun c => ?_) rfl hcodes rfl hreports
  have htold : (s.emit e).Told c ↔ s.Told c := by simp [Told, hreports]
  show Kernel.place _ c = s.place c
  simp only [place, htold]
  rfl

theorem place_absent : s.place c = .absent ↔ ¬ s.Member c := by
  unfold place
  grind

theorem place_working : s.place c = .working ↔
    s.Member c ∧ s.history.terminated c = false := by
  unfold place
  grind

theorem place_kept : s.place c = .kept ↔
    s.Member c ∧ s.history.terminated c = true ∧ c ∈ s.defunctQ := by
  unfold place
  grind

theorem place_carried : s.place c = .carried ↔
    s.Member c ∧ s.history.terminated c = true ∧ c ∉ s.defunctQ ∧
      s.history.reporter (s.history.creator c) = some c := by
  unfold place
  grind

/-- Where a status is before its creator has left. -/
theorem place_of_terminated (hc : s.Member c)
    (hterm : s.history.terminated c = true) : s.place c = .kept ∨
      s.place c = .carried ∨ s.place c = .taken ∨ s.place c = .dropped := by
  unfold place
  grind

/-- A new process is working for the one that forked it. -/
theorem desk_forked (hpop : Population s) (hplaced : Placement s) (pid : Nat) :
    ((s.forked pid).setMode .user).desk = s.desk.hire s.npcb s.activePCB := by
  refine Desk.ext (funext fun c => ?_) rfl rfl rfl rfl
  show ((s.forked pid).setMode .user).place c = upd s.place s.npcb .working c
  by_cases hc : c = s.npcb
  · subst hc
    have hpos : 0 < s.npcb := Nat.lt_of_le_of_lt (Nat.zero_le _) hpop.active
    rw [upd_same, place_working]
    exact ⟨⟨hpos, Nat.lt_succ_self _⟩, hplaced.fresh _ (Nat.le_refl _)⟩
  · have hmember : ((s.forked pid).setMode .user).Member c ↔ s.Member c := by
      refine and_congr_right fun _ => ⟨fun hlt => ?_, Nat.lt_succ_of_lt⟩
      exact Nat.lt_of_le_of_ne (Nat.lt_succ_iff.1 hlt) hc
    have hcreator : ((s.forked pid).setMode .user).history.creator c =
        s.history.creator c := upd_other hc _ _
    rw [upd_other hc]
    unfold place
    rw [hcreator]
    by_cases hm : s.Member c
    · simp only [hmember, hm]
      rfl
    · simp [hmember, hm]

/-- A status leaves its place and is reported to its creator. -/
theorem desk_take (hnpcb : r.npcb = s.npcb) (hleft : r.left = s.left)
    (hterm : r.history.terminated = s.history.terminated)
    (hcreator : r.history.creator = s.history.creator)
    (hcodes : r.codeOf = s.codeOf)
    (hreports : r.reports = s.reports ++ [(s.history.creator c, c, code)])
    (hc : s.place c = .kept ∨ s.place c = .carried)
    (hdefunct : ∀ d, d ∈ r.defunctQ ↔ d ∈ s.defunctQ ∧ d ≠ c)
    (hreporter : ∀ d, r.history.reporter (s.history.creator d) = some d ↔
      s.history.reporter (s.history.creator d) = some d ∧ d ≠ c) :
    r.desk = s.desk.take c code := by
  refine Desk.ext (funext fun d => ?_) hcreator hcodes hleft hreports
  show r.place d = upd s.place c .taken d
  have hmember : r.Member d ↔ s.Member d := by simp [Member, hnpcb]
  have htold : r.Told d ↔ s.Told d ∨ c = d := by
    simp [Told, hreports, or_and_right, exists_or]
  have hthere : s.Member c ∧ s.history.terminated c = true := by
    rcases hc with hc | hc
    · exact ⟨(place_kept.1 hc).1, (place_kept.1 hc).2.1⟩
    · exact ⟨(place_carried.1 hc).1, (place_carried.1 hc).2.1⟩
  by_cases hd : d = c
  · subst hd
    simp [place, hmember, hthere, hterm, hcreator, hdefunct, hreporter, htold]
  · simp [place, hmember, hterm, hcreator, hdefunct, hreporter, htold, hd,
      Ne.symm hd]

/-- The running process ends: what was kept for it is dropped, and its own
status goes to `dest`. -/
theorem desk_exited (hsound : Sound s.desk) (hnpcb : r.npcb = s.npcb)
    (hidle : r.idlePCB = s.idlePCB)
    (hterm : r.history.terminated = upd s.history.terminated s.activePCB true)
    (hcreator : r.history.creator = s.history.creator)
    (htrace : r.history.trace =
      s.history.trace ++ [.exit s.activePCB code])
    (hactive : s.place s.activePCB = .working) {dest : Place}
    (hdest : dest = .kept ∨ dest = .carried ∨ dest = .dropped)
    (hdefunct : ∀ d, d ∈ r.defunctQ ↔
      d ∈ s.defunctQ ∧ s.history.creator d ≠ s.activePCB ∨
        d = s.activePCB ∧ dest = .kept)
    (hreporter : ∀ d, r.history.reporter (s.history.creator d) = some d ↔
      s.history.reporter (s.history.creator d) = some d ∨
        d = s.activePCB ∧ dest = .carried)
    (hfree : s.history.reporter s.activePCB = none)
    (hown : s.activePCB ∉ s.defunctQ ∧ s.history.reporter
      (s.history.creator s.activePCB) ≠ some s.activePCB) :
    r.desk = (s.desk.leave s.activePCB).finish s.activePCB code dest := by
  have hreports : r.reports = s.reports := by
    simp [reports, htrace, Event.report]
  have htold (d : PcbPtr) : r.Told d ↔ s.Told d := by simp [Told, hreports]
  have hcodes (c : PcbPtr) : r.codeOf c =
      upd s.codeOf s.activePCB (some code) c := by
    by_cases hc : c = s.activePCB
    · subst hc
      simp [codeOf, htrace, Event.exitOf]
    · simp [codeOf, htrace, Event.exitOf, Ne.symm hc, hc]
  have huntold {d : PcbPtr} (hd : s.place d ≠ .taken) : ¬ s.Told d := by
    rintro ⟨e, he, rfl⟩
    exact hd (hsound.taken_of_mem he)
  refine Desk.ext (funext fun d => ?_) hcreator (funext hcodes)
    (funext fun p => ?_) hreports
  · show r.place d = upd (fun w => if s.place w = .kept ∧
      s.history.creator w = s.activePCB then .dropped else s.place w)
        s.activePCB dest d
    have hmember : r.Member d ↔ s.Member d := by simp [Member, hnpcb]
    by_cases hd : d = s.activePCB
    · subst hd
      have hmem := huntold (d := s.activePCB) (by simp [hactive])
      have hwork := place_working.1 hactive
      rcases hdest with rfl | rfl | rfl <;>
        simp [place, hmember, hwork, hterm, hcreator, hdefunct, hreporter,
          htold, hmem, hown]
    · rw [upd_other hd]
      by_cases hm : s.Member d
      · cases ht : s.history.terminated d with
        | false => simp [place, hmember, hm, hterm, hd, ht]
        | true =>
            by_cases hmem : d ∈ s.defunctQ
            · have hkept := place_kept.2 ⟨hm, ht, hmem⟩
              have htold' := huntold (d := d) (by simp [hkept])
              rw [hkept]
              by_cases hchild : s.history.creator d = s.activePCB
              · have hrep := hreporter d
                rw [hchild] at hrep
                simp [place, hmember, hm, hterm, hcreator, hdefunct, htold,
                  htold', hd, ht, hchild, hrep, hfree]
              · simp [place, hmember, hm, hterm, hdefunct, hd, ht, hmem,
                  hchild]
            · have hnot : s.place d ≠ .kept := fun h =>
                hmem (place_kept.1 h).2.2
              simp only [hnot, false_and, if_false]
              simp [place, hmember, hm, hterm, hcreator, hdefunct, hreporter,
                htold, hd, ht, hmem]
      · simp [place, hmember, hm]
  · show r.left p = upd s.left s.activePCB true p
    by_cases hp : p = s.activePCB
    · simp [left, hterm, hp]
    · simp [left, hterm, hidle, hp]

/-! ## The invariant -/

/-- The hand-over since `start`, with the codes where the machine keeps them. -/
structure Handed (start : Desk PcbPtr PcbPtr Int) (s : Kernel) : Prop where
  desk : Run start s.desk
  kept : ∀ d ∈ s.defunctQ, s.codeOf d = some (s.pcb.exitCode d)
  carried : ∀ p c, s.history.reporter p = some c → s.place c = .carried ∧
    s.history.creator c = p ∧ s.codeOf c = some (s.pcb.blockedCode p)
  ended : ∀ c code, .exit c code ∈ s.history.trace → s.Member c ∧
    s.history.terminated c = true ∧ s.codeOf c = some code
  returned : ∀ p child status result,
    .waitReturn p child status result ∈ s.history.trace →
      child = none ∧ status = none ∧ result = Rc.error ∨
      result = 0 ∧ ∃ c code, child = some c ∧ status = some code

namespace Handed

variable {start : Desk PcbPtr PcbPtr Int}

theorem of_core (h : s.Handed start) (hcore : r.core = s.core) :
    r.Handed start := by
  have hs : s.core.Handed start :=
    { desk := desk_core.symm ▸ h.desk
      kept := fun d hd => by rw [codeOf_core]; exact h.kept d hd
      carried := fun p c hp => by
        have hplace : s.core.place = s.place := congrArg Desk.place desk_core
        rw [hplace, codeOf_core]
        exact h.carried p c hp
      ended := fun c code hmem => by
        rw [codeOf_core]
        exact h.ended c code (List.mem_of_mem_filter hmem)
      returned := fun p child status result hmem =>
        h.returned p child status result (List.mem_of_mem_filter hmem) }
  rw [← hcore] at hs
  have hkept (e : Event) (he : e.atDevice = false)
      (hmem : e ∈ r.history.trace) : e ∈ r.core.history.trace :=
    List.mem_filter.2 ⟨hmem, by simp [he]⟩
  exact
    { desk := desk_core ▸ hs.desk
      kept := fun d hd => by rw [← codeOf_core]; exact hs.kept d hd
      carried := fun p c hp => by
        have hplace : r.core.place = r.place := congrArg Desk.place desk_core
        rw [← hplace, ← codeOf_core]
        exact hs.carried p c hp
      ended := fun c code hmem => by
        rw [← codeOf_core]
        exact hs.ended c code (hkept _ rfl hmem)
      returned := fun p child status result hmem =>
        hs.returned p child status result (hkept _ rfl hmem) }

/-- A step that leaves the statuses where they are. -/
theorem of_eq (h : s.Handed start) (hnpcb : r.npcb = s.npcb)
    (hidle : r.idlePCB = s.idlePCB) (hhistory : r.history = s.history)
    (hdefunct : r.defunctQ = s.defunctQ)
    (hexit : r.pcb.exitCode = s.pcb.exitCode)
    (hcode : ∀ p, s.history.reporter p ≠ none →
      r.pcb.blockedCode p = s.pcb.blockedCode p) : r.Handed start := by
  have hdesk := desk_eq hnpcb hidle hhistory hdefunct
  have hplace : r.place = s.place := congrArg Desk.place hdesk
  have hcodes : r.codeOf = s.codeOf := congrArg Desk.result hdesk
  refine ⟨hdesk ▸ h.desk, ?_, fun p c hp => ?_, ?_, hhistory ▸ h.returned⟩
  · rw [hdefunct, hcodes, hexit]
    exact h.kept
  · rw [hhistory] at hp
    rw [hplace, hcodes, hhistory, hcode p (by simp [hp])]
    exact h.carried p c hp
  · simpa only [hhistory, hcodes, Member, hnpcb] using h.ended

/-- A `Wait` that fails reports nothing. -/
theorem failed (h : s.Handed start) :
    (s.emit (.waitReturn p none none Rc.error)).Handed start := by
  have hdesk := desk_emit (s := s) (e := .waitReturn p none none Rc.error) rfl
    fun _ => rfl
  have hplace : (s.emit (.waitReturn p none none Rc.error)).place = s.place :=
    congrArg Desk.place hdesk
  have hcodes : (s.emit (.waitReturn p none none Rc.error)).codeOf =
      s.codeOf := congrArg Desk.result hdesk
  refine ⟨hdesk ▸ h.desk, fun d hd => ?_, fun x c hx => ?_,
    fun c code hmem => ?_, fun x child status result hmem => ?_⟩
  · rw [hcodes]
    exact h.kept d hd
  · rw [hplace, hcodes]
    exact h.carried x c hx
  · rw [hcodes]
    exact h.ended c code (by simpa [emit, setHistory] using hmem)
  · rcases List.mem_append.1 hmem with hmem | hmem
    · exact h.returned x child status result hmem
    · cases List.mem_singleton.1 hmem
      exact .inl ⟨rfl, rfl, rfl⟩

theorem forked (h : s.Handed start) (hpop : Population s) (hplaced : Placement s)
    (hwaiting : s.Waiting) (pid : Nat) :
    ((s.forked pid).setMode .user).Handed start := by
  have hdesk := desk_forked hpop hplaced pid
  have hfresh : s.place s.npcb = .absent :=
    place_absent.2 fun hm => Nat.lt_irrefl _ hm.2
  have hplace {c : PcbPtr} (hc : c ≠ s.npcb) :
      ((s.forked pid).setMode .user).place c = s.place c :=
    (congrFun (congrArg Desk.place hdesk) c).trans (upd_other hc _ _)
  refine ⟨?_, fun d hd => ?_, fun p c hp => ?_, fun c code hmem => ?_,
    h.returned⟩
  · rw [hdesk]
    exact h.desk.next (.hire _ _ hfresh)
  · have hne : d ≠ s.npcb := Nat.ne_of_lt (hpop.defunct d hd).2
    have hexit : ((s.forked pid).setMode .user).pcb.exitCode d =
        s.pcb.exitCode d := upd_other hne _ _
    rw [hexit]
    exact h.kept d hd
  · obtain ⟨hcarried, hcreator, hcode⟩ := h.carried p c hp
    have hc : c ≠ s.npcb := fun heq => by simp [heq, hfresh] at hcarried
    have hp' : p ≠ s.npcb := fun heq => by
      have hnone := hwaiting.reporter_fresh hpop (Nat.le_of_eq heq.symm)
      exact absurd (hp.symm.trans hnone) nofun
    have hsame : ((s.forked pid).setMode .user).pcb.blockedCode p =
        s.pcb.blockedCode p := upd_other hp' _ _
    rw [hplace hc, hsame]
    exact ⟨hcarried, (upd_other hc _ _).trans hcreator, hcode⟩
  · obtain ⟨hm, hterm, hcode⟩ := h.ended c code hmem
    exact ⟨⟨hm.1, Nat.lt_succ_of_lt hm.2⟩, hterm, hcode⟩

/-- A status is stored by a `Wait` of the running process. -/
theorem took (h : s.Handed start) (hdesk : r.desk = s.desk.take c code)
    (htrace : r.history.trace = s.history.trace ++
      [.waitReturn p (some c) (some code) 0])
    (hthere : s.place c = .kept ∨ s.place c = .carried)
    (hcode : s.codeOf c = some code) (hnpcb : r.npcb = s.npcb)
    (hterm : r.history.terminated = s.history.terminated)
    (hdefunct : ∀ d ∈ r.defunctQ, d ∈ s.defunctQ)
    (hexit : r.pcb.exitCode = s.pcb.exitCode)
    (hreporter : ∀ x d, r.history.reporter x = some d →
      s.history.reporter x = some d ∧ d ≠ c ∧
        r.pcb.blockedCode x = s.pcb.blockedCode x) : r.Handed start := by
  have hcodes : r.codeOf = s.codeOf := congrArg Desk.result hdesk
  have hcreator : r.history.creator = s.history.creator :=
    congrArg Desk.client hdesk
  refine ⟨?_, fun d hd => ?_, fun x d hx => ?_, fun d code' hmem => ?_,
    fun p' child status result hmem => ?_⟩
  · rw [hdesk]
    exact h.desk.next (.take _ _ hthere hcode)
  · rw [hcodes, hexit]
    exact h.kept d (hdefunct d hd)
  · obtain ⟨hx', hd, hsame⟩ := hreporter x d hx
    have hplace : r.place d = s.place d :=
      (congrFun (congrArg Desk.place hdesk) d).trans (upd_other hd _ _)
    rw [hplace, hcodes, hcreator, hsame]
    exact h.carried x d hx'
  · have hmem' : .exit d code' ∈ s.history.trace := by
      simpa [htrace] using hmem
    simpa [Member, hnpcb, hterm, hcodes] using h.ended d code' hmem'
  · rw [htrace, List.mem_append, List.mem_singleton] at hmem
    rcases hmem with hmem | hmem
    · exact h.returned p' child status result hmem
    · cases hmem
      exact .inr ⟨rfl, c, code, rfl, rfl⟩

theorem reaped (h : s.Handed start) (hpop : Population s) (hsettled : Settled s)
    (htree : Tree s.kin) (hlinked : s.Linked) (hwaiting : s.Waiting)
    (hmode : s.mode = .user) (hne : s.activePCB ≠ s.idlePCB)
    {queue : List PcbPtr}
    (hreap : reapLoop (fun d => decide (s.pcb.ppid d = s.pcb.pid s.activePCB))
      s.defunctQ.length s.defunctQ = (some c, queue)) :
    ((((s.setDefunctQ queue).setNumChildren s.activePCB
      (s.pcb.numChildren s.activePCB - 1)).emit
        (.waitReturn s.activePCB (some c) (some (s.pcb.exitCode c)) 0)).setMode
          .user).Handed start := by
  obtain ⟨hchild, hperm⟩ := reapLoop_some hreap
  have hnodup : (c :: queue).Nodup := hperm.nodup_iff.2 htree.nodup
  have hmem : c ∈ s.defunctQ := hperm.subset List.mem_cons_self
  have hmember := hpop.defunct c hmem
  have hcreator := (hlinked.creator_eq hpop hmember (.inr hmem)
    (hpop.active_member hne) (by simpa using hchild)).1
  have hfree := hwaiting.reporter_active hsettled hmode
  have hkept : s.place c = .kept :=
    place_kept.2 ⟨hmember, htree.dead c hmem, hmem⟩
  have hqueue (d : PcbPtr) : d ∈ queue ↔ d ∈ s.defunctQ ∧ d ≠ c := by
    rw [← hperm.mem_iff, List.mem_cons]
    have := (List.nodup_cons.1 hnodup).1
    grind
  have hnot {x d : PcbPtr} (hx : s.history.reporter x = some d) : d ≠ c :=
    fun heq => by simpa [heq, hkept] using (h.carried x d hx).1
  refine h.took (desk_take rfl rfl rfl rfl ?_ ?_ (.inl hkept) hqueue ?_) rfl
    (.inl hkept) (h.kept c hmem) rfl rfl (fun d hd => ((hqueue d).1 hd).1) rfl
    fun x d hx => ⟨hx, hnot hx, rfl⟩
  · funext d
    exact codeOf_emit _
  · rw [hcreator]
    exact reports_emit _
  · exact fun d => ⟨fun hd => ⟨hd, hnot hd⟩, And.left⟩

/-- The status that a process carries when it resumes in `Wait`. -/
theorem resumed (h : s.Handed start) (hwaiting : s.Waiting)
    (hmode : s.mode = .kernel) (hne : s.activePCB ≠ s.idlePCB)
    (hwaits : (s.pcb.kernelContext s.activePCB).waits = true) :
    ((((s.emit (.waitReturn s.activePCB (s.history.reporter s.activePCB)
      (some (s.pcb.blockedCode s.activePCB)) 0)).setBlockedCode s.activePCB
        Blocked.notBlocked).setReporter s.activePCB none).setMode
          .user).Handed start := by
  have hsome : (s.history.reporter s.activePCB).isSome = true :=
    (hwaiting.awaits s.activePCB).carries.2 ⟨.inr ⟨rfl, hne, hmode⟩, hwaits⟩
  obtain ⟨c, hc⟩ := Option.isSome_iff_exists.1 hsome
  obtain ⟨hcarried, hcreator, hcode⟩ := h.carried _ _ hc
  rw [hc]
  have hdefunct := (place_carried.1 hcarried).2.2.1
  have hnot {x d : PcbPtr} (hx : s.history.reporter x = some d)
      (hxa : x ≠ s.activePCB) : d ≠ c := fun heq => by
    have hcreator' := (h.carried x d hx).2.1
    rw [heq, hcreator] at hcreator'
    exact hxa hcreator'.symm
  have hother {x d : PcbPtr}
      (hx : upd s.history.reporter s.activePCB none x = some d) :
      x ≠ s.activePCB ∧ s.history.reporter x = some d := by
    by_cases heq : x = s.activePCB
    · simp [heq] at hx
    · exact ⟨heq, by simpa [heq] using hx⟩
  refine h.took (desk_take rfl rfl rfl rfl ?_ ?_ (.inr hcarried) ?_ ?_) rfl
    (.inr hcarried) hcode rfl rfl (fun _ => id) rfl fun x d hx => ?_
  · funext d
    exact codeOf_emit _
  · rw [hcreator]
    exact reports_emit _
  · refine fun d => ⟨fun hd => ⟨hd, ?_⟩, And.left⟩
    rintro rfl
    exact hdefunct hd
  · refine fun d => ⟨fun hd => ?_, fun hd => ?_⟩
    · obtain ⟨hxa, hx⟩ := hother hd
      exact ⟨hx, hnot hx hxa⟩
    · have hxa : s.history.creator d ≠ s.activePCB := fun heq => by
        rw [heq, hc] at hd
        exact hd.2 (Option.some.inj hd.1).symm
      exact (upd_other hxa _ _).trans hd.1
  · obtain ⟨hxa, hx'⟩ := hother hx
    exact ⟨hx', hnot hx' hxa, upd_other hxa _ _⟩

/-- The running process ends and its status goes to `dest`. -/
theorem finished (h : s.Handed start) (dest : Place) (hpop : Population s)
    (hsettled : Settled s) (htree : Tree s.kin) (hwaiting : s.Waiting)
    (hmode : s.mode = .user) (hne : s.activePCB ≠ s.idlePCB)
    (hnpcb : r.npcb = s.npcb) (hidle : r.idlePCB = s.idlePCB)
    (hterm : r.history.terminated = upd s.history.terminated s.activePCB true)
    (hcreator : r.history.creator = s.history.creator)
    (htrace : r.history.trace = s.history.trace ++ [.exit s.activePCB code])
    (hexit : r.pcb.exitCode = upd s.pcb.exitCode s.activePCB code)
    (hdest : dest.Delivery (s.left (s.history.creator s.activePCB)))
    (hdefunct : ∀ d, d ∈ r.defunctQ ↔
      d ∈ s.defunctQ ∧ s.history.creator d ≠ s.activePCB ∨
        d = s.activePCB ∧ dest = .kept)
    (hreporter : ∀ p, r.history.reporter p =
      if p = s.history.creator s.activePCB ∧ dest = .carried then
        some s.activePCB else s.history.reporter p)
    (hfree : dest = .carried →
      s.history.reporter (s.history.creator s.activePCB) = none)
    (hcode : ∀ p, r.pcb.blockedCode p =
      if p = s.history.creator s.activePCB ∧ dest = .carried then code
      else s.pcb.blockedCode p) : r.Handed start := by
  have hwork : s.place s.activePCB = .working :=
    place_working.2 ⟨hpop.active_member hne, hsettled.live⟩
  have hnotDefunct : s.activePCB ∉ s.defunctQ := fun hmem => by
    have hdead : s.history.terminated s.activePCB = true := htree.dead _ hmem
    simp [hsettled.live] at hdead
  have hnot {x d : PcbPtr} (hx : s.history.reporter x = some d) :
      d ≠ s.activePCB := fun heq => by
    simpa [heq, hwork] using (h.carried x d hx).1
  have hdesk : r.desk =
      (s.desk.leave s.activePCB).finish s.activePCB code dest := by
    refine desk_exited h.desk.sound hnpcb hidle hterm hcreator htrace hwork ?_
      hdefunct (fun d => ?_) (hwaiting.reporter_active hsettled hmode)
      ⟨hnotDefunct, fun hx => hnot hx rfl⟩
    · rcases hdest with hd | hd | hd
      · exact .inl hd
      · exact .inr (.inl hd)
      · exact .inr (.inr hd.1)
    · rw [hreporter]
      by_cases hc : dest = .carried
      · have hnone := hfree hc
        by_cases hd : s.history.creator d = s.history.creator s.activePCB
        · simp only [hd, hc, and_self, if_true, hnone, and_true]
          simp [eq_comm]
        · have hd' : d ≠ s.activePCB := fun heq => hd (by rw [heq])
          simp [hd, hd']
      · simp [hc]
  have hcodes (d : PcbPtr) : r.codeOf d =
      upd s.codeOf s.activePCB (some code) d :=
    congrFun (congrArg Desk.result hdesk) d
  have hself : r.codeOf s.activePCB = some code := by rw [hcodes, upd_same]
  refine ⟨?_, fun d hd => ?_, fun x d hx => ?_, fun d code' hmem => ?_,
    fun p' child status result hmem => ?_⟩
  · rw [hdesk]
    refine (h.desk.next (.leave s.activePCB)).next (.finish _ _ _ ?_ ?_)
    · show (if s.place s.activePCB = .kept ∧ _ then Place.dropped
        else s.place s.activePCB) = .working
      simp [hwork]
    · refine hdest.imp id (Or.imp id fun hd => ⟨hd.1, ?_⟩)
      have hleft := hd.2
      show upd s.left s.activePCB true (s.history.creator s.activePCB) = true
      by_cases heq : s.history.creator s.activePCB = s.activePCB
      · simp [heq]
      · rwa [upd_other heq]
  · rw [hexit]
    rcases (hdefunct d).1 hd with ⟨hold, -⟩ | ⟨rfl, -⟩
    · have hd' : d ≠ s.activePCB := fun heq => hnotDefunct (heq ▸ hold)
      rw [hcodes, upd_other hd', upd_other hd']
      exact h.kept d hold
    · rw [hself, upd_same]
  · rw [hreporter] at hx
    rw [hcode, hcreator]
    split at hx
    · rename_i hparent
      cases hx
      rw [if_pos hparent, hself]
      have hplace : r.place s.activePCB = dest :=
        (congrFun (congrArg Desk.place hdesk) _).trans (upd_same _ _ _)
      exact ⟨hplace.trans hparent.2, hparent.1.symm, rfl⟩
    · rename_i hparent
      obtain ⟨hcarried, hcreator', hold⟩ := h.carried x d hx
      have hd := hnot hx
      have hplace : r.place d = s.place d := by
        have hupd : r.place d = if s.place d = .kept ∧
            s.history.creator d = s.activePCB then .dropped else s.place d :=
          (congrFun (congrArg Desk.place hdesk) d).trans (upd_other hd _ _)
        simpa [hcarried] using hupd
      rw [if_neg hparent, hplace, hcodes, upd_other hd]
      exact ⟨hcarried, hcreator', hold⟩
  · rw [htrace, List.mem_append, List.mem_singleton] at hmem
    rw [hterm, hcodes]
    rcases hmem with hmem | hmem
    · obtain ⟨hm, hdead, hold⟩ := h.ended d code' hmem
      have hd : d ≠ s.activePCB := fun heq => by
        simp [heq, hsettled.live] at hdead
      rw [upd_other hd, upd_other hd]
      exact ⟨⟨hm.1, hnpcb ▸ hm.2⟩, hdead, hold⟩
    · cases hmem
      have hm := hpop.active_member hne
      rw [upd_same, upd_same]
      exact ⟨⟨hm.1, hnpcb ▸ hm.2⟩, rfl, rfl⟩
  · have hmem' : .waitReturn p' child status result ∈ s.history.trace := by
      simpa [htrace] using hmem
    exact h.returned p' child status result hmem'

theorem exited (h : s.Handed start) (hpop : Population s) (hsettled : Settled s)
    (htree : Tree s.kin) (hlinked : s.Linked) (hwaiting : s.Waiting)
    (hmode : s.mode = .user) (hne : s.activePCB ≠ s.idlePCB)
    (hfamily : s.FamilyQueued) (code : Int) : (s.exited code).Handed start := by
  have hcase := exitCleanup_case hpop hsettled htree hne hfamily code
  have hset : Population ((s.exitCleanup code).2.setTerminated s.activePCB) :=
    { hpop.exitCleanup code with }
  have hactive := hpop.active_member hne
  have hcounted : s.kin.Counted s.activePCB := .inl hsettled.live
  have hcreator (d : PcbPtr) (hd : d ∈ s.defunctQ) :
      s.history.creator d ≠ s.activePCB ↔
        s.pcb.ppid d ≠ s.pcb.pid s.activePCB := by
    have hmember := hpop.defunct d hd
    refine not_congr ⟨fun heq => ?_, fun heq =>
      (hlinked.creator_eq hpop hmember (.inr hd) hactive heq).1⟩
    have hlive : s.left (s.history.creator d) = false := by
      rw [heq, left_eq_false]
      exact ⟨hne, hsettled.live⟩
    rw [(hlinked.ppid_eq hmember (.inr hd) hlive).1, heq]
  have hdropped (hzero : s.pcb.ppid s.activePCB = 0) :
      s.left (s.history.creator s.activePCB) = true := by
    rcases hlinked _ hactive hcounted with ⟨hlink, hm, -⟩ | ⟨-, hleft⟩
    · exact absurd (hlink.symm.trans hzero) (hpop.pid_pos _ hm)
    · exact hleft
  have hkeeps (d : PcbPtr) : d ∈ (s.defunctQ.filter fun d =>
      decide (s.pcb.ppid d ≠ s.pcb.pid s.activePCB)) ↔
        d ∈ s.defunctQ ∧ s.history.creator d ≠ s.activePCB := by
    rw [List.mem_filter, decide_eq_true_iff]
    exact and_congr_right fun hd => (hcreator d hd).symm
  unfold Kernel.exited
  generalize s.exitCleanup code = result at hcase hset ⊢
  cases hcase with
  | @reported parent hpid hparent hwait =>
      have hmember := hpop.blocked parent hparent
      have heq := (hlinked.creator_eq hpop hactive hcounted hmember
        hpid.symm).1
      have hnone : s.history.reporter parent = none := by
        have hready := (hsettled.blocked_once hparent).2
        have hcarries := (hwaiting.awaits parent).carries
        simpa [waiter, Waking, hready, hmode] using hcarries
      have hexit : ((s.exiting code).orphaned).pcb.exitCode s.activePCB = code :=
        upd_same _ _ _
      refine h.finished .carried hpop hsettled htree hwaiting hmode
        hne swapped_npcb swapped_idle (by rw [swapped_history]; rfl)
        (by rw [swapped_history]; rfl) (by rw [swapped_history]; rfl)
        (by rw [swapped_pcb]; rfl) (.inr (.inl rfl)) (fun d => ?_)
        (fun p => ?_) (fun _ => heq ▸ hnone) fun p => ?_
      · rw [swapped_defunctQ hset, if_neg (by simp), List.append_nil]
        simp only [reduceCtorEq, and_false, or_false]
        exact hkeeps d
      · rw [swapped_history, heq]
        show upd s.history.reporter parent (some s.activePCB) p = _
        simp [upd_apply]
      · rw [swapped_pcb, heq]
        show upd s.pcb.blockedCode parent _ p = _
        simp only [upd_apply, and_true]
        exact congrArg (fun x => if p = parent then x
          else s.pcb.blockedCode p) hexit
  | @stays parent hpid hwhere =>
      refine h.finished .kept hpop hsettled htree hwaiting hmode
        hne swapped_npcb swapped_idle (by rw [swapped_history]; rfl)
        (by rw [swapped_history]; rfl) (by rw [swapped_history]; rfl)
        (by rw [swapped_pcb]; rfl) (.inl rfl) (fun d => ?_) (fun p => ?_) (by simp)
        fun p => ?_
      · rw [swapped_defunctQ hset, if_pos ⟨hne, rfl⟩, List.mem_append,
          List.mem_singleton]
        exact or_congr (hkeeps d) (by simp; rfl)
      · rw [swapped_history]
        simp
        rfl
      · rw [swapped_pcb]
        simp
        rfl
  | alone hzero =>
      refine h.finished .dropped hpop hsettled htree hwaiting hmode
        hne swapped_npcb swapped_idle (by rw [swapped_history]; rfl)
        (by rw [swapped_history]; rfl) (by rw [swapped_history]; rfl)
        (by rw [swapped_pcb]; rfl) (.inr (.inr ⟨rfl, hdropped hzero⟩))
        (fun d => ?_) (fun p => ?_) (by simp) fun p => ?_
      · rw [swapped_defunctQ hset, if_neg (by simp), List.append_nil]
        simp only [reduceCtorEq, and_false, or_false]
        exact hkeeps d
      · rw [swapped_history]
        simp
        rfl
      · rw [swapped_pcb]
        simp
        rfl
  | childless hzero hchildren =>
      have hnone (d : PcbPtr) (hd : d ∈ s.defunctQ) :
          s.pcb.ppid d ≠ s.pcb.pid s.activePCB := fun heq => by
        have hmem : d ∈ s.kin.children s.activePCB :=
          Kin.mem_children.2 ⟨(hpop.defunct d hd).2, heq, .inr hd⟩
        have hcount : s.pcb.numChildren s.activePCB =
            (s.kin.children s.activePCB).card :=
          htree.count _ hactive.1 hactive.2 hsettled.live
        have hpos := Finset.card_pos.2 ⟨d, hmem⟩
        omega
      refine h.finished .dropped hpop hsettled htree hwaiting hmode
        hne swapped_npcb swapped_idle (by rw [swapped_history]; rfl)
        (by rw [swapped_history]; rfl) (by rw [swapped_history]; rfl)
        (by rw [swapped_pcb]; rfl) (.inr (.inr ⟨rfl, hdropped hzero⟩))
        (fun d => ?_) (fun p => ?_) (by simp) fun p => ?_
      · rw [swapped_defunctQ hset, if_neg (by simp), List.append_nil]
        simp only [reduceCtorEq, and_false, or_false]
        exact ⟨fun hd => ⟨hd, (hcreator d hd).2 (hnone d hd)⟩, And.left⟩
      · rw [swapped_history]
        simp
        rfl
      · rw [swapped_pcb]
        simp
        rfl

theorem effect (h : s.Handed start) (hpop : Population s) (hsettled : Settled s)
    (htree : Tree s.kin) (hlinked : s.Linked) (hwaiting : s.Waiting)
    (hfamily : s.activePCB ≠ s.idlePCB → s.FamilyQueued)
    (heffect : s.FamilyEffect r) : r.Handed start := by
  have hcarrier (hmode : s.mode = .user) {p : PcbPtr}
      (hp : s.history.reporter p ≠ none) : p ≠ s.activePCB := fun heq =>
    hp (heq ▸ hwaiting.reporter_active hsettled hmode)
  cases heffect with
  | goesOn => exact h.of_eq rfl rfl rfl rfl rfl fun _ _ => rfl
  | fork => exact h.forked hpop hsettled.toPlacement hwaiting _
  | exit hmode hne =>
      exact h.exited hpop hsettled htree hlinked hwaiting hmode hne
        (hfamily hne) _
  | waitFails => exact h.failed.of_eq rfl rfl rfl rfl rfl fun _ _ => rfl
  | waitReaps hmode hne hreap =>
      exact h.reaped hpop hsettled htree hlinked hwaiting hmode hne hreap
  | waitSleeps hmode =>
      have hset : Population (s.setBlockedCode s.activePCB Blocked.wait) :=
        { hpop with }
      refine h.of_eq swapped_npcb swapped_idle (by rw [swapped_history]; rfl)
        (by rw [swapped_defunctQ hset]; simp; rfl)
        (by rw [swapped_pcb]; rfl) fun p hp => ?_
      rw [swapped_pcb]
      exact upd_other (hcarrier hmode hp) _ _
  | waitResumes hmode hctx =>
      have hne : s.activePCB ≠ s.idlePCB := fun heq => by
        rw [heq, hpop.idle] at hctx
        rcases hpop.idle_context with hidle | hidle <;> simp [hctx] at hidle
      exact h.resumed hwaiting hmode hne (by rw [hctx]; rfl)
  | @delay ticks hmode =>
      have hset : Population ((s.setClockTicks s.activePCB
          ticks).setBlockedCode s.activePCB Blocked.delay) := { hpop with }
      refine h.of_eq swapped_npcb swapped_idle (by rw [swapped_history]; rfl)
        (by rw [swapped_defunctQ hset]; simp; rfl)
        (by rw [swapped_pcb]; rfl) fun p hp => ?_
      rw [swapped_pcb]
      exact upd_other (hcarrier hmode hp) _ _
  | clock hmode =>
      refine h.of_eq swapped_npcb swapped_idle swapped_history
        (by rw [swapped_defunctQ hpop]; simp) (by rw [swapped_pcb]) fun p _ => ?_
      rw [swapped_pcb]
  | clockResumes _ hctx hscan =>
      have hsame := Placement.scanned_same hscan
      refine h.of_eq hsame.npcb hsame.idle hscan.history
        (congrArg Kin.defunctQ hscan.kin) hscan.exitCode fun p hp => ?_
      have hcarries := (hwaiting.awaits p).carries.1
        (Option.isSome_iff_ne_none.2 hp)
      have hnot : p ∉ s.blockedQ := fun hmem => by
        rcases hcarries.1 with hready | ⟨rfl, -⟩
        · exact (hsettled.blocked_once hmem).2 hready
        · exact hsettled.active_not_blocked hmem
      exact (hscan.sameDelay (List.append_nil _).symm rfl hnot).code

/-- The hand-over may be looked at from the present desk on. -/
theorem rebase (h : s.Handed start) : s.Handed s.desk :=
  { h with desk := .refl h.desk.possible }

theorem started (b : Boot) : b.started.Handed b.started.desk := by
  refine ⟨.refl ⟨_, ⟨fun c => ?_, rfl⟩, .refl⟩, nofun, nofun, nofun, nofun⟩
  by_cases hc : b.started.Member c
  · exact .inr (place_working.2 ⟨hc, rfl⟩)
  · exact .inl (place_absent.2 hc)

end Handed

end Kernel

end Yalnix
