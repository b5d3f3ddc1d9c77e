import Mathlib.Logic.Relation

/-!
# Guarded runs of a transition system

A labelled transition relation is run from a set of initial states, taking only
those steps that a guard admits.  Safety statements about all runs, or about
all runs whose steps avoid some event, are statements about `Reach`.
-/

namespace TransitionSystem

variable {State Label : Type*}

/-- The states reached by runs all of whose steps meet the guard. -/
inductive Reach (init : State → Prop) (step : State → Label → State → Prop)
    (guard : State → Label → Prop) : State → Prop where
  | start {s : State} : init s → Reach init step guard s
  | next {s s' : State} {a : Label} :
      Reach init step guard s → guard s a → step s a s' →
        Reach init step guard s'

variable {init : State → Prop} {step : State → Label → State → Prop}
  {guard : State → Label → Prop}

/-- A weaker guard reaches at least as many states. -/
theorem Reach.mono {weaker : State → Label → Prop}
    (himp : ∀ s a, guard s a → weaker s a) {s : State}
    (h : Reach init step guard s) : Reach init step weaker s := by
  induction h with
  | start hinit => exact .start hinit
  | next _ hguard hstep ih => exact .next ih (himp _ _ hguard) hstep

/-- More initial states reach at least as many states. -/
theorem Reach.of_init {more : State → Prop} (himp : ∀ s, init s → more s)
    {s : State} (h : Reach init step guard s) : Reach more step guard s := by
  induction h with
  | start hinit => exact .start (himp _ hinit)
  | next _ hguard hstep ih => exact .next ih hguard hstep

/--
The invariant rule.  The preservation premise may use that its source state is
itself reachable, so invariants can be established one on top of another.
-/
theorem Reach.invariant {P : State → Prop}
    (hinit : ∀ s, init s → P s)
    (hstep : ∀ s a s', Reach init step guard s → P s → guard s a →
      step s a s' → P s')
    {s : State} (h : Reach init step guard s) : P s := by
  induction h with
  | start h => exact hinit _ h
  | next hreach hguard hs ih => exact hstep _ _ _ hreach ih hguard hs

/-- A run of a system whose steps are computed by `take`. -/
def Admits (take : State → Label → State) (ok : State → Label → Prop) :
    State → List Label → Prop
  | _, [] => True
  | s, a :: rest => ok s a ∧ Admits take ok (take s a) rest

instance instDecidableAdmits (take : State → Label → State)
    (ok : State → Label → Prop) [∀ s a, Decidable (ok s a)] :
    (s : State) → (labels : List Label) → Decidable (Admits take ok s labels)
  | _, [] => inferInstanceAs (Decidable True)
  | s, a :: rest =>
      have := instDecidableAdmits take ok (take s a) rest
      inferInstanceAs (Decidable (ok s a ∧ Admits take ok (take s a) rest))

theorem Reach.run {take : State → Label → State} {ok : State → Label → Prop}
    (hok : ∀ s a, ok s a → guard s a ∧ step s a (take s a)) {s : State}
    (h : Reach init step guard s) (labels : List Label)
    (hadmits : Admits take ok s labels) :
    Reach init step guard (labels.foldl take s) := by
  induction labels generalizing s with
  | nil => exact h
  | cons a rest ih =>
      obtain ⟨ha, hrest⟩ := hadmits
      obtain ⟨hguard, hstep⟩ := hok s a ha
      exact ih (.next h hguard hstep) hrest

section Runs

variable {take : State → Label → State} {ok ok' : State → Label → Prop}

theorem Admits.and {s : State} {labels : List Label}
    (h : Admits take ok s labels) (h' : Admits take ok' s labels) :
    Admits take (fun s a => ok s a ∧ ok' s a) s labels := by
  induction labels generalizing s with
  | nil => trivial
  | cons a rest ih => exact ⟨⟨h.1, h'.1⟩, ih h.2 h'.2⟩

theorem Admits.of_append {s : State} {front back : List Label}
    (h : Admits take ok s (front ++ back)) :
    Admits take ok s front ∧ Admits take ok (front.foldl take s) back := by
  induction front generalizing s with
  | nil => exact ⟨trivial, h⟩
  | cons a rest ih => exact ⟨⟨h.1, (ih h.2).1⟩, (ih h.2).2⟩

/-- What every admitted step keeps holds at the end of the run. -/
theorem Admits.invariant {I : State → Prop}
    (hinv : ∀ s a, I s → ok s a → I (take s a)) {s : State} (hs : I s)
    {labels : List Label} (hadmits : Admits take ok s labels) :
    I (labels.foldl take s) := by
  induction labels generalizing s with
  | nil => exact hs
  | cons a rest ih => exact ih (hinv s a hs hadmits.1) hadmits.2

/-- Conditions that agree wherever an invariant holds admit the same runs. -/
theorem Admits.congr {p q : State → Label → Prop} {I : State → Prop}
    (hinv : ∀ s a, I s → ok s a → I (take s a))
    (hstep : ∀ s a, I s → ok s a → (p s a ↔ q s a)) {s : State} (hs : I s)
    {labels : List Label} (hadmits : Admits take ok s labels) :
    Admits take p s labels ↔ Admits take q s labels := by
  induction labels generalizing s with
  | nil => exact Iff.rfl
  | cons a rest ih =>
      obtain ⟨hok, hrest⟩ := hadmits
      exact and_congr (hstep s a hs hok) (ih (hinv s a hs hok) hrest)

/-- A run that ends with a condition meets it for a first time. -/
theorem exists_first {P : State → Prop} {s : State} (labels : List Label)
    (h : P (labels.foldl take s)) :
    ∃ front back, labels = front ++ back ∧ P (front.foldl take s) ∧
      Admits take (fun s _ => ¬ P s) s front := by
  classical
  induction labels generalizing s with
  | nil => exact ⟨[], [], rfl, h, trivial⟩
  | cons a rest ih =>
      by_cases hnow : P s
      · exact ⟨[], a :: rest, rfl, hnow, trivial⟩
      · obtain ⟨front, back, rfl, hfirst, hbefore⟩ := ih h
        exact ⟨a :: front, back, rfl, hfirst, hnow, hbefore⟩

/--
A step that lowers a rank until it has led to its goal leads there when it is
repeated, as often as the rank allows.
-/
theorem settles {I : State → Prop} {a : Label} (done : State → Prop)
    (rank : State → Nat)
    (hok : ∀ s, I s → ¬ done s → ok s a)
    (hinv : ∀ s, I s → ¬ done s → I (take s a))
    (hstep : ∀ s, I s → ¬ done s →
      done (take s a) ∨ rank (take s a) < rank s)
    {s : State} (hs : I s) {bound : Nat} (hrank : rank s < bound) :
    ∃ n ≤ bound, Admits take ok s (List.replicate n a) ∧
      done ((List.replicate n a).foldl take s) := by
  induction bound generalizing s with
  | zero => omega
  | succ bound ih =>
      by_cases hnow : done s
      · exact ⟨0, Nat.zero_le _, trivial, hnow⟩
      · have hfirst := hok s hs hnow
        rcases hstep s hs hnow with hdone | hless
        · exact ⟨1, by omega, ⟨hfirst, trivial⟩, hdone⟩
        · obtain ⟨n, hn, hadmits, hdone⟩ :=
            ih (hinv s hs hnow) (by omega)
          exact ⟨n + 1, by omega, ⟨hfirst, hadmits⟩, hdone⟩

end Runs

/-- The property holds in every state of a run. -/
def Always (take : State → Label → State) (P : State → Prop) :
    State → List Label → Prop
  | s, [] => P s
  | s, a :: rest => P s ∧ Always take P (take s a) rest

instance instDecidableAlways (take : State → Label → State)
    (P : State → Prop) [DecidablePred P] :
    (s : State) → (labels : List Label) → Decidable (Always take P s labels)
  | s, [] => inferInstanceAs (Decidable (P s))
  | s, a :: rest =>
      have := instDecidableAlways take P (take s a) rest
      inferInstanceAs (Decidable (P s ∧ Always take P (take s a) rest))

theorem Always.head {take : State → Label → State} {P : State → Prop}
    {s : State} {labels : List Label} (h : Always take P s labels) : P s := by
  cases labels with
  | nil => exact h
  | cons => exact h.1

/--
A property that a step keeps exactly when it meets a condition holds all along a
run exactly when it holds at the start and every step meets the condition.  The
invariant that the step rule needs may rest on the property and the condition.
-/
theorem always_iff_of_keeps {take : State → Label → State}
    {ok keeps : State → Label → Prop} {I P : State → Prop}
    (hinv : ∀ s a, I s → ok s a → P s → keeps s a → I (take s a))
    (hstep : ∀ s a, I s → ok s a → P s → (P (take s a) ↔ keeps s a))
    {s : State} (hs : I s) (labels : List Label)
    (hadmits : Admits take ok s labels) :
    Always take P s labels ↔ P s ∧ Admits take keeps s labels := by
  induction labels generalizing s with
  | nil => exact ⟨fun h => ⟨h, trivial⟩, fun h => h.1⟩
  | cons a rest ih =>
      obtain ⟨hok, hrest⟩ := hadmits
      constructor
      · rintro ⟨hP, halways⟩
        have hkeep := (hstep s a hs hok hP).1 halways.head
        have htail := ih (hinv s a hs hok hP hkeep) hrest
        exact ⟨hP, hkeep, (htail.1 halways).2⟩
      · rintro ⟨hP, hkeep, hkeeps⟩
        have htail := ih (hinv s a hs hok hP hkeep) hrest
        exact ⟨hP, htail.2 ⟨(hstep s a hs hok hP).2 hkeep, hkeeps⟩⟩

/-- The rule for an invariant that every step keeps. -/
theorem always_iff {take : State → Label → State} {ok keeps : State → Label → Prop}
    {I P : State → Prop} (hinv : ∀ s a, I s → ok s a → I (take s a))
    (hstep : ∀ s a, I s → ok s a → P s → (P (take s a) ↔ keeps s a))
    {s : State} (hs : I s) (labels : List Label)
    (hadmits : Admits take ok s labels) :
    Always take P s labels ↔ P s ∧ Admits take keeps s labels :=
  always_iff_of_keeps (fun s a hI hok _ _ => hinv s a hI hok) hstep hs labels
    hadmits

/-! ## Steps that may fail -/

/-- Every label is allowed in the state that the run has reached. -/
def AdmitsPartial (take : State → Label → Option State)
    (ok : State → Label → Prop) : State → List Label → Prop
  | _, [] => True
  | s, a :: rest =>
      ok s a ∧ ∀ s' ∈ take s a, AdmitsPartial take ok s' rest

instance instDecidableAdmitsPartial (take : State → Label → Option State)
    (ok : State → Label → Prop) [∀ s a, Decidable (ok s a)] :
    (s : State) → (labels : List Label) → Decidable (AdmitsPartial take ok s labels)
  | _, [] => inferInstanceAs (Decidable True)
  | s, a :: rest =>
      have := fun s' => instDecidableAdmitsPartial take ok s' rest
      inferInstanceAs
        (Decidable (ok s a ∧ ∀ s' ∈ take s a, AdmitsPartial take ok s' rest))

/--
The simulation rule.  When no allowed step fails and each is matched by a step
of an abstract machine, no run fails and each is matched by an abstract run.
-/
theorem simulation {Abstract : Type*} {take : State → Label → Option State}
    {ok : State → Label → Prop} {next : Abstract → Label → Abstract}
    {R : State → Abstract → Prop}
    (hstep : ∀ s x a, R s x → ok s a → ∃ s', take s a = some s' ∧ R s' (next x a))
    {s : State} {x : Abstract} (hs : R s x) (labels : List Label)
    (hadmits : AdmitsPartial take ok s labels) :
    ∃ s', labels.foldlM take s = some s' ∧ R s' (labels.foldl next x) := by
  induction labels generalizing s x with
  | nil => exact ⟨s, rfl, hs⟩
  | cons a rest ih =>
      obtain ⟨hok, hrest⟩ := hadmits
      obtain ⟨s₁, htake, hs₁⟩ := hstep s x a hs hok
      obtain ⟨s', hrun, hs'⟩ := ih hs₁ (hrest s₁ htake)
      refine ⟨s', ?_, hs'⟩
      rw [List.foldlM_cons, htake]
      exact hrun

end TransitionSystem
