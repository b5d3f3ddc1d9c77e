import Mathlib.Data.List.Basic
import Mathlib.Data.List.Nodup
import Mathlib.Logic.Function.Basic

/-!
# Resources held by cells

Every cell holds at most one resource, and the others are in a pool.  Giving a
resource to an empty cell and taking one back permutes what cells and pool have
together, so nothing is lost and nothing is made.

Where the cells belong to owners, a transfer between the pool and one owner
changes the inventory by as much as what these two have together.  Resources
are compared by how often they occur, since a faulty system may have one twice.
-/

namespace Ledger

variable {Cell Resource : Type*}

/-- The resources of the listed cells, in their order. -/
def held (holder : Cell → Option Resource) (cells : List Cell) :
    List Resource :=
  cells.filterMap holder

variable {holder holder' : Cell → Option Resource} {cells : List Cell}
  {cell : Cell} {r : Resource}

theorem held_congr (h : ∀ c ∈ cells, holder' c = holder c) :
    held holder' cells = held holder cells :=
  List.filterMap_congr h

theorem mem_held : r ∈ held holder cells ↔ ∃ c ∈ cells, holder c = some r :=
  List.mem_filterMap

/-- A resource that occurs once is held by one cell. -/
theorem sole_cell [DecidableEq Resource] {c : Cell}
    (honce : (held holder cells).count r ≤ 1) (hcell : cell ∈ cells)
    (hholds : holder cell = some r) (hc : c ∈ cells)
    (hholds' : holder c = some r) : c = cell := by
  obtain ⟨front, back, rfl⟩ := List.append_of_mem hcell
  simp only [held, List.filterMap_append, List.filterMap_cons, hholds,
    List.count_append, List.count_cons_self] at honce
  rcases List.mem_append.1 hc with hfront | hc
  · have hpos := List.count_pos_iff.2 (mem_held.2 ⟨c, hfront, hholds'⟩)
    unfold held at hpos
    omega
  · rcases List.mem_cons.1 hc with heq | hback
    · exact heq
    · have hpos := List.count_pos_iff.2 (mem_held.2 ⟨c, hback, hholds'⟩)
      unfold held at hpos
      omega

theorem held_cons (c : Cell) :
    held holder (c :: cells) = (holder c).toList ++ held holder cells := by
  unfold held
  cases hc : holder c with
  | none => simp [hc]
  | some r => simp [hc]

variable [DecidableEq Cell]

/-- What an outside cell holds does not matter. -/
theorem held_update_of_notMem (hcell : cell ∉ cells) (v : Option Resource) :
    held (Function.update holder cell v) cells = held holder cells := by
  apply held_congr
  intro c hc
  have hne : c ≠ cell := by
    rintro rfl
    exact hcell hc
  exact Function.update_of_ne hne _ _

/-- An empty cell is given a resource. -/
theorem held_give (hnodup : cells.Nodup) (hcell : cell ∈ cells)
    (hempty : holder cell = none) (r : Resource) :
    (held (Function.update holder cell (some r)) cells).Perm
      (r :: held holder cells) := by
  induction cells with
  | nil => cases hcell
  | cons c cells ih =>
      obtain ⟨hc, hrest⟩ := List.nodup_cons.1 hnodup
      rw [held_cons, held_cons]
      by_cases heq : c = cell
      · subst heq
        rw [Function.update_self, hempty, held_update_of_notMem hc]
        exact List.Perm.refl _
      · have hmem : cell ∈ cells := by
          rcases List.mem_cons.1 hcell with h | h
          · exact absurd h.symm heq
          · exact h
        rw [Function.update_of_ne heq]
        have htail := (ih hrest hmem).append_left (holder c).toList
        exact htail.trans List.perm_middle

/-- A cell gives its resource back. -/
theorem held_takeBack (hnodup : cells.Nodup) (hcell : cell ∈ cells)
    (hholds : holder cell = some r) :
    (r :: held (Function.update holder cell none) cells).Perm
      (held holder cells) := by
  have hgive : (held (Function.update (Function.update holder cell none) cell
      (some r)) cells).Perm
        (r :: held (Function.update holder cell none) cells) :=
    held_give hnodup hcell (Function.update_self _ _ _) r
  rw [Function.update_idem, ← hholds, Function.update_eq_self] at hgive
  exact hgive.symm

/-! ## Comparing lists of resources -/

section Compare

variable [DecidableEq Resource] {good : Resource → Prop}
  {xs ys zs : List Resource}

/-- A good resource is in `ys` at least as often as in `xs`. -/
def AtMost (good : Resource → Prop) (xs ys : List Resource) : Prop :=
  ∀ r, good r → xs.count r ≤ ys.count r

namespace AtMost

theorem of_perm (h : xs.Perm ys) : AtMost good xs ys :=
  fun r _ => Nat.le_of_eq (h.count_eq r)

theorem refl (xs : List Resource) : AtMost good xs xs :=
  of_perm (List.Perm.refl xs)

theorem trans (h : AtMost good xs ys) (h' : AtMost good ys zs) :
    AtMost good xs zs :=
  fun r hr => Nat.le_trans (h r hr) (h' r hr)

theorem append_left (front : List Resource) (h : AtMost good xs ys) :
    AtMost good (front ++ xs) (front ++ ys) := by
  intro r hr
  rw [List.count_append, List.count_append]
  exact Nat.add_le_add_left (h r hr) _

theorem append_right (back : List Resource) (h : AtMost good xs ys) :
    AtMost good (xs ++ back) (ys ++ back) := by
  intro r hr
  rw [List.count_append, List.count_append]
  exact Nat.add_le_add_right (h r hr) _

/-- A resource that is added. -/
theorem cons_self (r : Resource) (xs : List Resource) :
    AtMost good xs (r :: xs) :=
  fun _ _ => List.count_le_count_cons

end AtMost

/-- Nothing is made, and nothing good is lost. -/
structure Conserved (good : Resource → Prop) (before after : List Resource) :
    Prop where
  noneMade : AtMost (fun _ => True) after before
  noneLost : AtMost good before after

namespace Conserved

theorem of_perm (h : xs.Perm ys) : Conserved good xs ys :=
  ⟨.of_perm h.symm, .of_perm h⟩

theorem refl (xs : List Resource) : Conserved good xs xs :=
  of_perm (List.Perm.refl xs)

theorem trans (h : Conserved good xs ys) (h' : Conserved good ys zs) :
    Conserved good xs zs :=
  ⟨h'.noneMade.trans h.noneMade, h.noneLost.trans h'.noneLost⟩

theorem append_left (front : List Resource) (h : Conserved good xs ys) :
    Conserved good (front ++ xs) (front ++ ys) :=
  ⟨h.noneMade.append_left front, h.noneLost.append_left front⟩

/-- A bad resource is thrown away. -/
theorem tail {r : Resource} (hr : ¬ good r) : Conserved good (r :: xs) xs where
  noneMade := .cons_self r xs
  noneLost := fun q hq => by
    have hne : r ≠ q := by
      rintro rfl
      exact hr hq
    exact Nat.le_of_eq (List.count_cons_of_ne hne)

end Conserved

end Compare

/-! ## Owners -/

variable {Owner : Type*}

/-- Everything in the pool and in the shares of the owners. -/
def inventory (pool : List Resource) (share : Owner → List Resource)
    (owners : List Owner) : List Resource :=
  pool ++ owners.flatMap share

section Owners

variable [DecidableEq Resource] {good : Resource → Prop}
  {pool pool' : List Resource} {share share' : Owner → List Resource}
  {owners : List Owner} {owner : Owner}

/-- A transfer between one owner and the pool. -/
theorem inventory_transfer (hnodup : owners.Nodup) (howner : owner ∈ owners)
    (hothers : ∀ o ∈ owners, o ≠ owner → share' o = share o) (r : Resource) :
    (inventory pool' share' owners).count r + (share owner ++ pool).count r =
      (inventory pool share owners).count r +
        (share' owner ++ pool').count r := by
  obtain ⟨front, back, rfl⟩ := List.append_of_mem howner
  rw [List.nodup_middle, List.nodup_cons, List.mem_append, not_or] at hnodup
  have hfront : front.flatMap share' = front.flatMap share := by
    apply List.flatMap_congr
    intro o ho
    apply hothers o (by simp [ho])
    rintro rfl
    exact hnodup.1.1 ho
  have hback : back.flatMap share' = back.flatMap share := by
    apply List.flatMap_congr
    intro o ho
    apply hothers o (by simp [ho])
    rintro rfl
    exact hnodup.1.2 ho
  simp only [inventory, List.flatMap_append, List.flatMap_cons,
    List.count_append, hfront, hback]
  omega

/-- A new owner gets a share. -/
theorem inventory_join (hothers : ∀ o ∈ owners, share' o = share o)
    (r : Resource) :
    (inventory pool' share' (owners ++ [owner])).count r + pool.count r =
      (inventory pool share owners).count r +
        (share' owner ++ pool').count r := by
  simp only [inventory, List.flatMap_append, List.flatMap_singleton,
    List.count_append, List.flatMap_congr hothers]
  omega

/-- The inventory grows by no more than what owner and pool have together. -/
theorem AtMost.transfer (hnodup : owners.Nodup) (howner : owner ∈ owners)
    (hothers : ∀ o ∈ owners, o ≠ owner → share' o = share o)
    (h : AtMost good (share' owner ++ pool') (share owner ++ pool)) :
    AtMost good (inventory pool' share' owners)
      (inventory pool share owners) := by
  intro r hr
  have hsum : (inventory pool' share' owners).count r +
      (share owner ++ pool).count r =
        (inventory pool share owners).count r +
          (share' owner ++ pool').count r :=
    inventory_transfer hnodup howner hothers r
  have hle := h r hr
  omega

/-- A new owner takes no more than the pool gives. -/
theorem AtMost.join (hothers : ∀ o ∈ owners, share' o = share o)
    (h : AtMost good (share' owner ++ pool') pool) :
    AtMost good (inventory pool' share' (owners ++ [owner]))
      (inventory pool share owners) := by
  intro r hr
  have hsum : (inventory pool' share' (owners ++ [owner])).count r +
      pool.count r = (inventory pool share owners).count r +
        (share' owner ++ pool').count r := inventory_join hothers r
  have hle := h r hr
  omega

/-- A new owner takes no less than the pool gives. -/
theorem AtMost.join_of_le (hothers : ∀ o ∈ owners, share' o = share o)
    (h : AtMost good pool (share' owner ++ pool')) :
    AtMost good (inventory pool share owners)
      (inventory pool' share' (owners ++ [owner])) := by
  intro r hr
  have hsum : (inventory pool' share' (owners ++ [owner])).count r +
      pool.count r = (inventory pool share owners).count r +
        (share' owner ++ pool').count r := inventory_join hothers r
  have hle := h r hr
  omega

/-- What an owner and the pool have is part of the inventory. -/
theorem AtMost.stake (hnodup : owners.Nodup) (howner : owner ∈ owners) :
    AtMost good (share owner ++ pool) (inventory pool share owners) := by
  obtain ⟨front, back, rfl⟩ := List.append_of_mem howner
  intro r _
  simp only [inventory, List.flatMap_append, List.flatMap_cons,
    List.count_append]
  omega

/-- A resource that occurs once is in one share and not in the pool. -/
theorem sole_owner {r : Resource} {o : Owner}
    (honce : (inventory pool share owners).count r ≤ 1) (howner : owner ∈ owners)
    (hr : r ∈ share owner) :
    r ∉ pool ∧ (o ∈ owners → r ∈ share o → o = owner) := by
  obtain ⟨front, back, rfl⟩ := List.append_of_mem howner
  simp only [inventory, List.flatMap_append, List.flatMap_cons,
    List.count_append] at honce
  have hpos := List.count_pos_iff.2 hr
  refine ⟨fun hpool => ?_, fun ho hr' => ?_⟩
  · have hfree := List.count_pos_iff.2 hpool
    omega
  · rcases List.mem_append.1 ho with hfront | ho
    · have hother := List.count_pos_iff.2
        (List.mem_flatMap.2 ⟨o, hfront, hr'⟩)
      omega
    · rcases List.mem_cons.1 ho with heq | hback
      · exact heq
      · have hother := List.count_pos_iff.2
          (List.mem_flatMap.2 ⟨o, hback, hr'⟩)
        omega

end Owners

end Ledger
