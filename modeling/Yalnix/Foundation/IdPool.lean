import Mathlib.Data.List.Nodup
import Mathlib.Data.List.Perm.Basic

/-!
# Pools of ids

A pool is a stack of the ids that are free.  An id is popped when it is issued
and pushed when it is given back.
-/

namespace IdPool

variable {Id : Type*}

/-- The free and the issued ids are together the initial ones, each once. -/
def Splits (initial free issued : List Id) : Prop :=
  (free ++ issued).Perm initial

namespace Splits

variable {initial free issued : List Id} {id : Id}

theorem full (initial : List Id) : Splits initial initial [] := by
  unfold Splits
  rw [List.append_nil]

/-- The id on top is issued. -/
theorem issue (h : Splits initial (id :: free) issued) :
    Splits initial free (id :: issued) :=
  List.perm_middle.trans h

/-- An issued id goes back on top. -/
theorem giveBack [DecidableEq Id] (h : Splits initial free issued)
    (hid : id ∈ issued) : Splits initial (id :: free) (issued.erase id) := by
  have hback : (id :: free ++ issued.erase id).Perm (free ++ issued) := by
    apply List.perm_middle.symm.trans
    apply List.Perm.append_left
    exact (List.perm_cons_erase hid).symm
  exact hback.trans h

theorem nodup (h : Splits initial free issued) (hinitial : initial.Nodup) :
    (free ++ issued).Nodup :=
  h.nodup_iff.2 hinitial

theorem issued_nodup (h : Splits initial free issued)
    (hinitial : initial.Nodup) : issued.Nodup :=
  (h.nodup hinitial).of_append_right

/-- A free id is not issued. -/
theorem fresh (h : Splits initial free issued) (hinitial : initial.Nodup)
    (hid : id ∈ free) : id ∉ issued :=
  fun hissued => List.disjoint_of_nodup_append (h.nodup hinitial) hid hissued

end Splits

/-! ## Chains of rising ids -/

/-- The ids rise along the chain. -/
def Rises (ids : List Int) : Prop := ids.Pairwise (· < ·)

namespace Rises

variable {ids : List Int} {id : Int}

theorem nodup (h : Rises ids) : ids.Nodup :=
  h.imp Int.ne_of_lt

theorem sublist {some : List Int} (h : Rises ids) (hsub : some.Sublist ids) :
    Rises some :=
  List.Pairwise.sublist hsub h

/-- No id of the chain lies above that of its end. -/
theorem le_last (h : Rises ids) {last : Int} (hlast : ids.getLast? = some last)
    (hid : id ∈ ids) : id ≤ last := by
  obtain ⟨front, rfl⟩ := List.getLast?_eq_some_iff.1 hlast
  rcases List.mem_append.1 hid with hid | hid
  · have hlt := (List.pairwise_append.1 h).2.2 id hid last
      List.mem_cons_self
    exact Int.le_of_lt hlt
  · exact Int.le_of_eq (List.mem_singleton.1 hid)

/-- The next id is one above that of the end. -/
theorem add (h : Rises ids) {last : Int} (hlast : ids.getLast? = some last) :
    Rises (ids ++ [last + 1]) := by
  apply List.pairwise_append.2
  refine ⟨h, List.pairwise_singleton _ _, ?_⟩
  intro x hx y hy
  rw [List.mem_singleton.1 hy]
  have hle := h.le_last hlast hx
  omega

end Rises

end IdPool
