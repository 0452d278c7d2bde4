import Mathlib.Data.List.Perm.Basic

/-!
# Slots without order

An array of which an entry is removed by putting the last one in its place.
-/

namespace WolfCert.CLib

variable {α : Type}

/-- Overwrite the entry at `i` by the last one and drop that. -/
def swapRemove (items : List α) (i : Nat) : List α :=
  match items.getLast? with
  | none => items
  | some last => (items.set i last).dropLast

variable {items : List α} {i : Nat} {x : α}

theorem swapRemove_perm (here : items[i]? = some x) : items.Perm (x :: swapRemove items i) := by
  obtain ⟨within, rfl⟩ := List.getElem?_eq_some_iff.mp here
  obtain ⟨init, last, rfl⟩ : ∃ init last, items = init ++ [last] :=
    ⟨_, _, (List.dropLast_append_getLast (List.ne_nil_of_length_pos (by omega))).symm⟩
  simp only [swapRemove, List.getLast?_concat]
  by_cases inner : i < init.length
  · -- the last entry takes the place of the removed one
    rw [List.set_append_left _ _ inner, List.dropLast_concat, List.getElem_append_left inner]
    calc (init ++ [last]).Perm (last :: init) := List.perm_append_singleton last init
      List.Perm _ (last :: init[i] :: init.eraseIdx i) :=
        (List.getElem_cons_eraseIdx_perm inner).symm.cons last
      List.Perm _ (init[i] :: last :: init.eraseIdx i) := List.Perm.swap _ _ _
      List.Perm _ (init[i] :: init.set i last) := (List.set_perm_cons_eraseIdx inner last).symm.cons _
  · obtain rfl : i = init.length := by simp at within; omega
    simp

/-- The other entries stay. -/
theorem mem_swapRemove (distinct : items.Nodup) (here : items[i]? = some x) (y : α) :
    y ∈ swapRemove items i ↔ y ∈ items ∧ y ≠ x := by
  have perm := swapRemove_perm here
  have split := perm.nodup_iff.mp distinct
  rw [perm.mem_iff, List.mem_cons]
  constructor
  · intro inside
    refine ⟨.inr inside, ?_⟩
    rintro rfl
    exact (List.nodup_cons.mp split).1 inside
  · rintro ⟨rfl | inside, other⟩
    · exact absurd rfl other
    · exact inside

end WolfCert.CLib
