import Mathlib.Data.Set.Basic

/-!
# Preferences

Choices out of a set that depend on its members only: of several classes the first one that has a
member, and of one set the members with a property, if there is one.
-/

namespace WolfCert.CLib

variable {α : Type}

/-- The first of the sets that has a member. -/
def Foremost : List (Set α) → Set α
  | [] => ∅
  | s :: rest => {x | x ∈ s ∨ s = ∅ ∧ x ∈ Foremost rest}

/-- Those with the property, if there is one, and else all. -/
def Prefer (p : α → Prop) (s : Set α) : Set α := {x | x ∈ s ∧ (p x ∨ ∀ y ∈ s, ¬p y)}

theorem mem_foremost_cons {x : α} {s : Set α} {rest : List (Set α)} :
    x ∈ Foremost (s :: rest) ↔ x ∈ s ∨ s = ∅ ∧ x ∈ Foremost rest := Iff.rfl

theorem notMem_foremost_nil (x : α) : x ∉ Foremost [] := id

theorem mem_prefer {x : α} {p : α → Prop} {s : Set α} :
    x ∈ Prefer p s ↔ x ∈ s ∧ (p x ∨ ∀ y ∈ s, ¬p y) := Iff.rfl

theorem prefer_subset (p : α → Prop) (s : Set α) : Prefer p s ⊆ s := fun _ inside => inside.1

/-- The members of a list that give way to none with the property; the gate is whether they have to. -/
theorem mem_filter_prefer (gate : Bool) (p : α → Bool) (items : List α) (x : α) :
    x ∈ items.filter (fun y => !(gate && items.any p && !p y)) ↔
      x ∈ items ∧ (gate = true → p x = true ∨ ∀ y ∈ items, p y = false) := by
  rw [List.mem_filter]
  refine and_congr_right fun _ => ?_
  cases gate with
  | false => simp
  | true =>
      cases own : p x with
      | true => simp
      | false =>
          cases other : items.any p with
          | true =>
              obtain ⟨y, inside, holds⟩ := List.any_eq_true.mp other
              have none : ¬∀ y ∈ items, p y = false := fun all => by simp [all y inside] at holds
              simp [none]
          | false =>
              have none : ∀ y ∈ items, p y = false := by simpa using other
              simpa using none

end WolfCert.CLib
