import Mathlib.Init

/-!
# Computations that record where they look

A value together with the stretches of a buffer that were looked at to find it.
-/

namespace WolfCert.CLib

/-- The positions from `start` up to `stop`. -/
structure Stretch where
  start : Nat
  stop : Nat
deriving DecidableEq, Repr

/-- Every position of it is inside a buffer of `n` bytes. -/
def Stretch.Inside (s : Stretch) (n : Nat) : Prop := ∀ i, s.start ≤ i → i < s.stop → i < n

theorem Stretch.inside_of_le {s : Stretch} {n : Nat} (le : s.stop ≤ n) : s.Inside n :=
  fun _ _ before => Nat.lt_of_lt_of_le before le

structure Looking (α : Type) where
  value : α
  looks : List Stretch

namespace Looking

variable {α β : Type}

instance : Monad Looking where
  pure a := ⟨a, []⟩
  bind x f := ⟨(f x.value).value, x.looks ++ (f x.value).looks⟩

/-- A value that was found in one stretch. -/
def look (s : Stretch) (a : α) : Looking α := ⟨a, [s]⟩

@[simp] theorem value_pure (a : α) : (pure a : Looking α).value = a := rfl

@[simp] theorem value_look (s : Stretch) (a : α) : (look s a).value = a := rfl

@[simp] theorem value_bind (x : Looking α) (f : α → Looking β) : (x >>= f).value = (f x.value).value := rfl

/-- It looks nowhere outside of a buffer of `n` bytes. -/
def Within (x : Looking α) (n : Nat) : Prop := ∀ s ∈ x.looks, s.Inside n

variable {n : Nat}

@[simp] theorem within_pure (a : α) : (pure a : Looking α).Within n := fun _ inside => nomatch inside

@[simp] theorem within_look {s : Stretch} {a : α} : (look s a).Within n ↔ s.Inside n := by
  simp [Within, look]

@[simp] theorem within_bind {x : Looking α} {f : α → Looking β} :
    (x >>= f).Within n ↔ x.Within n ∧ (f x.value).Within n := by
  change (∀ s ∈ x.looks ++ (f x.value).looks, s.Inside n) ↔ _
  simp only [List.mem_append, or_imp, forall_and]
  rfl

end Looking

end WolfCert.CLib
