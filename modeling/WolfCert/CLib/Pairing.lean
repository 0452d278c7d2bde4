import Mathlib.Data.List.Basic

/-!
# Acquire, use, release

A log of what happened to resources that are numbered in the order they were asked for. It is balanced
when each one that is held was acquired and only used since, and each other one that was asked for was
refused, or released once after its last use.
-/

namespace WolfCert.CLib

variable {ι : Type}

inductive Event (ι : Type) where
  | acquired (c : Nat)
  | refused (c : Nat)
  | used (c : Nat) (op : ι)
  | released (c : Nat)
deriving DecidableEq, Repr

def Event.subject : Event ι → Nat
  | .acquired c => c
  | .refused c => c
  | .used c _ => c
  | .released c => c

/-- What happened to one resource. -/
def eventsOf (c : Nat) (log : List (Event ι)) : List (Event ι) :=
  log.filter fun e => e.subject = c

/-- Acquired, and only used since. -/
def Held (c : Nat) (events : List (Event ι)) : Prop :=
  ∃ ops : List ι, events = .acquired c :: ops.map (.used c)

/-- Refused, or acquired and released once, with every use in between. -/
def Settled (c : Nat) (events : List (Event ι)) : Prop :=
  events = [.refused c] ∨
    ∃ ops : List ι, events = .acquired c :: (ops.map (.used c) ++ [.released c])

/-- `asked` resources have been asked for so far, and those in `live` are held. -/
structure Balanced (live : Nat → Prop) (asked : Nat) (log : List (Event ι)) : Prop where
  later : ∀ c, asked ≤ c → ¬live c ∧ eventsOf c log = []
  held : ∀ c, live c → Held c (eventsOf c log)
  settled : ∀ c, c < asked → ¬live c → Settled c (eventsOf c log)

theorem eventsOf_append_same {c : Nat} (log : List (Event ι)) {more : List (Event ι)}
    (all : ∀ e ∈ more, e.subject = c) : eventsOf c (log ++ more) = eventsOf c log ++ more := by
  rw [eventsOf, List.filter_append, List.filter_eq_self.mpr fun e member => decide_eq_true (all e member)]
  rfl

theorem eventsOf_append_other {c d : Nat} (different : d ≠ c) (log : List (Event ι))
    {more : List (Event ι)} (all : ∀ e ∈ more, e.subject = c) :
    eventsOf d (log ++ more) = eventsOf d log := by
  have none : more.filter (fun e => e.subject = d) = [] :=
    List.filter_eq_nil_iff.mpr fun e member same =>
      different ((of_decide_eq_true same).symm.trans (all e member))
  rw [eventsOf, List.filter_append, none, List.append_nil]
  rfl

theorem subject_used (c : Nat) (ops : List ι) : ∀ e ∈ ops.map (Event.used c), e.subject = c := by
  intro e member
  obtain ⟨op, -, rfl⟩ := List.mem_map.mp member
  rfl

namespace Balanced

variable {live live' : Nat → Prop} {asked c : Nat} {log : List (Event ι)}

theorem start : Balanced (fun _ => False) 0 ([] : List (Event ι)) where
  later _ _ := ⟨not_false, rfl⟩
  held _ impossible := impossible.elim
  settled _ impossible := absurd impossible (Nat.not_lt_zero _)

theorem congr (balanced : Balanced live asked log) (same : ∀ c, live c ↔ live' c) :
    Balanced live' asked log := by
  rwa [← funext fun c => propext (same c)]

theorem below (balanced : Balanced live asked log) (holds : live c) : c < asked := by
  by_contra beyond
  exact (balanced.later c (by omega)).1 holds

/-- Events of one resource settle it anew and leave the others as they were. -/
theorem extend {asked' : Nat} {more : List (Event ι)} (balanced : Balanced live asked log)
    (all : ∀ e ∈ more, e.subject = c) (inside : c < asked')
    (counted : ∀ d, d ≠ c → (d < asked ↔ d < asked'))
    (others : ∀ d, d ≠ c → (live d ↔ live' d))
    (held : live' c → Held c (eventsOf c log ++ more))
    (settled : ¬live' c → Settled c (eventsOf c log ++ more)) :
    Balanced live' asked' (log ++ more) where
  later d beyond := by
    have different : d ≠ c := by omega
    have outside : ¬d < asked := fun before => absurd ((counted d different).mp before) (by omega)
    obtain ⟨free, none⟩ := balanced.later d (by omega)
    exact ⟨fun holds => free ((others d different).mpr holds),
      (eventsOf_append_other different log all).trans none⟩
  held d holds := by
    by_cases same : d = c
    · subst same
      rw [eventsOf_append_same log all]
      exact held holds
    · rw [eventsOf_append_other same log all]
      exact balanced.held d ((others d same).mpr holds)
  settled d before free := by
    by_cases same : d = c
    · subst same
      rw [eventsOf_append_same log all]
      exact settled free
    · rw [eventsOf_append_other same log all]
      exact balanced.settled d ((counted d same).mpr before) fun holds => free ((others d same).mp holds)

theorem refuse (balanced : Balanced live asked log) :
    Balanced live (asked + 1) (log ++ [.refused asked]) := by
  obtain ⟨free, none⟩ := balanced.later asked (Nat.le_refl _)
  refine balanced.extend (c := asked) (by simp [Event.subject]) (by omega) (fun d other => by omega)
    (fun _ _ => .rfl) (fun holds => absurd holds free) fun _ => ?_
  rw [none]
  exact .inl rfl

theorem acquire (balanced : Balanced live asked log) :
    Balanced (fun c => live c ∨ c = asked) (asked + 1) (log ++ [.acquired asked]) := by
  obtain ⟨-, none⟩ := balanced.later asked (Nat.le_refl _)
  refine balanced.extend (c := asked) (by simp [Event.subject]) (by omega) (fun d other => by omega)
    (fun d other => by simp [other]) (fun _ => ?_) (fun free => absurd (.inr rfl) free)
  rw [none]
  exact ⟨[], rfl⟩

theorem use (balanced : Balanced live asked log) (holds : live c) (ops : List ι) :
    Balanced live asked (log ++ ops.map (.used c)) := by
  refine balanced.extend (subject_used c ops) (balanced.below holds) (fun _ _ => .rfl) (fun _ _ => .rfl)
    (fun _ => ?_) (fun free => absurd holds free)
  obtain ⟨before, same⟩ := balanced.held c holds
  exact ⟨before ++ ops, by rw [same, List.map_append, List.cons_append]⟩

theorem release (balanced : Balanced live asked log) (holds : live c) :
    Balanced (fun d => live d ∧ d ≠ c) asked (log ++ [.released c]) := by
  refine balanced.extend (c := c) (by simp [Event.subject]) (balanced.below holds) (fun _ _ => .rfl)
    (fun d other => by simp [other]) (fun both => absurd rfl both.2) (fun _ => ?_)
  obtain ⟨before, same⟩ := balanced.held c holds
  exact .inr ⟨before, by rw [same, List.cons_append]⟩

end Balanced

end WolfCert.CLib
