import Mathlib.Data.List.Induction

/-!
# Histories

A machine that takes one input after another, each answered by a result. A step `none` never
answers, and then nothing after it is reached.
-/

namespace WolfCert.CLib

variable {State Input Result : Type}

/-- The results of all the inputs, in order, and the state they leave. -/
def history (step : State → Input → Option (Result × State)) :
    State → List Input → Option (List Result × State)
  | s, [] => some ([], s)
  | s, input :: rest =>
      match step s input with
      | none => none
      | some (result, s) => (history step s rest).map fun (results, s) => (result :: results, s)

variable {step : State → Input → Option (Result × State)} {start s t : State} {input : Input}
  {result : Result} {inputs more : List Input} {results : List Result}

theorem history_append (start : State) (inputs more : List Input) :
    history step start (inputs ++ more) =
      match history step start inputs with
      | none => none
      | some (results, s) =>
          (history step s more).map fun (results', s) => (results ++ results', s) := by
  induction inputs generalizing start with
  | nil =>
      simp only [List.nil_append, history]
      cases history step start more <;> rfl
  | cons input rest ih =>
      simp only [List.cons_append, history]
      cases stepped : step start input with
      | none => rfl
      | some after =>
          simp only [ih]
          cases history step after.2 rest with
          | none => rfl
          | some ran => simp [Option.map_map, Function.comp_def]

theorem history_length (ran : history step start inputs = some (results, s)) :
    inputs.length = results.length := by
  induction inputs generalizing start results with
  | nil =>
      cases ran
      rfl
  | cons input rest ih =>
      simp only [history] at ran
      cases stepped : step start input with
      | none => simp [stepped] at ran
      | some after =>
          simp only [stepped, Option.map_eq_some_iff, Prod.exists, Prod.mk.injEq] at ran
          obtain ⟨later, _, ran, rfl, rfl⟩ := ran
          simpa using ih ran

theorem history_snoc (inputs : List Input) (input : Input) :
    history step start (inputs ++ [input]) = some (results, t) ↔
      ∃ before s result, history step start inputs = some (before, s) ∧
        step s input = some (result, t) ∧ results = before ++ [result] := by
  rw [history_append]
  cases history step start inputs with
  | none => simp
  | some ran =>
      obtain ⟨before, s⟩ := ran
      cases stepped : step s input with
      | none => simp [history, stepped]
      | some after =>
          simp only [history, stepped, Option.map_some, Option.some.injEq, Prod.mk.injEq]
          constructor
          · rintro ⟨rfl, rfl⟩
            exact ⟨before, s, after.1, ⟨rfl, rfl⟩, by rw [stepped], rfl⟩
          · rintro ⟨_, _, result, ⟨rfl, rfl⟩, answered, rfl⟩
            rw [stepped] at answered
            cases answered
            exact ⟨rfl, rfl⟩

/-- Every input of a history was met in the state its predecessors leave. -/
theorem history_at {n : Nat} (ran : history step start inputs = some (results, s))
    (now : inputs[n]? = some input) : ∃ before u result t,
      history step start (inputs.take n) = some (before, u) ∧ step u input = some (result, t) ∧
      results[n]? = some result := by
  induction inputs generalizing start results n with
  | nil => simp at now
  | cons first rest ih =>
      simp only [history] at ran
      cases stepped : step start first with
      | none => simp [stepped] at ran
      | some after =>
          obtain ⟨answer, u⟩ := after
          simp only [stepped, Option.map_eq_some_iff, Prod.exists, Prod.mk.injEq] at ran
          obtain ⟨later, _, ran, rfl, rfl⟩ := ran
          cases n with
          | zero =>
              obtain rfl : first = input := by simpa using now
              exact ⟨[], start, answer, u, rfl, stepped, rfl⟩
          | succ n =>
              obtain ⟨before, v, result, t, reached, moved, found⟩ := ih ran (by simpa using now)
              exact ⟨answer :: before, v, result, t, by simp [history, stepped, reached], moved,
                by simpa using found⟩

/-- What comes after an input is a history from the state that it leaves. -/
theorem history_after {n : Nat} {before : List Result} {u : State}
    (ran : history step start inputs = some (results, s)) (now : inputs[n]? = some input)
    (reached : history step start (inputs.take n) = some (before, u))
    (stepped : step u input = some (result, t)) :
    ∃ later, history step t (inputs.drop (n + 1)) = some (later, s) := by
  have split : inputs = inputs.take n ++ input :: inputs.drop (n + 1) := by
    obtain ⟨within, rfl⟩ := List.getElem?_eq_some_iff.mp now
    simp
  rw [split, history_append, reached] at ran
  simp only [history, stepped, Option.map_map, Option.map_eq_some_iff] at ran
  obtain ⟨⟨later, last⟩, rest, same⟩ := ran
  cases same
  exact ⟨later, rest⟩

/-- What holds at the start and is kept by every step holds of every history. -/
theorem history_induction {P : List Input → List Result → State → Prop} (initial : P [] [] start)
    (kept : ∀ inputs results s input result t, history step start inputs = some (results, s) →
      P inputs results s → step s input = some (result, t) →
      P (inputs ++ [input]) (results ++ [result]) t)
    (ran : history step start inputs = some (results, s)) : P inputs results s := by
  induction inputs using List.reverseRecOn generalizing results s with
  | nil =>
      cases ran
      exact initial
  | append_singleton before input ih =>
      obtain ⟨earlier, u, result, reached, stepped, rfl⟩ := (history_snoc before input).mp ran
      exact kept _ _ _ _ _ _ reached (ih reached) stepped

theorem history_invariant {P : State → Prop} (initial : P start)
    (kept : ∀ s input result t, P s → step s input = some (result, t) → P t)
    (ran : history step start inputs = some (results, s)) : P s :=
  history_induction (P := fun _ _ s => P s) initial
    (fun _ _ s input result t _ holds stepped => kept s input result t holds stepped) ran

section Logs

variable {Entry : Type} (log : State → List Entry)

end Logs

/-- `Since step Busy begins start inputs s`: the machine is busy in `s`, and has been since the step
on `input`, the first of `inputs` not in `before`; `begins` relates that step to `s`. -/
structure Since (step : State → Input → Option (Result × State)) (Busy : State → Prop)
    (begins : State → Input → State → Prop) (start : State) (inputs : List Input) (s : State) :
    Prop where
  begun : ∃ before input after earlier idle,
    inputs = before ++ input :: after ∧ history step start before = some (earlier, idle) ∧
    ¬Busy idle ∧ begins idle input s ∧
    ∀ now, now <+: after → ∃ results busy,
      history step start (before ++ input :: now) = some (results, busy) ∧ Busy busy

/-- A machine that starts idle and is now busy became so at some step and has stayed so. -/
theorem history_since {Busy : State → Prop} {begins : State → Input → State → Prop}
    (idle : ¬Busy start)
    (begun : ∀ inputs results s input result t, history step start inputs = some (results, s) →
      ¬Busy s → step s input = some (result, t) → Busy t → begins s input t)
    (kept : ∀ inputs results s input result t first cause,
      history step start inputs = some (results, s) → Busy s → begins first cause s →
      step s input = some (result, t) → Busy t → begins first cause t)
    (ran : history step start inputs = some (results, s)) (busy : Busy s) :
    Since step Busy begins start inputs s := by
  refine history_induction (P := fun inputs _ s => Busy s → Since step Busy begins start inputs s)
    (fun now => absurd now idle) ?_ ran busy
  intro inputs results s input result t reached ih stepped busy
  by_cases before : Busy s
  · obtain ⟨⟨earlier, first, after, _, free, rfl, ran, notBusy, cause, throughout⟩⟩ := ih before
    refine ⟨earlier, first, after ++ [input], _, free, by simp, ran, notBusy,
      kept _ _ _ _ _ _ _ _ reached before cause stepped busy, fun now within => ?_⟩
    rcases List.prefix_concat_iff.mp within with rfl | shorter
    · refine ⟨results ++ [result], t, ?_, busy⟩
      have last : history step start ((earlier ++ first :: after) ++ [input]) =
          some (results ++ [result], t) :=
        (history_snoc _ input).mpr ⟨results, s, result, reached, stepped, rfl⟩
      simpa using last
    · exact throughout now shorter
  · refine ⟨inputs, input, [], results, s, rfl, reached, before,
      begun _ _ _ _ _ _ reached before stepped busy, fun now within => ?_⟩
    rw [List.prefix_nil.mp within]
    exact ⟨_, t, (history_snoc inputs input).mpr ⟨results, s, result, reached, stepped, rfl⟩, busy⟩

end WolfCert.CLib
