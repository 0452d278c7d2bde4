import Mathlib.Logic.Basic

/-!
# Fallible programs

A program ends with a value or an error and changes the world either way. One that never returns has
the result `none`.
-/

namespace WolfCert.CLib

def Prog (σ ε α : Type) : Type := σ → Option (Except ε α × σ)

namespace Prog

variable {σ ε δ α β : Type}

instance : Monad (Prog σ ε) where
  pure value := fun w => some (.ok value, w)
  bind first next := fun w =>
    match first w with
    | none => none
    | some (.ok value, w) => next value w
    | some (.error e, w) => some (.error e, w)

def fail (e : ε) : Prog σ ε α := fun w => some (.error e, w)

def require (condition : Prop) [Decidable condition] (e : ε) : Prog σ ε Unit :=
  if condition then pure () else fail e

/-- A call that always returns. -/
def call (f : σ → α × σ) : Prog σ ε α := fun w => some (.ok (f w).1, (f w).2)

/-- A call whose own errors are translated. -/
def callMap (translate : δ → ε) (f : σ → Except δ α × σ) : Prog σ ε α := fun w =>
  some ((f w).1.mapError translate, (f w).2)

/-- Run a program for its result, success or not. -/
def attempt (p : Prog σ ε α) : Prog σ δ (Except ε α) := fun w =>
  (p w).map fun (result, w) => (.ok result, w)

/-- A program whose errors are translated. -/
def mapError (translate : ε → δ) (p : Prog σ ε α) : Prog σ δ α := fun w =>
  (p w).map fun (result, w) => (result.mapError translate, w)

variable {w w' : σ} {value : α}

@[simp] theorem pure_apply (value : α) (w : σ) :
    (pure value : Prog σ ε α) w = some (.ok value, w) := rfl

@[simp] theorem fail_apply (e : ε) (w : σ) : (fail e : Prog σ ε α) w = some (.error e, w) := rfl

@[simp] theorem ite_apply {condition : Prop} [Decidable condition] (p q : Prog σ ε α) (w : σ) :
    (if condition then p else q) w = if condition then p w else q w := by
  split <;> rfl

theorem require_of {condition : Prop} [Decidable condition] (holds : condition) (e : ε) (w : σ) :
    require condition e w = some (.ok (), w) := by
  rw [require, if_pos holds, pure_apply]

theorem require_of_not {condition : Prop} [Decidable condition] (fails : ¬condition) (e : ε) (w : σ) :
    require condition e w = some (.error e, w) := by
  rw [require, if_neg fails, fail_apply]

theorem bind_of_ok {first : Prog σ ε α} {next : α → Prog σ ε β} {v : σ}
    (started : first w = some (.ok value, v)) : (first >>= next) w = next value v := by
  change (match first w with
    | none => none
    | some (.ok value, w) => next value w
    | some (.error e, w) => some (.error e, w)) = next value v
  rw [started]

theorem bind_of_error {first : Prog σ ε α} {next : α → Prog σ ε β} {e : ε} {v : σ}
    (failed : first w = some (.error e, v)) : (first >>= next) w = some (.error e, v) := by
  change (match first w with
    | none => none
    | some (.ok value, w) => next value w
    | some (.error e, w) => some (.error e, w)) = some (.error e, v)
  rw [failed]

theorem bind_of_none {first : Prog σ ε α} {next : α → Prog σ ε β} (stuck : first w = none) :
    (first >>= next) w = none := by
  change (match first w with
    | none => none
    | some (.ok value, w) => next value w
    | some (.error e, w) => some (.error e, w)) = none
  rw [stuck]

theorem bind_assoc {γ : Type} (first : Prog σ ε α) (next : α → Prog σ ε β) (last : β → Prog σ ε γ) :
    (first >>= next) >>= last = first >>= fun value => next value >>= last := by
  funext w
  cases ran : first w with
  | none => rw [bind_of_none ran, bind_of_none (bind_of_none ran)]
  | some after =>
      obtain ⟨result, v⟩ := after
      cases result with
      | error e => rw [bind_of_error ran, bind_of_error (bind_of_error ran)]
      | ok value =>
          rw [bind_of_ok ran]
          cases ran' : next value v with
          | none => rw [bind_of_none ran', bind_of_none ((bind_of_ok ran).trans ran')]
          | some after =>
              obtain ⟨result, u⟩ := after
              cases result with
              | error e => rw [bind_of_error ran', bind_of_error ((bind_of_ok ran).trans ran')]
              | ok value => rw [bind_of_ok ran', bind_of_ok ((bind_of_ok ran).trans ran')]

/-- A sequence ends where its first part fails, or as its second part does. -/
theorem bind_cases {first : Prog σ ε α} {next : α → Prog σ ε β} {result : Except ε β}
    (run : (first >>= next) w = some (result, w')) :
    (∃ e, result = .error e ∧ first w = some (.error e, w')) ∨
    (∃ value v, first w = some (.ok value, v) ∧ next value v = some (result, w')) := by
  change (match first w with
    | none => none
    | some (.ok value, w) => next value w
    | some (.error e, w) => some (.error e, w)) = some (result, w') at run
  split at run
  · cases run
  · rename_i value v started
    exact .inr ⟨value, v, started, run⟩
  · rename_i e v started
    cases run
    exact .inl ⟨e, rfl, started⟩

theorem attempt_bind_cases {p : Prog σ ε α} {next : Except ε α → Prog σ δ β} {result : Except δ β}
    (run : (attempt p >>= next) w = some (result, w')) :
    ∃ outcome v, p w = some (outcome, v) ∧ next outcome v = some (result, w') := by
  rcases bind_cases run with ⟨e, -, failed⟩ | ⟨outcome, v, tried, ended⟩
  · obtain ⟨_, -, same⟩ := Option.map_eq_some_iff.mp failed
    cases same
  · obtain ⟨⟨found, u⟩, ran, same⟩ := Option.map_eq_some_iff.mp tried
    cases same
    exact ⟨outcome, v, ran, ended⟩

@[simp] theorem bind_ok_iff {first : Prog σ ε α} {next : α → Prog σ ε β} {result : β} :
    (first >>= next) w = some (.ok result, w') ↔
      ∃ value v, first w = some (.ok value, v) ∧ next value v = some (.ok result, w') := by
  constructor
  · intro run
    rcases bind_cases run with ⟨e, failed, -⟩ | ran
    · cases failed
    · exact ran
  · rintro ⟨value, v, started, ended⟩
    rw [bind_of_ok started]
    exact ended

@[simp] theorem mapError_returned (f : ε → δ) (value : α) :
    (.ok value : Except ε α).mapError f = .ok value := rfl

@[simp] theorem mapError_failed (f : ε → δ) (e : ε) :
    (.error e : Except ε α).mapError f = .error (f e) := rfl

@[simp] theorem require_ok_iff {condition : Prop} [Decidable condition] {e : ε} {u : Unit} :
    (require condition e : Prog σ ε Unit) w = some (.ok u, w') ↔ condition ∧ w = w' := by
  unfold require
  by_cases holds : condition <;> simp [holds]

@[simp] theorem call_ok_iff {f : σ → α × σ} :
    (call f : Prog σ ε α) w = some (.ok value, w') ↔ f w = (value, w') := by
  simp [call, Prod.ext_iff]

@[simp] theorem callMap_ok_iff {translate : δ → ε} {f : σ → Except δ α × σ} :
    callMap translate f w = some (.ok value, w') ↔ f w = (.ok value, w') := by
  unfold callMap
  cases result : f w with
  | mk outcome v => cases outcome <;> simp

@[simp] theorem attempt_ok_iff {p : Prog σ ε α} {result : Except ε α} :
    (attempt p : Prog σ δ _) w = some (.ok result, w') ↔ p w = some (result, w') := by
  unfold attempt
  cases p w <;> simp [Prod.ext_iff]

theorem mapError_cases {translate : ε → δ} {p : Prog σ ε α} {result : Except δ α}
    (run : mapError translate p w = some (result, w')) :
    ∃ outcome, p w = some (outcome, w') ∧ result = outcome.mapError translate := by
  obtain ⟨⟨outcome, v⟩, ran, same⟩ := Option.map_eq_some_iff.mp run
  cases same
  exact ⟨outcome, ran, rfl⟩

@[simp] theorem mapError_ok_iff {translate : ε → δ} {p : Prog σ ε α} :
    mapError translate p w = some (.ok value, w') ↔ p w = some (.ok value, w') := by
  unfold mapError
  cases p w with
  | none => simp
  | some ended =>
      obtain ⟨outcome, v⟩ := ended
      cases outcome <;> simp

/-- Every error the program can end with satisfies `P`. -/
def Raises (p : Prog σ ε α) (P : ε → Prop) : Prop :=
  ∀ w e w', p w = some (.error e, w') → P e

section Raises

variable {P : ε → Prop}

theorem Raises.pure (value : α) : (pure value : Prog σ ε α).Raises P := by
  intro w e w' run
  cases run

theorem Raises.fail {e : ε} (holds : P e) : (fail e : Prog σ ε α).Raises P := by
  intro w e' w' run
  cases run
  exact holds

theorem Raises.require (condition : Prop) [Decidable condition] {e : ε} (holds : P e) :
    (require condition e : Prog σ ε Unit).Raises P := by
  unfold Prog.require
  split
  · exact .pure ()
  · exact .fail holds

theorem Raises.call (f : σ → α × σ) : (call f : Prog σ ε α).Raises P := by
  intro w e w' run
  cases run

theorem Raises.callMap {translate : δ → ε} (holds : ∀ e, P (translate e))
    (f : σ → Except δ α × σ) : (callMap translate f).Raises P := by
  intro w e w' run
  unfold Prog.callMap at run
  cases outcome : (f w).1 with
  | ok value => simp [outcome] at run
  | error e' =>
      simp only [outcome, mapError_failed, Option.some.injEq, Prod.mk.injEq, Except.error.injEq] at run
      exact run.1 ▸ holds e'

theorem Raises.callMap_id {f : σ → Except ε α × σ} (holds : ∀ w e w', f w = (.error e, w') → P e) :
    (Prog.callMap id f).Raises P := by
  intro w e w' run
  unfold Prog.callMap at run
  cases outcome : (f w).1 with
  | ok value => simp [outcome] at run
  | error e' =>
      simp only [outcome, mapError_failed, Option.some.injEq, Prod.mk.injEq, Except.error.injEq] at run
      exact run.1 ▸ holds w e' _ (Prod.ext outcome rfl)

theorem Raises.mapError {translate : δ → ε} (holds : ∀ e, P (translate e)) (p : Prog σ δ α) :
    (mapError translate p).Raises P := by
  intro w e w' run
  obtain ⟨⟨outcome, v⟩, -, same⟩ := Option.map_eq_some_iff.mp run
  cases outcome with
  | ok value => cases same
  | error e' =>
      cases same
      exact holds e'

theorem Raises.attempt (p : Prog σ δ α) : (attempt p : Prog σ ε _).Raises P := by
  intro w e w' run
  unfold Prog.attempt at run
  cases ended : p w <;> simp [ended] at run

theorem Raises.bind {first : Prog σ ε α} {next : α → Prog σ ε β} (raises : first.Raises P)
    (rest : ∀ value, (next value).Raises P) : (first >>= next).Raises P := by
  intro w e w' run
  rcases bind_cases run with ⟨e', same, failed⟩ | ⟨value, v, -, failed⟩
  · cases same
    exact raises w e w' failed
  · exact rest value v e w' failed

theorem Raises.mono {p : Prog σ ε α} {Q : ε → Prop} (raises : p.Raises P) (weaker : ∀ e, P e → Q e) :
    p.Raises Q :=
  fun w e w' run => weaker e (raises w e w' run)

theorem Raises.ite {condition : Prop} [Decidable condition] {p q : Prog σ ε α}
    (left : condition → p.Raises P) (right : ¬condition → q.Raises P) :
    (if condition then p else q).Raises P := by
  split
  · exact left ‹_›
  · exact right ‹_›

end Raises

/-- Every run, failed or not, leads to a world related to the one it started from. -/
def Respects (p : Prog σ ε α) (R : σ → σ → Prop) : Prop :=
  ∀ w result w', p w = some (result, w') → R w w'

section Respects

variable {R : σ → σ → Prop}

theorem Respects.pure (refl : ∀ w, R w w) (value : α) : (pure value : Prog σ ε α).Respects R := by
  intro w result w' run
  cases run
  exact refl w

theorem Respects.fail (refl : ∀ w, R w w) (e : ε) : (fail e : Prog σ ε α).Respects R := by
  intro w result w' run
  cases run
  exact refl w

theorem Respects.require (refl : ∀ w, R w w) (condition : Prop) [Decidable condition] (e : ε) :
    (require condition e : Prog σ ε Unit).Respects R := by
  unfold Prog.require
  split
  · exact .pure refl ()
  · exact .fail refl e

theorem Respects.call {f : σ → α × σ} (related : ∀ w, R w (f w).2) :
    (call f : Prog σ ε α).Respects R := by
  intro w result w' run
  cases run
  exact related w

theorem Respects.callMap {translate : δ → ε} {f : σ → Except δ α × σ}
    (related : ∀ w, R w (f w).2) : (callMap translate f).Respects R := by
  intro w result w' run
  cases run
  exact related w

theorem Respects.attempt {p : Prog σ δ α} (respects : p.Respects R) :
    (attempt p : Prog σ ε _).Respects R := by
  intro w result w' run
  obtain ⟨⟨outcome, v⟩, ended, same⟩ := Option.map_eq_some_iff.mp run
  cases same
  exact respects w _ _ ended

theorem Respects.mapError {p : Prog σ δ α} (translate : δ → ε) (respects : p.Respects R) :
    (mapError translate p).Respects R := by
  intro w result w' run
  obtain ⟨⟨outcome, v⟩, ended, same⟩ := Option.map_eq_some_iff.mp run
  cases same
  exact respects w _ _ ended

theorem Respects.bind {first : Prog σ ε α} {next : α → Prog σ ε β} (respects : first.Respects R)
    (trans : ∀ {u v w}, R u v → R v w → R u w) (rest : ∀ value, (next value).Respects R) :
    (first >>= next).Respects R := by
  intro w result w' run
  rcases bind_cases run with ⟨e, -, failed⟩ | ⟨value, v, started, ended⟩
  · exact respects w _ w' failed
  · exact trans (respects w _ v started) (rest value v result w' ended)

theorem Respects.ite {condition : Prop} [Decidable condition] {p q : Prog σ ε α}
    (left : condition → p.Respects R) (right : ¬condition → q.Respects R) :
    (if condition then p else q).Respects R := by
  split
  · exact left ‹_›
  · exact right ‹_›

end Respects

/-- From any world in `P` the program succeeds with a value in `Q`, and the world stays in `P`. -/
def Succeeds (p : Prog σ ε α) (P : σ → Prop) (Q : α → Prop) : Prop :=
  ∀ w, P w → ∃ value w', p w = some (.ok value, w') ∧ P w' ∧ Q value

section Succeeds

variable {P : σ → Prop} {Q : α → Prop} {S : β → Prop}

theorem Succeeds.pure {value : α} (holds : Q value) : (pure value : Prog σ ε α).Succeeds P Q :=
  fun w here => ⟨value, w, rfl, here, holds⟩

theorem Succeeds.require {condition : Prop} [Decidable condition] {e : ε} (holds : condition) :
    (require condition e : Prog σ ε Unit).Succeeds P fun _ => True :=
  fun w here => ⟨(), w, require_ok_iff.mpr ⟨holds, rfl⟩, here, trivial⟩

theorem Succeeds.call {f : σ → α × σ} (good : ∀ w, P w → P (f w).2 ∧ Q (f w).1) :
    (call f : Prog σ ε α).Succeeds P Q :=
  fun w here => ⟨(f w).1, (f w).2, rfl, good w here⟩

theorem Succeeds.callMap {translate : δ → ε} {f : σ → Except δ α × σ}
    (good : ∀ w, P w → ∃ value w', f w = (.ok value, w') ∧ P w' ∧ Q value) :
    (callMap translate f).Succeeds P Q := by
  intro w here
  obtain ⟨value, w', answered, there, holds⟩ := good w here
  exact ⟨value, w', callMap_ok_iff.mpr answered, there, holds⟩

theorem Succeeds.bind {first : Prog σ ε α} {next : α → Prog σ ε β} (succeeds : first.Succeeds P Q)
    (rest : ∀ value, Q value → (next value).Succeeds P S) : (first >>= next).Succeeds P S := by
  intro w here
  obtain ⟨value, v, started, there, holds⟩ := succeeds w here
  obtain ⟨result, w', ended, done⟩ := rest value holds v there
  exact ⟨result, w', bind_ok_iff.mpr ⟨value, v, started, ended⟩, done⟩

end Succeeds

/-- Every run that returns has a result in `Q`. -/
def Results (p : Prog σ ε α) (Q : Except ε α → Prop) : Prop :=
  ∀ w result w', p w = some (result, w') → Q result

section Results

variable {Q : Except ε α → Prop}

theorem Results.pure {value : α} (holds : Q (.ok value)) : (pure value : Prog σ ε α).Results Q := by
  intro w result w' run
  cases run
  exact holds

theorem Results.fail {e : ε} (holds : Q (.error e)) : (fail e : Prog σ ε α).Results Q := by
  intro w result w' run
  cases run
  exact holds

theorem Results.bind {first : Prog σ ε β} {next : β → Prog σ ε α} (raises : first.Raises fun e => Q (.error e))
    (rest : ∀ value, (next value).Results Q) : (first >>= next).Results Q := by
  intro w result w' run
  rcases bind_cases run with ⟨e, rfl, failed⟩ | ⟨value, v, -, ended⟩
  · exact raises w e w' failed
  · exact rest value v result w' ended

theorem Results.ite {condition : Prop} [Decidable condition] {p q : Prog σ ε α}
    (left : condition → p.Results Q) (right : ¬condition → q.Results Q) :
    (if condition then p else q).Results Q := by
  split
  · exact left ‹_›
  · exact right ‹_›

end Results

end Prog

end WolfCert.CLib
