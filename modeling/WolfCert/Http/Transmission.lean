import WolfCert.Http.Runs
import WolfCert.Http.Stream

/-!
# What a request puts on the wire

The environment is instrumented with a record of the bytes its writes accepted. One offset serves the
head and the body, so the record is tied to the state of the session.
-/

namespace WolfCert.Http

open WolfCert.CLib

variable {σ : Type} {env : Env σ}

def WriteResult.accepted (buf : Bytes) : WriteResult → Bytes
  | .count n => buf.take n
  | .code _ => []

def SslWrite.accepted (buf : Bytes) : SslWrite → Bytes
  | .count n => buf.take n
  | .error _ => []

/-- The same environment, with every accepted byte appended to a record beside the world. -/
def Env.recorded (env : Env σ) : Env (σ × Bytes) where
  alloc w size := ((env.alloc w.1 size).1, (env.alloc w.1 size).2, w.2)
  connect w host port timeout :=
    ((env.connect w.1 host port timeout).1, (env.connect w.1 host port timeout).2, w.2)
  setupTls w host := ((env.setupTls w.1 host).1, (env.setupTls w.1 host).2, w.2)
  read w room timeout := ((env.read w.1 room timeout).1, (env.read w.1 room timeout).2, w.2)
  write w buf timeout :=
    ((env.write w.1 buf timeout).1, (env.write w.1 buf timeout).2,
      w.2 ++ (env.write w.1 buf timeout).1.accepted buf)
  sslConnect w timeout := ((env.sslConnect w.1 timeout).1, (env.sslConnect w.1 timeout).2, w.2)
  sslRead w room timeout :=
    ((env.sslRead w.1 room timeout).1, (env.sslRead w.1 room timeout).2, w.2)
  sslWrite w buf timeout :=
    ((env.sslWrite w.1 buf timeout).1, (env.sslWrite w.1 buf timeout).2,
      w.2 ++ (env.sslWrite w.1 buf timeout).1.accepted buf)
  wcTime w := env.wcTime w.1
  base64EncodeNoNl := env.base64EncodeNoNl

/-- How far the write loop got: up to `reached` of `buf` is on the wire, and unless the transport
claimed more than it was offered that is the offset the caller sees. -/
structure WriteSpec (buf : Bytes) (off : Nat) (log : Bytes) (rc : Rc) (off' : Nat) (log' : Bytes)
    (reached : Nat) : Prop where
  forward : off ≤ off'
  within : off' ≤ reached
  bound : reached ≤ buf.length
  recorded : log' = log ++ (buf.take reached).drop off
  seen : rc ≠ .errIo → reached = off'
  all : rc = .ok → off' = buf.length

theorem WriteSpec.stopped {buf : Bytes} {off : Nat} {log : Bytes} {rc : Rc}
    (bound : off ≤ buf.length) (failed : rc ≠ .ok) : WriteSpec buf off log rc off log off where
  forward := Nat.le_refl _
  within := Nat.le_refl _
  bound := bound
  recorded := by simp
  seen _ := rfl
  all ok := absurd ok failed

theorem WriteSpec.finished {buf : Bytes} {off : Nat} {log : Bytes} {rc : Rc}
    (done : off = buf.length) : WriteSpec buf off log rc off log off where
  forward := Nat.le_refl _
  within := Nat.le_refl _
  bound := Nat.le_of_eq done
  recorded := by simp
  seen _ := rfl
  all _ := done

/-- Accepting `n` more bytes first puts exactly those in front of what the rest of the loop sends. -/
theorem WriteSpec.advance {buf log log' : Bytes} {off n off' reached : Nat} {rc : Rc}
    (rest : WriteSpec buf (off + n) (log ++ (buf.drop off).take n) rc off' log' reached) :
    WriteSpec buf off log rc off' log' reached where
  forward := Nat.le_trans (Nat.le_add_right _ _) rest.forward
  within := rest.within
  bound := rest.bound
  recorded := by
    have reached_ge : off + n ≤ reached := Nat.le_trans rest.forward rest.within
    have split : (buf.take reached).drop off =
        (buf.drop off).take n ++ (buf.take reached).drop (off + n) := by
      rw [← List.drop_drop, List.drop_take, List.drop_take]
      conv_lhs => rw [← List.take_append_drop n ((buf.drop off).take (reached - off))]
      rw [List.take_take, Nat.min_eq_left (by omega), List.drop_take, List.drop_drop]
    rw [rest.recorded, split, List.append_assoc]
  seen := rest.seen
  all := rest.all

theorem nbWriteLoop_recorded {ssl : Bool} {timeout : Int} {buf log log' : Bytes} {fuel off off' : Nat}
    {w w' : σ} {rc : Rc} (enough : buf.length - off ≤ fuel) (bound : off ≤ buf.length)
    (run : nbWriteLoop env.recorded ssl timeout buf fuel off (w, log) = (rc, off', w', log')) :
    ∃ reached, WriteSpec buf off log rc off' log' reached := by
  induction fuel generalizing off w log with
  | zero =>
      cases run
      exact ⟨_, .finished (by omega)⟩
  | succ fuel ih =>
      simp only [nbWriteLoop, Env.recorded] at run
      split at run
      · rename_i unsent
        split at run
        · cases wrote : env.sslWrite w (buf.drop off) timeout with
          | mk result w₁ =>
              rw [wrote] at run
              cases result with
              | count n =>
                  have taken : (SslWrite.count n).accepted (buf.drop off) =
                      (buf.drop off).take (min n (buf.length - off)) := by
                    simp [SslWrite.accepted, List.take_eq_take_iff]
                  dsimp only at run
                  split at run
                  · obtain ⟨reached, spec⟩ := ih (by omega) (by omega) run
                    exact ⟨reached, .advance (taken ▸ spec)⟩
                  · rename_i none
                    obtain rfl : n = 0 := by omega
                    cases run
                    exact ⟨_, by simpa [SslWrite.accepted] using WriteSpec.stopped bound (by simp)⟩
              | error e =>
                  cases e <;> cases run <;>
                    exact ⟨_, by simpa [SslWrite.accepted] using WriteSpec.stopped bound (by simp)⟩
        · cases wrote : env.write w (buf.drop off) timeout with
          | mk result w₁ =>
              rw [wrote] at run
              cases result with
              | count n =>
                  dsimp only at run
                  split at run
                  · rename_i above
                    cases run
                    refine ⟨buf.length, Nat.le_refl _, bound, Nat.le_refl _, ?_, by simp, by simp⟩
                    simp only [WriteResult.accepted, List.take_length]
                    rw [List.take_of_length_le (by simp; omega)]
                  · split at run
                    · obtain ⟨reached, spec⟩ := ih (by omega) (by omega) run
                      exact ⟨reached, .advance spec⟩
                    · rename_i none
                      obtain rfl : n = 0 := by omega
                      cases run
                      exact ⟨_, by simpa [WriteResult.accepted] using
                        WriteSpec.stopped bound (by simp)⟩
              | code rc' =>
                  dsimp only at run
                  simp only [Prod.mk.injEq] at run
                  obtain ⟨code, rfl, rfl, rfl⟩ := run
                  have failed : rc ≠ .ok := by
                    rintro rfl
                    split at code
                    · simp_all [Rc.isWant]
                    · cases code
                  exact ⟨_, by simpa [WriteResult.accepted] using WriteSpec.stopped bound failed⟩
      · cases run
        exact ⟨_, .finished (by omega)⟩

theorem recorded_allocKeeps : env.recorded.AllocKeeps Prod.snd := fun _ _ => rfl

theorem nbReceive_record {x x' : Exchange (σ × Bytes)} {room : Nat} {probing : Bool} {rc : Rc}
    {ended : Bool} (run : nbReceive env.recorded x room probing = (rc, ended, x')) :
    x'.world.2 = x.world.2 := by
  simp only [nbReceive, takeRead] at run
  repeat' split at run
  all_goals cases run
  all_goals first
    | exact (congrArg (fun result => result.2.2) ‹env.recorded.read _ _ _ = _›).symm
    | exact (congrArg (fun result => result.2.2) ‹env.recorded.sslRead _ _ _ = _›).symm

theorem nbReadSome_record {x x' : Exchange (σ × Bytes)} {limit : Nat} {rc : Rc} {ended : Bool}
    (run : nbReadSome env.recorded x limit = some (rc, ended, x')) : x'.world.2 = x.world.2 := by
  simp only [nbReadSome] at run
  split at run
  · cases run
    rfl
  · split at run
    · exact nbReceive_record (Option.some.inj run)
    · split at run
      · cases run
      · rename_i reserved
        exact (nbReceive_record (Option.some.inj run)).trans
          (nbRxReserve_keeps recorded_allocKeeps reserved)
      · rename_i reserved
        cases run
        exact nbRxReserve_keeps recorded_allocKeeps reserved

theorem readThrough_record {x x' : Exchange (σ × Bytes)} {limit : Nat} {rc : Rc}
    (run : (nbReadSome env.recorded x limit).map readThrough = some (rc, x')) :
    x'.world.2 = x.world.2 := by
  obtain ⟨⟨rc', ended, y⟩, read, through⟩ := Option.map_eq_some_iff.mp run
  obtain rfl : y = x' := congrArg Prod.snd through
  exact nbReadSome_record read

theorem smReadHead_record {x x' : Exchange (σ × Bytes)} {rc : Rc}
    (run : smReadHead env.recorded x = some (rc, x')) : x'.world.2 = x.world.2 := by
  simp only [smReadHead] at run
  split at run
  · split at run
    · cases run
      rfl
    · exact (readThrough_record run :)
  · split at run
    · rename_i y inspected
      have same := inspectHeaders_keeps recorded_allocKeeps inspected
      split at run
      · simp only [smDropInterim] at run
        split at run <;> cases run <;> exact same
      · cases run
        exact same
    · rename_i inspected
      cases run
      exact (inspectHeaders_keeps recorded_allocKeeps inspected :)

theorem smReadBodyCl_record {x x' : Exchange (σ × Bytes)} {rc : Rc}
    (run : smReadBodyCl env.recorded x = some (rc, x')) : x'.world.2 = x.world.2 := by
  simp only [smReadBodyCl] at run
  split at run
  · split at run
    · split at run
      · rename_i allocated
        cases run
        exact recorded_allocKeeps.result allocated
      · rename_i allocated
        exact (readThrough_record run).trans (recorded_allocKeeps.result allocated)
    · exact (readThrough_record run :)
  · cases run
    rfl

theorem smReadBodyChunked_record {x x' : Exchange (σ × Bytes)} {rc : Rc}
    (run : smReadBodyChunked env.recorded x = some (rc, x')) : x'.world.2 = x.world.2 := by
  simp only [smReadBodyChunked] at run
  split at run
  · cases run
    rfl
  · exact (readThrough_record run :)
  · split at run <;> cases run <;> rfl

theorem smReadBodyEof_record {x x' : Exchange (σ × Bytes)} {rc : Rc}
    (run : smReadBodyEof env.recorded x = some (rc, x')) : x'.world.2 = x.world.2 := by
  simp only [smReadBodyEof] at run
  split at run
  · cases run
  · rename_i read
    cases run
    exact (nbReadSome_record read :)
  · rename_i read
    cases run
    exact (nbReadSome_record read :)

/-- The record `log` of a session that sends `head` and `body` on top of `before`. -/
def Transmitted (before head body : Bytes) (s : HttpSession) (log : Bytes) : Prop :=
  s.smBody = body ∧
    match s.smState with
    | .handshake => s.smHead = head ∧ s.smTxOff = 0 ∧ log = before
    | .writeHead =>
        s.smHead = head ∧ s.smTxOff ≤ head.length ∧ log = before ++ head.take s.smTxOff
    | .writeBody => s.smTxOff ≤ body.length ∧ log = before ++ head ++ body.take s.smTxOff
    | _ => log = before ++ head ++ body

theorem Transmitted.partly {before head body log : Bytes} {s : HttpSession}
    (sent : Transmitted before head body s log) :
    ∃ sent, sent <+: head ++ body ∧ log = before ++ sent := by
  obtain ⟨-, sent⟩ := sent
  split at sent
  · exact ⟨[], List.nil_prefix, by simp [sent.2.2]⟩
  · exact ⟨head.take s.smTxOff, (List.take_prefix _ _).trans (List.prefix_append _ _), sent.2.2⟩
  · refine ⟨head ++ body.take s.smTxOff, ?_, by simp [sent.2]⟩
    exact (List.prefix_append_right_inj _).mpr (List.take_prefix _ _)
  · exact ⟨head ++ body, List.prefix_refl _, by simp [sent]⟩

theorem smWriteHead_transmitted {before head body : Bytes} {x x' : Exchange (σ × Bytes)} {rc : Rc}
    (state : x.session.smState = .writeHead)
    (sent : Transmitted before head body x.session x.world.2)
    (run : smWriteHead env.recorded x = (rc, x')) :
    (∃ sent, sent <+: head ++ body ∧ x'.world.2 = before ++ sent) ∧
      (rc ≠ .errIo → Transmitted before head body x'.session x'.world.2) := by
  simp only [Transmitted, state] at sent
  obtain ⟨rfl, rfl, bound, logged⟩ := sent
  cases wrote : nbWrite env.recorded x.session x.session.smHead x.world with
  | mk rc₁ result =>
      obtain ⟨off, w⟩ := result
      obtain ⟨reached, spec⟩ := nbWriteLoop_recorded (Nat.le_refl _) bound wrote
      have onWire : w.2 = before ++ x.session.smHead.take reached := by
        have reached_ge := Nat.le_trans spec.forward spec.within
        rw [spec.recorded, logged, List.append_assoc, List.drop_take, ← List.take_add,
          Nat.add_sub_cancel' reached_ge]
      have onWire_prefix : x.session.smHead.take reached <+: x.session.smHead ++ x.session.smBody :=
        (List.take_prefix _ _).trans (List.prefix_append _ _)
      simp only [smWriteHead, wrote] at run
      split at run
      · rename_i ended
        cases ended
        cases run
        have whole : reached = x.session.smHead.length :=
          (spec.seen (by simp)).trans (spec.all rfl)
        refine ⟨⟨_, onWire_prefix, onWire⟩, fun _ => ?_⟩
        rw [whole, List.take_length] at onWire
        by_cases empty : x.session.smBody = []
        · simp [Transmitted, onWire, empty]
        · have pending : 0 < x.session.smBody.length := List.length_pos_iff.mpr empty
          simp [Transmitted, onWire, pending]
      · rename_i ended
        cases ended
        cases run
        refine ⟨⟨_, onWire_prefix, onWire⟩, fun seen => ?_⟩
        rw [spec.seen seen] at onWire
        refine ⟨rfl, ?_⟩
        simp only [state]
        exact ⟨trivial, Nat.le_trans spec.within spec.bound, onWire⟩

theorem smWriteBody_transmitted {before head body : Bytes} {x x' : Exchange (σ × Bytes)} {rc : Rc}
    (state : x.session.smState = .writeBody)
    (sent : Transmitted before head body x.session x.world.2)
    (run : smWriteBody env.recorded x = (rc, x')) :
    (∃ sent, sent <+: head ++ body ∧ x'.world.2 = before ++ sent) ∧
      (rc ≠ .errIo → Transmitted before head body x'.session x'.world.2) := by
  simp only [Transmitted, state] at sent
  obtain ⟨rfl, bound, logged⟩ := sent
  cases wrote : nbWrite env.recorded x.session x.session.smBody x.world with
  | mk rc₁ result =>
      obtain ⟨off, w⟩ := result
      obtain ⟨reached, spec⟩ := nbWriteLoop_recorded (Nat.le_refl _) bound wrote
      have onWire : w.2 = before ++ (head ++ x.session.smBody.take reached) := by
        have reached_ge := Nat.le_trans spec.forward spec.within
        rw [spec.recorded, logged, List.append_assoc, List.drop_take, ← List.take_add,
          Nat.add_sub_cancel' reached_ge, List.append_assoc]
      have onWire_prefix : head ++ x.session.smBody.take reached <+: head ++ x.session.smBody :=
        (List.prefix_append_right_inj _).mpr (List.take_prefix _ _)
      simp only [smWriteBody, wrote] at run
      split at run
      · rename_i ended
        cases ended
        cases run
        have whole : reached = x.session.smBody.length :=
          (spec.seen (by simp)).trans (spec.all rfl)
        refine ⟨⟨_, onWire_prefix, onWire⟩, fun _ => ?_⟩
        simp [Transmitted, onWire, whole]
      · rename_i ended
        cases ended
        cases run
        refine ⟨⟨_, onWire_prefix, onWire⟩, fun seen => ?_⟩
        rw [spec.seen seen] at onWire
        refine ⟨rfl, ?_⟩
        simp only [state]
        exact ⟨Nat.le_trans spec.within spec.bound, by simpa using onWire⟩

/-- The states in which a request is entirely on the wire. -/
def SmState.afterSend (state : SmState) : Prop := 3 ≤ state.rank

theorem Transmitted.afterSend {before head body log : Bytes} {s : HttpSession}
    (state : s.smState.afterSend) :
    Transmitted before head body s log ↔ s.smBody = body ∧ log = before ++ head ++ body := by
  cases known : s.smState <;> simp_all [Transmitted, SmState.afterSend, SmState.rank]

theorem smStep_afterSend {x x' : Exchange σ} {rc : Rc} (state : x.session.smState.afterSend)
    (run : smStep env x = some (rc, x')) :
    x'.session.smState.afterSend ∧ x'.session.smBody = x.session.smBody := by
  by_cases idle : x.session.smState = .idle
  · simp only [smStep, idle] at run
    cases run
    exact ⟨state, rfl⟩
  · by_cases done : x.session.smState = .done
    · simp only [smStep, done] at run
      cases run
      exact ⟨by simp [smDone, SmState.afterSend, SmState.rank], rfl⟩
    · have turn := smStep_turn idle done run
      exact ⟨Nat.le_trans state turn.forward, congrArg Held.smBody turn.held⟩

theorem smStep_record {x x' : Exchange (σ × Bytes)} {rc : Rc} (state : x.session.smState.afterSend)
    (run : smStep env.recorded x = some (rc, x')) : x'.world.2 = x.world.2 := by
  cases known : x.session.smState <;> simp only [smStep, known, Option.some.injEq] at run
  case handshake => simp [SmState.afterSend, SmState.rank, known] at state
  case writeHead => simp [SmState.afterSend, SmState.rank, known] at state
  case writeBody => simp [SmState.afterSend, SmState.rank, known] at state
  case readHead => exact smReadHead_record run
  case readBodyCl => exact smReadBodyCl_record run
  case readBodyEof => exact smReadBodyEof_record run
  case readBodyChunked => exact smReadBodyChunked_record run
  case done => cases run; rfl
  case idle => cases run; rfl

theorem smHandshake_transmitted {before head body : Bytes} {x x' : Exchange (σ × Bytes)} {rc : Rc}
    (state : x.session.smState = .handshake)
    (sent : Transmitted before head body x.session x.world.2)
    (run : smHandshake env.recorded x = (rc, x')) :
    Transmitted before head body x'.session x'.world.2 := by
  simp only [Transmitted, state] at sent
  obtain ⟨rfl, rfl, off, logged⟩ := sent
  simp only [smHandshake] at run
  split at run
  all_goals
    have same : x.world.2 = _ := congrArg (fun result => result.2.2)
      ‹env.recorded.sslConnect _ _ = _›
    cases run
    simp only [Transmitted, state, off, List.take_zero, List.append_nil, Nat.zero_le, true_and]
    exact same.symm.trans logged

/-- One turn: what is on the wire stays a prefix of the request, and the offset keeps naming it
unless the transport broke its contract. -/
theorem Transmitted.step {before head body : Bytes} {x x' : Exchange (σ × Bytes)} {rc : Rc}
    (sent : Transmitted before head body x.session x.world.2)
    (run : smStep env.recorded x = some (rc, x')) :
    (∃ sent, sent <+: head ++ body ∧ x'.world.2 = before ++ sent) ∧
      (rc ≠ .errIo → Transmitted before head body x'.session x'.world.2) := by
  by_cases state : x.session.smState.afterSend
  · obtain ⟨state', body'⟩ := smStep_afterSend state run
    have sent' : Transmitted before head body x'.session x'.world.2 := by
      rw [Transmitted.afterSend state] at sent
      rw [Transmitted.afterSend state', body', smStep_record state run]
      exact sent
    exact ⟨sent'.partly, fun _ => sent'⟩
  · cases known : x.session.smState <;>
      simp only [SmState.afterSend, known, SmState.rank] at state
    case handshake =>
      simp only [smStep, known, Option.some.injEq] at run
      have sent' := smHandshake_transmitted known sent run
      exact ⟨sent'.partly, fun _ => sent'⟩
    case writeHead =>
      simp only [smStep, known, Option.some.injEq] at run
      exact smWriteHead_transmitted known sent run
    case writeBody =>
      simp only [smStep, known, Option.some.injEq] at run
      exact smWriteBody_transmitted known sent run
    all_goals omega

/-- A whole run keeps the prefix; it leaves a waiting request where its offset says, and a finished
one entirely sent. -/
theorem Transmitted.run {before head body : Bytes} {x x' : Exchange (σ × Bytes)} {rc : Rc}
    (sent : Transmitted before head body x.session x.world.2)
    (run : smRun env.recorded x = some (rc, x')) :
    (∃ sent, sent <+: head ++ body ∧ x'.world.2 = before ++ sent) ∧
      (rc.isWant = true → Transmitted before head body x'.session x'.world.2) ∧
      (rc = .ok → x'.world.2 = before ++ (head ++ body)) := by
  obtain ⟨⟨rc', y⟩, looped, settled⟩ := Option.map_eq_some_iff.mp run
  simp only [Prod.mk.injEq] at settled
  obtain ⟨rfl, rfl⟩ := settled
  obtain ⟨z, sent, stepped, stopped⟩ := smLoop_last
    (P := fun y => Transmitted before head body y.session y.world.2)
    (fun _ _ sent stepped _ => (sent.step stepped).2 (by simp)) sent looped
  obtain ⟨partly, kept⟩ := sent.step stepped
  refine ⟨partly, fun want => ?_, ?_⟩
  · rw [smSettle_want want]
    exact kept (by rintro rfl; simp [Rc.isWant] at want)
  · rintro rfl
    have idle : y.session.smState = .idle := by simpa using stopped
    have all := (Transmitted.afterSend (by simp [idle, SmState.afterSend, SmState.rank])).mp
      (kept (by simp))
    simpa using all.2

/-- The calls that serve one request: the one that starts it and any others while it is in flight,
whatever arguments they pass. -/
inductive Serves (env : Env σ) (x₀ : Exchange σ) (req : HttpRequest) (resp : Nat) :
    Rc → Exchange σ → Prop where
  | start {nb : Bool} {rc : Rc} {x : Exchange σ}
      (call : httpSessionCall env x₀ req resp nb = some (rc, x)) : Serves env x₀ req resp rc x
  | again {rc rc' : Rc} {x x' : Exchange σ} {req' : HttpRequest} {resp' : Nat} {nb : Bool}
      (served : Serves env x₀ req resp rc x) (inFlight : x.session.smResp = some resp)
      (call : httpSessionCall env x req' resp' nb = some (rc', x')) : Serves env x₀ req resp rc' x'

/-- What the serving calls keep: a prefix is out, all of it after `ok`, and while the request is in
flight its state tells how much. -/
structure ServedBytes (before head body : Bytes) (resp : Nat) (rc : Rc)
    (x : Exchange (σ × Bytes)) : Prop where
  partly : ∃ sent, sent <+: head ++ body ∧ x.world.2 = before ++ sent
  wholly : rc = .ok → x.world.2 = before ++ (head ++ body)
  inFlight : x.session.smResp = some resp →
    x.session.Serving resp ∧ Transmitted before head body x.session x.world.2

theorem ServedBytes.of_run {before head body : Bytes} {resp : Nat} {nb : Bool} {rc : Rc}
    {y x' : Exchange (σ × Bytes)} (serving : y.session.Serving resp)
    (sent : Transmitted before head body y.session y.world.2)
    (run : (smRun env.recorded y).map (refuseWant nb) = some (rc, x')) :
    ServedBytes before head body resp rc x' := by
  have outcome := (refuseWant_outcome serving run).1
  obtain ⟨⟨rc', z⟩, ran, refused⟩ := Option.map_eq_some_iff.mp run
  obtain ⟨partly, waiting, wholly⟩ := sent.run ran
  simp only [refuseWant] at refused
  split at refused <;> cases refused
  · exact ⟨partly, by simp, fun inFlight => by simp [smFail, smReset] at inFlight⟩
  · refine ⟨partly, wholly, fun inFlight => ?_⟩
    cases outcome with
    | waits want serving => exact ⟨serving, waiting want⟩
    | finishes ok rested => simp [rested.resp] at inFlight
    | fails failed final free => simp [free.resp] at inFlight

theorem smHold_transmitted {before head log : Bytes} {s : HttpSession} {req : HttpRequest}
    {resp : Nat} (start : log = before) :
    Transmitted before head req.body (smHold s req head resp) log := by
  by_cases handshake : s.smState = .handshake <;> simp [Transmitted, smHold, handshake, start]

theorem Serves.sent {before head : Bytes} {x₀ x : Exchange (σ × Bytes)} {req : HttpRequest}
    {resp : Nat} {rc : Rc} (idle : x₀.session.smResp = none)
    (built : builtHead env.recorded x₀ req = some head) (start : x₀.world.2 = before)
    (served : Serves env.recorded x₀ req resp rc x) :
    ServedBytes before head req.body resp rc x := by
  induction served with
  | start call =>
      rename_i nb rc x
      cases httpSessionCall_cases call with
      | closed closed code same =>
          subst code same
          exact ⟨⟨[], List.nil_prefix, by simp [start]⟩, by simp, by simp [idle]⟩
      | busy opened inFlight => exact absurd idle inFlight
      | unbegun w opened _ begun code after =>
          have same := (smBegin_keeps recorded_allocKeeps begun).trans start
          refine ⟨⟨[], List.nil_prefix, by simp [same]⟩, fun ok => absurd ok code.1, ?_⟩
          simp [after, Exchange.timed, idle]
      | begun head' w opened _ built' begun run =>
          obtain rfl : head = head' := Option.some.inj (built.symm.trans built')
          have same : w.2 = before := (smBegin_keeps recorded_allocKeeps begun).trans start
          have serving : (smHold (x₀.timed nb).session req head resp).Serving resp :=
            smHold_serving opened
          exact .of_run serving (smHold_transmitted same) run
      | resumed opened inFlight => simp [idle] at inFlight
  | again served inFlight call ih =>
      rename_i rc rc' x x' req' resp' nb
      cases httpSessionCall_cases call with
      | closed closed code same =>
          subst code same
          exact ⟨ih.partly, by simp, ih.inFlight⟩
      | busy opened _ mismatch code same =>
          subst code same
          exact ⟨ih.partly, by simp, ih.inFlight⟩
      | unbegun w opened idle => simp [idle] at inFlight
      | begun head' w opened idle => simp [idle] at inFlight
      | resumed opened inFlight' nonblocking run =>
          obtain rfl : resp = resp' := Option.some.inj (inFlight.symm.trans inFlight')
          obtain ⟨serving, sent⟩ := ih.inFlight inFlight
          exact .of_run (serving.timed nb) sent run

/-- A request that could not be built, or that found the session closed, sends nothing. -/
theorem Serves.unsent {x₀ x : Exchange (σ × Bytes)} {req : HttpRequest} {resp : Nat} {rc : Rc}
    (idle : x₀.session.smResp = none) (unbuilt : builtHead env.recorded x₀ req = none)
    (served : Serves env.recorded x₀ req resp rc x) :
    x.world.2 = x₀.world.2 ∧ rc ≠ .ok ∧ x.session.smResp = none := by
  induction served with
  | start call =>
      cases httpSessionCall_cases call with
      | closed closed code same => simp [code, same, idle]
      | busy opened inFlight => exact absurd idle inFlight
      | unbegun w opened _ begun code after =>
          exact ⟨(smBegin_keeps recorded_allocKeeps begun :), code.1,
            by simp [after, Exchange.timed, idle]⟩
      | begun head w opened _ built => simp [unbuilt] at built
      | resumed opened inFlight => simp [idle] at inFlight
  | again served inFlight call ih => simp [ih.2.2] at inFlight

/-- What the transport accepted between `x₀` and `x`: a prefix of the head built for `req` and its
body, both entirely when `rc` is `ok`, and nothing when no head could be built. -/
structure TransmitsExactly (env : Env (σ × Bytes)) (x₀ : Exchange (σ × Bytes)) (req : HttpRequest)
    (rc : Rc) (x : Exchange (σ × Bytes)) : Prop where
  built : ∀ head, builtHead env x₀ req = some head →
    ∃ sent, sent <+: head ++ req.body ∧ x.world.2 = x₀.world.2 ++ sent ∧
      (rc = .ok → sent = head ++ req.body)
  unbuilt : builtHead env x₀ req = none → x.world.2 = x₀.world.2 ∧ rc ≠ .ok

/-- Exact transmission: whatever the transport accepts and however often the request waits, the
bytes accepted since it began are a prefix of its own head and body, and all of both once it is
`ok`. -/
theorem serves_transmits_exactly {x₀ x : Exchange (σ × Bytes)} {req : HttpRequest} {resp : Nat}
    {rc : Rc} (served : Serves env.recorded x₀ req resp rc x)
    (idle : x₀.session.smResp = none) :
    TransmitsExactly env.recorded x₀ req rc x := by
  constructor
  · intro head built
    obtain ⟨⟨sent, isPrefix, accepted⟩, wholly, -⟩ := served.sent idle built rfl
    refine ⟨sent, isPrefix, accepted, fun ok => ?_⟩
    exact List.append_cancel_left (accepted.symm.trans (wholly ok))
  · intro unbuilt
    obtain ⟨same, failed, -⟩ := served.unsent idle unbuilt
    exact ⟨same, failed⟩

/-- A session whose transport takes three bytes, suspends, and then takes the rest. -/
def exampleExchange : Exchange (Wire × Bytes) where
  session := .opened exampleUrl 100
  resp := .zero
  world := (⟨ascii "HTTP/1.1 204 N\r\n\r\n", [.move 3, .wantWrite], false, false⟩, [])

theorem serves_transmits_exactly_suspended :
    ∃ rc x, Serves (wireEnv 0 fun _ => none).recorded exampleExchange examplePost 7 rc x ∧
      rc = .errWantWrite ∧
      TransmitsExactly (wireEnv 0 fun _ => none).recorded exampleExchange examplePost rc x := by
  have returns : (httpSessionCall (wireEnv 0 fun _ => none).recorded exampleExchange examplePost 7
      true).map Prod.fst = some .errWantWrite := by decide +kernel
  obtain ⟨⟨rc, x⟩, call, waits⟩ := Option.map_eq_some_iff.mp returns
  refine ⟨rc, x, .start call, waits, ?_⟩
  exact serves_transmits_exactly (.start call) rfl

end WolfCert.Http
