import WolfCert.Http.Steps

/-!
# Whole calls

The loop of `sm_run` and the calls around it: how a request begins, waits and ends.
-/

namespace WolfCert.Http

open WolfCert.CLib

variable {σ : Type} {env : Env σ}

/-- The induction over the loop: a property kept by every turn that goes on holds where the last
turn starts. -/
theorem smLoop_last {P : Exchange σ → Prop}
    (kept : ∀ x x', P x → smStep env x = some (.ok, x') → x'.session.smState ≠ .idle → P x')
    {fuel : Nat} {x x' : Exchange σ} {rc : Rc} (start : P x)
    (run : smLoop env fuel x = some (rc, x')) :
    ∃ y, P y ∧ smStep env y = some (rc, x') ∧ ¬(rc = .ok ∧ x'.session.smState ≠ .idle) := by
  induction fuel generalizing x with
  | zero => cases run
  | succ fuel ih =>
      simp only [smLoop] at run
      split at run
      · cases run
      · rename_i rc' y stepped
        split at run
        · rename_i going
          obtain ⟨rfl, busy⟩ := going
          exact ih (kept x y start stepped busy) run
        · rename_i stopped
          cases run
          exact ⟨x, start, stepped, stopped⟩

/-- No request is in flight, and the next one may begin. -/
structure HttpSession.Free (s : HttpSession) : Prop where
  resp : s.smResp = none
  state : s.closed = false → s.smState = .idle ∨ s.smState = .handshake

/-- The request that writes to `resp` is in flight. -/
structure HttpSession.Serving (s : HttpSession) (resp : Nat) : Prop where
  resp : s.smResp = some resp
  busy : s.smState ≠ .idle
  unpublished : s.smState ≠ .done
  opened : s.closed = false

/-- What `sm_done` and the publication before it leave. -/
structure HttpSession.Rested (s : HttpSession) : Prop where
  head : s.smHead = []
  rx : s.smRx = []
  cap : s.smRxCap = 0
  hdrEnd : s.smHdrEnd = 0
  hdrScan : s.smHdrScan = 0
  type : s.smContentType = none
  resp : s.smResp = none
  state : s.smState = .idle

theorem HttpSession.Rested.opened_plain {base : Url} (plain : base.tls = false) (maxBody : Nat) :
    (HttpSession.opened base maxBody).Rested :=
  ⟨rfl, rfl, rfl, rfl, rfl, rfl, rfl, by simp [HttpSession.opened, plain]⟩

/-- Between two turns: still waiting for the reply, or about to finish with it published. -/
inductive Underway (x : Exchange σ) (resp : Nat) (y : Exchange σ) : Prop where
  | waiting (serving : y.session.Serving resp) (held : y.session.held = x.session.held)
      (unwritten : y.resp = x.resp)
  | published (state : y.session.smState = .done) (held : y.session.held = x.session.held)
      (type : y.session.smContentType = none)

theorem Underway.step {x y z : Exchange σ} {resp : Nat} {rc : Rc} (underway : Underway x resp y)
    (run : smStep env y = some (rc, z)) :
    (rc = .ok ∧ z.session.Rested ∧ z.session.held = { x.session.held with smResp := none }) ∨
    (Underway x resp z ∧ z.session.smState ≠ .idle ∧
      (z.session.smState = .done → rc = .ok)) := by
  cases underway with
  | waiting serving held unwritten =>
      have turn := smStep_turn serving.busy serving.unpublished run
      refine .inr ⟨?_, turn.busy, fun published => (turn.published published).1⟩
      by_cases published : z.session.smState = .done
      · exact .published published (turn.held.trans held) (turn.published published).2
      · obtain ⟨closed, resp'⟩ := turn.pending published
        have kept : z.session.smResp = y.session.smResp := congrArg Held.smResp turn.held
        exact .waiting ⟨kept.trans serving.resp, turn.busy, published, closed.trans serving.opened⟩
          (turn.held.trans held) (resp'.trans unwritten)
  | published state held type =>
      simp only [smStep, state] at run
      cases run
      exact .inl ⟨rfl, ⟨rfl, rfl, rfl, rfl, rfl, type, rfl, rfl⟩, by rw [← held]; rfl⟩

@[simp] theorem smSettle_ok (s : HttpSession) : smSettle .ok s = s := by simp [smSettle]

theorem smSettle_want {rc : Rc} (want : rc.isWant = true) (s : HttpSession) :
    smSettle rc s = s := by
  simp [smSettle, want]

theorem smSettle_fail {rc : Rc} (want : rc.isWant = false) (failed : rc ≠ .ok) (s : HttpSession) :
    smSettle rc s = smFail s := by
  simp [smSettle, want, failed]

theorem smFail_free (s : HttpSession) : (smFail s).Free :=
  ⟨rfl, fun opened => by simp [smFail, smReset] at opened⟩

/-- A run suspends the request unchanged in what it holds, finishes it, or fails and closes. -/
inductive RunOutcome (x : Exchange σ) (resp : Nat) (rc : Rc) (x' : Exchange σ) : Prop where
  | waits (want : rc.isWant = true) (serving : x'.session.Serving resp)
      (held : x'.session.held = x.session.held) (unwritten : x'.resp = x.resp)
  | finishes (ok : rc = .ok) (rested : x'.session.Rested)
      (held : x'.session.held = { x.session.held with smResp := none })
  | fails (failed : rc ≠ .ok) (final : rc.isWant = false) (free : x'.session.Free)
      (closed : x'.session.closed = true) (unwritten : x'.resp = x.resp)

theorem RunOutcome.serving {x x' : Exchange σ} {resp : Nat} {rc : Rc}
    (outcome : RunOutcome x resp rc x') (want : rc.isWant = true) : x'.session.Serving resp := by
  cases outcome with
  | waits _ serving => exact serving
  | finishes ok => simp [ok, Rc.isWant] at want
  | fails _ final => simp [final] at want

theorem smRun_outcome {x x' : Exchange σ} {resp : Nat} {rc : Rc}
    (serving : x.session.Serving resp) (run : smRun env x = some (rc, x')) :
    RunOutcome x resp rc x' := by
  obtain ⟨⟨rc', y⟩, looped, settled⟩ := Option.map_eq_some_iff.mp run
  have kept : ∀ y z, Underway x resp y → smStep env y = some (.ok, z) →
      z.session.smState ≠ .idle → Underway x resp z := by
    intro y z underway stepped busy
    rcases underway.step stepped with ⟨-, rested, -⟩ | ⟨next, -⟩
    · exact absurd rested.state busy
    · exact next
  obtain ⟨z, underway, stepped, stopped⟩ := smLoop_last kept (.waiting serving rfl rfl) looped
  simp only [Prod.mk.injEq] at settled
  obtain ⟨rfl, rfl⟩ := settled
  rcases underway.step stepped with ⟨rfl, rested, held⟩ | ⟨next, busy, published⟩
  · exact .finishes rfl (by simpa using rested) (by simpa using held)
  · have failed : rc' ≠ .ok := fun ok => stopped ⟨ok, busy⟩
    cases next with
    | waiting serving held unwritten =>
        cases want : rc'.isWant with
        | true =>
            refine .waits want ?_ ?_ unwritten <;> simpa only [smSettle_want want]
        | false =>
            refine .fails failed want ?_ ?_ unwritten <;> simp only [smSettle_fail want failed]
            · exact smFail_free _
            · rfl
    | published state held type => exact absurd (published state) failed

/-- A blocking call turns a suspension into a failure, and otherwise reports the run. -/
theorem refuseWant_outcome {y x' : Exchange σ} {resp : Nat} {nb : Bool} {rc : Rc}
    (serving : y.session.Serving resp)
    (run : (smRun env y).map (refuseWant nb) = some (rc, x')) :
    RunOutcome y resp rc x' ∧ (rc.isWant = true → nb = true) := by
  obtain ⟨⟨rc', z⟩, ran, refused⟩ := Option.map_eq_some_iff.mp run
  have outcome := smRun_outcome serving ran
  simp only [refuseWant] at refused
  split at refused
  · rename_i blocking
    cases refused
    refine ⟨?_, fun want => by simp [Rc.isWant] at want⟩
    cases outcome with
    | waits want serving held unwritten =>
        exact .fails (by simp) rfl (smFail_free _) rfl unwritten
    | finishes ok => simp [ok, Rc.isWant] at blocking
    | fails failed final => simp [final] at blocking
  · rename_i accepted
    cases refused
    refine ⟨outcome, fun want => ?_⟩
    by_contra blocking
    exact accepted ⟨by simpa using blocking, want⟩

theorem urlParseRest_error {w w' : σ} {scheme hostStart : Bytes} {port : Int} {tls : Bool} {rc : Rc}
    (run : urlParseRest env w scheme port tls hostStart = (.error rc, w')) : rc.Fails := by
  simp only [urlParseRest, Env.withAlloc] at run
  repeat' split at run
  all_goals cases run
  all_goals exact ⟨⟨by simp, rfl⟩, by simp⟩

theorem httpUrlParse_error {w w' : σ} {url : Bytes} {rc : Rc}
    (run : httpUrlParse env w url = (.error rc, w')) : rc.Fails := by
  simp only [httpUrlParse, Env.withAlloc] at run
  repeat' split at run
  all_goals first
    | exact urlParseRest_error run
    | (cases run; exact ⟨⟨by simp, rfl⟩, by simp⟩)

theorem formatHead_error {w w' : σ} {keepAlive : Bool} {req : HttpRequest} {u : Url} {auth : Bytes}
    {rc : Rc} (run : formatHead env w keepAlive req u auth = (.error rc, w')) : rc.Fails := by
  simp only [formatHead, Env.withAlloc] at run
  repeat' split at run
  all_goals cases run
  all_goals exact ⟨⟨by simp, rfl⟩, by simp⟩

theorem basicAuthHeader_error {w w' : σ} {user pass : Bytes} {rc : Rc}
    (run : basicAuthHeader env w user pass = (.error rc, w')) : rc.Fails := by
  simp only [basicAuthHeader, Env.withAlloc] at run
  repeat' split at run
  all_goals cases run
  all_goals exact ⟨⟨by simp, rfl⟩, by simp⟩

theorem buildHead_error {w w' : σ} {keepAlive : Bool} {req : HttpRequest} {u : Url} {rc : Rc}
    (run : buildHead env w keepAlive req u = (.error rc, w')) : rc.Fails := by
  simp only [buildHead] at run
  split at run
  · exact formatHead_error run
  · split at run
    · rename_i failed
      cases run
      exact basicAuthHeader_error failed
    · exact formatHead_error run

theorem requestHead_error {w w' : σ} {base : Url} {keepAlive : Bool} {req : HttpRequest} {rc : Rc}
    (run : requestHead env w base keepAlive req = (.error rc, w')) : rc.Fails := by
  simp only [requestHead] at run
  split at run
  · rename_i parsed
    cases run
    exact httpUrlParse_error parsed
  · split at run
    · cases run
      exact ⟨⟨by simp, rfl⟩, by simp⟩
    · exact buildHead_error run

/-- The head a request that begins now is given. -/
def builtHead (env : Env σ) (x : Exchange σ) (req : HttpRequest) : Option Bytes :=
  (requestHead env x.world x.session.base x.session.keepAlive req).1.toOption

/-- A request begins with its head built and everything else of the session as it was, or not. -/
theorem smBegin_cases {x x' : Exchange σ} {req : HttpRequest} {resp : Nat} {rc : Rc}
    (run : smBegin env x req resp = (rc, x')) :
    (∃ head w, rc = .ok ∧ builtHead env x req = some head ∧
      x' = { session := smHold x.session req head resp, resp := .zero, world := w }) ∨
    (∃ w, rc.Refuses ∧ x' = { x with resp := .zero, world := w }) := by
  simp only [smBegin] at run
  split at run
  · rename_i failed
    cases run
    exact .inr ⟨_, (requestHead_error failed).1, rfl⟩
  · rename_i built
    cases run
    exact .inl ⟨_, _, rfl, by simp [builtHead, built, Except.toOption], rfl⟩

theorem Env.AllocKeeps.withAlloc {α β : Type} {f : σ → β} (keeps : env.AllocKeeps f) {w w' : σ}
    {size : Nat} {failed result : α} {next : σ → α × σ}
    (rest : ∀ v, f v = f w → next v = (result, w') → f w' = f w)
    (run : env.withAlloc w size failed next = (result, w')) : f w' = f w := by
  simp only [Env.withAlloc] at run
  split at run
  · exact rest _ (keeps.result ‹_›) run
  · cases run
    exact keeps.result ‹_›

theorem urlParseRest_keeps {β : Type} {f : σ → β} (keeps : env.AllocKeeps f) {w w' : σ}
    {scheme hostStart : Bytes} {port : Int} {tls : Bool} {result : Except Rc Url}
    (run : urlParseRest env w scheme port tls hostStart = (result, w')) : f w' = f w := by
  simp only [urlParseRest] at run
  split at run
  · cases run
    rfl
  · split at run
    · cases run
      rfl
    · refine keeps.withAlloc (fun v same run => ?_) run
      split at run
      · cases run
        exact same
      · split at run
        · cases run
          exact same
        · refine (keeps.withAlloc (fun u same' run => ?_) run).trans same
          cases run
          exact same'

theorem httpUrlParse_keeps {β : Type} {f : σ → β} (keeps : env.AllocKeeps f) {w w' : σ} {url : Bytes}
    {result : Except Rc Url} (run : httpUrlParse env w url = (result, w')) : f w' = f w := by
  simp only [httpUrlParse] at run
  split at run
  · exact keeps.withAlloc (fun v same run => (urlParseRest_keeps keeps run).trans same) run
  · split at run
    · cases run
      rfl
    · refine keeps.withAlloc (fun v same run => ?_) run
      split at run
      · cases run
        exact same
      · exact (urlParseRest_keeps keeps run).trans same

theorem formatHead_keeps {β : Type} {f : σ → β} (keeps : env.AllocKeeps f) {w w' : σ}
    {keepAlive : Bool} {req : HttpRequest} {u : Url} {auth : Bytes} {result : Except Rc Bytes}
    (run : formatHead env w keepAlive req u auth = (result, w')) : f w' = f w := by
  refine keeps.withAlloc (fun v same run => ?_) run
  dsimp only at run
  split at run <;> cases run <;> exact same

theorem basicAuthHeader_keeps {β : Type} {f : σ → β} (keeps : env.AllocKeeps f) {w w' : σ}
    {user pass : Bytes} {result : Except Rc Bytes}
    (run : basicAuthHeader env w user pass = (result, w')) : f w' = f w := by
  refine keeps.withAlloc (fun v same run => ?_) run
  refine (keeps.withAlloc (fun u same' run => ?_) run).trans same
  split at run
  · cases run
    exact same'
  · dsimp only at run
    split at run <;> cases run <;> exact same'

theorem buildHead_keeps {β : Type} {f : σ → β} (keeps : env.AllocKeeps f) {w w' : σ}
    {keepAlive : Bool} {req : HttpRequest} {u : Url} {result : Except Rc Bytes}
    (run : buildHead env w keepAlive req u = (result, w')) : f w' = f w := by
  simp only [buildHead] at run
  split at run
  · exact formatHead_keeps keeps run
  · split at run
    · rename_i failed
      cases run
      exact basicAuthHeader_keeps keeps failed
    · rename_i authorised
      exact (formatHead_keeps keeps run).trans (basicAuthHeader_keeps keeps authorised)

theorem requestHead_keeps {β : Type} {f : σ → β} (keeps : env.AllocKeeps f) {w w' : σ} {base : Url}
    {keepAlive : Bool} {req : HttpRequest} {result : Except Rc Bytes}
    (run : requestHead env w base keepAlive req = (result, w')) : f w' = f w := by
  simp only [requestHead] at run
  split at run
  · rename_i parsed
    cases run
    exact httpUrlParse_keeps keeps parsed
  · rename_i parsed
    have same := httpUrlParse_keeps keeps parsed
    split at run
    · cases run
      exact same
    · exact (buildHead_keeps keeps run).trans same

theorem smBegin_keeps {β : Type} {f : σ → β} (keeps : env.AllocKeeps f) {x x' : Exchange σ}
    {req : HttpRequest} {resp : Nat} {rc : Rc} (run : smBegin env x req resp = (rc, x')) :
    f x'.world = f x.world := by
  simp only [smBegin] at run
  split at run <;> rename_i built <;> cases run <;> exact requestHead_keeps keeps built

theorem smHold_serving {s : HttpSession} {req : HttpRequest} {head : Bytes} {resp : Nat}
    (opened : s.closed = false) : (smHold s req head resp).Serving resp := by
  refine ⟨rfl, ?_, ?_, opened⟩ <;> simp only [smHold] <;> split <;> simp

theorem HttpSession.Serving.timed {x : Exchange σ} {resp : Nat} (serving : x.session.Serving resp)
    (nb : Bool) : (x.timed nb).session.Serving resp :=
  ⟨serving.resp, serving.busy, serving.unpublished, serving.opened⟩

/-- The five ways a call goes: refused twice over, not begun, begun and run, or resumed and run. -/
inductive CallCases (env : Env σ) (x : Exchange σ) (req : HttpRequest) (resp : Nat) (nb : Bool)
    (rc : Rc) (x' : Exchange σ) : Prop where
  | closed (closed : x.session.closed = true) (code : rc = .errConnClosed) (same : x' = x)
  | busy (opened : x.session.closed = false) (inFlight : x.session.smResp ≠ none)
      (mismatch : nb = false ∨ x.session.smResp ≠ some resp) (code : rc = .errBadArg)
      (same : x' = x)
  | unbegun (w : σ) (opened : x.session.closed = false) (idle : x.session.smResp = none)
      (begun : smBegin env (x.timed nb) req resp = (rc, x')) (code : rc.Refuses)
      (after : x' = { x.timed nb with resp := .zero, world := w })
  | begun (head : Bytes) (w : σ) (opened : x.session.closed = false)
      (idle : x.session.smResp = none)
      (built : builtHead env x req = some head)
      (begun : smBegin env (x.timed nb) req resp =
        (.ok, { session := smHold (x.timed nb).session req head resp, resp := .zero, world := w }))
      (run : (smRun env
        { session := smHold (x.timed nb).session req head resp, resp := .zero, world := w }).map
          (refuseWant nb) = some (rc, x'))
  | resumed (opened : x.session.closed = false) (inFlight : x.session.smResp = some resp)
      (nonblocking : nb = true)
      (run : (smRun env (x.timed nb)).map (refuseWant nb) = some (rc, x'))

/-- A call on an open session with no request in flight. -/
theorem httpSessionCall_idle {x : Exchange σ} (req : HttpRequest) (resp : Nat) (nb : Bool)
    (opened : x.session.closed = false) (idle : x.session.smResp = none) :
    httpSessionCall env x req resp nb =
      match requestHead env x.world x.session.base x.session.keepAlive req with
      | (.error rc, w) => some (rc, { x.timed nb with resp := .zero, world := w })
      | (.ok head, w) =>
          (smRun env ⟨smHold (x.timed nb).session req head resp, .zero, w⟩).map (refuseWant nb) := by
  have begun : smBegin env (x.timed nb) req resp =
      match requestHead env x.world x.session.base x.session.keepAlive req with
      | (.error rc, w) => (rc, { x.timed nb with resp := .zero, world := w })
      | (.ok head, w) => (.ok, ⟨smHold (x.timed nb).session req head resp, .zero, w⟩) := rfl
  simp only [httpSessionCall, opened, idle, ne_eq, not_true_eq_false, false_and, if_false, if_true,
    Bool.false_eq_true]
  rw [begun]
  cases built : requestHead env x.world x.session.base x.session.keepAlive req with
  | mk result w =>
      cases result with
      | ok head => rfl
      | error rc =>
          have refuses := (requestHead_error built).1
          cases rc
          case ok => exact absurd rfl refuses.1
          all_goals rfl

/-- A non-blocking call that continues the request in flight. -/
theorem httpSessionCall_serving {x : Exchange σ} (req : HttpRequest) {resp : Nat}
    (serving : x.session.Serving resp) :
    httpSessionCall env x req resp true = (smRun env (x.timed true)).map (refuseWant true) := by
  simp [httpSessionCall, serving.opened, serving.resp]

theorem refuseWant_nonblocking (result : Rc × Exchange σ) : refuseWant true result = result := by
  simp [refuseWant]

theorem httpSessionCall_cases {x x' : Exchange σ} {req : HttpRequest} {resp : Nat} {nb : Bool}
    {rc : Rc} (run : httpSessionCall env x req resp nb = some (rc, x')) :
    CallCases env x req resp nb rc x' := by
  simp only [httpSessionCall] at run
  split at run
  · rename_i closed
    cases run
    exact .closed closed rfl rfl
  · rename_i opened
    have opened : x.session.closed = false := by simpa using opened
    split at run
    · rename_i refused
      cases run
      exact .busy opened refused.1 refused.2 rfl rfl
    · rename_i accepted
      split at run
      · rename_i idle
        cases begun : smBegin env (x.timed nb) req resp with
        | mk rc₁ y =>
            rcases smBegin_cases begun with ⟨head, w, rfl, built, rfl⟩ | ⟨w, refuses, rfl⟩
            · rw [begun] at run
              exact .begun head w opened idle built begun run
            · rw [begun] at run
              split at run
              · rename_i ok
                cases ok
                exact absurd rfl refuses.1
              · rename_i pair
                cases pair
                cases run
                exact .unbegun w opened idle begun refuses rfl
      · rename_i inFlight
        have matching : nb = true ∧ x.session.smResp = some resp := by
          by_cases blocking : nb = false
          · exact absurd ⟨inFlight, .inl blocking⟩ accepted
          · by_cases same : x.session.smResp = some resp
            · exact ⟨by simpa using blocking, same⟩
            · exact absurd ⟨inFlight, .inr same⟩ accepted
        exact .resumed opened matching.2 matching.1 run

/-- How a call on a session that serves `resp` or nothing goes: refused as closed, not begun, or run
to one of the outcomes of `RunOutcome` from the exchange `y` that holds the request. -/
inductive CallOutcome (env : Env σ) (x : Exchange σ) (req : HttpRequest) (resp : Nat) (nb : Bool)
    (rc : Rc) (x' : Exchange σ) : Prop where
  | refused (code : rc.Refuses) (session : x'.session = x.session ∨ x'.session = (x.timed nb).session)
  | ran (y : Exchange σ) (serving : y.session.Serving resp) (nonblocking : rc.isWant = true → nb = true)
      (settings : y.session.ssl = x.session.ssl ∧ y.session.base = x.session.base ∧
        y.session.maxBody = x.session.maxBody ∧ y.session.keepAlive = x.session.keepAlive)
      (outcome : RunOutcome y resp rc x')

theorem httpSessionCall_outcome {x x' : Exchange σ} {req : HttpRequest} {resp : Nat} {nb : Bool}
    {rc : Rc} (ready : x.session.smResp = none ∨ x.session.Serving resp)
    (call : httpSessionCall env x req resp nb = some (rc, x')) :
    CallOutcome env x req resp nb rc x' := by
  cases httpSessionCall_cases call with
  | closed closed code same =>
      exact .refused (by simp [code, Rc.Refuses, Rc.isWant]) (.inl (by rw [same]))
  | busy opened inFlight mismatch code same =>
      exact .refused (by simp [code, Rc.Refuses, Rc.isWant]) (.inl (by rw [same]))
  | unbegun w opened idle begun code after => exact .refused code (.inr (by rw [after]))
  | begun head w opened idle built begun run =>
      have serving : (smHold (x.timed nb).session req head resp).Serving resp := smHold_serving opened
      obtain ⟨outcome, nonblocking⟩ := refuseWant_outcome serving run
      exact .ran _ serving nonblocking (by exact ⟨rfl, rfl, rfl, rfl⟩) outcome
  | resumed opened inFlight nonblocking run =>
      rcases ready with idle | serving
      · simp [idle] at inFlight
      · obtain ⟨outcome, nonblocking⟩ := refuseWant_outcome (serving.timed nb) run
        exact .ran _ (serving.timed nb) nonblocking (by exact ⟨rfl, rfl, rfl, rfl⟩) outcome

/-- One request driven by the calls given, the first and the rest, each blocking or not; a call is
made only while the one before it was suspended. -/
def drive (env : Env σ) (req : HttpRequest) (resp : Nat) :
    Bool → List Bool → Exchange σ → Option (Rc × Exchange σ)
  | nb, [], x => httpSessionCall env x req resp nb
  | nb, nb' :: rest, x =>
      match httpSessionCall env x req resp nb with
      | none => none
      | some (rc, x) => if rc.isWant then drive env req resp nb' rest x else some (rc, x)

end WolfCert.Http
