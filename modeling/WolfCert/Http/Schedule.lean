import WolfCert.Http.ReplyTurns

/-!
# Schedule independence

However a connection cuts its stream into reads and writes and however often it suspends the session,
the exchange ends with the reply the stream means.
-/

namespace WolfCert.Http

open WolfCert.CLib

variable (now : Int) (base64EncodeNoNl : Bytes → Option Bytes)

/-! ## Building the head does not depend on the connection -/

/-- Whether an allocation is granted depends on its size alone. -/
def Env.AllocUniform {σ : Type} (env : Env σ) : Prop :=
  ∀ w w' size, (env.alloc w size).1 = (env.alloc w' size).1

section Uniform

variable {σ : Type} {env : Env σ}

theorem Env.AllocUniform.withAlloc {α : Type} (uniform : env.AllocUniform) {w w' : σ} {size : Nat}
    {failed : α} {next next' : σ → α × σ} (rest : ∀ v v', (next v).1 = (next' v').1) :
    (env.withAlloc w size failed next).1 = (env.withAlloc w' size failed next').1 := by
  have granted := uniform w w' size
  simp only [Env.withAlloc]
  generalize env.alloc w size = first at granted
  generalize env.alloc w' size = second at granted
  obtain ⟨granted₁, v⟩ := first
  obtain ⟨granted₂, v'⟩ := second
  cases granted
  cases granted₁ with
  | true => exact rest v v'
  | false => rfl

theorem urlParseRest_uniform (uniform : env.AllocUniform) (w w' : σ) (scheme hostStart : Bytes)
    (port : Int) (tls : Bool) :
    (urlParseRest env w scheme port tls hostStart).1 =
      (urlParseRest env w' scheme port tls hostStart).1 := by
  simp only [urlParseRest]
  split
  · rfl
  · split
    · rfl
    · refine uniform.withAlloc fun v v' => ?_
      split
      · rfl
      · split
        · rfl
        · exact uniform.withAlloc fun _ _ => rfl

theorem httpUrlParse_uniform (uniform : env.AllocUniform) (w w' : σ) (url : Bytes) :
    (httpUrlParse env w url).1 = (httpUrlParse env w' url).1 := by
  simp only [httpUrlParse]
  split
  · exact uniform.withAlloc fun v v' => urlParseRest_uniform uniform v v' ..
  · split
    · rfl
    · refine uniform.withAlloc fun v v' => ?_
      split
      · rfl
      · exact urlParseRest_uniform uniform v v' ..

theorem formatHead_uniform (uniform : env.AllocUniform) (w w' : σ) (keepAlive : Bool)
    (req : HttpRequest) (u : Url) (auth : Bytes) :
    (formatHead env w keepAlive req u auth).1 = (formatHead env w' keepAlive req u auth).1 := by
  refine uniform.withAlloc fun v v' => ?_
  dsimp only
  split <;> rfl

theorem basicAuthHeader_uniform (uniform : env.AllocUniform) (w w' : σ) (user pass : Bytes) :
    (basicAuthHeader env w user pass).1 = (basicAuthHeader env w' user pass).1 := by
  refine uniform.withAlloc fun _ _ => uniform.withAlloc fun _ _ => ?_
  split
  · rfl
  · dsimp only
    split <;> rfl

theorem buildHead_uniform (uniform : env.AllocUniform) (w w' : σ) (keepAlive : Bool)
    (req : HttpRequest) (u : Url) :
    (buildHead env w keepAlive req u).1 = (buildHead env w' keepAlive req u).1 := by
  simp only [buildHead]
  split
  · exact formatHead_uniform uniform ..
  · rename_i user _
    have same := basicAuthHeader_uniform uniform w w' user (req.basicPass.getD [])
    generalize basicAuthHeader env w user (req.basicPass.getD []) = first at same
    generalize basicAuthHeader env w' user (req.basicPass.getD []) = second at same
    obtain ⟨result, v⟩ := first
    obtain ⟨result', v'⟩ := second
    cases same
    cases result with
    | error rc => rfl
    | ok auth => exact formatHead_uniform uniform ..

theorem requestHead_uniform (uniform : env.AllocUniform) (w w' : σ) (base : Url) (keepAlive : Bool)
    (req : HttpRequest) :
    (requestHead env w base keepAlive req).1 = (requestHead env w' base keepAlive req).1 := by
  have same := httpUrlParse_uniform uniform w w' req.url
  simp only [requestHead]
  generalize httpUrlParse env w req.url = first at same
  generalize httpUrlParse env w' req.url = second at same
  obtain ⟨result, v⟩ := first
  obtain ⟨result', v'⟩ := second
  cases same
  cases result with
  | error rc => rfl
  | ok u =>
      dsimp only
      split
      · rfl
      · exact buildHead_uniform uniform ..

end Uniform

theorem wireEnv_uniform : (wireEnv now base64EncodeNoNl).AllocUniform := by
  intro w w' size
  by_cases bound : size < allocLimit
  · rw [wireEnv_granted _ _ w bound, wireEnv_granted _ _ w' bound]
  · rw [wireEnv_refused _ _ w bound, wireEnv_refused _ _ w' bound]

theorem wireEnv_keeps : (wireEnv now base64EncodeNoNl).AllocKeeps fun w => (w.rest, w.plan) := by
  intro w size
  by_cases bound : size < allocLimit
  · rw [wireEnv_granted _ _ w bound]
  · rw [wireEnv_refused _ _ w bound]

/-! ## Runs and calls -/

/-- How a run of the loop from a ready exchange ends. -/
inductive Ends (x : Exchange Wire) : Rc → Exchange Wire → Prop where
  | refuses (x' : Exchange Wire) (refused : x'.world.refused = true) : Ends x .errMemory x'
  | waits (rc : Rc) (x' : Exchange Wire) (want : rc.isWant = true) (ready : Ready x')
      (same : expects now x' = expects now x) (fewer : x'.world.wants < x.world.wants)
      (limit : x'.session.maxBody = x.session.maxBody) : Ends x rc x'
  | completes (x' : Exchange Wire) (published : Published (expects now x) x') : Ends x .ok x'
  | fails (rc : Rc) (x' : Exchange Wire) (code : rc.Fails)
      (given : x.session.Bounded → expects now x = .error rc) : Ends x rc x'

theorem Ends.after {x y x' : Exchange Wire} {rc : Rc} (ends : Ends now y rc x')
    (same : expects now y = expects now x) (wants : y.world.wants ≤ x.world.wants)
    (limit : y.session.maxBody = x.session.maxBody) : Ends now x rc x' := by
  cases ends with
  | refuses _ refused => exact .refuses _ refused
  | waits _ _ want ready kept fewer limit' =>
      exact .waits _ _ want ready (kept.trans same) (Nat.lt_of_lt_of_le fewer wants)
        (limit'.trans limit)
  | completes _ published => exact .completes _ (same ▸ published)
  | fails _ _ code given =>
      refine .fails _ _ code fun bounded => same.symm.trans (given ?_)
      rw [HttpSession.Bounded, limit]
      exact bounded

theorem Ready.busy {x : Exchange Wire} (ready : Ready x) : x.session.smState ≠ .idle := by
  intro idle
  have placed := ready.placed
  simp only [HttpSession.Placed, idle] at placed

theorem Ready.working {x : Exchange Wire} (ready : Ready x) : 1 < x.session.work := by
  have placed := ready.placed
  cases state : x.session.smState <;> simp only [HttpSession.Placed, state] at placed <;>
    simp only [HttpSession.work, state] <;> omega

/-- The loop returns when its fuel exceeds the work left. -/
theorem smLoop_ends (fuel : Nat) {x : Exchange Wire} (ready : Ready x)
    (enough : x.session.work < fuel) :
    ∃ rc x', smLoop (wireEnv now base64EncodeNoNl) fuel x = some (rc, x') ∧ Ends now x rc x' := by
  induction fuel generalizing x with
  | zero => exact absurd enough (Nat.not_lt_zero _)
  | succ fuel ih =>
      obtain ⟨rc, y, stepped, advances⟩ := smStep_advances now base64EncodeNoNl ready
      simp only [smLoop, stepped]
      cases advances with
      | refuses _ refused => exact ⟨_, _, rfl, .refuses _ refused⟩
      | waits _ _ want ready' same fewer limit =>
          have stops : ¬(rc = .ok ∧ y.session.smState ≠ .idle) := by
            rintro ⟨rfl, -⟩
            simp [Rc.isWant] at want
          rw [if_neg stops]
          exact ⟨_, _, rfl, .waits _ _ want ready' same fewer limit⟩
      | proceeds _ ready' same wants less limit =>
          rw [if_pos ⟨rfl, ready'.busy⟩]
          obtain ⟨rc, x', looped, ends⟩ := ih ready' (by omega)
          exact ⟨rc, x', looped, ends.after now same wants limit⟩
      | publishes _ state published =>
          rw [if_pos ⟨rfl, by simp [state]⟩]
          obtain ⟨fuel, rfl⟩ : ∃ less, fuel = less + 1 := ⟨fuel - 1, by have := ready.working; omega⟩
          refine ⟨.ok, { y with session := smDone y.session }, ?_, .completes _ ⟨published.given⟩⟩
          simp [smLoop, smStep, state, smDone]
      | fails _ _ code given =>
          have stops : ¬(rc = .ok ∧ y.session.smState ≠ .idle) := fun ok => code.1.1 ok.1
          rw [if_neg stops]
          exact ⟨_, _, rfl, .fails _ _ code given⟩

theorem HttpSession.work_lt (s : HttpSession) : s.work < smFuel := by
  have fuel : smFuel = 73786976294838206464 := rfl
  have range : sizeRange = 18446744073709551616 := rfl
  have budget : headerBudget = 8192 := rfl
  have most : maxInterim = 8 := rfl
  simp only [work, fuel, range, budget, most]
  split <;> omega

/-- How a driven exchange answers: as the reply says, unless memory ran out. What a session fails with
whose limits wrap is left open. -/
inductive Answers (bounded : Prop) (reply : Except Rc Reply) : Rc → Exchange Wire → Prop where
  | refused (x' : Exchange Wire) (refused : x'.world.refused = true) : Answers bounded reply .errMemory x'
  | given (x' : Exchange Wire) (published : Published reply x') : Answers bounded reply .ok x'
  | failed (rc : Rc) (x' : Exchange Wire) (code : rc.Fails) (error : bounded → reply = .error rc) :
      Answers bounded reply rc x'

theorem smRun_answers {x : Exchange Wire} (ready : Ready x) :
    ∃ rc x', smRun (wireEnv now base64EncodeNoNl) x = some (rc, x') ∧
      (Answers x.session.Bounded (expects now x) rc x' ∨
        rc.isWant = true ∧ Ready x' ∧ expects now x' = expects now x ∧
          x'.world.wants < x.world.wants ∧ x'.session.maxBody = x.session.maxBody) := by
  obtain ⟨rc, y, looped, ends⟩ := smLoop_ends now base64EncodeNoNl smFuel ready x.session.work_lt
  refine ⟨rc, _, by rw [smRun, looped]; rfl, ?_⟩
  cases ends with
  | refuses _ refused => exact .inl (.refused _ refused)
  | waits _ _ want ready' same fewer limit =>
      refine .inr ⟨want, ?_, ?_, fewer, ?_⟩ <;> simp only [smSettle_want want]
      · exact ready'
      · exact same
      · exact limit
  | completes _ published =>
      rw [smSettle_ok]
      exact .inl (.given _ published)
  | fails _ _ code given => exact .inl (.failed _ _ code given)

/-- How a request is driven over a connection: by non-blocking calls that outnumber its
suspensions, or by one blocking call over a connection that never suspends. -/
inductive Schedules (w : Wire) : Bool → List Bool → Prop where
  | nonblocking (calls : Nat) (enough : w.wants ≤ calls) :
      Schedules w true (List.replicate calls true)
  | blocking (quiet : w.wants = 0) : Schedules w false []

theorem Ready.timed {x : Exchange Wire} (ready : Ready x) (nb : Bool) : Ready (x.timed nb) :=
  ⟨⟨ready.plain, ready.room, ready.cap⟩, ready.opened, ready.placed⟩

theorem Answers.final {bounded : Prop} {reply : Except Rc Reply} {rc : Rc} {x' : Exchange Wire}
    (answers : Answers bounded reply rc x') : rc.isWant = false := by
  cases answers with
  | refused => rfl
  | given => rfl
  | failed _ _ code => exact code.1.2

theorem Answers.agree {bounded : Prop} (fits : bounded) {reply : Except Rc Reply} {rc₁ rc₂ : Rc}
    {x₁ x₂ : Exchange Wire} (first : Answers bounded reply rc₁ x₁) (second : Answers bounded reply rc₂ x₂)
    (granted₁ : x₁.world.refused = false) (granted₂ : x₂.world.refused = false) :
    rc₁ = rc₂ ∧ (rc₁ = .ok → x₁.resp = x₂.resp) := by
  cases first with
  | refused _ refused => simp [refused] at granted₁
  | given _ published₁ =>
      obtain ⟨_, _, _, given₁, -⟩ := published₁.given
      cases second with
      | refused _ refused => simp [refused] at granted₂
      | given _ published₂ =>
          obtain ⟨_, _, _, given₂, -⟩ := published₂.given
          exact ⟨rfl, fun _ => congrArg Reply.response (Except.ok.inj (given₁.symm.trans given₂))⟩
      | failed _ _ code error => exact nomatch given₁.symm.trans (error fits)
  | failed _ _ code error₁ =>
      cases second with
      | refused _ refused => simp [refused] at granted₂
      | given _ published =>
          obtain ⟨_, _, _, given, -⟩ := published.given
          exact nomatch given.symm.trans (error₁ fits)
      | failed _ _ _ error₂ =>
          exact ⟨Except.error.inj ((error₁ fits).symm.trans (error₂ fits)), fun ok => absurd ok code.1.1⟩

theorem drive_stops {σ : Type} {env : Env σ} {x x' : Exchange σ} {req : HttpRequest} {resp : Nat}
    {nb : Bool} {rest : List Bool} {rc : Rc}
    (call : httpSessionCall env x req resp nb = some (rc, x')) (final : rc.isWant = false) :
    drive env req resp nb rest x = some (rc, x') := by
  cases rest with
  | nil => exact call
  | cons nb' rest => simp [drive, call, final]

theorem drive_waits {σ : Type} {env : Env σ} {x x' : Exchange σ} {req : HttpRequest} {resp : Nat}
    {nb nb' : Bool} {rest : List Bool} {rc : Rc}
    (call : httpSessionCall env x req resp nb = some (rc, x')) (want : rc.isWant = true) :
    drive env req resp nb (nb' :: rest) x = drive env req resp nb' rest x' := by
  simp only [drive, call, if_pos want]

/-- How a call that runs `y` returns. -/
inductive Returns (y : Exchange Wire) (nb : Bool) : Rc → Exchange Wire → Prop where
  | answers (rc : Rc) (x' : Exchange Wire)
      (answers : Answers y.session.Bounded (expects now y) rc x') :
      Returns y nb rc x'
  | waits (rc : Rc) (x' : Exchange Wire) (nonblocking : nb = true) (want : rc.isWant = true)
      (ready : Ready x') (same : expects now x' = expects now y)
      (fewer : x'.world.wants < y.world.wants)
      (limit : x'.session.maxBody = y.session.maxBody) : Returns y nb rc x'
  | refuses (x' : Exchange Wire) (blocking : nb = false) (suspended : 0 < y.world.wants) :
      Returns y nb .errIo x'

theorem refuseWant_returns {y : Exchange Wire} (ready : Ready y) (nb : Bool) :
    ∃ rc x', (smRun (wireEnv now base64EncodeNoNl) y).map (refuseWant nb) = some (rc, x') ∧
      Returns now y nb rc x' := by
  obtain ⟨rc, z, ran, outcome⟩ := smRun_answers now base64EncodeNoNl ready
  rw [ran, Option.map_some]
  rcases outcome with answers | ⟨want, ready', same, fewer, limit⟩
  · refine ⟨rc, z, ?_, .answers rc z answers⟩
    simp [refuseWant, answers.final]
  · cases nb with
    | true =>
        exact ⟨rc, z, by rw [refuseWant_nonblocking], .waits rc z rfl want ready' same fewer limit⟩
    | false =>
        refine ⟨.errIo, { z with session := smFail z.session }, ?_, .refuses _ rfl (by omega)⟩
        simp only [refuseWant, want, and_self, if_true]

/-- A request whose next call runs `y`, driven by enough non-blocking calls. -/
theorem drive_nonblocking (req : HttpRequest) {resp : Nat} (calls : Nat) {x y : Exchange Wire}
    (call : httpSessionCall (wireEnv now base64EncodeNoNl) x req resp true =
      (smRun (wireEnv now base64EncodeNoNl) y).map (refuseWant true))
    (ready : Ready y) (serving : y.session.Serving resp) (enough : y.world.wants ≤ calls) :
    ∃ rc x', drive (wireEnv now base64EncodeNoNl) req resp true (List.replicate calls true) x =
      some (rc, x') ∧ Answers y.session.Bounded (expects now y) rc x' := by
  induction calls generalizing x y with
  | zero =>
      obtain ⟨rc, z, ran, returns⟩ := refuseWant_returns now base64EncodeNoNl ready true
      cases returns with
      | answers rc z answers => exact ⟨rc, z, drive_stops (call.trans ran) answers.final, answers⟩
      | waits _ _ _ _ _ _ fewer => omega
      | refuses _ blocking => cases blocking
  | succ calls ih =>
      obtain ⟨rc, z, ran, returns⟩ := refuseWant_returns now base64EncodeNoNl ready true
      cases returns with
      | answers rc z answers => exact ⟨rc, z, drive_stops (call.trans ran) answers.final, answers⟩
      | waits _ _ _ want ready' same fewer limit =>
          rw [List.replicate_succ, drive_waits (call.trans ran) want]
          have serving' := (refuseWant_outcome serving ran).1.serving want
          obtain ⟨rc, x', driven, answers⟩ := ih (httpSessionCall_serving req serving')
            (ready'.timed true) (serving'.timed true)
            (Nat.le_of_lt_succ (Nat.lt_of_lt_of_le fewer enough))
          refine ⟨rc, x', driven, ?_⟩
          rw [HttpSession.Bounded, ← limit, ← same]
          exact answers
      | refuses _ blocking => cases blocking

theorem drive_blocking (req : HttpRequest) {resp : Nat} {x y : Exchange Wire}
    (call : httpSessionCall (wireEnv now base64EncodeNoNl) x req resp false =
      (smRun (wireEnv now base64EncodeNoNl) y).map (refuseWant false))
    (ready : Ready y) (quiet : y.world.wants = 0) :
    ∃ rc x', drive (wireEnv now base64EncodeNoNl) req resp false [] x = some (rc, x') ∧
      Answers y.session.Bounded (expects now y) rc x' := by
  obtain ⟨rc, z, ran, returns⟩ := refuseWant_returns now base64EncodeNoNl ready false
  cases returns with
  | answers rc z answers => exact ⟨rc, z, call.trans ran, answers⟩
  | waits _ _ nonblocking => cases nonblocking
  | refuses _ _ suspended => omega

/-- What a request is answered with when `stream` is all the connection delivers. -/
def exchangeReply (s : HttpSession) (req : HttpRequest) (stream : Bytes) : Except Rc Reply :=
  match (requestHead (wireEnv now base64EncodeNoNl) ⟨stream, [], false, false⟩ s.base s.keepAlive
      req).1 with
  | .error rc => .error rc
  | .ok _ =>
      ReplyContext.reply { now, maxBody := s.maxBody, headRequest := req.method == ascii "HEAD" }
        maxInterim stream

/-- A session at rest that holds a new request is ready for it. -/
theorem smHold_ready {s : HttpSession} (rested : s.Rested) (plain : s.ssl = false)
    (opened : s.closed = false) (req : HttpRequest) (head : Bytes) (resp : Nat)
    (r : HttpResponse) (w : Wire) :
    Ready ⟨smHold s req head resp, r, w⟩ ∧
      expects now ⟨smHold s req head resp, r, w⟩ =
        ReplyContext.reply { now, maxBody := s.maxBody, headRequest := req.method == ascii "HEAD" }
          maxInterim w.rest := by
  have state : (smHold s req head resp).smState = .writeHead := by
    simp [smHold, rested.state]
  refine ⟨⟨⟨plain, ?_, ?_⟩, opened, ?_⟩, ?_⟩
  · simp [smHold, rested.rx]
  · simp [smHold, rested.cap, allocLimit]
  · rw [HttpSession.placed_early (.inl state)]
    simp [smHold, rested.rx, rested.hdrScan]
  · rw [expects_early now (.inl state), Exchange.stream]
    simp [smHold, rested.rx, replyContext]

/-- The first call for a request on a session at rest: refused before anything is sent, or running
an exchange that is bound to the reply of the stream. -/
inductive FirstCall (s : HttpSession) (r : HttpResponse) (w : Wire) (req : HttpRequest) (resp : Nat)
    (nb : Bool) : Prop where
  | unbegun (rc : Rc) (x' : Exchange Wire) (code : rc.Fails)
      (call : httpSessionCall (wireEnv now base64EncodeNoNl) ⟨s, r, w⟩ req resp nb = some (rc, x'))
      (reply : exchangeReply now base64EncodeNoNl s req w.rest = .error rc)
  | begun (y : Exchange Wire) (ready : Ready y) (serving : y.session.Serving resp)
      (call : httpSessionCall (wireEnv now base64EncodeNoNl) ⟨s, r, w⟩ req resp nb =
        (smRun (wireEnv now base64EncodeNoNl) y).map (refuseWant nb))
      (expected : expects now y = exchangeReply now base64EncodeNoNl s req w.rest)
      (wants : y.world.wants = w.wants) (limit : y.session.maxBody = s.maxBody)

theorem httpSessionCall_first {s : HttpSession} (rested : s.Rested) (plain : s.ssl = false)
    (opened : s.closed = false) (req : HttpRequest)
    (resp : Nat) (r : HttpResponse) (w : Wire) (nb : Bool) :
    FirstCall now base64EncodeNoNl s r w req resp nb := by
  have call : httpSessionCall (wireEnv now base64EncodeNoNl) ⟨s, r, w⟩ req resp nb = _ :=
    httpSessionCall_idle req resp nb opened rested.resp
  have uniform := requestHead_uniform (wireEnv_uniform now base64EncodeNoNl) w
    ⟨w.rest, [], false, false⟩ s.base s.keepAlive req
  dsimp only at call
  cases built : requestHead (wireEnv now base64EncodeNoNl) w s.base s.keepAlive req with
  | mk result w' =>
      rw [built] at call uniform
      cases result with
      | error rc =>
          exact .unbegun rc _ (requestHead_error built) call (by rw [exchangeReply, ← uniform])
      | ok head =>
          have kept := requestHead_keeps (wireEnv_keeps now base64EncodeNoNl) built
          simp only [Prod.mk.injEq] at kept
          obtain ⟨ready, expected⟩ := smHold_ready now (s := (Exchange.timed ⟨s, r, w⟩ nb).session)
            ⟨rested.head, rested.rx, rested.cap, rested.hdrEnd, rested.hdrScan, rested.type,
              rested.resp, rested.state⟩ plain opened req head resp .zero w'
          refine .begun _ ready (smHold_serving opened) call ?_
            (congrArg (List.countP Event.isWant) kept.2) rfl
          rw [expected, exchangeReply, ← uniform, kept.1]
          rfl

/-- Every schedule answers with the reply the stream means. -/
theorem drive_reply {s : HttpSession} (rested : s.Rested) (plain : s.ssl = false)
    (opened : s.closed = false) (req : HttpRequest)
    (resp : Nat) (r : HttpResponse) {w : Wire} {nb : Bool} {calls : List Bool}
    (schedule : Schedules w nb calls) :
    ∃ rc x', drive (wireEnv now base64EncodeNoNl) req resp nb calls ⟨s, r, w⟩ = some (rc, x') ∧
      Answers s.Bounded (exchangeReply now base64EncodeNoNl s req w.rest) rc x' := by
  cases httpSessionCall_first now base64EncodeNoNl rested plain opened req resp r w nb with
  | unbegun rc x' code call reply =>
      exact ⟨rc, x', drive_stops call code.1.2, .failed rc x' code fun _ => reply⟩
  | begun y ready serving call expected wants limit =>
      rw [← expected, HttpSession.Bounded, ← limit]
      cases schedule with
      | nonblocking calls enough =>
          exact drive_nonblocking now base64EncodeNoNl req calls call ready serving
            (Nat.le_trans (Nat.le_of_eq wants) enough)
      | blocking quiet =>
          exact drive_blocking now base64EncodeNoNl req call ready (wants.trans quiet)

/-- Two drives of one request over one stream, on a plain session at rest, return the same code and,
when it is `ok`, the same response, unless an allocation was refused. Each drive is cut up and
suspended as its own connection's plan says. -/
theorem drive_schedule_independent {s : HttpSession} (rested : s.Rested) (plain : s.ssl = false)
    (opened : s.closed = false) (budget : s.maxBody + headerBudget < sizeRange) (req : HttpRequest)
    (resp : Nat) (r₁ r₂ : HttpResponse) {w₁ w₂ : Wire} {nb₁ nb₂ : Bool} {calls₁ calls₂ : List Bool}
    (first : Schedules w₁ nb₁ calls₁) (second : Schedules w₂ nb₂ calls₂)
    (stream : w₁.rest = w₂.rest) :
    ∃ rc₁ x₁ rc₂ x₂,
      drive (wireEnv now base64EncodeNoNl) req resp nb₁ calls₁ ⟨s, r₁, w₁⟩ = some (rc₁, x₁) ∧
      drive (wireEnv now base64EncodeNoNl) req resp nb₂ calls₂ ⟨s, r₂, w₂⟩ = some (rc₂, x₂) ∧
      rc₁.isWant = false ∧ rc₂.isWant = false ∧
      (x₁.world.refused = false → x₂.world.refused = false →
        rc₁ = rc₂ ∧ (rc₁ = .ok → x₁.resp = x₂.resp)) := by
  obtain ⟨rc₁, x₁, drive₁, answers₁⟩ := drive_reply now base64EncodeNoNl rested plain opened
    req resp r₁ first
  obtain ⟨rc₂, x₂, drive₂, answers₂⟩ := drive_reply now base64EncodeNoNl rested plain opened
    req resp r₂ second
  refine ⟨rc₁, x₁, rc₂, x₂, drive₁, drive₂, answers₁.final, answers₂.final, fun granted₁ granted₂ => ?_⟩
  rw [stream] at answers₁
  exact answers₁.agree budget answers₂ granted₁ granted₂

/-- An interim head and a chunked body, read whole by one blocking call, or cut and suspended. -/
def chunkedReply : Bytes :=
  ascii ("HTTP/1.1 100 C\r\n\r\nHTTP/1.1 200 K\r\nTransfer-Encoding: chunked\r\n\r\n" ++
    "2\r\nab\r\n0\r\n\r\n")

def cutPlan : List Event :=
  [.wantWrite, .move 9, .move 60, .move 30, .wantRead, .move 40]

theorem drive_schedule_independent_chunked :
    ∃ rc₁ x₁ rc₂ x₂,
      drive (wireEnv 0 fun _ => none) examplePost 7 false []
        ⟨.opened exampleUrl 100, .zero, ⟨chunkedReply, [], true, false⟩⟩ = some (rc₁, x₁) ∧
      drive (wireEnv 0 fun _ => none) examplePost 7 true (List.replicate 2 true)
        ⟨.opened exampleUrl 100, .zero, ⟨chunkedReply, cutPlan, false, false⟩⟩ = some (rc₂, x₂) ∧
      rc₁.isWant = false ∧ rc₂.isWant = false ∧
      (x₁.world.refused = false → x₂.world.refused = false →
        rc₁ = rc₂ ∧ (rc₁ = .ok → x₁.resp = x₂.resp)) := by
  have budget : (HttpSession.opened exampleUrl 100).maxBody + headerBudget < sizeRange := by decide
  have whole : Schedules ⟨chunkedReply, [], true, false⟩ false [] := .blocking rfl
  have cut : Schedules ⟨chunkedReply, cutPlan, false, false⟩ true (List.replicate 2 true) :=
    .nonblocking 2 (by decide)
  exact drive_schedule_independent 0 (fun _ => none) (.opened_plain rfl 100) rfl rfl budget examplePost 7
    .zero .zero whole cut rfl

end WolfCert.Http
