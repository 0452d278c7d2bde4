import WolfCert.Est.Client

/-!
# The EST session in step with its HTTP session
-/

namespace WolfCert.Est

open WolfCert.CLib WolfCert.Http

variable {σ : Type} {env : WolfCrypt σ}

/-- The call names the operation, the output and the encoding of the request in flight. -/
def EstArgs.Continues (args : EstArgs) (s : EstSession) : Prop :=
  s.inOp = args.op ∧ args.out = s.inOut ∧ args.enc = s.inEnc

/-- The request, its position and its caller's output. -/
structure EstClient.Keeps (x x' : EstClient σ) : Prop where
  session : x'.session = x.session
  http : x'.http = x.http
  response : x'.inResp = x.inResp
  world : x'.world = x.world
  output : x'.output x.session.inOut = x.output x.session.inOut

/-- The URL is the base URL joined with the operation's path, the body the CSR in base64 for an enrol
operation, both as the call built them. -/
def EstClient.Builds (env : WolfCrypt σ) (x : EstClient σ) (args : EstArgs) (url : Option Bytes)
    (body : Bytes) : Prop :=
  ∃ joined w, estBuild env x.session args x.world = some (.ok (joined, body), w) ∧ url = some joined

def estLayer (env : WolfCrypt σ) : Layer (EstClient σ) EstCall where
  call := estSession env
  active x := x.session.inActive
  url x := x.session.inUrl
  body x := x.session.inBody
  http x := x.http
  Continues x call := call.args.Continues x.session
  Builds x call _ := x.Builds env call.args
  Keeps x x' := x.Keeps x'

@[simp] theorem EstClient.setOutput_session (x : EstClient σ) (out : Option Nat) (value : EstOutput) :
    (x.setOutput out value).session = x.session := by
  cases out <;> rfl

@[simp] theorem EstClient.setOutput_http (x : EstClient σ) (out : Option Nat) (value : EstOutput) :
    (x.setOutput out value).http = x.http := by
  cases out <;> rfl

@[simp] theorem EstClient.setOutput_inResp (x : EstClient σ) (out : Option Nat) (value : EstOutput) :
    (x.setOutput out value).inResp = x.inResp := by
  cases out <;> rfl

@[simp] theorem EstClient.setOutput_world (x : EstClient σ) (out : Option Nat) (value : EstOutput) :
    (x.setOutput out value).world = x.world := by
  cases out <;> rfl

theorem EstClient.setOutput_other (x : EstClient σ) {out other : Option Nat} (value : EstOutput)
    (different : out ≠ other) : (x.setOutput out value).output other = x.output other := by
  cases out with
  | none => rfl
  | some address =>
      cases other with
      | none => rfl
      | some address' =>
          exact Function.update_of_ne (fun same => different (congrArg some same.symm)) _ _

/-- Clearing touches one output, and never that of the request in flight. -/
theorem estCallClear_keeps (x : EstClient σ) (args : EstArgs) :
    (estCallClear x args).session = x.session ∧ (estCallClear x args).http = x.http ∧
    (estCallClear x args).inResp = x.inResp ∧ (estCallClear x args).world = x.world ∧
    (x.session.inActive = true →
      (estCallClear x args).output x.session.inOut = x.output x.session.inOut) := by
  unfold estCallClear
  split
  · exact ⟨rfl, rfl, rfl, rfl, fun _ => rfl⟩
  · rename_i other
    have different : x.session.inActive = true → args.out ≠ x.session.inOut :=
      fun active same => other ⟨active, same⟩
    split <;>
      exact ⟨by simp, by simp, by simp, by simp,
        fun active => x.setOutput_other _ (different active)⟩

theorem estCallClear_continues {x : EstClient σ} {args : EstArgs} (active : x.session.inActive = true)
    (continues : args.Continues x.session) : estCallClear x args = x := by
  simp [estCallClear, active, continues.2.1]

theorem estDecode_raises (op : EstOp) (enc : Encoding) (body : Bytes) :
    (estDecode env op enc body).Raises Rc.Refuses :=
  .bind (base64Decode_raises env body) fun der =>
    .ite (fun _ => .pure der) fun _ =>
      .ite (fun _ => pkcs7CertsExtract_raises env der false)
        fun _ => pkcs7CertsExtract_raises env der true

/-- Parsing never suspends. -/
theorem estFinish_final {resp : HttpResponse} {op : EstOp} {enc : Encoding} {out out' : EstOutput}
    {w w' : σ} {rc : Rc} (run : estFinish env resp op enc out w = some ((rc, out'), w')) :
    rc.isWant = false := by
  simp only [estFinish] at run
  split at run
  · cases run
    rfl
  · split at run
    · cases run
      rfl
    · split at run
      · simp only [Option.some.injEq, Prod.mk.injEq] at run
        obtain ⟨⟨rfl, -⟩, -⟩ := run
        split <;> rfl
      · split at run
        · cases run
          rfl
        · split at run
          · cases run
          · rename_i failed
            cases run
            exact (estDecode_raises op enc _ _ _ _ failed).2
          · cases run
            rfl

/-- What is sent stays in flight if the call is suspended, and otherwise ends in both layers. -/
theorem estSessionSend_inStep {x x' : EstClient σ} {args : EstArgs} {nb : Bool} {rc : Rc}
    (active : x.session.inActive = true)
    (sends : Sends x.session.inReq x.session.inBody nb x.http)
    (sent : estSessionSend env x args nb = some (rc, x')) :
    (estLayer env).InStep x' ∧ x'.session.inActive = rc.isWant ∧ (rc.isWant = true → nb = true) ∧
    (rc.isWant = true → x'.session = x.session) := by
  simp only [estSessionSend] at sent
  split at sent
  · cases sent
  · rename_i rc₁ e called
    obtain ⟨inStep, nonblocking⟩ := httpSessionCall_inStep sends called
    split at sent
    · rename_i want
      cases sent
      refine ⟨?_, active.trans want.2.symm, nonblocking, fun _ => rfl⟩
      obtain ⟨serving, held⟩ := inStep.serving want.2
      exact .inFlight active serving held
    · rename_i settled
      have final : rc₁.isWant = false := by
        by_contra want
        have want : rc₁.isWant = true := by simpa using want
        exact settled ⟨nonblocking want, want⟩
      split at sent
      · split at sent
        · cases sent
        · rename_i rc₂ out w finished
          have final₂ := estFinish_final finished
          cases sent
          refine ⟨.idle rfl ?_, final₂.symm, fun want => ?_, fun want => ?_⟩
          · simpa [estLayer, estSessionReset, EstClient.moved] using inStep.free final
          · simp [final₂] at want
          · simp [final₂] at want
      · cases sent
        refine ⟨.idle rfl (inStep.free final), final.symm, fun want => ?_, fun want => ?_⟩
        · simp [final] at want
        · simp [final] at want

theorem estSessionResumeCheck_ok_iff (s : EstSession) (args : EstArgs) :
    estSessionResumeCheck s args = .ok ↔ args.Continues s := by
  unfold estSessionResumeCheck EstArgs.Continues
  by_cases op : s.inOp = args.op <;> by_cases out : args.out = s.inOut <;>
    by_cases enc : args.enc = s.inEnc <;> simp [op, out, enc]

theorem estSessionResumeCheck_refuses {s : EstSession} {args : EstArgs}
    (mismatch : estSessionResumeCheck s args ≠ .ok) : estSessionResumeCheck s args = .errBadArg := by
  unfold estSessionResumeCheck at mismatch ⊢
  repeat' split
  all_goals simp_all

theorem estSessionBegin_cases {x x' : EstClient σ} {args : EstArgs} {rc : Rc}
    (run : estSessionBegin env x args = some (rc, x')) :
    (∃ w, rc.Refuses ∧ x' = estSessionReset { x with world := w }) ∨
    (∃ url body w, rc = .ok ∧ estBuild env x.session args x.world = some (.ok (url, body), w) ∧
      x'.http = x.http ∧ x'.session.inActive = true ∧ x'.session.inUrl = some url ∧
      x'.session.inBody = body ∧ x'.session.inReq = estRequest x.session args.op url body ∧
      x'.session.inOut = args.out) := by
  simp only [estSessionBegin] at run
  split at run
  · cases run
  · rename_i rc₁ w failed
    cases run
    have raises : (estBuild env x.session args).Raises Rc.Refuses :=
      .bind (.bind (env.allocate_raises _) fun _ => .pure _) fun _ =>
        .ite (fun _ => .bind (base64EncodeMime_raises env _) fun _ => .pure _) fun _ => .pure _
    exact .inl ⟨w, raises _ _ _ failed, rfl⟩
  · rename_i url body w built
    cases run
    exact .inr ⟨url, body, w, rfl, built, rfl, rfl, rfl, rfl, rfl, rfl⟩

/-- The request borrows the body that was built. -/
theorem estRequest_body {s : EstSession} {args : EstArgs} {url body : Bytes} {w w' : σ}
    (built : estBuild env s args w = some (.ok (url, body), w')) :
    (estRequest s args.op url body).body = body := by
  cases enroll : estIsEnroll args.op with
  | true => simp [estRequest, enroll]
  | false =>
      simp only [estBuild, enroll, Bool.false_eq_true, if_false, Prog.bind_ok_iff, Prog.pure_apply,
        Option.some.injEq, Prod.mk.injEq, Except.ok.injEq] at built
      obtain ⟨-, -, -, ⟨-, rfl⟩, -⟩ := built
      simp [estRequest, enroll]

/-- The two layers are in step, and a request in flight has an output to write to. -/
structure EstClient.Valid (env : WolfCrypt σ) (x : EstClient σ) : Prop where
  inStep : (estLayer env).InStep x
  output : x.session.inActive = true → x.session.inOut ≠ none

theorem EstClient.Valid.of_session {x x' : EstClient σ} (valid : x.Valid env)
    (inStep : (estLayer env).InStep x') (session : x'.session = x.session) : x'.Valid env :=
  ⟨inStep, by rw [session]; exact valid.output⟩

theorem EstClient.Valid.of_idle {x : EstClient σ} (inStep : (estLayer env).InStep x)
    (idle : x.session.inActive = false) : x.Valid env :=
  ⟨inStep, by simp [idle]⟩

theorem estSessionCall_step {x x' : EstClient σ} {call : EstCall} {nb : Bool} {rc : Rc}
    (valid : x.Valid env) (run : estSessionCall env x call.args nb = some (rc, x')) :
    (estLayer env).Step x call nb rc x' ∧ x'.Valid env := by
  obtain ⟨session, http, response, world, output⟩ := estCallClear_keeps x call.args
  have inStep₀ : (estLayer env).InStep (estCallClear x call.args) := by
    change Http.InStep (estCallClear x call.args).session.inActive
      (estCallClear x call.args).session.inBody (estCallClear x call.args).http
    rw [session, http]
    exact valid.inStep
  have refusal : x.session.inActive = true → (nb = false ∨ ¬call.args.Continues x.session) →
      rc = .errBadArg → x' = estCallClear x call.args →
      (estLayer env).Step x call nb rc x' ∧ x'.Valid env := by
    intro active mismatch code same
    subst same
    exact ⟨.refused active mismatch code ⟨session, http, response, world, output active⟩
      (congrArg EstSession.inActive session) (congrArg EstSession.inUrl session)
      (congrArg EstSession.inBody session) http, valid.of_session inStep₀ session⟩
  have settled : ∀ y : EstClient σ, y.session.inOut ≠ none → (estLayer env).InStep x' →
      x'.session.inActive = rc.isWant → (rc.isWant = true → x'.session = y.session) →
      x'.Valid env := by
    intro y out inStep' flag kept
    refine ⟨inStep', fun active' => ?_⟩
    rw [kept (flag.symm.trans active')]
    exact out
  simp only [estSessionCall, session] at run
  by_cases active : x.session.inActive = true
  · by_cases blocking : nb = false
    · rw [if_pos ⟨active, blocking⟩] at run
      cases run
      exact refusal active (.inl blocking) rfl rfl
    · have nonblocking : nb = true := by simpa using blocking
      rw [if_neg (fun both => blocking both.2), if_pos active] at run
      by_cases continues : call.args.Continues x.session
      · rw [if_pos ((estSessionResumeCheck_ok_iff _ _).mpr continues),
          estCallClear_continues active continues] at run
        obtain ⟨serving, held⟩ := Http.InStep.serving valid.inStep active
        obtain ⟨inStep', flag, -, kept⟩ :=
          estSessionSend_inStep active (.resumes serving held nonblocking) run
        exact ⟨.continued active nonblocking continues inStep' flag fun want =>
          ⟨congrArg EstSession.inUrl (kept want), congrArg EstSession.inBody (kept want)⟩,
          settled x (valid.output active) inStep' flag kept⟩
      · have mismatch : estSessionResumeCheck x.session call.args ≠ .ok :=
          fun ok => continues ((estSessionResumeCheck_ok_iff _ _).mp ok)
        rw [if_neg mismatch] at run
        cases run
        exact refusal active (.inr continues) (estSessionResumeCheck_refuses mismatch) rfl
  · have idle : x.session.inActive = false := by simpa using active
    have free : x.http.smResp = none := Http.InStep.free valid.inStep idle
    have idle₀ : (estCallClear x call.args).session.inActive = false := by rw [session]; exact idle
    rw [if_neg (fun both => active both.1), if_neg active] at run
    split at run
    · rename_i refused
      cases run
      refine ⟨.unbegun idle ⟨refused, ?_⟩ idle₀ http, .of_idle inStep₀ idle₀⟩
      unfold estCallCheck
      split <;> rfl
    · rename_i accepted
      split at run
      · cases run
        exact ⟨.unbegun idle ⟨by simp, rfl⟩ idle₀ http, .of_idle inStep₀ idle₀⟩
      · split at run
        · cases run
        · rename_i y begun
          rcases estSessionBegin_cases begun with
            ⟨w, refuses, -⟩ | ⟨url, body, w, -, built, http', active', url', body', req', out'⟩
          · exact absurd rfl refuses.1
          · rw [session, world] at built
            have lent : y.session.inReq.body = y.session.inBody := by
              rw [req', body', session]
              exact estRequest_body built
            have free' : y.http.smResp = none := by rw [http', http]; exact free
            obtain ⟨inStep', flag, nonblocking, kept⟩ :=
              estSessionSend_inStep active' (.begins free' lent) run
            refine ⟨.begun idle nonblocking inStep' flag fun want => ⟨url, w, ?_, ?_⟩,
              settled y ?_ inStep' flag kept⟩
            · simp only [estLayer, kept want, body']
              exact built
            · simp only [estLayer, kept want, url']
            · rw [out']
              intro missing
              simp [estCallCheck, missing] at accepted
        · rename_i rc₁ y failed begun
          cases run
          rcases estSessionBegin_cases begun with ⟨w, refuses, rfl⟩ | ⟨url, body, w, rfl, -⟩
          · exact ⟨.unbegun idle refuses rfl http, .of_idle (.idle rfl (by rwa [← http] at free)) rfl⟩
          · exact absurd rfl failed

theorem estSession_step {x x' : EstClient σ} {call : EstCall} {nb : Bool} {rc : Rc}
    (valid : x.Valid env) (run : estSession env x call nb = some (rc, x')) :
    (estLayer env).Step x call nb rc x' ∧ x'.Valid env := by
  simp only [estSession] at run
  split at run
  · rename_i missing
    cases run
    refine ⟨?_, valid⟩
    by_cases active : x.session.inActive = true
    · refine .refused active (.inr fun continues => ?_) rfl ⟨rfl, rfl, rfl, rfl, rfl⟩ rfl rfl rfl rfl
      exact valid.output active (continues.2.1.symm.trans missing.2)
    · have idle : x.session.inActive = false := by simpa using active
      exact .unbegun idle ⟨by simp, rfl⟩ idle rfl
  · exact estSessionCall_step valid run

theorem estSessionOpen_valid {srv : ServerCfg} {w w' : σ} {s : EstSession}
    {http : HttpSession} (opened : estSessionOpen env srv w = some (.ok (s, http), w'))
    (outputs : Nat → EstOutput) :
    (⟨s, http, .zero, outputs, w'⟩ : EstClient σ).Valid env ∧ s.inActive = false := by
  simp only [estSessionOpen, Prog.bind_ok_iff, Prog.callMap_ok_iff, Prog.pure_apply,
    Option.some.injEq, Prod.mk.injEq, Except.ok.injEq] at opened
  obtain ⟨_, _, -, _, _, -, _, _, -, _, _, -, _, _, -, _, _, -, _, _, -, _, _, ran, ⟨rfl, rfl⟩, -⟩ := opened
  exact ⟨.of_idle (.idle rfl (httpSessionOpen_free ran)) rfl, rfl⟩

end WolfCert.Est
