import WolfCert.Scep.Client

/-!
# The SCEP session in step with its HTTP session
-/

namespace WolfCert.Scep

open WolfCert.CLib WolfCert.Http

variable {σ : Type} {env : WolfCrypt σ}

/-- The call names the operation, the output and the encoding of the request in flight. -/
def ScepArgs.Continues (c : ScepArgs) (s : ScepSession) : Prop :=
  s.inOp = c.op ∧ scepCallOut c = s.inOut ∧ c.enc = s.inEnc

namespace ScepOutputs

def buffer (o : ScepOutputs) : BufferPtr → Bytes
  | .plain n => o.buffers n
  | .certPem n => (o.results n).certPem

/-- The output at an address is as clearing leaves it. -/
def Cleared (o : ScepOutputs) : ScepOut → Prop
  | .result n => o.results n = .cleared
  | .buffer p => o.buffer p = []
  | .caps n => o.caps n = .zero

/-- The output at an address is the same in both. -/
def Same (o o' : ScepOutputs) : ScepOut → Prop
  | .result n => o'.results n = o.results n
  | .buffer p => o'.buffer p = o.buffer p
  | .caps n => o'.caps n = o.caps n

theorem Cleared.same {o o' : ScepOutputs} {out : ScepOut} (before : o.Cleared out)
    (after : o'.Cleared out) : o.Same o' out := by
  cases out <;> exact after.trans before.symm

/-- No clearing of any output takes a cleared one out of that state, aliased or not. -/
theorem Cleared.setResult {o : ScepOutputs} {out : ScepOut} (cleared : o.Cleared out) (n : Nat) :
    (o.setResult n .cleared).Cleared out := by
  cases out with
  | result m =>
      by_cases same : m = n
      · simp [Cleared, ScepOutputs.setResult, same]
      · simpa [Cleared, ScepOutputs.setResult, Function.update_of_ne same] using cleared
  | buffer p =>
      cases p with
      | plain m => exact cleared
      | certPem m =>
          by_cases same : m = n
          · simp [Cleared, buffer, ScepOutputs.setResult, same, ScepResult.cleared]
          · simpa [Cleared, buffer, ScepOutputs.setResult, Function.update_of_ne same] using cleared
  | caps m => exact cleared

theorem Cleared.setCaps {o : ScepOutputs} {out : ScepOut} (cleared : o.Cleared out) (n : Nat) :
    (o.setCaps n .zero).Cleared out := by
  cases out with
  | result m => exact cleared
  | buffer p => cases p <;> exact cleared
  | caps m =>
      by_cases same : m = n
      · simp [Cleared, ScepOutputs.setCaps, same]
      · simpa [Cleared, ScepOutputs.setCaps, Function.update_of_ne same] using cleared

theorem Cleared.setBuffer {o : ScepOutputs} {out : ScepOut} (cleared : o.Cleared out)
    (p : BufferPtr) : (o.setBuffer p []).Cleared out := by
  cases p with
  | plain n =>
      cases out with
      | result m => exact cleared
      | buffer q =>
          cases q with
          | plain m =>
              by_cases same : m = n
              · simp [Cleared, buffer, ScepOutputs.setBuffer, same]
              · simpa [Cleared, buffer, ScepOutputs.setBuffer, Function.update_of_ne same] using cleared
          | certPem m => exact cleared
      | caps m => exact cleared
  | certPem n =>
      cases out with
      | result m =>
          by_cases same : m = n
          · subst same
            simp only [Cleared] at cleared
            simp [Cleared, ScepOutputs.setBuffer, ScepOutputs.setResult, cleared, ScepResult.cleared]
          · simpa [Cleared, ScepOutputs.setBuffer, ScepOutputs.setResult, Function.update_of_ne same]
              using cleared
      | buffer q =>
          cases q with
          | plain m => exact cleared
          | certPem m =>
              by_cases same : m = n
              · simp [Cleared, buffer, ScepOutputs.setBuffer, ScepOutputs.setResult, same]
              · simpa [Cleared, buffer, ScepOutputs.setBuffer, ScepOutputs.setResult,
                  Function.update_of_ne same] using cleared
      | caps m => exact cleared

theorem setResult_cleared (o : ScepOutputs) (n : Nat) :
    (o.setResult n .cleared).Cleared (.result n) := by
  simp [Cleared, setResult]

theorem setCaps_cleared (o : ScepOutputs) (n : Nat) : (o.setCaps n .zero).Cleared (.caps n) := by
  simp [Cleared, setCaps]

theorem setBuffer_cleared (o : ScepOutputs) (p : BufferPtr) :
    (o.setBuffer p []).Cleared (.buffer p) := by
  cases p <;> simp [Cleared, buffer, setBuffer, setResult]

end ScepOutputs

theorem scepCallClear_keeps (x : ScepClient σ) (c : ScepArgs) :
    (scepCallClear x c).session = x.session ∧ (scepCallClear x c).http = x.http ∧
    (scepCallClear x c).inResp = x.inResp ∧ (scepCallClear x c).world = x.world := by
  unfold scepCallClear
  split <;> exact ⟨rfl, rfl, rfl, rfl⟩

/-- A cleared output stays so, whatever a call clears. -/
theorem ScepOutputs.Cleared.clear {o : ScepOutputs} {out : ScepOut} (cleared : o.Cleared out)
    (c : ScepArgs) : (o.clear c).Cleared out := by
  unfold ScepOutputs.clear
  cases c.resOut <;> cases c.capsOut <;> cases c.bufOut
  all_goals dsimp only
  all_goals first
    | exact cleared
    | exact cleared.setResult _
    | exact cleared.setCaps _
    | exact cleared.setBuffer _
    | exact (cleared.setResult _).setCaps _
    | exact (cleared.setResult _).setBuffer _
    | exact (cleared.setCaps _).setBuffer _
    | exact ((cleared.setResult _).setCaps _).setBuffer _

/-- Clearing the outputs of a call clears its own. -/
theorem ScepOutputs.clear_own (o : ScepOutputs) {c : ScepArgs} {out : ScepOut}
    (own : scepCallOut c = some out) : (o.clear c).Cleared out := by
  unfold ScepOutputs.clear
  cases result : c.resOut with
  | some n =>
      obtain rfl : ScepOut.result n = out := by simpa [scepCallOut, result] using own
      have cleared := o.setResult_cleared n
      cases c.capsOut <;> cases c.bufOut
      · exact cleared
      · exact cleared.setBuffer _
      · exact cleared.setCaps _
      · exact (cleared.setCaps _).setBuffer _
  | none =>
      cases buf : c.bufOut with
      | some p =>
          obtain rfl : ScepOut.buffer p = out := by simpa [scepCallOut, result, buf] using own
          exact ScepOutputs.setBuffer_cleared _ p
      | none =>
          cases caps : c.capsOut with
          | some n =>
              obtain rfl : ScepOut.caps n = out := by simpa [scepCallOut, result, buf, caps] using own
              exact o.setCaps_cleared n
          | none => simp [scepCallOut, result, buf, caps] at own

theorem scepCallClear_cleared {x : ScepClient σ} {out : ScepOut} (cleared : x.outputs.Cleared out)
    (c : ScepArgs) : (scepCallClear x c).outputs.Cleared out := by
  unfold scepCallClear
  split
  · exact cleared
  · exact cleared.clear c

/-- A call on an idle session clears its own output. -/
theorem scepCallClear_own {x : ScepClient σ} (idle : x.session.inActive = false) {c : ScepArgs}
    {out : ScepOut} (own : scepCallOut c = some out) : (scepCallClear x c).outputs.Cleared out := by
  unfold scepCallClear
  rw [if_neg (fun both => by simp [idle] at both)]
  exact x.outputs.clear_own own

section Codes

variable (env)

theorem appendQuery_raises (base op : Bytes) : (appendQuery env base op).Raises Rc.Refuses :=
  .bind (env.allocate_raises _) fun _ => .pure _

theorem urlEncode_raises (input : Bytes) : (urlEncode env input).Raises Rc.Refuses :=
  .bind (env.allocate_raises _) fun _ => .pure _

theorem buildGetcaUrl_raises (base op : Bytes) (caId : Option Bytes) :
    (buildGetcaUrl env base op caId).Raises Rc.Refuses := by
  refine .bind (appendQuery_raises env _ _) fun head => ?_
  split
  · exact .pure _
  · exact .ite (fun _ => .pure _) fun _ => .bind (urlEncode_raises env _) fun _ =>
      .bind (env.allocate_raises _) fun _ => .pure _

theorem scepBuildTransport_raises (serverUrl : Bytes) (caps : Option ScepCaps) (pki : Bytes) :
    (scepBuildTransport env serverUrl caps pki).Raises Rc.Refuses :=
  .ite (fun _ => .bind (appendQuery_raises env _ _) fun _ => .pure _) fun _ =>
    .bind (.bind (base64Encode_raises env _) fun _ => .bind (urlEncode_raises env _) fun _ =>
      .bind (appendQuery_raises env _ _) fun _ => .bind (.require _ ⟨by simp, rfl⟩) fun _ =>
        .bind (env.allocate_raises _) fun _ => .pure _) fun _ => .pure _

theorem pickHashOid_raises (caps : Option ScepCaps) (want : SigningHash) :
    (pickHashOid env caps want).Raises Rc.Refuses := by
  cases want
  case sha256 | auto => exact .pure _
  case sha384 | sha512 => exact .ite (fun _ => .pure _) fun _ => .fail ⟨by simp, rfl⟩

theorem pickCipher_raises (caps : Option ScepCaps) (want : CipherChoice) :
    (pickCipher env caps want).Raises Rc.Refuses := by
  cases want
  case aes128 => exact .pure _
  case aes256 | des3 => exact .ite (fun _ => .pure _) fun _ => .fail ⟨by simp, rfl⟩
  case auto =>
    exact .ite (fun _ => .pure _) fun _ => .ite (fun _ => .pure _) fun _ => .fail ⟨by simp, rfl⟩

theorem scepBuildTxid_raises (id : Bytes) (mode : TxidMode) (signerCert : Bytes) :
    (scepBuildTxid env id mode signerCert).Raises Rc.Refuses :=
  .ite (fun _ => .bind (env.allocate_raises _) fun _ => .pure _) fun _ =>
    .ite (fun _ => .bind (env.allocate_raises _) fun _ => .bind (.callMap mapWcErr_refuses _) fun _ =>
      .bind (.callMap mapWcErr_refuses _) fun _ => .bind (env.allocate_raises _) fun _ => .pure _)
      fun _ => .bind (.callMap mapWcErr_refuses _) fun _ => .bind (env.allocate_raises _) fun _ =>
        .pure _

theorem rsaKeyToDer_raises (key : ScepKey) : (rsaKeyToDer env key).Raises Rc.Refuses :=
  .bind (.callMap mapWcErr_refuses _) fun _ => .ite (fun _ => .pure _) fun _ =>
    .bind (env.allocate_raises _) fun _ => .callMap mapWcErr_refuses _

theorem scepPrepare_raises (s : ScepSession) (c : ScepArgs) (msgType content signer key : Bytes) :
    (scepPrepare env s c msgType content signer key).Raises Rc.Refuses :=
  .bind (pickHashOid_raises env _ _) fun _ => .bind (pickCipher_raises env _ _) fun _ =>
    .bind (envelop_raises env _ _ _) fun _ => .bind (.callMap mapWcErr_refuses _) fun _ =>
      .bind (.callMap mapWcErr_refuses _) fun _ => .bind (scepBuildTxid_raises env _ _ _) fun _ =>
        .bind (buildPkiMessage_raises env _ _ _ _ _) fun _ => .pure _

theorem dupBuf_raises (nb : Bool) (src : Bytes) : (dupBuf env nb src).Raises Rc.Refuses :=
  .ite (fun _ => .bind (.require _ ⟨by simp, rfl⟩) fun _ => .bind (env.allocate_raises _) fun _ =>
    .pure _) fun _ => .pure _

theorem scepSigner_raises (c : ScepArgs) (key : ScepKey) (nb : Bool) :
    (scepSigner env c key nb).Raises Rc.Refuses := by
  unfold scepSigner
  split
  · exact selfSignedRsa_raises env _ _
  · exact dupBuf_raises env nb _

theorem scepNames_raises (c : ScepArgs) : (scepNames env c).Raises Rc.Refuses := by
  unfold scepNames
  split
  · exact issuerAndSubject_raises env _ _
  · exact issuerAndSerial_raises env _ _
  · exact .pure _

theorem scepBuild_raises (s : ScepSession) (c : ScepArgs) (key : ScepKey) (nb : Bool) :
    (scepBuild env s c key nb).Raises Rc.Refuses :=
  .bind (scepSigner_raises env _ _ _) fun _ => .bind (dupBuf_raises env _ _) fun _ =>
    .bind (scepNames_raises env _) fun _ => .bind (rsaKeyToDer_raises env _) fun _ =>
      .bind (scepPrepare_raises env _ _ _ _ _ _) fun _ =>
        .bind (scepBuildTransport_raises env _ _ _) fun _ => .pure _

theorem scepCheckReply_raises (s : ScepSession) (body : Bytes) :
    (scepCheckReply env s body).Raises Rc.Refuses := by
  refine .bind (parsePkiMessage_raises env _ _) fun _ => .bind (.require _ ⟨by simp, rfl⟩) fun _ =>
    .bind (.attempt _) fun verified => ?_
  split
  · exact .fail ⟨by simp, rfl⟩
  · exact .fail ⟨by simp, rfl⟩
  · exact .bind (.require _ ⟨by simp, rfl⟩) fun _ => .bind (.require _ ⟨by simp, rfl⟩) fun _ =>
      .bind (.require _ ⟨by simp, rfl⟩) fun _ => .pure _

theorem pemSearch_raises (issuer serial : Bytes) (fuel : Nat) (p : Bytes) :
    (pemSearch env issuer serial fuel p).Raises Rc.Refuses := by
  induction fuel generalizing p with
  | zero => exact .pure _
  | succ fuel ih =>
      refine .ite (fun _ => .pure _) fun _ => .ite (fun _ => ih _) fun _ =>
        .bind (.attempt _) fun decoded => ?_
      split
      · exact .fail ⟨by simp, rfl⟩
      · exact ih _
      · refine .bind (.attempt _) fun parsed => ?_
        split
        · exact .fail ⟨by simp, rfl⟩
        · exact ih _
        · exact .ite (fun _ => .pure _) fun _ => ih _

theorem scepOpenEnvelope_raises (s : ScepSession) (envelope : Bytes) :
    (scepOpenEnvelope env s envelope).Raises Rc.Refuses :=
  .bind (deenvelop_raises env _ _ _) fun _ => pkcs7CertsExtract_raises env _ _

theorem pemHasCert_raises (pem issuer serial : Bytes) :
    (pemHasCert env pem issuer serial).Raises Rc.Refuses :=
  .ite (fun _ => .pure _) fun _ => .bind (env.allocate_raises _) fun _ => pemSearch_raises env _ _ _ _

theorem scepFinishCaCert_raises (resp : HttpResponse) (enc : Encoding) :
    (scepFinishCaCert env resp enc).Raises Rc.Refuses :=
  .bind (.require _ ⟨by simp, rfl⟩) fun _ =>
    .ite (fun _ => .ite (fun _ => pkcs7CertsExtract_raises env _ _) fun _ =>
      pkcs7CertsExtract_raises env _ _) fun _ => .bind (env.allocate_raises _) fun _ =>
        .ite (fun _ => .pure _) fun _ => .bind (.callMap (fun _ => ⟨by simp, rfl⟩) _) fun _ =>
          .bind (.require _ ⟨by simp, rfl⟩) fun _ => .pure _

end Codes

theorem scepFinish_final {s : ScepSession} {body : Bytes} {out out' : ScepResult} {w w' : σ} {rc : Rc}
    (run : scepFinish env s body out w = some ((rc, out'), w')) : rc.isWant = false := by
  simp only [scepFinish] at run
  split at run
  · cases run
  · cases run
    exact (scepCheckReply_raises env _ _ _ _ _ ‹_›).2
  · split at run
    · cases run
      rfl
    · split at run
      · cases run
        rfl
      · split at run
        · cases run
        · rename_i failed
          cases run
          exact (scepOpenEnvelope_raises env _ _ _ _ _ failed).2
        · cases run
          rfl

theorem scepCheckGetCert_final {s : ScepSession} {out out' : ScepResult} {w w' : σ} {rc : Rc}
    (run : scepCheckGetCert env s out w = some ((rc, out'), w')) : rc.isWant = false := by
  simp only [scepCheckGetCert] at run
  split at run
  · cases run
    rfl
  · split at run
    · cases run
    · cases run
      rfl
    · cases run
      rfl
    · rename_i failed
      cases run
      exact (pemHasCert_raises env _ _ _ _ _ _ failed).2

theorem finishBuffer_final {p : Prog σ Rc Bytes} (raises : p.Raises Rc.Refuses) {o o' : ScepOutputs}
    {out : Option BufferPtr} {w w' : σ} {rc : Rc}
    (run : o.finishBuffer out (p w) = some ((rc, o'), w')) : rc.isWant = false := by
  unfold ScepOutputs.finishBuffer at run
  split at run
  · cases run
  · cases run
    exact (raises _ _ _ ‹_›).2
  · cases run
    rfl

/-- Parsing never suspends. -/
theorem scepParse_final {s : ScepSession} {resp : HttpResponse} {c : ScepArgs} {o o' : ScepOutputs}
    {w w' : σ} {rc : Rc} (run : scepParse env s resp c o w = some ((rc, o'), w')) :
    rc.isWant = false := by
  simp only [scepParse] at run
  split at run
  · cases run
    rfl
  · split at run
    · cases run
      rfl
    · split at run
      · cases run
        rfl
      · exact finishBuffer_final (scepFinishCaCert_raises env _ _) run
      · exact finishBuffer_final (verifyNextCaResponse_raises env _ _ _) run
      · split at run
        · cases run
        · split at run
          · cases run
          · rename_i finished
            split at run
            · obtain ⟨⟨⟨rc', out'⟩, w''⟩, checked, same⟩ := Option.map_eq_some_iff.mp run
              cases same
              exact scepCheckGetCert_final checked
            · cases run
              exact scepFinish_final finished

/-- The pkiMessage the request in flight borrows as its body. -/
def ScepSession.lent (s : ScepSession) : Bytes :=
  if s.inReq.method = ascii "POST" then s.inPki else []

/-- The request, its position and its caller's output. -/
structure ScepClient.Keeps (x x' : ScepClient σ) : Prop where
  session : x'.session = x.session
  http : x'.http = x.http
  response : x'.inResp = x.inResp
  world : x'.world = x.world
  output : ∀ out, x.session.inOut = some out → x.outputs.Same x'.outputs out

/-- The URL and the body as the call built them: for a PKIOperation from its pkiMessage, for the
others the URL alone. -/
inductive ScepClient.Builds (env : WolfCrypt σ) (x : ScepClient σ) (c : ScepArgs) (nb : Bool) :
    Option Bytes → Bytes → Prop where
  | pki (key : ScepKey) (b : ScepBuilt) (w : σ)
      (built : scepBuild env x.session c key nb x.world = some (.ok b, w)) :
      Builds env x c nb (some b.url) (if b.post then b.pki else [])
  | get (url caBundle : Bytes) (w : σ)
      (built : scepBuildGet env x.session c nb x.world = some (.ok (url, caBundle), w)) :
      Builds env x c nb (some url) []

theorem ScepClient.Builds.of_same {x y : ScepClient σ} {c : ScepArgs} {nb : Bool} {url : Option Bytes}
    {body : Bytes} (builds : y.Builds env c nb url body) (session : y.session = x.session)
    (world : y.world = x.world) : x.Builds env c nb url body := by
  cases builds with
  | pki key b w built => exact .pki key b w (by rwa [session, world] at built)
  | get url caBundle w built => exact .get url caBundle w (by rwa [session, world] at built)

def scepLayer (env : WolfCrypt σ) : Layer (ScepClient σ) ScepCall where
  call := scepSession env
  active x := x.session.inActive
  url x := x.session.inUrl
  body x := x.session.lent
  http x := x.http
  Continues x call := call.args.Continues x.session
  Builds x call nb := x.Builds env call.args nb
  Keeps x x' := x.Keeps x'

theorem scepSessionResumeCheck_ok_iff (s : ScepSession) (c : ScepArgs) :
    scepSessionResumeCheck s c = .ok ↔ c.Continues s := by
  unfold scepSessionResumeCheck ScepArgs.Continues
  by_cases op : s.inOp = c.op <;> by_cases out : scepCallOut c = s.inOut <;>
    by_cases enc : c.enc = s.inEnc <;> simp [op, out, enc]

theorem scepSessionResumeCheck_refuses {s : ScepSession} {c : ScepArgs}
    (mismatch : scepSessionResumeCheck s c ≠ .ok) : scepSessionResumeCheck s c = .errBadArg := by
  unfold scepSessionResumeCheck at mismatch ⊢
  repeat' split
  all_goals simp_all

/-- What is sent stays in flight if the call is suspended, and otherwise ends in both layers. -/
theorem scepSessionSend_inStep {x x' : ScepClient σ} {c : ScepArgs} {nb : Bool} {rc : Rc}
    (active : x.session.inActive = true)
    (sends : Sends x.session.inReq x.session.lent nb x.http)
    (sent : scepSessionSend env x c nb = some (rc, x')) :
    (scepLayer env).InStep x' ∧ x'.session.inActive = rc.isWant ∧ (rc.isWant = true → nb = true) ∧
    (rc.isWant = true → x'.session = x.session ∧ x'.outputs = x.outputs) := by
  simp only [scepSessionSend] at sent
  split at sent
  · cases sent
  · rename_i rc₁ e called
    obtain ⟨inStep, nonblocking⟩ := httpSessionCall_inStep sends called
    split at sent
    · rename_i want
      cases sent
      refine ⟨?_, active.trans want.2.symm, nonblocking, fun _ => ⟨rfl, rfl⟩⟩
      obtain ⟨serving, held⟩ := inStep.serving want.2
      exact .inFlight active serving held
    · rename_i settled
      have final : rc₁.isWant = false := by
        by_contra want
        have want : rc₁.isWant = true := by simpa using want
        exact settled ⟨nonblocking want, want⟩
      split at sent
      · simp only [scepSessionFinish] at sent
        split at sent
        · cases sent
        · rename_i rc₂ o w parsed
          have final₂ := scepParse_final parsed
          cases sent
          refine ⟨.idle rfl (inStep.free final), final₂.symm, fun want => ?_, fun want => ?_⟩
          · simp [final₂] at want
          · simp [final₂] at want
      · cases sent
        refine ⟨.idle rfl (inStep.free final), final.symm, fun want => ?_, fun want => ?_⟩
        · simp [final] at want
        · simp [final] at want

theorem scepSessionStart_lent (s : ScepSession) (c : ScepArgs) (url : Bytes) (post : Bool) :
    (scepSessionStart s c url post).lent = (if post then s.inPki else []) ∧
    (scepSessionStart s c url post).inReq.body = (scepSessionStart s c url post).lent := by
  have get : ascii "GET" ≠ ascii "POST" := by decide
  cases post <;> simp [scepSessionStart, ScepSession.lent, scepRequest, HttpRequest.zero, get]

/-- A request that begins on an idle session holds what was built, or nothing begins. -/
theorem scepSessionBegin_cases {x x' : ScepClient σ} {c : ScepArgs} {nb : Bool} {rc : Rc}
    (idle : x.session.inActive = false) (run : scepSessionBegin env x c nb = some (rc, x')) :
    (rc.Refuses ∧ x'.session.inActive = false ∧ x'.http = x.http) ∨
    (rc = .ok ∧ x'.http = x.http ∧ x'.outputs = x.outputs ∧ x'.session.inActive = true ∧
      x'.session.inOp = c.op ∧ x'.session.inOut = scepCallOut c ∧ x'.session.inReq.body = x'.session.lent ∧
      x.Builds env c nb x'.session.inUrl x'.session.lent) := by
  simp only [scepSessionBegin] at run
  split at run
  · rename_i key isPki hasKey
    simp only [scepSessionBeginPkiOp] at run
    split at run
    · cases run
    · cases run
      exact .inl ⟨scepBuild_raises env _ _ _ _ _ _ _ ‹_›, rfl, rfl⟩
    · rename_i b w built
      cases run
      obtain ⟨lent, body⟩ := scepSessionStart_lent (x.session.keep b) c b.url b.post
      refine .inr ⟨rfl, rfl, rfl, rfl, rfl, rfl, body, ?_⟩
      rw [lent]
      exact .pki _ b w built
  · cases run
  · simp only [scepSessionBeginGet] at run
    split at run
    · cases run
    · rename_i rc₁ w failed
      cases run
      have raises : (scepBuildGet env x.session c nb).Raises Rc.Refuses :=
        .bind (buildGetcaUrl_raises env _ _ _) fun _ =>
          .ite (fun _ => .bind (dupBuf_raises env _ _) fun _ => .pure _) fun _ => .pure _
      exact .inl ⟨raises _ _ _ failed, idle, rfl⟩
    · rename_i url caBundle w built
      cases run
      obtain ⟨lent, body⟩ :=
        scepSessionStart_lent { x.session with inCaBundle := caBundle } c url false
      refine .inr ⟨rfl, rfl, rfl, rfl, rfl, rfl, body, ?_⟩
      rw [lent]
      exact .get url caBundle w built

/-- The two layers are in step, and the output of a request in flight is still as it was cleared. -/
structure ScepClient.Valid (env : WolfCrypt σ) (x : ScepClient σ) : Prop where
  inStep : (scepLayer env).InStep x
  output : x.session.inActive = true → ∃ out, x.session.inOut = some out ∧ x.outputs.Cleared out

theorem ScepClient.Valid.of_idle {x : ScepClient σ} (inStep : (scepLayer env).InStep x)
    (idle : x.session.inActive = false) : x.Valid env :=
  ⟨inStep, by simp [idle]⟩

theorem ScepClient.Valid.cleared {x : ScepClient σ} (valid : x.Valid env) (c : ScepArgs) :
    (scepCallClear x c).Valid env := by
  obtain ⟨session, http, -, -⟩ := scepCallClear_keeps x c
  refine ⟨?_, fun active => ?_⟩
  · change Http.InStep (scepCallClear x c).session.inActive (scepCallClear x c).session.lent
      (scepCallClear x c).http
    rw [session, http]
    exact valid.inStep
  · rw [session] at active ⊢
    obtain ⟨out, inOut, cleared⟩ := valid.output active
    exact ⟨out, inOut, scepCallClear_cleared cleared c⟩

/-- How a call goes: against a request in flight it is refused or resumes it; on an idle session it
begins nothing, or a request that is sent. -/
inductive Called (env : WolfCrypt σ) (x : ScepClient σ) (c : ScepArgs) (nb : Bool) (rc : Rc)
    (x' : ScepClient σ) : Prop where
  | refused (flagged : x.session.inActive = true) (mismatch : nb = false ∨ ¬c.Continues x.session)
      (code : rc = .errBadArg) (same : x' = x ∨ x' = scepCallClear x c)
  | resumed (flagged : x.session.inActive = true) (nonblocking : nb = true)
      (continues : c.Continues x.session) (sent : scepSessionSend env x c nb = some (rc, x'))
  | unbegun (idle : x.session.inActive = false) (code : rc.Refuses)
      (idle' : x'.session.inActive = false) (http : x'.http = x.http)
  | begun (y : ScepClient σ) (out : ScepOut) (idle : x.session.inActive = false)
      (own : scepCallOut c = some out) (checked : scepCallCheck c = .ok)
      (began : scepSessionBegin env (scepCallClear x c) c nb = some (.ok, y))
      (sent : scepSessionSend env y c nb = some (rc, x'))

theorem scepCallCheck_final (c : ScepArgs) : (scepCallCheck c).isWant = false := by
  unfold scepCallCheck
  dsimp only
  repeat' split
  all_goals rfl

theorem scepSessionCall_cases {x x' : ScepClient σ} {c : ScepArgs} {nb : Bool} {rc : Rc}
    (lent : x.session.inActive = true → x.session.inOut ≠ none)
    (run : scepSessionCall env x c nb = some (rc, x')) : Called env x c nb rc x' := by
  obtain ⟨session, http, -, -⟩ := scepCallClear_keeps x c
  simp only [scepSessionCall, session] at run
  by_cases flagged : x.session.inActive = true
  · split at run
    · rename_i missing
      cases run
      exact .refused flagged (.inr fun continues => lent flagged (continues.2.1.symm.trans missing)) rfl
        (.inl rfl)
    · by_cases blocking : nb = false
      · rw [if_pos ⟨flagged, blocking⟩] at run
        cases run
        exact .refused flagged (.inl blocking) rfl (.inr rfl)
      · rw [if_neg (fun both => blocking both.2)] at run
        by_cases continues : c.Continues x.session
        · have same : scepCallClear x c = x := by simp [scepCallClear, flagged, continues.2.1]
          rw [if_pos ((scepSessionResumeCheck_ok_iff _ _).mpr continues), same] at run
          exact .resumed flagged (by simpa using blocking) continues run
        · have mismatch : scepSessionResumeCheck x.session c ≠ .ok :=
            fun ok => continues ((scepSessionResumeCheck_ok_iff _ _).mp ok)
          rw [if_neg mismatch] at run
          cases run
          exact .refused flagged (.inr continues) (scepSessionResumeCheck_refuses mismatch) (.inr rfl)
  · have idle : x.session.inActive = false := by simpa using flagged
    have idle₀ : (scepCallClear x c).session.inActive = false := by rw [session]; exact idle
    split at run
    · cases run
      exact .unbegun idle ⟨by simp, rfl⟩ idle rfl
    · rename_i given
      obtain ⟨out, own⟩ := Option.ne_none_iff_exists'.mp given
      rw [if_neg (fun both => flagged both.1)] at run
      split at run
      · rename_i failed
        cases run
        exact .unbegun idle ⟨failed, scepCallCheck_final c⟩ idle₀ http
      · rename_i checked
        split at run
        · cases run
        · rename_i y began
          exact .begun y out idle own (by simpa using checked) began run
        · rename_i rc₁ y failed began
          cases run
          rcases scepSessionBegin_cases idle₀ began with ⟨refuses, idle', http'⟩ | ⟨rfl, -⟩
          · exact .unbegun idle refuses idle' (http'.trans http)
          · exact absurd rfl failed

theorem scepSession_step {x x' : ScepClient σ} {call : ScepCall} {nb : Bool} {rc : Rc}
    (valid : x.Valid env) (run : scepSession env x call nb = some (rc, x')) :
    (scepLayer env).Step x call nb rc x' ∧ x'.Valid env := by
  obtain ⟨session, http, response, world⟩ := scepCallClear_keeps x call.args
  have settled : ∀ y : ScepClient σ, (∃ out, y.session.inOut = some out ∧ y.outputs.Cleared out) →
      (scepLayer env).InStep x' → x'.session.inActive = rc.isWant →
      (rc.isWant = true → x'.session = y.session ∧ x'.outputs = y.outputs) → x'.Valid env := by
    intro y cleared inStep' flag kept
    refine ⟨inStep', fun active' => ?_⟩
    rw [(kept (flag.symm.trans active')).1, (kept (flag.symm.trans active')).2]
    exact cleared
  have lent : x.session.inActive = true → x.session.inOut ≠ none := by
    intro flagged
    obtain ⟨out, inOut, -⟩ := valid.output flagged
    simp [inOut]
  cases scepSessionCall_cases lent run with
  | refused flagged mismatch code same =>
      rcases same with rfl | rfl
      · exact ⟨.refused flagged mismatch code
          ⟨rfl, rfl, rfl, rfl, fun out _ => by cases out <;> rfl⟩ rfl rfl rfl rfl, valid⟩
      · refine ⟨.refused flagged mismatch code ⟨session, http, response, world, fun out inOut => ?_⟩
          (congrArg ScepSession.inActive session) (congrArg ScepSession.inUrl session)
          (congrArg ScepSession.lent session) http, valid.cleared call.args⟩
        obtain ⟨out', inOut', cleared⟩ := valid.output flagged
        obtain rfl : out' = out := Option.some.inj (inOut'.symm.trans inOut)
        exact cleared.same (scepCallClear_cleared cleared call.args)
  | resumed flagged nonblocking continues sent =>
      obtain ⟨serving, held⟩ := Http.InStep.serving valid.inStep flagged
      obtain ⟨inStep', flag, -, kept⟩ :=
        scepSessionSend_inStep flagged (.resumes serving held nonblocking) sent
      exact ⟨.continued flagged nonblocking continues inStep' flag fun want =>
        ⟨congrArg ScepSession.inUrl (kept want).1, congrArg ScepSession.lent (kept want).1⟩,
        settled x (valid.output flagged) inStep' flag kept⟩
  | unbegun idle code idle' http' =>
      have free : x.http.smResp = none := Http.InStep.free valid.inStep idle
      rw [← http'] at free
      exact ⟨.unbegun idle code idle' http', .of_idle (.idle idle' free) idle'⟩
  | begun y out idle own checked began sent =>
      have free : x.http.smResp = none := Http.InStep.free valid.inStep idle
      have idle₀ : (scepCallClear x call.args).session.inActive = false := by rw [session]; exact idle
      rcases scepSessionBegin_cases idle₀ began with
        ⟨refuses, -⟩ | ⟨-, http', outputs', active', -, inOut', lent', builds⟩
      · exact absurd rfl refuses.1
      · have free' : y.http.smResp = none := by rw [http', http]; exact free
        obtain ⟨inStep', flag, nonblocking, kept⟩ :=
          scepSessionSend_inStep active' (.begins free' lent') sent
        refine ⟨.begun idle nonblocking inStep' flag fun want => ?_,
          settled y ⟨out, inOut'.trans own, ?_⟩ inStep' flag kept⟩
        · simp only [scepLayer, (kept want).1]
          exact builds.of_same session world
        · rw [outputs']
          exact scepCallClear_own idle own

theorem scepSessionOpen_valid {srv : ServerCfg} {opts : ScepOpts} {w w' : σ}
    {s : ScepSession} {http : HttpSession}
    (opened : scepSessionOpen env srv opts w = some (.ok (s, http), w')) (outputs : ScepOutputs) :
    (⟨s, http, .zero, outputs, w'⟩ : ScepClient σ).Valid env ∧ s.inActive = false := by
  simp only [scepSessionOpen, scepSessionNew, scepSessionConnect, Prog.bind_ok_iff,
    Prog.callMap_ok_iff, Prog.pure_apply, Option.some.injEq, Prod.mk.injEq, Except.ok.injEq] at opened
  obtain ⟨_, _, ⟨_, _, -, _, _, -, _, _, -, _, _, -, _, _, -, rfl, -⟩, _, _, ran, ⟨rfl, rfl⟩, -⟩ := opened
  exact ⟨.of_idle (.idle rfl (httpSessionOpen_free ran)) rfl, rfl⟩

end WolfCert.Scep
