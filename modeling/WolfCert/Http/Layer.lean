import WolfCert.CLib.Trace
import WolfCert.Http.Runs

/-!
# A protocol session over an HTTP session

The EST and the SCEP session each own one HTTP session and one response object, `inResp`, and flag
the request they have in flight. The two layers are in step when the flag tells what the HTTP session
holds.
-/

namespace WolfCert.Http

open WolfCert.CLib

variable {σ : Type} {env : Env σ}

/-- The address of the response object `in_resp` of a protocol session. -/
def inRespAddr : Nat := 1

def HttpRequest.zero : HttpRequest :=
  { method := [], url := [], contentType := none, contentTransferEncoding := none, accept := none
    body := [], basicUser := none, basicPass := none }

/-- A session as it is opened has no request in flight. -/
theorem httpSessionOpen_free {w w' : σ} {url : Bytes} {maxBytes : Nat} {timeout : Int}
    {http : HttpSession} (opened : httpSessionOpen env w url maxBytes timeout = (.ok http, w')) :
    http.smResp = none := by
  simp only [httpSessionOpen, Env.withAlloc] at opened
  repeat' split at opened
  all_goals cases opened
  all_goals rfl

/-- The flag of a protocol session, the body it keeps for its request, and its HTTP session. -/
inductive InStep (active : Bool) (body : Bytes) (http : HttpSession) : Prop where
  | idle (inactive : active = false) (free : http.smResp = none)
  | inFlight (flagged : active = true) (serving : http.Serving inRespAddr)
      (held : http.smBody = body)

theorem InStep.active_iff {active : Bool} {body : Bytes} {http : HttpSession}
    (inStep : InStep active body http) :
    active = true ↔ http.smResp = some inRespAddr ∧ http.smState ≠ .idle ∧ http.smState ≠ .done := by
  cases inStep with
  | idle inactive free => simp [inactive, free]
  | inFlight flagged serving held =>
      exact ⟨fun _ => ⟨serving.resp, serving.busy, serving.unpublished⟩, fun _ => flagged⟩

theorem InStep.serving {body : Bytes} {http : HttpSession} {active : Bool}
    (inStep : InStep active body http) (flagged : active = true) :
    http.Serving inRespAddr ∧ http.smBody = body := by
  cases inStep with
  | idle inactive => simp [inactive] at flagged
  | inFlight _ serving held => exact ⟨serving, held⟩

theorem InStep.free {body : Bytes} {http : HttpSession} {active : Bool}
    (inStep : InStep active body http) (inactive : active = false) : http.smResp = none := by
  cases inStep with
  | idle _ free => exact free
  | inFlight flagged => simp [inactive] at flagged

/-- The HTTP call of a protocol session whose request borrows `body`: for a request it has just built,
or for the one it has in flight and then nonblocking. -/
inductive Sends (req : HttpRequest) (body : Bytes) (nb : Bool) (http : HttpSession) : Prop where
  | begins (free : http.smResp = none) (lent : req.body = body)
  | resumes (serving : http.Serving inRespAddr) (held : http.smBody = body) (nonblocking : nb = true)

/-- A sent request is in flight afterwards exactly if the call is suspended. -/
theorem httpSessionCall_inStep {x x' : Exchange σ} {req : HttpRequest} {body : Bytes} {nb : Bool}
    {rc : Rc} (sends : Sends req body nb x.session)
    (call : httpSessionCall env x req inRespAddr nb = some (rc, x')) :
    InStep rc.isWant body x'.session ∧ (rc.isWant = true → nb = true) := by
  have settled : ∀ y : Exchange σ, y.session.smBody = body → RunOutcome y inRespAddr rc x' →
      InStep rc.isWant body x'.session := by
    intro y lent outcome
    cases outcome with
    | waits want serving held => exact .inFlight want serving ((congrArg Held.smBody held).trans lent)
    | finishes ok rested => exact .idle (by simp [ok, Rc.isWant]) rested.resp
    | fails failed final free => exact .idle final free.resp
  cases httpSessionCall_cases call with
  | closed closed code same =>
      cases sends with
      | begins free => exact ⟨.idle (by simp [code, Rc.isWant]) (by rw [same]; exact free), by simp [code]⟩
      | resumes serving => simp [serving.opened] at closed
  | busy opened inFlight mismatch =>
      cases sends with
      | begins free => exact absurd free inFlight
      | resumes serving held nonblocking => simp [serving.resp, nonblocking] at mismatch
  | unbegun w opened free begun code after =>
      exact ⟨.idle code.2 (by rw [after]; exact free), by simp [code.2]⟩
  | begun head w opened free built begun run =>
      cases sends with
      | begins _ lent =>
          have serving : (smHold (x.timed nb).session req head inRespAddr).Serving inRespAddr :=
            smHold_serving opened
          obtain ⟨outcome, nonblocking⟩ := refuseWant_outcome serving run
          exact ⟨settled _ lent outcome, nonblocking⟩
      | resumes serving => simp [serving.resp] at free
  | resumed opened inFlight nonblocking run =>
      cases sends with
      | begins free => simp [free] at inFlight
      | resumes serving held =>
          obtain ⟨outcome, nonblocking⟩ := refuseWant_outcome (serving.timed nb) run
          exact ⟨settled (x.timed nb) held outcome, nonblocking⟩

/-- A protocol session as the layer above: its calls, the flag and the buffers of its request, and
what the protocol means by a call that continues a request, by what a call builds and by a refusal
that leaves request, position and the caller's output alone. -/
structure Layer (Client Call : Type) where
  call : Client → Call → Bool → Option (Rc × Client)
  active : Client → Bool
  url : Client → Option Bytes
  body : Client → Bytes
  http : Client → HttpSession
  Continues : Client → Call → Prop
  Builds : Client → Call → Bool → Option Bytes → Bytes → Prop
  Keeps : Client → Client → Prop

namespace Layer

variable {Client Call : Type}

def InStep (layer : Layer Client Call) (x : Client) : Prop :=
  Http.InStep (layer.active x) (layer.body x) (layer.http x)

/-- How a call on a client whose layers are in step goes. -/
inductive Step (layer : Layer Client Call) (x : Client) (call : Call) (nb : Bool) (rc : Rc)
    (x' : Client) : Prop where
  | refused (flagged : layer.active x = true) (mismatch : nb = false ∨ ¬layer.Continues x call)
      (code : rc = .errBadArg) (kept : layer.Keeps x x') (flag : layer.active x' = layer.active x)
      (url : layer.url x' = layer.url x) (body : layer.body x' = layer.body x)
      (http : layer.http x' = layer.http x)
  | continued (flagged : layer.active x = true) (nonblocking : nb = true)
      (continues : layer.Continues x call) (inStep : layer.InStep x')
      (flag : layer.active x' = rc.isWant)
      (held : rc.isWant = true → layer.url x' = layer.url x ∧ layer.body x' = layer.body x)
  | unbegun (idle : layer.active x = false) (code : rc.Refuses) (idle' : layer.active x' = false)
      (http : layer.http x' = layer.http x)
  | begun (idle : layer.active x = false) (nonblocking : rc.isWant = true → nb = true)
      (inStep : layer.InStep x') (flag : layer.active x' = rc.isWant)
      (built : rc.isWant = true → layer.Builds x call nb (layer.url x') (layer.body x'))

variable {layer : Layer Client Call} {x x' : Client} {call : Call} {nb : Bool} {rc : Rc}

theorem Step.inStep (inStep : layer.InStep x) (step : layer.Step x call nb rc x') :
    layer.InStep x' := by
  cases step with
  | refused flagged mismatch code kept flag url body http =>
      unfold InStep at inStep ⊢
      rwa [flag, body, http]
  | continued _ _ _ inStep' => exact inStep'
  | unbegun idle code idle' http =>
      have free := Http.InStep.free inStep idle
      exact .idle idle' (by rw [http]; exact free)
  | begun _ _ inStep' => exact inStep'

/-- The calls of a session as the inputs of a machine. -/
def step (layer : Layer Client Call) (x : Client) (input : Call × Bool) : Option (Rc × Client) :=
  layer.call x input.1 input.2

/-- The request in flight in `x` borrows the URL and the body that its first call built. -/
def Begins (layer : Layer Client Call) (idle : Client) (input : Call × Bool) (x : Client) : Prop :=
  layer.Builds idle input.1 input.2 (layer.url x) (layer.body x)

/-- What holds of a client after any calls: the flag tells whether the HTTP session holds an
unfinished request; that one was begun when nothing was in flight and has been in flight since, and
both layers hold what was built then. Any call whatever then either continues that request or a new
one, and leaves both layers idle unless suspended, or it is refused and changes nothing of it. -/
structure Tandem (layer : Layer Client Call) (start : Client) (calls : List (Call × Bool))
    (x : Client) : Prop where
  flag_iff : layer.active x = true ↔ (layer.http x).smResp = some inRespAddr ∧
    (layer.http x).smState ≠ .idle ∧ (layer.http x).smState ≠ .done
  idle : layer.active x = false → (layer.http x).smResp = none
  lent : layer.active x = true → (layer.http x).smBody = layer.body x
  since : layer.active x = true →
    Since layer.step (fun x => layer.active x = true) layer.Begins start calls x
  refused : ∀ call nb rc x', layer.call x call nb = some (rc, x') → layer.active x = true →
    (nb = false ∨ ¬layer.Continues x call) → rc = .errBadArg ∧ layer.Keeps x x'
  answered : ∀ call nb rc x', layer.call x call nb = some (rc, x') →
    ¬(layer.active x = true ∧ (nb = false ∨ ¬layer.Continues x call)) →
    (rc.isWant = true → nb = true ∧ layer.active x' = true) ∧
    (rc.isWant = false → layer.active x' = false ∧ (layer.http x').smResp = none)

theorem Step.answered (inStep : layer.InStep x) (step : layer.Step x call nb rc x')
    (accepted : ¬(layer.active x = true ∧ (nb = false ∨ ¬layer.Continues x call))) :
    (rc.isWant = true → nb = true ∧ layer.active x' = true) ∧
    (rc.isWant = false → layer.active x' = false ∧ (layer.http x').smResp = none) := by
  cases step with
  | refused flagged mismatch => exact absurd ⟨flagged, mismatch⟩ accepted
  | continued _ nonblocking _ inStep' flag =>
      exact ⟨fun want => ⟨nonblocking, flag.trans want⟩,
        fun final => ⟨flag.trans final, Http.InStep.free inStep' (flag.trans final)⟩⟩
  | unbegun idle code idle' http =>
      refine ⟨fun want => ?_, fun _ => ⟨idle', by rw [http]; exact Http.InStep.free inStep idle⟩⟩
      simp [code.2] at want
  | begun _ nonblocking inStep' flag =>
      exact ⟨fun want => ⟨nonblocking want, flag.trans want⟩,
        fun final => ⟨flag.trans final, Http.InStep.free inStep' (flag.trans final)⟩⟩

theorem Step.begins (step : layer.Step x call nb rc x') (idle : layer.active x ≠ true)
    (flagged : layer.active x' = true) : layer.Begins x (call, nb) x' := by
  cases step with
  | refused active => exact absurd active idle
  | continued active => exact absurd active idle
  | unbegun _ _ idle' => simp [idle'] at flagged
  | begun _ _ _ flag built => exact built (flag.symm.trans flagged)

/-- While a request is in flight, its URL and body stay. -/
theorem Step.held (step : layer.Step x call nb rc x') (flagged : layer.active x = true)
    (flagged' : layer.active x' = true) :
    layer.url x' = layer.url x ∧ layer.body x' = layer.body x := by
  cases step with
  | refused _ _ _ _ _ url body => exact ⟨url, body⟩
  | continued _ _ _ _ flag held => exact held (flag.symm.trans flagged')
  | unbegun idle => simp [idle] at flagged
  | begun idle => simp [idle] at flagged

/-- Over any calls, from a client that starts idle. -/
theorem tandem {Valid : Client → Prop} (inStep : ∀ x, Valid x → layer.InStep x)
    (steps : ∀ x call nb rc x', Valid x → layer.call x call nb = some (rc, x') →
      layer.Step x call nb rc x' ∧ Valid x')
    {start : Client} (valid : Valid start) (idle : layer.active start = false)
    {calls : List (Call × Bool)} {results : List Rc}
    (ran : history layer.step start calls = some (results, x)) : layer.Tandem start calls x := by
  have valid' : ∀ {calls results y}, history layer.step start calls = some (results, y) → Valid y :=
    fun ran => history_invariant valid
      (fun y input rc z valid stepped => (steps y input.1 input.2 rc z valid stepped).2) ran
  have here := inStep x (valid' ran)
  refine ⟨Http.InStep.active_iff here, fun idle => Http.InStep.free here idle,
    fun flagged => (Http.InStep.serving here flagged).2, fun flagged => ?_, ?_, ?_⟩
  · refine history_since (by simp [idle]) ?_ ?_ ran flagged
    · intro _ _ y input rc z reached free stepped busy
      exact (steps y input.1 input.2 rc z (valid' reached) stepped).1.begins free busy
    · intro _ _ y input rc z first cause reached busy begins stepped busy'
      obtain ⟨url, body⟩ := (steps y input.1 input.2 rc z (valid' reached) stepped).1.held busy busy'
      unfold Begins at begins ⊢
      rwa [url, body]
  · intro call nb rc x' called flagged mismatch
    cases (steps x call nb rc x' (valid' ran) called).1 with
    | refused _ _ code kept => exact ⟨code, kept⟩
    | continued _ nonblocking continues =>
        rcases mismatch with blocking | other
        · simp [nonblocking] at blocking
        · exact absurd continues other
    | unbegun idle => simp [idle] at flagged
    | begun idle => simp [idle] at flagged
  · intro call nb rc x' called accepted
    exact (steps x call nb rc x' (valid' ran) called).1.answered here accepted

end Layer

end WolfCert.Http
