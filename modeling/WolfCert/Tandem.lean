import WolfCert.Est.InFlight
import WolfCert.Scep.InFlight

/-!
# Two sessions in step

Over every history of calls, an EST or a SCEP session and the HTTP session below it agree on the one
request that is in flight.
-/

namespace WolfCert

open WolfCert.CLib WolfCert.Http WolfCert.Est WolfCert.Scep

variable {σ : Type}

/-- After every sequence of calls on a session as it was opened, blocking or not, matching the request
in flight or not, whatever the transport, the heap and wolfCrypt answer: `in_active` tells whether the
HTTP session holds an unfinished request for `in_resp`; what that request borrows is what its first
call built, and it is the only one; a call that does not continue it is refused and changes neither
it, its position nor its caller's output; any other call leaves both layers idle unless suspended. -/
theorem sessions_in_tandem (env : WolfCrypt σ) (srv : ServerCfg) (w w' : σ) :
    (∀ s http outputs, estSessionOpen env srv w = some (.ok (s, http), w') →
      ∀ calls results x,
        history (estLayer env).step ⟨s, http, .zero, outputs, w'⟩ calls = some (results, x) →
        (estLayer env).Tandem ⟨s, http, .zero, outputs, w'⟩ calls x) ∧
    (∀ opts s http outputs, scepSessionOpen env srv opts w = some (.ok (s, http), w') →
      ∀ calls results x,
        history (scepLayer env).step ⟨s, http, .zero, outputs, w'⟩ calls = some (results, x) →
        (scepLayer env).Tandem ⟨s, http, .zero, outputs, w'⟩ calls x) := by
  constructor
  · intro s http outputs opened calls results x ran
    obtain ⟨valid, idle⟩ := estSessionOpen_valid opened outputs
    exact Layer.tandem (fun _ valid => valid.inStep)
      (fun _ _ _ _ _ valid run => estSession_step valid run) valid idle ran
  · intro opts s http outputs opened calls results x ran
    obtain ⟨valid, idle⟩ := scepSessionOpen_valid opened outputs
    exact Layer.tandem (fun _ valid => valid.inStep)
      (fun _ _ _ _ _ valid run => scepSession_step valid run) valid idle ran

/-! Two requests that wait, one for its TLS handshake and one for its write, each met by a call that
does not continue it. -/

def waitingCrypt : WolfCrypt Wire :=
  exampleCrypt { content := [], certs := [], verifyCert := [], attributes := [] }

def waitingWire : Wire := { rest := [], plan := [.wantWrite], zeroClose := false, refused := false }

def waitingEst : EstClient Wire where
  session := .opened (ascii "https://h/est") none none false
  http := .opened
    { scheme := ascii "https", host := ascii "h", port := 443, path := ascii "/est", tls := true }
    defaultMaxBody
  inResp := .zero
  outputs _ := .zero
  world := waitingWire

def waitingScep : ScepClient Wire where
  session := .opened (ascii "http://h/") ⟨.random, .auto, .renewalReq, .auto⟩ none
  http := .opened exampleUrl defaultMaxBody
  inResp := .zero
  outputs := ⟨fun _ => .cleared, fun _ => [], fun _ => .zero⟩
  world := waitingWire

theorem sessions_in_tandem_waiting :
    (∃ x, (estLayer waitingCrypt).Tandem waitingEst
        [(.getCacerts .pem (some 0), true), (.getCacerts .der (some 0), true)] x ∧
      x.session.inActive = true) ∧
    (∃ x, (scepLayer waitingCrypt).Tandem waitingScep
        [(.getCaCaps (some 0), true), (.getCaCert .pem (some (.plain 0)), false)] x ∧
      x.session.inActive = true) := by
  have estRan : (history (estLayer waitingCrypt).step waitingEst
      [(.getCacerts .pem (some 0), true), (.getCacerts .der (some 0), true)]).map
        (fun ran => (ran.1, ran.2.session.inActive)) =
      some ([.errWantRead, .errBadArg], true) := by decide +kernel
  have scepRan : (history (scepLayer waitingCrypt).step waitingScep
      [(.getCaCaps (some 0), true), (.getCaCert .pem (some (.plain 0)), false)]).map
        (fun ran => (ran.1, ran.2.session.inActive)) =
      some ([.errWantWrite, .errBadArg], true) := by decide +kernel
  obtain ⟨⟨_, x⟩, ran, answered⟩ := Option.map_eq_some_iff.mp estRan
  obtain ⟨⟨_, y⟩, ran', answered'⟩ := Option.map_eq_some_iff.mp scepRan
  simp only [Prod.mk.injEq] at answered answered'
  exact ⟨⟨x, (sessions_in_tandem waitingCrypt (exampleCfg .est (ascii "https://h/est")) waitingWire
      waitingWire).1 _ _ _ (by decide +kernel) _ _ x ran, answered.2⟩,
    ⟨y, (sessions_in_tandem waitingCrypt (exampleCfg .scep (ascii "http://h/")) waitingWire
      waitingWire).2 ⟨.random, .auto, .renewalReq, .auto⟩ _ _ _ (by decide +kernel) _ _ y ran',
      answered'.2⟩⟩

end WolfCert
