import WolfCert.Crypto
import WolfCert.Http.Layer

/-!
# The EST session

`est_client.c`: one request at a time over the session's own HTTP session, run by a blocking call or
by repeated nonblocking ones.
-/

namespace WolfCert.Est

open WolfCert.CLib WolfCert.Http

variable {σ : Type}

inductive EstOp where
  | getCacerts
  | getCsrattrs
  | simpleEnroll
  | simpleReenroll
deriving DecidableEq, Repr

def EstOp.path : EstOp → Bytes
  | .getCacerts => ascii "cacerts"
  | .getCsrattrs => ascii "csrattrs"
  | .simpleEnroll => ascii "simpleenroll"
  | .simpleReenroll => ascii "simplereenroll"

def EstOp.accept : EstOp → Bytes
  | .getCacerts => ascii "application/pkcs7-mime"
  | .getCsrattrs => ascii "application/csrattrs"
  | .simpleEnroll => ascii "application/pkcs7-mime"
  | .simpleReenroll => ascii "application/pkcs7-mime"

def estIsEnroll : EstOp → Bool
  | .simpleEnroll | .simpleReenroll => true
  | .getCacerts | .getCsrattrs => false

inductive EstStatus where
  | unset
  | success
  | pending
  | failure
deriving DecidableEq, Repr

/-- What stands around the `WolfCertBuffer` a caller passes: the `WolfCertEstResult` whose `cert_pem`
it is. A buffer on its own has only that field. -/
structure EstOutput where
  status : EstStatus
  certPem : Bytes
  retryAfterSec : Int
deriving DecidableEq, Repr

def EstOutput.zero : EstOutput := { status := .unset, certPem := [], retryAfterSec := 0 }

/-- `WolfCertEstSession` without its HTTP session and response; empty buffers are NULL. -/
structure EstSession where
  baseUrl : Bytes
  basicUser : Option Bytes
  basicPass : Option Bytes
  hasClientIdentity : Bool
  inActive : Bool
  inUrl : Option Bytes
  inBody : Bytes
  inReq : HttpRequest
  inOut : Option Nat
  inOp : EstOp
  inEnc : Encoding
deriving DecidableEq, Repr

/-- A session with the outputs its callers pass, by the address of their buffer, and the world. -/
structure EstClient (σ : Type) where
  session : EstSession
  http : HttpSession
  inResp : HttpResponse
  outputs : Nat → EstOutput
  world : σ

/-- The arguments of one call; a NULL or empty CSR is the empty list. -/
structure EstArgs where
  op : EstOp
  csr : Bytes
  enc : Encoding
  out : Option Nat
deriving DecidableEq, Repr

def joinPath (env : WolfCrypt σ) (base suffix : Bytes) : Prog σ Rc Bytes := do
  env.allocate (base.length + suffix.length + 2)
  pure ((if base.getLast? = some 47 then base.dropLast else base) ++ [47] ++ suffix)

namespace EstClient

def exchange (x : EstClient σ) : Exchange σ := ⟨x.http, x.inResp, x.world⟩

/-- The client after its HTTP session has moved. -/
def moved (x : EstClient σ) (e : Exchange σ) : EstClient σ :=
  { x with http := e.session, inResp := e.resp, world := e.world }

def output (x : EstClient σ) : Option Nat → EstOutput
  | none => .zero
  | some address => x.outputs address

def setOutput (x : EstClient σ) (out : Option Nat) (value : EstOutput) : EstClient σ :=
  match out with
  | none => x
  | some address => { x with outputs := Function.update x.outputs address value }

end EstClient

/-- Base64 and, but for the CSR attributes, PKCS#7 taken off a body. -/
def estDecode (env : WolfCrypt σ) (op : EstOp) (enc : Encoding) (body : Bytes) : Prog σ Rc Bytes := do
  let der ← base64Decode env body
  if op = .getCsrattrs then pure der
  else if enc = .der then pkcs7CertsToDer env der
  else pkcs7CertsToPem env der

/-- Parse the response; an enrol operation is one that has a result. -/
def estFinish (env : WolfCrypt σ) (resp : HttpResponse) (op : EstOp) (enc : Encoding)
    (out : EstOutput) (w : σ) : Option ((Rc × EstOutput) × σ) :=
  let status := resp.statusCode
  if estIsEnroll op ∧ status = 202 then
    some ((.ok, { out with status := .pending, retryAfterSec := resp.retryAfterSec }), w)
  else if op = .getCsrattrs ∧ (status = 204 ∨ status = 404 ∨ status = 405 ∨ status = 501 ∨
      (status = 200 ∧ resp.body = [])) then
    some ((.ok, { out with certPem := [] }), w)
  else if status ≠ 200 then
    let out := if estIsEnroll op then { out with status := .failure } else out
    some ((if status = 401 ∨ status = 403 then .errAuth else .errHttp, out), w)
  else if resp.body = [] then some ((.errHttp, out), w)
  else
    match estDecode env op enc resp.body w with
    | none => none
    | some (.error rc, w) => some ((rc, out), w)
    | some (.ok certs, w) =>
        let out := { out with certPem := certs }
        some ((.ok, if estIsEnroll op then { out with status := .success } else out), w)

def estSessionFreeRequest (s : EstSession) : EstSession :=
  { s with inUrl := none, inBody := [], inReq := HttpRequest.zero }

def estSessionReset (x : EstClient σ) : EstClient σ :=
  { x with
    session := { estSessionFreeRequest x.session with inOut := none, inActive := false }
    inResp := .zero }

def estSessionResumeCheck (s : EstSession) (args : EstArgs) : Rc :=
  if s.inOp ≠ args.op then .errBadArg
  else if args.out ≠ s.inOut then .errBadArg
  else if args.enc ≠ s.inEnc then .errBadArg
  else .ok

/-- The session `wolfcert_est_session_open` leaves. -/
def EstSession.opened (baseUrl : Bytes) (basicUser basicPass : Option Bytes)
    (hasClientIdentity : Bool) : EstSession where
  baseUrl := baseUrl
  basicUser := basicUser
  basicPass := basicPass
  hasClientIdentity := hasClientIdentity
  inActive := false
  inUrl := none
  inBody := []
  inReq := HttpRequest.zero
  inOut := none
  inOp := .getCacerts
  inEnc := .pem

def estSessionOpen (env : WolfCrypt σ) (srv : ServerCfg) : Prog σ Rc (EstSession × HttpSession) := do
  let (url, tls) ← cfgServerUrl env srv .est
  Prog.require (tls = true) .errTls
  Prog.require (srv.verifyServer = true) .errTls
  env.allocate 1
  let baseUrl ← strdup env url
  let basicUser ← strdupOpt env srv.username
  let basicPass ← strdupOpt env srv.password
  let http ← Prog.callMap id fun w =>
    httpSessionOpen env.toEnv w baseUrl srv.maxResponseBytes srv.timeoutMs
  pure (.opened baseUrl basicUser basicPass srv.hasClientIdentity, http)

/-- Clear the caller's output, unless it is that of the request in flight. -/
def estCallClear (x : EstClient σ) (args : EstArgs) : EstClient σ :=
  if x.session.inActive ∧ args.out = x.session.inOut then x
  else if estIsEnroll args.op then x.setOutput args.out .zero
  else x.setOutput args.out { x.output args.out with certPem := [] }

def estCallCheck (args : EstArgs) : Rc :=
  if args.out = none ∨ (args.enc ≠ .pem ∧ args.enc ≠ .der) ∨ (estIsEnroll args.op ∧ args.csr = [])
  then .errBadArg
  else .ok

/-- The URL and the body of a request. -/
def estBuild (env : WolfCrypt σ) (s : EstSession) (args : EstArgs) : Prog σ Rc (Bytes × Bytes) := do
  let url ← joinPath env s.baseUrl args.op.path
  if estIsEnroll args.op then
    let body ← base64EncodeMime env args.csr
    pure (url, body)
  else pure (url, [])

/-- The HTTP request around a URL and a body. -/
def estRequest (s : EstSession) (op : EstOp) (url body : Bytes) : HttpRequest :=
  let req : HttpRequest :=
    { method := ascii "GET", url, contentType := none, contentTransferEncoding := none
      accept := some op.accept, body := [], basicUser := s.basicUser, basicPass := s.basicPass }
  if estIsEnroll op then
    { req with
      method := ascii "POST", contentType := some (ascii "application/pkcs10")
      contentTransferEncoding := some (ascii "base64"), body }
  else req

def estSessionBegin (env : WolfCrypt σ) (x : EstClient σ) (args : EstArgs) :
    Option (Rc × EstClient σ) :=
  match estBuild env x.session args x.world with
  | none => none
  | some (.error rc, w) => some (rc, estSessionReset { x with world := w })
  | some (.ok (url, body), w) =>
      some (.ok,
        { x with
          session :=
            { x.session with
              inUrl := some url, inBody := body, inReq := estRequest x.session args.op url body
              inOp := args.op, inEnc := args.enc, inOut := args.out, inActive := true }
          world := w })

/-- Send the request in flight or continue it, and parse the response. -/
def estSessionSend (env : WolfCrypt σ) (x : EstClient σ) (args : EstArgs) (nb : Bool) :
    Option (Rc × EstClient σ) :=
  match httpSessionCall env.toEnv x.exchange x.session.inReq inRespAddr nb with
  | none => none
  | some (rc, e) =>
      let x := x.moved e
      if nb ∧ rc.isWant then some (rc, x)
      else if rc = .ok then
        let x := { x with session := estSessionFreeRequest x.session }
        match estFinish env x.inResp args.op args.enc (x.output args.out) x.world with
        | none => none
        | some ((rc, out), w) =>
            some (rc, estSessionReset (({ x with world := w } : EstClient σ).setOutput args.out out))
      else some (rc, estSessionReset x)

def estSessionCall (env : WolfCrypt σ) (x : EstClient σ) (args : EstArgs) (nb : Bool) :
    Option (Rc × EstClient σ) :=
  let x := estCallClear x args
  if x.session.inActive ∧ nb = false then some (.errBadArg, x)
  else if x.session.inActive then
    if estSessionResumeCheck x.session args = .ok then estSessionSend env x args nb
    else some (estSessionResumeCheck x.session args, x)
  else if estCallCheck args ≠ .ok then some (estCallCheck args, x)
  else if args.op = .simpleReenroll ∧ x.session.hasClientIdentity = false then some (.errBadArg, x)
  else
    match estSessionBegin env x args with
    | none => none
    | some (.ok, x) => estSessionSend env x args nb
    | some (rc, x) => some (rc, x)

/-- The calls of the session interface, each blocking or not. -/
inductive EstCall where
  | getCacerts (enc : Encoding) (out : Option Nat)
  | getCsrAttrs (out : Option Nat)
  | simpleEnroll (csr : Bytes) (out : Option Nat)
  | simpleReenroll (csr : Bytes) (out : Option Nat)
deriving DecidableEq, Repr

/-- The arguments an interface call passes on. -/
def EstCall.args : EstCall → EstArgs
  | .getCacerts enc out => { op := .getCacerts, csr := [], enc, out }
  | .getCsrAttrs out => { op := .getCsrattrs, csr := [], enc := .der, out }
  | .simpleEnroll csr out => { op := .simpleEnroll, csr, enc := .pem, out }
  | .simpleReenroll csr out => { op := .simpleReenroll, csr, enc := .pem, out }

/-- `wolfcert_est_session_*` and their `_nb` forms. -/
def estSession (env : WolfCrypt σ) (x : EstClient σ) (call : EstCall) (nb : Bool) :
    Option (Rc × EstClient σ) :=
  if estIsEnroll call.args.op ∧ call.args.out = none then some (.errBadArg, x)
  else estSessionCall env x call.args nb

end WolfCert.Est
