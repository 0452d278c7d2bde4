import WolfCert.CLib.Slots
import WolfCert.Est.CsrAttrs
import WolfCert.Server.Issue
import WolfCert.Server.Start

/-!
# The EST server

The handlers of `est_server.c`, from a request that was read to its response.
-/

namespace WolfCert.Est

open WolfCert.CLib WolfCert.Server WolfCert.Http

/-- What the EST server needs besides the CA: SHA-256, the post-handshake authentication, and the
certificate of the client in DER, empty if there is none to be had. -/
structure EstServerEnv (σ : Type) extends IssueCrypto σ where
  sha256 : Bytes → Bytes
  ensurePostHandshakeAuth : σ → Rc × σ
  keepPeerCert : Bool
  peerCertificate : σ → Bytes × σ

/-- The server and the part of its configuration that is for EST alone. -/
structure EstServer extends WolfCertServer where
  estRequireApproval : Bool
  estRetryAfterSec : Int
  estRequireCsrAttributes : Bool
deriving DecidableEq, Repr

/-- A request that was read; no `Authorization` field is NULL, and no body is empty. `tlsCurrent` says
whether its connection is a TLS one. -/
structure EstRequest where
  method : Bytes
  path : Bytes
  authHeader : Option Bytes
  body : Bytes
  tlsCurrent : Bool
deriving DecidableEq, Repr

/-- What `send_response` is given; a body that is NULL sends the headers alone. -/
structure Response where
  status : Nat
  phrase : Bytes
  headers : Bytes
  body : Option Bytes
  bodyLen : Nat
deriving DecidableEq, Repr

/-- The handlers send one response each and return a code. -/
abbrev Refusal : Type := Rc × Response

def estTextPlain : Bytes := ascii "Content-Type: text/plain\r\n"

def estPkcs7Certs : Bytes :=
  ascii "Content-Type: application/pkcs7-mime; smime-type=certs-only\r\n" ++
    ascii "Content-Transfer-Encoding: base64\r\n"

/-- A response to GET, or to HEAD, which is sent without the body. -/
def response (status : Nat) (phrase headers body : Bytes) (head : Bool) : Response where
  status := status
  phrase := phrase
  headers := headers
  body := if head then none else some body
  bodyLen := body.length

def sendError (status : Nat) (phrase why : String) : Response :=
  response status (ascii phrase) estTextPlain (ascii why) false

@[simp] theorem response_status (status : Nat) (phrase headers body : Bytes) (head : Bool) :
    (response status phrase headers body head).status = status := rfl

@[simp] theorem sendError_status (status : Nat) (phrase why : String) :
    (sendError status phrase why).status = status := rfl

def sendAcceptedRetryAfter (retryAfterSec : Int) : Response where
  status := 202
  phrase := ascii "Accepted"
  headers := ascii "Retry-After: " ++
    decimal (if retryAfterSec > 0 then retryAfterSec.toNat else 1) ++ ascii "\r\n"
  body := none
  bodyLen := 0

variable {σ : Type} (env : EstServerEnv σ) (srv : EstServer)

def basicScheme : Bytes := ascii "Basic "

/-- The field value is a C string from here on. -/
def checkBasicAuth {ε : Type} (auth : Option Bytes) : Prog σ ε Bool :=
  match srv.cfgBasicUser, auth with
  | none, _ => pure true
  | some _, none => pure false
  | some user, some auth =>
      let auth := cString auth
      if asciiNcasecmp auth basicScheme basicScheme.length ≠ 0 then pure false
      else
        let pass := srv.cfgBasicPass.getD []
        if user.length + 1 + pass.length ≥ 256 then pure false
        else do
          match ← Prog.attempt (base64Encode env.toWolfCrypt (user ++ [58] ++ pass)) with
          | .error _ => pure false
          | .ok enc => pure (decide (auth.drop basicScheme.length = enc))

def handlerCsrAttrs (head : Bool) : Prog σ Refusal Response :=
  match srv.cfgCsrAttrs with
  | none | some [] =>
      pure { status := 204, phrase := ascii "No Content", headers := [], body := none, bodyLen := 0 }
  | some attrs => do
      let b64 ← Prog.mapError (fun rc => (rc, response 500 (ascii "Server Error") estTextPlain
        (ascii "cannot encode the CSR attributes\n") head)) (base64EncodeMime env.toWolfCrypt attrs)
      pure (response 200 (ascii "OK") (ascii "Content-Type: application/csrattrs\r\n" ++
        ascii "Content-Transfer-Encoding: base64\r\n") b64 head)

/-- A message without bytes is a NULL buffer, which the encoder refuses. -/
def certsResponse (certs : List Bytes) : Prog σ Rc Bytes := do
  let p7 ← pkcs7BuildCertsOnly env.toIssueCrypto certs
  Prog.require (p7 ≠ []) .errBadArg
  base64EncodeMime env.toWolfCrypt p7

def handlerCacerts (head : Bool) : Prog σ Refusal Response := do
  let b64 ← Prog.mapError (fun rc => (rc, response 500 (ascii "Server Error") estTextPlain
    (ascii "cannot build the CA certificates response\n") head)) (certsResponse env [srv.ca.certDer])
  pure (response 200 (ascii "OK") estPkcs7Certs b64 head)

/-! ## Re-enrolment -/

/-- The identity that `wc_ParseCert` finds, if it has nothing to report. -/
def identityOf (translate : Option WcErr → Rc) : IdentityParse → Except Rc CertIdentity
  | .parsed dc => .ok dc
  | .critExt _ => .error (translate none)
  | .failed e => .error (translate (some e))

/-- The comparison of the two identities. -/
def sameIdentity (pc cc : CertIdentity) (psan csan : Option Bytes) : Bool :=
  pc.subjectRaw.getD [] = cc.subjectRaw.getD [] ∧
    pc.extSubjAltNameCrit = cc.extSubjAltNameCrit ∧ psan = csan

/-- What a build that keeps no certificate of the client can say. -/
def reenrollUnsupported (tlsCurrent : Bool) : Rc :=
  if tlsCurrent = false ∨ srv.cfg.tlsClientCaPem.getD [] = [] then .errAuth else .errUnsupported

def reenrollIdentityCheck (tlsCurrent : Bool) (csr : Bytes) : Prog σ Rc Unit := do
  Prog.require (env.keepPeerCert = true) (reenrollUnsupported srv tlsCurrent)
  let peer ← if tlsCurrent then Prog.call env.peerCertificate else pure []
  Prog.require (peer ≠ []) (if tlsCurrent = true ∧ srv.cfg.tlsClientCaPem.getD [] ≠ [] then .errTls
    else .errAuth)
  let pc ← parseAs env.toCsrCrypto
    (identityOf fun e => if e = some .memoryE then .errMemory else .errCrypto) .certType false peer
  let cc ← parseAs env.toCsrCrypto
    (identityOf fun e => if e = some .memoryE then .errMemory else .errParse) .certreqType true csr
  let psan ← Prog.callMap (fun _ => .errParse) fun w => (findSan env.asn pc, w)
  let csan ← Prog.callMap (fun _ => .errParse) fun w => (findSan env.asn cc, w)
  Prog.require (sameIdentity pc cc psan csan = true) .errProtocol

def reenrollRefusal (rc : Rc) : Refusal :=
  (rc, match rc with
    | .errAuth => sendError 403 "Forbidden" "no client certificate to renew\n"
    | .errParse => sendError 400 "Bad Request" "CSR is not a valid PKCS#10 request\n"
    | .errProtocol => sendError 400 "Bad Request" "CSR does not match the certificate being renewed\n"
    | _ => sendError 500 "Server Error" "cannot check the certificate being renewed\n")

/-! ## Enrolment -/

def sendMissingOid (oid : Bytes) : Response :=
  response 400 (ascii "Bad Request") estTextPlain ((ascii "CSR missing required attribute OID " ++
    (oidToDotted 128 oid).take 127 ++ ascii "\n").take 191) false

def csrAttrsRefusal (refused : Rc × Bytes) : Refusal :=
  (refused.1,
    if refused.1 = .errProtocol ∧ refused.2 ≠ [] then sendMissingOid refused.2
    else sendError 400 "Bad Request" "CSR does not satisfy the CSR attributes policy\n")

def checkRenewed (reenroll : Bool) (req : EstRequest) (csr : Bytes) : Prog σ Refusal Unit :=
  if reenroll then Prog.mapError reenrollRefusal (reenrollIdentityCheck env srv req.tlsCurrent csr)
  else pure ()

def checkAttributes (csr : Bytes) : Prog σ Refusal Unit :=
  if srv.estRequireCsrAttributes then
    Prog.mapError csrAttrsRefusal (csrAttrsEnforce env.toWolfCrypt (srv.cfgCsrAttrs.getD []) csr 64)
  else pure ()

/-- The CSR of a request, once everything but its approval is settled. -/
def receiveCsr (reenroll : Bool) (req : EstRequest) : Prog σ Refusal Bytes := do
  let pha ← Prog.call env.ensurePostHandshakeAuth
  Prog.require (pha = .ok)
    (pha, sendError 403 "Forbidden" "client certificate authentication failed\n")
  Prog.require (¬(srv.cfgBasicUser = none ∧ srv.cfg.estAllowAnonymousEnroll = false ∧
      req.tlsCurrent = false))
    (.errAuth, sendError 403 "Forbidden" "client authentication required\n")
  Prog.require (req.body ≠ []) (.errHttp, sendError 400 "Bad Request" "request body is empty\n")
  let csr ← Prog.mapError (fun rc => (rc, sendError 400 "Bad Request" "CSR is not valid base64\n"))
    (base64Decode env.toWolfCrypt req.body)
  checkRenewed env srv reenroll req csr
  checkAttributes env srv csr
  pure csr

def verifyRefusal (rc : Rc) : Refusal :=
  (rc, if rc = .errMemory then sendError 500 "Server Error" "cannot check the CSR\n"
    else sendError 400 "Bad CSR" "CSR rejected by the CA\n")

/-- The identity check of a re-enrolment has verified the CSR already. -/
def verifyCsr (reenroll : Bool) (csr : Bytes) : Prog σ Refusal Unit :=
  if reenroll then pure () else Prog.mapError verifyRefusal (csrVerify env.toIssueCrypto csr)

def issueResponse (csr : Bytes) : Prog σ Refusal Response := do
  let issued ← Prog.mapError (fun rc => (rc, sendError 400 "Bad CSR" "CSR rejected by the CA\n"))
    (caIssue env.toIssueCrypto srv.ca csr)
  let b64 ← Prog.mapError (fun rc =>
    (rc, sendError 500 "Server Error" "cannot build the certificate response\n"))
    (certsResponse env [issued])
  pure (response 200 (ascii "OK") estPkcs7Certs b64 false)

def estPendingCap : Nat := 8

/-- The world with the hashes of the parked CSRs, and the CSRs handed to the CA, oldest first. -/
structure EstWorld (σ : Type) where
  pending : List Bytes
  handed : List Bytes
  world : σ
deriving DecidableEq, Repr

/-- A program that neither reads nor changes the queue. -/
def beside {ε α : Type} (p : Prog σ ε α) : Prog (EstWorld σ) ε α := fun s =>
  (p s.world).map fun (result, world) => (result, { s with world })

def pendingFind (pending : List Bytes) (hash : Bytes) : Option Nat := pending.findIdx? (· = hash)

/-- Hand a CSR to the CA. -/
def issue (csr : Bytes) : Prog (EstWorld σ) Refusal Response := do
  Prog.call fun s => ((), { s with handed := s.handed ++ [csr] })
  beside (issueResponse env srv csr)

/-- A CSR that is not parked is parked, if there is room, and a parked one is issued. -/
def approve (csr : Bytes) : Prog (EstWorld σ) Refusal Response := fun s =>
  match pendingFind s.pending (env.sha256 csr) with
  | none =>
      if s.pending.length ≥ estPendingCap then
        some (.error (.errProtocol, sendError 503 "Service Unavailable"
          "pending enrollment queue is full\n"), s)
      else
        some (.ok (sendAcceptedRetryAfter srv.estRetryAfterSec),
          { s with pending := s.pending ++ [env.sha256 csr] })
  | some idx => issue env srv csr { s with pending := swapRemove s.pending idx }

def handlerEnroll (reenroll : Bool) (req : EstRequest) : Prog (EstWorld σ) Refusal Response := do
  let csr ← beside (receiveCsr env srv reenroll req)
  if srv.estRequireApproval then
    beside (verifyCsr env reenroll csr)
    approve env srv csr
  else issue env srv csr

/-! ## Routing -/

/-- The part of a path after its last slash. -/
def lastSegment (path : Bytes) : Bytes := path.rtakeWhile (· ≠ 47)

def pathSuffix (path : Bytes) : Bytes :=
  match strstr (ascii "/.well-known/est/") path with
  | some (_, suffix) => suffix
  | none => lastSegment path

def unknownOp (head : Bool) : Response :=
  response 404 (ascii "Not Found") estTextPlain (ascii "unknown EST operation\n") head

def unauthorized : Response :=
  response 401 (ascii "Unauthorized")
    (ascii "WWW-Authenticate: Basic realm=\"estrealm\"\r\n" ++ estTextPlain)
    (ascii "HTTP Basic authentication failed\n") false

def handleRequest (req : EstRequest) : Prog (EstWorld σ) Refusal Response :=
  let suffix := pathSuffix req.path
  let head : Bool := req.method = ascii "HEAD"
  if (head = true ∨ req.method = ascii "GET") ∧ suffix = ascii "cacerts" then
    beside (handlerCacerts env srv head)
  else if (head = true ∨ req.method = ascii "GET") ∧ suffix = ascii "csrattrs" then
    beside (handlerCsrAttrs env srv head)
  else if req.method = ascii "POST" ∧
      (suffix = ascii "simpleenroll" ∨ suffix = ascii "simplereenroll") then do
    let admitted ← beside (checkBasicAuth env srv req.authHeader)
    Prog.require (admitted = true) (.errAuth, unauthorized)
    handlerEnroll env srv (suffix = ascii "simplereenroll") req
  else Prog.fail (.errNotFound, unknownOp head)

/-! A server for concrete runs. -/

def exampleEst : EstServerEnv Wire :=
  { exampleIssue with
    sha256 := fun csr => csr
    ensurePostHandshakeAuth := fun w => (.ok, w)
    keepPeerCert := true
    peerCertificate := fun w => ([0x30, 0], w) }

def exampleEstServer : EstServer where
  cfg := { exampleStartCfg with protocol := .est }
  cfgChallenge := none
  cfgBasicUser := none
  cfgBasicPass := none
  cfgCsrAttrs := none
  ca := ⟨.rsa, [1], [0x30, 0], [1]⟩
  estRequireApproval := true
  estRetryAfterSec := 0
  estRequireCsrAttributes := false

end WolfCert.Est
