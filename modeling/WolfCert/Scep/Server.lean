import WolfCert.CLib.Slots
import WolfCert.Scep.Message
import WolfCert.Server.Issue

/-!
# The SCEP server

The pkiMessage handlers of `scep_server.c`, from the body of a request to its reply.
-/

namespace WolfCert.Scep

open WolfCert.CLib WolfCert.Server

/-- What the SCEP server needs besides the CA: the certificate manager and the challengePassword of a
CSR, which may be NULL. -/
structure ScepServerEnv (σ : Type) extends IssueCrypto σ where
  certManagerNew : σ → Bool × σ
  loadCaBuffer : Bytes → σ → Bool × σ
  verifyBuffer : Bytes → Bytes → σ → Except WcErr Unit × σ
  parseChallenge : Bytes → σ → Except WcErr (Option Bytes) × σ

/-- The server and the part of its configuration that is for SCEP alone; a split RA is made at the
start. -/
structure ScepServer extends WolfCertServer where
  scepRequireApproval : Bool
  scepEnableGetCert : Bool
  ra : Option Ca
deriving DecidableEq, Repr

structure ScepPending where
  transactionId : Bytes
  csr : Bytes
  signerCert : Bytes
deriving DecidableEq, Repr

/-- A reply is an empty text, or a CertRep with the attributes it was built from. -/
inductive ScepReply where
  | text (status : Nat) (phrase : Bytes)
  | certRep (attrs : ScepAttrs) (message : Bytes)
deriving DecidableEq, Repr

/-- Every handler sends one reply and returns a code. -/
abbrev ScepRefusal : Type := Rc × ScepReply

/-- The world with the queue and the registry of the server. What follows the registry is not the
server's: the entries that were parked, the certificates that were issued, each with the transaction,
the CSR and the recipient it was for, and why others were not, all oldest first. -/
structure ScepWorld (σ : Type) where
  pending : List ScepPending
  itemsReady : Bool
  registry : List Bytes
  registryReady : Bool
  parked : List ScepPending
  issued : List (ScepPending × Bytes)
  faults : List IssueFault
  world : σ
deriving DecidableEq, Repr

def scepPendingMax : Nat := 16

def scepIssuedMax : Nat := 16

variable {σ : Type} (env : ScepServerEnv σ) (srv : ScepServer)

/-- A program that touches neither the queue nor the registry. -/
def aside {ε α : Type} (p : Prog σ ε α) : Prog (ScepWorld σ) ε α := fun s =>
  (p s.world).map fun (result, world) => (result, { s with world })

def serverError (rc : Rc) : ScepRefusal := (rc, .text 500 (ascii "Server Error"))

def ScepServer.repIdentity : Ca := srv.ra.getD srv.ca

/-! ## CertReps -/

def certRepAttrs (tid snonce nonce status : Bytes) (failInfo : Option Bytes) : ScepAttrs where
  messageType := some (ascii "3")
  transactionId := some tid
  senderNonce := some nonce
  recipientNonce := some snonce
  pkiStatus := some status
  failInfo := failInfo

/-- Only a success carries the certificate, in an envelope to `target`. -/
def repEnvelope (cert target status : Bytes) : Prog σ Rc Bytes :=
  if status = ascii "0" then do
    let p7 ← pkcs7BuildCertsOnly env.toIssueCrypto [cert]
    envelop env.toWolfCrypt target p7 .aes128Cbc
  else pure []

def buildCertRep (cert target tid snonce status : Bytes) (failInfo : Option Bytes) :
    Prog σ Rc ScepReply := do
  let envelope ← repEnvelope env cert target status
  Prog.callMap (fun _ => .errCrypto) env.initRng
  let nonce ← Prog.callMap (fun _ => .errCrypto) (env.generateBlock 16)
  let attrs := certRepAttrs tid snonce nonce status failInfo
  let message ← buildPkiMessage env.toWolfCrypt envelope srv.repIdentity.certDer srv.repIdentity.keyDer
    .sha256h attrs
  pure (.certRep attrs message)

def sendCertRep (cert target tid snonce status : Bytes) (failInfo : Option Bytes) :
    Prog (ScepWorld σ) ScepRefusal ScepReply :=
  aside (Prog.mapError serverError (buildCertRep env srv cert target tid snonce status failInfo))

def sendPkiFailure (tid snonce : Bytes) (failInfo : String) : Prog (ScepWorld σ) ScepRefusal ScepReply :=
  sendCertRep env srv [] [] tid snonce (ascii "2") (some (ascii failInfo))

def sentReply : Except ScepRefusal ScepReply → ScepReply
  | .ok reply => reply
  | .error (_, reply) => reply

/-- Send a failure, whatever becomes of it, and return that code. -/
def failWith (rc : Rc) (tid snonce : Bytes) (failInfo : String) :
    Prog (ScepWorld σ) ScepRefusal ScepReply := do
  let sent ← Prog.attempt (sendPkiFailure env srv tid snonce failInfo)
  Prog.fail (rc, sentReply sent)

/-! ## The registry of issued certificates -/

def readyRegistry : Prog (ScepWorld σ) Rc Unit := do
  let ready ← Prog.call fun s => (s.registryReady, s)
  if ready then pure ()
  else do
    aside (env.allocate scepIssuedMax)
    Prog.call fun s => ((), { s with registryReady := true })

def evictOldest (registry : List Bytes) : List Bytes :=
  if registry.length = scepIssuedMax then registry.drop 1 else registry

def issuedRecord (cert : Bytes) : Prog (ScepWorld σ) Rc Unit := do
  readyRegistry env
  aside (env.allocate cert.length)
  Prog.call fun s => ((), { s with registry := evictOldest s.registry ++ [cert] })

/-- A certificate that cannot be recorded is issued all the same. -/
def record (cert : Bytes) : Prog (ScepWorld σ) Rc Unit :=
  if srv.scepEnableGetCert then issuedRecord env cert else pure ()

def issuedFind (serial : Bytes) : List Bytes → Prog σ Rc (Option Bytes)
  | [] => pure none
  | cert :: rest => do
      match ← Prog.call (env.parseCert .certType cert) with
      | .error _ => issuedFind serial rest
      | .ok dc => if dc.serial ≠ [] ∧ dc.serial = serial then pure (some cert) else issuedFind serial rest

/-! ## Enrolment -/

/-- No certificate was issued. -/
def issueRefusal (fault : IssueFault) (tid snonce : Bytes) : Prog (ScepWorld σ) ScepRefusal ScepReply := do
  Prog.call fun s => ((), { s with faults := s.faults ++ [fault] })
  if fault.rc = .errMemory then Prog.fail (serverError .errMemory)
  else failWith env srv fault.rc tid snonce "2"

def issueReply (csr target cert tid snonce : Bytes) : Prog (ScepWorld σ) ScepRefusal ScepReply := do
  Prog.call fun s => ((), { s with issued := s.issued ++ [(⟨tid, csr, target⟩, cert)] })
  let _ ← Prog.attempt (record env srv cert)
  sendCertRep env srv cert target tid snonce (ascii "0") none

/-- The flag says whether the CA has issued, whatever became of the reply. -/
def issueAndReply (csr target tid snonce : Bytes) :
    Prog (ScepWorld σ) (ScepRefusal × Bool) ScepReply := do
  match ← Prog.attempt (aside (caIssueCause env.toIssueCrypto srv.ca csr)) with
  | .error fault => Prog.mapError (·, false) (issueRefusal env srv fault tid snonce)
  | .ok cert => Prog.mapError (·, true) (issueReply env srv csr target cert tid snonce)

/-- The signer must have the public key of the other certificate or CSR. -/
def signerMatchesKey (signer : Bytes) (kind : CertKind) (der : Bytes) : Prog σ Rc Unit := do
  let own ← extractSpki env.toWolfCrypt .certType signer
  let other ← extractSpki env.toWolfCrypt kind der
  Prog.require (own = other) .errAuth

def signerIssuedByCa (signer : Bytes) : Prog σ Rc Unit := do
  Prog.require (signer ≠ []) .errAuth
  let granted ← Prog.call env.certManagerNew
  Prog.require (granted = true) .errMemory
  let loaded ← Prog.call (env.loadCaBuffer srv.ca.certDer)
  Prog.require (loaded = true) .errCrypto
  Prog.callMap (fun e => if e = .memoryE then .errMemory else .errAuth)
    (env.verifyBuffer srv.ca.certDer signer)

/-- An empty or absent password accepts any request. -/
def checkChallenge (csr : Bytes) : Prog σ Rc Unit :=
  match srv.cfgChallenge with
  | none | some [] => pure ()
  | some expected => do
      let password ← Prog.callMap (fun _ => .errAuth) (env.parseChallenge csr)
      Prog.require (password = some expected) .errAuth

/-- A renewal may carry a new key, unlike its signer. -/
def checkSigner (mt signer csr : Bytes) : Prog σ Rc Unit :=
  if mt = ascii "17" then signerIssuedByCa env srv signer
  else if signer ≠ [] then signerMatchesKey env signer .certreqType csr
  else pure ()

def pendingFind (pending : List ScepPending) (tid : Bytes) : Option Nat :=
  pending.findIdx? (·.transactionId = tid)

def readyItems : Prog (ScepWorld σ) Rc Unit := do
  let ready ← Prog.call fun s => (s.itemsReady, s)
  if ready then pure ()
  else do
    aside (env.allocate scepPendingMax)
    Prog.call fun s => ((), { s with itemsReady := true })

/-- The three copies are all tried before one of them is missed. -/
def copyEntry (e : ScepPending) : Prog σ Rc Unit := do
  let tid ← Prog.call (env.alloc · e.transactionId.length)
  let csr ← Prog.call (env.alloc · e.csr.length)
  let signer ← Prog.call (env.alloc · e.signerCert.length)
  Prog.require (tid = true ∧ csr = true ∧ signer = true) .errMemory

def pendingAdd (e : ScepPending) : Prog (ScepWorld σ) Rc Unit := do
  let count ← Prog.call fun s => (s.pending.length, s)
  Prog.require (count < scepPendingMax) .errMemory
  readyItems env
  aside (copyEntry env e)
  Prog.call fun s => ((), { s with pending := s.pending ++ [e], parked := s.parked ++ [e] })

/-- Only the signer that parked a request may resend it, and only the same one. -/
def checkResent (e : ScepPending) (signer csr : Bytes) : Prog σ Rc Unit := do
  Prog.require (signer ≠ []) .errAuth
  signerMatchesKey env signer .certType e.signerCert
  Prog.require (csr = e.csr) .errAuth

/-- A request that is new is parked. -/
def parkNew (e : ScepPending) (snonce : Bytes) : Prog (ScepWorld σ) ScepRefusal ScepReply := do
  match ← Prog.attempt (pendingAdd env e) with
  | .error _ => sendPkiFailure env srv e.transactionId snonce "2"
  | .ok () => sendCertRep env srv [] e.signerCert e.transactionId snonce (ascii "3") none

def parkAgain (e : ScepPending) (csr signer target tid snonce : Bytes) :
    Prog (ScepWorld σ) ScepRefusal ScepReply := do
  match ← Prog.attempt (aside (checkResent env e signer csr)) with
  | .error .errMemory => Prog.fail (serverError .errMemory)
  | .error _ => sendPkiFailure env srv tid snonce "2"
  | .ok () => sendCertRep env srv [] target tid snonce (ascii "3") none

def ScepServer.envTarget (signer : Bytes) : Bytes := if signer ≠ [] then signer else srv.ca.certDer

def park (csr signer tid snonce : Bytes) : Prog (ScepWorld σ) ScepRefusal ScepReply := do
  let found ← Prog.call fun s => ((pendingFind s.pending tid).bind (s.pending[·]?), s)
  match found with
  | none => parkNew env srv ⟨tid, csr, srv.envTarget signer⟩ snonce
  | some e => parkAgain env srv e csr signer (srv.envTarget signer) tid snonce

def handleEnroll (mt csr signer tid snonce : Bytes) : Prog (ScepWorld σ) ScepRefusal ScepReply := do
  match ← Prog.attempt (aside (checkSigner env srv mt signer csr)) with
  | .error .errMemory => Prog.fail (serverError .errMemory)
  | .error .errCrypto => Prog.fail (serverError .errCrypto)
  | .error _ => sendPkiFailure env srv tid snonce "2"
  | .ok () =>
      match ← Prog.attempt (aside (checkChallenge env srv csr)) with
      | .error _ => sendPkiFailure env srv tid snonce "2"
      | .ok () =>
          if srv.scepRequireApproval then
            match ← Prog.attempt (aside (csrVerify env.toIssueCrypto csr)) with
            | .error .errMemory => Prog.fail (serverError .errMemory)
            | .error _ => sendPkiFailure env srv tid snonce "2"
            | .ok () => park env srv csr signer tid snonce
          else
            Prog.mapError Prod.fst (issueAndReply env srv csr (srv.envTarget signer) tid snonce)

/-! ## Polls -/

/-- The name the CA issues under: an absent certificate or an empty name never matches. -/
def issuerNameMatches (cert name : Bytes) : Prog σ Rc Bool :=
  if cert = [] ∨ name = [] then pure false
  else do
    match ← Prog.call (env.parseCert .certType cert) with
    | .error .memoryE => Prog.fail .errMemory
    | .error _ => pure false
    | .ok dc => pure (decide (issuingCaName dc = some name))

def csrSubjectIs (csr name : Bytes) : Prog σ Rc Bool := do
  match ← Prog.call (env.parseCert .certreqType csr) with
  | .error .memoryE => Prog.fail .errMemory
  | .error _ => pure false
  | .ok dc => pure (decide (dc.subjectRaw = some name))

/-- Whether the IssuerAndSubject names the CA and the parked CSR. -/
def pollNames (e : ScepPending) (ias : Bytes) : Prog σ Rc Bool :=
  match parseIssuerAndSubject ias with
  | none => pure false
  | some (issuer, subject) => do
      if ← issuerNameMatches env srv.ca.certDer issuer then csrSubjectIs env e.csr subject
      else pure false

def checkPollSigner (e : ScepPending) (signer : Bytes) : Prog σ Rc Unit := do
  Prog.require (signer ≠ []) .errAuth
  signerMatchesKey env signer .certType e.signerCert

def pendingRemove (idx : Nat) : Prog (ScepWorld σ) ScepRefusal Unit :=
  Prog.call fun s => ((), { s with pending := swapRemove s.pending idx })

/-- Issue for a parked request, which then leaves the queue; out of memory before issuing keeps it for
another poll. -/
def releasePending (idx : Nat) (e : ScepPending) (tid snonce : Bytes) :
    Prog (ScepWorld σ) ScepRefusal ScepReply := do
  match ← Prog.attempt (issueAndReply env srv e.csr e.signerCert tid snonce) with
  | .ok reply => do
      pendingRemove idx
      pure reply
  | .error (refusal, didIssue) =>
      if refusal.1 ≠ .errMemory ∨ didIssue = true then do
        pendingRemove idx
        Prog.fail refusal
      else Prog.fail refusal

/-- A poll for the parked request at that place. -/
def pollPending (idx : Nat) (e : ScepPending) (ias signer tid snonce : Bytes) :
    Prog (ScepWorld σ) ScepRefusal ScepReply := do
  match ← Prog.attempt (aside (pollNames env srv e ias)) with
  | .error rc => Prog.fail (serverError rc)
  | .ok false => sendPkiFailure env srv tid snonce "4"
  | .ok true =>
      match ← Prog.attempt (aside (checkPollSigner env e signer)) with
      | .error .errMemory => Prog.fail (serverError .errMemory)
      | .error _ => sendPkiFailure env srv tid snonce "4"
      | .ok () => releasePending env srv idx e tid snonce

def handleGetCertInitial (ias signer tid snonce : Bytes) : Prog (ScepWorld σ) ScepRefusal ScepReply := do
  let found ← Prog.call fun s =>
    ((pendingFind s.pending tid).bind fun idx => s.pending[idx]?.map (idx, ·), s)
  match found with
  | none => sendPkiFailure env srv tid snonce "4"
  | some (idx, e) => pollPending env srv idx e ias signer tid snonce

/-! ## GetCert -/

def getCertNames (ias : Bytes) : Prog σ Rc (Option Bytes) :=
  match parseIssuerAndSerial ias with
  | none => pure none
  | some (issuer, serial) => do
      if ← issuerNameMatches env srv.ca.certDer issuer then pure (some serial) else pure none

def findNamed (ias : Bytes) (registry : List Bytes) : Prog σ Rc (Option Bytes) := do
  match ← getCertNames env srv ias with
  | none => pure none
  | some serial => issuedFind env serial registry

/-- A requester without a certificate could not open the reply. -/
def handleGetCert (ias signer tid snonce : Bytes) : Prog (ScepWorld σ) ScepRefusal ScepReply :=
  if signer = [] then sendPkiFailure env srv tid snonce "2"
  else do
    let registry ← Prog.call fun s => (s.registry, s)
    match ← Prog.attempt (aside (findNamed env srv ias registry)) with
    | .error rc => Prog.fail (serverError rc)
    | .ok none => sendPkiFailure env srv tid snonce "4"
    | .ok (some cert) => sendCertRep env srv cert signer tid snonce (ascii "0") none

/-! ## pkiMessages -/

/-- The attributes the server reads. -/
def serverWants (a : ScepAttr) : Bool := a ≠ .failInfo

def parseRefusal (rc : Rc) : ScepRefusal :=
  if rc = .errMemory then serverError rc else (rc, .text 400 (ascii "Bad Request"))

/-- The transactionID, the senderNonce and the messageType that every message has to carry. -/
def messageIds (m : PkiMessage) : Option (Bytes × Bytes × Bytes) :=
  match m.transactionId, m.senderNonce, m.messageType with
  | some tid, some snonce, some mt =>
      if tid = [] ∨ isPrintableString tid = false ∨ snonce.length ≠ scepNonceSz ∨ mt = [] then none
      else some (tid, snonce, mt)
  | _, _, _ => none

def handleMessage (m : PkiMessage) (tid snonce mt payload : Bytes) :
    Prog (ScepWorld σ) ScepRefusal ScepReply :=
  if mt = ascii "19" ∨ mt = ascii "17" then handleEnroll env srv mt payload m.signerCert tid snonce
  else if mt = ascii "20" then handleGetCertInitial env srv payload m.signerCert tid snonce
  else if mt = ascii "21" ∧ srv.scepEnableGetCert = true then
    handleGetCert env srv payload m.signerCert tid snonce
  else failWith env srv .errProtocol tid snonce "2"

/-- A message that carries its ids is opened and then handled. -/
def openMessage (m : PkiMessage) (tid snonce mt : Bytes) : Prog (ScepWorld σ) ScepRefusal ScepReply := do
  match ← Prog.attempt (aside (deenvelop env.toWolfCrypt srv.repIdentity.certDer
      srv.repIdentity.keyDer m.envelope)) with
  | .error rc => failWith env srv rc tid snonce (if rc = .errUnsupported then "0" else "2")
  | .ok payload => handleMessage env srv m tid snonce mt payload

def handlePkiOp (body : Bytes) : Prog (ScepWorld σ) ScepRefusal ScepReply := do
  let m ← aside (Prog.mapError parseRefusal (parsePkiMessage env.toWolfCrypt serverWants body))
  match messageIds m with
  | none => Prog.fail (.errProtocol, .text 400 (ascii "Bad Message"))
  | some (tid, snonce, mt) => openMessage env srv m tid snonce mt

end WolfCert.Scep
