import WolfCert.Http.Layer
import WolfCert.Scep.Message

/-!
# The SCEP session

`scep_client.c`: like the EST session, one request at a time over its own HTTP session. A
PKIOperation keeps what its CertRep is checked against until it ends.
-/

namespace WolfCert.Scep

open WolfCert.CLib WolfCert.Http

variable {σ : Type}

inductive ScepOp where
  | getCaCaps
  | getCaCert
  | getNextCaCert
  | pkcsReq
  | renewal
  | getCertInitial
  | getCert
deriving DecidableEq, Repr

/-- `op >= SCEP_OP_PKCS_REQ`. -/
def ScepOp.isPki : ScepOp → Bool
  | .getCaCaps | .getCaCert | .getNextCaCert => false
  | .pkcsReq | .renewal | .getCertInitial | .getCert => true

structure ScepCaps where
  postPkiOperation : Bool
  renewal : Bool
  sha256 : Bool
  sha384 : Bool
  sha512 : Bool
  aes : Bool
  scepStandard : Bool
  getNextCaCert : Bool
deriving DecidableEq, Repr

def ScepCaps.zero : ScepCaps := ⟨false, false, false, false, false, false, false, false⟩

inductive ScepStatus where
  | unset
  | success
  | failure
  | pending
deriving DecidableEq, Repr

structure ScepResult where
  status : ScepStatus
  certPem : Bytes
  transactionId : Bytes
  failInfo : Int
deriving DecidableEq, Repr

/-- What a call leaves in the result it is passed before anything else. -/
def ScepResult.cleared : ScepResult :=
  { status := .unset, certPem := [], transactionId := [], failInfo := -1 }

/-- A buffer of its own, or the `cert_pem` of a result. -/
inductive BufferPtr where
  | plain (address : Nat)
  | certPem (result : Nat)
deriving DecidableEq, Repr

/-- The address of an output: that of a result is not that of its `cert_pem`. -/
inductive ScepOut where
  | result (address : Nat)
  | buffer (address : BufferPtr)
  | caps (address : Nat)
deriving DecidableEq, Repr

structure ScepOutputs where
  results : Nat → ScepResult
  buffers : Nat → Bytes
  caps : Nat → ScepCaps

namespace ScepOutputs

def setResult (o : ScepOutputs) (address : Nat) (value : ScepResult) : ScepOutputs :=
  { o with results := Function.update o.results address value }

def setCaps (o : ScepOutputs) (address : Nat) (value : ScepCaps) : ScepOutputs :=
  { o with caps := Function.update o.caps address value }

def setBuffer (o : ScepOutputs) (address : BufferPtr) (value : Bytes) : ScepOutputs :=
  match address with
  | .plain n => { o with buffers := Function.update o.buffers n value }
  | .certPem n => o.setResult n { o.results n with certPem := value }

end ScepOutputs

structure ScepKey where
  type : KeyType
  impl : Nat
deriving DecidableEq, Repr

/-- `ScepCall`; empty bytes are NULL, and only `cert` may also be empty without being NULL. -/
structure ScepArgs where
  op : ScepOp
  caps : Option ScepCaps := none
  raCert : Bytes := []
  caBundle : Bytes := []
  cert : Option Bytes := none
  key : Option ScepKey := none
  csr : Bytes := []
  txid : Bytes := []
  serial : Bytes := []
  capsOut : Option Nat := none
  bufOut : Option BufferPtr := none
  resOut : Option Nat := none
  enc : Encoding := .pem
deriving DecidableEq, Repr

def scepCallOut (c : ScepArgs) : Option ScepOut :=
  match c.resOut, c.bufOut, c.capsOut with
  | some address, _, _ => some (.result address)
  | none, some address, _ => some (.buffer address)
  | none, none, some address => some (.caps address)
  | none, none, none => none

def scepCallCheck (c : ScepArgs) : Rc :=
  let ok := match c.op with
    | .getCaCaps => decide (c.capsOut ≠ none)
    | .getCaCert => decide (c.bufOut ≠ none ∧ (c.enc = .pem ∨ c.enc = .der))
    | .getNextCaCert =>
        decide (c.bufOut ≠ none ∧ c.caBundle ≠ [] ∧ (c.enc = .pem ∨ c.enc = .der))
    | .pkcsReq => decide (c.csr ≠ [])
    | .renewal => decide (c.cert ≠ none ∧ c.cert ≠ some [] ∧ c.csr ≠ [])
    | .getCertInitial =>
        decide (c.cert ≠ some [] ∧ c.csr ≠ [] ∧ c.txid ≠ []) && isPrintableString c.txid
    | .getCert => decide (c.cert ≠ none ∧ c.cert ≠ some [] ∧ c.serial ≠ [])
  let ok := ok && (c.op.isPki = false ||
    decide (c.resOut ≠ none ∧ c.raCert ≠ [] ∧ c.caBundle ≠ [] ∧ c.key ≠ none))
  if ok = false then .errBadArg
  else if c.op.isPki ∧ c.key.map ScepKey.type ≠ some .rsa then .errUnsupported
  else .ok

inductive TxidMode where
  | pubkeyHash
  | random
deriving DecidableEq, Repr

inductive CipherChoice where
  | auto
  | aes128
  | aes256
  | des3
deriving DecidableEq, Repr

inductive RenewalMsgType where
  | renewalReq
  | pkcsReq
deriving DecidableEq, Repr

inductive SigningHash where
  | auto
  | sha256
  | sha384
  | sha512
deriving DecidableEq, Repr

/-- `WolfCertScepSession` without its HTTP session and response. `inCaBundle` and `inSigner` are the
caller's for a blocking call and copies for a nonblocking one. -/
structure ScepSession where
  serverUrl : Bytes
  txidMode : TxidMode
  contentCipher : CipherChoice
  renewalMsgType : RenewalMsgType
  signingHash : SigningHash
  caId : Option Bytes
  inActive : Bool
  inOp : ScepOp
  inEnc : Encoding
  inUrl : Option Bytes
  inPki : Bytes
  inReq : HttpRequest
  inCaBundle : Bytes
  inSigner : Bytes
  inSignerKey : Bytes
  inTxid : Bytes
  inNonce : Bytes
  inIas : Bytes
  inOut : Option ScepOut
deriving DecidableEq, Repr

/-- A session with the outputs its callers pass and the world. -/
structure ScepClient (σ : Type) where
  session : ScepSession
  http : HttpSession
  inResp : HttpResponse
  outputs : ScepOutputs
  world : σ

namespace ScepClient

def exchange (x : ScepClient σ) : Exchange σ := ⟨x.http, x.inResp, x.world⟩

/-- The client after its HTTP session has moved. -/
def moved (x : ScepClient σ) (e : Exchange σ) : ScepClient σ :=
  { x with http := e.session, inResp := e.resp, world := e.world }

end ScepClient

def scepSessionFreeRequest (s : ScepSession) : ScepSession :=
  { s with inUrl := none, inPki := [], inReq := HttpRequest.zero }

def scepSessionReset (x : ScepClient σ) : ScepClient σ :=
  { x with
    session :=
      { scepSessionFreeRequest x.session with
        inCaBundle := [], inSigner := [], inSignerKey := [], inTxid := []
        inNonce := List.replicate scepNonceSz 0, inIas := [], inOut := none, inActive := false }
    inResp := .zero }

/-- The options of `proto_opts.scep` a session copies. -/
structure ScepOpts where
  txidMode : TxidMode
  contentCipher : CipherChoice
  renewalMsgType : RenewalMsgType
  signingHash : SigningHash
deriving DecidableEq, Repr

def ScepSession.opened (serverUrl : Bytes) (opts : ScepOpts) (caId : Option Bytes) : ScepSession where
  serverUrl := serverUrl
  txidMode := opts.txidMode
  contentCipher := opts.contentCipher
  renewalMsgType := opts.renewalMsgType
  signingHash := opts.signingHash
  caId := caId
  inActive := false
  inOp := .getCaCaps
  inEnc := .pem
  inUrl := none
  inPki := []
  inReq := HttpRequest.zero
  inCaBundle := []
  inSigner := []
  inSignerKey := []
  inTxid := []
  inNonce := List.replicate scepNonceSz 0
  inIas := []
  inOut := none

def scepSessionNew (env : WolfCrypt σ) (srv : ServerCfg) (opts : ScepOpts) : Prog σ Rc ScepSession := do
  let (url, tls) ← cfgServerUrl env srv .scep
  Prog.require (tls = true → srv.verifyServer = true) .errTls
  env.allocate 1
  let serverUrl ← strdup env url
  let caId ← strdupOpt env srv.caId
  pure (.opened serverUrl opts caId)

def scepSessionConnect (env : WolfCrypt σ) (s : ScepSession) (srv : ServerCfg) :
    Prog σ Rc HttpSession :=
  Prog.callMap id fun w => httpSessionOpen env.toEnv w s.serverUrl srv.maxResponseBytes srv.timeoutMs

def scepSessionOpen (env : WolfCrypt σ) (srv : ServerCfg) (opts : ScepOpts) :
    Prog σ Rc (ScepSession × HttpSession) := do
  let s ← scepSessionNew env srv opts
  let http ← scepSessionConnect env s srv
  pure (s, http)

/-- The outputs with those of a call cleared. -/
def ScepOutputs.clear (o : ScepOutputs) (c : ScepArgs) : ScepOutputs :=
  let o := match c.resOut with | some address => o.setResult address .cleared | none => o
  let o := match c.capsOut with | some address => o.setCaps address .zero | none => o
  match c.bufOut with | some address => o.setBuffer address [] | none => o

/-- Clear the outputs of a call, unless they are those of the request in flight. -/
def scepCallClear (x : ScepClient σ) (c : ScepArgs) : ScepClient σ :=
  if x.session.inActive ∧ scepCallOut c = x.session.inOut then x
  else { x with outputs := x.outputs.clear c }

def scepSessionResumeCheck (s : ScepSession) (c : ScepArgs) : Rc :=
  if s.inOp ≠ c.op then .errBadArg
  else if scepCallOut c ≠ s.inOut then .errBadArg
  else if c.enc ≠ s.inEnc then .errBadArg
  else .ok

section Build

variable (env : WolfCrypt σ)

def scepMaxGetUrl : Nat := 8192

def appendQuery (base op : Bytes) : Prog σ Rc Bytes := do
  env.allocate (base.length + op.length + 24)
  pure (base ++ (if base.contains 63 then ascii "&" else ascii "?") ++ ascii "operation=" ++ op)

def isUnreserved (c : UInt8) : Bool :=
  (65 ≤ c && c ≤ 90) || (97 ≤ c && c ≤ 122) || (48 ≤ c && c ≤ 57) ||
    c == 45 || c == 95 || c == 46 || c == 126

def urlEncode (input : Bytes) : Prog σ Rc Bytes := do
  env.allocate (input.length * 3 + 1)
  pure (input.flatMap fun c => if isUnreserved c then [c] else 37 :: hexEncode true [c])

def buildGetcaUrl (base op : Bytes) (caId : Option Bytes) : Prog σ Rc Bytes := do
  let head ← appendQuery env base op
  match caId with
  | none => pure head
  | some id =>
      if id = [] then pure head
      else
        let enc ← urlEncode env id
        env.allocate (head.length + 9 + enc.length + 1)
        pure (head ++ ascii "&message=" ++ enc)

def buildPkiGetUrl (base pki : Bytes) : Prog σ Rc Bytes := do
  let b64 ← base64Encode env pki
  let enc ← urlEncode env b64
  let head ← appendQuery env base (ascii "PKIOperation")
  let need := head.length + 9 + enc.length + 1
  Prog.require (need ≤ scepMaxGetUrl) .errUnsupported
  env.allocate need
  pure (head ++ ascii "&message=" ++ enc)

/-- The URL of a PKIOperation and whether it is posted. -/
def scepBuildTransport (serverUrl : Bytes) (caps : Option ScepCaps) (pki : Bytes) :
    Prog σ Rc (Bytes × Bool) :=
  if caps.all ScepCaps.postPkiOperation then do
    let url ← appendQuery env serverUrl (ascii "PKIOperation")
    pure (url, true)
  else do
    let url ← buildPkiGetUrl env serverUrl pki
    pure (url, false)

def scepRenewalMsgType : RenewalMsgType → Bytes
  | .pkcsReq => ascii "19"
  | .renewalReq => ascii "17"

def pickHashOid (caps : Option ScepCaps) : SigningHash → Prog σ Rc HashOid
  | .sha256 => pure .sha256h
  | .sha384 => if env.hasSha384 then pure .sha384h else Prog.fail .errUnsupported
  | .sha512 => if env.hasSha512 then pure .sha512h else Prog.fail .errUnsupported
  | .auto => pure (match caps with
      | none => .sha256h
      | some caps =>
          if env.hasSha512 ∧ caps.sha512 then .sha512h
          else if env.hasSha384 ∧ caps.sha384 then .sha384h
          else .sha256h)

def pickCipher (caps : Option ScepCaps) : CipherChoice → Prog σ Rc ContentCipher
  | .aes128 => pure .aes128Cbc
  | .aes256 => if env.hasAes256 then pure .aes256Cbc else Prog.fail .errUnsupported
  | .des3 => if env.hasDes3 then pure .des3 else Prog.fail .errUnsupported
  | .auto =>
      if caps.any ScepCaps.aes then pure .aes128Cbc
      else if env.hasDes3 then pure .des3
      else Prog.fail .errUnsupported

def deriveTxidPubkey (signerCert : Bytes) : Prog σ Rc Bytes := do
  env.allocate 1
  let dc ← Prog.callMap mapWcErr (env.parseCert .certType signerCert)
  let digest ← Prog.callMap mapWcErr (env.sha256Hash dc.publicKey)
  env.allocate 64
  pure (hexEncode true digest)

/-- The transactionID: given, derived from the signer's key, or random. -/
def scepBuildTxid (id : Bytes) (mode : TxidMode) (signerCert : Bytes) : Prog σ Rc Bytes :=
  if id ≠ [] then do
    env.allocate id.length
    pure id
  else if mode = .pubkeyHash then deriveTxidPubkey env signerCert
  else do
    let random ← Prog.callMap mapWcErr (env.generateBlock 16)
    env.allocate 32
    pure (hexEncode false random)

def rsaKeyToDer (key : ScepKey) : Prog σ Rc Bytes := do
  let size ← Prog.callMap mapWcErr (env.rsaKeyToDer key.impl)
  if size = [] then pure []
  else
    env.allocate size.length
    Prog.callMap mapWcErr (env.rsaKeyToDer key.impl)

/-- What a PKIOperation in flight keeps, and how it is sent. -/
structure ScepBuilt where
  signer : Bytes
  caBundle : Bytes
  ias : Bytes
  signerKey : Bytes
  nonce : Bytes
  txid : Bytes
  pki : Bytes
  url : Bytes
  post : Bool
deriving DecidableEq, Repr

/-- The attributes of a request. -/
def requestAttrs (msgType txid nonce : Bytes) : ScepAttrs where
  messageType := some msgType
  transactionId := some txid
  senderNonce := some nonce
  recipientNonce := none
  pkiStatus := none
  failInfo := none

/-- The nonce, the transactionID and the pkiMessage that carries them. -/
def scepPrepare (s : ScepSession) (c : ScepArgs) (msgType content signer signerKey : Bytes) :
    Prog σ Rc (Bytes × Bytes × Bytes) := do
  let hash ← pickHashOid env c.caps s.signingHash
  let cipher ← pickCipher env c.caps s.contentCipher
  let envelope ← envelop env c.raCert content cipher
  Prog.callMap mapWcErr env.initRng
  let nonce ← Prog.callMap mapWcErr (env.generateBlock scepNonceSz)
  let txid ← scepBuildTxid env c.txid s.txidMode signer
  let pki ← buildPkiMessage env envelope signer signerKey hash (requestAttrs msgType txid nonce)
  pure (nonce, txid, pki)

/-- Copy for a nonblocking call; `dup_buf` of nothing is NULL too. -/
def dupBuf (nb : Bool) (src : Bytes) : Prog σ Rc Bytes :=
  if nb then do
    Prog.require (src ≠ []) .errMemory
    env.allocate src.length
    pure src
  else pure src

/-- The certificate that signs: the caller's, or a transient self-signed one. -/
def scepSigner (c : ScepArgs) (key : ScepKey) (nb : Bool) : Prog σ Rc Bytes :=
  match c.cert with
  | none => selfSignedRsa env key.impl c.csr
  | some cert => dupBuf env nb cert

/-- The IssuerAndSubject or IssuerAndSerial a poll or a GetCert sends in place of the CSR. -/
def scepNames (c : ScepArgs) : Prog σ Rc Bytes :=
  match c.op with
  | .getCertInitial => issuerAndSubject env c.raCert c.csr
  | .getCert => issuerAndSerial env c.raCert c.serial
  | _ => pure []

def scepMsgType (s : ScepSession) : ScepOp → Bytes
  | .renewal => scepRenewalMsgType s.renewalMsgType
  | .getCertInitial => ascii "20"
  | .getCert => ascii "21"
  | _ => ascii "19"

def scepBuild (s : ScepSession) (c : ScepArgs) (key : ScepKey) (nb : Bool) : Prog σ Rc ScepBuilt := do
  let signer ← scepSigner env c key nb
  let caBundle ← dupBuf env nb c.caBundle
  let ias ← scepNames env c
  let signerKey ← rsaKeyToDer env key
  let (nonce, txid, pki) ←
    scepPrepare env s c (scepMsgType s c.op) (if ias ≠ [] then ias else c.csr) signer signerKey
  let (url, post) ← scepBuildTransport env s.serverUrl c.caps pki
  pure { signer, caBundle, ias, signerKey, nonce, txid, pki, url, post }

end Build

/-- The HTTP request around a URL and, posted, a pkiMessage. -/
def scepRequest (url pki : Bytes) (post : Bool) : HttpRequest :=
  if post then
    { HttpRequest.zero with
      method := ascii "POST", url, contentType := some (ascii "application/x-pki-message"), body := pki }
  else { HttpRequest.zero with method := ascii "GET", url }

/-- Put a request in flight. -/
def scepSessionStart (s : ScepSession) (c : ScepArgs) (url : Bytes) (post : Bool) : ScepSession :=
  { s with
    inUrl := some url, inReq := scepRequest url s.inPki post, inOp := c.op, inEnc := c.enc
    inOut := scepCallOut c, inActive := true }

/-- The session with what its PKIOperation keeps. -/
def ScepSession.keep (s : ScepSession) (b : ScepBuilt) : ScepSession :=
  { s with
    inSigner := b.signer, inCaBundle := b.caBundle, inIas := b.ias, inSignerKey := b.signerKey
    inNonce := b.nonce, inTxid := b.txid, inPki := b.pki }

def scepSessionBeginPkiOp (env : WolfCrypt σ) (x : ScepClient σ) (c : ScepArgs) (key : ScepKey)
    (nb : Bool) : Option (Rc × ScepClient σ) :=
  match scepBuild env x.session c key nb x.world with
  | none => none
  | some (.error rc, w) => some (rc, scepSessionReset { x with world := w })
  | some (.ok b, w) =>
      some (.ok, { x with session := scepSessionStart (x.session.keep b) c b.url b.post, world := w })

/-- The name of a GET operation in its query. -/
def scepGetName : ScepOp → Bytes
  | .getCaCaps => ascii "GetCACaps"
  | .getCaCert => ascii "GetCACert"
  | _ => ascii "GetNextCACert"

/-- The URL of a GET operation, and for GetNextCACert the bundle its reply is checked against. -/
def scepBuildGet (env : WolfCrypt σ) (s : ScepSession) (c : ScepArgs) (nb : Bool) :
    Prog σ Rc (Bytes × Bytes) := do
  let url ← buildGetcaUrl env s.serverUrl (scepGetName c.op) s.caId
  if c.op = .getNextCaCert then
    let caBundle ← dupBuf env nb c.caBundle
    pure (url, caBundle)
  else pure (url, s.inCaBundle)

def scepSessionBeginGet (env : WolfCrypt σ) (x : ScepClient σ) (c : ScepArgs) (nb : Bool) :
    Option (Rc × ScepClient σ) :=
  match scepBuildGet env x.session c nb x.world with
  | none => none
  | some (.error rc, w) => some (rc, { x with world := w })
  | some (.ok (url, caBundle), w) =>
      let s := { x.session with inCaBundle := caBundle }
      some (.ok, { x with session := scepSessionStart s c url false, world := w })

/-- `c->key` is set for every PKIOperation that `scep_call_check` accepts. -/
def scepSessionBegin (env : WolfCrypt σ) (x : ScepClient σ) (c : ScepArgs) (nb : Bool) :
    Option (Rc × ScepClient σ) :=
  match c.op.isPki, c.key with
  | true, some key => scepSessionBeginPkiOp env x c key nb
  | true, none => none
  | false, _ => scepSessionBeginGet env x c nb

/-- The digit of a failInfo of 0 to 4. -/
def failInfoDigit : Option Bytes → Option Nat
  | some [c] => if 48 ≤ c ∧ c ≤ 52 then some (c.toNat - 48) else none
  | _ => none

/-- The checks of `scep_finish` on a CertRep. -/
def scepCheckReply (env : WolfCrypt σ) (s : ScepSession) (body : Bytes) : Prog σ Rc PkiMessage := do
  let m ← parsePkiMessage env (fun _ => true) body
  Prog.require (checkCertRep m s.inTxid = .ok) .errProtocol
  match ← Prog.attempt (verifyRepSigner env m.signerCert s.inCaBundle) with
  | .error .errMemory => Prog.fail .errMemory
  | .error _ => Prog.fail .errAuth
  | .ok () => do
      Prog.require (m.recipientNonce = some s.inNonce ∧ s.inNonce.length = scepNonceSz) .errProtocol
      Prog.require (m.pkiStatus = some (ascii "0") ∨ m.pkiStatus = some (ascii "2") ∨
        m.pkiStatus = some (ascii "3")) .errProtocol
      Prog.require (m.pkiStatus = some (ascii "2") → (failInfoDigit m.failInfo).isSome = true)
        .errProtocol
      pure m

/-- The certificates of a SUCCESS CertRep. -/
def scepOpenEnvelope (env : WolfCrypt σ) (s : ScepSession) (envelope : Bytes) : Prog σ Rc Bytes := do
  let inner ← deenvelop env s.inSigner s.inSignerKey envelope
  pkcs7CertsToPem env inner

def scepFinish (env : WolfCrypt σ) (s : ScepSession) (body : Bytes) (out : ScepResult) (w : σ) :
    Option ((Rc × ScepResult) × σ) :=
  match scepCheckReply env s body w with
  | none => none
  | some (.error rc, w) => some ((rc, out), w)
  | some (.ok m, w) =>
      let out := { out with transactionId := m.transactionId.getD [] }
      if m.pkiStatus = some (ascii "3") then some ((.ok, { out with status := .pending }), w)
      else if m.pkiStatus = some (ascii "2") then
        some ((.ok, { out with
          status := .failure, failInfo := ((failInfoDigit m.failInfo).getD 0 : Nat) }), w)
      else
        match scepOpenEnvelope env s m.envelope w with
        | none => none
        | some (.error rc, w) => some ((rc, out), w)
        | some (.ok pem, w) => some ((.ok, { out with certPem := pem, status := .success }), w)

def pemBegin : Bytes := ascii "-----BEGIN CERTIFICATE-----"

/-- Look for a certificate at each BEGIN line; a bad entry does not end the search. -/
def pemSearch (env : WolfCrypt σ) (issuer serial : Bytes) : Nat → Bytes → Prog σ Rc Bool
  | 0, _ => pure false
  | fuel + 1, p =>
      if p.length < pemBegin.length then pure false
      else if pemBegin.isPrefixOf p = false then pemSearch env issuer serial fuel (p.drop 1)
      else do
        match ← Prog.attempt (pemCertToDer env p) with
        | .error .errMemory => Prog.fail .errMemory
        | .error _ => pemSearch env issuer serial fuel (p.drop pemBegin.length)
        | .ok der =>
            match ← Prog.attempt (Prog.callMap id (env.parseCert .certType der)) with
            | .error .memoryE => Prog.fail .errMemory
            | .error _ => pemSearch env issuer serial fuel (p.drop pemBegin.length)
            | .ok dc =>
                if dc.serial ≠ [] ∧ dc.serial = serial ∧ dc.issuerRaw = some issuer ∧ issuer ≠ [] then
                  pure true
                else pemSearch env issuer serial fuel (p.drop pemBegin.length)

def pemHasCert (env : WolfCrypt σ) (pem issuer serial : Bytes) : Prog σ Rc Bool :=
  if pem.length < pemBegin.length then pure false
  else do
    env.allocate 1
    pemSearch env issuer serial pem.length pem

/-- A GetCert reply must hold the requested issuer and serial. -/
def scepCheckGetCert (env : WolfCrypt σ) (s : ScepSession) (out : ScepResult) (w : σ) :
    Option ((Rc × ScepResult) × σ) :=
  let emptied := { out with certPem := [], status := .unset }
  match parseIssuerAndSerial s.inIas with
  | none => some ((.errParse, emptied), w)
  | some (issuer, serial) =>
      match pemHasCert env out.certPem issuer serial w with
      | none => none
      | some (.ok true, w) => some ((.ok, out), w)
      | some (.ok false, w) => some ((.errProtocol, emptied), w)
      | some (.error rc, w) => some ((rc, emptied), w)

/-- Each GetCACaps line is one whole capability; every turn consumes a line. -/
def hasCapFrom (needle : Bytes) : Nat → Bytes → Bool
  | 0, _ => false
  | fuel + 1, body =>
      if body = [] then false
      else
        let line := body.takeWhile (· != 10)
        let token := if line.getLast? = some 13 then line.dropLast else line
        if token.length = needle.length ∧ asciiNcasecmp token needle needle.length = 0 then true
        else hasCapFrom needle fuel (body.drop (line.length + 1))

def hasCap (body : Bytes) (needle : String) : Bool := hasCapFrom (ascii needle) body.length body

def scepFinishCaps (body : Bytes) : ScepCaps :=
  let caps : ScepCaps :=
    { postPkiOperation := hasCap body "POSTPKIOperation", renewal := hasCap body "Renewal"
      sha256 := hasCap body "SHA-256", sha384 := hasCap body "SHA-384"
      sha512 := hasCap body "SHA-512", aes := hasCap body "AES"
      scepStandard := hasCap body "SCEPStandard", getNextCaCert := hasCap body "GetNextCACert" }
  if caps.scepStandard then { caps with postPkiOperation := true, aes := true, sha256 := true }
  else caps

/-- Whether a media type names a bundle, its parameters apart. -/
def isCaRaType (contentType : Bytes) : Bool :=
  let type := ascii "application/x-x509-ca-ra-cert"
  decide (asciiNcasecmp contentType type type.length = 0) &&
    match (contentType.drop type.length).dropWhile fun c => c == 32 || c == 9 with
    | [] => true
    | c :: _ => c == 59

def scepFinishCaCert (env : WolfCrypt σ) (resp : HttpResponse) (enc : Encoding) : Prog σ Rc Bytes := do
  Prog.require (resp.body ≠ []) .errHttp
  if resp.contentType.any isCaRaType ∨ isSignedData resp.body then
    if enc = .der then pkcs7CertsToDer env resp.body else pkcs7CertsToPem env resp.body
  else
    env.allocate (if enc = .der then resp.body.length else resp.body.length * 2 + 256)
    if enc = .der then pure resp.body
    else
      let pem ← Prog.callMap (fun _ => .errCrypto) (env.derToPem resp.body)
      Prog.require (pem ≠ []) .errCrypto
      pure pem

/-- Write a buffer output if there is one to write. -/
def ScepOutputs.finishBuffer (o : ScepOutputs) (out : Option BufferPtr) :
    Option (Except Rc Bytes × σ) → Option ((Rc × ScepOutputs) × σ)
  | none => none
  | some (.error rc, w) => some ((rc, o), w)
  | some (.ok value, w) =>
      some ((.ok, match out with | some address => o.setBuffer address value | none => o), w)

/-- Parse the response into the outputs of the call. -/
def scepParse (env : WolfCrypt σ) (s : ScepSession) (resp : HttpResponse) (c : ScepArgs)
    (o : ScepOutputs) (w : σ) : Option ((Rc × ScepOutputs) × σ) :=
  if s.inOp = .getNextCaCert ∧ resp.statusCode = 404 then some ((.errNotFound, o), w)
  else if resp.statusCode ≠ 200 then some ((.errHttp, o), w)
  else
    match s.inOp with
    | .getCaCaps =>
        some ((.ok, match c.capsOut with
          | some address => o.setCaps address (scepFinishCaps resp.body)
          | none => o), w)
    | .getCaCert => o.finishBuffer c.bufOut (scepFinishCaCert env resp c.enc w)
    | .getNextCaCert =>
        o.finishBuffer c.bufOut (verifyNextCaResponse env resp.body s.inCaBundle c.enc w)
    | _ =>
        match c.resOut with
        | none => none
        | some address =>
            match scepFinish env s resp.body (o.results address) w with
            | none => none
            | some ((rc, out), w) =>
                if rc = .ok ∧ s.inOp = .getCert ∧ out.status = .success then
                  (scepCheckGetCert env s out w).map fun ((rc, out), w) =>
                    ((rc, o.setResult address out), w)
                else some ((rc, o.setResult address out), w)

def scepSessionFinish (env : WolfCrypt σ) (x : ScepClient σ) (c : ScepArgs) :
    Option (Rc × ScepClient σ) :=
  match scepParse env x.session x.inResp c x.outputs x.world with
  | none => none
  | some ((rc, o), w) => some (rc, scepSessionReset { x with outputs := o, world := w })

def scepSessionSend (env : WolfCrypt σ) (x : ScepClient σ) (c : ScepArgs) (nb : Bool) :
    Option (Rc × ScepClient σ) :=
  match httpSessionCall env.toEnv x.exchange x.session.inReq inRespAddr nb with
  | none => none
  | some (rc, e) =>
      let x := x.moved e
      if nb ∧ rc.isWant then some (rc, x)
      else if rc = .ok then
        scepSessionFinish env { x with session := scepSessionFreeRequest x.session } c
      else some (rc, scepSessionReset x)

def scepSessionCall (env : WolfCrypt σ) (x : ScepClient σ) (c : ScepArgs) (nb : Bool) :
    Option (Rc × ScepClient σ) :=
  if scepCallOut c = none then some (.errBadArg, x)
  else
    let x := scepCallClear x c
    if x.session.inActive ∧ nb = false then some (.errBadArg, x)
    else if x.session.inActive then
      if scepSessionResumeCheck x.session c = .ok then scepSessionSend env x c nb
      else some (scepSessionResumeCheck x.session c, x)
    else if scepCallCheck c ≠ .ok then some (scepCallCheck c, x)
    else
      match scepSessionBegin env x c nb with
      | none => none
      | some (.ok, x) => scepSessionSend env x c nb
      | some (rc, x) => some (rc, x)

/-- What the four PKIOperations of the session interface share. -/
structure PkiArgs where
  caps : Option ScepCaps
  raCert : Bytes
  caBundle : Bytes
  key : Option ScepKey
  out : Option Nat
deriving DecidableEq, Repr

/-- The calls of the session interface, each blocking or not. -/
inductive ScepCall where
  | getCaCaps (out : Option Nat)
  | getCaCert (enc : Encoding) (out : Option BufferPtr)
  | getNextCaCert (enc : Encoding) (currentCa : Bytes) (out : Option BufferPtr)
  | pkcsReq (pki : PkiArgs) (csr : Bytes)
  | renewalReq (pki : PkiArgs) (currentCert : Option Bytes) (csr : Bytes)
  | getCertInitial (pki : PkiArgs) (signerCert : Option Bytes) (csr transactionId : Bytes)
  | getCert (pki : PkiArgs) (signerCert : Option Bytes) (serial : Bytes)
deriving DecidableEq, Repr

def PkiArgs.args (p : PkiArgs) (op : ScepOp) : ScepArgs :=
  { op, caps := p.caps, raCert := p.raCert, caBundle := p.caBundle, key := p.key, resOut := p.out }

/-- The arguments an interface call passes on. -/
def ScepCall.args : ScepCall → ScepArgs
  | .getCaCaps out => { op := .getCaCaps, capsOut := out }
  | .getCaCert enc out => { op := .getCaCert, enc, bufOut := out }
  | .getNextCaCert enc currentCa out => { op := .getNextCaCert, enc, caBundle := currentCa, bufOut := out }
  | .pkcsReq p csr => { p.args .pkcsReq with csr }
  | .renewalReq p currentCert csr => { p.args .renewal with cert := currentCert, csr }
  | .getCertInitial p signerCert csr transactionId =>
      { p.args .getCertInitial with cert := signerCert, csr, txid := transactionId }
  | .getCert p signerCert serial => { p.args .getCert with cert := signerCert, serial }

/-- `wolfcert_scep_session_*` and their `_nb` forms. -/
def scepSession (env : WolfCrypt σ) (x : ScepClient σ) (call : ScepCall) (nb : Bool) :
    Option (Rc × ScepClient σ) :=
  scepSessionCall env x call.args nb

/-- Begin a request on a session that has no HTTP session yet. -/
def scepSessionBeginAlone (env : WolfCrypt σ) (s : ScepSession) (c : ScepArgs) (o : ScepOutputs) :
    Prog σ Rc ScepSession := fun w =>
  match scepSessionBegin env ⟨s, .opened ⟨[], [], 0, [], false⟩ 0, .zero, o, w⟩ c false with
  | none => none
  | some (.ok, x) => some (.ok x.session, x.world)
  | some (rc, x) => some (.error rc, x.world)

/-- What a one-shot call does before it sends: it connects only once its request is built. -/
def scepOneShotConnect (env : WolfCrypt σ) (srv : ServerCfg) (opts : ScepOpts) (c : ScepArgs)
    (o : ScepOutputs) : Prog σ Rc (ScepSession × HttpSession) := do
  if scepCallCheck c ≠ .ok then Prog.fail (scepCallCheck c)
  else
    let s ← scepSessionNew env srv opts
    let s ← scepSessionBeginAlone env s c o
    let http ← scepSessionConnect env s srv
    pure (s, httpSessionSetClose http)

/-- One request on a session of its own, closed afterwards. -/
def scepOneShot (env : WolfCrypt σ) (srv : ServerCfg) (opts : ScepOpts) (c : ScepArgs)
    (o : ScepOutputs) (w : σ) : Option ((Rc × ScepOutputs) × σ) :=
  if scepCallOut c = none then some ((.errBadArg, o), w)
  else
    let o := o.clear c
    match scepOneShotConnect env srv opts c o w with
    | none => none
    | some (.error rc, w) => some ((rc, o), w)
    | some (.ok (s, http), w) =>
        (scepSessionSend env ⟨s, http, .zero, o, w⟩ c false).map fun (rc, x) => ((rc, x.outputs), x.world)

end WolfCert.Scep
