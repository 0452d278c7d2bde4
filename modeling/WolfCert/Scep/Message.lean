import WolfCert.Crypto
import WolfCert.Scep.Der

/-!
# SCEP messages

The pkiMessages of `scep_msg.c`: how they are built, parsed and checked.
-/

namespace WolfCert.Scep

open WolfCert.CLib

variable {σ : Type} (env : WolfCrypt σ)

def scepMaxMsgSz : Nat := 64 * 1024

def scepPkiSlack : Nat := 8 * 1024

def scepNonceSz : Nat := 16

/-- The six attributes of RFC 8894; the parser tracks each by a bit. -/
inductive ScepAttr where
  | msgType
  | pkiStatus
  | failInfo
  | transId
  | senderNonce
  | recipNonce
deriving DecidableEq, Repr

def ScepAttr.oid : ScepAttr → Bytes
  | .msgType => [0x06, 0x0A, 0x60, 0x86, 0x48, 0x01, 0x86, 0xF8, 0x45, 0x01, 0x09, 0x02]
  | .transId => [0x06, 0x0A, 0x60, 0x86, 0x48, 0x01, 0x86, 0xF8, 0x45, 0x01, 0x09, 0x07]
  | .senderNonce => [0x06, 0x0A, 0x60, 0x86, 0x48, 0x01, 0x86, 0xF8, 0x45, 0x01, 0x09, 0x05]
  | .recipNonce => [0x06, 0x0A, 0x60, 0x86, 0x48, 0x01, 0x86, 0xF8, 0x45, 0x01, 0x09, 0x06]
  | .pkiStatus => [0x06, 0x0A, 0x60, 0x86, 0x48, 0x01, 0x86, 0xF8, 0x45, 0x01, 0x09, 0x03]
  | .failInfo => [0x06, 0x0A, 0x60, 0x86, 0x48, 0x01, 0x86, 0xF8, 0x45, 0x01, 0x09, 0x04]

def scepAttrBit (a : Attribute) : Option ScepAttr :=
  [ScepAttr.msgType, .pkiStatus, .failInfo, .transId, .senderNonce, .recipNonce].find? fun bit =>
    a.oid == bit.oid

def ScepAttr.isText : ScepAttr → Bool
  | .msgType | .pkiStatus | .failInfo => true
  | .transId | .senderNonce | .recipNonce => false

/-- The single value of an attribute: the element at the front, or the first one of the SET around it,
and nothing behind it. A text attribute is a PrintableString without NUL. -/
def scepAttrValue (bit : ScepAttr) (v : Bytes) : Option Bytes :=
  let front : Option (Nat × UInt8 × Nat) := match derReadTlv v with
    | none => none
    | some (hdr, tag, vlen) =>
        if tag = 0x31 ∧ vlen > 0 then
          (derReadTlv ((v.drop hdr).take vlen)).map fun (inner, tag, vlen) => (hdr + inner, tag, vlen)
        else some (hdr, tag, vlen)
  match front with
  | none => none
  | some (voff, tag, vlen) =>
      let value := (v.drop voff).take vlen
      if vlen = 0 then none
      else if voff + vlen < v.length then none
      else if bit.isText ∧ (tag ≠ 0x13 ∨ value.contains 0) then none
      else some value

/-- The outputs of `wolfcert_scep_parse_pki_message`; an absent attribute is NULL. -/
structure PkiMessage where
  envelope : Bytes
  signerCert : Bytes
  messageType : Option Bytes
  pkiStatus : Option Bytes
  failInfo : Option Bytes
  transactionId : Option Bytes
  senderNonce : Option Bytes
  recipientNonce : Option Bytes
deriving DecidableEq, Repr

def PkiMessage.set (m : PkiMessage) (value : Bytes) : ScepAttr → PkiMessage
  | .msgType => { m with messageType := some value }
  | .pkiStatus => { m with pkiStatus := some value }
  | .failInfo => { m with failInfo := some value }
  | .transId => { m with transactionId := some value }
  | .senderNonce => { m with senderNonce := some value }
  | .recipNonce => { m with recipientNonce := some value }

def PkiMessage.get (m : PkiMessage) : ScepAttr → Option Bytes
  | .msgType => m.messageType
  | .pkiStatus => m.pkiStatus
  | .failInfo => m.failInfo
  | .transId => m.transactionId
  | .senderNonce => m.senderNonce
  | .recipNonce => m.recipientNonce

theorem PkiMessage.get_set (m : PkiMessage) (value : Bytes) (bit bit' : ScepAttr) :
    (m.set value bit').get bit = if bit' = bit then some value else m.get bit := by
  cases bit <;> cases bit' <;> rfl

@[simp] theorem PkiMessage.set_envelope (m : PkiMessage) (value : Bytes) (bit : ScepAttr) :
    (m.set value bit).envelope = m.envelope := by
  cases bit <;> rfl

@[simp] theorem PkiMessage.set_signerCert (m : PkiMessage) (value : Bytes) (bit : ScepAttr) :
    (m.set value bit).signerCert = m.signerCert := by
  cases bit <;> rfl

/-- The loop over the signed attributes; `wanted` are those the caller passes an output for. -/
def parseAttributes (wanted : ScepAttr → Bool) :
    List Attribute → List ScepAttr → PkiMessage → Prog σ Rc PkiMessage
  | [], _, m => pure m
  | a :: rest, seen, m =>
      match scepAttrBit a with
      | none => parseAttributes wanted rest seen m
      | some bit => do
          Prog.require (bit ∉ seen) .errProtocol
          match scepAttrValue bit a.value with
          | none => Prog.fail .errProtocol
          | some value =>
              if wanted bit then
                env.allocate (value.length + if bit.isText then 1 else 0)
                parseAttributes wanted rest (bit :: seen) (m.set value bit)
              else parseAttributes wanted rest (bit :: seen) m

def parsePkiMessage (wanted : ScepAttr → Bool) (pki : Bytes) : Prog σ Rc PkiMessage := do
  env.newPkcs7
  let signed ← Prog.callMap mapWcErr (env.verifySignedData false pki)
  if signed.content ≠ [] then env.allocate signed.content.length
  if signed.verifyCert ≠ [] then env.allocate signed.verifyCert.length
  parseAttributes env wanted signed.attributes []
    { envelope := signed.content, signerCert := signed.verifyCert, messageType := none
      pkiStatus := none, failInfo := none, transactionId := none, senderNonce := none
      recipientNonce := none }

/-- A parsed message comes from the attributes of what was verified. -/
theorem parsePkiMessage_parts {wanted : ScepAttr → Bool} {pki : Bytes} {m : PkiMessage} {w w' : σ}
    (run : parsePkiMessage env wanted pki w = some (.ok m, w')) :
    ∃ signed u u' v, env.verifySignedData false pki u = (.ok signed, u') ∧
      parseAttributes env wanted signed.attributes []
        { envelope := signed.content, signerCert := signed.verifyCert, messageType := none
          pkiStatus := none, failInfo := none, transactionId := none, senderNonce := none
          recipientNonce := none } v = some (.ok m, w') := by
  simp only [parsePkiMessage, Prog.bind_ok_iff, Prog.callMap_ok_iff, Prog.ite_apply] at run
  obtain ⟨_, u, -, signed, v, verified, run⟩ := run
  refine ⟨signed, u, v, ?_⟩
  split at run
  · simp only [Prog.bind_ok_iff, Prog.ite_apply] at run
    obtain ⟨_, _, -, run⟩ := run
    split at run
    · simp only [Prog.bind_ok_iff] at run
      obtain ⟨_, _, -, run⟩ := run
      exact ⟨_, verified, run⟩
    · exact ⟨_, verified, run⟩
  · split at run
    · simp only [Prog.bind_ok_iff] at run
      obtain ⟨_, _, -, run⟩ := run
      exact ⟨_, verified, run⟩
    · exact ⟨_, verified, run⟩

def checkCertRep (m : PkiMessage) (sentTid : Bytes) : Rc :=
  if m.messageType ≠ some (ascii "3") then .errProtocol
  else if m.transactionId ≠ some sentTid then .errProtocol
  else .ok

def extractSpki (kind : CertKind) (der : Bytes) : Prog σ Rc Bytes := do
  env.allocate 1
  let dc ← Prog.callMap (fun e => if e = .memoryE then .errMemory else .errParse)
    (env.parseCert kind der)
  Prog.require (dc.publicKey ≠ []) .errParse
  env.allocate dc.publicKey.length
  pure dc.publicKey

/-- The size of the DER SEQUENCE at the front, or zero. -/
def derSeqLen (p : Bytes) : Nat :=
  match derReadTlv p with
  | none => 0
  | some (hdr, tag, clen) => if tag ≠ 0x30 then 0 else hdr + clen

/-- Look for a key among the certificates of a bundle; each turn consumes one. -/
def matchBundle (spki : Bytes) : Nat → Bytes → Prog σ Rc Unit
  | 0, _ => Prog.fail .errAuth
  | fuel + 1, bundle =>
      if bundle = [] then Prog.fail .errAuth
      else
        let clen := derSeqLen bundle
        if clen = 0 then Prog.fail .errAuth
        else do
          match ← Prog.attempt (extractSpki env .certType (bundle.take clen)) with
          | .error .errMemory => Prog.fail .errMemory
          | .error _ => matchBundle spki fuel (bundle.drop clen)
          | .ok caSpki =>
              if caSpki = spki then pure () else matchBundle spki fuel (bundle.drop clen)

def verifyRepSigner (signerCert caBundle : Bytes) : Prog σ Rc Unit := do
  Prog.require (signerCert ≠ [] ∧ caBundle ≠ []) .errAuth
  match ← Prog.attempt (extractSpki env .certType signerCert) with
  | .error .errMemory => Prog.fail .errMemory
  | .error _ => Prog.fail .errAuth
  | .ok spki => matchBundle env spki caBundle.length caBundle

/-- A CA issues under its own name, an RA under its issuer's. -/
def issuingCaName (dc : DecodedCert) : Option Bytes := if dc.isCa then dc.subjectRaw else dc.issuerRaw

def issuerAndSubject (raCert csr : Bytes) : Prog σ Rc Bytes := do
  env.allocate 2
  let ic ← Prog.callMap (fun _ => .errParse) (env.parseCert .certType raCert)
  let sc ← Prog.callMap (fun _ => .errParse) (env.parseCert .certreqType csr)
  match issuingCaName ic, sc.subjectRaw with
  | some issuer, some subject => do
      Prog.require (issuer ≠ []) .errParse
      env.allocate (encTlvLen issuer.length + encTlvLen subject.length + 8)
      match encIssuerAndSubject issuer subject with
      | none => Prog.fail .errMemory
      | some der => pure der
  | _, _ => Prog.fail .errParse

def issuerAndSerial (raCert serial : Bytes) : Prog σ Rc Bytes := do
  Prog.require (serial ≠ []) .errBadArg
  env.allocate 1
  let ic ← Prog.callMap (fun _ => .errParse) (env.parseCert .certType raCert)
  match issuingCaName ic with
  | none => Prog.fail .errParse
  | some issuer => do
      Prog.require (issuer ≠ []) .errParse
      env.allocate (encTlvLen issuer.length + encTlvLen (encIntegerContentLen serial) + 8)
      match encIssuerAndSerial issuer serial with
      | none => Prog.fail .errMemory
      | some der => pure der

def envelop (raCert payload : Bytes) (cipher : ContentCipher) : Prog σ Rc Bytes := do
  env.newPkcs7
  let keyType ← Prog.callMap mapWcErr (env.pkcs7InitWithCert raCert)
  Prog.require (keyType = .rsa) .errUnsupported
  Prog.callMap (fun _ => .errCrypto) env.initRng
  env.allocate (payload.length + raCert.length + 4096)
  Prog.callMap mapWcErr (env.encodeEnvelopedData raCert cipher payload)

def deenvelop (recipientCert recipientKey envelope : Bytes) : Prog σ Rc Bytes := do
  Prog.require (envelope ≠ [] ∧ envelope.length ≤ scepMaxMsgSz) .errBadArg
  env.newPkcs7
  let _ ← Prog.callMap mapWcErr (env.pkcs7InitWithCert recipientCert)
  env.allocate (envelope.length + 4096)
  Prog.callMap mapWcErr (env.decodeEnvelopedData recipientCert recipientKey envelope)

/-- The transient signer of a request without a certificate. -/
def selfSignedRsa (key : Nat) (csr : Bytes) : Prog σ Rc Bytes := do
  Prog.require (csr ≠ [] ∧ csr.length ≤ scepMaxMsgSz) .errBadArg
  let granted ← Prog.call env.certNew
  Prog.require (granted = true) .errMemory
  env.allocate 1
  let dc ← Prog.callMap (fun _ => .errParse) (env.parseCert .certreqType csr)
  let raw := match dc.subjectRaw with
    | some name => if name ≠ [] ∧ name.length < env.sbjRawSize ∧ ¬name.contains 0 then some name else none
    | none => none
  let commonName :=
    if raw ≠ none then []
    else if dc.subjectCn ≠ [] then dc.subjectCn.take (env.ctcNameSize - 1)
    else ascii "SCEP Enrollee"
  Prog.callMap mapWcErr env.setKeyUsage
  Prog.callMap (fun _ => .errCrypto) env.initRng
  env.allocate (csr.length + 4096)
  Prog.callMap mapWcErr (env.makeSelfCert { nameRaw := raw, commonName } key)

/-- `WolfCertScepAttrs`; absent attributes are NULL. -/
structure ScepAttrs where
  messageType : Option Bytes
  transactionId : Option Bytes
  senderNonce : Option Bytes
  recipientNonce : Option Bytes
  pkiStatus : Option Bytes
  failInfo : Option Bytes
deriving DecidableEq, Repr

def encPrintableN (v : Bytes) (cap : Nat) : Except Rc Bytes :=
  if isPrintableString v = false then .error .errBadArg
  else
    match encTlv 0x13 v cap with
    | none => .error .errMemory
    | some encoded => .ok encoded

/-- One attribute of `build_signed_attribs`, into what is left of the scratch buffer. -/
def buildAttrib (bit : ScepAttr) (v : Bytes) (cap : Nat) : Except Rc Attribute :=
  match bit with
  | .senderNonce | .recipNonce =>
      match encOctet v cap with
      | none => .error .errMemory
      | some encoded => .ok { oid := bit.oid, value := encoded }
  | _ =>
      match encPrintableN v cap with
      | .error rc => .error rc
      | .ok encoded => .ok { oid := bit.oid, value := encoded }

def buildAttribs : List (ScepAttr × Option Bytes) → Nat → Except Rc (List Attribute)
  | [], _ => .ok []
  | (_, none) :: rest, cap => buildAttribs rest cap
  | (bit, some v) :: rest, cap =>
      match buildAttrib bit v cap with
      | .error rc => .error rc
      | .ok a =>
          match buildAttribs rest (cap - a.value.length) with
          | .error rc => .error rc
          | .ok more => .ok (a :: more)

/-- The attributes in the order they are written, over a scratch buffer of 1024 bytes. -/
def buildSignedAttribs (a : ScepAttrs) : Except Rc (List Attribute) :=
  buildAttribs
    [(.msgType, a.messageType), (.transId, a.transactionId), (.senderNonce, a.senderNonce),
      (.recipNonce, a.recipientNonce), (.pkiStatus, a.pkiStatus), (.failInfo, a.failInfo)] 1024

def buildPkiMessage (envelope signerCert signerKey : Bytes) (hashOid : HashOid) (attrs : ScepAttrs) :
    Prog σ Rc Bytes := do
  env.newPkcs7
  let _ ← Prog.callMap mapWcErr (env.pkcs7InitWithCert signerCert)
  Prog.callMap (fun _ => .errCrypto) env.initRng
  if envelope = [] then Prog.callMap mapWcErr env.pkcs7SetDetached
  match buildSignedAttribs attrs with
  | .error rc => Prog.fail rc
  | .ok attributes => do
      env.allocate (envelope.length + signerCert.length + scepPkiSlack)
      Prog.callMap mapWcErr (env.encodeSignedData
        { content := if envelope = [] then none else some envelope, certs := [signerCert]
          privateKey := signerKey, hashOid, attributes })

def verifyNextCaResponse (resp currentCa : Bytes) (enc : Encoding) : Prog σ Rc Bytes := do
  let m ← parsePkiMessage env (fun _ => false) resp
  verifyRepSigner env m.signerCert currentCa
  if enc = .der then pkcs7CertsToDer env m.envelope else pkcs7CertsToPem env m.envelope

section Codes

theorem parseAttributes_raises (wanted : ScepAttr → Bool) (attributes : List Attribute)
    (seen : List ScepAttr) (m : PkiMessage) :
    (parseAttributes env wanted attributes seen m).Raises Rc.Refuses := by
  induction attributes generalizing seen m with
  | nil => exact .pure m
  | cons a rest ih =>
      unfold parseAttributes
      split
      · exact ih seen m
      · refine .bind (.require _ ⟨by simp, rfl⟩) fun _ => ?_
        split
        · exact .fail ⟨by simp, rfl⟩
        · exact .ite (fun _ => .bind (env.allocate_raises _) fun _ => ih _ _) fun _ => ih _ m

theorem parsePkiMessage_raises (wanted : ScepAttr → Bool) (pki : Bytes) :
    (parsePkiMessage env wanted pki).Raises Rc.Refuses := by
  refine .bind env.newPkcs7_raises fun _ => .bind (.callMap mapWcErr_refuses _) fun signed => ?_
  refine .ite (fun _ => .bind (env.allocate_raises _) fun _ => ?_) fun _ => ?_ <;>
    exact .ite (fun _ => .bind (env.allocate_raises _) fun _ => parseAttributes_raises env _ _ _ _)
      fun _ => parseAttributes_raises env _ _ _ _

theorem matchBundle_raises (spki : Bytes) (fuel : Nat) (bundle : Bytes) :
    (matchBundle env spki fuel bundle).Raises Rc.Refuses := by
  induction fuel generalizing bundle with
  | zero => exact .fail ⟨by simp, rfl⟩
  | succ fuel ih =>
      refine .ite (fun _ => .fail ⟨by simp, rfl⟩) fun _ =>
        .ite (fun _ => .fail ⟨by simp, rfl⟩) fun _ => .bind (.attempt _) fun found => ?_
      split
      · exact .fail ⟨by simp, rfl⟩
      · exact ih _
      · exact .ite (fun _ => .pure ()) fun _ => ih _

theorem verifyRepSigner_raises (signerCert caBundle : Bytes) :
    (verifyRepSigner env signerCert caBundle).Raises Rc.Refuses := by
  refine .bind (.require _ ⟨by simp, rfl⟩) fun _ => .bind (.attempt _) fun found => ?_
  split
  · exact .fail ⟨by simp, rfl⟩
  · exact .fail ⟨by simp, rfl⟩
  · exact matchBundle_raises env _ _ _

theorem issuerAndSubject_raises (raCert csr : Bytes) :
    (issuerAndSubject env raCert csr).Raises Rc.Refuses := by
  refine .bind (env.allocate_raises _) fun _ =>
    .bind (.callMap (fun _ => ⟨by simp, rfl⟩) _) fun ic =>
      .bind (.callMap (fun _ => ⟨by simp, rfl⟩) _) fun sc => ?_
  split
  · refine .bind (.require _ ⟨by simp, rfl⟩) fun _ => .bind (env.allocate_raises _) fun _ => ?_
    split
    · exact .fail ⟨by simp, rfl⟩
    · exact .pure _
  · exact .fail ⟨by simp, rfl⟩

theorem issuerAndSerial_raises (raCert serial : Bytes) :
    (issuerAndSerial env raCert serial).Raises Rc.Refuses := by
  refine .bind (.require _ ⟨by simp, rfl⟩) fun _ => .bind (env.allocate_raises _) fun _ =>
    .bind (.callMap (fun _ => ⟨by simp, rfl⟩) _) fun ic => ?_
  split
  · exact .fail ⟨by simp, rfl⟩
  · refine .bind (.require _ ⟨by simp, rfl⟩) fun _ => .bind (env.allocate_raises _) fun _ => ?_
    split
    · exact .fail ⟨by simp, rfl⟩
    · exact .pure _

theorem envelop_raises (raCert payload : Bytes) (cipher : ContentCipher) :
    (envelop env raCert payload cipher).Raises Rc.Refuses :=
  .bind env.newPkcs7_raises fun _ => .bind (.callMap mapWcErr_refuses _) fun _ =>
    .bind (.require _ ⟨by simp, rfl⟩) fun _ => .bind (.callMap (fun _ => ⟨by simp, rfl⟩) _) fun _ =>
      .bind (env.allocate_raises _) fun _ => .callMap mapWcErr_refuses _

theorem deenvelop_raises (cert key envelope : Bytes) :
    (deenvelop env cert key envelope).Raises Rc.Refuses :=
  .bind (.require _ ⟨by simp, rfl⟩) fun _ => .bind env.newPkcs7_raises fun _ =>
    .bind (.callMap mapWcErr_refuses _) fun _ => .bind (env.allocate_raises _) fun _ =>
      .callMap mapWcErr_refuses _

theorem selfSignedRsa_raises (key : Nat) (csr : Bytes) :
    (selfSignedRsa env key csr).Raises Rc.Refuses :=
  .bind (.require _ ⟨by simp, rfl⟩) fun _ => .bind (.call _) fun _ =>
    .bind (.require _ ⟨by simp, rfl⟩) fun _ => .bind (env.allocate_raises _) fun _ =>
      .bind (.callMap (fun _ => ⟨by simp, rfl⟩) _) fun _ => .bind (.callMap mapWcErr_refuses _) fun _ =>
        .bind (.callMap (fun _ => ⟨by simp, rfl⟩) _) fun _ => .bind (env.allocate_raises _) fun _ =>
          .callMap mapWcErr_refuses _

theorem encPrintableN_error {v : Bytes} {cap : Nat} {rc : Rc}
    (failed : encPrintableN v cap = .error rc) : rc.Refuses := by
  unfold encPrintableN at failed
  repeat' split at failed
  all_goals cases failed
  all_goals exact ⟨by simp, rfl⟩

theorem buildAttrib_error {bit : ScepAttr} {v : Bytes} {cap : Nat} {rc : Rc}
    (failed : buildAttrib bit v cap = .error rc) : rc.Refuses := by
  unfold buildAttrib at failed
  split at failed
  all_goals split at failed
  all_goals cases failed
  all_goals first
    | exact ⟨by simp, rfl⟩
    | exact encPrintableN_error ‹_›

theorem buildAttribs_error {attrs : List (ScepAttr × Option Bytes)} {cap : Nat} {rc : Rc}
    (failed : buildAttribs attrs cap = .error rc) : rc.Refuses := by
  induction attrs generalizing cap with
  | nil => cases failed
  | cons attr rest ih =>
      obtain ⟨bit, value⟩ := attr
      cases value with
      | none => exact ih failed
      | some v =>
          simp only [buildAttribs] at failed
          split at failed
          · cases failed
            exact buildAttrib_error ‹_›
          · split at failed
            · cases failed
              exact ih ‹_›
            · cases failed

theorem buildPkiMessage_raises (envelope signerCert signerKey : Bytes) (hash : HashOid)
    (attrs : ScepAttrs) : (buildPkiMessage env envelope signerCert signerKey hash attrs).Raises
      Rc.Refuses := by
  have rest : Prog.Raises (match buildSignedAttribs attrs with
      | .error rc => Prog.fail rc
      | .ok attributes => do
          env.allocate (envelope.length + signerCert.length + scepPkiSlack)
          Prog.callMap mapWcErr (env.encodeSignedData
            { content := if envelope = [] then none else some envelope, certs := [signerCert]
              privateKey := signerKey, hashOid := hash, attributes }) : Prog σ Rc Bytes) Rc.Refuses := by
    split
    · exact .fail (buildAttribs_error ‹_›)
    · exact .bind (env.allocate_raises _) fun _ => .callMap mapWcErr_refuses _
  exact .bind env.newPkcs7_raises fun _ => .bind (.callMap mapWcErr_refuses _) fun _ =>
    .bind (.callMap (fun _ => ⟨by simp, rfl⟩) _) fun _ =>
      .ite (fun _ => .bind (.callMap mapWcErr_refuses _) fun _ => rest) fun _ => rest

theorem verifyNextCaResponse_raises (resp currentCa : Bytes) (enc : Encoding) :
    (verifyNextCaResponse env resp currentCa enc).Raises Rc.Refuses :=
  .bind (parsePkiMessage_raises env _ resp) fun _ => .bind (verifyRepSigner_raises env _ _) fun _ =>
    .ite (fun _ => pkcs7CertsExtract_raises env _ _) fun _ => pkcs7CertsExtract_raises env _ _

end Codes

/-- Whether a body begins as a PKCS#7 signedData, of definite or indefinite length. -/
def isSignedData (b : Bytes) : Bool :=
  let oid : Bytes := [0x06, 0x09, 0x2A, 0x86, 0x48, 0x86, 0xF7, 0x0D, 0x01, 0x07, 0x02]
  let hdr := if b.length < 2 ∨ b.getD 1 0 ≠ 0x80 then (derReadTlv b).map Prod.fst else some 2
  match hdr with
  | none => false
  | some hdr => b.headD 0 == 0x30 && oid.isPrefixOf (b.drop hdr)

end WolfCert.Scep
