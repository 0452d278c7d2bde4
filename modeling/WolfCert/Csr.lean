import Mathlib.Data.List.DropRight
import WolfCert.Asn
import WolfCert.Address
import WolfCert.Server.Ca

/-!
# Certificate requests

`csr.c`: the subject and the names of a request, and for a renewal those of the certificate it renews.
-/

namespace WolfCert

open WolfCert.CLib WolfCert.Server

/-- The members of wolfSSL's `CertName` a subject DN can set. -/
inductive NameField where
  | commonName
  | org
  | unit
  | country
  | state
  | locality
  | sur
  | givenName
  | email
  | serialDev
  | userId
  | postalCode
  | street
  | busCat
deriving DecidableEq, Repr

/-- The text of each member; a member that is not set is empty. -/
def CertName : Type := NameField → Bytes

def CertName.blank : CertName := fun _ => []

def CertName.set (subject : CertName) (field : NameField) (value : Bytes) : CertName :=
  fun f => if f = field then value else subject f

inductive SigType where
  | sha256wRsa
  | sha384wRsa
  | sha512wRsa
  | sha256wEcdsa
  | sha384wEcdsa
  | sha512wEcdsa
  | ed25519
  | ed448
  | mlDsa44
  | mlDsa65
  | mlDsa87
deriving DecidableEq, Repr

/-- wolfSSL's `Cert`, as far as a request sets it: `sbjRaw` up to its NUL, the `altNamesSz` bytes of
`altNames`, and in `others` the fields the library leaves as `wc_InitCert` does. -/
structure Cert where
  subject : CertName
  sbjRaw : Bytes
  altNames : Bytes
  altNamesCrit : Bool
  challengePw : Bytes
  keyUsage : Option Bytes
  extKeyUsage : Option Bytes
  sigType : SigType
  others : Bytes

def Cert.init : Cert where
  subject := .blank
  sbjRaw := []
  altNames := []
  altNamesCrit := false
  challengePw := []
  keyUsage := none
  extKeyUsage := none
  sigType := .sha256wRsa
  others := []

inductive SanKind where
  | dns
  | uri
  | rfc822
  | ip
deriving DecidableEq, Repr

/-- `wc_ParseCert`: a certificate with an unknown critical extension is reported, though decoded. -/
inductive IdentityParse where
  | parsed (dc : CertIdentity)
  | critExt (dc : CertIdentity)
  | failed (e : WcErr)
deriving DecidableEq, Repr

/-- What a request needs of wolfSSL: the parser, with or without a check of the signature, the list of
alternative names, and the encoder of a request with its signer. -/
structure CsrCrypto (σ : Type) extends CaCrypto σ where
  asn : Asn
  parseIdentity : CertKind → Bool → Bytes → σ → IdentityParse × σ
  setDnsEntry : SanKind → Bytes → σ → Except WcErr Unit × σ
  setAltNamesFromList : List (SanKind × Bytes) → σ → Except WcErr Bytes × σ
  setReqKeyUsage : Bytes → σ → Except WcErr Unit × σ
  setReqExtKeyUsage : Bytes → σ → Except WcErr Unit × σ
  makeCertReq : Cert → KeyAlg → Bytes → Nat → σ → Except WcErr Bytes × σ
  signReq : SigType → KeyAlg → Bytes → Bytes → Nat → σ → Except WcErr Bytes × σ
  altNamesSize : Nat
  hasCertExt : Bool

inductive Curve where
  | secp384r1
  | secp521r1
  | other
deriving DecidableEq, Repr

/-- `WolfCertKey`; the curve is of an ECC key alone and the size of an RSA key alone. -/
structure WolfCertKey where
  type : KeyAlg
  curve : Curve
  rsaBits : Nat
  impl : Bytes
deriving DecidableEq, Repr

/-- `WolfCertCertMeta`; an absent string or callback is NULL. -/
structure CertMeta (σ : Type) where
  subjectDn : Option Bytes
  sanDns : List Bytes
  sanIp : List Bytes
  sanUri : List Bytes
  sanEmail : List Bytes
  challengePassword : Option Bytes
  keyUsage : Option Bytes
  extendedKeyUsage : Option Bytes
  preferredHash : Nat
  customize : Option (Cert → σ → Except Rc Cert × σ)

variable {σ : Type} (env : CsrCrypto σ)

/-! ## The subject -/

def rdnFields (hasCertExt : Bool) : List (Bytes × NameField) :=
  [(ascii "CN", .commonName), (ascii "commonName", .commonName), (ascii "O", .org),
    (ascii "OU", .unit), (ascii "C", .country), (ascii "ST", .state), (ascii "L", .locality),
    (ascii "SN", .sur), (ascii "GN", .givenName), (ascii "emailAddress", .email),
    (ascii "serialNumber", .serialDev), (ascii "UID", .userId), (ascii "userId", .userId),
    (ascii "postalCode", .postalCode), (ascii "street", .street)] ++
  if hasCertExt then [(ascii "businessCategory", .busCat)] else []

def assignRdn (subject : CertName) (key val : Bytes) : Except Rc CertName :=
  match (rdnFields env.hasCertExt).find? (·.1 = key) with
  | none => .error .errUnsupported
  | some (_, field) =>
      if val.length ≥ env.ctcNameSize then .error .errBadArg
      else if (field = .country ∨ field = .serialDev) ∧ isPrintableString val = false then
        .error .errBadArg
      else if field = .email ∧ val.any (· ≥ 0x80) then .error .errBadArg
      else .ok (subject.set field val)

def trimWs (s : Bytes) : Bytes := (s.dropWhile isSpace).rdropWhile isSpace

/-- The loop over the elements of a DN; each takes a byte at least. -/
def parseRdns : Nat → Bytes → CertName → Except Rc CertName
  | 0, _, subject => .ok subject
  | fuel + 1, p, subject =>
      if p = [] then .ok subject
      else
        let (pair, next) := p.span (· ≠ 44)
        match strchr 61 pair with
        | none => .error .errParse
        | some eq =>
            let k := trimWs (pair.take (pair.length - eq.length))
            let v := trimWs (eq.drop 1)
            if k = [] ∨ v = [] then .error .errParse
            else
              match assignRdn env subject k v with
              | .error rc => .error rc
              | .ok subject =>
                  match next with
                  | [] => .ok subject
                  | _ :: p => parseRdns fuel p subject

def parseSubjectDn (dn : Option Bytes) (subject : CertName) : Except Rc CertName :=
  match dn with
  | none => .ok subject
  | some dn => parseRdns env dn.length dn subject

/-! ## The alternative names -/

def setEntries (kind : SanKind) : List Bytes → Prog σ Rc Unit
  | [] => pure ()
  | name :: rest => do
      Prog.callMap mapWcErr (env.setDnsEntry kind name)
      setEntries kind rest

def setIpEntries : List Bytes → Prog σ Rc (List Bytes)
  | [] => pure []
  | text :: rest =>
      match parseIp text with
      | none => Prog.fail .errParse
      | some ip => do
          Prog.callMap mapWcErr (env.setDnsEntry .ip ip)
          let ips ← setIpEntries rest
          pure (ip :: ips)

def buildSanSeq (info : CertMeta σ) (cert : Cert) : Prog σ Rc Cert := do
  setEntries env .dns info.sanDns
  setEntries env .uri info.sanUri
  setEntries env .rfc822 info.sanEmail
  let ips ← setIpEntries env info.sanIp
  let list := info.sanDns.map (SanKind.dns, ·) ++ info.sanUri.map (SanKind.uri, ·) ++
    info.sanEmail.map (SanKind.rfc822, ·) ++ ips.map (SanKind.ip, ·)
  let altNames ← Prog.callMap mapWcErr (env.setAltNamesFromList list)
  pure { cert with altNames }

/-! ## The signature -/

def sha2InBuild (bits : Nat) : Bool :=
  bits = 256 ∨ (bits = 384 ∧ env.hasSha384 = true) ∨ (bits = 512 ∧ env.hasSha512 = true)

def ecdsaSigForCurve (curve : Curve) : SigType :=
  if curve = .secp521r1 ∧ sha2InBuild env 512 = true then .sha512wEcdsa
  else if (curve = .secp521r1 ∨ curve = .secp384r1) ∧ sha2InBuild env 384 = true then .sha384wEcdsa
  else .sha256wEcdsa

def sigTypeForHash (type : KeyAlg) (preferredHash : Nat) : Option SigType :=
  match type, preferredHash with
  | .rsa, 256 => some .sha256wRsa
  | .rsa, 384 => some .sha384wRsa
  | .rsa, 512 => some .sha512wRsa
  | .ecc, 256 => some .sha256wEcdsa
  | .ecc, 384 => some .sha384wEcdsa
  | .ecc, 512 => some .sha512wEcdsa
  | _, _ => none

def ctcSigDefault : KeyAlg → SigType
  | .rsa => .sha256wRsa
  | .ecc => .sha256wEcdsa
  | .ed25519 => .ed25519
  | .ed448 => .ed448
  | .mldsa44 => .mlDsa44
  | .mldsa65 => .mlDsa65
  | .mldsa87 => .mlDsa87

def chooseSigType (key : WolfCertKey) (preferredHash : Nat) : Except Rc SigType :=
  match sigTypeForHash key.type preferredHash with
  | some sig => if sha2InBuild env preferredHash = true then .ok sig else .error .errUnsupported
  | none =>
      if key.type = .ecc then .ok (ecdsaSigForCurve env key.curve) else .ok (ctcSigDefault key.type)

/-! ## The identity of a renewed certificate -/

def bufferIsDer (buf : Bytes) : Bool := buf ≠ [] ∧ charAt buf = 0x30

/-- The DER form of a certificate that is given as PEM or DER. -/
def renewCertDer (renewCert : Bytes) : Prog σ Rc Bytes :=
  if bufferIsDer renewCert = true then pure renewCert
  else pemCertToDer env.toWolfCrypt renewCert

/-- A Name that is empty is left blank, and any other is copied into `sbjRaw` if a C string of that
size can hold it. -/
def copySubject (cert : Cert) (subjectRaw : Option Bytes) : Except Rc Cert :=
  match subjectRaw with
  | none => .error .errUnsupported
  | some [] => .ok { cert with subject := .blank, sbjRaw := [] }
  | some raw =>
      if raw.length ≥ env.sbjRawSize ∨ 0 ∈ raw then .error .errUnsupported
      else .ok { cert with sbjRaw := raw }

def copySan (cert : Cert) (dc : CertIdentity) : Except Rc Cert :=
  match findSan env.asn dc with
  | .error _ => .error .errParse
  | .ok san =>
      if (san.getD []).length > env.altNamesSize then .error .errUnsupported
      else .ok { cert with altNames := san.getD [], altNamesCrit := dc.extSubjAltNameCrit }

/-- Parse, and go on from what was found as `read` says. -/
def parseAs (read : IdentityParse → Except Rc CertIdentity) (kind : CertKind) (verify : Bool)
    (der : Bytes) : Prog σ Rc CertIdentity := fun w =>
  some (read (env.parseIdentity kind verify der w).1, (env.parseIdentity kind verify der w).2)

/-- Only the identity is read, so an unknown critical extension is fine. -/
def identityToRenew : IdentityParse → Except Rc CertIdentity
  | .parsed dc | .critExt dc => .ok dc
  | .failed _ => .error .errParse

def copyCertIdentity (cert : Cert) (renewCert : Bytes) : Prog σ Rc Cert := do
  let der ← renewCertDer env renewCert
  env.allocate 1
  let dc ← parseAs env identityToRenew .certType false der
  let cert ← Prog.callMap id fun w => (copySubject env cert dc.subjectRaw, w)
  Prog.callMap id fun w => (copySan env cert dc, w)

def csrMetaSetsIdentity (info : CertMeta σ) : Bool :=
  info.subjectDn ≠ none ∨ info.sanDns ≠ [] ∨ info.sanIp ≠ [] ∨ info.sanUri ≠ [] ∨ info.sanEmail ≠ []

def setChallengePw (cert : Cert) : Option Bytes → Prog σ Rc Cert
  | none => pure cert
  | some password => do
      Prog.require (password.length < env.ctcNameSize) .errBadArg
      pure { cert with challengePw := password }

def setUsage (set : Bytes → σ → Except WcErr Unit × σ) : Option Bytes → Prog σ Rc Unit
  | none => pure ()
  | some usage => Prog.callMap mapWcErr (set usage)

def runCustomize (cert : Cert) : Option (Cert → σ → Except Rc Cert × σ) → Prog σ Rc Cert
  | none => pure cert
  | some customize => Prog.callMap id (customize cert)

/-- What the meta data puts into a new `Cert`, its customize callback last. -/
def certOfMeta (info : CertMeta σ) : Prog σ Rc Cert := do
  let subject ← Prog.callMap id fun w => (parseSubjectDn env info.subjectDn .blank, w)
  let cert ← buildSanSeq env info { Cert.init with subject }
  let cert ← setChallengePw env cert info.challengePassword
  setUsage env.setReqKeyUsage info.keyUsage
  setUsage env.setReqExtKeyUsage info.extendedKeyUsage
  runCustomize { cert with keyUsage := info.keyUsage, extKeyUsage := info.extendedKeyUsage }
    info.customize

/-- A renewal takes its identity from the certificate, after the callback had its turn. -/
def renewIdentity (cert : Cert) : Option Bytes → Prog σ Rc Cert
  | none => pure cert
  | some renewCert => copyCertIdentity env cert renewCert

/-- Encode and sign the request. -/
def encodeCsr (key : WolfCertKey) (cert : Cert) (preferredHash : Nat) : Prog σ Rc Bytes := do
  Prog.require (key.type ∈ env.keyAlgs) .errUnsupported
  let sigType ← Prog.callMap id fun w => (chooseSigType env key preferredHash, w)
  let cert := { cert with sigType }
  let derCap :=
    if key.type = .rsa then (if key.rsaBits ≠ 0 then key.rsaBits else 4096) + 2048
    else env.derCapHint key.type + 1024
  let derCap := derCap + cert.altNames.length + cert.sbjRaw.length
  env.allocate derCap
  let body ← Prog.callMap mapWcErr (env.makeCertReq cert key.type key.impl derCap)
  Prog.callMap mapWcErr env.initRng
  let der ← Prog.callMap mapWcErr (env.signReq sigType key.type key.impl body derCap)
  -- a buffer that cannot be shrunk is handed out as it is
  let _ ← Prog.call fun w => env.alloc w der.length
  pure der

def csrBuildEx (key : WolfCertKey) (info : CertMeta σ) (renewCert : Option Bytes) :
    Prog σ Rc Bytes := do
  Prog.require (¬(renewCert ≠ none ∧ csrMetaSetsIdentity info = true)) .errBadArg
  newCert env.toWolfCrypt
  let cert ← certOfMeta env info
  let cert ← renewIdentity env cert renewCert
  encodeCsr env key cert info.preferredHash

end WolfCert
