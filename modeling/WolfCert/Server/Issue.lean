import Mathlib.Algebra.Ring.Nat
import WolfCert.Csr
import WolfCert.Server.Start

/-!
# Issuing a certificate

`wolfcert_ca_issue`: the CSR is parsed and its signature checked, and its subject, alternative names
and key go into a certificate that the CA signs.
-/

namespace WolfCert.Server

open WolfCert.CLib

/-- What `wolfcert_ca_issue` reads of a parsed CSR: the parts of the subject and how each is encoded,
and its key, whose algorithm is `none` for an OID that is not supported. -/
structure DecodedCsr where
  identity : CertIdentity
  subject : NameField → Bytes
  subjectEnc : NameField → UInt8
  keyAlg : Option KeyAlg
  publicKey : Bytes

/-- The certificate under construction; `issuer` is the certificate its issuer name is taken from. An
encoding that is `none` is as `wc_InitCert` leaves it. -/
structure NewCert where
  subject : CertName
  subjectEnc : NameField → Option UInt8
  issuer : Bytes
  sigType : SigType
  altNames : Bytes
  altNamesCrit : Bool

structure IssueCrypto (σ : Type) extends CsrCrypto σ where
  parseCsr : Bytes → σ → Except WcErr DecodedCsr × σ
  setIssuerBuffer : Bytes → σ → Except WcErr Unit × σ
  pubDecode : KeyAlg → Bytes → σ → Except WcErr Bytes × σ
  makeIssued : NewCert → KeyAlg → Bytes → Nat → σ → Except WcErr Bytes × σ
  pkcs7AddCertificate : Bytes → σ → Except WcErr Unit × σ
  pkcs7SetDegenerate : σ → Except WcErr Unit × σ
  encodeDegenerate : List Bytes → Nat → σ → Except WcErr Bytes × σ

variable {σ : Type} (env : IssueCrypto σ)

/-- The loop over the GeneralNames; every turn reads a tag. -/
def sanTypesFrom (san : Bytes) (stop : Nat) : Nat → Nat → Bool
  | 0, _ => false
  | fuel + 1, idx =>
      if idx < stop then
        match env.asn.getTag san idx stop with
        | none => false
        | some (tag, idx) =>
            match env.asn.getLength san idx stop with
            | none => false
            | some (len, idx) =>
                if tag ∈ [0x81, 0x82, 0x86, 0x87, 0x88] then sanTypesFrom san stop fuel (idx + len)
                else false
      else true

def sanTypesIssuable (san : Bytes) : Bool :=
  match expectTlv env.asn 0x30 san 0 san.length with
  | none => false
  | some (len, idx) => sanTypesFrom env san (idx + len) (san.length + 1) idx

/-- The alternative names of the CSR, byte for byte. -/
def copyCsrSan (dc : CertIdentity) : Except Rc Bytes :=
  match findSan env.asn dc with
  | .error _ => .error .errParse
  | .ok none => .ok []
  | .ok (some san) =>
      if san.length > env.altNamesSize then .error .errUnsupported
      else if sanTypesIssuable env san = false then .error .errUnsupported
      else .ok san

/-- The parts of a subject that are copied, in their order. -/
def subjectParts (hasCertExt : Bool) : List NameField :=
  [.commonName, .org, .unit, .country, .state, .locality, .street, .sur, .givenName, .email,
    .serialDev, .userId, .postalCode] ++ if hasCertExt then [.busCat] else []

/-- A part that is too long is refused, an empty one is left out, and the e-mail address keeps the
encoding of the generator. -/
def copySubjectParts (dc : DecodedCsr) :
    List NameField → CertName → (NameField → Option UInt8) →
      Except Rc (CertName × (NameField → Option UInt8))
  | [], subject, enc => .ok (subject, enc)
  | field :: rest, subject, enc =>
      if dc.subject field = [] then copySubjectParts dc rest subject enc
      else if (dc.subject field).length ≥ env.ctcNameSize then .error .errBadArg
      else
        copySubjectParts dc rest (subject.set field (dc.subject field))
          (if field = .email then enc
           else fun f => if f = field then some (dc.subjectEnc field) else enc f)

def copyCsrSubject (dc : DecodedCsr) : Except Rc (CertName × (NameField → Option UInt8)) :=
  copySubjectParts env dc (subjectParts env.hasCertExt) .blank fun _ => none

/-- Why no certificate was issued: `wolfcert_ca_issue` reports the failure of four calls by a code of
its own, whatever they returned. -/
inductive IssueFault where
  | code (rc : Rc)
  | setIssuer (e : WcErr)
  | keyInit (e : WcErr)
  | pubDecode (e : WcErr)
  | initRng (e : WcErr)
deriving DecidableEq, Repr

def IssueFault.rc : IssueFault → Rc
  | .code rc => rc
  | .setIssuer _ | .keyInit _ | .initRng _ => .errCrypto
  | .pubDecode _ => .errParse

def decodeSubjectPubkey (keyAlg : Option KeyAlg) (spki : Bytes) : Prog σ IssueFault (KeyAlg × Bytes) :=
  match keyAlg with
  | none => Prog.fail (.code .errUnsupported)
  | some alg => do
      Prog.require (alg ∈ env.keyAlgs) (.code .errUnsupported)
      Prog.mapError .code (env.allocate 1)
      Prog.callMap .keyInit (env.keyInit alg)
      let impl ← Prog.callMap .pubDecode (env.pubDecode alg spki)
      pure (alg, impl)

def csrVerify (csrDer : Bytes) : Prog σ Rc Unit := do
  match ← Prog.call (env.parseIdentity .certreqType true csrDer) with
  | .parsed _ => pure ()
  | .failed .memoryE => Prog.fail .errMemory
  | .critExt _ | .failed _ => Prog.fail .errParse

/-- A size of zero is no error code: a certificate without bytes is returned then. -/
def caIssueCause (ca : Ca) (csrDer : Bytes) : Prog σ IssueFault Bytes := do
  Prog.require (ca.type ∈ env.keyAlgs) (.code .errUnsupported)
  let dc ← Prog.callMap (.code ∘ mapWcErr) (env.parseCsr csrDer)
  Prog.mapError .code (newCert env.toWolfCrypt)
  let (subject, subjectEnc) ← Prog.callMap .code fun w => (copyCsrSubject env dc, w)
  Prog.callMap .setIssuer (env.setIssuerBuffer ca.certDer)
  let altNames ← Prog.callMap .code fun w => (copyCsrSan env dc.identity, w)
  let (alg, impl) ← decodeSubjectPubkey env dc.keyAlg dc.publicKey
  let cap := csrDer.length + ca.certDer.length + env.derCapHint ca.type + 1024
  Prog.mapError .code (env.allocate cap)
  Prog.callMap .initRng env.initRng
  let body ← Prog.callMap (.code ∘ mapWcErr) (env.makeIssued
    { subject, subjectEnc, issuer := ca.certDer, sigType := ctcSigDefault ca.type, altNames
      altNamesCrit := dc.identity.extSubjAltNameCrit } alg impl cap)
  Prog.callMap (.code ∘ mapWcErr) (env.signCert ca.type ca.impl body cap)

def caIssue (ca : Ca) (csrDer : Bytes) : Prog σ Rc Bytes :=
  Prog.mapError IssueFault.rc (caIssueCause env ca csrDer)

/-! ## Certs-only messages -/

def validateCerts : List Bytes → Except Rc Unit
  | [] => .ok ()
  | der :: rest =>
      if der.length < 2 then .error .errBadArg
      else if charAt der ≠ 0x30 then .error .errParse
      else validateCerts rest

def addCertificates : List Bytes → Prog σ Rc Unit
  | [] => pure ()
  | der :: rest => do
      Prog.callMap mapWcErr (env.pkcs7AddCertificate der)
      addCertificates rest

/-- The library prepends each certificate it is given, so the last one is added first. -/
def pkcs7BuildCertsOnly (certs : List Bytes) : Prog σ Rc Bytes := do
  Prog.require (certs ≠ []) .errBadArg
  Prog.callMap id fun w => (validateCerts certs, w)
  env.newPkcs7
  addCertificates env certs.reverse
  Prog.callMap mapWcErr env.pkcs7SetDegenerate
  let cap := (certs.map List.length).sum + 512
  env.allocate cap
  Prog.callMap mapWcErr (env.encodeDegenerate certs cap)

theorem pkcs7BuildCertsOnly_single {cert p7 : Bytes} {w w' : σ}
    (run : pkcs7BuildCertsOnly env [cert] w = some (.ok p7, w')) :
    cert ≠ [] ∧ ∃ cap v, env.encodeDegenerate [cert] cap v = (.ok p7, w') := by
  simp only [pkcs7BuildCertsOnly, Prog.bind_ok_iff, Prog.callMap_ok_iff] at run
  obtain ⟨_, _, -, _, _, valid, _, _, -, _, _, -, _, _, -, _, _, -, encoded⟩ := run
  refine ⟨?_, _, _, encoded⟩
  rintro rfl
  simp [validateCerts] at valid

/-! A CA for concrete runs: every certificate has the one identity, and so has every request. -/

def exampleSanExtension : Bytes :=
  [0x30, 0x0C, 0x06, 0x03, 0x55, 0x1D, 0x11, 0x01, 0x01, 0xFF, 0x04, 0x02, 0x30, 0x00]

def exampleCertIdentity : CertIdentity where
  isCsr := false
  subjectRaw := some [7]
  extensions := [0xA3, 0x10, 0x30, 0x0E] ++ exampleSanExtension
  extSubjAltNameCrit := true

def exampleCsrIdentity : CertIdentity where
  isCsr := true
  subjectRaw := some [7]
  extensions := [0x30, 0x0E] ++ exampleSanExtension
  extSubjAltNameCrit := true

def exampleIssue : IssueCrypto Http.Wire where
  toCaCrypto :=
    { exampleStart.toCaCrypto with
      toWolfCrypt :=
        { exampleStart.toWolfCrypt with
          pemToDer := fun _ w => (.ok [0x30, 0], w), sbjRawSize := 64, ctcNameSize := 64 } }
  asn := exampleAsn
  parseIdentity kind _ _ w :=
    (.parsed (match kind with
      | .certType => exampleCertIdentity
      | .certreqType => exampleCsrIdentity), w)
  setDnsEntry _ _ w := (.ok (), w)
  setAltNamesFromList _ w := (.ok [], w)
  setReqKeyUsage _ w := (.ok (), w)
  setReqExtKeyUsage _ w := (.ok (), w)
  makeCertReq cert _ _ _ w :=
    (if cert.sbjRaw = [7] ∧ cert.altNames = [0x30, 0x00] ∧ cert.altNamesCrit = true then .ok [1]
     else .error .other, w)
  signReq _ _ _ body _ w := (.ok body, w)
  altNamesSize := 64
  hasCertExt := true
  parseCsr _ w := (.ok ⟨exampleCsrIdentity, fun _ => [], fun _ => 0, some .rsa, [4]⟩, w)
  setIssuerBuffer _ w := (.ok (), w)
  pubDecode _ spki w := (.ok spki, w)
  makeIssued _ _ _ _ w := (.ok [0x30, 0], w)
  pkcs7AddCertificate _ w := (.ok (), w)
  pkcs7SetDegenerate w := (.ok (), w)
  encodeDegenerate certs _ w := (.ok certs.flatten, w)

end WolfCert.Server
