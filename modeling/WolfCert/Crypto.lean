import WolfCert.CLib.Prog
import WolfCert.Http.Stream

/-!
# wolfCrypt and the helpers around it

The calls into wolfCrypt are the world's to answer, like those of `Env`. Over them stand the helpers
of `internal.c` and `pkcs7_util.c`.
-/

namespace WolfCert

open WolfCert.CLib

/-- `WolfCertEncoding`; a caller may pass a number that is neither. -/
inductive Encoding where
  | pem
  | der
  | invalid (code : Nat)
deriving DecidableEq, Repr

inductive CertKind where
  | certType
  | certreqType
deriving DecidableEq, Repr

inductive KeyType where
  | rsa
  | ecc
  | ed25519
  | ed448
  | mlDsa
deriving DecidableEq, Repr

/-- The fields of `DecodedCert` the code reads; an absent name is NULL. -/
structure DecodedCert where
  publicKey : Bytes
  subjectRaw : Option Bytes
  issuerRaw : Option Bytes
  subjectCn : Bytes
  serial : Bytes
  isCa : Bool
deriving DecidableEq, Repr

structure Attribute where
  oid : Bytes
  value : Bytes
deriving DecidableEq, Repr

/-- A `PKCS7` after `wc_PKCS7_VerifySignedData`: what was signed, and `verifyCert`, the certificate
the signature verified under. Empty bytes are NULL. -/
structure SignedData where
  content : Bytes
  certs : List Bytes
  verifyCert : Bytes
  attributes : List Attribute
deriving DecidableEq, Repr

inductive HashOid where
  | sha256h
  | sha384h
  | sha512h
deriving DecidableEq, Repr

/-- What `wc_PKCS7_EncodeSignedData` is given; no content is a detached message. -/
structure SignRequest where
  content : Option Bytes
  certs : List Bytes
  privateKey : Bytes
  hashOid : HashOid
  attributes : List Attribute
deriving DecidableEq, Repr

inductive ContentCipher where
  | aes128Cbc
  | aes256Cbc
  | des3
deriving DecidableEq, Repr

/-- `Cert` as far as the self-signed signer sets it. -/
structure SelfCert where
  nameRaw : Option Bytes
  commonName : Bytes
deriving DecidableEq, Repr

/-- wolfCrypt over the world of `Env`, with the array sizes and algorithms it was built with. A byte
count that the library reports is the length of the bytes here, and a count of zero the empty list. -/
structure WolfCrypt (σ : Type) extends Http.Env σ where
  base64EncodeNoNlError : Bytes → WcErr
  base64Encode : Bytes → Except WcErr Bytes
  base64Decode : Bytes → Except WcErr Bytes
  pkcs7New : σ → Bool × σ
  pkcs7InitWithCert : Bytes → σ → Except WcErr KeyType × σ
  pkcs7SetDetached : σ → Except WcErr Unit × σ
  verifySignedData : Bool → Bytes → σ → Except WcErr SignedData × σ
  encodeSignedData : SignRequest → σ → Except WcErr Bytes × σ
  encodeEnvelopedData : Bytes → ContentCipher → Bytes → σ → Except WcErr Bytes × σ
  decodeEnvelopedData : Bytes → Bytes → Bytes → σ → Except WcErr Bytes × σ
  derToPem : Bytes → σ → Except WcErr Bytes × σ
  pemToDer : Bytes → σ → Except WcErr Bytes × σ
  parseCert : CertKind → Bytes → σ → Except WcErr DecodedCert × σ
  sha256Hash : Bytes → σ → Except WcErr Bytes × σ
  initRng : σ → Except WcErr Unit × σ
  generateBlock : Nat → σ → Except WcErr Bytes × σ
  rsaKeyToDer : Nat → σ → Except WcErr Bytes × σ
  certNew : σ → Bool × σ
  setKeyUsage : σ → Except WcErr Unit × σ
  makeSelfCert : SelfCert → Nat → σ → Except WcErr Bytes × σ
  sbjRawSize : Nat
  ctcNameSize : Nat
  hasSha384 : Bool
  hasSha512 : Bool
  hasAes256 : Bool
  hasDes3 : Bool

variable {σ α : Type} (env : WolfCrypt σ)

namespace WolfCrypt

def allocate (size : Nat) : Prog σ Rc Unit := do
  let granted ← Prog.call fun w => env.alloc w size
  Prog.require (granted = true) .errMemory

def newPkcs7 : Prog σ Rc Unit := do
  let granted ← Prog.call env.pkcs7New
  Prog.require (granted = true) .errMemory

theorem allocate_granted {env : WolfCrypt σ} (granted : ∀ w n, (env.alloc w n).1 = true) (size : Nat)
    (w : σ) : env.allocate size w = some (.ok (), (env.alloc w size).2) :=
  Prog.bind_ok_iff.mpr ⟨true, _, Prog.call_ok_iff.mpr (Prod.ext (granted w size) rfl),
    Prog.require_ok_iff.mpr ⟨rfl, rfl⟩⟩

theorem allocate_eq (size : Nat) (w : σ) :
    env.allocate size w = some (if (env.alloc w size).1 then .ok () else .error .errMemory,
      (env.alloc w size).2) := by
  cases asked : env.alloc w size with
  | mk granted v =>
      have made : (Prog.call fun w => env.alloc w size : Prog σ Rc Bool) w = some (.ok granted, v) :=
        Prog.call_ok_iff.mpr asked
      rw [WolfCrypt.allocate, Prog.bind_of_ok made]
      cases granted with
      | true => exact Prog.require_of rfl _ _
      | false => exact Prog.require_of_not (by decide) _ _

theorem allocate_ok_iff {size : Nat} {w w' : σ} {u : Unit} :
    env.allocate size w = some (.ok u, w') ↔ env.alloc w size = (true, w') := by
  rw [allocate_eq]
  cases env.alloc w size with
  | mk granted v => cases granted <;> simp

end WolfCrypt

def base64EncodeMime (input : Bytes) : Prog σ Rc Bytes := do
  env.allocate ((input.length + 2) / 3 * 4 + (input.length / 48 + 2) + 4)
  Prog.callMap mapWcErr fun w => (env.base64Encode input, w)

def base64Encode (input : Bytes) : Prog σ Rc Bytes := do
  env.allocate ((input.length + 2) / 3 * 4 + 4)
  Prog.callMap mapWcErr fun w =>
    match env.base64EncodeNoNl input with
    | none => (.error (env.base64EncodeNoNlError input), w)
    | some encoded => (.ok encoded, w)

def base64Decode (input : Bytes) : Prog σ Rc Bytes := do
  env.allocate (max input.length 4)
  Prog.callMap mapWcErr fun w => (env.base64Decode input, w)

def pemCertToDer (pem : Bytes) : Prog σ Rc Bytes := do
  Prog.require (pem ≠ []) .errBadArg
  let der ← Prog.callMap (fun e => if e = .memoryE then .errMemory else .errParse) (env.pemToDer pem)
  env.allocate der.length
  pure der

/-- Append to the accumulated buffer, doubling its capacity until both fit. -/
def accAppend (acc : Bytes) (cap : Nat) (data : Bytes) : Prog σ Rc (Bytes × Nat) :=
  let want := sizeAdd acc.length data.length
  if want > cap then fun w =>
    match Http.growCap want 64 (if cap ≠ 0 then cap else 2048) with
    | none => none
    | some grown => (do env.allocate grown; pure (acc ++ data, grown)) w
  else pure (acc ++ data, cap)

def appendCert (acc : Bytes) (cap : Nat) (der : Bytes) (asPem : Bool) : Prog σ Rc (Bytes × Nat) :=
  if asPem = false then accAppend env acc cap der
  else do
    env.allocate (der.length * 2 + 256)
    let pem ← Prog.callMap (fun _ => .errCrypto) (env.derToPem der)
    Prog.require (pem ≠ []) .errCrypto
    accAppend env acc cap pem

def appendCerts (asPem : Bool) : List Bytes → Bytes → Nat → Prog σ Rc Bytes
  | [], acc, _ => pure acc
  | der :: rest, acc, cap => do
      if der = [] then appendCerts asPem rest acc cap
      else
        let (acc, cap) ← appendCert env acc cap der asPem
        appendCerts asPem rest acc cap

def pkcs7CertsExtract (p7 : Bytes) (asPem : Bool) : Prog σ Rc Bytes := do
  Prog.require (p7 ≠ []) .errBadArg
  env.newPkcs7
  let signed ← Prog.callMap mapWcErr (env.verifySignedData true p7)
  let certs ← appendCerts env asPem signed.certs [] 0
  Prog.require (certs ≠ []) .errNotFound
  pure certs

def pkcs7CertsToPem (p7 : Bytes) : Prog σ Rc Bytes := pkcs7CertsExtract env p7 true

def pkcs7CertsToDer (p7 : Bytes) : Prog σ Rc Bytes := pkcs7CertsExtract env p7 false

theorem accAppend_ok {acc data : Bytes} {cap : Nat} {grown : Bytes × Nat} {w w' : σ}
    (run : accAppend env acc cap data w = some (.ok grown, w')) : grown.1 = acc ++ data := by
  by_cases grows : sizeAdd acc.length data.length > cap
  · have shape : accAppend env acc cap data w =
        match Http.growCap (sizeAdd acc.length data.length) 64 (if cap ≠ 0 then cap else 2048) with
        | none => none
        | some grown => (do env.allocate grown; pure (acc ++ data, grown) : Prog σ Rc _) w :=
      congrFun (if_pos grows) w
    rw [shape] at run
    split at run
    · cases run
    · obtain ⟨_, _, -, ended⟩ := Prog.bind_ok_iff.mp run
      cases ended
      rfl
  · have shape : accAppend env acc cap data w = some (.ok (acc ++ data, cap), w) := congrFun (if_neg grows) w
    rw [shape] at run
    cases run
    rfl

/-- A message with one certificate comes out as nothing but that, or its PEM. -/
theorem pkcs7CertsExtract_one {p7 cert certs : Bytes} {asPem : Bool} {w w' : σ}
    (one : ∀ {signed w w'}, env.verifySignedData true p7 w = (.ok signed, w') → signed.certs = [cert])
    (run : pkcs7CertsExtract env p7 asPem w = some (.ok certs, w')) :
    if asPem then ∃ v v', env.derToPem cert v = (.ok certs, v') else certs = cert := by
  simp only [pkcs7CertsExtract, Prog.bind_ok_iff, Prog.callMap_ok_iff, Prog.require_ok_iff, Prog.pure_apply,
    Option.some.injEq, Prod.mk.injEq, Except.ok.injEq] at run
  obtain ⟨_, _, -, _, _, -, signed, _, verified, certs, _, appended, _, _, ⟨nonempty, -⟩, rfl, -⟩ := run
  simp only [one verified, appendCerts, Prog.ite_apply] at appended
  split at appended
  · cases appended
    exact absurd rfl nonempty
  · obtain ⟨grown, _, appended, ended⟩ := Prog.bind_ok_iff.mp appended
    cases ended
    cases asPem with
    | false => exact accAppend_ok env appended
    | true =>
        simp only [appendCert, Bool.true_eq_false, if_false, Prog.bind_ok_iff, Prog.callMap_ok_iff] at appended
        obtain ⟨_, _, -, pem, _, made, _, _, -, joined⟩ := appended
        rw [if_pos rfl, accAppend_ok env joined]
        exact ⟨_, _, made⟩

/-- A bundle that was extracted holds something. -/
theorem pkcs7CertsExtract_nonempty {p7 certs : Bytes} {asPem : Bool} {w w' : σ}
    (run : pkcs7CertsExtract env p7 asPem w = some (.ok certs, w')) : certs ≠ [] := by
  simp only [pkcs7CertsExtract, Prog.bind_ok_iff, Prog.require_ok_iff, Prog.pure_apply,
    Option.some.injEq, Prod.mk.injEq, Except.ok.injEq] at run
  obtain ⟨-, -, -, -, -, -, signed, -, -, extracted, -, -, -, -, ⟨nonempty, -⟩, rfl, -⟩ := run
  exact nonempty

inductive Protocol where
  | est
  | scep
deriving DecidableEq, Repr

/-- The fields of `WolfCertServerCfg` a session is opened with, but for the TLS credentials that go to
the HTTP session as they are; an absent string is NULL. -/
structure ServerCfg where
  protocol : Protocol
  serverUrl : Option Bytes
  verifyServer : Bool
  timeoutMs : Int
  maxResponseBytes : Nat
  hasClientIdentity : Bool
  username : Option Bytes
  password : Option Bytes
  caId : Option Bytes
deriving DecidableEq, Repr

def strdup (s : Bytes) : Prog σ Rc Bytes := do
  env.allocate (s.length + 1)
  pure s

def strdupOpt : Option Bytes → Prog σ Rc (Option Bytes)
  | none => pure none
  | some s => do
      let copy ← strdup env s
      pure (some copy)

/-- The server URL of a configuration for the given protocol, and whether it is a TLS one. -/
def cfgServerUrl (srv : ServerCfg) (protocol : Protocol) : Prog σ Rc (Bytes × Bool) :=
  match srv.serverUrl with
  | none => Prog.fail .errBadArg
  | some url => do
      Prog.require (srv.protocol = protocol) .errBadArg
      let u ← Prog.callMap id fun w => Http.httpUrlParse env.toEnv w url
      pure (url, u.tls)

section Codes

theorem mapWcErr_refuses (e : WcErr) : (mapWcErr e).Refuses := by
  cases e <;> exact ⟨by simp [mapWcErr], rfl⟩

theorem WolfCrypt.allocate_raises (size : Nat) : (env.allocate size).Raises Rc.Refuses :=
  .bind (.call _) fun _ => .require _ ⟨by simp, rfl⟩

theorem WolfCrypt.newPkcs7_raises : env.newPkcs7.Raises Rc.Refuses :=
  .bind (.call _) fun _ => .require _ ⟨by simp, rfl⟩

theorem base64EncodeMime_raises (input : Bytes) : (base64EncodeMime env input).Raises Rc.Refuses :=
  .bind (env.allocate_raises _) fun _ => .callMap mapWcErr_refuses _

theorem base64Encode_raises (input : Bytes) : (base64Encode env input).Raises Rc.Refuses :=
  .bind (env.allocate_raises _) fun _ => .callMap mapWcErr_refuses _

theorem base64Decode_raises (input : Bytes) : (base64Decode env input).Raises Rc.Refuses :=
  .bind (env.allocate_raises _) fun _ => .callMap mapWcErr_refuses _

theorem accAppend_raises (acc : Bytes) (cap : Nat) (data : Bytes) :
    (accAppend env acc cap data).Raises Rc.Refuses := by
  refine .ite (fun _ => ?_) (fun _ => .pure _)
  intro w e w' run
  split at run
  · cases run
  · rename_i grown _
    have raises : (do env.allocate grown; pure (acc ++ data, grown) : Prog σ Rc _).Raises Rc.Refuses :=
      .bind (env.allocate_raises grown) fun _ => .pure _
    exact raises w e w' run

theorem appendCert_raises (acc : Bytes) (cap : Nat) (der : Bytes) (asPem : Bool) :
    (appendCert env acc cap der asPem).Raises Rc.Refuses :=
  .ite (fun _ => accAppend_raises env acc cap der) fun _ =>
    .bind (env.allocate_raises _) fun _ =>
      .bind (.callMap (fun _ => ⟨by simp, rfl⟩) _) fun _ =>
        .bind (.require _ ⟨by simp, rfl⟩) fun _ => accAppend_raises env acc cap _

theorem appendCerts_raises (asPem : Bool) (certs : List Bytes) (acc : Bytes) (cap : Nat) :
    (appendCerts env asPem certs acc cap).Raises Rc.Refuses := by
  induction certs generalizing acc cap with
  | nil => exact .pure acc
  | cons der rest ih =>
      exact .ite (fun _ => ih acc cap) fun _ =>
        .bind (appendCert_raises env acc cap der asPem) fun grown => ih grown.1 grown.2

theorem pkcs7CertsExtract_raises (p7 : Bytes) (asPem : Bool) :
    (pkcs7CertsExtract env p7 asPem).Raises Rc.Refuses :=
  .bind (.require _ ⟨by simp, rfl⟩) fun _ =>
    .bind env.newPkcs7_raises fun _ =>
      .bind (.callMap mapWcErr_refuses _) fun signed =>
        .bind (appendCerts_raises env asPem signed.certs [] 0) fun _ =>
          .bind (.require _ ⟨by simp, rfl⟩) fun _ => .pure _

end Codes

def isPrintableString (s : Bytes) : Bool :=
  s.all fun c =>
    (65 ≤ c && c ≤ 90) || (97 ≤ c && c ≤ 122) || (48 ≤ c && c ≤ 57) ||
      [32, 39, 40, 41, 43, 44, 45, 46, 47, 58, 61, 63].contains c

def hexEncode (upper : Bool) (input : Bytes) : Bytes :=
  let digits := if upper then ascii "0123456789ABCDEF" else ascii "0123456789abcdef"
  input.flatMap fun c : UInt8 => [digits.getD (c >>> 4).toNat 0, digits.getD (c &&& 15).toNat 0]

/-! A wolfCrypt for concrete runs over a plain connection: it never runs out of memory, finds the same
certificate and the same signed data in everything, and its TLS handshake always waits. -/

def exampleCert : DecodedCert where
  publicKey := [1]
  subjectRaw := some [2]
  issuerRaw := some [2]
  subjectCn := []
  serial := [3]
  isCa := true

def exampleCrypt (signed : SignedData) : WolfCrypt Http.Wire where
  toEnv :=
    { Http.wireEnv 0 some with
      setupTls := fun w _ => (.ok, w)
      sslConnect := fun w _ => (.error .wantRead, w) }
  base64EncodeNoNlError _ := .other
  base64Encode input := .ok input
  base64Decode input := .ok input
  pkcs7New w := (true, w)
  pkcs7InitWithCert _ w := (.ok .rsa, w)
  pkcs7SetDetached w := (.ok (), w)
  verifySignedData _ _ w := (.ok signed, w)
  encodeSignedData _ w := (.ok [7], w)
  encodeEnvelopedData _ _ payload w := (.ok payload, w)
  decodeEnvelopedData _ _ envelope w := (.ok envelope, w)
  derToPem der w := (.ok der, w)
  pemToDer pem w := (.ok pem, w)
  parseCert _ _ w := (.ok exampleCert, w)
  sha256Hash input w := (.ok input, w)
  initRng w := (.ok (), w)
  generateBlock n w := (.ok (List.replicate n 5), w)
  rsaKeyToDer _ w := (.ok [1], w)
  certNew w := (true, w)
  setKeyUsage w := (.ok (), w)
  makeSelfCert _ _ w := (.ok [0x30, 0], w)
  sbjRawSize := 0
  ctcNameSize := 0
  hasSha384 := true
  hasSha512 := true
  hasAes256 := true
  hasDes3 := true

def exampleCfg (protocol : Protocol) (url : Bytes) : ServerCfg where
  protocol := protocol
  serverUrl := some url
  verifyServer := true
  timeoutMs := 0
  maxResponseBytes := 0
  hasClientIdentity := false
  username := none
  password := none
  caId := none

end WolfCert
