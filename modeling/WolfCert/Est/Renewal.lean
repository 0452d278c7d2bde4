import WolfCert.Est.Server

/-!
# Renewal of a certificate

A request built to renew a certificate has the identity of that certificate, as the server compares it.
-/

namespace WolfCert.Est

open WolfCert.CLib WolfCert.Server

variable {σ : Type}

def sanName : Bytes := [0x55, 0x1D, 0x11]

/-- The extensions of a request in their encoded form: no bytes, or a SEQUENCE of them. -/
def EncodedExtensions (exts : List Extension) (encoded : Bytes) : Prop :=
  (exts = [] ∧ encoded = []) ∨ ∃ body, AreExtensions exts body ∧ IsTlv 0x30 body encoded

/-- The parsed request `dc` states the identity of `cert`: `sbjRaw`, or a blank subject as an empty
name, and the alternative names with their criticality in the one extension for them. -/
structure StatesIdentity (cert : Cert) (dc : CertIdentity) : Prop where
  isCsr : dc.isCsr = true
  subject : cert.sbjRaw ≠ [] → dc.subjectRaw = some cert.sbjRaw
  blank : cert.sbjRaw = [] → cert.subject = .blank → dc.subjectRaw.getD [] = []
  extensions : ∃ exts, EncodedExtensions exts dc.extensions ∧
    exts.filter (·.oid = sanName) =
      if cert.altNames = [] then [] else [⟨sanName, cert.altNamesCrit, cert.altNames⟩]
  crit : dc.extSubjAltNameCrit = true ↔ cert.altNames ≠ [] ∧ cert.altNamesCrit = true

/-- The parser finds `dc` in those bytes, without an error, whenever it is asked. -/
def ParsesTo (env : CsrCrypto σ) (kind : CertKind) (verify : Bool) (der : Bytes) (dc : CertIdentity) :
    Prop :=
  ∀ w, ∃ w', env.parseIdentity kind verify der w = (.parsed dc, w')

/-- wolfSSL writes the identity of a `Cert` into a request and parses back what it wrote, as long as
the fields that could add an extension of their own are not used. -/
def WritesIdentity (env : CsrCrypto σ) : Prop :=
  ∀ cert alg impl cap body csr u u' v v', cert.others = [] →
    env.makeCertReq cert alg impl cap u = (.ok body, u') →
    env.signReq cert.sigType alg impl body cap v = (.ok csr, v') →
    ∃ dc, ParsesTo env .certreqType true csr dc ∧ StatesIdentity cert dc

/-- The callback changes the fields for the subject and the alternative names alone. -/
def CustomizesIdentity (customize : Cert → σ → Except Rc Cert × σ) : Prop :=
  ∀ cert w cert' w', customize cert w = (.ok cert', w') →
    cert' = { cert with
      subject := cert'.subject, sbjRaw := cert'.sbjRaw, altNames := cert'.altNames
      altNamesCrit := cert'.altNamesCrit }

/-- A certificate, given as DER or PEM, that wolfSSL parses without error. Its alternative names are
absent or not empty, and absent ones are not critical. -/
structure Renewable (env : CsrCrypto σ) (renewCert der : Bytes) (pc : CertIdentity) : Prop where
  nonempty : der ≠ []
  asDer : bufferIsDer renewCert = true → renewCert = der
  asPem : bufferIsDer renewCert = false → ∀ w d w', env.pemToDer renewCert w = (.ok d, w') → d = der
  parses : ParsesTo env .certType false der pc
  notEmpty : findSan env.asn pc ≠ .ok (some [])
  absent : findSan env.asn pc = .ok none → pc.extSubjAltNameCrit = false

section Build

variable {env : CsrCrypto σ} {w w' : σ}

theorem buildSanSeq_others {info : CertMeta σ} {cert cert' : Cert}
    (run : buildSanSeq env info cert w = some (.ok cert', w')) : cert'.others = cert.others := by
  simp only [buildSanSeq, Prog.bind_ok_iff, Prog.callMap_ok_iff, Prog.pure_apply, Option.some.injEq,
    Prod.mk.injEq, Except.ok.injEq] at run
  obtain ⟨-, -, -, -, -, -, -, -, -, -, -, -, -, -, -, rfl, -⟩ := run
  rfl

/-- The meta data never reach the other fields. -/
theorem certOfMeta_others {info : CertMeta σ} {cert : Cert}
    (keeps : ∀ customize, info.customize = some customize → CustomizesIdentity customize)
    (run : certOfMeta env info w = some (.ok cert, w')) : cert.others = [] := by
  simp only [certOfMeta, Prog.bind_ok_iff] at run
  obtain ⟨subject, _, -, named, _, built, secret, _, challenged, _, _, -, _, _, -, custom⟩ := run
  have kept : secret.others = [] := by
    cases password : info.challengePassword with
    | none =>
        simp only [password, setChallengePw, Prog.pure_apply, Option.some.injEq, Prod.mk.injEq,
          Except.ok.injEq] at challenged
        rw [← challenged.1]
        exact buildSanSeq_others built
    | some text =>
        simp only [password, setChallengePw, Prog.bind_ok_iff, Prog.pure_apply, Option.some.injEq,
          Prod.mk.injEq, Except.ok.injEq] at challenged
        obtain ⟨-, -, -, rfl, -⟩ := challenged
        exact buildSanSeq_others built
  cases callback : info.customize with
  | none =>
      simp only [callback, runCustomize, Prog.pure_apply, Option.some.injEq, Prod.mk.injEq,
        Except.ok.injEq] at custom
      rw [← custom.1]
      exact kept
  | some customize =>
      simp only [callback, runCustomize, Prog.callMap_ok_iff] at custom
      rw [keeps customize callback _ _ _ _ custom]
      exact kept

/-- The DER form the request is taken from is that of the certificate. -/
theorem renewCertDer_eq {renewCert der found : Bytes} {pc : CertIdentity}
    (renewable : Renewable env renewCert der pc)
    (run : renewCertDer env renewCert w = some (.ok found, w')) : found = der := by
  unfold renewCertDer at run
  split at run
  · rename_i isDer
    simp only [Prog.pure_apply, Option.some.injEq, Prod.mk.injEq, Except.ok.injEq] at run
    rw [← run.1]
    exact renewable.asDer isDer
  · rename_i isPem
    simp only [pemCertToDer, Prog.bind_ok_iff, Prog.callMap_ok_iff, Prog.pure_apply, Option.some.injEq,
      Prod.mk.injEq, Except.ok.injEq] at run
    obtain ⟨_, _, -, _, _, decoded, _, _, -, rfl, -⟩ := run
    exact renewable.asPem (by simpa using isPem) _ _ _ decoded

/-- What a renewal puts into the `Cert`: the subject and the alternative names of the certificate. -/
structure TakesIdentity (env : CsrCrypto σ) (cert : Cert) (pc : CertIdentity) : Prop where
  subject : pc.subjectRaw = some cert.sbjRaw
  blank : cert.sbjRaw = [] → cert.subject = .blank
  altNames : ∃ san, findSan env.asn pc = .ok san ∧ cert.altNames = san.getD []
  crit : cert.altNamesCrit = pc.extSubjAltNameCrit

theorem copyCertIdentity_takes {renewCert der : Bytes} {pc : CertIdentity} {cert cert' : Cert}
    (renewable : Renewable env renewCert der pc)
    (run : copyCertIdentity env cert renewCert w = some (.ok cert', w')) :
    TakesIdentity env cert' pc ∧ cert'.others = cert.others := by
  simp only [copyCertIdentity, Prog.bind_ok_iff, Prog.callMap_ok_iff] at run
  obtain ⟨found, _, form, _, u, -, dc, _, parsed, named, _, subject, san⟩ := run
  obtain rfl := renewCertDer_eq renewable form
  obtain ⟨_, parse⟩ := renewable.parses u
  simp only [parseAs, parse, identityToRenew, Option.some.injEq, Prod.mk.injEq, Except.ok.injEq] at parsed
  obtain ⟨rfl, -⟩ := parsed
  have copied : named.others = cert.others ∧ pc.subjectRaw = some named.sbjRaw ∧
      (named.sbjRaw = [] → named.subject = .blank) := by
    unfold copySubject at subject
    split at subject
    · cases subject
    · rename_i raw
      cases subject
      exact ⟨rfl, raw, fun _ => rfl⟩
    · rename_i raw notEmpty whole
      split at subject
      · cases subject
      · cases subject
        exact ⟨rfl, whole, fun empty => absurd empty (by rintro rfl; exact notEmpty rfl)⟩
  unfold copySan at san
  split at san
  · cases san
  · rename_i names found
    split at san
    · cases san
    · cases san
      exact ⟨⟨copied.2.1, copied.2.2, ⟨names, found, rfl⟩, rfl⟩, copied.1⟩

/-- What a request that was built states, if its `Cert` has no other fields set. -/
theorem encodeCsr_states (writes : WritesIdentity env) {key : WolfCertKey} {cert : Cert} {hash : Nat}
    {csr : Bytes} (others : cert.others = [])
    (run : encodeCsr env key cert hash w = some (.ok csr, w')) :
    ∃ dc, ParsesTo env .certreqType true csr dc ∧ StatesIdentity cert dc := by
  simp only [encodeCsr, Prog.bind_ok_iff, Prog.callMap_ok_iff, Prog.pure_apply, Option.some.injEq,
    Prod.mk.injEq, Except.ok.injEq] at run
  obtain ⟨_, _, -, sigType, _, -, _, _, -, body, _, made, _, _, -, _, _, signed, _, _, -, rfl, -⟩ := run
  obtain ⟨dc, parses, states⟩ := writes { cert with sigType } _ _ _ _ _ _ _ _ _ others made signed
  exact ⟨dc, parses, states.isCsr, states.subject, states.blank, states.extensions, states.crit⟩

end Build

section Compare

variable {env : CsrCrypto σ} (lawful : env.asn.Lawful) {cert : Cert} {pc cc : CertIdentity}

include lawful in
/-- The walker finds in the request what the `Cert` holds. -/
theorem findSan_states (states : StatesIdentity cert cc) :
    findSan env.asn cc = .ok (if cert.altNames = [] then none else some cert.altNames) := by
  obtain ⟨exts, encoded, filtered⟩ := states.extensions
  have first : exts.find? (·.oid = sanName) =
      if cert.altNames = [] then none else some ⟨sanName, cert.altNamesCrit, cert.altNames⟩ := by
    rw [← List.head?_filter, filtered]
    split <;> rfl
  rcases encoded with ⟨rfl, empty⟩ | ⟨body, are, list⟩
  · rw [List.find?_nil] at first
    split at first
    · rename_i none_
      simp [findSan, empty, none_]
    · cases first
  · rw [findSan_csr lawful states.isCsr are list]
    change Except.ok ((exts.find? (·.oid = sanName)).map Extension.value) = _
    rw [first]
    split <;> rfl

include lawful in
/-- A request that states what was taken from a certificate has its identity. -/
theorem sameIdentity_of_states (takes : TakesIdentity env cert pc) (states : StatesIdentity cert cc)
    (notEmpty : findSan env.asn pc ≠ .ok (some []))
    (absent : findSan env.asn pc = .ok none → pc.extSubjAltNameCrit = false) :
    ∃ psan csan, findSan env.asn pc = .ok psan ∧ findSan env.asn cc = .ok csan ∧
      sameIdentity pc cc psan csan = true := by
  obtain ⟨san, found, names⟩ := takes.altNames
  have subject : pc.subjectRaw.getD [] = cc.subjectRaw.getD [] := by
    by_cases empty : cert.sbjRaw = []
    · rw [takes.subject, states.blank empty (takes.blank empty), empty]
      rfl
    · rw [takes.subject, states.subject empty]
  refine ⟨san, _, found, findSan_states lawful states, ?_⟩
  cases san with
  | none =>
      simp only [Option.getD_none] at names
      have crit : cc.extSubjAltNameCrit = false :=
        Bool.eq_false_iff.mpr fun set => (states.crit.mp set).1 names
      simp [sameIdentity, subject, absent found, crit, names]
  | some san =>
      simp only [Option.getD_some] at names
      have some_ : san ≠ [] := by
        rintro rfl
        exact notEmpty found
      have crit : pc.extSubjAltNameCrit = cc.extSubjAltNameCrit := by
        rw [Bool.eq_iff_iff, states.crit, takes.crit, names]
        exact ⟨fun set => ⟨some_, set⟩, fun both => both.2⟩
      simp [sameIdentity, subject, crit, names, some_]

end Compare

section Renewal

variable {env : EstServerEnv σ} {w w' : σ}

/-- A request built to renew a certificate passes the comparison with that certificate. -/
theorem reenrollIdentityCheck_renewal (lawful : env.asn.Lawful) (writes : WritesIdentity env.toCsrCrypto)
    (keeps : env.keepPeerCert = true) {key : WolfCertKey} {info : CertMeta σ} {renewCert der : Bytes}
    {pc : CertIdentity} {csr : Bytes}
    (customizes : ∀ customize, info.customize = some customize → CustomizesIdentity customize)
    (renewable : Renewable env.toCsrCrypto renewCert der pc)
    (built : csrBuildEx env.toCsrCrypto key info (some renewCert) w = some (.ok csr, w'))
    (srv : EstServer) {v : σ} (peer : (env.peerCertificate v).1 = der) :
    ∃ v', reenrollIdentityCheck env srv true csr v = some (.ok (), v') := by
  simp only [csrBuildEx, renewIdentity, Prog.bind_ok_iff] at built
  obtain ⟨_, _, -, _, _, -, fresh, _, made, cert, _, copied, encoded⟩ := built
  obtain ⟨takes, others⟩ := copyCertIdentity_takes renewable copied
  rw [certOfMeta_others customizes made] at others
  obtain ⟨cc, parses, states⟩ := encodeCsr_states writes others encoded
  obtain ⟨psan, csan, foundPeer, foundCsr, same⟩ :=
    sameIdentity_of_states lawful takes states renewable.notEmpty renewable.absent
  obtain ⟨v₁, parsedPeer⟩ := renewable.parses (env.peerCertificate v).2
  obtain ⟨v₂, parsedCsr⟩ := parses v₁
  refine ⟨v₂, ?_⟩
  simp only [reenrollIdentityCheck, Prog.bind_ok_iff, Prog.require_ok_iff, Prog.callMap_ok_iff,
    Prog.call_ok_iff, if_true]
  refine ⟨(), v, ⟨keeps, rfl⟩, der, _, Prod.ext peer rfl, (), _, ⟨renewable.nonempty, rfl⟩, pc, v₁, ?_,
    cc, v₂, ?_, psan, v₂, by rw [foundPeer], csan, v₂, by rw [foundCsr], same, rfl⟩
  · simp only [parseAs, parsedPeer, identityOf]
  · simp only [parseAs, parsedCsr, identityOf]

theorem exampleEst_writes : WritesIdentity exampleEst.toCsrCrypto := by
  intro cert alg impl cap body csr u u' v v' _ made signed
  have identity : cert.sbjRaw = [7] ∧ cert.altNames = [0x30, 0x00] ∧ cert.altNamesCrit = true := by
    by_contra other
    simp only [exampleEst, exampleIssue, if_neg other] at made
    cases made
  obtain ⟨subject, names, crit⟩ := identity
  refine ⟨exampleCsrIdentity, fun w => ⟨w, rfl⟩, rfl, fun _ => by rw [subject]; rfl,
    fun empty => by simp [subject] at empty, ?_, by simp [exampleCsrIdentity, names, crit]⟩
  refine ⟨[⟨sanName, true, [0x30, 0x00]⟩], .inr ⟨exampleSanExtension ++ [], ?_, ⟨64, by decide⟩⟩, ?_⟩
  · refine .cons ⟨[0x06, 0x03, 0x55, 0x1D, 0x11], [0x01, 0x01, 0xFF], [0x04, 0x02, 0x30, 0x00],
      ⟨64, by decide⟩, ⟨64, by decide⟩, ⟨64, by decide⟩, ⟨64, by decide⟩⟩ .nil
  · simp [names, crit]

def exampleKey : WolfCertKey where
  type := .rsa
  curve := .other
  rsaBits := 2048
  impl := [1]

/-- The callback of these meta data sets a subject of its own. -/
def exampleMeta : CertMeta Http.Wire where
  subjectDn := none
  sanDns := []
  sanIp := []
  sanUri := []
  sanEmail := []
  challengePassword := none
  keyUsage := none
  extendedKeyUsage := none
  preferredHash := 0
  customize := some fun cert w => (.ok { cert with sbjRaw := [9] }, w)

def exampleWire : Http.Wire := ⟨[], [], false, false⟩

theorem exampleEst_renewable :
    Renewable exampleEst.toCsrCrypto [0x2D] [0x30, 0] exampleCertIdentity where
  nonempty := by decide
  asDer := by decide
  asPem := by
    rintro - w d w' decoded
    cases decoded
    rfl
  parses w := ⟨w, rfl⟩
  notEmpty := by decide
  absent := by decide

/-- The certificate is given as PEM, and the callback does not change the identity of its renewal. -/
theorem reenrollIdentityCheck_renewal_pem :
    csrBuildEx exampleEst.toCsrCrypto exampleKey exampleMeta (some [0x2D]) exampleWire =
        some (.ok [1], exampleWire) ∧
      ∃ v', reenrollIdentityCheck exampleEst exampleEstServer true [1] exampleWire =
        some (.ok (), v') := by
  have built : csrBuildEx exampleEst.toCsrCrypto exampleKey exampleMeta (some [0x2D]) exampleWire =
      some (.ok [1], exampleWire) := by
    rfl
  refine ⟨built, reenrollIdentityCheck_renewal exampleAsn_lawful exampleEst_writes rfl ?_
    exampleEst_renewable built exampleEstServer rfl⟩
  rintro customize same cert w cert' w' ran
  cases same
  cases ran
  rfl

end Renewal

end WolfCert.Est
