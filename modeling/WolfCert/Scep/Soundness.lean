import WolfCert.Scep.InFlight

/-!
# What an accepted CertRep proves

`signedOf` and `certOf` say what a message and a certificate really are: the signed data with the
certificate its signature verifies under, and the decoded fields. `Sound` assumes that wolfCrypt
reports nothing else. Each check of `scep_finish` then becomes a fact about the reply.
-/

namespace WolfCert.Scep

open WolfCert.CLib WolfCert.Http

variable {σ : Type} {env : WolfCrypt σ} {signedOf : Bytes → Option SignedData}
  {certOf : CertKind → Bytes → Option DecodedCert} {w w' : σ}

/-- `wc_PKCS7_VerifySignedData` and `wc_ParseCert` report only what is so. -/
structure Sound (env : WolfCrypt σ) (signedOf : Bytes → Option SignedData)
    (certOf : CertKind → Bytes → Option DecodedCert) : Prop where
  verify : ∀ pki w signed w', env.verifySignedData false pki w = (.ok signed, w') →
    signedOf pki = some signed
  parse : ∀ kind der w dc w', env.parseCert kind der w = (.ok dc, w') → certOf kind der = some dc

/-- The value of a signed attribute. -/
def attrIn (attributes : List Attribute) (bit : ScepAttr) : Option Bytes :=
  attributes.findSome? fun a =>
    if scepAttrBit a = some bit then scepAttrValue bit a.value else none

/-- An attribute met before does not come again. -/
theorem parseAttributes_seen {wanted : ScepAttr → Bool} {attributes : List Attribute}
    {seen : List ScepAttr} {m m' : PkiMessage} {bit : ScepAttr} (member : bit ∈ seen)
    (run : parseAttributes env wanted attributes seen m w = some (.ok m', w')) :
    attrIn attributes bit = none := by
  induction attributes generalizing seen m w with
  | nil => rfl
  | cons a rest ih =>
      cases found : scepAttrBit a with
      | none =>
          simp only [parseAttributes, found] at run
          simpa [attrIn, found] using ih member run
      | some bit' =>
          simp only [parseAttributes, found, Prog.bind_ok_iff, Prog.require_ok_iff] at run
          obtain ⟨_, v, ⟨fresh, rfl⟩, run⟩ := run
          have different : bit' ≠ bit := fun same => fresh (same ▸ member)
          have later : attrIn rest bit = none := by
            cases read : scepAttrValue bit' a.value with
            | none => simp [read] at run
            | some value =>
                simp only [read, Prog.ite_apply] at run
                split at run
                · simp only [Prog.bind_ok_iff] at run
                  obtain ⟨_, _, -, run⟩ := run
                  exact ih (List.mem_cons_of_mem _ member) run
                · exact ih (List.mem_cons_of_mem _ member) run
          simpa [attrIn, found, different] using later

/-- The loop collects the value of every wanted attribute, and leaves the rest of the message alone. -/
theorem parseAttributes_sound {wanted : ScepAttr → Bool} {attributes : List Attribute}
    {seen : List ScepAttr} {m m' : PkiMessage}
    (run : parseAttributes env wanted attributes seen m w = some (.ok m', w')) :
    m'.envelope = m.envelope ∧ m'.signerCert = m.signerCert ∧
    ∀ bit, wanted bit = true → m'.get bit = (attrIn attributes bit).or (m.get bit) := by
  induction attributes generalizing seen m w with
  | nil =>
      cases run
      exact ⟨rfl, rfl, fun _ _ => rfl⟩
  | cons a rest ih =>
      cases found : scepAttrBit a with
      | none =>
          simp only [parseAttributes, found] at run
          obtain ⟨envelope, signer, values⟩ := ih run
          exact ⟨envelope, signer, fun bit asked => by simpa [attrIn, found] using values bit asked⟩
      | some bit' =>
          simp only [parseAttributes, found, Prog.bind_ok_iff, Prog.require_ok_iff] at run
          obtain ⟨_, v, -, run⟩ := run
          cases read : scepAttrValue bit' a.value with
          | none => simp [read] at run
          | some value =>
              simp only [read, Prog.ite_apply] at run
              split at run
              · simp only [Prog.bind_ok_iff] at run
                obtain ⟨_, _, -, run⟩ := run
                obtain ⟨envelope, signer, values⟩ := ih run
                refine ⟨by simpa using envelope, by simpa using signer, fun bit asked => ?_⟩
                rw [values bit asked, PkiMessage.get_set]
                by_cases same : bit' = bit
                · subst same
                  have once := parseAttributes_seen List.mem_cons_self run
                  have once : List.findSome? (fun a => if scepAttrBit a = some bit' then
                      scepAttrValue bit' a.value else none) rest = none := once
                  simp [once, attrIn, found, read]
                · simp [same, attrIn, found]
              · rename_i unwanted
                obtain ⟨envelope, signer, values⟩ := ih run
                refine ⟨envelope, signer, fun bit asked => ?_⟩
                have different : bit' ≠ bit := fun same => unwanted (same ▸ asked)
                rw [values bit asked]
                simp [different, attrIn, found]

/-- A parsed message is what was signed, with the certificate it was signed under. -/
theorem parsePkiMessage_sound (sound : Sound env signedOf certOf) {pki : Bytes} {m : PkiMessage}
    (run : parsePkiMessage env (fun _ => true) pki w = some (.ok m, w')) :
    ∃ signed, signedOf pki = some signed ∧ m.envelope = signed.content ∧
      m.signerCert = signed.verifyCert ∧ ∀ bit, m.get bit = attrIn signed.attributes bit := by
  obtain ⟨signed, _, _, _, verified, collected⟩ := parsePkiMessage_parts env run
  obtain ⟨envelope, signer, values⟩ := parseAttributes_sound collected
  refine ⟨signed, sound.verify _ _ _ _ verified, envelope, signer, fun bit => ?_⟩
  rw [values bit rfl]
  cases bit <;> simp [PkiMessage.get]

/-- The certificates of a bundle, one DER SEQUENCE after another. -/
def bundleCerts : Nat → Bytes → List Bytes
  | 0, _ => []
  | fuel + 1, bundle =>
      if derSeqLen bundle = 0 then []
      else bundle.take (derSeqLen bundle) :: bundleCerts fuel (bundle.drop (derSeqLen bundle))

/-- The public key of the signer is that of a certificate in the bundle. -/
def SignedBy (certOf : CertKind → Bytes → Option DecodedCert) (signer bundle : Bytes) : Prop :=
  ∃ dc cert dc', certOf .certType signer = some dc ∧ cert ∈ bundleCerts bundle.length bundle ∧
    certOf .certType cert = some dc' ∧ dc'.publicKey = dc.publicKey ∧ dc.publicKey ≠ []

theorem extractSpki_sound (sound : Sound env signedOf certOf) {kind : CertKind} {der spki : Bytes}
    (run : extractSpki env kind der w = some (.ok spki, w')) :
    ∃ dc, certOf kind der = some dc ∧ dc.publicKey = spki ∧ spki ≠ [] := by
  simp only [extractSpki, Prog.bind_ok_iff, Prog.callMap_ok_iff, Prog.require_ok_iff, Prog.pure_apply,
    Option.some.injEq, Prod.mk.injEq, Except.ok.injEq] at run
  obtain ⟨_, _, -, dc, _, parsed, _, _, ⟨nonempty, -⟩, _, _, -, rfl, -⟩ := run
  exact ⟨dc, sound.parse _ _ _ _ _ parsed, rfl, nonempty⟩

theorem matchBundle_sound (sound : Sound env signedOf certOf) {spki : Bytes} {fuel : Nat}
    {bundle : Bytes} (run : matchBundle env spki fuel bundle w = some (.ok (), w')) :
    ∃ cert dc, cert ∈ bundleCerts fuel bundle ∧ certOf .certType cert = some dc ∧
      dc.publicKey = spki := by
  induction fuel generalizing bundle w with
  | zero => cases run
  | succ fuel ih =>
      simp only [matchBundle, Prog.ite_apply] at run
      split at run
      · cases run
      · split at run
        · cases run
        · rename_i nonzero
          have later : ∀ v, matchBundle env spki fuel (bundle.drop (derSeqLen bundle)) v =
              some (.ok (), w') → ∃ cert dc, cert ∈ bundleCerts (fuel + 1) bundle ∧
                certOf .certType cert = some dc ∧ dc.publicKey = spki := by
            intro v run
            obtain ⟨cert, dc, member, known, same⟩ := ih run
            refine ⟨cert, dc, ?_, known, same⟩
            rw [bundleCerts, if_neg nonzero]
            exact List.mem_cons_of_mem _ member
          simp only [Prog.bind_ok_iff, Prog.attempt_ok_iff] at run
          obtain ⟨found, v, extracted, run⟩ := run
          split at run
          · cases run
          · exact later v run
          · simp only [Prog.ite_apply] at run
            split at run
            · rename_i same
              obtain ⟨dc, known, key, -⟩ := extractSpki_sound sound extracted
              refine ⟨_, dc, ?_, known, key.trans same⟩
              rw [bundleCerts, if_neg nonzero]
              exact List.mem_cons_self
            · exact later v run

theorem verifyRepSigner_sound (sound : Sound env signedOf certOf) {signer bundle : Bytes}
    (run : verifyRepSigner env signer bundle w = some (.ok (), w')) : SignedBy certOf signer bundle := by
  simp only [verifyRepSigner, Prog.bind_ok_iff, Prog.attempt_ok_iff] at run
  obtain ⟨_, _, -, found, v, extracted, run⟩ := run
  split at run
  · cases run
  · cases run
  · obtain ⟨dc, known, rfl, nonempty⟩ := extractSpki_sound sound extracted
    obtain ⟨cert, dc', member, known', same⟩ := matchBundle_sound sound run
    exact ⟨dc, cert, dc', known, member, known', same, nonempty⟩

/-- What a reply to the request with this transactionID, senderNonce and bundle has to be. -/
structure Authentic (certOf : CertKind → Bytes → Option DecodedCert) (txid nonce bundle : Bytes)
    (signed : SignedData) : Prop where
  messageType : attrIn signed.attributes .msgType = some (ascii "3")
  signer : SignedBy certOf signed.verifyCert bundle
  transactionId : attrIn signed.attributes .transId = some txid
  recipientNonce : attrIn signed.attributes .recipNonce = some nonce
  status : attrIn signed.attributes .pkiStatus = some (ascii "0") ∨
    attrIn signed.attributes .pkiStatus = some (ascii "2") ∨
    attrIn signed.attributes .pkiStatus = some (ascii "3")
  failInfo : attrIn signed.attributes .pkiStatus = some (ascii "2") →
    ∃ digit : Fin 5, attrIn signed.attributes .failInfo = some [48 + UInt8.ofNat digit]

theorem failInfoDigit_some {info : Option Bytes} (some' : (failInfoDigit info).isSome = true) :
    ∃ digit : Fin 5, info = some [48 + UInt8.ofNat digit] := by
  unfold failInfoDigit at some'
  split at some'
  · rename_i c
    split at some'
    · rename_i digit
      have low : 48 ≤ c.toNat := UInt8.le_iff_toNat_le.mp digit.1
      have high : c.toNat ≤ 52 := UInt8.le_iff_toNat_le.mp digit.2
      refine ⟨⟨c.toNat - 48, by omega⟩, ?_⟩
      congr 2
      apply UInt8.toNat_inj.mp
      simp
      omega
    · cases some'
  · cases some'

theorem scepCheckReply_sound (sound : Sound env signedOf certOf) {s : ScepSession} {body : Bytes}
    {m : PkiMessage} (run : scepCheckReply env s body w = some (.ok m, w')) :
    ∃ signed, signedOf body = some signed ∧ Authentic certOf s.inTxid s.inNonce s.inCaBundle signed ∧
      m.envelope = signed.content ∧ ∀ bit, m.get bit = attrIn signed.attributes bit := by
  simp only [scepCheckReply, Prog.bind_ok_iff, Prog.require_ok_iff, Prog.attempt_ok_iff] at run
  obtain ⟨m', w₁, parsed, _, w₂, ⟨checked, -⟩, verified, w₃, signedBy, run⟩ := run
  obtain ⟨signed, known, envelope, signer, values⟩ := parsePkiMessage_sound sound parsed
  split at run
  · cases run
  · cases run
  · simp only [Prog.bind_ok_iff, Prog.require_ok_iff, Prog.pure_apply, Option.some.injEq,
      Prod.mk.injEq, Except.ok.injEq] at run
    obtain ⟨_, _, ⟨nonce, -⟩, _, _, ⟨status, -⟩, _, _, ⟨failInfo, -⟩, rfl, -⟩ := run
    have type : m'.get .msgType = some (ascii "3") := by
      by_contra other
      simp only [PkiMessage.get] at other
      simp [checkCertRep, other] at checked
    have txid : m'.get .transId = some s.inTxid := by
      by_contra other
      simp only [PkiMessage.get] at other type
      simp [checkCertRep, other, type] at checked
    refine ⟨signed, known, ⟨?_, ?_, ?_, ?_, ?_, ?_⟩, envelope, values⟩
    · rw [← values]
      exact type
    · rw [← signer]
      exact verifyRepSigner_sound sound signedBy
    · rw [← values]
      exact txid
    · rw [← values]
      exact nonce.1
    · simp only [← values]
      exact status
    · intro failure
      rw [← values] at failure ⊢
      exact failInfoDigit_some (failInfo failure)

/-- What the result of an accepted reply says: it had been cleared before. -/
structure Reports (signed : SignedData) (out : ScepResult) : Prop where
  certPem : out.certPem ≠ [] ↔ out.status = .success
  success : out.status = .success ↔ attrIn signed.attributes .pkiStatus = some (ascii "0")
  failure : out.status = .failure ↔ attrIn signed.attributes .pkiStatus = some (ascii "2")
  pending : out.status = .pending ↔ attrIn signed.attributes .pkiStatus = some (ascii "3")

theorem scepOpenEnvelope_nonempty {s : ScepSession} {envelope pem : Bytes}
    (run : scepOpenEnvelope env s envelope w = some (.ok pem, w')) : pem ≠ [] := by
  simp only [scepOpenEnvelope, Prog.bind_ok_iff] at run
  obtain ⟨inner, v, -, extracted⟩ := run
  exact pkcs7CertsExtract_nonempty env extracted

theorem scepFinish_sound (sound : Sound env signedOf certOf) {s : ScepSession} {body : Bytes}
    {out : ScepResult} (run : scepFinish env s body .cleared w = some ((.ok, out), w')) :
    ∃ signed, signedOf body = some signed ∧ Authentic certOf s.inTxid s.inNonce s.inCaBundle signed ∧
      Reports signed out := by
  have distinct : ascii "0" ≠ ascii "2" ∧ ascii "0" ≠ ascii "3" ∧ ascii "2" ≠ ascii "3" := by decide
  simp only [scepFinish] at run
  split at run
  · cases run
  · rename_i failed
    cases run
    exact absurd rfl (scepCheckReply_raises env _ _ _ _ _ failed).1
  · rename_i m v checked
    obtain ⟨signed, known, authentic, -, values⟩ := scepCheckReply_sound sound checked
    have status : m.pkiStatus = attrIn signed.attributes .pkiStatus := values .pkiStatus
    refine ⟨signed, known, authentic, ?_⟩
    rw [status] at run
    split at run
    · rename_i pending
      cases run
      constructor <;> simp [pending, ScepResult.cleared, distinct.2.1.symm, distinct.2.2.symm]
    · rename_i settled
      split at run
      · rename_i failure
        cases run
        constructor <;> simp [failure, ScepResult.cleared, distinct.1.symm, distinct.2.2]
      · rename_i granted
        split at run
        · cases run
        · rename_i failed
          cases run
          exact absurd rfl (scepOpenEnvelope_raises env _ _ _ _ _ failed).1
        · rename_i pem v' opened
          cases run
          have nonempty := scepOpenEnvelope_nonempty opened
          rcases authentic.status with success | failure | pending
          · constructor <;> simp [success, nonempty, distinct.1, distinct.2.1]
          · exact absurd failure granted
          · exact absurd pending settled

/-- Some PEM entry of the returned certificates is a certificate of this issuer and serial. -/
def HoldsCert (env : WolfCrypt σ) (certOf : CertKind → Bytes → Option DecodedCert)
    (pem issuer serial : Bytes) : Prop :=
  ∃ entry der v v' dc, entry <:+ pem ∧ pemBegin <+: entry ∧ env.pemToDer entry v = (.ok der, v') ∧
    certOf .certType der = some dc ∧ dc.issuerRaw = some issuer ∧ dc.serial = serial

theorem HoldsCert.of_drop {pem issuer serial : Bytes} {n : Nat}
    (holds : HoldsCert env certOf (pem.drop n) issuer serial) : HoldsCert env certOf pem issuer serial := by
  obtain ⟨entry, der, v, v', dc, suffix, rest⟩ := holds
  exact ⟨entry, der, v, v', dc, suffix.trans (List.drop_suffix n pem), rest⟩

theorem pemCertToDer_sound {pem der : Bytes} (run : pemCertToDer env pem w = some (.ok der, w')) :
    ∃ v, env.pemToDer pem w = (.ok der, v) := by
  simp only [pemCertToDer, Prog.bind_ok_iff, Prog.require_ok_iff, Prog.callMap_ok_iff, Prog.pure_apply,
    Option.some.injEq, Prod.mk.injEq, Except.ok.injEq] at run
  obtain ⟨_, _, ⟨-, rfl⟩, _, v, decoded, _, _, -, rfl, -⟩ := run
  exact ⟨v, decoded⟩

theorem pemSearch_sound (sound : Sound env signedOf certOf) {issuer serial : Bytes} {fuel : Nat}
    {p : Bytes} (run : pemSearch env issuer serial fuel p w = some (.ok true, w')) :
    HoldsCert env certOf p issuer serial := by
  induction fuel generalizing p w with
  | zero => cases run
  | succ fuel ih =>
      simp only [pemSearch, Prog.ite_apply] at run
      split at run
      · cases run
      · split at run
        · exact (ih run).of_drop
        · rename_i here
          have begins : pemBegin <+: p := List.isPrefixOf_iff_prefix.mp (by simpa using here)
          simp only [Prog.bind_ok_iff, Prog.attempt_ok_iff] at run
          obtain ⟨decoded, v, tried, run⟩ := run
          split at run
          · cases run
          · exact (ih run).of_drop
          · rename_i der
            obtain ⟨u, decoded⟩ := pemCertToDer_sound tried
            simp only [Prog.bind_ok_iff, Prog.attempt_ok_iff] at run
            obtain ⟨parsed, v', tried', run⟩ := run
            split at run
            · cases run
            · exact (ih run).of_drop
            · rename_i dc
              simp only [Prog.ite_apply] at run
              split at run
              · rename_i found
                have known := sound.parse _ _ _ _ _ (Prog.callMap_ok_iff.mp tried')
                exact ⟨p, der, w, u, dc, List.suffix_rfl, begins, decoded, known, found.2.2.1, found.2.1⟩
              · exact (ih run).of_drop

/-- The issuer and serial that an IssuerAndSerial names. -/
theorem scepCheckGetCert_sound (sound : Sound env signedOf certOf) {s : ScepSession}
    {out out' : ScepResult} (run : scepCheckGetCert env s out w = some ((.ok, out'), w')) :
    out' = out ∧ ∃ issuer serial, parseIssuerAndSerial s.inIas = some (issuer, serial) ∧
      HoldsCert env certOf out.certPem issuer serial := by
  simp only [scepCheckGetCert] at run
  split at run
  · cases run
  · rename_i issuer serial named
    split at run
    · cases run
    · rename_i found
      cases run
      refine ⟨rfl, issuer, serial, named, ?_⟩
      simp only [pemHasCert, Prog.ite_apply] at found
      split at found
      · cases found
      · simp only [Prog.bind_ok_iff] at found
        obtain ⟨_, _, -, found⟩ := found
        exact pemSearch_sound sound found
    · cases run
    · rename_i failed
      cases run
      exact absurd rfl (pemHasCert_raises env _ _ _ _ _ _ failed).1

end WolfCert.Scep
