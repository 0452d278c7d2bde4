import Mathlib.Data.List.DropRight
import WolfCert.Scep.Approval
import WolfCert.Scep.IssuerAnd
import WolfCert.Scep.RepSigner

/-!
# The registry of issued certificates

With GetCert enabled the server keeps what it issued, the last sixteen of them, and answers a GetCert by
serial number from there.
-/

namespace WolfCert.Scep

open WolfCert.CLib WolfCert.Server

variable {σ : Type}

/-! ## The end of a log -/

theorem evictOldest_rtake (log : List Bytes) :
    evictOldest (log.rtake scepIssuedMax) = log.rtake (scepIssuedMax - 1) := by
  have sixteen : scepIssuedMax = 16 := rfl
  simp only [evictOldest, List.rtake, List.length_drop, List.drop_drop, sixteen]
  by_cases full : 16 ≤ log.length
  · rw [if_pos (by omega)]
    congr 1
    omega
  · rw [if_neg (by omega)]
    congr 1
    omega

theorem evictOldest_append (log : List Bytes) (cert : Bytes) :
    evictOldest (log.rtake scepIssuedMax) ++ [cert] = (log ++ [cert]).rtake scepIssuedMax := by
  rw [evictOldest_rtake, show scepIssuedMax = scepIssuedMax - 1 + 1 from rfl, List.rtake_concat_succ]
  rfl

/-- The registry holds the last of all the certificates that were issued. -/
def Current (s : ScepWorld σ) : Prop := s.registry = (s.issued.map Prod.snd).rtake scepIssuedMax

def KeepsCurrent (s t : ScepWorld σ) : Prop := Current s → Current t

theorem KeepsCurrent.refl (s : ScepWorld σ) : KeepsCurrent s s := id

theorem KeepsCurrent.trans {s t u : ScepWorld σ} (first : KeepsCurrent s t) (second : KeepsCurrent t u) :
    KeepsCurrent s u :=
  fun current => second (first current)

theorem aside_keeps {ε α : Type} (p : Prog σ ε α) : (aside p).Respects KeepsCurrent := by
  intro s result t run
  obtain ⟨world, -, rfl⟩ := aside_eq run
  exact id

theorem aside_of {ε α : Type} {p : Prog σ ε α} {s : ScepWorld σ} {result : Except ε α} {v : σ}
    (ran : p s.world = some (result, v)) : aside p s = some (result, { s with world := v }) := by
  rw [aside, ran]
  rfl

/-! ## Messages -/

section Messages

variable {env : ScepServerEnv σ} {srv : ScepServer}

theorem sendCertRep_keeps (cert target tid snonce status : Bytes) (failInfo : Option Bytes) :
    (sendCertRep env srv cert target tid snonce status failInfo).Respects KeepsCurrent :=
  aside_keeps _

theorem failWith_keeps (rc : Rc) (tid snonce : Bytes) (failInfo : String) :
    (failWith env srv rc tid snonce failInfo).Respects KeepsCurrent :=
  .bind (.attempt (aside_keeps _)) .trans fun _ => .fail .refl _

/-- With memory to spare a certificate is recorded. -/
theorem record_ok (enabled : srv.scepEnableGetCert = true) (granted : ∀ w n, (env.alloc w n).1 = true)
    (cert : Bytes) (s : ScepWorld σ) :
    ∃ t, record env srv cert s = some (.ok (), t) ∧ t.registry = evictOldest s.registry ++ [cert] ∧
      t.issued = s.issued := by
  have given : ∀ n (u : ScepWorld σ), aside (env.allocate n) u =
      some (.ok (), { u with world := (env.alloc u.world n).2 }) :=
    fun n u => aside_of (WolfCrypt.allocate_granted granted n u.world)
  have ready : ∃ u, readyRegistry env s = some (.ok (), u) ∧ u.registry = s.registry ∧
      u.issued = s.issued := by
    cases made : s.registryReady with
    | true => exact ⟨s, by simp [readyRegistry, made, Prog.bind_ok_iff], rfl, rfl⟩
    | false =>
        refine ⟨{ s with registryReady := true, world := (env.alloc s.world scepIssuedMax).2 }, ?_, rfl, rfl⟩
        refine Prog.bind_ok_iff.mpr ⟨false, s, by rw [Prog.call, made], ?_⟩
        exact Prog.bind_ok_iff.mpr ⟨(), _, given _ s, rfl⟩
  obtain ⟨u, ran, registry, issued⟩ := ready
  refine ⟨{ u with registry := evictOldest u.registry ++ [cert], world := (env.alloc u.world cert.length).2 },
    ?_, by rw [registry], issued⟩
  rw [record, if_pos enabled, issuedRecord, Prog.bind_of_ok ran, Prog.bind_of_ok (given _ _)]
  rfl

theorem issueReply_keeps (enabled : srv.scepEnableGetCert = true) (granted : ∀ w n, (env.alloc w n).1 = true)
    (csr target cert tid snonce : Bytes) :
    (issueReply env srv csr target cert tid snonce).Respects KeepsCurrent := by
  intro s result t run current
  obtain ⟨u, recorded, registry, issued⟩ := record_ok enabled granted cert
    { s with issued := s.issued ++ [(⟨tid, csr, target⟩, cert)] }
  have sent : sendCertRep env srv cert target tid snonce (ascii "0") none u = some (result, t) := by
    rwa [issueReply, Prog.bind_of_ok rfl, Prog.bind_of_ok (Prog.attempt_ok_iff.mpr recorded)] at run
  refine sendCertRep_keeps _ _ _ _ _ _ _ _ _ sent ?_
  rw [Current, registry, issued, current, evictOldest_append]
  simp

theorem issueRefusal_keeps (fault : IssueFault) (tid snonce : Bytes) :
    (issueRefusal env srv fault tid snonce).Respects KeepsCurrent := by
  refine .bind (.call fun _ => id) .trans fun _ => ?_
  exact .ite (fun _ => .fail .refl _) fun _ => failWith_keeps _ _ _ _

theorem park_keeps (csr signer tid snonce : Bytes) :
    (park env srv csr signer tid snonce).Respects KeepsCurrent := by
  have ready : (readyItems env).Respects KeepsCurrent :=
    .bind (.call .refl) .trans fun _ => .ite (fun _ => .pure .refl _) fun _ =>
      .bind (aside_keeps _) .trans fun _ => .call fun _ => id
  have adds : ∀ e, (pendingAdd env e).Respects KeepsCurrent := fun e =>
    .bind (.call .refl) .trans fun _ => .bind (.require .refl _ _) .trans fun _ =>
      .bind ready .trans fun _ => .bind (aside_keeps _) .trans fun _ => .call fun _ => id
  refine .bind (.call .refl) .trans fun found => ?_
  split
  · refine .bind (.attempt (adds _)) .trans fun added => ?_
    split
    · exact aside_keeps _
    · exact aside_keeps _
  · refine .bind (.attempt (aside_keeps _)) .trans fun checked => ?_
    split
    · exact .fail .refl _
    · exact aside_keeps _
    · exact aside_keeps _

theorem handleGetCert_keeps (ias signer tid snonce : Bytes) :
    (handleGetCert env srv ias signer tid snonce).Respects KeepsCurrent := by
  refine .ite (fun _ => aside_keeps _) fun _ => .bind (.call .refl) .trans fun registry => ?_
  refine .bind (.attempt (aside_keeps _)) .trans fun named => ?_
  split
  · exact .fail .refl _
  · exact aside_keeps _
  · exact aside_keeps _

section Recording

variable (enabled : srv.scepEnableGetCert = true) (granted : ∀ w n, (env.alloc w n).1 = true)

include enabled granted

theorem issueAndReply_keeps (csr target tid snonce : Bytes) :
    (issueAndReply env srv csr target tid snonce).Respects KeepsCurrent := by
  refine .bind (.attempt (aside_keeps _)) .trans fun outcome => ?_
  split
  · exact .mapError _ (issueRefusal_keeps _ _ _)
  · exact .mapError _ (issueReply_keeps enabled granted _ _ _ _ _)

theorem handleEnroll_keeps (mt csr signer tid snonce : Bytes) :
    (handleEnroll env srv mt csr signer tid snonce).Respects KeepsCurrent := by
  refine .bind (.attempt (aside_keeps _)) .trans fun checked => ?_
  split
  · exact .fail .refl _
  · exact .fail .refl _
  · exact aside_keeps _
  · refine .bind (.attempt (aside_keeps _)) .trans fun challenged => ?_
    split
    · exact aside_keeps _
    · refine .ite (fun _ => ?_) fun _ => .mapError _ (issueAndReply_keeps enabled granted _ _ _ _)
      refine .bind (.attempt (aside_keeps _)) .trans fun verified => ?_
      split
      · exact .fail .refl _
      · exact aside_keeps _
      · exact park_keeps _ _ _ _

theorem releasePending_keeps (idx : Nat) (e : ScepPending) (tid snonce : Bytes) :
    (releasePending env srv idx e tid snonce).Respects KeepsCurrent := by
  have removes : (pendingRemove idx : Prog (ScepWorld σ) ScepRefusal Unit).Respects KeepsCurrent :=
    .call fun _ => id
  refine .bind (.attempt (issueAndReply_keeps enabled granted _ _ _ _)) .trans fun issued => ?_
  split
  · exact .bind removes .trans fun _ => .pure .refl _
  · exact .ite (fun _ => .bind removes .trans fun _ => .fail .refl _) fun _ => .fail .refl _

theorem handleGetCertInitial_keeps (ias signer tid snonce : Bytes) :
    (handleGetCertInitial env srv ias signer tid snonce).Respects KeepsCurrent := by
  refine .bind (.call .refl) .trans fun found => ?_
  split
  · exact aside_keeps _
  · refine .bind (.attempt (aside_keeps _)) .trans fun named => ?_
    split
    · exact .fail .refl _
    · exact aside_keeps _
    · refine .bind (.attempt (aside_keeps _)) .trans fun signed => ?_
      split
      · exact .fail .refl _
      · exact aside_keeps _
      · exact releasePending_keeps enabled granted _ _ _ _

theorem handleMessage_keeps (m : PkiMessage) (tid snonce mt payload : Bytes) :
    (handleMessage env srv m tid snonce mt payload).Respects KeepsCurrent :=
  .ite (fun _ => handleEnroll_keeps enabled granted _ _ _ _ _) fun _ =>
    .ite (fun _ => handleGetCertInitial_keeps enabled granted _ _ _ _) fun _ =>
      .ite (fun _ => handleGetCert_keeps _ _ _ _) fun _ => failWith_keeps _ _ _ _

theorem handlePkiOp_keeps (body : Bytes) : (handlePkiOp env srv body).Respects KeepsCurrent := by
  refine .bind (aside_keeps _) .trans fun m => ?_
  split
  · exact .fail .refl _
  · refine .bind (.attempt (aside_keeps _)) .trans fun opened => ?_
    split
    · exact failWith_keeps _ _ _ _
    · exact handleMessage_keeps enabled granted _ _ _ _ _

/-- The registry is the end of the list of all the certificates, over any history. -/
theorem history_current {bodies : List Bytes} {answers : List (Except ScepRefusal ScepReply)} {w : σ}
    {s : ScepWorld σ}
    (ran : history (fun s body => handlePkiOp env srv body s) (.fresh w) bodies = some (answers, s)) :
    Current s :=
  history_invariant (P := Current) (rfl : Current (.fresh w))
    (fun s body answer t current stepped => handlePkiOp_keeps enabled granted body s answer t stepped current)
    ran

end Recording

/-! ## GetCert -/

/-- The certificate parses to that serial number. -/
def HasSerial (certOf : CertKind → Bytes → Option DecodedCert) (n : Nat) (cert : Bytes) : Prop :=
  ∃ dc, certOf .certType cert = some dc ∧ dc.serial ≠ [] ∧ bigEndian dc.serial = n

/-- An IssuerAndSerialNumber: an issuer name and a number that is not negative, in whatever octets. -/
def NamesSerial (issuer : Bytes) (n : Nat) (ias : Bytes) : Prop :=
  ∃ octets name number, octets ≠ [] ∧ charAt octets &&& 0x80 = 0 ∧ bigEndian octets = n ∧
    IsElement 0x30 issuer name ∧ IsElement 0x02 octets number ∧ IsElement 0x30 (name ++ number) ias

section Lookup

variable {certOf : CertKind → Bytes → Option DecodedCert} (parsing : Parsing env.toWolfCrypt certOf)

/-- What the lookup compares: the octets of the serial number. -/
def reports (certOf : CertKind → Bytes → Option DecodedCert) (serial cert : Bytes) : Bool :=
  (certOf .certType cert).any fun dc => decide (dc.serial ≠ [] ∧ dc.serial = serial)

theorem reports_iff (magnitudes : ∀ cert dc, certOf .certType cert = some dc → intMagnitude dc.serial = dc.serial)
    {octets : Bytes} (filled : octets ≠ []) (cert : Bytes) :
    reports certOf (intMagnitude octets) cert = true ↔ HasSerial certOf (bigEndian octets) cert := by
  cases found : certOf .certType cert with
  | none => simp [reports, HasSerial, found]
  | some dc =>
      simp only [reports, HasSerial, found, Option.any_some, decide_eq_true_eq, Option.some.injEq,
        exists_eq_left']
      refine and_congr_right fun numbered => ?_
      rw [← magnitudes cert dc found, intMagnitude_eq_iff numbered filled, bigEndian_magnitude]

include parsing

theorem issuedFind_parsing (serial : Bytes) (registry : List Bytes) (w : σ) :
    ∃ w', issuedFind env serial registry w = some (.ok (registry.find? (reports certOf serial)), w') := by
  induction registry generalizing w with
  | nil => exact ⟨w, rfl⟩
  | cons cert rest ih =>
      let v := (env.parseCert .certType cert w).2
      obtain ⟨w', looked⟩ := ih v
      cases found : certOf .certType cert with
      | none =>
          obtain ⟨e, -, failed⟩ := parsing.refused found w
          have called : (Prog.call (env.parseCert .certType cert) : Prog σ Rc _) w = some (.ok (.error e), v) := by
            rw [Prog.call, failed]
          refine ⟨w', ?_⟩
          rw [issuedFind, Prog.bind_of_ok called]
          simp [looked, reports, found]
      | some dc =>
          have decides : reports certOf serial cert = decide (dc.serial ≠ [] ∧ dc.serial = serial) := by
            rw [reports, found]
            rfl
          rw [issuedFind, Prog.bind_of_ok (parsing.called found w)]
          simp only [Prog.ite_apply]
          by_cases same : dc.serial ≠ [] ∧ dc.serial = serial
          · rw [List.find?_cons_of_pos (by rw [decides]; exact decide_eq_true same)]
            exact ⟨v, if_pos same⟩
          · rw [List.find?_cons_of_neg (by rw [decides, decide_eq_true_eq]; exact same)]
            exact ⟨w', (if_neg same).trans looked⟩

theorem issuerNameMatches_parsing {cert issuer : Bytes} {ca : DecodedCert}
    (decoded : certOf .certType cert = some ca) (name : issuingCaName ca = some issuer) (filled : issuer ≠ [])
    (w : σ) : ∃ w', issuerNameMatches env cert issuer w = some (.ok true, w') := by
  have there : cert ≠ [] := by
    rintro rfl
    rw [parsing.nothing] at decoded
    cases decoded
  refine ⟨(env.parseCert .certType cert w).2, ?_⟩
  rw [issuerNameMatches, if_neg (not_or.mpr ⟨there, filled⟩), Prog.bind_of_ok (parsing.called decoded w)]
  simp only [name, decide_true]
  rfl

/-- The certificate for a GetCert is the first of the registry that has the serial number. -/
theorem findNamed_parsing {issuer octets name number ias : Bytes} {ca : DecodedCert}
    (decoded : certOf .certType srv.ca.certDer = some ca) (issues : issuingCaName ca = some issuer)
    (named : issuer ≠ []) (filled : octets ≠ []) (first : IsElement 0x30 issuer name)
    (second : IsElement 0x02 octets number) (whole : IsElement 0x30 (name ++ number) ias)
    (registry : List Bytes) (w : σ) :
    ∃ w', findNamed env srv ias registry w =
      some (.ok (registry.find? (reports certOf (intMagnitude octets))), w') := by
  have split : parseIssuerAndSerial ias = some (issuer, intMagnitude octets) := by
    rw [parseIssuerAndSerial, parseIssuerAnd_elements first second whole]
    exact if_neg filled
  obtain ⟨v, matched⟩ := issuerNameMatches_parsing parsing decoded issues named w
  obtain ⟨w', looked⟩ := issuedFind_parsing parsing (intMagnitude octets) registry v
  have names : getCertNames env srv ias w = some (.ok (some (intMagnitude octets)), v) := by
    rw [getCertNames, split]
    exact Prog.bind_of_ok matched
  exact ⟨w', by rw [findNamed, Prog.bind_of_ok names]; exact looked⟩

end Lookup

end Messages

/-! ## Histories -/

section Histories

variable {env : ScepServerEnv σ} {srv : ScepServer} {certOf : CertKind → Bytes → Option DecodedCert}

/-- A GetCert for the name the CA issues under and that serial number, as the body of a request. -/
structure GetCertFor (env : ScepServerEnv σ) (srv : ScepServer)
    (certOf : CertKind → Bytes → Option DecodedCert) (n : Nat) (body : Bytes) (w : σ) (m : PkiMessage)
    (tid snonce : Bytes) : Prop where
  ids : messageIds m = some (tid, snonce, ascii "21")
  received : ∃ ias issuer ca, Received env srv body w m ias ∧ NamesSerial issuer n ias ∧
    certOf .certType srv.ca.certDer = some ca ∧ issuingCaName ca = some issuer ∧ issuer ≠ []

theorem getCert_answered (enabled : srv.scepEnableGetCert = true) (parsing : Parsing env.toWolfCrypt certOf)
    (exposes : ExposesSigner env)
    (magnitudes : ∀ cert dc, certOf .certType cert = some dc → intMagnitude dc.serial = dc.serial)
    {n : Nat} {body tid snonce : Bytes} {m : PkiMessage} {s : ScepWorld σ}
    (asks : GetCertFor env srv certOf n body s.world m tid snonce) :
    ∃ world,
      (∃ cert ∈ s.registry, HasSerial certOf n cert ∧ handlePkiOp env srv body s =
        sendCertRep env srv cert m.signerCert tid snonce (ascii "0") none { s with world }) ∨
      ((∀ cert ∈ s.registry, ¬HasSerial certOf n cert) ∧ handlePkiOp env srv body s =
        sendPkiFailure env srv tid snonce "4" { s with world }) := by
  obtain ⟨ids, ias, issuer, ca, ⟨u, v, parsed, opened⟩, ⟨octets, name, number, filled, -, rfl, first, second, whole⟩,
    decoded, issues, named⟩ := asks
  have signed := parsePkiMessage_exposed exposes parsed
  obtain ⟨x, looked⟩ := findNamed_parsing parsing decoded issues named filled first second whole s.registry v
  have message : handlePkiOp env srv body s =
      handleGetCert env srv ias m.signerCert tid snonce { s with world := v } := by
    have other : ¬(ascii "21" = ascii "19" ∨ ascii "21" = ascii "17") ∧ ascii "21" ≠ ascii "20" := by decide
    rw [handlePkiOp, Prog.bind_of_ok (aside_of (Prog.mapError_ok_iff.mpr parsed))]
    simp only [ids]
    rw [openMessage, Prog.bind_of_ok (Prog.attempt_ok_iff.mpr (aside_of opened))]
    simp only [handleMessage, if_neg other.1, if_neg other.2, enabled, and_self, if_true]
  have answer : handleGetCert env srv ias m.signerCert tid snonce { s with world := v } =
      (s.registry.find? (reports certOf (intMagnitude octets))).elim
        (sendPkiFailure env srv tid snonce "4" { s with world := x })
        fun cert => sendCertRep env srv cert m.signerCert tid snonce (ascii "0") none { s with world := x } := by
    have tried : Prog.attempt (aside (findNamed env srv ias s.registry)) { s with world := v } =
        some ((.ok (.ok _) : Except ScepRefusal _), { s with world := x }) :=
      Prog.attempt_ok_iff.mpr (aside_of looked)
    rw [handleGetCert, if_neg signed, Prog.bind_of_ok rfl, Prog.bind_of_ok tried]
    cases s.registry.find? (reports certOf (intMagnitude octets)) with
    | none => rfl
    | some cert => rfl
  refine ⟨x, ?_⟩
  rw [message, answer]
  cases found : s.registry.find? (reports certOf (intMagnitude octets)) with
  | none =>
      refine .inr ⟨fun cert inside has => ?_, rfl⟩
      have absent := List.find?_eq_none.mp found cert inside
      exact absent ((reports_iff magnitudes filled cert).mpr has)
  | some cert =>
      exact .inl ⟨cert, List.mem_of_find?_eq_some found,
        (reports_iff magnitudes filled cert).mp (List.find?_some found), rfl⟩

/-- Over any history the registry is the end of the list of the certificates that were issued, at most sixteen
of them, and a GetCert is answered from there: by a certificate that has the serial number, or by badCertId if
there is none. -/
theorem get_cert_registry (enabled : srv.scepEnableGetCert = true) (parsing : Parsing env.toWolfCrypt certOf)
    (exposes : ExposesSigner env)
    (magnitudes : ∀ cert dc, certOf .certType cert = some dc → intMagnitude dc.serial = dc.serial)
    {bodies : List Bytes} {answers : List (Except ScepRefusal ScepReply)} {w : σ} {s : ScepWorld σ}
    (ran : history (fun s body => handlePkiOp env srv body s) (.fresh w) bodies = some (answers, s)) :
    (∃ evicted, s.issued.map Prod.snd = evicted ++ s.registry) ∧
    s.registry.length = min 16 s.issued.length ∧
    ∀ n body m tid snonce, GetCertFor env srv certOf n body s.world m tid snonce → ∃ world,
      (∃ cert ∈ s.registry, HasSerial certOf n cert ∧ handlePkiOp env srv body s =
        sendCertRep env srv cert m.signerCert tid snonce (ascii "0") none { s with world }) ∨
      ((∀ cert ∈ s.registry, ¬HasSerial certOf n cert) ∧ handlePkiOp env srv body s =
        sendPkiFailure env srv tid snonce "4" { s with world }) := by
  have current := history_current enabled parsing.granted ran
  refine ⟨?_, ?_, fun n body m tid snonce => getCert_answered enabled parsing exposes magnitudes⟩
  · rw [current]
    exact ⟨_, (List.take_append_drop _ _).symm⟩
  · rw [current, List.rtake, List.length_drop, List.length_map]
    have sixteen : scepIssuedMax = 16 := rfl
    omega

end Histories

/-! A wolfCrypt in which the body `[0]` is a PKCSReq and any other one a GetCert for the serial number 3,
written with a leading zero and a long length. -/

def registryCertOf (_ : CertKind) (der : Bytes) : Option DecodedCert :=
  if der = [] then none else some exampleCert

def registryServer : ScepServerEnv Http.Wire :=
  { exampleScep (.ok ()) with
    alloc := fun w _ => (true, w)
    parseCert := fun kind der w => ((registryCertOf kind der).elim (.error .asnParseE) .ok, w)
    verifySignedData := fun _ pki w => (.ok
      { content := if pki = [0] then [9] else [0x30, 0x08, 0x30, 0x01, 0x02, 0x02, 0x81, 0x02, 0x00, 0x03]
        certs := [], verifyCert := [0x30, 0]
        attributes :=
          [⟨ScepAttr.msgType.oid, [0x13, 0x02] ++ ascii (if pki = [0] then "19" else "21")⟩,
            ⟨ScepAttr.transId.oid, [0x13, 0x01, 0x41]⟩,
            ⟨ScepAttr.senderNonce.oid, [0x04, 0x10] ++ List.replicate 16 1⟩] }, w) }

theorem registryServer_parsing : Parsing registryServer.toWolfCrypt registryCertOf where
  granted _ _ := rfl
  parsed found w := by simp [registryServer, found]
  refused found w := ⟨.asnParseE, by decide, by simp [registryServer, found]⟩
  nothing _ := rfl

def registryScep : ScepServer := { exampleScepServer with scepRequireApproval := false }

def registryGetCert : PkiMessage where
  envelope := [0x30, 0x08, 0x30, 0x01, 0x02, 0x02, 0x81, 0x02, 0x00, 0x03]
  signerCert := [0x30, 0]
  messageType := some (ascii "21")
  pkiStatus := none
  failInfo := none
  transactionId := some [0x41]
  senderNonce := some (List.replicate 16 1)
  recipientNonce := none

theorem registryGetCert_asks (w : Http.Wire) :
    GetCertFor registryServer registryScep registryCertOf 3 [1] w registryGetCert [0x41]
      (List.replicate 16 1) := by
  refine ⟨by decide +kernel, registryGetCert.envelope, [2], exampleCert, ⟨w, w, rfl, rfl⟩, ?_, rfl, rfl, by decide⟩
  refine ⟨[0, 3], [0x30, 1, 2], [0x02, 0x81, 0x02, 0, 3], by decide, by decide, rfl, ?_, ?_, ?_⟩
  · exact ⟨[1], LengthOctets.short (n := 1) (by decide), rfl⟩
  · have long : LengthOctets (bigEndian [2]) [0x81, 2] := .long (by decide) (by decide)
    exact ⟨_, long, rfl⟩
  · exact ⟨[8], LengthOctets.short (n := 8) (by decide), rfl⟩

/-- Of seventeen certificates sixteen are there, and one of them is the answer to a GetCert. -/
theorem get_cert_registry_full :
    ∃ answers s, history (fun s body => handlePkiOp registryServer registryScep body s)
        (.fresh ⟨[], [], false, false⟩) (List.replicate 17 [0]) = some (answers, s) ∧
      s.registry.length = 16 ∧ ∃ world, ∃ cert ∈ s.registry, HasSerial registryCertOf 3 cert ∧
        handlePkiOp registryServer registryScep [1] s =
          sendCertRep registryServer registryScep cert [0x30, 0] [0x41] (List.replicate 16 1) (ascii "0") none
            { s with world } := by
  have ran : ((history (fun s body => handlePkiOp registryServer registryScep body s)
      (.fresh ⟨[], [], false, false⟩) (List.replicate 17 [0])).map fun (_, s) =>
        (s.issued.length, s.registry.getLast?)) = some (17, some [0x30, 0]) := by
    decide +kernel
  obtain ⟨⟨answers, s⟩, ran, same⟩ := Option.map_eq_some_iff.mp ran
  obtain ⟨count, last⟩ := Prod.mk.inj same
  have exposes : ExposesSigner registryServer := by
    intro pki w signed w' verified
    cases verified
    simp
  have magnitudes : ∀ cert dc, registryCertOf .certType cert = some dc →
      intMagnitude dc.serial = dc.serial := by
    intro cert dc found
    rw [registryCertOf] at found
    split at found
    · cases found
    · cases found
      rfl
  obtain ⟨-, size, answered⟩ := get_cert_registry (rfl : registryScep.scepEnableGetCert = true)
    registryServer_parsing exposes magnitudes ran
  refine ⟨answers, s, ran, by omega, ?_⟩
  obtain ⟨world, found | ⟨absent, -⟩⟩ := answered 3 [1] registryGetCert _ _ (registryGetCert_asks s.world)
  · exact ⟨world, found⟩
  · exact absurd ⟨exampleCert, rfl, by decide, rfl⟩ (absent [0x30, 0] (List.mem_of_getLast? last))

end WolfCert.Scep
