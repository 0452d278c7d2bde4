import WolfCert.CLib.Trace
import WolfCert.Scep.Server
import WolfCert.Scep.Soundness

/-!
# Manual approval of SCEP requests

What one pkiMessage may do to the queue of the server, and the queue over any history of them.
-/

namespace WolfCert.Scep

open WolfCert.CLib WolfCert.Server

variable {σ : Type}

/-- The queue and its records are the same. -/
structure SameQueue (s t : ScepWorld σ) : Prop where
  pending : t.pending = s.pending
  parked : t.parked = s.parked
  issued : t.issued = s.issued
  faults : t.faults = s.faults

theorem SameQueue.refl (s : ScepWorld σ) : SameQueue s s := ⟨rfl, rfl, rfl, rfl⟩

theorem SameQueue.trans {s t u : ScepWorld σ} (first : SameQueue s t) (second : SameQueue t u) :
    SameQueue s u :=
  ⟨second.pending.trans first.pending, second.parked.trans first.parked,
    second.issued.trans first.issued, second.faults.trans first.faults⟩

/-! ## Replies -/

/-- A signed attribute that the parser reads that value from. -/
def SignedAttr (attributes : List Attribute) (bit : ScepAttr) (value : Bytes) : Prop :=
  ∃ a ∈ attributes, a.oid = bit.oid ∧ scepAttrValue bit a.value = some value

/-- A CertRep is signed by the server and names the transaction and the nonce it answers. -/
def Echoes (env : ScepServerEnv σ) (srv : ScepServer) (tid snonce : Bytes) : ScepReply → Prop
  | .text _ _ => True
  | .certRep _ message => ∃ content attributes w w',
      env.encodeSignedData ⟨content, [srv.repIdentity.certDer], srv.repIdentity.keyDer, .sha256h,
        attributes⟩ w = (.ok message, w') ∧
      SignedAttr attributes .transId tid ∧ SignedAttr attributes .recipNonce snonce

section Step

variable {env : ScepServerEnv σ} {srv : ScepServer} {tid snonce : Bytes}

theorem aside_eq {ε α : Type} {p : Prog σ ε α} {s t : ScepWorld σ} {result : Except ε α}
    (run : aside p s = some (result, t)) :
    ∃ world, p s.world = some (result, world) ∧ t = { s with world } := by
  obtain ⟨⟨_, world⟩, ran, same⟩ := Option.map_eq_some_iff.mp run
  cases same
  exact ⟨world, ran, rfl⟩

/-- The program leaves the queue alone and answers the transaction, if by a CertRep. -/
def Quiet (env : ScepServerEnv σ) (srv : ScepServer) (tid snonce : Bytes)
    (p : Prog (ScepWorld σ) ScepRefusal ScepReply) : Prop :=
  ∀ s answer t, p s = some (answer, t) → SameQueue s t ∧ Echoes env srv tid snonce (sentReply answer)

theorem Quiet.refuse (rc : Rc) : Quiet env srv tid snonce (Prog.fail (serverError rc)) := by
  intro s answer t run
  cases run
  exact ⟨.refl s, trivial⟩

theorem Quiet.after {ε α : Type} {first : Prog (ScepWorld σ) ε α}
    {next : Except ε α → Prog (ScepWorld σ) ScepRefusal ScepReply} (respects : first.Respects SameQueue)
    (rest : ∀ outcome, Quiet env srv tid snonce (next outcome)) :
    Quiet env srv tid snonce (Prog.attempt first >>= next) := by
  intro s answer t run
  obtain ⟨outcome, u, tried, ended⟩ := Prog.attempt_bind_cases run
  obtain ⟨same, echoes⟩ := rest outcome u answer t ended
  exact ⟨(respects s outcome u tried).trans same, echoes⟩

/-- The body is that message, from the world `w` on, and its envelope holds the payload. -/
def Received (env : ScepServerEnv σ) (srv : ScepServer) (body : Bytes) (w : σ) (m : PkiMessage)
    (payload : Bytes) : Prop :=
  ∃ u v, parsePkiMessage env.toWolfCrypt serverWants body w = some (.ok m, u) ∧
    deenvelop env.toWolfCrypt srv.repIdentity.certDer srv.repIdentity.keyDer m.envelope u =
      some (.ok payload, v)

def SameKey (env : ScepServerEnv σ) (a b : Bytes) : Prop :=
  ∃ w dc w' v dc' v', env.parseCert .certType a w = (.ok dc, w') ∧
    env.parseCert .certType b v = (.ok dc', v') ∧ dc.publicKey = dc'.publicKey ∧ dc.publicKey ≠ []

/-- The payload names the CA and the subject of the CSR. -/
def NamesRequest (env : ScepServerEnv σ) (srv : ScepServer) (payload csr : Bytes) : Prop :=
  ∃ issuer subject, parseIssuerAndSubject payload = some (issuer, subject) ∧
    (∃ w dc w', env.parseCert .certType srv.ca.certDer w = (.ok dc, w') ∧
      issuingCaName dc = some issuer) ∧
    ∃ w dc w', env.parseCert .certreqType csr w = (.ok dc, w') ∧ dc.subjectRaw = some subject

/-- A GetCertInitial by the key that parked the entry, for that entry. -/
structure Releases (env : ScepServerEnv σ) (srv : ScepServer) (m : PkiMessage) (payload : Bytes)
    (e : ScepPending) : Prop where
  type : m.messageType = some (ascii "20")
  transaction : m.transactionId = some e.transactionId
  names : NamesRequest env srv payload e.csr
  key : SameKey env m.signerCert e.signerCert

/-- What the release of an entry comes to: a certificate for its CSR, or none for want of something
other than memory, as far as the code of the failure tells. -/
inductive Outcome (env : ScepServerEnv σ) (srv : ScepServer) (e : ScepPending) (s t : ScepWorld σ) :
    Prop where
  | issued (cert : Bytes)
      (made : ∃ w w', caIssueCause env.toIssueCrypto srv.ca e.csr w = some (.ok cert, w'))
      (issued : t.issued = s.issued ++ [(e, cert)]) (faults : t.faults = s.faults)
  | failed (fault : IssueFault) (issued : t.issued = s.issued)
      (faults : t.faults = s.faults ++ [fault]) (other : fault.rc ≠ .errMemory)

/-- What one request may do to the queue. -/
inductive QueueChange (env : ScepServerEnv σ) (srv : ScepServer) (body : Bytes) (w : σ)
    (s t : ScepWorld σ) : Prop where
  | unchanged (pending : t.pending = s.pending) (parked : t.parked = s.parked)
      (issued : t.issued = s.issued)
      (faults : t.faults = s.faults ∨ ∃ fault, t.faults = s.faults ++ [fault] ∧ fault.rc = .errMemory)
  | parked (m : PkiMessage) (e : ScepPending) (received : Received env srv body w m e.csr)
      (type : m.messageType = some (ascii "19") ∨ m.messageType = some (ascii "17"))
      (transaction : m.transactionId = some e.transactionId) (signer : m.signerCert = e.signerCert)
      (absent : ∀ other ∈ s.pending, other.transactionId ≠ e.transactionId)
      (room : s.pending.length < scepPendingMax) (pending : t.pending = s.pending ++ [e])
      (parked : t.parked = s.parked ++ [e]) (issued : t.issued = s.issued)
      (faults : t.faults = s.faults)
  | released (m : PkiMessage) (payload : Bytes) (e : ScepPending)
      (received : Received env srv body w m payload) (releases : Releases env srv m payload e)
      (pending : s.pending.Perm (e :: t.pending)) (parked : t.parked = s.parked)
      (outcome : Outcome env srv e s t)

/-- The change a message made to the queue, and its reply. -/
structure Handled (env : ScepServerEnv σ) (srv : ScepServer) (body : Bytes) (w : σ) (tid snonce : Bytes)
    (s : ScepWorld σ) (answer : Except ScepRefusal ScepReply) (t : ScepWorld σ) : Prop where
  change : QueueChange env srv body w s t
  echoes : Echoes env srv tid snonce (sentReply answer)

variable {body payload : Bytes} {w : σ} {m : PkiMessage} {s t u : ScepWorld σ} {e : ScepPending}
  {answer : Except ScepRefusal ScepReply}

theorem Outcome.after (same : SameQueue s u) (outcome : Outcome env srv e u t) :
    Outcome env srv e s t := by
  cases outcome with
  | issued cert made issued faults =>
      exact .issued cert made (same.issued ▸ issued) (faults.trans same.faults)
  | failed fault issued faults other =>
      exact .failed fault (issued.trans same.issued) (same.faults ▸ faults) other

theorem QueueChange.after (same : SameQueue s u) (change : QueueChange env srv body w u t) :
    QueueChange env srv body w s t := by
  cases change with
  | unchanged pending parked issued faults =>
      exact .unchanged (pending.trans same.pending) (parked.trans same.parked)
        (issued.trans same.issued) (same.faults ▸ faults)
  | parked m e received type transaction signer absent room pending parked issued faults =>
      exact .parked m e received type transaction signer (same.pending ▸ absent) (same.pending ▸ room)
        (same.pending ▸ pending) (same.parked ▸ parked) (issued.trans same.issued)
        (faults.trans same.faults)
  | released m payload e received releases pending parked outcome =>
      exact .released m payload e received releases (same.pending ▸ pending)
        (parked.trans same.parked) (outcome.after same)

theorem Handled.after (same : SameQueue s u) (handled : Handled env srv body w tid snonce u answer t) :
    Handled env srv body w tid snonce s answer t :=
  ⟨handled.change.after same, handled.echoes⟩

theorem Quiet.handled {p : Prog (ScepWorld σ) ScepRefusal ScepReply} (quiet : Quiet env srv tid snonce p)
    (run : p s = some (answer, t)) : Handled env srv body w tid snonce s answer t :=
  have ended := quiet s answer t run
  ⟨.unchanged ended.1.pending ended.1.parked ended.1.issued (.inl ended.1.faults), ended.2⟩

theorem pendingFind_some {pending : List ScepPending} {idx : Nat}
    (found : pendingFind pending tid = some idx) :
    ∃ e, pending[idx]? = some e ∧ e.transactionId = tid := by
  obtain ⟨within, same, -⟩ := List.findIdx?_eq_some_iff_getElem.mp found
  exact ⟨pending[idx], List.getElem?_eq_getElem within, by simpa using same⟩

theorem pendingFind_none {pending : List ScepPending} (absent : pendingFind pending tid = none) :
    ∀ e ∈ pending, e.transactionId ≠ tid := by
  intro e inside
  simpa using List.findIdx?_eq_none_iff.mp absent e inside

/-- Every verified message exposes its signer certificate. -/
def ExposesSigner (env : ScepServerEnv σ) : Prop :=
  ∀ pki w signed w', env.verifySignedData false pki w = (.ok signed, w') → signed.verifyCert ≠ []

theorem parsePkiMessage_exposed (exposes : ExposesSigner env) {wanted : ScepAttr → Bool} {x y : σ}
    (run : parsePkiMessage env.toWolfCrypt wanted body x = some (.ok m, y)) : m.signerCert ≠ [] := by
  obtain ⟨signed, _, _, _, verified, collected⟩ := parsePkiMessage_parts env.toWolfCrypt run
  rw [(parseAttributes_sound collected).2.1]
  exact exposes _ _ _ _ verified

end Step

/-! ## Histories -/

section Histories

variable {env : ScepServerEnv σ} {srv : ScepServer} {s t : ScepWorld σ} {body : Bytes} {w : σ}

/-- A server that was just started. -/
def ScepWorld.fresh (world : σ) : ScepWorld σ := ⟨[], false, [], false, [], [], [], world⟩

/-- The queue is within its bounds, and no entry is issued for more often than it was parked. -/
structure PendingSound (s : ScepWorld σ) : Prop where
  size : s.pending.length ≤ scepPendingMax
  distinct : (s.pending.map (·.transactionId)).Nodup
  once : ∀ e, (s.issued.map Prod.fst).count e + s.pending.count e ≤ s.parked.count e

theorem PendingSound.step (sound : PendingSound s) (change : QueueChange env srv body w s t) :
    PendingSound t := by
  cases change with
  | unchanged pending parked issued faults =>
      exact ⟨pending ▸ sound.size, pending ▸ sound.distinct, pending ▸ parked ▸ issued ▸ sound.once⟩
  | parked m e received type transaction signer absent room pending parked issued faults =>
      refine ⟨?_, ?_, fun other => ?_⟩
      · rw [pending, List.length_append, List.length_singleton]
        exact room
      · rw [pending, List.map_append, List.map_singleton]
        refine List.nodup_append.mpr ⟨sound.distinct, by simp, ?_⟩
        rintro a inside b last rfl
        obtain ⟨old, member, rfl⟩ := List.mem_map.mp inside
        exact absent old member (List.mem_singleton.mp last)
      · have before := sound.once other
        rw [pending, parked, issued, List.count_append, List.count_append]
        omega
  | released m payload e received releases pending parked outcome =>
      have size := pending.length_eq
      have distinct := (pending.map (·.transactionId)).nodup_iff.mp sound.distinct
      simp only [List.length_cons] at size
      refine ⟨by have := sound.size; omega, (List.nodup_cons.mp distinct).2, fun other => ?_⟩
      have before := sound.once other
      rw [pending.count_eq, List.count_cons] at before
      rw [parked]
      cases outcome with
      | issued cert made issued faults =>
          rw [issued, List.map_append, List.count_append, List.map_singleton, List.count_singleton]
          simp only at before ⊢
          omega
      | failed fault issued faults other =>
          rw [issued]
          omega

/-- A wolfCrypt in which the body `[0]` is a PKCSReq and any other one a GetCertInitial, both of the
transaction `A`, and in which the issuer name is set as given. -/
def exampleScep (issuer : Except WcErr Unit) : ScepServerEnv Http.Wire :=
  { exampleIssue with
    setIssuerBuffer := fun _ w => (issuer, w)
    verifySignedData := fun _ pki w => (.ok
      { content := if pki = [0] then [9] else [0x30, 0x06, 0x30, 0x01, 0x02, 0x30, 0x01, 0x02]
        certs := [], verifyCert := [0x30, 0]
        attributes :=
          [⟨ScepAttr.msgType.oid, [0x13, 0x02] ++ ascii (if pki = [0] then "19" else "20")⟩,
            ⟨ScepAttr.transId.oid, [0x13, 0x01, 0x41]⟩,
            ⟨ScepAttr.senderNonce.oid, [0x04, 0x10] ++ List.replicate 16 1⟩] }, w)
    certManagerNew := fun w => (true, w)
    loadCaBuffer := fun _ w => (true, w)
    verifyBuffer := fun _ _ w => (.ok (), w)
    parseChallenge := fun _ w => (.ok none, w) }

def exampleScepServer : ScepServer where
  cfg := exampleStartCfg
  cfgChallenge := none
  cfgBasicUser := none
  cfgBasicPass := none
  cfgCsrAttrs := none
  ca := ⟨.rsa, [1], [0x30, 0], [1]⟩
  scepRequireApproval := true
  scepEnableGetCert := true
  ra := none

end Histories

end WolfCert.Scep
