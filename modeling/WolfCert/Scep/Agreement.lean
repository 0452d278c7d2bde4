import WolfCert.Scep.Attributes
import WolfCert.Scep.Replies
import WolfCert.Scep.Soundness

/-!
# What an accepted reply stands for

The network may deliver any requests to the server and any reply to the client. As long as nobody else
signs such a reply with a key that the client trusts, a CertRep that the client accepts is an answer of the
server to a message with the client's transactionID and nonce, with a certificate that the CA made; and the
next CA it accepts is the one that the server has made.
-/

namespace WolfCert.Scep

open WolfCert.CLib WolfCert.Server

variable {σ τ : Type}

/-- What bytes mean to both sides. `owns` is between a certificate and the private key for it, `opened`
takes those two and an envelope, and `bag` is the certificates of a message without a signer. -/
structure Meaning where
  cert : CertKind → Bytes → Option DecodedCert
  signed : Bytes → Option SignedData
  owns : Bytes → Bytes → Prop
  opened : Bytes → Bytes → Bytes → Except WcErr Bytes
  bag : Bytes → Option (List Bytes)
  pem : Bytes → Bytes

/-- Of each SCEP type there are the attributes that were given to be signed, each bare or in a SET, in any
order and with any others between them. -/
def Conveys (built reached : List Attribute) : Prop :=
  ∀ bit, ∃ order, List.Forall₂ Carried (ofType bit built) order ∧ (ofType bit reached).Perm order

/-- The client's wolfCrypt reports only what bytes mean, and what the server's writes means what it was
told to write. An envelope opens to nothing else, and only with a key of its recipient; it is no bag. -/
structure Truthful (client : WolfCrypt τ) (env : ScepServerEnv σ) (srv : ScepServer) (μ : Meaning) :
    Prop where
  sound : Sound client μ.signed μ.cert
  opens : ∀ {cert key envelope payload w w'},
    client.decodeEnvelopedData cert key envelope w = (.ok payload, w') → μ.opened cert key envelope = .ok payload
  bags : ∀ {p7 signed w w'}, client.verifySignedData true p7 w = (.ok signed, w') →
    μ.bag p7 = some signed.certs
  pems : ∀ {der pem w w'}, client.derToPem der w = (.ok pem, w') → pem = μ.pem der
  identity : μ.owns srv.repIdentity.certDer srv.repIdentity.keyDer ∧ μ.owns srv.ca.certDer srv.ca.keyDer
  signs : ∀ {content cert key hash attributes message w w'}, μ.owns cert key →
    env.encodeSignedData ⟨content, [cert], key, hash, attributes⟩ w = (.ok message, w') →
    ∃ signed, μ.signed message = some signed ∧ signed.content = content.getD [] ∧
      Conveys attributes signed.attributes
  seals : ∀ {recipient cipher payload envelope w w'},
    env.encodeEnvelopedData recipient cipher payload w = (.ok envelope, w') →
    ∀ {cert key inner}, μ.opened cert key envelope = .ok inner → inner = payload ∧ μ.owns recipient key
  distinct : ∀ {recipient cipher payload envelope w w'},
    env.encodeEnvelopedData recipient cipher payload w = (.ok envelope, w') → μ.bag envelope = none
  encloses : ∀ {cert cap p7 w w'}, env.encodeDegenerate [cert] cap w = (.ok p7, w') → μ.bag p7 = some [cert]
  draws : ∀ {n bytes w w'}, env.generateBlock n w = (.ok bytes, w') → bytes.length = n

/-- Nobody but the server has signed the reply, if it is of that kind and under a key that the client trusts. -/
def Unforged (μ : Meaning) (bundle : Bytes) (kind : SignedData → Prop) (responses : List ScepResponse) (reply : Bytes) :
    Prop :=
  ∀ signed, μ.signed reply = some signed → SignedBy μ.cert signed.verifyCert bundle → kind signed →
    ∃ r ∈ responses, r.contentType ∈ signedTypes ∧ μ.signed r.body = some signed

def IsCertRep (signed : SignedData) : Prop := attrIn signed.attributes .msgType = some (ascii "3")

def ScepStatus.code : ScepStatus → Bytes
  | .unset => []
  | .success => ascii "0"
  | .failure => ascii "2"
  | .pending => ascii "3"

/-! ## Attributes -/

theorem attrIn_ofType (attributes : List Attribute) (bit : ScepAttr) :
    attrIn attributes bit = (ofType bit attributes).findSome? fun r => scepAttrValue bit r.value := by
  simp only [attrIn, ofType, scepAttrBit_iff]
  induction attributes with
  | nil => rfl
  | cons a rest ih =>
      by_cases same : a.oid = bit.oid
      · simp [same, ih, List.findSome?_cons]
      · simp [same, ih]

/-- Attributes that were built are read as they were given. -/
theorem attrIn_built {a : ScepAttrs} {built reached : List Attribute}
    (builds : buildSignedAttribs a = .ok built) (filled : ∀ bit, a.get bit ≠ some [])
    (conveys : Conveys built reached) (bit : ScepAttr) : attrIn reached bit = a.get bit := by
  have source := buildSignedAttribs_ofType builds bit
  obtain ⟨order, pairs, perm⟩ := conveys bit
  rw [attrIn_ofType]
  cases value : a.get bit with
  | none =>
      rw [value] at source
      rw [source] at pairs
      rw [List.forall₂_nil_left_iff.mp pairs] at perm
      rw [perm.eq_nil]
      rfl
  | some v =>
      rw [value] at source
      obtain ⟨b, tag, one, bare, element, text⟩ := source
      rw [one] at pairs
      obtain ⟨r, rest, both, none, rfl⟩ := List.forall₂_cons_left_iff.mp pairs
      rw [List.forall₂_nil_left_iff.mp none] at perm
      have nonempty : v ≠ [] := fun empty => filled bit (by rw [value, empty])
      have content : AttrContent bit r.value v :=
        ⟨nonempty, tag, b.value, both.2.imp (⟨·, bare⟩) id, element, text⟩
      rw [List.perm_singleton.mp perm, List.findSome?_cons, content.value]

theorem certRepAttrs_filled {m : PkiMessage} {tid snonce mt own code : Bytes} {info : Option Bytes}
    (ids : messageIds m = some (tid, snonce, mt)) (drawn : own.length = 16) (coded : code ≠ [])
    (filled : info ≠ some []) (bit : ScepAttr) : (certRepAttrs tid snonce own code info).get bit ≠ some [] := by
  obtain ⟨-, -, -, named, fresh⟩ := messageIds_parts ids
  have size : own ≠ [] := List.ne_nil_of_length_pos (by omega)
  have three : ascii "3" ≠ [] := by decide
  cases bit <;> simp [certRepAttrs, ScepAttrs.get, three, named, fresh, size, coded, filled]

theorem buildPkiMessage_parts {env : WolfCrypt σ} {envelope cert key message : Bytes} {hash : HashOid}
    {attrs : ScepAttrs} {w w' : σ}
    (run : buildPkiMessage env envelope cert key hash attrs w = some (.ok message, w')) :
    ∃ content attributes v, content.getD [] = envelope ∧ buildSignedAttribs attrs = .ok attributes ∧
      env.encodeSignedData ⟨content, [cert], key, hash, attributes⟩ v = (.ok message, w') := by
  simp only [buildPkiMessage, Prog.bind_ok_iff, Prog.ite_apply] at run
  obtain ⟨_, _, -, _, _, -, _, _, -, run⟩ := run
  cases built : buildSignedAttribs attrs with
  | error rc => split at run <;> simp [built] at run
  | ok attributes =>
      simp only [built] at run
      split at run
      · rename_i empty
        simp only [Prog.bind_ok_iff, Prog.callMap_ok_iff] at run
        obtain ⟨_, _, -, _, v, -, encoded⟩ := run
        exact ⟨none, attributes, v, empty.symm, rfl, encoded⟩
      · simp only [Prog.bind_ok_iff, Prog.callMap_ok_iff] at run
        obtain ⟨_, v, -, encoded⟩ := run
        exact ⟨some envelope, attributes, v, rfl, rfl, encoded⟩

section

variable {client : WolfCrypt τ} {env : ScepServerEnv σ} {srv : ScepServer} {μ : Meaning}
  {s : ScepSession} {v v' : τ}

/-- A message that the server built says what it was built from. -/
theorem Truthful.message (truthful : Truthful client env srv μ) {envelope cert key message : Bytes}
    {hash : HashOid} {attrs : ScepAttrs} {w w' : σ} (owns : μ.owns cert key)
    (filled : ∀ bit, attrs.get bit ≠ some [])
    (run : buildPkiMessage env.toWolfCrypt envelope cert key hash attrs w = some (.ok message, w')) :
    ∃ signed, μ.signed message = some signed ∧ signed.content = envelope ∧
      ∀ bit, attrIn signed.attributes bit = attrs.get bit := by
  obtain ⟨content, attributes, u, same, built, encoded⟩ := buildPkiMessage_parts run
  obtain ⟨signed, meant, inside, conveys⟩ := truthful.signs owns encoded
  exact ⟨signed, meant, inside.trans same, attrIn_built built filled conveys⟩

/-- The response with the next CA is no CertRep, and holds nothing but its certificate. -/
theorem Truthful.nextCa (truthful : Truthful client env srv μ) {next p7 : Bytes} {w w' : σ}
    (run : buildNextCaResponse env next srv.ca.certDer srv.ca.keyDer w = some (.ok p7, w')) {signed : SignedData}
    (meant : μ.signed p7 = some signed) : ¬IsCertRep signed ∧ μ.bag signed.content = some [next] := by
  simp only [buildNextCaResponse, Prog.bind_ok_iff] at run
  obtain ⟨_, _, -, inner, _, bagged, built⟩ := run
  have filled : ∀ bit, (⟨none, none, none, none, none, none⟩ : ScepAttrs).get bit ≠ some [] := by
    intro bit
    cases bit <;> simp [ScepAttrs.get]
  obtain ⟨signed', meant', rfl, attributes⟩ := truthful.message truthful.identity.2 filled built
  cases meant.symm.trans meant'
  obtain ⟨-, _, _, degenerate⟩ := pkcs7BuildCertsOnly_single env.toIssueCrypto bagged
  refine ⟨?_, truthful.encloses degenerate⟩
  simp [IsCertRep, attributes, ScepAttrs.get]

/-- What a CertRep encloses is no bag, if anything. -/
theorem Truthful.enclosed (truthful : Truthful client env srv μ) {cert recipient status envelope : Bytes} {w w' : σ}
    (run : repEnvelope env cert recipient status w = some (.ok envelope, w')) : envelope = [] ∨ μ.bag envelope = none := by
  simp only [repEnvelope, Prog.ite_apply] at run
  split at run
  · simp only [envelop, Prog.bind_ok_iff, Prog.callMap_ok_iff] at run
    obtain ⟨_, _, -, _, _, -, _, _, -, _, _, -, _, _, -, _, _, -, encoded⟩ := run
    exact .inr (truthful.distinct encoded)
  · cases run
    exact .inl rfl

/-! ## The client -/

/-- What the client reports, by the signed attributes and the envelope. -/
theorem scepFinish_parts (sound : Sound client μ.signed μ.cert) {reply : Bytes} {out : ScepResult}
    (accepted : scepFinish client s reply .cleared v = some ((.ok, out), v')) :
    ∃ signed, μ.signed reply = some signed ∧ Authentic μ.cert s.inTxid s.inNonce s.inCaBundle signed ∧
      attrIn signed.attributes .pkiStatus = some out.status.code ∧
      (out.status = .failure → out.failInfo = ((failInfoDigit (attrIn signed.attributes .failInfo)).getD 0 : Nat)) ∧
      (out.status = .success →
        ∃ u u', scepOpenEnvelope client s signed.content u = some (.ok out.certPem, u')) := by
  unfold scepFinish at accepted
  split at accepted
  · cases accepted
  · rename_i failed
    cases accepted
    exact absurd rfl (scepCheckReply_raises client _ _ _ _ _ failed).1
  · rename_i m u checked
    obtain ⟨signed, known, authentic, envelope, values⟩ := scepCheckReply_sound sound checked
    have status : m.pkiStatus = attrIn signed.attributes .pkiStatus := values .pkiStatus
    have info : m.failInfo = attrIn signed.attributes .failInfo := values .failInfo
    refine ⟨signed, known, authentic, ?_⟩
    simp only [status, info, envelope] at accepted
    split at accepted
    · rename_i pending
      cases accepted
      exact ⟨pending, nofun, nofun⟩
    · rename_i settled
      split at accepted
      · rename_i failure
        cases accepted
        exact ⟨failure, fun _ => rfl, nofun⟩
      · rename_i granted
        split at accepted
        · cases accepted
        · rename_i failed
          cases accepted
          exact absurd rfl (scepOpenEnvelope_raises client _ _ _ _ _ failed).1
        · rename_i opened
          cases accepted
          refine ⟨?_, nofun, fun _ => ⟨u, _, opened⟩⟩
          rcases authentic.status with success | failure | pending
          · exact success
          · exact absurd failure granted
          · exact absurd pending settled

/-- What the client takes out of an envelope of the server is the certificate that went in, and the
client has the key of the recipient. -/
theorem Truthful.opened (truthful : Truthful client env srv μ) {cert recipient envelope pem : Bytes} {w w' : σ}
    (enclosed : repEnvelope env cert recipient (ascii "0") w = some (.ok envelope, w'))
    (opened : scepOpenEnvelope client s envelope v = some (.ok pem, v')) :
    pem = μ.pem cert ∧ μ.owns recipient s.inSignerKey := by
  rw [repEnvelope, if_pos rfl] at enclosed
  simp only [envelop, Prog.bind_ok_iff, Prog.callMap_ok_iff] at enclosed
  obtain ⟨p7, _, bagged, _, _, -, _, _, -, _, _, -, _, _, -, _, _, -, encoded⟩ := enclosed
  simp only [scepOpenEnvelope, deenvelop, Prog.bind_ok_iff, Prog.callMap_ok_iff] at opened
  obtain ⟨inner, _, ⟨_, _, -, _, _, -, _, _, -, _, _, -, decoded⟩, extracted⟩ := opened
  obtain ⟨rfl, owner⟩ := truthful.seals encoded (truthful.opens decoded)
  obtain ⟨-, _, _, degenerate⟩ := pkcs7BuildCertsOnly_single env.toIssueCrypto bagged
  have one {signed : SignedData} {u u' : τ} (verified : client.verifySignedData true inner u = (.ok signed, u')) :
      signed.certs = [cert] :=
    Option.some.inj ((truthful.bags verified).symm.trans (truthful.encloses degenerate))
  obtain ⟨_, _, made⟩ := pkcs7CertsExtract_one client one extracted
  exact ⟨truthful.pems made, owner⟩

end

/-! ## Agreement -/

section

variable {client : WolfCrypt τ} {env : ScepServerEnv σ} {srv : ScepHost} {μ : Meaning}
  {s : ScepSession} {v v' : τ}

/-- The step that sent a response, and the books after it. -/
theorem sent_at {w : σ} {requests : List ServerRequest} {answers : List (Except (Rc × ScepResponse) ScepResponse)}
    {t : HostWorld σ} {r : ScepResponse}
    (ran : history (fun s req => handleRequest env srv req s) ⟨.fresh w, none⟩ requests = some (answers, t))
    (inside : r ∈ answers.map sentOver) :
    ∃ (n : Nat) (req : ServerRequest) (answer : Except (Rc × ScepResponse) ScepResponse) (u : HostWorld σ),
      requests[n]? = some req ∧ answers[n]? = some answer ∧ sentOver answer = r ∧
      Honest env srv.toScepServer u.served ∧ Sends env srv req u r ∧ KeepsHost env srv u t := by
  have keeps {s u : HostWorld σ} {requests : List ServerRequest}
      {answers : List (Except (Rc × ScepResponse) ScepResponse)}
      (ran : history (fun s req => handleRequest env srv req s) s requests = some (answers, u)) : KeepsHost env srv s u :=
    history_invariant (P := KeepsHost env srv s) (.refl s)
      (fun _ _ _ _ kept stepped => kept.trans (handleRequest_hosts _ _ _ stepped).1) ran
  obtain ⟨answer, sent, rfl⟩ := List.mem_map.mp inside
  obtain ⟨n, within, rfl⟩ := List.getElem_of_mem sent
  obtain ⟨req, now⟩ : ∃ req, requests[n]? = some req :=
    ⟨_, List.getElem?_eq_getElem (history_length ran ▸ within)⟩
  obtain ⟨before, u, answer, u', reached, stepped, found⟩ := history_at ran now
  obtain ⟨_, rest⟩ := history_after ran now reached stepped
  have same := found
  rw [List.getElem?_eq_getElem within, Option.some.injEq] at same
  obtain ⟨kept, sends⟩ := handleRequest_hosts _ _ _ stepped
  rw [same]
  exact ⟨n, req, answer, u', now, found, rfl, ((keeps reached).trans kept).books.honest ⟨nofun, nofun⟩, sends, keeps rest⟩

/-- Whatever requests reached the server and whatever reply reached the client: a CertRep that the client
accepts was built by the server, with the status and the failInfo that the client reports, for a message of
the client's transaction with its nonce. If that is SUCCESS the certificate is one that the CA made, for that
transaction and for a key the client has, or which the holder of such a key asked for by a GetCert. -/
theorem accepted_reply_agreement (truthful : Truthful client env srv.toScepServer μ) {w : σ}
    {requests : List ServerRequest} {answers : List (Except (Rc × ScepResponse) ScepResponse)} {t : HostWorld σ}
    (ran : history (fun s req => handleRequest env srv req s) ⟨.fresh w, none⟩ requests = some (answers, t))
    {reply : Bytes} {out : ScepResult} (unforged : Unforged μ s.inCaBundle IsCertRep (answers.map sentOver) reply)
    (accepted : scepFinish client s reply .cleared v = some ((.ok, out), v')) :
    ∃ (n : Nat) (req : ServerRequest) (body : Bytes) (m : PkiMessage)
        (answer : Except (Rc × ScepResponse) ScepResponse) (own envelope : Bytes) (info : Option Bytes),
      requests[n]? = some req ∧ answers[n]? = some answer ∧ Delivers env req body ∧
      (∃ u u', parsePkiMessage env.toWolfCrypt serverWants body u = some (.ok m, u')) ∧
      m.transactionId = some s.inTxid ∧ m.senderNonce = some s.inNonce ∧
      (∃ u u', buildPkiMessage env.toWolfCrypt envelope srv.repIdentity.certDer srv.repIdentity.keyDer .sha256h
        (certRepAttrs s.inTxid s.inNonce own out.status.code info) u = some (.ok (sentOver answer).body, u')) ∧
      (out.status = .failure → out.failInfo = ((failInfoDigit info).getD 0 : Nat)) ∧
      (out.status = .success → ∃ e cert, (e, cert) ∈ t.served.issued ∧ CaMade env srv.toScepServer e.csr cert ∧
        out.certPem = μ.pem cert ∧
        (e.transactionId = s.inTxid ∧ μ.owns e.signerCert s.inSignerKey ∨
          m.messageType = some (ascii "21") ∧ μ.owns m.signerCert s.inSignerKey)) := by
  obtain ⟨signed, meant, authentic, status, failed, opened⟩ := scepFinish_parts truthful.sound accepted
  obtain ⟨r, inside, typed, same⟩ := unforged signed meant authentic.signer authentic.messageType
  obtain ⟨n, req, answer, u, now, found, response, honest, sends, later⟩ := sent_at ran inside
  cases sends with
  | plain _ unsigned => exact absurd typed unsigned
  | nextCa _ built =>
      obtain ⟨_, _, built⟩ := built
      exact absurd authentic.messageType (truthful.nextCa built same).1
  | @certRep body message attrs carried answered =>
      obtain ⟨m, tid, snonce, mt, parsed, ids, accounted⟩ := answered
      obtain ⟨own, code, info, envelope, cert, recipient, rfl, ⟨_, _, drawn⟩, signs, coded, filled, ⟨_, _, enclosed⟩,
        granted⟩ := accounted
      obtain ⟨transaction, nonce, -⟩ := messageIds_parts ids
      -- it means what was sent
      obtain ⟨_, _, built⟩ := id signs
      obtain ⟨signed', meant', content, attributes⟩ := truthful.message truthful.identity.1
        (certRepAttrs_filled ids (truthful.draws drawn) coded filled) built
      obtain rfl : signed = signed' := Option.some.inj (same.symm.trans meant')
      have sameId : tid = s.inTxid := Option.some.inj ((attributes .transId).symm.trans authentic.transactionId)
      have sameNonce : snonce = s.inNonce :=
        Option.some.inj ((attributes .recipNonce).symm.trans authentic.recipientNonce)
      have sameCode : code = out.status.code := Option.some.inj ((attributes .pkiStatus).symm.trans status)
      subst sameId sameNonce sameCode
      refine ⟨n, req, body, m, answer, own, envelope, info, now, found, carried, parsed, transaction, nonce,
        by rwa [response], fun failure => ?_, fun success => ?_⟩
      · rw [failed failure, attributes .failInfo]
        rfl
      · obtain ⟨_, _, openedAs⟩ := opened success
        rw [success] at enclosed
        rw [content] at openedAs
        obtain ⟨pem, owner⟩ := truthful.opened enclosed openedAs
        cases granted (by rw [success]; rfl) with
        | issued csr inside =>
            exact ⟨_, cert, later.books.issued.subset inside, honest.made inside, pem, .inl ⟨rfl, owner⟩⟩
        | released inside asked signer =>
            obtain ⟨e, recorded⟩ := honest.registered inside
            exact ⟨e, cert, later.books.issued.subset recorded, honest.made recorded, pem, .inr ⟨asked, signer ▸ owner⟩⟩

/-- Whatever requests reached the server and whatever reply reached the client of GetNextCACert: the
certificate that it accepts, in either encoding, is that of the one next CA that the server has made. -/
theorem next_ca_agreement (truthful : Truthful client env srv.toScepServer μ) {w : σ}
    {requests : List ServerRequest} {answers : List (Except (Rc × ScepResponse) ScepResponse)} {t : HostWorld σ}
    (ran : history (fun s req => handleRequest env srv req s) ⟨.fresh w, none⟩ requests = some (answers, t))
    {reply bundle accepted : Bytes} {enc : Encoding}
    (unforged : Unforged μ bundle (fun signed => μ.bag signed.content ≠ none) (answers.map sentOver) reply)
    (verified : verifyNextCaResponse client reply bundle enc v = some (.ok accepted, v')) :
    ∃ next, t.nextCa = some next ∧ accepted = if enc = .der then next.certDer else μ.pem next.certDer := by
  simp only [verifyNextCaResponse, Prog.bind_ok_iff, Prog.ite_apply] at verified
  obtain ⟨m, _, parsed, _, _, trusted, extracted⟩ := verified
  obtain ⟨signed, _, _, _, checked, collected⟩ := parsePkiMessage_parts client parsed
  obtain ⟨content, signer, -⟩ := parseAttributes_sound collected
  have meant := truthful.sound.verify _ _ _ _ checked
  rw [signer] at trusted
  -- whatever is extracted, it is a bag
  have bagged : signed.content ≠ [] ∧ μ.bag signed.content ≠ none := by
    have some' {asPem : Bool} {w w' : τ} (run : pkcs7CertsExtract client m.envelope asPem w = some (.ok accepted, w')) :
        signed.content ≠ [] ∧ μ.bag signed.content ≠ none := by
      simp only [content, pkcs7CertsExtract, Prog.bind_ok_iff, Prog.callMap_ok_iff, Prog.require_ok_iff] at run
      obtain ⟨_, _, ⟨filled, -⟩, _, _, -, _, _, bag, -⟩ := run
      exact ⟨filled, by simp [truthful.bags bag]⟩
    split at extracted
    · exact some' extracted
    · exact some' extracted
  obtain ⟨r, inside, typed, same⟩ := unforged signed meant (verifyRepSigner_sound truthful.sound trusted) bagged.2
  obtain ⟨n, req, answer, u, -, -, -, -, sends, later⟩ := sent_at ran inside
  cases sends with
  | plain _ unsigned => exact absurd typed unsigned
  | @nextCa next p7 kept built =>
      obtain ⟨_, _, built⟩ := built
      have one {bag : SignedData} {w w' : τ} (run : client.verifySignedData true m.envelope w = (.ok bag, w')) :
          bag.certs = [next.certDer] := by
        rw [content] at run
        exact Option.some.inj ((truthful.bags run).symm.trans (truthful.nextCa built same).2)
      refine ⟨next, later.next kept, ?_⟩
      split at extracted
      · rw [if_pos ‹_›]
        exact pkcs7CertsExtract_one client one extracted
      · obtain ⟨_, _, made⟩ := pkcs7CertsExtract_one client one extracted
        rw [if_neg ‹_›]
        exact truthful.pems made
  | certRep _ answered =>
      obtain ⟨_, tid, snonce, _, -, ids, accounted⟩ := answered
      obtain ⟨own, code, info, envelope, _, _, rfl, ⟨_, _, drawn⟩, ⟨_, _, signs⟩, coded, filled, ⟨_, _, enclosed⟩, -⟩ :=
        accounted
      obtain ⟨signed', meant', rfl, -⟩ := truthful.message truthful.identity.1
        (certRepAttrs_filled ids (truthful.draws drawn) coded filled) signs
      cases same.symm.trans meant'
      rcases truthful.enclosed enclosed with empty | sealed
      · exact absurd empty bagged.1
      · exact absurd sealed bagged.2

end

/-! A wolfCrypt in which `[0]` is a PKCSReq, `[7]` the CertRep that grants it and `[8]` the next CA. Bags begin
with 1 and envelopes with 2. -/

def grantBag : Bytes → Option (List Bytes)
  | 1 :: cert => some [cert]
  | _ => none

def grantOpened (key : Bytes) : Bytes → Except WcErr Bytes
  | 2 :: payload => if key = [1] then .ok payload else .error .other
  | _ => .error .other

def grantRep : SignRequest :=
  ⟨some [2, 1, 0x30, 0], [[0x30, 0]], [1], .sha256h, (buildSignedAttribs (certRepAttrs [0x41] (List.replicate 16 1)
    (List.replicate 16 5) (ascii "0") none)).toOption.getD []⟩

def grantNext : SignRequest := ⟨some [1, 0x30, 7], [[0x30, 0]], [1], .sha256h, []⟩

def grantSigned (pki : Bytes) : SignedData :=
  if pki = [7] then ⟨[2, 1, 0x30, 0], [], [0x30, 0], grantRep.attributes⟩
  else if pki = [8] then ⟨[1, 0x30, 7], [], [0x30, 0], []⟩
  else
    ⟨[2, 9], [], [0x30, 0], [⟨ScepAttr.msgType.oid, [0x13, 0x02] ++ ascii "19"⟩,
      ⟨ScepAttr.transId.oid, [0x13, 0x01, 0x41]⟩, ⟨ScepAttr.senderNonce.oid, [0x04, 0x10] ++ List.replicate 16 1⟩]⟩

def grantScep : ScepServerEnv Http.Wire :=
  { exampleScep (.ok ()) with
    verifySignedData := fun bag pki w => (if bag then (grantBag pki).elim (.error .other) fun certs => .ok ⟨[], certs, [], []⟩
      else .ok (grantSigned pki), w)
    encodeSignedData := fun request w =>
      (if request = grantRep then .ok [7] else if request = grantNext then .ok [8] else .error .other, w)
    encodeEnvelopedData := fun recipient _ payload w =>
      (if recipient = [0x30, 0] then .ok (2 :: payload) else .error .other, w)
    decodeEnvelopedData := fun _ key envelope w => (grantOpened key envelope, w)
    makeCaCert := fun _ _ _ w => (.ok [0x30, 7], w)
    encodeDegenerate := fun certs _ w => (.ok (1 :: certs.flatten), w) }

def grantMeaning : Meaning where
  cert _ _ := some exampleCert
  signed pki := some (grantSigned pki)
  owns cert key := cert = [0x30, 0] ∧ key = [1]
  opened _ key envelope := grantOpened key envelope
  bag := grantBag
  pem := id

def grantHost : ScepHost := { exampleHost with scepRequireApproval := false }

theorem grant_envelope {recipient payload envelope : Bytes} {cipher : ContentCipher} {w w' : Http.Wire}
    (made : grantScep.encodeEnvelopedData recipient cipher payload w = (.ok envelope, w')) :
    recipient = [0x30, 0] ∧ envelope = 2 :: payload := by
  have outcome : (if recipient = [0x30, 0] then .ok (2 :: payload) else .error .other : Except WcErr Bytes) =
      .ok envelope := congrArg Prod.fst made
  split at outcome <;> cases outcome
  exact ⟨‹_›, rfl⟩

theorem grantScep_truthful : Truthful grantScep.toWolfCrypt grantScep grantHost.toScepServer grantMeaning where
  sound := ⟨fun _ _ _ _ run => by cases run; rfl, fun _ _ _ _ _ run => by cases run; rfl⟩
  opens run := congrArg Prod.fst run
  bags {p7 signed w w'} run := by
    have outcome : ((grantBag p7).elim (.error .other) fun certs => .ok ⟨[], certs, [], []⟩ : Except WcErr SignedData) =
      .ok signed := congrArg Prod.fst run
    change grantBag p7 = _
    cases found : grantBag p7 <;> rw [found] at outcome <;> cases outcome
    rfl
  pems run := by cases run; rfl
  identity := ⟨⟨rfl, rfl⟩, rfl, rfl⟩
  signs {content cert key hash attributes message w w'} _ run := by
    have outcome : (if (⟨content, [cert], key, hash, attributes⟩ : SignRequest) = grantRep then .ok [7]
        else if (⟨content, [cert], key, hash, attributes⟩ : SignRequest) = grantNext then .ok [8] else .error .other :
          Except WcErr Bytes) = .ok message := congrArg Prod.fst run
    have conveys (attributes : List Attribute) : Conveys attributes attributes := fun bit =>
      ⟨_, List.forall₂_same.mpr fun _ _ => ⟨rfl, .inl rfl⟩, .refl _⟩
    have written {request : SignRequest} (same : ⟨content, [cert], key, hash, attributes⟩ = request) :
        content = request.content ∧ attributes = request.attributes := by
      cases same
      exact ⟨rfl, rfl⟩
    split at outcome
    · obtain ⟨rfl, rfl⟩ := written ‹_›
      cases outcome
      exact ⟨_, congrArg some (if_pos rfl), rfl, conveys _⟩
    · split at outcome
      · obtain ⟨rfl, rfl⟩ := written ‹_›
        cases outcome
        exact ⟨_, congrArg some ((if_neg (by decide)).trans (if_pos rfl)), rfl, conveys _⟩
      · cases outcome
  seals {recipient cipher payload envelope w w'} made {cert key inner} opened := by
    obtain ⟨same, rfl⟩ := grant_envelope made
    have reached : (if key = [1] then .ok payload else .error .other : Except WcErr Bytes) = .ok inner := opened
    split at reached <;> cases reached
    exact ⟨rfl, same, ‹_›⟩
  distinct made := by
    obtain ⟨-, rfl⟩ := grant_envelope made
    rfl
  encloses {cert cap p7 w w'} made := by
    have outcome : (.ok (1 :: [cert].flatten) : Except WcErr Bytes) = .ok p7 := congrArg Prod.fst made
    cases outcome
    simp [grantMeaning, grantBag]
  draws {n bytes w w'} drawn := by
    have outcome : (.ok (List.replicate n 5) : Except WcErr Bytes) = .ok bytes := congrArg Prod.fst drawn
    cases outcome
    exact List.length_replicate

/-- The client that sent `[0]`. -/
def grantSession : ScepSession :=
  { ScepSession.opened [] ⟨.random, .auto, .renewalReq, .auto⟩ none with
    inCaBundle := [0x30, 0], inSigner := [0x30, 0], inSignerKey := [1], inTxid := [0x41], inNonce := List.replicate 16 1 }

def grantRequest : ServerRequest := ⟨ascii "POST", ascii "/?operation=PKIOperation", none, false, [0]⟩

def nextCaRequest : ServerRequest := ⟨ascii "GET", ascii "/?operation=GetNextCACert", none, false, []⟩

def grantHistory : List ServerRequest → Option (List (Except (Rc × ScepResponse) ScepResponse) × HostWorld Http.Wire) :=
  history (fun s req => handleRequest grantScep grantHost req s) ⟨.fresh ⟨[], [], false, false⟩, none⟩

/-- The one request is granted, and the client holds the certificate that the CA made for it. -/
theorem accepted_reply_agreement_granted :
    ∃ answers t, ∃ out : ScepResult, ∃ e cert, grantHistory [grantRequest] = some (answers, t) ∧
      out.status = .success ∧ (e, cert) ∈ t.served.issued ∧ CaMade grantScep grantHost.toScepServer e.csr cert ∧
      out.certPem = grantMeaning.pem cert := by
  have answered : (grantHistory [grantRequest]).map (fun r => r.1.map sentOver) =
      some [sendBin "application/x-pki-message" [7]] := by
    decide +kernel
  have finished : (scepFinish grantScep.toWolfCrypt grantSession [7] .cleared ⟨[], [], false, false⟩).map
      (fun r => (r.1.1, r.1.2.status)) = some (.ok, .success) := by
    decide +kernel
  obtain ⟨⟨answers, t⟩, ran, sent⟩ := Option.map_eq_some_iff.mp answered
  obtain ⟨⟨⟨rc, out⟩, v⟩, accepted, result⟩ := Option.map_eq_some_iff.mp finished
  obtain ⟨rfl, success⟩ := Prod.mk.inj result
  have unforged : Unforged grantMeaning grantSession.inCaBundle IsCertRep (answers.map sentOver) [7] := fun _ meant _ _ =>
    ⟨sendBin "application/x-pki-message" [7], by rw [sent]; exact List.mem_singleton_self _, .head _, meant⟩
  obtain ⟨_, _, _, _, _, _, _, _, _, _, _, _, _, _, _, _, granted⟩ :=
    accepted_reply_agreement grantScep_truthful ran unforged accepted
  obtain ⟨e, cert, inside, made, pem, -⟩ := granted success
  exact ⟨answers, t, out, e, cert, ran, success, inside, made, pem⟩

/-- Asked for twice with an enrolment in between, the next CA is the same. -/
theorem next_ca_agreement_twice : ∃ answers t next v,
    grantHistory [nextCaRequest, grantRequest, nextCaRequest] = some (answers, t) ∧ t.nextCa = some next ∧
    verifyNextCaResponse grantScep.toWolfCrypt [8] [0x30, 0] .der ⟨[], [], false, false⟩ = some (.ok next.certDer, v) := by
  have answered : (grantHistory [nextCaRequest, grantRequest, nextCaRequest]).map (fun r => r.1.map sentOver) =
      some [sendBin "application/x-x509-next-ca-cert" [8], sendBin "application/x-pki-message" [7],
        sendBin "application/x-x509-next-ca-cert" [8]] := by
    decide +kernel
  have verified : verifyNextCaResponse grantScep.toWolfCrypt [8] [0x30, 0] .der ⟨[], [], false, false⟩ =
      some (.ok [0x30, 7], ⟨[], [], false, false⟩) := by
    decide +kernel
  obtain ⟨⟨answers, t⟩, ran, sent⟩ := Option.map_eq_some_iff.mp answered
  obtain ⟨next, kept, same⟩ := next_ca_agreement grantScep_truthful ran (fun _ meant _ _ =>
    ⟨sendBin "application/x-x509-next-ca-cert" [8], by rw [sent]; exact .head _, .tail _ (.head _), meant⟩) verified
  rw [if_pos rfl] at same
  exact ⟨answers, t, next, _, ran, kept, by rw [← same]; exact verified⟩

end WolfCert.Scep
