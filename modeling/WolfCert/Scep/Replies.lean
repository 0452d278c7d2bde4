import WolfCert.Scep.Answers
import WolfCert.Scep.Get
import WolfCert.Server.Wire

/-!
# Responses of the SCEP server

`handle_request` of `scep_server.c`, from a request that was read to the bytes that go out, and that the
client reads every response as it was meant.
-/

namespace WolfCert.Scep

open WolfCert.CLib WolfCert.Server WolfCert.Http

variable {σ : Type}

/-- What `send_text` and `send_bin` are given. -/
structure ScepResponse where
  status : Nat
  phrase : Bytes
  contentType : Bytes
  body : Bytes
deriving DecidableEq, Repr

def sendText (status : Nat) (phrase : String) (body : Bytes) : ScepResponse :=
  ⟨status, ascii phrase, ascii "text/plain", body⟩

def sendBin (contentType : String) (body : Bytes) : ScepResponse := ⟨200, ascii "OK", ascii contentType, body⟩

def ScepReply.response : ScepReply → ScepResponse
  | .text status phrase => ⟨status, phrase, ascii "text/plain", []⟩
  | .certRep _ message => sendBin "application/x-pki-message" message

/-- The header text. -/
def hdrText (keepAlive : Bool) (r : ScepResponse) : Bytes :=
  ascii "HTTP/1.1 " ++ decimal r.status ++ ascii " " ++ r.phrase ++ ascii "\r\nContent-Type: " ++ r.contentType ++
    ascii "\r\nContent-Length: " ++ decimal r.body.length ++ ascii "\r\nConnection: " ++ connHdr keepAlive ++
    ascii "\r\n\r\n"

def hdrBufSz : Nat := 256

/-- As many bytes are sent as the text has, whether it fitted the buffer or not: a longer one is read past
the end of the buffer. -/
def sendOut (keepAlive : Bool) (r : ScepResponse) : Option Bytes :=
  if (hdrText keepAlive r).length ≥ hdrBufSz then none else some (hdrText keepAlive r ++ r.body)

/-! ## Handlers -/

/-- The server with what it answers a GET by: the bundle of a split RA, and whether there is a next CA. -/
structure ScepHost extends ScepServer where
  scepEnableNextCa : Bool
  caRaBundle : Option Bytes
deriving DecidableEq, Repr

/-- The next CA is made when it is first asked for. -/
structure HostWorld (σ : Type) where
  served : ScepWorld σ
  nextCa : Option Ca
deriving DecidableEq, Repr

/-- A program that does not touch the next CA. -/
def hosted {ε α : Type} (p : Prog (ScepWorld σ) ε α) : Prog (HostWorld σ) ε α := fun s =>
  (p s.served).map fun (result, served) => (result, { s with served })

def capsText (nextCa : Bool) : Bytes :=
  ascii "POSTPKIOperation\r\nSHA-256\r\nAES\r\nRenewal\r\nSCEPStandard\r\n" ++
    if nextCa then ascii "GetNextCACert\r\n" else []

def handleGetCaCaps (srv : ScepHost) : ScepResponse := sendText 200 "OK" (capsText srv.scepEnableNextCa)

def handleGetCaCert (srv : ScepHost) : ScepResponse :=
  match srv.caRaBundle with
  | some bundle => sendBin "application/x-x509-ca-ra-cert" bundle
  | none => sendBin "application/x-x509-ca-cert" srv.ca.certDer

section

variable (env : ScepServerEnv σ) (srv : ScepHost)

/-- A plain SignedData with no SCEP attributes around the next CA's certificate. -/
def buildNextCaResponse (nextCert caCert caKey : Bytes) : Prog σ Rc Bytes := do
  Prog.require (nextCert ≠ [] ∧ caCert ≠ [] ∧ caKey ≠ []) .errBadArg
  let inner ← pkcs7BuildCertsOnly env.toIssueCrypto [nextCert]
  buildPkiMessage env.toWolfCrypt inner caCert caKey .sha256h ⟨none, none, none, none, none, none⟩

/-- The next CA, made where there is none yet. -/
def readyNextCa : Prog (HostWorld σ) Rc Ca := do
  let made ← Prog.call fun s => (s.nextCa, s)
  match made with
  | some ca => pure ca
  | none => do
      let ca ← hosted (aside (caGenerate env.toCaCrypto (some (srv.cfg.caKeyType.getD .rsa)) srv.cfg.caKeyParam))
      Prog.call fun s => ((), { s with nextCa := some ca })
      pure ca

/-- Its failures are told to the client alone. -/
def handleGetNextCaCert {ε : Type} : Prog (HostWorld σ) ε ScepResponse :=
  if srv.scepEnableNextCa = false then pure (sendText 404 "Not Found" [])
  else do
    match ← Prog.attempt (readyNextCa env srv) with
    | .error _ => pure (sendText 500 "Server Error" [])
    | .ok next =>
        match ← Prog.attempt (hosted (aside (buildNextCaResponse env next.certDer srv.ca.certDer srv.ca.keyDer))) with
        | .error _ => pure (sendText 500 "Server Error" [])
        | .ok p7 => pure (sendBin "application/x-x509-next-ca-cert" p7)

/-- A pkiMessage's reply as it goes out. -/
def answerPki (p : Prog (ScepWorld σ) ScepRefusal ScepReply) : Prog (HostWorld σ) (Rc × ScepResponse) ScepResponse := do
  let reply ← Prog.mapError (fun refusal => (refusal.1, refusal.2.response)) (hosted p)
  pure reply.response

/-- `handle_request`, once the request was read. -/
def handleRequest (req : ServerRequest) : Prog (HostWorld σ) (Rc × ScepResponse) ScepResponse :=
  match scepRoute req with
  | .badRequest => Prog.fail (.errProtocol, sendText 400 "Bad Request" [])
  | .getCaCaps => pure (handleGetCaCaps srv)
  | .getNextCaCert => handleGetNextCaCert env srv
  | .getCaCert => pure (handleGetCaCert srv)
  | .pkiOperationPost => answerPki (handlePkiOp env srv.toScepServer req.body)
  | .pkiOperationGet => answerPki (handlePkiOpGet env srv.toScepServer (requestQuery req.target))
  | .notFound => pure (sendText 404 "Not Found" [])

end

/-- The answer to a request that could not be read. -/
def unreadResponse (rc : Rc) : ScepResponse :=
  if rc = .errMemory then sendText 500 "Server Error" [] else sendText 400 "Bad Request" []

def sentOver : Except (Rc × ScepResponse) ScepResponse → ScepResponse
  | .ok r => r
  | .error (_, r) => r

/-! ## What goes out -/

/-- The status, the phrase and the media type of every response. -/
def scepHeads : List (Nat × Bytes × Bytes) :=
  [(500, ascii "Server Error", ascii "text/plain"), (400, ascii "Bad Request", ascii "text/plain"),
    (400, ascii "Bad Message", ascii "text/plain"), (404, ascii "Not Found", ascii "text/plain"),
    (200, ascii "OK", ascii "text/plain"), (200, ascii "OK", ascii "application/x-pki-message"),
    (200, ascii "OK", ascii "application/x-x509-ca-cert"), (200, ascii "OK", ascii "application/x-x509-ca-ra-cert"),
    (200, ascii "OK", ascii "application/x-x509-next-ca-cert")]

def ScepResponse.Known (r : ScepResponse) : Prop := (r.status, r.phrase, r.contentType) ∈ scepHeads

theorem scepHeads_plain : ∀ h ∈ scepHeads, (200 ≤ h.1 ∧ h.1 ≤ 999 ∧ h.1 ≠ 204 ∧ h.1 ≠ 304) ∧
    (∀ c ∈ h.2.1, c ≠ 0 ∧ c ≠ 10) ∧ Field.Plain ⟨ascii "Content-Type", h.2.2⟩ ∧
    h.2.1.length + h.2.2.length ≤ 60 := by
  decide +kernel

/-- The fields of a response. -/
def ScepResponse.fields (keepAlive : Bool) (r : ScepResponse) : List Field :=
  [⟨ascii "Content-Type", r.contentType⟩] ++ ownFields keepAlive (some r.body.length)

section Out

variable {r : ScepResponse} {keepAlive : Bool}

theorem hdrText_eq (r : ScepResponse) (keepAlive : Bool) :
    hdrText keepAlive r = responseHead r.status r.phrase (r.fields keepAlive) := by
  have texts : ascii " " = [32] ∧ ascii "\r\nContent-Type: " = [13, 10] ++ (ascii "Content-Type" ++ [58, 32]) ∧
      ascii "\r\nContent-Length: " = [13, 10] ++ (ascii "Content-Length" ++ [58, 32]) ∧
      ascii "\r\nConnection: " = [13, 10] ++ (ascii "Connection" ++ [58, 32]) ∧
      ascii "\r\n\r\n" = [13, 10, 13, 10] := by
    decide
  simp [hdrText, texts, responseHead, statusLine, ScepResponse.fields, joinLines, Field.line, ownFields,
    lengthField, connectionField]

theorem ScepResponse.Known.fits (known : r.Known) (size : r.body.length < sizeRange) :
    (hdrText keepAlive r).length < hdrBufSz := by
  obtain ⟨code, -, -, short⟩ := scepHeads_plain _ known
  have status : (decimal r.status).length ≤ 3 := decimal_le (by decide) (by have := code.2.1; simp at this; omega)
  have length : (decimal r.body.length).length ≤ 20 := by
    have limit : sizeRange = 18446744073709551616 := by decide
    exact decimal_le (by decide) (by omega)
  have connection := connHdr_length keepAlive
  have sizes : (ascii "HTTP/1.1 ").length = 9 ∧ (ascii " ").length = 1 ∧ (ascii "\r\nContent-Type: ").length = 16 ∧
      (ascii "\r\nContent-Length: ").length = 18 ∧ (ascii "\r\nConnection: ").length = 14 ∧
      (ascii "\r\n\r\n").length = 4 := by
    decide
  have short : r.phrase.length + r.contentType.length ≤ 60 := short
  simp only [hdrText, List.length_append, sizes, hdrBufSz]
  omega

/-- A response of the server is sent whole and read as it was meant. -/
theorem ScepResponse.Known.read (known : r.Known) (keepAlive : Bool) (ctx : ReplyContext) (asked : ctx.headRequest = false)
    (fits : r.body.length ≤ ctx.maxBody ∧ (r.body.length : Int) ≤ longMax) (interims : Nat) (later : Bytes) :
    ∃ bytes, sendOut keepAlive r = some bytes ∧ ctx.reply interims (bytes ++ later) = .ok
      { response :=
          { statusCode := r.status, contentType := some r.contentType, body := r.body, retryAfterSec := 0 }
        after := later, toClose := false } := by
  have limits : longMax = 9223372036854775807 ∧ sizeRange = 18446744073709551616 := by decide
  have short : (hdrText keepAlive r).length < hdrBufSz := known.fits (by omega)
  obtain ⟨code, text, plain, -⟩ := scepHeads_plain _ known
  have unframed : Unframed [⟨ascii "Content-Type", r.contentType⟩] := by
    have names : (ascii "Content-Type").map ciLower ≠ (ascii "Content-Length").map ciLower ∧
        (ascii "Content-Type").map ciLower ≠ (ascii "Transfer-Encoding").map ciLower := by decide
    simp [Unframed, Field.named, names, plain]
  have bodied : responseHasNoBody (r.status : Int) ctx.headRequest = false := by
    have bounds : 200 ≤ r.status ∧ r.status ≤ 999 ∧ r.status ≠ 204 ∧ r.status ≠ 304 := code
    simp [responseHasNoBody, asked]
    omega
  refine ⟨hdrText keepAlive r ++ r.body, if_neg (Nat.not_le.mpr short), ?_⟩
  rw [hdrText_eq] at short ⊢
  have other : (ascii "Content-Type").map ciLower ≠ (ascii "Retry-After").map ciLower := by decide
  have read := reply_framed ctx interims ⟨code.1, code.2.1⟩ text unframed
    (Nat.le_trans (Nat.le_of_lt short) (by decide)) (by rw [bodied]; rfl) fits later
  simpa [ScepResponse.fields, lookup, Field.named, other] using read

end Out

/-! ## Answers -/

/-- The message that a request carries, as its body or in the query. -/
def Delivers (env : ScepServerEnv σ) (req : ServerRequest) (message : Bytes) : Prop :=
  message = req.body ∨ ∃ w w', getMessage env.toWolfCrypt (requestQuery req.target) w = some (.ok message, w')

/-- The media types of what the server signs. -/
def signedTypes : List Bytes := [ascii "application/x-pki-message", ascii "application/x-x509-next-ca-cert"]

/-- What a response to a request is: something that is not signed, the next CA's certificate under the
signature of the CA, or the CertRep for a message. -/
inductive Sends (env : ScepServerEnv σ) (srv : ScepHost) (req : ServerRequest) (t : HostWorld σ) :
    ScepResponse → Prop
  | plain {r : ScepResponse} (known : r.Known) (unsigned : r.contentType ∉ signedTypes) : Sends env srv req t r
  | nextCa {next : Ca} {p7 : Bytes} (kept : t.nextCa = some next)
      (built : ∃ w w', buildNextCaResponse env next.certDer srv.ca.certDer srv.ca.keyDer w = some (.ok p7, w')) :
      Sends env srv req t (sendBin "application/x-x509-next-ca-cert" p7)
  | certRep {body message : Bytes} {attrs : ScepAttrs} (carried : Delivers env req body)
      (answered : Answered env srv.toScepServer body t.served (.certRep attrs message)) :
      Sends env srv req t (ScepReply.certRep attrs message).response

section Answers

variable {env : ScepServerEnv σ} {srv : ScepHost} {req : ServerRequest}

/-- A text is not signed. -/
theorem Sends.text {t : HostWorld σ} {r : ScepResponse} (known : r.Known) (plain : r.contentType = ascii "text/plain") :
    Sends env srv req t r := by
  have other : ascii "text/plain" ∉ signedTypes := by decide
  exact .plain known (plain ▸ other)

theorem Sends.known {t : HostWorld σ} {r : ScepResponse} (sends : Sends env srv req t r) : r.Known := by
  cases sends with
  | plain known => exact known
  | nextCa => exact .tail _ (.tail _ (.tail _ (.tail _ (.tail _ (.tail _ (.tail _ (.tail _ (.head _))))))))
  | certRep => exact .tail _ (.tail _ (.tail _ (.tail _ (.tail _ (.head _)))))

/-- A text in answer to a pkiMessage. -/
theorem Sends.refusal {t : HostWorld σ} {status : Nat} {phrase : Bytes} (inside : (status, phrase) ∈ pkiTexts) :
    Sends env srv req t (ScepReply.text status phrase).response := by
  have texts : ∀ text ∈ pkiTexts, (text.1, text.2, ascii "text/plain") ∈ scepHeads := by decide +kernel
  exact .text (texts _ inside) rfl

/-- The books are kept, and so is a next CA once it was made. -/
structure KeepsHost (env : ScepServerEnv σ) (srv : ScepHost) (s t : HostWorld σ) : Prop where
  books : KeepsBooks env srv.toScepServer s.served t.served
  next : ∀ {ca}, s.nextCa = some ca → t.nextCa = some ca

theorem KeepsHost.refl (s : HostWorld σ) : KeepsHost env srv s s := ⟨.refl _, id⟩

theorem KeepsHost.trans {s t u : HostWorld σ} (first : KeepsHost env srv s t) (second : KeepsHost env srv t u) :
    KeepsHost env srv s u := ⟨first.books.trans second.books, second.next ∘ first.next⟩

/-- What the program sends may be sent. -/
def Hosts (env : ScepServerEnv σ) (srv : ScepHost) (req : ServerRequest)
    (p : Prog (HostWorld σ) (Rc × ScepResponse) ScepResponse) : Prop :=
  ∀ s answer t, p s = some (answer, t) → KeepsHost env srv s t ∧ Sends env srv req t (sentOver answer)

theorem Hosts.pure {r : ScepResponse} (sends : ∀ t, Sends env srv req t r) : Hosts env srv req (pure r) := by
  intro s answer t run
  cases run
  exact ⟨.refl _, sends _⟩

theorem hosted_eq {ε α : Type} {p : Prog (ScepWorld σ) ε α} {s t : HostWorld σ} {result : Except ε α}
    (run : hosted p s = some (result, t)) :
    ∃ served, p s.served = some (result, served) ∧ t = { s with served } := by
  obtain ⟨⟨_, served⟩, ran, same⟩ := Option.map_eq_some_iff.mp run
  cases same
  exact ⟨served, ran, rfl⟩

theorem answerPki_hosts {p : Prog (ScepWorld σ) ScepRefusal ScepReply}
    (answers : ∀ s answer t, p s = some (answer, t) → KeepsBooks env srv.toScepServer s t ∧
      ∃ body, Delivers env req body ∧ Answered env srv.toScepServer body t (sentReply answer)) :
    Hosts env srv req (answerPki p) := by
  intro s answer t run
  obtain ⟨outcome, served, handled, rfl, same⟩ : ∃ outcome served, p s.served = some (outcome, served) ∧
      t = { s with served } ∧ sentOver answer = (sentReply outcome).response := by
    rcases Prog.bind_cases run with ⟨e, rfl, failed⟩ | ⟨reply, u, started, ended⟩
    · obtain ⟨outcome, ran, mapped⟩ := Prog.mapError_cases failed
      obtain ⟨served, handled, rfl⟩ := hosted_eq ran
      cases outcome with
      | ok reply => cases mapped
      | error refusal =>
          cases mapped
          exact ⟨_, served, handled, rfl, rfl⟩
    · obtain ⟨served, handled, rfl⟩ := hosted_eq (Prog.mapError_ok_iff.mp started)
      cases ended
      exact ⟨_, served, handled, rfl, rfl⟩
  obtain ⟨kept, body, carried, answered⟩ := answers _ _ _ handled
  refine ⟨⟨kept, id⟩, ?_⟩
  rw [same]
  cases sent : sentReply outcome with
  | text status phrase =>
      rw [sent] at answered
      exact .refusal answered
  | certRep attrs message => exact .certRep carried (sent ▸ answered)

theorem handlePkiOpGet_answered {s t : ScepWorld σ} {answer : Except ScepRefusal ScepReply}
    (run : handlePkiOpGet env srv.toScepServer (requestQuery req.target) s = some (answer, t)) :
    KeepsBooks env srv.toScepServer s t ∧
      ∃ body, Delivers env req body ∧ Answered env srv.toScepServer body t (sentReply answer) := by
  rcases Prog.bind_cases run with ⟨refusal, rfl, failed⟩ | ⟨der, u, started, ended⟩
  · refine ⟨aside_books _ _ _ _ failed, req.body, .inl rfl, ?_⟩
    obtain ⟨world, ran, -⟩ := aside_eq failed
    have bad (rc : Rc) : Answered env srv.toScepServer req.body t (badRequest rc).2 := .tail _ (.head _)
    have raises : (getMessage env.toWolfCrypt (requestQuery req.target)).Raises fun e =>
        Answered env srv.toScepServer req.body t e.2 := by
      unfold getMessage
      split
      · exact .fail (bad _)
      · refine .bind (.mapError (fun _ => .head _) _) fun _ => ?_
        split
        · exact .fail (bad _)
        · exact .mapError (P := fun e : ScepRefusal => Answered env srv.toScepServer req.body t e.2) bad _
    exact raises _ _ _ ran
  · obtain ⟨world, ran, rfl⟩ := aside_eq started
    have moved : KeepsBooks env srv.toScepServer s { s with world } := .of_eq rfl rfl
    obtain ⟨kept, answered⟩ := handlePkiOp_answered ended
    exact ⟨moved.trans kept, der, .inr ⟨_, _, ran⟩, answered⟩

theorem hosted_keeps {ε α : Type} (p : Prog σ ε α) : (hosted (aside p)).Respects (KeepsHost env srv) := by
  intro s result t run
  obtain ⟨served, ran, rfl⟩ := hosted_eq run
  exact ⟨aside_books _ _ _ _ ran, id⟩

/-- The next CA that is given is the one that is kept. -/
theorem readyNextCa_keeps {s t : HostWorld σ} {result : Except Rc Ca}
    (run : readyNextCa env srv s = some (result, t)) :
    KeepsHost env srv s t ∧ ∀ ca, result = .ok ca → t.nextCa = some ca := by
  obtain ⟨served, next⟩ := s
  cases next with
  | some ca =>
      cases run
      exact ⟨.refl _, fun _ same => congrArg some (Except.ok.inj same)⟩
  | none =>
      have made : (do
          let ca ← hosted (aside (caGenerate env.toCaCrypto (some (srv.cfg.caKeyType.getD .rsa)) srv.cfg.caKeyParam))
          Prog.call fun s => ((), { s with nextCa := some ca })
          pure ca : Prog (HostWorld σ) Rc Ca) ⟨served, none⟩ = some (result, t) := run
      rcases Prog.bind_cases made with ⟨e, rfl, failed⟩ | ⟨ca, u, started, ended⟩
      · exact ⟨hosted_keeps _ _ _ _ failed, nofun⟩
      · have kept : KeepsHost env srv ⟨served, none⟩ u := hosted_keeps _ _ _ _ started
        cases ended
        exact ⟨⟨kept.books, nofun⟩, fun _ same => congrArg some (Except.ok.inj same)⟩

theorem handleGetNextCaCert_hosts : Hosts env srv req (handleGetNextCaCert env srv) := by
  have missing : (sendText 404 "Not Found" []).Known := .tail _ (.tail _ (.tail _ (.head _)))
  have failed : (sendText 500 "Server Error" []).Known := .head _
  unfold handleGetNextCaCert
  split
  · exact .pure fun _ => .text missing rfl
  intro s answer t run
  obtain ⟨outcome, u, readied, ended⟩ := Prog.attempt_bind_cases run
  obtain ⟨kept, given⟩ := readyNextCa_keeps readied
  split at ended
  · cases ended
    exact ⟨kept, .text failed rfl⟩
  · obtain ⟨built, v, building, ended⟩ := Prog.attempt_bind_cases ended
    have kept' : KeepsHost env srv u v := hosted_keeps _ _ _ _ building
    split at ended
    · cases ended
      exact ⟨kept.trans kept', .text failed rfl⟩
    · cases ended
      obtain ⟨served, ran, rfl⟩ := hosted_eq building
      obtain ⟨world, made, -⟩ := aside_eq ran
      exact ⟨kept.trans kept', .nextCa (given _ rfl) ⟨_, _, made⟩⟩

/-- The server's answer to any request. -/
theorem handleRequest_hosts : Hosts env srv req (handleRequest env srv req) := by
  have bad : (sendText 400 "Bad Request" []).Known := .tail _ (.head _)
  have missing : (sendText 404 "Not Found" []).Known := .tail _ (.tail _ (.tail _ (.head _)))
  have caps : (handleGetCaCaps srv).Known := .tail _ (.tail _ (.tail _ (.tail _ (.head _))))
  have others : ascii "application/x-x509-ca-cert" ∉ signedTypes ∧ ascii "application/x-x509-ca-ra-cert" ∉ signedTypes := by
    decide
  unfold handleRequest
  split
  · exact fun s _ _ run => by cases run; exact ⟨.refl _, .text bad rfl⟩
  · exact .pure fun _ => .text caps rfl
  · exact handleGetNextCaCert_hosts
  · refine .pure fun t => ?_
    unfold handleGetCaCert
    split
    · exact .plain (.tail _ (.tail _ (.tail _ (.tail _ (.tail _ (.tail _ (.tail _ (.head _)))))))) others.2
    · exact .plain (.tail _ (.tail _ (.tail _ (.tail _ (.tail _ (.tail _ (.head _))))))) others.1
  · exact answerPki_hosts fun _ _ _ ran => (handlePkiOp_answered ran).imp_right fun answered =>
      ⟨_, .inl rfl, answered⟩
  · exact answerPki_hosts fun _ _ _ => handlePkiOpGet_answered
  · exact .pure fun _ => .text missing rfl

theorem unreadResponse_known (rc : Rc) : (unreadResponse rc).Known := by
  unfold unreadResponse
  split
  · exact .head _
  · exact .tail _ (.head _)

/-- The header of every response, to a request that was read and to one that was not, fits the buffer it is
formatted in, so that nothing behind the buffer is sent; and the client, if it takes a body of that size,
reads the status, the media type and the body that were meant and leaves alone what follows. -/
theorem scep_response_read {r : ScepResponse}
    (sent : (∃ rc, r = unreadResponse rc) ∨ ∃ req s answer t,
      handleRequest env srv req s = some (answer, t) ∧ r = sentOver answer)
    {ctx : ReplyContext} (asked : ctx.headRequest = false)
    (fits : r.body.length ≤ ctx.maxBody ∧ (r.body.length : Int) ≤ longMax) (keepAlive : Bool) (interims : Nat)
    (later : Bytes) :
    ∃ bytes, sendOut keepAlive r = some bytes ∧ ctx.reply interims (bytes ++ later) = .ok
      { response :=
          { statusCode := r.status, contentType := some r.contentType, body := r.body, retryAfterSec := 0 }
        after := later, toClose := false } := by
  have known : r.Known := by
    rcases sent with ⟨rc, rfl⟩ | ⟨req, s, answer, t, run, rfl⟩
    · exact unreadResponse_known rc
    · exact (handleRequest_hosts _ _ _ run).2.known
  exact known.read keepAlive ctx asked fits interims later

end Answers

def exampleHost : ScepHost := { exampleScepServer with scepEnableNextCa := true, caRaBundle := none }

/-- The capabilities, on a connection that stays open. -/
theorem scep_response_read_caps : ∃ answer t bytes,
    handleRequest (exampleScep (.ok ())) exampleHost ⟨ascii "GET", ascii "/?operation=GetCACaps", none, false, []⟩
      ⟨.fresh ⟨[], [], false, false⟩, none⟩ = some (answer, t) ∧
    sendOut true (sentOver answer) = some bytes ∧ ∀ later, ReplyContext.reply ⟨0, 100, false⟩ 0 (bytes ++ later) =
      .ok ⟨⟨200, some (ascii "text/plain"), capsText true, 0⟩, later, false⟩ := by
  have route : scepRoute ⟨ascii "GET", ascii "/?operation=GetCACaps", none, false, []⟩ = .getCaCaps := by
    decide +kernel
  have run : handleRequest (exampleScep (.ok ())) exampleHost
      ⟨ascii "GET", ascii "/?operation=GetCACaps", none, false, []⟩ ⟨.fresh ⟨[], [], false, false⟩, none⟩ =
      some (.ok (handleGetCaCaps exampleHost), ⟨.fresh ⟨[], [], false, false⟩, none⟩) := by
    rw [handleRequest, route]
    rfl
  have fits : (sentOver (.ok (handleGetCaCaps exampleHost))).body.length ≤ 100 := by decide
  have limit : longMax = 9223372036854775807 := by decide
  have every (later : Bytes) := scep_response_read (.inr ⟨_, _, _, _, run, rfl⟩)
    (rfl : ReplyContext.headRequest ⟨0, 100, false⟩ = false) ⟨fits, by omega⟩ true 0 later
  obtain ⟨bytes, sent, -⟩ := every []
  refine ⟨_, _, bytes, run, sent, fun later => ?_⟩
  obtain ⟨bytes', sent', read⟩ := every later
  obtain rfl : bytes' = bytes := Option.some.inj (sent'.symm.trans sent)
  exact read

end WolfCert.Scep
