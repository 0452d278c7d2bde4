import WolfCert.Est.Authentication
import WolfCert.Est.Client
import WolfCert.Http.UrlGrammar
import WolfCert.Server.HeadLines

/-!
# The client's request at the EST server

What `parse_request_in` of `est_server.c` reads where the client sent the head that `build_head` made.
-/

namespace WolfCert.Est

open WolfCert.CLib WolfCert.Server WolfCert.Http

variable {σ : Type} {env : Env σ} {request : HttpRequest} {u : Url} {keepAlive : Bool}

/-- The encoded credential of a request. -/
def encodedCredential (env : Env σ) (request : HttpRequest) : Option Bytes :=
  request.basicUser.bind fun user => env.base64EncodeNoNl (credential user (request.basicPass.getD []))

/-- The Authorization value that is built for the credentials. -/
def authorization (env : Env σ) (request : HttpRequest) : Option Bytes :=
  (encodedCredential env request).map (basicScheme ++ ·)

/-- The field values are those the library itself writes. -/
structure OwnValues (request : HttpRequest) : Prop where
  accept : request.accept = none ∨ ∃ op : EstOp, request.accept = some op.accept
  contentType : request.contentType ∈
    [none, some (ascii "application/pkcs10"), some (ascii "application/x-pki-message")]
  transferEncoding : request.contentTransferEncoding ∈ [none, some (ascii "base64")]

/-- The server reads the request that was sent: its method, target, credential and body, and no other
header line than those the client wrote. -/
def ReadBack (env : Env σ) (keepAlive : Bool) (request : HttpRequest) (u : Url) (head later : Bytes)
    (plan : List Nat) : Prop :=
  ∃ req trace c', readRequest .est ⟨head ++ request.body ++ later, plan, []⟩ = some (.ok (req, trace), c') ∧
    req.method = request.method ∧ req.target = u.path ∧ req.authHeader = authorization env request ∧
    req.body = request.body ∧
    trace.lines = fieldLines keepAlive request u (encodedCredential env request)

theorem OwnValues.plain (own : OwnValues request) : PlainValues request := by
  constructor
  · intro value given
    rcases own.accept with none | ⟨op, some⟩
    · rw [none] at given
      cases given
    · rw [some] at given
      cases given
      cases op <;> decide +kernel
  · have all : ∀ text ∈ [none, some (ascii "application/pkcs10"), some (ascii "application/x-pki-message")],
        ∀ value ∈ text, ∀ c ∈ value, c ≠ 0 ∧ c ≠ 10 := by decide +kernel
    exact all _ own.contentType
  · have all : ∀ text ∈ [none, some (ascii "base64")], ∀ value ∈ text, ∀ c ∈ value, c ≠ 0 ∧ c ≠ 10 := by
      decide +kernel
    exact all _ own.transferEncoding

theorem buildHead_lines {w w' : σ} {head : Bytes}
    (built : buildHead env w keepAlive request u = (.ok head, w')) :
    head = joinLines (requestLine request.method u.path ::
      fieldLines keepAlive request u (encodedCredential env request)) ++ [13, 10] := by
  have formatted {w w' : σ} {auth : Bytes} (run : formatHead env w keepAlive request u auth = (.ok head, w')) :
      head = headText keepAlive request u auth := by
    obtain ⟨v, run⟩ := withAlloc_ok (by simp) run
    dsimp only at run
    split at run
    · cases run
    · rw [Prod.mk.injEq, Except.ok.injEq] at run
      exact run.1.symm
  rw [← headText_lines]
  unfold buildHead at built
  cases anonymous : request.basicUser with
  | none =>
      rw [anonymous] at built
      rw [formatted built, encodedCredential, anonymous]
      rfl
  | some user =>
      rw [anonymous] at built
      cases authorized : basicAuthHeader env w user (request.basicPass.getD []) with
      | mk result v =>
          simp only [authorized] at built
          cases result with
          | error rc => cases built
          | ok auth =>
              obtain ⟨enc, encoded, rfl⟩ := basicAuthHeader_line authorized
              rw [formatted built, encodedCredential, anonymous, Option.bind_some, encoded]
              simp [fieldLine, joinLines]

theorem readBody_sent {keepAlive : Bool} {body held later : Bytes} {d : Conn}
    (small : body.length ≤ maxRequestBody) (stream : held ++ d.rest = body ++ later) (free : d.memory = []) :
    ∃ d', readBody (sentFraming keepAlive body.length) held d = some (.ok (body, body.length), d') := by
  have length : (sentFraming keepAlive body.length).contentLength = body.length := rfl
  have returns : ∃ body' d', readBody (sentFraming keepAlive body.length) held d =
      some (.ok (body', body.length), d') := by
    have plain : ¬(sentFraming keepAlive body.length).chunked = true := nofun
    rw [readBody, if_neg plain, length]
    by_cases empty : body.length = 0
    · rw [if_pos empty, empty]
      exact ⟨[], d, rfl⟩
    · rw [if_neg empty, Prog.bind_of_ok (Prog.require_of small _ _), Prog.bind_of_ok (allocate_some free)]
      have sizes := congrArg List.length stream
      simp only [List.length_append] at sizes
      obtain ⟨body', d', received, -⟩ := recvLeft_some (c := d) (held.take body.length)
        (Nat.le_refl (body.length - (held.take body.length).length)) (by rw [List.length_take]; omega)
      exact ⟨body', d', Prog.bind_of_ok received⟩
  obtain ⟨body', d', run⟩ := returns
  have follows : (sentFraming keepAlive body.length).contentLength ≤ (held ++ d.rest).length ∧
      body' = (held ++ d.rest).take (sentFraming keepAlive body.length).contentLength :=
    readBody_follows run
  rw [length, stream, List.take_left] at follows
  exact ⟨d', follows.2 ▸ run⟩

/-- A request that is read back has a target in one piece and a host in one line. -/
theorem ReadBack.clean {head later : Bytes} {plan : List Nat}
    (back : ReadBack env keepAlive request u head later plan) :
    32 ∉ u.path ∧ 10 ∉ u.path ∧ 10 ∉ u.host := by
  obtain ⟨req, trace, c', run, -, target, -, -, lines⟩ := back
  obtain ⟨solid, unbroken⟩ := readRequest_target run
  rw [target] at solid
  refine ⟨solid.1, solid.2, fun inside => unbroken (hostLine u) ?_ ?_⟩
  · rw [lines, fieldLines]
    simp
  · simp [hostLine, inside]

/-- The request is read back exactly if the path of the URL has neither a blank nor a LF and its host has
no LF. The credentials may hold any bytes. -/
theorem readBack_iff {url head : Bytes} {w₀ w₁ w w' : σ} (text : 0 ∉ url)
    (accepted : httpUrlParse env w₀ url = (.ok u, w₁)) (short : u.path.length < httpPathSz)
    (word : request.method.length ≤ 7 ∧ ∀ c ∈ request.method, c ≠ 0 ∧ c ≠ 32 ∧ c ≠ 10 ∧ c ≠ 13)
    (small : request.body.length ≤ maxRequestBody) (own : OwnValues request)
    (chars : ∀ input enc, env.base64EncodeNoNl input = some enc → ∀ c ∈ enc, Base64.IsChar c)
    (built : buildHead env w keepAlive request u = (.ok head, w'))
    (fits : head.length < httpReqBufSz) (later : Bytes) (plan : List Nat) :
    ReadBack env keepAlive request u head later plan ↔ 32 ∉ u.path ∧ 10 ∉ u.path ∧ 10 ∉ u.host := by
  obtain ⟨_, _, _, _, parts⟩ := httpUrlParse_parts accepted
  have visible : 0 ∉ u.host ∧ 0 ∉ u.path :=
    ⟨fun inside => text (parts.mem.1 inside), fun inside => (parts.mem.2 inside).elim nofun text⟩
  constructor
  · exact ReadBack.clean
  · rintro ⟨solid, path, host⟩
    have credential : ∀ enc ∈ encodedCredential env request, ∀ c ∈ enc, c ≠ 0 ∧ c ≠ 10 := by
      intro enc encoded c inside
      obtain ⟨user, -, made⟩ := Option.bind_eq_some_iff.mp encoded
      exact ⟨(chars _ enc made c inside).ne_zero, (chars _ enc made c inside).ne_feed⟩
    have avoids {text : Bytes} (nul : 0 ∉ text) (feed : 10 ∉ text) : ∀ c ∈ text, c ≠ 0 ∧ c ≠ 10 :=
      fun c inside => ⟨fun same => nul (same ▸ inside), fun same => feed (same ▸ inside)⟩
    have limit : maxRequestBody ≤ ulongMax := by decide
    have run : LineRun true ⟨framingInit (ascii "HTTP/1.1"), none⟩
        (fieldLines keepAlive request u (encodedCredential env request))
        ⟨sentFraming keepAlive request.body.length, authorization env request⟩ :=
      fieldLines_run (.inl rfl) (avoids visible.1 host) own.plain (small.trans limit) credential
    have plain : PlainLine (requestLine request.method u.path) :=
      requestLine_plain (fun c inside => ⟨(word.2 c inside).1, (word.2 c inside).2.2.1⟩)
        (avoids visible.2 path)
    have parsed := parseRequestLine_requestLine word.1 (fun inside => (word.2 _ inside).2.1 rfl) solid
    have whole := buildHead_lines built
    have within : (joinLines (requestLine request.method u.path ::
        fieldLines keepAlive request u (encodedCredential env request))).length + 2 ≤ httpReqBufSz - 1 := by
      rw [whole, List.length_append] at fits
      exact Nat.le_sub_one_of_lt fits
    have stream : head ++ request.body ++ later = joinLines (requestLine request.method u.path ::
        fieldLines keepAlive request u (encodedCredential env request)) ++
          13 :: 10 :: (request.body ++ later) := by
      rw [whole]
      simp
    obtain ⟨trace, c', read, lines, -, -⟩ := readRequestIn_plain
      (c := ⟨head ++ request.body ++ later, plan, []⟩) (fun target => target.target.length < httpPathSz) plain
      run within stream rfl parsed (decide_eq_true short) fun d held stream free =>
        readBody_sent small stream free
    exact ⟨_, trace, c', read, rfl, rfl, rfl, rfl, lines⟩

/-! An environment with real base64, and a plain enrollment request. -/

def credentialClient : Env Unit := { memoryEnv with base64EncodeNoNl := fun input => some (Base64.encode input) }

def enrollRequest : HttpRequest where
  method := ascii "POST"
  url := []
  contentType := some (ascii "application/pkcs10")
  contentTransferEncoding := some (ascii "base64")
  accept := some (EstOp.accept .simpleEnroll)
  body := ascii "TUlJ"
  basicUser := some (ascii "u\r\nX: y")
  basicPass := some (ascii "p\n")

theorem enrollRequest_own : OwnValues enrollRequest :=
  ⟨.inr ⟨.simpleEnroll, rfl⟩, by decide +kernel, by decide +kernel⟩

def enrollUrl : Url where
  scheme := ascii "http"
  host := ascii "h"
  port := 8080
  path := ascii "/e?x=1"
  tls := false

def enrollHead : Bytes :=
  ascii "POST /e?x=1 HTTP/1.1\r\nHost: h:8080\r\nUser-Agent: wolfCert/0.1.0\r\n" ++
    ascii "Connection: keep-alive\r\nAccept: application/pkcs7-mime\r\n" ++
    ascii "Content-Type: application/pkcs10\r\nContent-Transfer-Encoding: base64\r\n" ++
    ascii "Content-Length: 4\r\nAuthorization: Basic dQ0KWDogeTpwCg==\r\n\r\n"

/-- Line breaks in the credentials. -/
theorem readBack_enroll :
    buildHead credentialClient () true enrollRequest enrollUrl = (.ok enrollHead, ()) ∧
      ∀ later plan, ReadBack credentialClient true enrollRequest enrollUrl enrollHead later plan := by
  have accepted : httpUrlParse credentialClient () (ascii "http://h:8080/e?x=1") = (.ok enrollUrl, ()) := by
    decide +kernel
  have built : buildHead credentialClient () true enrollRequest enrollUrl = (.ok enrollHead, ()) := by
    decide +kernel
  have chars : ∀ input enc, credentialClient.base64EncodeNoNl input = some enc → ∀ c ∈ enc, Base64.IsChar c := by
    intro input enc encoded c inside
    cases encoded
    exact Base64.encode_chars input c inside
  exact ⟨built, fun later plan => (readBack_iff (by decide +kernel) accepted (by decide +kernel)
    ⟨by decide +kernel, by decide +kernel⟩ (by decide +kernel) enrollRequest_own chars built
    (by decide +kernel) later plan).mpr (by decide +kernel)⟩

/-- The target and the header lines that the server takes from a stream that arrives at once. -/
def readAddressed (stream : Bytes) : Option (Bytes × List Bytes) :=
  match readRequest .est ⟨stream, [], []⟩ with
  | some (.ok (req, trace), _) => some (req.target, trace.lines)
  | _ => none

/-- URLs that write a header line, in the path and in the host. -/
def injectedUrls : List (Bytes × Url) :=
  [(ascii "http://h/a HTTP/1.1\r\nX-Added: y",
     ⟨ascii "http", ascii "h", 80, ascii "/a HTTP/1.1\r\nX-Added: y", false⟩),
   (ascii "http://h\nX-Added/a", ⟨ascii "http", ascii "h\nX-Added", 80, ascii "/a", false⟩)]

def injectedHead (u : Url) : Bytes :=
  match buildHead credentialClient () true enrollRequest u with
  | (.ok head, _) => head
  | (.error _, _) => []

theorem request_head_injection : injectedUrls.Forall fun injected =>
    httpUrlParse credentialClient () injected.1 = (.ok injected.2, ()) ∧
    injected.2.path.length < httpPathSz ∧ OwnValues enrollRequest ∧
    buildHead credentialClient () true enrollRequest injected.2 = (.ok (injectedHead injected.2), ()) ∧
    (injectedHead injected.2).length < httpReqBufSz ∧
    (∃ lines, readAddressed (injectedHead injected.2 ++ enrollRequest.body) = some (ascii "/a", lines) ∧
      ∃ line ∈ lines, ascii "X-Added" <+: line) ∧
    ¬ReadBack credentialClient true enrollRequest injected.2 (injectedHead injected.2) [] [] := by
  have accepted : ∀ injected ∈ injectedUrls,
      httpUrlParse credentialClient () injected.1 = (.ok injected.2, ()) ∧
      injected.2.path.length < httpPathSz ∧
      buildHead credentialClient () true enrollRequest injected.2 = (.ok (injectedHead injected.2), ()) ∧
      (injectedHead injected.2).length < httpReqBufSz := by decide +kernel
  have read : ∀ injected ∈ injectedUrls, (readAddressed (injectedHead injected.2 ++ enrollRequest.body)).map
      (fun found => (found.1, decide (∃ line ∈ found.2, ascii "X-Added" <+: line))) =
        some (ascii "/a", true) := by decide +kernel
  have dirty : ∀ injected ∈ injectedUrls,
      ¬(32 ∉ injected.2.path ∧ 10 ∉ injected.2.path ∧ 10 ∉ injected.2.host) := by decide +kernel
  refine List.forall_iff_forall_mem.mpr fun injected inside => ?_
  obtain ⟨parsed, short, built, fits⟩ := accepted injected inside
  obtain ⟨⟨target, lines⟩, found, shown⟩ := Option.map_eq_some_iff.mp (read injected inside)
  simp only [Prod.mk.injEq, decide_eq_true_eq] at shown
  obtain ⟨rfl, added⟩ := shown
  exact ⟨parsed, short, enrollRequest_own, built, fits, ⟨lines, found, added⟩,
    fun back => dirty injected inside back.clean⟩

end WolfCert.Est
