import WolfCert.Http.Chunked
import WolfCert.Http.RetryAfter
import WolfCert.Http.Url

/-!
# The HTTP session state machine

One exchange of `http.c`: the session record, the caller's response and the world outside, and the
functions that move them. A result `none` is a call that never returns.
-/

namespace WolfCert.Http

open WolfCert.CLib

variable {σ : Type}

def headerBudget : Nat := 8192

def readChunk : Nat := 2048

def maxInterim : Nat := 8

def defaultMaxBody : Nat := 64 * 1024

inductive SmState where
  | idle
  | handshake
  | writeHead
  | writeBody
  | readHead
  | readBodyCl
  | readBodyEof
  | readBodyChunked
  | done
deriving DecidableEq, Repr

/-- `WolfCertHttpResponse`; an empty body is the NULL one. -/
structure HttpResponse where
  statusCode : Int
  contentType : Option Bytes
  body : Bytes
  retryAfterSec : Int
deriving DecidableEq, Repr

def HttpResponse.zero : HttpResponse :=
  { statusCode := 0, contentType := none, body := [], retryAfterSec := 0 }

/-- `WolfCertHttpSession`. A buffer and its length are one list, an empty one being NULL or unused;
`smResp` is the address of the response of the request in flight. -/
structure HttpSession where
  ssl : Bool
  ioTimeoutMs : Int
  base : Url
  maxBody : Nat
  closed : Bool
  keepAlive : Bool
  smHeadRequest : Bool
  smState : SmState
  smHead : Bytes
  smTxOff : Nat
  smBody : Bytes
  smRx : Bytes
  smRxCap : Nat
  smHdrEnd : Nat
  smHdrScan : Nat
  smScan : ChunkScan
  smContentLength : Int
  smContentType : Option Bytes
  smStatus : Int
  smRetryAfterSec : Int
  smInterim : Nat
  smResp : Option Nat
deriving DecidableEq, Repr

/-- The session under way, the response it writes to and the world. -/
structure Exchange (σ : Type) where
  session : HttpSession
  resp : HttpResponse
  world : σ

/-- The record `wolfcert_http_session_open` leaves: all zero but for these fields. -/
def HttpSession.opened (base : Url) (maxBody : Nat) : HttpSession where
  ssl := base.tls
  ioTimeoutMs := 0
  base := base
  maxBody := maxBody
  closed := false
  keepAlive := true
  smHeadRequest := false
  smState := if base.tls then .handshake else .idle
  smHead := []
  smTxOff := 0
  smBody := []
  smRx := []
  smRxCap := 0
  smHdrEnd := 0
  smHdrScan := 0
  smScan := .start 0
  smContentLength := 0
  smContentType := none
  smStatus := 0
  smRetryAfterSec := 0
  smInterim := 0
  smResp := none

/-- Open a session; 1 is the size class of the session record itself. -/
def httpSessionOpen (env : Env σ) (w : σ) (baseUrl : Bytes) (maxResponseBytes : Nat)
    (timeoutMs : Int) : Except Rc HttpSession × σ :=
  let maxBody := if maxResponseBytes ≠ 0 then maxResponseBytes else defaultMaxBody
  env.withAlloc w 1 (.error .errMemory) fun w =>
    match httpUrlParse env w baseUrl with
    | (.error rc, w) => (.error rc, w)
    | (.ok base, w) =>
        match env.connect w base.host base.port timeoutMs with
        | (.ok, w) =>
            if base.tls then
              match env.setupTls w base.host with
              | (.ok, w) => (.ok (.opened base maxBody), w)
              | (rc, w) => (.error rc, w)
            else (.ok (.opened base maxBody), w)
        | (rc, w) => (.error rc, w)

def httpSessionSetClose (s : HttpSession) : HttpSession := { s with keepAlive := false }

def smReset (s : HttpSession) : HttpSession :=
  { s with
    smHead := [], smBody := [], smTxOff := 0, smRx := [], smRxCap := 0, smHdrEnd := 0
    smHdrScan := 0, smContentLength := -1, smContentType := none, smStatus := 0
    smResp := none, smRetryAfterSec := 0, smHeadRequest := false, smInterim := 0
    smScan := .start 0 }

def smFail (s : HttpSession) : HttpSession := smReset { s with closed := true }

/-- The write loop; every turn that goes on moves the offset, so the unsent length bounds it. -/
def nbWriteLoop (env : Env σ) (ssl : Bool) (timeout : Int) (buf : Bytes) :
    Nat → Nat → σ → Rc × Nat × σ
  | 0, off, w => (.ok, off, w)
  | fuel + 1, off, w =>
      if off < buf.length then
        if ssl then
          match env.sslWrite w (buf.drop off) timeout with
          | (.count n, w) =>
              if n > 0 then
                nbWriteLoop env ssl timeout buf fuel (off + min n (buf.length - off)) w
              else (.errIo, off, w)
          | (.error .wantWrite, w) => (.errWantWrite, off, w)
          | (.error .wantRead, w) => (.errWantRead, off, w)
          | (.error _, w) => (.errIo, off, w)
        else
          match env.write w (buf.drop off) timeout with
          | (.count n, w) =>
              if n > buf.length - off then (.errIo, off, w)
              else if n > 0 then nbWriteLoop env ssl timeout buf fuel (off + n) w
              else (.errIo, off, w)
          | (.code rc, w) => (if rc.isWant then rc else .errIo, off, w)
      else (.ok, off, w)

def nbWrite (env : Env σ) (s : HttpSession) (buf : Bytes) (w : σ) : Rc × Nat × σ :=
  nbWriteLoop env s.ssl s.ioTimeoutMs buf (buf.length - s.smTxOff) s.smTxOff w

def rxMax (maxBody : Nat) : Nat := sizeAdd maxBody headerBudget

/-- `while (nc < want) nc *= 2`: 64 doublings leave zero, from which the loop never ends. -/
def growCap (want : Nat) : Nat → Nat → Option Nat
  | 0, nc => if nc < want then none else some nc
  | fuel + 1, nc => if nc < want then growCap want fuel (sizeDouble nc) else some nc

def nbRxReserve (env : Env σ) (x : Exchange σ) (need : Nat) : Option (Rc × Exchange σ) :=
  let s := x.session
  let want := sizeAdd s.smRx.length need
  let max := rxMax s.maxBody
  if want ≤ s.smRxCap then some (.ok, x)
  else if want > max then some (.errProtocol, x)
  else
    match growCap want 64 (if s.smRxCap ≠ 0 then s.smRxCap else 1024) with
    | none => none
    | some nc =>
        let nc := if nc > max then max else nc
        match env.alloc x.world nc with
        | (true, w) => some (.ok, { x with session := { s with smRxCap := nc }, world := w })
        | (false, w) => some (.errMemory, { x with world := w })

/-- What `nb_read_some` returns: its code, its `ended` output and the exchange. -/
abbrev ReadSome (σ : Type) := Rc × Bool × Exchange σ

/-- The bytes of one positive or zero read result, a probe taking none of them. -/
def takeRead (x : Exchange σ) (probing : Bool) (data : Bytes) : ReadSome σ :=
  if data = [] then (.ok, true, x)
  else if probing then (.errProtocol, false, x)
  else (.ok, false, { x with session := { x.session with smRx := x.session.smRx ++ data } })

def nbReceive (env : Env σ) (x : Exchange σ) (room : Nat) (probing : Bool) : ReadSome σ :=
  let s := x.session
  if s.ssl then
    match env.sslRead x.world room s.ioTimeoutMs with
    | (.bytes data, w) => takeRead { x with world := w } probing (data.take room)
    | (.error .wantRead, w) => (.errWantRead, false, { x with world := w })
    | (.error .wantWrite, w) => (.errWantWrite, false, { x with world := w })
    | (.error .zeroReturn, w) => (.ok, true, { x with world := w })
    | (.error _, w) => (.errIo, false, { x with world := w })
  else
    match env.read x.world room s.ioTimeoutMs with
    | (.bytes data, w) =>
        if data.length > room then (.errIo, false, { x with world := w })
        else takeRead { x with world := w } probing data
    | (.code .errConnClosed, w) => (.ok, true, { x with world := w })
    | (.code rc, w) => (if rc.isWant then rc else .errIo, false, { x with world := w })

/-- Append to the receive buffer while it holds fewer than `limit` bytes. At the limit one byte is
probed for the close: data instead overruns the allowance. -/
def nbReadSome (env : Env σ) (x : Exchange σ) (limit : Nat) : Option (ReadSome σ) :=
  let len := x.session.smRx.length
  if len > limit then some (.errProtocol, false, x)
  else if limit - len = 0 then some (nbReceive env x 1 true)
  else
    let room := min (limit - len) readChunk
    match nbRxReserve env x room with
    | none => none
    | some (.ok, x) => some (nbReceive env x room false)
    | some (rc, x) => some (rc, false, x)

/-- `find_header` with the allocation of its copy; without memory the field counts as absent. -/
def findHeaderCopy (env : Env σ) (w : σ) (hdrs : Bytes) (name : String) : Option Bytes × σ :=
  match findHeader hdrs (ascii name) with
  | none => (none, w)
  | some value => env.withAlloc w (value.length + 1) none fun w => (some value, w)

/-- The framing fields of a final response: whether it is chunked, and its Content-Length. -/
def replyLength (env : Env σ) (w : σ) (s : HttpSession) (hdrs : Bytes) : (Bool × Int) × σ :=
  if responseHasNoBody s.smStatus s.smHeadRequest then ((false, 0), w)
  else
    let (te, w) := findHeaderCopy env w hdrs "Transfer-Encoding"
    let chunked := match te with
      | some te => decide (ciCmp te (ascii "chunked") = 0)
      | none => false
    let (cl, w) := findHeaderCopy env w hdrs "Content-Length"
    let contentLength := match cl with
      | some cl => (strtol cl).1
      | none => -1
    ((chunked, contentLength), w)

def chooseBody (s : HttpSession) (chunked : Bool) : HttpSession :=
  if chunked then { s with smScan := .start s.maxBody, smState := .readBodyChunked }
  else if s.smContentLength ≥ 0 then { s with smState := .readBodyCl }
  else { s with smState := .readBodyEof }

/-- The session with the header fields of a final response stored. -/
def acceptHead (s : HttpSession) (chunked : Bool) (contentLength : Int) (contentType : Option Bytes)
    (retryAfterSec : Int) : HttpSession :=
  { chooseBody { s with smContentLength := contentLength } chunked with
    smContentType := contentType, smRetryAfterSec := retryAfterSec }

/-- The rest of `inspect_headers` for a final response whose status is already stored. -/
def inspectFinal (env : Env σ) (w : σ) (s : HttpSession) (hdrs : Bytes) : (Rc × HttpSession) × σ :=
  let ((chunked, contentLength), w) := replyLength env w s hdrs
  if contentLength ≥ 0 ∧ contentLength.toNat > s.maxBody then
    ((.errProtocol, { s with smContentLength := contentLength }), w)
  else
    let (contentType, w) := findHeaderCopy env w hdrs "Content-Type"
    let (retryAfter, w) := findHeaderCopy env w hdrs "Retry-After"
    let seconds := match retryAfter with
      | some value => parseRetryAfter value (env.wcTime w)
      | none => 0
    ((.ok, acceptHead s chunked contentLength contentType seconds), w)

def inspectHeaders (env : Env σ) (x : Exchange σ) : Rc × Exchange σ :=
  let s := x.session
  match env.alloc x.world (s.smHdrEnd + 1) with
  | (false, w) => (.errMemory, { x with world := w })
  | (true, w) =>
      let hdrs := cString (s.smRx.take s.smHdrEnd)
      match parseStatusLine hdrs with
      | none => (.errProtocol, { x with world := w })
      | some status =>
          let s := { s with smStatus := status }
          if status = 101 then (.errProtocol, { x with session := s, world := w })
          else if statusIsInterim status then (.ok, { x with session := s, world := w })
          else
            let ((rc, s), w) := inspectFinal env w s hdrs
            (rc, { x with session := s, world := w })

/-- Move the body to the front of the receive buffer and hand the buffer over. -/
def smTakeBody (s : HttpSession) (bodyLen : Nat) : Bytes × HttpSession :=
  if bodyLen = 0 then ([], s)
  else ((memmove s.smRx 0 s.smHdrEnd bodyLen).take bodyLen, { s with smRx := [], smRxCap := 0 })

def smPublish (x : Exchange σ) (body : Bytes) : Exchange σ :=
  let s := x.session
  { x with
    resp := { statusCode := s.smStatus, contentType := s.smContentType, body
              retryAfterSec := s.smRetryAfterSec }
    session := { s with smContentType := none, smState := .done } }

/-- Take the body out of the receive buffer and publish it. -/
def smDeliver (x : Exchange σ) (bodyLen : Nat) : Exchange σ :=
  let (body, s) := smTakeBody x.session bodyLen
  smPublish { x with session := s } body

def smHandshake (env : Env σ) (x : Exchange σ) : Rc × Exchange σ :=
  match env.sslConnect x.world x.session.ioTimeoutMs with
  | (.success, w) =>
      (.ok, { x with session := { x.session with smState := .writeHead }, world := w })
  | (.error .wantRead, w) => (.errWantRead, { x with world := w })
  | (.error .wantWrite, w) => (.errWantWrite, { x with world := w })
  | (.error .memory, w) => (.errMemory, { x with world := w })
  | (.error _, w) => (.errTls, { x with world := w })

def smWriteHead (env : Env σ) (x : Exchange σ) : Rc × Exchange σ :=
  let s := x.session
  match nbWrite env s s.smHead x.world with
  | (.ok, _, w) =>
      let next := if s.smBody.length > 0 then .writeBody else .readHead
      (.ok, { x with session := { s with smHead := [], smTxOff := 0, smState := next }, world := w })
  | (rc, off, w) => (rc, { x with session := { s with smTxOff := off }, world := w })

def smWriteBody (env : Env σ) (x : Exchange σ) : Rc × Exchange σ :=
  let s := x.session
  match nbWrite env s s.smBody x.world with
  | (.ok, off, w) =>
      (.ok, { x with session := { s with smTxOff := off, smState := .readHead }, world := w })
  | (rc, off, w) => (rc, { x with session := { s with smTxOff := off }, world := w })

/-- Where the search for the blank line stops: at it, or where fewer than four bytes are left. -/
def headScan : Bytes → Nat → Nat
  | a :: b :: c :: d :: rest, i =>
      if a = 13 ∧ b = 10 ∧ c = 13 ∧ d = 10 then i else headScan (b :: c :: d :: rest) (i + 1)
  | _, i => i

/-- The code of a read that must not meet the end of the stream. -/
def readThrough : ReadSome σ → Rc × Exchange σ
  | (rc, ended, x) => (if rc = .ok ∧ ended = true then .errIo else rc, x)

/-- Drop a complete interim head, or refuse one too many. -/
def smDropInterim (x : Exchange σ) : Rc × Exchange σ :=
  let s := { x.session with smInterim := x.session.smInterim + 1 }
  if s.smInterim > maxInterim then (.errProtocol, { x with session := s })
  else
    let rest := (memmove s.smRx 0 s.smHdrEnd (s.smRx.length - s.smHdrEnd)).take
      (s.smRx.length - s.smHdrEnd)
    (.ok, { x with session := { s with smRx := rest, smHdrEnd := 0, smHdrScan := 0 } })

def smReadHead (env : Env σ) (x : Exchange σ) : Option (Rc × Exchange σ) :=
  let s := x.session
  let i := headScan (s.smRx.drop s.smHdrScan) s.smHdrScan
  if i + 3 ≥ s.smRx.length then
    if s.smRx.length ≥ headerBudget then some (.errProtocol, x)
    else
      (nbReadSome env { x with session := { s with smHdrScan := i } } headerBudget).map readThrough
  else
    match inspectHeaders env { x with session := { s with smHdrEnd := i + 4 } } with
    | (.ok, x) =>
        if statusIsInterim x.session.smStatus then some (smDropInterim x) else some (.ok, x)
    | (rc, x) => some (rc, x)

def smReadBodyCl (env : Env σ) (x : Exchange σ) : Option (Rc × Exchange σ) :=
  let s := x.session
  let bodyLen := s.smContentLength.toNat
  let stop := sizeAdd s.smHdrEnd bodyLen
  if s.smRx.length < stop then
    if s.smRxCap < stop then
      match env.alloc x.world stop with
      | (false, w) => some (.errMemory, { x with world := w })
      | (true, w) =>
          (nbReadSome env { x with session := { s with smRxCap := stop }, world := w } stop).map
            readThrough
    else (nbReadSome env x stop).map readThrough
  else
    let s := if s.smRx.length > stop then { s with closed := true } else s
    some (.ok, smDeliver { x with session := s } bodyLen)

def smReadBodyChunked (env : Env σ) (x : Exchange σ) : Option (Rc × Exchange σ) :=
  let s := x.session
  match httpChunkedComplete (s.smRx.drop s.smHdrEnd) s.smScan with
  | (.malformed, scan) => some (.errProtocol, { x with session := { s with smScan := scan } })
  | (.more, scan) =>
      (nbReadSome env { x with session := { s with smScan := scan } } (rxMax s.maxBody)).map
        readThrough
  | (.complete, scan) =>
      let stop := s.smHdrEnd + scan.pos
      let decoded := chunkedDecodeInto s.smRx 0 s.smHdrEnd scan.pos
      let s := { s with smScan := scan, smRx := decoded.memory }
      if decoded.rc ≠ .ok then some (decoded.rc, { x with session := s })
      else
        let s := if x.session.smRx.length > stop then { s with closed := true } else s
        some (.ok, smDeliver { x with session := { s with smHdrEnd := 0 } } decoded.outLen)

def smReadBodyEof (env : Env σ) (x : Exchange σ) : Option (Rc × Exchange σ) :=
  match nbReadSome env x (sizeAdd x.session.smHdrEnd x.session.maxBody) with
  | none => none
  | some (.ok, true, x) =>
      let x := smDeliver x (x.session.smRx.length - x.session.smHdrEnd)
      some (.ok, { x with session := { x.session with closed := true } })
  | some (rc, _, x) => some (rc, x)

def smDone (s : HttpSession) : HttpSession :=
  { s with
    smHead := [], smRx := [], smRxCap := 0, smHdrEnd := 0, smHdrScan := 0, smResp := none
    smState := .idle }

/-- One turn of the loop of `sm_run`. -/
def smStep (env : Env σ) (x : Exchange σ) : Option (Rc × Exchange σ) :=
  match x.session.smState with
  | .handshake => some (smHandshake env x)
  | .writeHead => some (smWriteHead env x)
  | .writeBody => some (smWriteBody env x)
  | .readHead => smReadHead env x
  | .readBodyCl => smReadBodyCl env x
  | .readBodyEof => smReadBodyEof env x
  | .readBodyChunked => smReadBodyChunked env x
  | .done => some (.ok, { x with session := smDone x.session })
  | .idle => some (.errGeneric, x)

def smLoop (env : Env σ) : Nat → Exchange σ → Option (Rc × Exchange σ)
  | 0, _ => none
  | fuel + 1, x =>
      match smStep env x with
      | none => none
      | some (rc, x) =>
          if rc = .ok ∧ x.session.smState ≠ .idle then smLoop env fuel x else some (rc, x)

/-- More turns than any exchange takes: each one that goes on leaves a state behind, drops an
interim head or lengthens a receive buffer that stays below `size_t`. -/
def smFuel : Nat := 2 ^ 66

/-- A request that failed is dropped and its session closed; one that waits is kept. -/
def smSettle (rc : Rc) (s : HttpSession) : HttpSession :=
  if rc.isWant ∨ rc = .ok then s else smFail s

def smRun (env : Env σ) (x : Exchange σ) : Option (Rc × Exchange σ) :=
  (smLoop env smFuel x).map fun (rc, x) => (rc, { x with session := smSettle rc x.session })

/-- Hold a new request whose head is built. -/
def smHold (s : HttpSession) (req : HttpRequest) (head : Bytes) (resp : Nat) : HttpSession :=
  { s with
    smHead := head, smTxOff := 0, smResp := some resp, smBody := req.body
    smHeadRequest := req.method == ascii "HEAD", smInterim := 0
    smState := if s.smState = .handshake then .handshake else .writeHead }

/-- The head for a request that fits the session's base URL. -/
def requestHead (env : Env σ) (w : σ) (base : Url) (keepAlive : Bool) (req : HttpRequest) :
    Except Rc Bytes × σ :=
  match httpUrlParse env w req.url with
  | (.error rc, w) => (.error rc, w)
  | (.ok u, w) =>
      if u.tls ≠ base.tls ∨ u.port ≠ base.port ∨ ciCmp u.host base.host ≠ 0 then
        (.error .errBadArg, w)
      else buildHead env w keepAlive req u

def smBegin (env : Env σ) (x : Exchange σ) (req : HttpRequest) (resp : Nat) : Rc × Exchange σ :=
  match requestHead env x.world x.session.base x.session.keepAlive req with
  | (.error rc, w) => (rc, { x with resp := .zero, world := w })
  | (.ok head, w) => (.ok, { session := smHold x.session req head resp, resp := .zero, world := w })

/-- A blocking call may not be suspended: the request fails instead. -/
def refuseWant (nb : Bool) : Rc × Exchange σ → Rc × Exchange σ
  | (rc, x) =>
      if nb = false ∧ rc.isWant then (.errIo, { x with session := smFail x.session }) else (rc, x)

/-- The exchange with the timeout a call sets on its connection. -/
def Exchange.timed (x : Exchange σ) (nb : Bool) : Exchange σ :=
  { x with session := { x.session with ioTimeoutMs := if nb then 0 else -1 } }

/-- `http_session_call` with `x.resp` the response object at address `resp`. -/
def httpSessionCall (env : Env σ) (x : Exchange σ) (req : HttpRequest) (resp : Nat) (nb : Bool) :
    Option (Rc × Exchange σ) :=
  let s := x.session
  if s.closed then some (.errConnClosed, x)
  else if s.smResp ≠ none ∧ (nb = false ∨ s.smResp ≠ some resp) then some (.errBadArg, x)
  else if s.smResp = none then
    match smBegin env (x.timed nb) req resp with
    | (.ok, x) => (smRun env x).map (refuseWant nb)
    | (rc, x) => some (rc, x)
  else (smRun env (x.timed nb)).map (refuseWant nb)

end WolfCert.Http
