import WolfCert.CLib.Prog
import WolfCert.Crypto
import WolfCert.Http.ChunkedDecode
import WolfCert.Http.Framing

/-!
# Reading a request

How the two servers read one request from a connection: `parse_request_in` of `est_server.c`,
`read_request` of `scep_server.c` and what they share in `server.c`.
-/

namespace WolfCert.Server

open WolfCert.CLib WolfCert.Http

/-- The server's end of a connection: the bytes the client has still to send, how many of them each
receive gets (all that fit once the plan is over) and which allocations succeed (all once the list is
over). After the last byte the connection is closed. -/
structure Conn where
  rest : Bytes
  plan : List Nat
  memory : List Bool
deriving DecidableEq, Repr

def Conn.alloc (c : Conn) : Bool × Conn := (c.memory.headD true, { c with memory := c.memory.tail })

/-- What the next receive into that much room gets: a byte at least. -/
def Conn.arrives (c : Conn) (room : Nat) : Nat := min (min room c.rest.length) (max 1 (c.plan.headD room))

/-- `wolfcert_io_recv` for at most `room` bytes, some of which must be asked for. -/
def recvSome (room : Nat) : Prog Conn Rc Bytes :=
  Prog.callMap id fun c =>
    if c.rest = [] then (.error .errIo, c)
    else (.ok (c.rest.take (c.arrives room)),
      { c with rest := c.rest.drop (c.arrives room), plan := c.plan.tail })

def allocate : Prog Conn Rc Unit := do
  let granted ← Prog.call Conn.alloc
  Prog.require (granted = true) .errMemory

def crlfCrlf : Bytes := [13, 10, 13, 10]

/-- Receive until the blank line shows in the buffer, which is a C string, or the buffer is full. Every
turn adds a byte, so the room bounds their number. -/
def receiveHead (cap : Nat) : Nat → Bytes → Prog Conn Rc Bytes
  | 0, buf => pure buf
  | fuel + 1, buf =>
      if buf.length < cap then do
        let data ← recvSome (cap - buf.length)
        if (strstr crlfCrlf (cString (buf ++ data))).isSome then pure (buf ++ data)
        else receiveHead cap fuel (buf ++ data)
      else pure buf

/-- A line, ended by LF with or without a CR before it. -/
def readLine (p : Bytes) : Option (Bytes × Bytes) :=
  match p.dropWhile (· != 10) with
  | [] => none
  | _ :: rest =>
      let line := p.takeWhile (· != 10)
      some (if line.getLast? = some 13 then line.dropLast else line, rest)

structure RequestLine where
  method : Bytes
  target : Bytes
  version : Bytes
deriving DecidableEq, Repr

def parseRequestLine (line : Bytes) : Option RequestLine :=
  match line.dropWhile (· != 32) with
  | [] => none
  | _ :: after =>
      if (line.takeWhile (· != 32)).length ≥ 8 then none
      else
        match after.dropWhile (· != 32) with
        | [] => none
        | _ :: version => some ⟨line.takeWhile (· != 32), after.takeWhile (· != 32), version⟩

/-! ## Framing -/

/-- `WolfCertReqFraming`. -/
structure ReqFraming where
  http10 : Bool
  contentLength : Nat
  clSeen : Bool
  chunked : Bool
  close : Bool
  keepAlive : Bool
deriving DecidableEq, Repr

def framingInit (version : Bytes) : ReqFraming where
  http10 := version = ascii "HTTP/1.0"
  contentLength := 0
  clSeen := false
  chunked := false
  close := false
  keepAlive := false

def isToken (token : Bytes) (name : String) : Bool :=
  token.length = (ascii name).length ∧ asciiNcasecmp token (ascii name) (ascii name).length = 0

def teChunked (value : Bytes) : Bool := isToken (trimOws value) "chunked"

/-- The options of a Connection field; every turn consumes a byte. -/
def connOptions : Nat → Bytes → ReqFraming → ReqFraming
  | 0, _, f => f
  | fuel + 1, value, f =>
      if value = [] then f
      else
        let token := trimOws (value.takeWhile (· != 44))
        connOptions fuel ((value.dropWhile (· != 44)).drop 1)
          (if isToken token "close" then { f with close := true }
           else if isToken token "keep-alive" then { f with keepAlive := true }
           else f)

/-- A field of the framing, `some` if the line is one; `text` is the C string its value begins. -/
def framingHdr (f : ReqFraming) (line value text : Bytes) : Except Rc (Option ReqFraming) :=
  if httpHdrIs line (ascii "Content-Length") then
    .ok (some { f with contentLength := strtoul text, clSeen := true })
  else if httpHdrIs line (ascii "Transfer-Encoding") then
    if f.chunked = true ∨ teChunked value = false then .error .errProtocol
    else .ok (some { f with chunked := true })
  else if httpHdrIs line (ascii "Connection") then .ok (some (connOptions (value.length + 1) value f))
  else .ok none

def framingClose (f : ReqFraming) : Bool :=
  f.close || (f.http10 && !f.keepAlive) || (f.chunked && (f.clSeen || f.http10))

/-! ## Header lines -/

/-- What a server collects from the header lines. -/
structure HeadState where
  framing : ReqFraming
  authHeader : Option Bytes
deriving DecidableEq, Repr

/-- A header line; `after` is what the buffer holds behind it. -/
abbrev HeaderStep : Type := HeadState → Bytes → Bytes → Prog Conn Rc HeadState

/-- A second Authorization is refused; one that cannot be copied is left out. -/
def takeAuthorization (st : HeadState) (value : Bytes) : Prog Conn Rc HeadState := do
  Prog.require (st.authHeader = none) .errProtocol
  let granted ← Prog.call Conn.alloc
  pure (if granted then { st with authHeader := some (cString value) } else st)

def headerLine (authorizes : Bool) : HeaderStep := fun st line after =>
  match httpHdrSplit line with
  | .malformed => Prog.fail .errProtocol
  | .value value =>
      match framingHdr st.framing line value (cString (value ++ after)) with
      | .error rc => Prog.fail rc
      | .ok (some framing) => pure { st with framing }
      | .ok none =>
          if authorizes = true ∧ httpHdrIs line (ascii "Authorization") = true then
            takeAuthorization st value
          else pure st

/-- The header lines up to an empty one, or to where no line ends. With the state it returns the lines
it examined and the unread part of the buffer. -/
def headerLoop (step : HeaderStep) :
    Nat → Bytes → HeadState → Prog Conn Rc (HeadState × List Bytes × Bytes)
  | 0, p, st => pure (st, [], p)
  | fuel + 1, p, st =>
      match readLine p with
      | none => pure (st, [], p)
      | some (line, rest) =>
          if line = [] then pure (st, [], rest)
          else do
            let st ← step st line (p.drop line.length)
            let (st, lines, rest) ← headerLoop step fuel rest st
            pure (st, line :: lines, rest)

/-! ## Bodies -/

def maxRequestBody : Nat := 1024 * 1024

/-- Room for the framing of a chunked body. -/
def rawMax (maxBytes : Nat) : Nat := maxBytes + 64 * 1024

/-- A full buffer grows, up to its limit. -/
def growRaw (maxBytes : Nat) (raw : Bytes) (cap : Nat) : Prog Conn Rc Nat :=
  if raw.length = cap then do
    let grow := min (if cap < 2048 then 2048 else cap) (rawMax maxBytes - cap)
    Prog.require (grow ≠ 0) .errProtocol
    allocate
    pure (cap + grow)
  else pure cap

/-- `wolfcert_http_chunked_decode`. -/
def chunkedDecode (maxBytes : Nat) (raw : Bytes) : Prog Conn Rc Bytes := do
  Prog.require (raw ≠ []) .errProtocol
  allocate
  let body ← Prog.callMap id fun c => (decodeChunks raw, c)
  Prog.require (body.length ≤ maxBytes) .errProtocol
  pure body

/-- The loop of `wolfcert_server_read_chunked`; every turn adds a byte to `raw`. With the body it
returns the size of its encoding. -/
def readChunkedLoop (maxBytes : Nat) : Nat → Bytes → Nat → ChunkScan → Prog Conn Rc (Bytes × Nat)
  | 0, _, _, _ => Prog.fail .errProtocol
  | fuel + 1, raw, cap, scan =>
      match httpChunkedComplete raw scan with
      | (.malformed, _) => Prog.fail .errProtocol
      | (.complete, scan) => do
          let body ← chunkedDecode maxBytes raw
          pure (body, scan.pos)
      | (.more, scan) => do
          let cap ← growRaw maxBytes raw cap
          let data ← recvSome (cap - raw.length)
          readChunkedLoop maxBytes fuel (raw ++ data) cap scan

def readChunked (maxBytes : Nat) (bodyHave : Bytes) : Prog Conn Rc (Bytes × Nat) := do
  Prog.require (bodyHave.length ≤ rawMax maxBytes) .errProtocol
  if bodyHave = [] then pure () else allocate
  readChunkedLoop maxBytes (rawMax maxBytes + 1) bodyHave bodyHave.length (.start maxBytes)

/-- Receive the bytes that are left of a body; every turn gets one at least. -/
def recvLeft : Nat → Bytes → Nat → Prog Conn Rc Bytes
  | 0, body, _ => pure body
  | fuel + 1, body, left =>
      if left = 0 then pure body
      else do
        let data ← recvSome left
        recvLeft fuel (body ++ data) (left - data.length)

/-- The body and the size it has on the connection; what was received past it is dropped. -/
def readBody (framing : ReqFraming) (bodyHave : Bytes) : Prog Conn Rc (Bytes × Nat) :=
  if framing.chunked then readChunked maxRequestBody bodyHave
  else if framing.contentLength = 0 then pure ([], 0)
  else do
    Prog.require (framing.contentLength ≤ maxRequestBody) .errProtocol
    allocate
    let held := bodyHave.take framing.contentLength
    let left := framing.contentLength - held.length
    let body ← recvLeft left held left
    pure (body, framing.contentLength)

/-! ## Requests -/

structure ServerRequest where
  method : Bytes
  target : Bytes
  authHeader : Option Bytes
  connectionClose : Bool
  body : Bytes
deriving DecidableEq, Repr

/-- How a request was read: the header buffer, the lines examined in it, where in it the body begins,
the framing they gave, and the size of the body on the connection. -/
structure ReadTrace where
  buffer : Bytes
  lines : List Bytes
  bodyStart : Nat
  framing : ReqFraming
  bodySize : Nat
deriving DecidableEq, Repr

/-- The common part of the two readers: a header buffer for `cap` bytes, a check of the request line,
and whether the Authorization field is kept. -/
def readRequestIn (cap : Nat) (admits : RequestLine → Bool) (authorizes : Bool) :
    Prog Conn Rc (ServerRequest × ReadTrace) := do
  let buf ← receiveHead cap cap []
  match readLine buf with
  | none => Prog.fail .errProtocol
  | some (line, p) =>
      match parseRequestLine line with
      | none => Prog.fail .errProtocol
      | some request => do
          Prog.require (admits request = true) .errProtocol
          let (st, lines, rest) ← headerLoop (headerLine authorizes) (p.length + 1) p
            ⟨framingInit request.version, none⟩
          let (body, bodySize) ← readBody st.framing rest
          pure (⟨request.method, request.target, st.authHeader, framingClose st.framing, body⟩,
            ⟨buf, lines, buf.length - rest.length, st.framing, bodySize⟩)

def httpReqBufSz : Nat := 2048

def httpPathSz : Nat := 512

def httpQuerySz : Nat := 8192

/-- `parse_request_in`: the path has a buffer of its own. -/
def estParseRequest : Prog Conn Rc (ServerRequest × ReadTrace) :=
  readRequestIn (httpReqBufSz - 1) (fun request => request.target.length < httpPathSz) true

/-- `read_request`: the target is split inside the buffer, which is allocated. -/
def scepReadRequest : Prog Conn Rc (ServerRequest × ReadTrace) := do
  allocate
  readRequestIn (httpReqBufSz + httpQuerySz - 1) (fun _ => true) false

def readRequest : Protocol → Prog Conn Rc (ServerRequest × ReadTrace)
  | .est => estParseRequest
  | .scep => scepReadRequest

end WolfCert.Server
