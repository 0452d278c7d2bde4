import WolfCert.Http.Session

/-!
# One connection, one inbound stream

A plain transport that delivers a fixed byte stream and then closes in an orderly way. A plan says how
each coming read and write is cut or put off.
-/

namespace WolfCert.Http

open WolfCert.CLib

/-- What the next transport operation does: suspend the caller or move at most `n` bytes. -/
inductive Event where
  | wantRead
  | wantWrite
  | move (n : Nat)
deriving DecidableEq, Repr

def Event.isWant : Event → Bool
  | .wantRead | .wantWrite => true
  | .move _ => false

/-- The unread stream, the plan (empty: move all there is room for), whether the close is reported
as the result 0, and whether an allocation was refused so far. -/
structure Wire where
  rest : Bytes
  plan : List Event
  zeroClose : Bool
  refused : Bool
deriving DecidableEq, Repr

/-- No object is larger than half the address space. -/
def allocLimit : Nat := 2 ^ 63

def Wire.alloc (w : Wire) (size : Nat) : Bool × Wire :=
  if size < allocLimit then (true, w) else (false, { w with refused := true })

/-- Deliver at least one byte of the stream, or report its end. -/
def Wire.deliver (w : Wire) (n room : Nat) : ReadResult × Wire :=
  if w.rest = [] then (if w.zeroClose then .bytes [] else .code .errConnClosed, w)
  else
    let k := min (max n 1) room
    (.bytes (w.rest.take k), { w with rest := w.rest.drop k })

def Wire.read (w : Wire) (room : Nat) : ReadResult × Wire :=
  match w.plan with
  | [] => w.deliver room room
  | .wantRead :: plan => (.code .errWantRead, { w with plan })
  | .wantWrite :: plan => (.code .errWantWrite, { w with plan })
  | .move n :: plan => ({ w with plan } : Wire).deliver n room

def Wire.write (w : Wire) (buf : Bytes) : WriteResult × Wire :=
  match w.plan with
  | [] => (.count buf.length, w)
  | .wantRead :: plan => (.code .errWantRead, { w with plan })
  | .wantWrite :: plan => (.code .errWantWrite, { w with plan })
  | .move n :: plan => (.count (min (max n 1) buf.length), { w with plan })

/-- The environment of a plain connection with the clock at `now`; its TLS half is never used. -/
def wireEnv (now : Int) (base64EncodeNoNl : Bytes → Option Bytes) : Env Wire where
  alloc := Wire.alloc
  connect w _ _ _ := (.ok, w)
  setupTls w _ := (.errTls, w)
  read w room _ := w.read room
  write w buf _ := w.write buf
  sslConnect w _ := (.error .other, w)
  sslRead w _ _ := (.error .other, w)
  sslWrite w _ _ := (.error .other, w)
  wcTime _ := now
  base64EncodeNoNl := base64EncodeNoNl

/-! A base URL and a request for concrete runs. -/

def exampleUrl : Url where
  scheme := ascii "http"
  host := ascii "h"
  port := 80
  path := ascii "/"
  tls := false

def examplePost : HttpRequest where
  method := ascii "POST"
  url := ascii "http://h/p"
  contentType := none
  contentTransferEncoding := none
  accept := none
  body := ascii "ab"
  basicUser := none
  basicPass := none

end WolfCert.Http
