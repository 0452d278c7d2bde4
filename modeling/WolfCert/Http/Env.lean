import WolfCert.Errors

/-!
# The world outside the HTTP client

Heap, transport, TLS library and clock as operations on an arbitrary world state. Every result is
the world's to choose, so a statement over all environments covers every schedule and every fault.
-/

namespace WolfCert.Http

open WolfCert.CLib

/-- A transport read: the bytes put into the buffer (`r > 0`, or `r = 0` when empty) or a code. -/
inductive ReadResult where
  | bytes (data : Bytes)
  | code (rc : Rc)
deriving DecidableEq, Repr

/-- A transport write: how many bytes it claims to have accepted, or a code. -/
inductive WriteResult where
  | count (n : Nat)
  | code (rc : Rc)
deriving DecidableEq, Repr

/-- The `wolfSSL_get_error` values the client tells apart. -/
inductive SslError where
  | wantRead
  | wantWrite
  | zeroReturn
  | memory
  | other
deriving DecidableEq, Repr

inductive SslConnect where
  | success
  | error (e : SslError)
deriving DecidableEq, Repr

/-- `bytes []` is the result 0 of `wolfSSL_read`; it never exceeds the room it was given. -/
inductive SslRead where
  | bytes (data : Bytes)
  | error (e : SslError)
deriving DecidableEq, Repr

/-- `wolfSSL_write` accepts at most what it was offered, and `count 0` is its result 0. -/
inductive SslWrite where
  | count (n : Nat)
  | error (e : SslError)
deriving DecidableEq, Repr

/-- `alloc` answers a request for that many bytes; the integers are I/O timeouts, zero meaning
nonblocking. `setupTls` stands for the wolfSSL context and session set up for a host. -/
structure Env (σ : Type) where
  alloc : σ → Nat → Bool × σ
  connect : σ → Bytes → Int → Int → Rc × σ
  setupTls : σ → Bytes → Rc × σ
  read : σ → Nat → Int → ReadResult × σ
  write : σ → Bytes → Int → WriteResult × σ
  sslConnect : σ → Int → SslConnect × σ
  sslRead : σ → Nat → Int → SslRead × σ
  sslWrite : σ → Bytes → Int → SslWrite × σ
  wcTime : σ → Int
  base64EncodeNoNl : Bytes → Option Bytes

variable {σ α : Type}

/-- Allocate, or give up with the value `failed`. -/
def Env.withAlloc (env : Env σ) (w : σ) (size : Nat) (failed : α) (next : σ → α × σ) : α × σ :=
  match env.alloc w size with
  | (true, w) => next w
  | (false, w) => (failed, w)

end WolfCert.Http
