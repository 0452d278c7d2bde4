import WolfCert.CLib.Bytes

namespace WolfCert

/-- The `WOLFCERT_*` return codes of `errors.h`. -/
inductive Rc where
  | ok
  | errGeneric
  | errBadArg
  | errMemory
  | errIo
  | errTls
  | errHttp
  | errProtocol
  | errAuth
  | errCrypto
  | errParse
  | errNotFound
  | errUnsupported
  | errPending
  | errWantRead
  | errWantWrite
  | errConnClosed
deriving DecidableEq, Repr

def Rc.toInt : Rc → Int
  | .ok => 0
  | .errGeneric => -1
  | .errBadArg => -2
  | .errMemory => -3
  | .errIo => -4
  | .errTls => -5
  | .errHttp => -6
  | .errProtocol => -7
  | .errAuth => -8
  | .errCrypto => -9
  | .errParse => -10
  | .errNotFound => -11
  | .errUnsupported => -12
  | .errPending => -13
  | .errWantRead => -14
  | .errWantWrite => -15
  | .errConnClosed => -16

/-- The two codes that suspend a nonblocking call. -/
def Rc.isWant (rc : Rc) : Bool :=
  rc == .errWantRead || rc == .errWantWrite

@[simp] theorem Rc.isWant_iff (rc : Rc) :
    rc.isWant = true ↔ rc = .errWantRead ∨ rc = .errWantWrite := by
  cases rc <;> simp [isWant]

/-- The codes that end a call without suspending it. -/
def Rc.Refuses (rc : Rc) : Prop := rc ≠ .ok ∧ rc.isWant = false

/-- A failure of an exchange, as opposed to the refusal of a closed session. -/
def Rc.Fails (rc : Rc) : Prop := rc.Refuses ∧ rc ≠ .errConnClosed

/-- The wolfSSL codes `wolfcert_map_wc_err` tells apart. -/
inductive WcErr where
  | memoryE
  | badFuncArg
  | bufferE
  | asnParseE
  | notCompiledIn
  | algoIdE
  | other
deriving DecidableEq, Repr

def mapWcErr : WcErr → Rc
  | .memoryE => .errMemory
  | .badFuncArg => .errBadArg
  | .bufferE => .errMemory
  | .asnParseE => .errParse
  | .notCompiledIn => .errUnsupported
  | .algoIdE => .errUnsupported
  | .other => .errCrypto

end WolfCert
