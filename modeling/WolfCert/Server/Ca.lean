import WolfCert.Crypto

/-!
# The CA of the test servers

Its key and certificate, made by `wolfcert_ca_generate` and kept in a store by `wolfcert_ca_save` and
`wolfcert_ca_load`. Any call of the store may fail.
-/

namespace WolfCert.Server

open WolfCert.CLib

/-- `WolfCertKeyType`. -/
inductive KeyAlg where
  | rsa
  | ecc
  | ed25519
  | ed448
  | mldsa44
  | mldsa65
  | mldsa87
deriving DecidableEq, Repr

/-- What `ca_check_stored_pair` reads of the stored certificate: `keyAlg` stands for its key OID, and
no public key is NULL. -/
structure StoredCert where
  isCa : Bool
  extKeyUsageSet : Bool
  keyCertSign : Bool
  keyAlg : Option KeyAlg
  publicKey : Option Bytes
deriving DecidableEq, Repr

/-- Why `pub_check` of a key algorithm may refuse. -/
inductive PubFault where
  | memory
  | parse
  | crypto
  | wc (e : WcErr)
deriving DecidableEq, Repr

def PubFault.rc : PubFault → Rc
  | .memory => .errMemory
  | .parse => .errParse
  | .crypto => .errCrypto
  | .wc e => mapWcErr e

/-- The table of key algorithms and the certificate functions over it. A private key in memory is
the bytes that stand for it. -/
structure CaCrypto (σ : Type) extends WolfCrypt σ where
  keyAlgs : List KeyAlg
  defaultKeyType : KeyAlg
  derCapHint : KeyAlg → Nat
  keyInit : KeyAlg → σ → Except WcErr Unit × σ
  keyMake : KeyAlg → Int → σ → Except WcErr Bytes × σ
  keyDecode : KeyAlg → Bytes → σ → Option Bytes × σ
  keyToDer : KeyAlg → Bytes → Nat → σ → Except WcErr Bytes × σ
  pubCheck : KeyAlg → Bytes → Bytes → σ → Except PubFault Unit × σ
  parseStored : Bytes → σ → Except WcErr StoredCert × σ
  makeCaCert : KeyAlg → Bytes → Nat → σ → Except WcErr Bytes × σ
  signCert : KeyAlg → Bytes → Bytes → Nat → σ → Except WcErr Bytes × σ

/-- `WolfCertCa`: an empty certificate or key is NULL. -/
structure Ca where
  type : KeyAlg
  impl : Bytes
  certDer : Bytes
  keyDer : Bytes
deriving DecidableEq, Repr

variable {σ : Type} (env : CaCrypto σ)

def newCert (env : WolfCrypt σ) : Prog σ Rc Unit := do
  let granted ← Prog.call env.certNew
  Prog.require (granted = true) .errMemory

/-- The self-signed certificate. A size of zero is no error code: the function then returns OK
without a certificate. -/
def genSelfSignedCert (type : KeyAlg) (impl : Bytes) : Prog σ Rc Bytes := do
  Prog.require (type ∈ env.keyAlgs) .errUnsupported
  newCert env.toWolfCrypt
  Prog.callMap mapWcErr env.setKeyUsage
  Prog.callMap (fun _ => .errCrypto) env.initRng
  let cap := env.derCapHint type + 4096
  env.allocate cap
  let body ← Prog.callMap mapWcErr (env.makeCaCert type impl cap)
  if body = [] then pure []
  else Prog.callMap mapWcErr (env.signCert type impl body cap)

/-- The default size of an RSA or ECC key. -/
def caKeyParam (type : KeyAlg) (param : Int) : Int :=
  if param = 0 then
    match type with
    | .rsa => 2048
    | .ecc => 256
    | _ => 0
  else param

def caGenerate (type : Option KeyAlg) (param : Int) : Prog σ Rc Ca := do
  let type := type.getD env.defaultKeyType
  Prog.require (type ∈ env.keyAlgs) .errUnsupported
  Prog.callMap mapWcErr (env.keyInit type)
  Prog.callMap (fun _ => .errCrypto) env.initRng
  let impl ← Prog.callMap mapWcErr (env.keyMake type (caKeyParam type param))
  let cap := env.derCapHint type + 2048
  env.allocate cap
  let keyDer ← Prog.callMap mapWcErr (env.keyToDer type impl cap)
  -- a size of zero is no error code here either
  if keyDer = [] then pure { type, impl := [], certDer := [], keyDer := [] }
  else
    let certDer ← genSelfSignedCert env type impl
    pure { type, impl, certDer, keyDer }

/-! ## The store -/

/-- A code that a failing read may return: NOT_FOUND is kept for an entry that is absent. -/
def ReadFault : Type := { rc : Rc // rc ≠ .ok ∧ rc ≠ .errNotFound }

/-- A code that a failing write or remove may return. -/
def StoreFault : Type := { rc : Rc // rc ≠ .ok }

/-- The callbacks of `WolfCertStoreOps`: which calls fail. A failing write or remove changes nothing;
`remove` may be NULL. -/
structure StoreOps (σ : Type) where
  readFault : Bytes → σ → Option ReadFault × σ
  writeFault : Bytes → Bytes → σ → Option StoreFault × σ
  removeFault : Option (Bytes → σ → Option StoreFault × σ)

/-- One call of the store and its result. -/
inductive StoreCall where
  | read (key : Bytes) (rc : Rc)
  | write (key : Bytes) (rc : Rc)
  | remove (key : Bytes) (rc : Rc)
deriving DecidableEq, Repr

def StoreCall.changes : StoreCall → Bool
  | .read _ _ => false
  | .write _ _ | .remove _ _ => true

/-- The world with the entries of the store, and the calls made of it, oldest first. -/
structure Stored (σ : Type) where
  entries : Bytes → Option Bytes
  calls : List StoreCall
  world : σ

/-- A program that does not touch the store. -/
def outside {ε α : Type} (p : Prog σ ε α) : Prog (Stored σ) ε α := fun s =>
  (p s.world).map fun (result, world) => (result, { s with world })

variable (ops : StoreOps σ)

/-- The return code of a read. -/
def readRc : Except Rc Bytes → Rc
  | .ok _ => .ok
  | .error rc => rc

def storeRead (key : Bytes) (s : Stored σ) : Except Rc Bytes × Stored σ :=
  let (fault, world) := ops.readFault key s.world
  let result : Except Rc Bytes := match fault, s.entries key with
    | some rc, _ => .error rc.1
    | none, none => .error .errNotFound
    | none, some data => .ok data
  (result, { s with calls := s.calls ++ [.read key (readRc result)], world })

def storeWrite (key data : Bytes) (s : Stored σ) : Rc × Stored σ :=
  match ops.writeFault key data s.world with
  | (some rc, world) => (rc.1, { s with calls := s.calls ++ [.write key rc.1], world })
  | (none, world) =>
      (.ok, { entries := Function.update s.entries key (some data)
              calls := s.calls ++ [.write key .ok], world })

/-- A callback that is NULL is not called, which counts as a failure. -/
def storeRemove (key : Bytes) (s : Stored σ) : Bool × Stored σ :=
  match ops.removeFault with
  | none => (false, s)
  | some remove =>
      match remove key s.world with
      | (some rc, world) => (false, { s with calls := s.calls ++ [.remove key rc.1], world })
      | (none, world) =>
          (true, { entries := Function.update s.entries key none
                   calls := s.calls ++ [.remove key .ok], world })

def caCertKey : Bytes := ascii "ca.cert.der"

def caKeyKey : Bytes := ascii "ca.key.der"

def caCheckStoredPair (alg : KeyAlg) (impl certDer : Bytes) : Prog σ Rc Unit := do
  env.allocate 1
  let dc ← Prog.callMap (fun _ => .errParse) (env.parseStored certDer)
  Prog.require (dc.isCa = true ∧ ¬ (dc.extKeyUsageSet = true ∧ dc.keyCertSign = false)) .errParse
  match dc.publicKey with
  | none => Prog.fail .errParse
  | some publicKey => do
      Prog.require (dc.keyAlg = some alg) .errParse
      Prog.callMap PubFault.rc (env.pubCheck alg impl publicKey)

/-- The first algorithm whose decoder accepts the stored key decides. -/
def caDecodePair (certDer keyDer : Bytes) : List KeyAlg → Prog σ Rc Ca
  | [] => Prog.fail .errParse
  | alg :: later => do
      match ← Prog.call (env.keyInit alg) with
      | .error _ => caDecodePair certDer keyDer later
      | .ok () =>
          match ← Prog.call (env.keyDecode alg keyDer) with
          | none => caDecodePair certDer keyDer later
          | some impl => do
              caCheckStoredPair env alg impl certDer
              pure { type := alg, impl, certDer, keyDer }

/-- The code of a load that did not read both halves. -/
def caLoadError (certRc keyRc : Rc) : Rc :=
  if certRc = .errNotFound ∧ keyRc = .errNotFound then .errNotFound
  else if certRc ≠ .ok ∧ certRc ≠ .errNotFound then certRc
  else if keyRc ≠ .ok ∧ keyRc ≠ .errNotFound then keyRc
  else .errParse

def caLoad : Prog (Stored σ) Rc Ca := do
  let cert ← Prog.call (storeRead ops caCertKey)
  let key ← Prog.call (storeRead ops caKeyKey)
  match cert, key with
  | .ok certDer, .ok keyDer => outside (caDecodePair env certDer keyDer env.keyAlgs)
  | _, _ => Prog.fail (caLoadError (readRc cert) (readRc key))

def caSave (ca : Ca) (s : Stored σ) : Rc × Stored σ :=
  match storeWrite ops caCertKey ca.certDer s with
  | (.ok, s) =>
      match storeWrite ops caKeyKey ca.keyDer s with
      | (.ok, s) => (.ok, s)
      -- whether the certificate could be taken back changes the message only
      | (rc, s) => (rc, (storeRemove ops caCertKey s).2)
  | (rc, s) => (rc, s)

end WolfCert.Server
