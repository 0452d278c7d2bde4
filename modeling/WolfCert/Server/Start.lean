import WolfCert.CLib.Trace
import WolfCert.Server.Ca

/-!
# Starting a server

`wolfcert_server_start` over one CA store, and what a history of starts does to that store.
-/

namespace WolfCert.Server

open WolfCert.CLib

variable {σ : Type}

/-- The fields of `WolfCertServerCfgSrv` that `wolfcert_server_start` reads; an absent pointer is
NULL. A protocol that is not in the build has no handler table. -/
structure ServerCfgSrv where
  protocol : Protocol
  bindHost : Option Bytes
  caStore : Bool
  challengePassword : Option Bytes
  httpBasicUser : Option Bytes
  httpBasicPass : Option Bytes
  caKeyType : Option KeyAlg
  caKeyParam : Int
  tlsCertPem : Option Bytes
  tlsKeyPem : Option Bytes
  tlsClientCaPem : Option Bytes
  tlsPostHandshakeAuth : Bool
  csrAttributesDer : Option Bytes
  estAllowAnonymousEnroll : Bool
deriving DecidableEq, Repr

/-- What a start calls outside the library: the address parser, and the last steps, which have no
part in the CA store: the handler's own start, the TLS set-up and the listening socket. -/
structure StartEnv (σ : Type) extends CaCrypto σ where
  hasProtocol : Protocol → Bool
  inetPton : Bytes → Bool
  opsStart : ServerCfgSrv → σ → Rc × σ
  tlsSetup : ServerCfgSrv → σ → Rc × σ
  listen : ServerCfgSrv → σ → Rc × σ

/-- The server record, as far as the handlers read it. -/
structure WolfCertServer where
  cfg : ServerCfgSrv
  cfgChallenge : Option Bytes
  cfgBasicUser : Option Bytes
  cfgBasicPass : Option Bytes
  cfgCsrAttrs : Option Bytes
  ca : Ca
deriving DecidableEq, Repr

variable (env : StartEnv σ) (ops : StoreOps σ)

/-- The checks a configuration has to pass, in their order. -/
def checkCfg (cfg : ServerCfgSrv) : Rc :=
  if env.hasProtocol cfg.protocol = false then .errUnsupported
  else if cfg.protocol = .est ∧ (cfg.tlsCertPem = none ∨ cfg.tlsKeyPem = none) then .errTls
  else if cfg.httpBasicUser ≠ none ∧
      (cfg.httpBasicUser = some [] ∨ cfg.httpBasicPass = none ∨ cfg.httpBasicPass = some []) then
    .errBadArg
  else if cfg.protocol = .est ∧ cfg.httpBasicUser = none ∧ cfg.tlsClientCaPem.getD [] = [] ∧
      cfg.estAllowAnonymousEnroll = false then
    .errBadArg
  else if cfg.protocol ≠ .est ∧ cfg.tlsPostHandshakeAuth = true then .errBadArg
  else if cfg.bindHost.any (env.inetPton · = false) then .errBadArg
  else .ok

/-- `wolfcert_strdup` of an optional string: no copy without memory. -/
def copyString : Option Bytes → Prog σ Rc (Option Bytes)
  | none => pure none
  | some s => do
      let granted ← Prog.call fun w => env.alloc w (s.length + 1)
      pure (if granted then some s else none)

/-- All three strings are copied before any of them is missed. -/
def copyCredentials (cfg : ServerCfgSrv) : Prog σ Rc (Option Bytes × Option Bytes × Option Bytes) := do
  let challenge ← copyString env cfg.challengePassword
  let user ← copyString env cfg.httpBasicUser
  let pass ← copyString env cfg.httpBasicPass
  Prog.require (challenge = cfg.challengePassword ∧ user = cfg.httpBasicUser ∧
    pass = cfg.httpBasicPass) .errMemory
  pure (challenge, user, pass)

def copyCsrAttrs (cfg : ServerCfgSrv) : Prog σ Rc (Option Bytes) :=
  match cfg.csrAttributesDer with
  | none | some [] => pure none
  | some attrs => do
      env.allocate attrs.length
      pure (some attrs)

/-- A new CA, kept if there is a store. -/
def bootstrapCa (cfg : ServerCfgSrv) : Prog (Stored σ) Rc Ca := do
  let ca ← outside (caGenerate env.toCaCrypto cfg.caKeyType cfg.caKeyParam)
  if cfg.caStore then
    let rc ← Prog.call (caSave ops ca)
    Prog.require (rc = .ok) rc
    pure ca
  else pure ca

/-- The stored CA, or a new one if the store is empty. -/
def obtainCa (cfg : ServerCfgSrv) : Prog (Stored σ) Rc Ca :=
  if cfg.caStore then do
    match ← Prog.attempt (caLoad env.toCaCrypto ops) with
    | .ok ca => pure ca
    | .error .errNotFound => bootstrapCa env ops cfg
    | .error rc => Prog.fail rc
  else bootstrapCa env ops cfg

def callRc (f : σ → Rc × σ) : Prog σ Rc Unit := do
  let rc ← Prog.call f
  Prog.require (rc = .ok) rc

def serverStart (cfg : ServerCfgSrv) : Prog (Stored σ) Rc WolfCertServer := do
  Prog.require (checkCfg env cfg = .ok) (checkCfg env cfg)
  outside (env.allocate 1)
  let (cfgChallenge, cfgBasicUser, cfgBasicPass) ← outside (copyCredentials env cfg)
  let cfgCsrAttrs ← outside (copyCsrAttrs env cfg)
  let ca ← obtainCa env ops cfg
  outside (callRc (env.opsStart cfg))
  outside (callRc (env.tlsSetup cfg))
  outside (callRc (env.listen cfg))
  pure { cfg, cfgChallenge, cfgBasicUser, cfgBasicPass, cfgCsrAttrs, ca }

/-! ## What one start does to the store -/

/-- The store and its log are as before. -/
def Untouched (s s' : Stored σ) : Prop := s'.entries = s.entries ∧ s'.calls = s.calls

theorem Untouched.refl (s : Stored σ) : Untouched s s := ⟨rfl, rfl⟩

theorem Untouched.trans {s t u : Stored σ} (first : Untouched s t) (then_ : Untouched t u) :
    Untouched s u :=
  ⟨then_.1.trans first.1, then_.2.trans first.2⟩

section Load

variable {env : StartEnv σ} {ops : StoreOps σ} {s s' : Stored σ}

end Load

/-- The ways a save can end: the calls it made and the entries it left. -/
inductive SaveOutcome (ca : Ca) (before after : Bytes → Option Bytes) : List StoreCall → Rc → Prop where
  | unwritten (rc : Rc) (failed : rc ≠ .ok) (same : after = before) :
      SaveOutcome ca before after [.write caCertKey rc] rc
  | saved (both : after = Function.update (Function.update before caCertKey (some ca.certDer))
        caKeyKey (some ca.keyDer)) :
      SaveOutcome ca before after [.write caCertKey .ok, .write caKeyKey .ok] .ok
  | rolledBack (rc : Rc) (failed : rc ≠ .ok) (same : after = Function.update before caCertKey none) :
      SaveOutcome ca before after
        [.write caCertKey .ok, .write caKeyKey rc, .remove caCertKey .ok] rc
  | half (rc : Rc) (failed : rc ≠ .ok) (removal : List StoreCall)
      (tried : ∀ call ∈ removal, ∃ rc', call = .remove caCertKey rc')
      (cert : after = Function.update before caCertKey (some ca.certDer)) :
      SaveOutcome ca before after ([.write caCertKey .ok, .write caKeyKey rc] ++ removal) rc

section Effect

variable {env : StartEnv σ} {ops : StoreOps σ} {cfg : ServerCfgSrv} {s s' t t' : Stored σ}
  {result result' : Except Rc Ca}

end Effect

/-! ## Histories of starts -/

/-- The result of a start and the calls it made of the store. -/
structure StartAnswer where
  result : Except Rc WolfCertServer
  calls : List StoreCall

/-- The start neither wrote to the store nor removed from it. -/
def StartAnswer.Quiet (answer : StartAnswer) : Prop := ∀ call ∈ answer.calls, call.changes = false

section Histories

variable {env : StartEnv σ} {ops : StoreOps σ} {calm : σ → Prop} {t u : Stored σ}
  {cfg : ServerCfgSrv} {answer : StartAnswer}

/-- The later starts over a store that holds a pair or a half of one. -/
structure Keeps (u : Stored σ) (results : List StartAnswer) (v : Stored σ) : Prop where
  entries : v.entries = u.entries
  quiet : ∀ later ∈ results, later.Quiet
  used : ∀ later ∈ results, ∀ server, later.result = .ok server →
    u.entries caCertKey = some server.ca.certDer ∧ u.entries caKeyKey = some server.ca.keyDer

/-- What the calls of a save tell: whether it succeeded, and what it left in a store that was empty. -/
theorem SaveOutcome.left {ca : Ca} {before after : Bytes → Option Bytes} {calls : List StoreCall}
    {rc : Rc} (outcome : SaveOutcome ca before after calls rc)
    (absent : before caCertKey = none ∧ before caKeyKey = none) :
    (.write caKeyKey .ok ∈ calls → after caCertKey = some ca.certDer ∧ after caKeyKey = some ca.keyDer) ∧
      (.write caKeyKey .ok ∉ calls → after caKeyKey = none ∧
        (after caCertKey = none ∨ after caCertKey = some ca.certDer)) := by
  have apart : caCertKey ≠ caKeyKey := by decide
  cases outcome with
  | unwritten _ failed same =>
      refine ⟨fun written => ?_, fun _ => ?_⟩
      · simp [apart.symm] at written
      · rw [same]
        exact ⟨absent.2, .inl absent.1⟩
  | saved both =>
      refine ⟨fun _ => ?_, fun unwritten => ?_⟩
      · simp [both, Function.update_of_ne apart]
      · simp at unwritten
  | rolledBack _ failed same =>
      refine ⟨fun written => ?_, fun _ => ?_⟩
      · simp [Ne.symm failed, apart.symm] at written
      · simp [same, Function.update_of_ne apart.symm, absent.2]
  | half _ failed removal tried cert =>
      refine ⟨fun written => ?_, fun _ => ?_⟩
      · rcases List.mem_append.mp written with first | later
        · simp [Ne.symm failed, apart.symm] at first
        · obtain ⟨rc', absurd⟩ := tried _ later
          cases absurd
      · simp [cert, Function.update_of_ne apart.symm, absent.2]

end Histories

/-! A library whose every call succeeds, its keys and certificates one byte that names the algorithm. -/

def exampleCode : KeyAlg → UInt8
  | .rsa => 1
  | .ecc => 2
  | .ed25519 => 3
  | .ed448 => 4
  | .mldsa44 => 5
  | .mldsa65 => 6
  | .mldsa87 => 7

def exampleStart : StartEnv Http.Wire where
  toWolfCrypt :=
    { exampleCrypt ⟨[], [], [], []⟩ with
      toEnv := { (exampleCrypt ⟨[], [], [], []⟩).toEnv with alloc := fun w _ => (true, w) } }
  keyAlgs := [.rsa, .ecc]
  defaultKeyType := .ecc
  derCapHint _ := 0
  keyInit _ w := (.ok (), w)
  keyMake alg _ w := (.ok [exampleCode alg], w)
  keyDecode alg key w := (if key = [exampleCode alg] then some key else none, w)
  keyToDer _ impl _ w := (.ok impl, w)
  pubCheck _ _ _ w := (.ok (), w)
  parseStored cert w :=
    (.ok ⟨true, false, false, some (if cert = [1] then .rsa else .ecc), some [4]⟩, w)
  makeCaCert _ impl _ w := (.ok impl, w)
  signCert _ _ body _ w := (.ok body, w)
  hasProtocol _ := true
  inetPton _ := true
  opsStart _ w := (.ok, w)
  tlsSetup _ w := (.ok, w)
  listen _ w := (.ok, w)

def exampleOps : StoreOps Http.Wire where
  readFault _ w := (none, w)
  writeFault _ _ w := (none, w)
  removeFault := none

def exampleStartCfg : ServerCfgSrv where
  protocol := .scep
  bindHost := none
  caStore := true
  challengePassword := none
  httpBasicUser := none
  httpBasicPass := none
  caKeyType := some .rsa
  caKeyParam := 0
  tlsCertPem := none
  tlsKeyPem := none
  tlsClientCaPem := none
  tlsPostHandshakeAuth := false
  csrAttributesDer := none
  estAllowAnonymousEnroll := false

def exampleEmpty : Stored Http.Wire := ⟨fun _ => none, [], ⟨[], [], false, false⟩⟩

end WolfCert.Server
