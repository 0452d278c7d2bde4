import WolfCert.CLib.Pairing
import WolfCert.Est.Client
import WolfCert.Scep.Client

/-!
# Transports

The connections behind the sessions: how one is dialled, used and given up by `http.c`, and what the
protocol sessions and the one-shot calls make of that.
-/

namespace WolfCert

open WolfCert.CLib WolfCert.Http WolfCert.Est WolfCert.Scep

variable {σ τ η : Type}

/-- A read or a write that a connection is asked for. -/
inductive Io where
  | read (room : Nat) (timeoutMs : Int)
  | write (data : Bytes) (timeoutMs : Int)
deriving DecidableEq, Repr

/-- `WolfCertTransport`: which of its fields are set, and the transport they belong to. -/
structure TransportCfg (τ : Type) where
  connect : Bool
  read : Bool
  write : Bool
  disconnect : Bool
  ctx : Bool
  transport : τ
deriving DecidableEq, Repr

/-- A connection: the how-manieth connect made it, of which transport, and the handle it got. -/
structure Link (τ η : Type) where
  id : Nat
  transport : τ
  handle : η
deriving DecidableEq, Repr

/-- Everything outside of the library. `crypt` is for what needs no connection. A call of wolfSSL says
what it read and wrote through the callbacks of its connection, and `sslShutdown` goes up to
`wolfSSL_free`. The set-up gets the number of the connection, and ends with giving it the callbacks. -/
structure Stack (σ τ η : Type) where
  crypt : WolfCrypt σ
  builtin : Option τ
  connect : τ → Bytes → Int → Int → σ → (Int × η) × σ
  read : τ → η → Nat → Int → σ → ReadResult × σ
  write : τ → η → Bytes → Int → σ → WriteResult × σ
  disconnect : τ → η → σ → σ
  setupTls : Nat → Bytes → σ → Rc × σ
  sslConnect : Link τ η → Int → σ → (SslConnect × List Io) × σ
  sslRead : Link τ η → Nat → Int → σ → (SslRead × List Io) × σ
  sslWrite : Link τ η → Bytes → Int → σ → (SslWrite × List Io) × σ
  sslShutdown : Link τ η → σ → List Io × σ
  keyToPem : ScepKey → σ → Except Rc Bytes × σ

/-- The world, with how many connects there were and what happened to their connections. -/
structure Ledger (σ : Type) where
  world : σ
  dialled : Nat
  log : List (Event Io)

/-- The ledger after a connection was used. -/
def Ledger.used (l : Ledger σ) (c : Nat) (after : σ × List Io) : Ledger σ :=
  { l with world := after.1, log := l.log ++ after.2.map (.used c) }

/-- A program that uses no connection. -/
def quiet {ε α : Type} (p : Prog σ ε α) : Prog (Ledger σ) ε α := fun l =>
  (p l.world).map fun (result, w) => (result, { l with world := w })

/-! ## Connections -/

/-- The codes of `errors.h`; any other negative one counts as the generic one. -/
def Rc.ofInt (rc : Int) : Rc :=
  ([.errBadArg, .errMemory, .errIo, .errTls, .errHttp, .errProtocol, .errAuth, .errCrypto, .errParse,
    .errNotFound, .errUnsupported, .errPending, .errWantRead, .errWantWrite, .errConnClosed].find?
      (·.toInt = rc)).getD .errGeneric

section Connections

variable (stack : Stack σ τ η)

/-- The transport to dial: the one that is given whole, or the built-in one if nothing is given. -/
def Stack.pick (cfg : TransportCfg τ) : Option τ :=
  let cbs := cfg.connect.toNat + cfg.read.toNat + cfg.write.toNat + cfg.disconnect.toNat
  if cbs = 4 then some cfg.transport
  else if cbs ≠ 0 ∨ cfg.ctx = true then none
  else stack.builtin

def dial (cfg : TransportCfg τ) (host : Bytes) (port timeoutMs : Int) (l : Ledger σ) :
    Except Rc (Link τ η) × Ledger σ :=
  match stack.pick cfg with
  | none => (.error .errBadArg, l)
  | some t =>
      match stack.connect t host port timeoutMs l.world with
      | ((rc, handle), w) =>
          if rc = 0 then
            (.ok ⟨l.dialled, t, handle⟩, ⟨w, l.dialled + 1, l.log ++ [.acquired l.dialled]⟩)
          else
            (.error (if rc < 0 then .ofInt rc else .errIo),
              ⟨w, l.dialled + 1, l.log ++ [.refused l.dialled]⟩)

/-- `conn_close`; no link is a connection that is not `connected`. -/
def connClose (link : Option (Link τ η)) (l : Ledger σ) : Ledger σ :=
  match link with
  | none => l
  | some k =>
      { l with world := stack.disconnect k.transport k.handle l.world, log := l.log ++ [.released k.id] }

def httpSessionClose (ssl : Bool) (link : Option (Link τ η)) (l : Ledger σ) : Ledger σ :=
  match ssl, link with
  | true, some k => connClose stack link (l.used k.id (stack.sslShutdown k l.world).swap)
  | _, _ => connClose stack link l

end Connections

/-! ## The world of a request

A request uses the connection of its session and no other: its world is that of the stack with what it
has read and written so far. -/

/-- The library with something else beside its world. -/
def WolfCrypt.beside (env : WolfCrypt σ) (ρ : Type) : WolfCrypt (σ × ρ) :=
  let on : {α : Type} → (σ → α × σ) → σ × ρ → α × (σ × ρ) := fun f w => ((f w.1).1, (f w.1).2, w.2)
  { alloc := fun w n => on (env.alloc · n) w
    connect := fun w host port timeout => on (env.connect · host port timeout) w
    setupTls := fun w host => on (env.setupTls · host) w
    read := fun w n timeout => on (env.read · n timeout) w
    write := fun w data timeout => on (env.write · data timeout) w
    sslConnect := fun w timeout => on (env.sslConnect · timeout) w
    sslRead := fun w n timeout => on (env.sslRead · n timeout) w
    sslWrite := fun w data timeout => on (env.sslWrite · data timeout) w
    wcTime := fun w => env.wcTime w.1
    base64EncodeNoNl := env.base64EncodeNoNl
    base64EncodeNoNlError := env.base64EncodeNoNlError
    base64Encode := env.base64Encode
    base64Decode := env.base64Decode
    pkcs7New := on env.pkcs7New
    pkcs7InitWithCert := fun cert => on (env.pkcs7InitWithCert cert)
    pkcs7SetDetached := on env.pkcs7SetDetached
    verifySignedData := fun detached message => on (env.verifySignedData detached message)
    encodeSignedData := fun request => on (env.encodeSignedData request)
    encodeEnvelopedData := fun cert cipher content => on (env.encodeEnvelopedData cert cipher content)
    decodeEnvelopedData := fun cert key message => on (env.decodeEnvelopedData cert key message)
    derToPem := fun der => on (env.derToPem der)
    pemToDer := fun pem => on (env.pemToDer pem)
    parseCert := fun kind cert => on (env.parseCert kind cert)
    sha256Hash := fun input => on (env.sha256Hash input)
    initRng := on env.initRng
    generateBlock := fun n => on (env.generateBlock n)
    rsaKeyToDer := fun key => on (env.rsaKeyToDer key)
    certNew := on env.certNew
    setKeyUsage := on env.setKeyUsage
    makeSelfCert := fun cert key => on (env.makeSelfCert cert key)
    sbjRawSize := env.sbjRawSize
    ctcNameSize := env.ctcNameSize
    hasSha384 := env.hasSha384
    hasSha512 := env.hasSha512
    hasAes256 := env.hasAes256
    hasDes3 := env.hasDes3 }

/-- The library on a connection. A request does not dial. -/
def Stack.attached (stack : Stack σ τ η) (k : Link τ η) : WolfCrypt (σ × List Io) :=
  let io : {α : Type} → (α × List Io) × σ → List Io → α × (σ × List Io) :=
    fun r ops => (r.1.1, r.2, ops ++ r.1.2)
  { stack.crypt.beside (List Io) with
    connect := fun w _ _ _ => (.errBadArg, w)
    setupTls := fun w _ => (.errBadArg, w)
    read := fun w n timeout =>
      ((stack.read k.transport k.handle n timeout w.1).1,
        (stack.read k.transport k.handle n timeout w.1).2, w.2 ++ [.read n timeout])
    write := fun w data timeout =>
      ((stack.write k.transport k.handle data timeout w.1).1,
        (stack.write k.transport k.handle data timeout w.1).2, w.2 ++ [.write data timeout])
    sslConnect := fun w timeout => io (stack.sslConnect k timeout w.1) w.2
    sslRead := fun w n timeout => io (stack.sslRead k n timeout w.1) w.2
    sslWrite := fun w data timeout => io (stack.sslWrite k data timeout w.1) w.2 }

/-! ## Sessions -/

section Sessions

variable (stack : Stack σ τ η) (cfg : TransportCfg τ)

/-- `wolfcert_http_session_open` with the connection it dials. -/
def httpSessionOpenOn (baseUrl : Bytes) (maxResponseBytes : Nat) (timeoutMs : Int) :
    Prog (Ledger σ) Rc (Link τ η × HttpSession) := do
  let maxBody := if maxResponseBytes ≠ 0 then maxResponseBytes else defaultMaxBody
  quiet (stack.crypt.allocate 1)
  let base ← quiet (Prog.callMap id fun w => httpUrlParse stack.crypt.toEnv w baseUrl)
  fun l =>
    match dial stack cfg base.host base.port timeoutMs l with
    | (.error rc, l) => some (.error rc, httpSessionClose stack false none l)
    | (.ok k, l) =>
        if base.tls then
          match stack.setupTls k.id base.host l.world with
          | (.ok, w) => some (.ok (k, .opened base maxBody), { l with world := w })
          | (rc, w) => some (.error rc, httpSessionClose stack false (some k) { l with world := w })
        else some (.ok (k, .opened base maxBody), l)

/-- The HTTP session of a protocol session is NULL until it is open. -/
def sessionClose (http : Option (Link τ η × HttpSession)) (l : Ledger σ) : Ledger σ :=
  match http with
  | none => l
  | some (k, http) => httpSessionClose stack http.ssl (some k) l

/-- Open the HTTP session of a protocol session, which is closed if that fails. -/
def connectOrClose (url : Bytes) (srv : ServerCfg) : Prog (Ledger σ) Rc (Link τ η × HttpSession) := fun l =>
  match httpSessionOpenOn stack cfg url srv.maxResponseBytes srv.timeoutMs l with
  | none => none
  | some (.error rc, l) => some (.error rc, sessionClose stack none l)
  | some (.ok http, l) => some (.ok http, l)

/-- What `wolfcert_est_session_open` does before it connects. -/
def estSessionNew (env : WolfCrypt σ) (srv : ServerCfg) : Prog σ Rc EstSession := do
  let (url, tls) ← cfgServerUrl env srv .est
  Prog.require (tls = true) .errTls
  Prog.require (srv.verifyServer = true) .errTls
  env.allocate 1
  let baseUrl ← strdup env url
  let basicUser ← strdupOpt env srv.username
  let basicPass ← strdupOpt env srv.password
  pure (.opened baseUrl basicUser basicPass srv.hasClientIdentity)

def estSessionOpenOn (srv : ServerCfg) : Prog (Ledger σ) Rc (EstSession × Link τ η × HttpSession) := do
  let s ← quiet (estSessionNew stack.crypt srv)
  let http ← connectOrClose stack cfg s.baseUrl srv
  pure (s, http)

def scepSessionOpenOn (srv : ServerCfg) (opts : ScepOpts) :
    Prog (Ledger σ) Rc (ScepSession × Link τ η × HttpSession) := do
  let s ← quiet (scepSessionNew stack.crypt srv opts)
  let http ← connectOrClose stack cfg s.serverUrl srv
  pure (s, http)

/-! ## The same sessions without their ledger -/

/-- What `dial` returns, as the code of a connect. -/
def Stack.connectCode (t : τ) (host : Bytes) (port timeoutMs : Int) (w : σ) : Rc × σ :=
  match stack.connect t host port timeoutMs w with
  | ((rc, _), w) => (if rc = 0 then .ok else if rc < 0 then .ofInt rc else .errIo, w)

/-- The library as the open of connection number `n` sees it. -/
def Stack.env (n : Nat) : WolfCrypt σ :=
  { stack.crypt with
    connect := fun w host port timeoutMs =>
      match stack.pick cfg with
      | none => (.errBadArg, w)
      | some t => stack.connectCode t host port timeoutMs w
    setupTls := fun w host => stack.setupTls n host w }

/-- `p` answers as `q` does in the world of the ledger. -/
def Answers {α β : Type} (p : Prog (Ledger σ) Rc α) (f : α → β) (q : Nat → Prog σ Rc β) : Prop :=
  ∀ l, (p l).map (fun after => after.1.map f) = (q l.dialled l.world).map Prod.fst

theorem quiet_of {ε α : Type} {p : Prog σ ε α} {l : Ledger σ} {result : Except ε α} {w : σ}
    (ran : p l.world = some (result, w)) : quiet p l = some (result, { l with world := w }) := by
  rw [quiet, ran]
  rfl

theorem Answers.after_quiet {α β γ : Type} {first : Prog σ Rc γ} {next : γ → Prog (Ledger σ) Rc α}
    {f : α → β} {next' : Nat → γ → Prog σ Rc β} (answers : ∀ a, Answers (next a) f fun n => next' n a) :
    Answers (quiet first >>= next) f fun n => first >>= next' n := by
  intro l
  change _ = Option.map Prod.fst ((first >>= next' l.dialled) l.world)
  cases ran : first l.world with
  | none =>
      have stuck : quiet first l = none := by rw [quiet, ran, Option.map_none]
      rw [Prog.bind_of_none stuck, Prog.bind_of_none ran]
      rfl
  | some after =>
      obtain ⟨result, w⟩ := after
      cases result with
      | error rc =>
          rw [Prog.bind_of_error (quiet_of ran), Prog.bind_of_error ran]
          rfl
      | ok a =>
          rw [Prog.bind_of_ok (quiet_of ran), Prog.bind_of_ok ran]
          exact answers a _

theorem Answers.map {α α' β β' : Type} {p : Prog (Ledger σ) Rc α} {f : α → β} {q : Nat → Prog σ Rc β}
    (answers : Answers p f q) {g : α → α'} {g' : β → β'} {f' : α' → β'}
    (same : ∀ a, f' (g a) = g' (f a)) :
    Answers (p >>= fun a => pure (g a)) f' fun n => q n >>= fun b => pure (g' b) := by
  intro l
  have answered := answers l
  change _ = Option.map Prod.fst ((q l.dialled >>= fun b => pure (g' b)) l.world)
  cases ran : p l with
  | none =>
      rw [ran] at answered
      rw [Prog.bind_of_none ran, Prog.bind_of_none (Option.map_eq_none_iff.mp answered.symm)]
      rfl
  | some after =>
      obtain ⟨result, m⟩ := after
      rw [ran] at answered
      obtain ⟨⟨found, w⟩, ran', rfl⟩ := Option.map_eq_some_iff.mp answered.symm
      cases result with
      | error rc =>
          rw [Prog.bind_of_error ran, Prog.bind_of_error ran']
          rfl
      | ok a =>
          rw [Prog.bind_of_ok ran, Prog.bind_of_ok ran']
          exact congrArg (fun b => some (Except.ok b)) (same a)

theorem Rc.ofInt_ne_ok (rc : Int) : Rc.ofInt rc ≠ .ok := by
  unfold Rc.ofInt
  cases found : List.find? _ _ with
  | none => simp
  | some known =>
      have member := List.mem_of_find?_eq_some found
      rintro rfl
      simp at member

theorem dial_cases (host : Bytes) (port timeoutMs : Int) (l : Ledger σ) :
    (∃ k m, dial stack cfg host port timeoutMs l = (.ok k, m) ∧ k.id = l.dialled ∧
      (stack.env cfg l.dialled).connect l.world host port timeoutMs = (.ok, m.world)) ∨
    (∃ rc m, dial stack cfg host port timeoutMs l = (.error rc, m) ∧ rc ≠ .ok ∧
      (stack.env cfg l.dialled).connect l.world host port timeoutMs = (rc, m.world)) := by
  simp only [dial, Stack.env]
  cases stack.pick cfg with
  | none => exact .inr ⟨.errBadArg, l, rfl, by simp, rfl⟩
  | some t =>
      simp only [Stack.connectCode]
      by_cases connected : (stack.connect t host port timeoutMs l.world).1.1 = 0
      · exact .inl ⟨_, _, if_pos connected, rfl, by rw [if_pos connected]⟩
      · refine .inr ⟨_, _, if_neg connected, ?_, by rw [if_neg connected]⟩
        split
        · exact Rc.ofInt_ne_ok _
        · simp

/-- What is left of an open once its URL is parsed. -/
def openConnection (env : Env σ) (base : Url) (maxBody : Nat) (timeoutMs : Int) (w : σ) :
    Except Rc HttpSession × σ :=
  match env.connect w base.host base.port timeoutMs with
  | (.ok, w) =>
      if base.tls then
        match env.setupTls w base.host with
        | (.ok, w) => (.ok (.opened base maxBody), w)
        | (rc, w) => (.error rc, w)
      else (.ok (.opened base maxBody), w)
  | (rc, w) => (.error rc, w)

theorem httpSessionOpen_eq (env : WolfCrypt σ) (url : Bytes) (maxResponseBytes : Nat) (timeoutMs : Int) :
    (Prog.callMap id fun w => httpSessionOpen env.toEnv w url maxResponseBytes timeoutMs) =
      (do env.allocate 1
          let base ← Prog.callMap id fun w => httpUrlParse env.toEnv w url
          Prog.callMap id (openConnection env.toEnv base
            (if maxResponseBytes ≠ 0 then maxResponseBytes else defaultMaxBody) timeoutMs)) := by
  funext w
  cases asked : env.alloc w 1 with
  | mk granted v =>
      cases granted with
      | false =>
          have refused : env.allocate 1 w = some (.error .errMemory, v) := by
            rw [WolfCrypt.allocate_eq, asked]
            rfl
          rw [Prog.bind_of_error refused]
          simp [Prog.callMap, httpSessionOpen, Env.withAlloc, asked]
      | true =>
          rw [Prog.bind_of_ok ((WolfCrypt.allocate_ok_iff env (u := ())).mpr asked)]
          cases parsed : httpUrlParse env.toEnv v url with
          | mk result u =>
              have called : (Prog.callMap id fun w => httpUrlParse env.toEnv w url : Prog σ Rc Url) v =
                  some (result, u) := by
                rw [Prog.callMap, parsed]
                cases result <;> rfl
              cases result with
              | error rc =>
                  rw [Prog.bind_of_error called]
                  simp [Prog.callMap, httpSessionOpen, Env.withAlloc, asked, parsed]
              | ok base =>
                  rw [Prog.bind_of_ok called]
                  simp only [Prog.callMap, httpSessionOpen, Env.withAlloc, asked, parsed]
                  rfl

theorem httpSessionOpenOn_answers (url : Bytes) (maxResponseBytes : Nat) (timeoutMs : Int) :
    Answers (httpSessionOpenOn stack cfg url maxResponseBytes timeoutMs) Prod.snd fun n =>
      Prog.callMap id fun w =>
        httpSessionOpen (stack.env cfg n).toEnv w url maxResponseBytes timeoutMs := by
  simp only [httpSessionOpen_eq]
  refine .after_quiet fun _ => .after_quiet fun base l => ?_
  rcases dial_cases stack cfg base.host base.port timeoutMs l with
    ⟨k, m, dialled, number, connected⟩ | ⟨rc, m, dialled, failed, refused⟩
  · simp only [Prog.callMap, openConnection, dialled, connected]
    cases tls : base.tls with
    | true =>
        have same : (stack.env cfg l.dialled).setupTls m.world base.host =
          stack.setupTls l.dialled base.host m.world := rfl
        simp only [if_true, number, same]
        cases stack.setupTls l.dialled base.host m.world with
        | mk rc w => cases rc <;> rfl
    | false => rfl
  · simp only [Prog.callMap, openConnection, dialled, refused]
    cases rc with
    | ok => exact absurd rfl failed
    | _ => rfl

theorem connectOrClose_eq (url : Bytes) (srv : ServerCfg) :
    connectOrClose stack cfg url srv =
      httpSessionOpenOn stack cfg url srv.maxResponseBytes srv.timeoutMs := by
  funext l
  unfold connectOrClose
  split <;> simp_all [sessionClose]

theorem estSessionOpen_eq (env : WolfCrypt σ) (srv : ServerCfg) :
    estSessionOpen env srv =
      (do let s ← estSessionNew env srv
          let http ← Prog.callMap id fun w =>
            httpSessionOpen env.toEnv w s.baseUrl srv.maxResponseBytes srv.timeoutMs
          pure (s, http)) := by
  unfold estSessionOpen estSessionNew
  rw [Prog.bind_assoc]
  congr 1
  funext ⟨url, tls⟩
  simp only [Prog.bind_assoc]
  rfl

theorem estSessionOpenOn_answers (srv : ServerCfg) :
    Answers (estSessionOpenOn stack cfg srv) (fun a => (a.1, a.2.2)) fun n =>
      estSessionOpen (stack.env cfg n) srv := by
  simp only [estSessionOpen_eq]
  refine Answers.after_quiet fun s => ?_
  rw [connectOrClose_eq]
  exact (httpSessionOpenOn_answers stack cfg s.baseUrl srv.maxResponseBytes srv.timeoutMs).map fun _ => rfl

theorem scepSessionOpenOn_answers (srv : ServerCfg) (opts : ScepOpts) :
    Answers (scepSessionOpenOn stack cfg srv opts) (fun a => (a.1, a.2.2)) fun n =>
      scepSessionOpen (stack.env cfg n) srv opts := by
  refine Answers.after_quiet fun s => ?_
  rw [connectOrClose_eq]
  exact (httpSessionOpenOn_answers stack cfg s.serverUrl srv.maxResponseBytes srv.timeoutMs).map fun _ => rfl

/-! ## One-shot calls -/

/-- `wolfcert_http_request`. -/
def httpRequestOn (req : HttpRequest) (maxResponseBytes : Nat) (timeoutMs : Int) (resp : Nat)
    (l : Ledger σ) : Option ((Rc × HttpResponse) × Ledger σ) :=
  match httpSessionOpenOn stack cfg req.url maxResponseBytes timeoutMs l with
  | none => none
  | some (.error rc, l) => some ((rc, .zero), sessionClose stack none l)
  | some (.ok (k, http), l) =>
      (httpSessionCall (stack.attached k).toEnv ⟨httpSessionSetClose http, .zero, (l.world, [])⟩ req resp
        false).map fun (rc, e) =>
          ((rc, e.resp), sessionClose stack (some (k, e.session)) (l.used k.id e.world))

/-- Clear the caller's output when there is no session. -/
def estClear (outputs : Nat → EstOutput) (args : EstArgs) : Nat → EstOutput :=
  match args.out with
  | none => outputs
  | some address =>
      Function.update outputs address
        (if estIsEnroll args.op then .zero else { outputs address with certPem := [] })

def estOneShot (srv : ServerCfg) (args : EstArgs) (outputs : Nat → EstOutput) (l : Ledger σ) :
    Option ((Rc × (Nat → EstOutput)) × Ledger σ) :=
  let outputs := estClear outputs args
  if estCallCheck args ≠ .ok then some ((estCallCheck args, outputs), sessionClose stack none l)
  else
    match estSessionOpenOn stack cfg srv l with
    | none => none
    | some (.error rc, l) => some ((rc, outputs), sessionClose stack none l)
    | some (.ok (s, k, http), l) =>
        (estSessionCall (stack.attached k) ⟨s, httpSessionSetClose http, .zero, outputs, (l.world, [])⟩ args
          false).map fun (rc, x) =>
            ((rc, x.outputs), sessionClose stack (some (k, x.http)) (l.used k.id x.world))

/-- `wolfcert_est_get_cacerts`, `_get_csr_attrs` and `_simple_enroll`. -/
def estOneShotCall (srv : ServerCfg) (call : EstCall) (outputs : Nat → EstOutput) (l : Ledger σ) :
    Option ((Rc × (Nat → EstOutput)) × Ledger σ) :=
  if estIsEnroll call.args.op ∧ call.args.out = none then some ((.errBadArg, outputs), l)
  else estOneShot stack cfg srv call.args outputs l

/-- The certificate being renewed is the identity of the TLS session. -/
def estSimpleReenroll (srv : ServerCfg) (currentCert : Bytes) (currentKey : Option ScepKey) (csr : Bytes)
    (out : Option Nat) (outputs : Nat → EstOutput) (l : Ledger σ) :
    Option ((Rc × (Nat → EstOutput)) × Ledger σ) :=
  let args := (EstCall.simpleReenroll csr out).args
  if out = none then some ((.errBadArg, outputs), l)
  else
    let outputs := estClear outputs args
    match currentKey with
    | none => some ((.errBadArg, outputs), l)
    | some key =>
        if currentCert = [] then some ((.errBadArg, outputs), l)
        else
          match stack.keyToPem key l.world with
          | (.error rc, w) => some ((rc, outputs), { l with world := w })
          | (.ok _, w) =>
              estOneShot stack cfg { srv with hasClientIdentity := true } args outputs { l with world := w }

/-- The request is built before the connection is made. -/
def scepOneShotOn (srv : ServerCfg) (opts : ScepOpts) (c : ScepArgs) (o : ScepOutputs) (l : Ledger σ) :
    Option ((Rc × ScepOutputs) × Ledger σ) :=
  if scepCallOut c = none then some ((.errBadArg, o), l)
  else
    let o := o.clear c
    if scepCallCheck c ≠ .ok then some ((scepCallCheck c, o), sessionClose stack none l)
    else
      let begun : Prog (Ledger σ) Rc ScepSession := quiet do
        let s ← scepSessionNew stack.crypt srv opts
        scepSessionBeginAlone stack.crypt s c o
      match begun l with
      | none => none
      | some (.error rc, l) => some ((rc, o), sessionClose stack none l)
      | some (.ok s, l) =>
          match httpSessionOpenOn stack cfg s.serverUrl srv.maxResponseBytes srv.timeoutMs l with
          | none => none
          | some (.error rc, l) => some ((rc, o), sessionClose stack none l)
          | some (.ok (k, http), l) =>
              (scepSessionSend (stack.attached k) ⟨s, httpSessionSetClose http, .zero, o, (l.world, [])⟩ c
                false).map fun (rc, x) =>
                  ((rc, x.outputs), sessionClose stack (some (k, x.http)) (l.used k.id x.world))

end Sessions

/-! ## Any use of them -/

/-- A session that is open, its world apart. -/
inductive Client where
  | http (session : HttpSession)
  | est (x : EstClient Unit)
  | scep (x : ScepClient Unit)

def Client.session : Client → HttpSession
  | .http session => session
  | .est x => x.http
  | .scep x => x.http

structure OpenSession (τ η : Type) where
  link : Link τ η
  client : Client

/-- The sessions that are open, each under the number of its connection. -/
structure System (σ τ η : Type) where
  ledger : Ledger σ
  sessions : Nat → Option (OpenSession τ η)

def System.start (w : σ) : System σ τ η := ⟨⟨w, 0, []⟩, fun _ => none⟩

/-- What a caller may do; `c` names the session. -/
inductive Use (τ : Type) where
  | httpOpen (cfg : TransportCfg τ) (url : Bytes) (maxResponseBytes : Nat) (timeoutMs : Int)
  | estOpen (cfg : TransportCfg τ) (srv : ServerCfg) (outputs : Nat → EstOutput)
  | scepOpen (cfg : TransportCfg τ) (srv : ServerCfg) (opts : ScepOpts) (outputs : ScepOutputs)
  | httpSetClose (c : Nat)
  | httpCall (c : Nat) (req : HttpRequest) (resp : Nat) (response : HttpResponse) (nb : Bool)
  | estCall (c : Nat) (call : EstCall) (nb : Bool)
  | scepCall (c : Nat) (call : ScepCall) (nb : Bool)
  | close (c : Nat)
  | httpOneShot (cfg : TransportCfg τ) (req : HttpRequest) (maxResponseBytes : Nat) (timeoutMs : Int)
      (resp : Nat)
  | estOneShot (cfg : TransportCfg τ) (srv : ServerCfg) (call : EstCall) (outputs : Nat → EstOutput)
  | estReenroll (cfg : TransportCfg τ) (srv : ServerCfg) (currentCert : Bytes) (currentKey : Option ScepKey)
      (csr : Bytes) (out : Option Nat) (outputs : Nat → EstOutput)
  | scepOneShot (cfg : TransportCfg τ) (srv : ServerCfg) (opts : ScepOpts) (call : ScepCall)
      (outputs : ScepOutputs)

section Step

variable (stack : Stack σ τ η)

/-- A session that was opened, or not. -/
def System.opening (s : System σ τ η) {α : Type} (client : α → HttpSession → Client) :
    Option (Except Rc (α × Link τ η × HttpSession) × Ledger σ) → Option (Rc × System σ τ η)
  | none => none
  | some (.error rc, l) => some (rc, { s with ledger := l })
  | some (.ok (a, k, http), l) =>
      some (.ok, ⟨l, Function.update s.sessions k.id (some ⟨k, client a http⟩)⟩)

/-- A call on the client of an open session; what is closed cannot be called any more. -/
def System.calling (s : System σ τ η) (c : Nat)
    (call : Link τ η → Client → σ × List Io → Option (Rc × Client × (σ × List Io))) :
    Option (Rc × System σ τ η) :=
  match s.sessions c with
  | none => none
  | some x =>
      (call x.link x.client (s.ledger.world, [])).map fun (rc, client, w) =>
        (rc, ⟨s.ledger.used x.link.id w, Function.update s.sessions c (some ⟨x.link, client⟩)⟩)

def httpCallOn (req : HttpRequest) (resp : Nat) (response : HttpResponse) (nb : Bool) (k : Link τ η) :
    Client → σ × List Io → Option (Rc × Client × (σ × List Io))
  | .http session, w =>
      (httpSessionCall (stack.attached k).toEnv ⟨session, response, w⟩ req resp nb).map fun (rc, e) =>
        (rc, .http e.session, e.world)
  | _, _ => none

def estCallOn (call : EstCall) (nb : Bool) (k : Link τ η) :
    Client → σ × List Io → Option (Rc × Client × (σ × List Io))
  | .est x, w =>
      (estSession (stack.attached k) ⟨x.session, x.http, x.inResp, x.outputs, w⟩ call nb).map fun (rc, y) =>
        (rc, .est ⟨y.session, y.http, y.inResp, y.outputs, ()⟩, y.world)
  | _, _ => none

def scepCallOn (call : ScepCall) (nb : Bool) (k : Link τ η) :
    Client → σ × List Io → Option (Rc × Client × (σ × List Io))
  | .scep x, w =>
      (scepSession (stack.attached k) ⟨x.session, x.http, x.inResp, x.outputs, w⟩ call nb).map fun (rc, y) =>
        (rc, .scep ⟨y.session, y.http, y.inResp, y.outputs, ()⟩, y.world)
  | _, _ => none

def setCloseOn (_ : Link τ η) : Client → σ × List Io → Option (Rc × Client × (σ × List Io))
  | .http session, w => some (.ok, .http (httpSessionSetClose session), w)
  | _, _ => none

/-- The result of a one-shot call, of which the sessions see nothing. -/
def System.answered (s : System σ τ η) {α : Type} (result : Option ((Rc × α) × Ledger σ)) :
    Option (Rc × System σ τ η) :=
  result.map fun ((rc, _), l) => (rc, { s with ledger := l })

def System.step (s : System σ τ η) : Use τ → Option (Rc × System σ τ η)
  | .httpOpen cfg url maxResponseBytes timeoutMs =>
      s.opening (fun (_ : Unit) session => .http session)
        ((do let http ← httpSessionOpenOn stack cfg url maxResponseBytes timeoutMs
             pure ((), http) : Prog (Ledger σ) Rc _) s.ledger)
  | .estOpen cfg srv outputs =>
      s.opening (fun session http => .est ⟨session, http, .zero, outputs, ()⟩)
        (estSessionOpenOn stack cfg srv s.ledger)
  | .scepOpen cfg srv opts outputs =>
      s.opening (fun session http => .scep ⟨session, http, .zero, outputs, ()⟩)
        (scepSessionOpenOn stack cfg srv opts s.ledger)
  | .httpSetClose c => s.calling c setCloseOn
  | .httpCall c req resp response nb => s.calling c (httpCallOn stack req resp response nb)
  | .estCall c call nb => s.calling c (estCallOn stack call nb)
  | .scepCall c call nb => s.calling c (scepCallOn stack call nb)
  | .close c =>
      match s.sessions c with
      | none => none
      | some x =>
          some (.ok, ⟨sessionClose stack (some (x.link, x.client.session)) s.ledger,
            Function.update s.sessions c none⟩)
  | .httpOneShot cfg req maxResponseBytes timeoutMs resp =>
      s.answered (httpRequestOn stack cfg req maxResponseBytes timeoutMs resp s.ledger)
  | .estOneShot cfg srv call outputs => s.answered (estOneShotCall stack cfg srv call outputs s.ledger)
  | .estReenroll cfg srv currentCert currentKey csr out outputs =>
      s.answered (estSimpleReenroll stack cfg srv currentCert currentKey csr out outputs s.ledger)
  | .scepOneShot cfg srv opts call outputs =>
      s.answered (scepOneShotOn stack cfg srv opts call.args outputs s.ledger)

end Step

end WolfCert
