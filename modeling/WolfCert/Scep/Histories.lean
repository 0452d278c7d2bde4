import WolfCert.Scep.IssuerAnd
import WolfCert.Scep.Soundness

/-!
# Replies over histories of SCEP sessions

Any number of sessions and one-shot calls, in any order. Every event comes with the world it meets:
between two events the network, its attackers, the heap and the random numbers may have become
anything. The outputs passed to one session are not passed to another.
-/

namespace WolfCert.Scep

open WolfCert.CLib WolfCert.Http

variable {σ : Type} {env : WolfCrypt σ} {signedOf : Bytes → Option SignedData}
  {certOf : CertKind → Bytes → Option DecodedCert}

/-- What a caller does next; `k` names the session. -/
inductive ScepAction where
  | opens (k : Nat) (srv : ServerCfg) (opts : ScepOpts) (outputs : ScepOutputs)
  | closes (k : Nat)
  | calls (k : Nat) (call : ScepCall) (nb : Bool)
  | oneShot (srv : ServerCfg) (opts : ScepOpts) (call : ScepCall) (outputs : ScepOutputs)

structure ScepEvent (σ : Type) where
  action : ScepAction
  world : σ

/-- The arguments of a PKIOperation, on a session or not. -/
def ScepAction.pki : ScepAction → Option ScepArgs
  | .calls _ call _ | .oneShot _ _ call _ => if call.args.op.isPki then some call.args else none
  | .opens .. | .closes _ => none

def ScepAction.session : ScepAction → Option Nat
  | .opens k .. | .closes k | .calls k .. => some k
  | .oneShot .. => none

/-- The code a caller gets, and the result it passed. -/
structure ScepAnswer where
  rc : Rc
  result : Option ScepResult

/-- The client as the world stands now. -/
def ScepClient.met (x : ScepClient σ) (w : σ) : ScepClient σ := { x with world := w }

@[simp] theorem ScepClient.met_session (x : ScepClient σ) (w : σ) : (x.met w).session = x.session := rfl

@[simp] theorem ScepClient.met_outputs (x : ScepClient σ) (w : σ) : (x.met w).outputs = x.outputs := rfl

@[simp] theorem ScepClient.met_world (x : ScepClient σ) (w : σ) : (x.met w).world = w := rfl

abbrev Sessions (σ : Type) := Nat → Option (ScepClient σ)

/-- One event; a call without a session is one with a NULL session. -/
def scepStep (env : WolfCrypt σ) (sessions : Sessions σ) (e : ScepEvent σ) :
    Option (ScepAnswer × Sessions σ) :=
  match e.action with
  | .opens k srv opts outputs =>
      match scepSessionOpen env srv opts e.world with
      | none => none
      | some (.error rc, _) => some (⟨rc, none⟩, Function.update sessions k none)
      | some (.ok (s, http), w) =>
          some (⟨.ok, none⟩, Function.update sessions k (some ⟨s, http, .zero, outputs, w⟩))
  | .closes k => some (⟨.ok, none⟩, Function.update sessions k none)
  | .calls k call nb =>
      match sessions k with
      | none => some (⟨.errBadArg, none⟩, sessions)
      | some x =>
          (scepSession env (x.met e.world) call nb).map fun (rc, x) =>
            (⟨rc, call.args.resOut.map x.outputs.results⟩, Function.update sessions k (some x))
  | .oneShot srv opts call outputs =>
      (scepOneShot env srv opts call.args outputs e.world).map fun ((rc, o), _) =>
        (⟨rc, call.args.resOut.map o.results⟩, sessions)

/-- The PKIOperation that a call on an idle session builds. -/
def scepBuilds (env : WolfCrypt σ) (s : ScepSession) (c : ScepArgs) (nb : Bool) (w : σ) :
    Option ScepBuilt :=
  if scepCallOut c ≠ none ∧ scepCallCheck c = .ok ∧ c.op.isPki then
    match c.key with
    | none => none
    | some key =>
        match scepBuild env s c key nb w with
        | some (.ok b, _) => some b
        | _ => none
  else none

/-- The request an event begins: its arguments and what it sends and keeps. -/
def scepBegins (env : WolfCrypt σ) (sessions : Sessions σ) (e : ScepEvent σ) :
    Option (ScepArgs × ScepBuilt) :=
  match e.action with
  | .calls k call nb =>
      match sessions k with
      | none => none
      | some x =>
          if x.session.inActive then none
          else (scepBuilds env x.session call.args nb e.world).map fun b => (call.args, b)
  | .oneShot srv opts call _ =>
      match scepSessionNew env srv opts e.world with
      | some (.ok s, w) => (scepBuilds env s call.args false w).map fun b => (call.args, b)
      | _ => none
  | .opens .. | .closes _ => none

/-- The response a session is given for the request it has in flight. -/
def scepAnswered (env : WolfCrypt σ) (x : ScepClient σ) (nb : Bool) : Option HttpResponse :=
  match httpSessionCall env.toEnv x.exchange x.session.inReq inRespAddr nb with
  | some (.ok, e) => some e.resp
  | _ => none

/-- The response that reaches the caller of an event, whoever wrote it. -/
def scepReply (env : WolfCrypt σ) (sessions : Sessions σ) (e : ScepEvent σ) : Option HttpResponse :=
  match e.action with
  | .calls k call nb =>
      match sessions k with
      | none => none
      | some x =>
          let x := scepCallClear (x.met e.world) call.args
          if x.session.inActive then scepAnswered env x nb
          else
            match scepSessionBegin env x call.args nb with
            | some (.ok, y) => scepAnswered env y nb
            | _ => none
  | .oneShot srv opts call outputs =>
      let o := outputs.clear call.args
      match scepOneShotConnect env srv opts call.args o e.world with
      | some (.ok (s, http), w) => scepAnswered env ⟨s, http, .zero, o, w⟩ false
      | _ => none
  | .opens .. | .closes _ => none

/-- The sessions after the first `n` events, from none open. -/
def sessionsAt (env : WolfCrypt σ) (events : List (ScepEvent σ)) (n : Nat) : Option (Sessions σ) :=
  (history (scepStep env) (fun _ => none) (events.take n)).map Prod.snd

/-- The `b`-th event begins a request. -/
def Requested (env : WolfCrypt σ) (events : List (ScepEvent σ)) (b : Nat) (c : ScepArgs)
    (built : ScepBuilt) : Prop :=
  ∃ sessions e, sessionsAt env events b = some sessions ∧ events[b]? = some e ∧
    scepBegins env sessions e = some (c, built)

/-- The `i`-th event is the call, or one of the calls, of the request begun by the `b`-th: on its
session nothing but calls has happened since, and none has begun another. -/
inductive Serves (env : WolfCrypt σ) (events : List (ScepEvent σ)) (b i : Nat) : Prop where
  | atOnce (same : b = i)
  | later (k : Nat) (earlier : b < i)
      (begun : ∃ e call nb, events[b]? = some e ∧ e.action = .calls k call nb)
      (ended : ∃ e call nb, events[i]? = some e ∧ e.action = .calls k call nb)
      (only : ∀ n e, b < n → n ≤ i → events[n]? = some e → e.action.session = some k →
        (∃ call nb, e.action = .calls k call nb) ∧ ∀ c built, ¬Requested env events n c built)

/-- The response that the `i`-th event is given. -/
def replyAt (env : WolfCrypt σ) (events : List (ScepEvent σ)) (i : Nat) : Option HttpResponse := do
  let sessions ← sessionsAt env events i
  let e ← events[i]?
  scepReply env sessions e

/-- What a reply that is accepted for a request is: signed under the bundle passed with the request,
an answer to its transactionID and nonce, and reported as it is. -/
def Accepts (env : WolfCrypt σ) (signedOf : Bytes → Option SignedData)
    (certOf : CertKind → Bytes → Option DecodedCert) (c : ScepArgs) (built : ScepBuilt)
    (reply : Bytes) (out : ScepResult) : Prop :=
  ∃ signed, signedOf reply = some signed ∧ Authentic certOf built.txid built.nonce c.caBundle signed ∧
    Reports signed out ∧
    (c.op = .getCert → out.status = .success → ∃ ra issuer, certOf .certType c.raCert = some ra ∧
      issuingCaName ra = some issuer ∧ HoldsCert env certOf out.certPem issuer (intMagnitude c.serial))

/-- The pkiMessage of a request carries its transactionID and, as senderNonce, its nonce. -/
def Carries (env : WolfCrypt σ) (built : ScepBuilt) : Prop :=
  ∃ msgType envelope hash v v', buildPkiMessage env envelope built.signer built.signerKey hash
    (requestAttrs msgType built.txid built.nonce) v = some (.ok built.pki, v')

/-- The answer to a PKIOperation, the `i`-th event, stands for an accepted reply to its own request. -/
def Completes (env : WolfCrypt σ) (signedOf : Bytes → Option SignedData)
    (certOf : CertKind → Bytes → Option DecodedCert) (events : List (ScepEvent σ)) (i : Nat)
    (op : ScepOp) (answer : ScepAnswer) : Prop :=
  ∃ b c built reply out, Requested env events b c built ∧ Serves env events b i ∧ c.op = op ∧
    Carries env built ∧ replyAt env events i = some reply ∧ answer.result = some out ∧
    Accepts env signedOf certOf c built reply.body out

theorem issuerAndSerial_sound (sound : Sound env signedOf certOf) {raCert serial ias : Bytes} {w w' : σ}
    (run : issuerAndSerial env raCert serial w = some (.ok ias, w')) :
    ∃ ra issuer, certOf .certType raCert = some ra ∧ issuingCaName ra = some issuer ∧
      parseIssuerAndSerial ias = some (issuer, intMagnitude serial) := by
  obtain ⟨filled, u, v, issuer, -, ⟨⟨ra, parsed, name⟩, -⟩, -, built⟩ := issuerAndSerial_iff.mp run
  exact ⟨ra, issuer, sound.parse _ _ _ _ _ parsed, name, parseIssuerAndSerial_enc built filled⟩

theorem dupBuf_ok {nb : Bool} {src copy : Bytes} {w w' : σ}
    (run : dupBuf env nb src w = some (.ok copy, w')) : copy = src := by
  cases nb <;> simp [dupBuf] at run
  · exact run.1.symm
  · obtain ⟨-, _, -, rfl, -⟩ := run
    rfl

/-- What is built keeps the bundle and names what the caller asked for. -/
theorem scepBuild_sound (sound : Sound env signedOf certOf) {s : ScepSession} {c : ScepArgs}
    {key : ScepKey} {nb : Bool} {b : ScepBuilt} {w w' : σ}
    (run : scepBuild env s c key nb w = some (.ok b, w')) :
    b.caBundle = c.caBundle ∧ Carries env b ∧
    (c.op = .getCert → ∃ ra issuer, certOf .certType c.raCert = some ra ∧
      issuingCaName ra = some issuer ∧
      parseIssuerAndSerial b.ias = some (issuer, intMagnitude c.serial)) := by
  simp only [scepBuild, scepPrepare, Prog.bind_ok_iff, Prog.pure_apply, Option.some.injEq, Prod.mk.injEq,
    Except.ok.injEq] at run
  obtain ⟨signer, _, -, bundle, _, copied, ias, v, named, signerKey, _, -, ⟨nonce, txid, pki⟩, _,
    ⟨hash, _, -, _, _, -, envelope, _, -, _, _, -, _, _, -, _, _, -, _, _, message, ⟨rfl, rfl, rfl⟩, -⟩,
    ⟨url, post⟩, _, -, rfl, -⟩ := run
  refine ⟨dupBuf_ok copied, ⟨_, envelope, hash, _, _, message⟩, fun getCert => ?_⟩
  simp only [scepNames, getCert] at named
  exact issuerAndSerial_sound sound named

/-- The session holds what its request was begun with. -/
structure Kept (s : ScepSession) (c : ScepArgs) (built : ScepBuilt) : Prop where
  op : s.inOp = c.op
  caBundle : s.inCaBundle = c.caBundle
  txid : s.inTxid = built.txid
  nonce : s.inNonce = built.nonce
  ias : s.inIas = built.ias

theorem scepParse_sound (sound : Sound env signedOf certOf) {s : ScepSession} {resp : HttpResponse}
    {c : ScepArgs} {o o' : ScepOutputs} {n : Nat} {w w' : σ} (pki : s.inOp.isPki = true)
    (address : c.resOut = some n) (cleared : o.results n = .cleared)
    (run : scepParse env s resp c o w = some ((.ok, o'), w')) :
    ∃ signed, signedOf resp.body = some signed ∧
      Authentic certOf s.inTxid s.inNonce s.inCaBundle signed ∧ Reports signed (o'.results n) ∧
      (s.inOp = .getCert → (o'.results n).status = .success → ∃ issuer serial,
        parseIssuerAndSerial s.inIas = some (issuer, serial) ∧
        HoldsCert env certOf (o'.results n).certPem issuer serial) := by
  simp only [scepParse] at run
  split at run
  · cases run
  · split at run
    · cases run
    · split at run
      · simp_all [ScepOp.isPki]
      · simp_all [ScepOp.isPki]
      · simp_all [ScepOp.isPki]
      · simp only [address, cleared] at run
        split at run
        · cases run
        · rename_i rc out v finished
          split at run
          · rename_i granted
            obtain ⟨rfl, getCert, success⟩ := granted
            obtain ⟨⟨⟨rc', out'⟩, v'⟩, checked, same⟩ := Option.map_eq_some_iff.mp run
            cases same
            obtain ⟨rfl, issuer, serial, named, holds⟩ := scepCheckGetCert_sound sound checked
            obtain ⟨signed, known, authentic, reports⟩ := scepFinish_sound sound finished
            refine ⟨signed, known, authentic, ?_, fun _ _ => ⟨issuer, serial, named, ?_⟩⟩
            · simpa [ScepOutputs.setResult] using reports
            · simpa [ScepOutputs.setResult] using holds
          · rename_i other
            cases run
            obtain ⟨signed, known, authentic, reports⟩ := scepFinish_sound sound finished
            refine ⟨signed, known, authentic, ?_, fun getCert success => ?_⟩
            · simpa [ScepOutputs.setResult] using reports
            · refine absurd ⟨rfl, getCert, ?_⟩ other
              simpa [ScepOutputs.setResult] using success

/-- A PKIOperation that ends with OK has accepted the reply it was given. -/
theorem scepSessionSend_sound (sound : Sound env signedOf certOf) {x x' : ScepClient σ} {c c' : ScepArgs}
    {nb : Bool} {built : ScepBuilt} {n : Nat} (kept : Kept x.session c built)
    (asked : c.op = .getCert → ∃ ra issuer, certOf .certType c.raCert = some ra ∧
      issuingCaName ra = some issuer ∧
      parseIssuerAndSerial built.ias = some (issuer, intMagnitude c.serial))
    (pki : c.op.isPki = true) (address : c'.resOut = some n) (cleared : x.outputs.results n = .cleared)
    (sent : scepSessionSend env x c' nb = some (.ok, x')) :
    ∃ reply, scepAnswered env x nb = some reply ∧
      Accepts env signedOf certOf c built reply.body (x'.outputs.results n) := by
  simp only [scepSessionSend] at sent
  split at sent
  · cases sent
  · rename_i rc e called
    split at sent
    · rename_i want
      cases sent
      simp [Rc.isWant] at want
    · split at sent
      · rename_i ok
        subst ok
        simp only [scepSessionFinish] at sent
        split at sent
        · cases sent
        · rename_i rc o w parsed
          cases sent
          refine ⟨e.resp, by simp [scepAnswered, called], ?_⟩
          obtain ⟨signed, known, authentic, reports, held⟩ := scepParse_sound sound
            (by rw [← kept.op] at pki; exact pki) address cleared parsed
          refine ⟨signed, known, ?_, reports, fun getCert success => ?_⟩
          · rw [← kept.txid, ← kept.nonce, ← kept.caBundle]
            exact authentic
          · obtain ⟨issuer, serial, named, holds⟩ := held (kept.op.trans getCert) success
            obtain ⟨ra, issuer', known', name, named'⟩ := asked getCert
            have same : parseIssuerAndSerial built.ias = some (issuer, serial) := by
              rw [← kept.ias]
              exact named
            rw [named'] at same
            cases same
            exact ⟨ra, issuer, known', name, holds⟩
      · rename_i notOk
        cases sent
        exact absurd rfl notOk

section Positions

variable {events more : List (ScepEvent σ)} {e : ScepEvent σ} {answers : List ScepAnswer}
  {sessions : Sessions σ} {n b i : Nat} {c : ScepArgs} {built : ScepBuilt}

theorem requested_append (within : n < events.length) :
    Requested env (events ++ more) n c built ↔ Requested env events n c built := by
  simp [Requested, sessionsAt, List.take_append_of_le_length (Nat.le_of_lt within),
    List.getElem?_append_left within]

theorem requested_last (ran : history (scepStep env) (fun _ => none) events = some (answers, sessions)) :
    Requested env (events ++ e :: more) events.length c built ↔
      scepBegins env sessions e = some (c, built) := by
  simp [Requested, sessionsAt, ran]

/-- A request of a history is one of its prefix, if it was begun there. -/
theorem Serves.append (serves : Serves env events b i) (within : i < events.length) :
    Serves env (events ++ more) b i := by
  cases serves with
  | atOnce same => exact .atOnce same
  | later k earlier begun ended only =>
      obtain ⟨e, call, nb, here, action⟩ := begun
      obtain ⟨e', call', nb', here', action'⟩ := ended
      refine .later k earlier
        ⟨e, call, nb, by rwa [List.getElem?_append_left (Nat.lt_trans earlier within)], action⟩
        ⟨e', call', nb', by rwa [List.getElem?_append_left within], action'⟩ fun n e after upTo here on => ?_
      have inside : n < events.length := Nat.lt_of_le_of_lt upTo within
      rw [List.getElem?_append_left inside] at here
      obtain ⟨calls, none'⟩ := only n e after upTo here on
      exact ⟨calls, fun c built => by rw [requested_append inside]; exact none' c built⟩

end Positions

/-- What a request was begun with. -/
theorem Requested.sound (sound : Sound env signedOf certOf) {events : List (ScepEvent σ)} {b : Nat}
    {c : ScepArgs} {built : ScepBuilt} (requested : Requested env events b c built) :
    Carries env built ∧ c.op.isPki = true ∧
    (c.op = .getCert → ∃ ra issuer, certOf .certType c.raCert = some ra ∧
      issuingCaName ra = some issuer ∧
      parseIssuerAndSerial built.ias = some (issuer, intMagnitude c.serial)) := by
  have builds : ∀ s c' nb v, scepBuilds env s c' nb v = some built → c' = c →
      Carries env built ∧ c.op.isPki = true ∧ (c.op = .getCert → ∃ ra issuer,
        certOf .certType c.raCert = some ra ∧ issuingCaName ra = some issuer ∧
        parseIssuerAndSerial built.ias = some (issuer, intMagnitude c.serial)) := by
    rintro s c' nb v ran rfl
    simp only [scepBuilds] at ran
    split at ran
    · rename_i accepted
      split at ran
      · cases ran
      · split at ran
        · rename_i finished
          cases ran
          obtain ⟨-, carries, asked⟩ := scepBuild_sound sound finished
          exact ⟨carries, accepted.2.2, asked⟩
        · cases ran
    · cases ran
  obtain ⟨sessions, e, -, -, begun⟩ := requested
  simp only [scepBegins] at begun
  split at begun
  · split at begun
    · cases begun
    · split at begun
      · cases begun
      · simp only [Option.map_eq_some_iff, Prod.mk.injEq] at begun
        obtain ⟨b, ran, same, rfl⟩ := begun
        exact builds _ _ _ _ ran same
  · split at begun
    · simp only [Option.map_eq_some_iff, Prod.mk.injEq] at begun
      obtain ⟨b, ran, same, rfl⟩ := begun
      exact builds _ _ _ _ ran same
    · cases begun
  · cases begun
  · cases begun

/-- The session `k` is sound, and what it has in flight was begun by one of the events. -/
structure Tracked (env : WolfCrypt σ) (events : List (ScepEvent σ)) (k : Nat) (x : ScepClient σ) :
    Prop where
  valid : x.Valid env
  request : x.session.inActive = true → x.session.inOp.isPki = true → ∃ b c built,
    Requested env events b c built ∧ Kept x.session c built ∧
    (∃ e call nb, events[b]? = some e ∧ e.action = .calls k call nb) ∧
    ∀ n e, b < n → events[n]? = some e → e.action.session = some k →
      (∃ call nb, e.action = .calls k call nb) ∧ ∀ c built, ¬Requested env events n c built

theorem Tracked.of_idle {events : List (ScepEvent σ)} {k : Nat} {x : ScepClient σ}
    (valid : x.Valid env) (idle : x.session.inActive = false) : Tracked env events k x :=
  ⟨valid, by simp [idle]⟩

section Step

variable {events : List (ScepEvent σ)} {e : ScepEvent σ} {answers : List ScepAnswer}
  {sessions : Sessions σ} {k : Nat} {x x' : ScepClient σ}

/-- An event that begins nothing on a session leaves its request where it was begun. -/
theorem Tracked.snoc (tracked : Tracked env events k x)
    (ran : history (scepStep env) (fun _ => none) events = some (answers, sessions))
    (quiet : e.action.session = some k →
      (∃ call nb, e.action = .calls k call nb) ∧ scepBegins env sessions e = none)
    (same : x'.session = x.session) (valid : x'.Valid env) : Tracked env (events ++ [e]) k x' := by
  refine ⟨valid, fun active pki => ?_⟩
  rw [same] at active pki ⊢
  obtain ⟨b, c, built, requested, kept, ⟨first, call, nb, begun, action⟩, only⟩ :=
    tracked.request active pki
  have within : b < events.length := (List.getElem?_eq_some_iff.mp begun).1
  refine ⟨b, c, built, (requested_append within).mpr requested, kept,
    ⟨first, call, nb, by rwa [List.getElem?_append_left within], action⟩, fun n e' after here on => ?_⟩
  have bound : n < (events ++ [e]).length := (List.getElem?_eq_some_iff.mp here).1
  by_cases earlier : n < events.length
  · rw [List.getElem?_append_left earlier] at here
    obtain ⟨calls, none'⟩ := only n e' after here on
    exact ⟨calls, fun c built => by rw [requested_append earlier]; exact none' c built⟩
  · obtain rfl : n = events.length := by simp at bound; omega
    obtain rfl : e = e' := by simpa using here
    obtain ⟨calls, begins⟩ := quiet on
    exact ⟨calls, fun c built => by rw [requested_last ran, begins]; simp⟩

/-- A PKIOperation begun on an idle session keeps what was built. -/
theorem scepSessionBegin_kept (sound : Sound env signedOf certOf) {c : ScepArgs} {nb : Bool}
    {y : ScepClient σ} (given : scepCallOut c ≠ none) (checked : scepCallCheck c = .ok)
    (pki : c.op.isPki = true) (run : scepSessionBegin env x c nb = some (.ok, y)) :
    y.outputs = x.outputs ∧
    ∃ built, scepBuilds env x.session c nb x.world = some built ∧ Kept y.session c built := by
  simp only [scepSessionBegin, pki] at run
  split at run
  · rename_i key _ hasKey
    simp only [scepSessionBeginPkiOp] at run
    split at run
    · cases run
    · rename_i failed
      cases run
      exact absurd rfl (scepBuild_raises env _ _ _ _ _ _ _ failed).1
    · rename_i b w built
      cases run
      obtain ⟨bundle, -, -⟩ := scepBuild_sound sound built
      refine ⟨rfl, b, by simp [scepBuilds, given, checked, pki, hasKey, built], ?_⟩
      exact ⟨rfl, bundle, rfl, rfl, rfl⟩
  · cases run
  · simp at *

theorem ScepCall.pki_out {call : ScepCall} {out : ScepOut} (pki : call.args.op.isPki = true)
    (own : scepCallOut call.args = some out) :
    ∃ n, call.args.resOut = some n ∧ out = .result n := by
  cases result : call.args.resOut with
  | some n => exact ⟨n, rfl, by simpa [scepCallOut, result] using own.symm⟩
  | none =>
      cases call <;>
        simp_all [ScepCall.args, PkiArgs.args, scepCallOut, ScepOp.isPki]

/-- A call on a session leaves it tracked, and its OK stands for an accepted reply. -/
theorem scepSession_tracked (sound : Sound env signedOf certOf)
    (ran : history (scepStep env) (fun _ => none) events = some (answers, sessions))
    (tracked : Tracked env events k x) (here : sessions k = some x) {call : ScepCall} {nb : Bool}
    (action : e.action = .calls k call nb) {rc : Rc}
    (run : scepSession env (x.met e.world) call nb = some (rc, x')) :
    Tracked env (events ++ [e]) k x' ∧
    (rc = .ok → call.args.op.isPki = true →
      Completes env signedOf certOf (events ++ [e]) events.length call.args.op
        ⟨rc, call.args.resOut.map x'.outputs.results⟩) := by
  have valid : (x.met e.world).Valid env :=
    ⟨tracked.valid.inStep, tracked.valid.output⟩
  obtain ⟨step, valid'⟩ := scepSession_step valid run
  have lent : (x.met e.world).session.inActive = true → (x.met e.world).session.inOut ≠ none := by
    intro flagged
    obtain ⟨out, inOut, -⟩ := tracked.valid.output flagged
    simp [inOut]
  have quiet : x.session.inActive = true → e.action.session = some k →
      (∃ call nb, e.action = .calls k call nb) ∧ scepBegins env sessions e = none :=
    fun flagged _ => ⟨⟨call, nb, action⟩, by simp [scepBegins, action, here, flagged]⟩
  cases scepSessionCall_cases lent run with
  | refused flagged mismatch code same =>
      refine ⟨tracked.snoc ran (quiet flagged) ?_ valid', fun ok => by simp [code] at ok⟩
      rcases same with rfl | rfl
      · rfl
      · exact (scepCallClear_keeps _ _).1
  | resumed flagged nonblocking continues sent =>
      obtain ⟨serving, held⟩ := Http.InStep.serving valid.inStep flagged
      obtain ⟨-, flag, -, kept⟩ := scepSessionSend_inStep flagged (.resumes serving held nonblocking) sent
      refine ⟨?_, fun ok pki => ?_⟩
      · by_cases want : rc.isWant = true
        · exact tracked.snoc ran (quiet flagged) (kept want).1 valid'
        · exact .of_idle valid' (flag.trans (Bool.not_eq_true _ ▸ want))
      · subst ok
        obtain ⟨out, inOut, cleared⟩ := tracked.valid.output flagged
        obtain ⟨n, address, rfl⟩ := ScepCall.pki_out pki (continues.2.1.trans inOut)
        have op : x.session.inOp = call.args.op := continues.1
        obtain ⟨b, c, built, requested, kept', ⟨first, call', nb', begun, action'⟩, only⟩ :=
          (tracked.snoc ran (quiet flagged) rfl tracked.valid).request flagged (by rw [op]; exact pki)
        obtain ⟨carries, pki', asked⟩ := requested.sound sound
        have kept' : Kept (x.met e.world).session c built := kept'
        obtain ⟨reply, answered, accepts⟩ :=
          scepSessionSend_sound sound kept' asked pki' address cleared sent
        have within : b < (events ++ [e]).length := (List.getElem?_eq_some_iff.mp begun).1
        refine ⟨b, c, built, reply, _, requested, ?_, kept'.op.symm.trans op, carries, ?_,
          by rw [address]; rfl, accepts⟩
        · by_cases last : b = events.length
          · exact .atOnce last
          · exact .later k (by simp at within; omega) ⟨first, call', nb', begun, action'⟩
              ⟨e, call, nb, by simp, action⟩ fun n e' after _ => only n e' after
        · have same : scepCallClear (x.met e.world) call.args = x.met e.world := by
            rw [scepCallClear, if_pos ⟨flagged, continues.2.1⟩]
          have flagged' : x.session.inActive = true := flagged
          simp [replyAt, sessionsAt, ran, scepReply, action, here, same, flagged', answered]
  | unbegun idle code idle' http => exact ⟨.of_idle valid' idle', fun ok => absurd ok code.1⟩
  | begun y out idle own checked began sent =>
      obtain ⟨session, http, -, world⟩ := scepCallClear_keeps (x.met e.world) call.args
      have idle₀ : (scepCallClear (x.met e.world) call.args).session.inActive = false := by
        rw [session]
        exact idle
      have idle' : x.session.inActive = false := idle
      rcases scepSessionBegin_cases idle₀ began with
        ⟨refuses, -⟩ | ⟨-, http', -, active', op', inOut', lent', -⟩
      · exact absurd rfl refuses.1
      have free : y.http.smResp = none := by
        rw [http', http]
        exact Http.InStep.free valid.inStep idle
      obtain ⟨-, flag, -, kept⟩ := scepSessionSend_inStep active' (.begins free lent') sent
      have built : call.args.op.isPki = true → y.outputs = (scepCallClear (x.met e.world) call.args).outputs ∧
          ∃ built, Requested env (events ++ [e]) events.length call.args built ∧
            Kept y.session call.args built := by
        intro pki
        obtain ⟨outputs, built, builds, kept⟩ :=
          scepSessionBegin_kept sound (by simp [own]) checked pki began
        refine ⟨outputs, built, (requested_last ran).mpr ?_, kept⟩
        rw [session, world] at builds
        simpa [scepBegins, action, here, idle'] using builds
      refine ⟨⟨valid', fun active pki => ?_⟩, fun ok pki => ?_⟩
      · have same := (kept (flag.symm.trans active)).1
        rw [same] at pki ⊢
        rw [op'] at pki
        obtain ⟨-, built, requested, kept'⟩ := built pki
        refine ⟨events.length, call.args, built, requested, kept', ⟨e, call, nb, by simp, action⟩,
          fun n e' after here' => ?_⟩
        have bound := (List.getElem?_eq_some_iff.mp here').1
        simp at bound
        omega
      · subst ok
        obtain ⟨outputs, built, requested, kept'⟩ := built pki
        obtain ⟨n, address, rfl⟩ := ScepCall.pki_out pki own
        obtain ⟨carries, pki', asked⟩ := requested.sound sound
        have cleared : y.outputs.results n = .cleared := by
          rw [outputs]
          exact scepCallClear_own idle own
        obtain ⟨reply, answered, accepts⟩ :=
          scepSessionSend_sound sound kept' asked pki' address cleared sent
        refine ⟨events.length, call.args, built, reply, _, requested, .atOnce rfl, rfl, carries, ?_,
          by rw [address]; rfl, accepts⟩
        have idle₁ : (scepCallClear (x.met e.world) call.args).session.inActive ≠ true := by simp [idle₀]
        simp [replyAt, sessionsAt, ran, scepReply, action, here, idle₁, began, answered]

/-- A one-shot call builds its request on a session of its own. -/
theorem scepOneShotConnect_kept (sound : Sound env signedOf certOf) {srv : ServerCfg} {opts : ScepOpts}
    {c : ScepArgs} {o : ScepOutputs} {s : ScepSession} {http : HttpSession} {w w' : σ}
    (given : scepCallOut c ≠ none) (pki : c.op.isPki = true)
    (run : scepOneShotConnect env srv opts c o w = some (.ok (s, http), w')) :
    ∃ fresh v built, scepSessionNew env srv opts w = some (.ok fresh, v) ∧
      scepBuilds env fresh c false v = some built ∧ Kept s c built := by
  simp only [scepOneShotConnect, Prog.ite_apply] at run
  split at run
  · cases run
  · rename_i checked
    simp only [Prog.bind_ok_iff, Prog.pure_apply, Option.some.injEq, Prod.mk.injEq, Except.ok.injEq] at run
    obtain ⟨fresh, v, made, s', v', began, http', _, -, ⟨rfl, -⟩, -⟩ := run
    simp only [scepSessionBeginAlone] at began
    split at began
    · cases began
    · rename_i y began'
      cases began
      obtain ⟨-, built, builds, kept⟩ :=
        scepSessionBegin_kept sound given (by simpa using checked) pki began'
      exact ⟨fresh, v, built, made, builds, kept⟩
    · cases began

theorem httpSessionOpen_error {env : Env σ} {w w' : σ} {url : Bytes} {maxBytes : Nat} {timeout : Int}
    {rc : Rc} (run : httpSessionOpen env w url maxBytes timeout = (.error rc, w')) : rc ≠ .ok := by
  simp only [httpSessionOpen, Env.withAlloc] at run
  split at run
  · split at run
    · rename_i failed
      cases run
      exact (httpUrlParse_error failed).1.1
    · repeat' split at run
      all_goals cases run
      all_goals assumption
  · cases run
    simp

theorem scepSessionNew_raises (srv : ServerCfg) (opts : ScepOpts) :
    (scepSessionNew env srv opts).Raises Rc.Refuses := by
  have copied : ∀ s, (strdup env s).Raises Rc.Refuses :=
    fun _ => .bind (env.allocate_raises _) fun _ => .pure _
  refine .bind ?_ fun url => .bind (.require _ ⟨by simp, rfl⟩) fun _ =>
    .bind (env.allocate_raises _) fun _ => .bind (copied _) fun _ => .bind ?_ fun _ => .pure _
  · unfold cfgServerUrl
    split
    · exact .fail ⟨by simp, rfl⟩
    · exact .bind (.require _ ⟨by simp, rfl⟩) fun _ =>
        .bind (.callMap_id fun _ _ _ failed => (httpUrlParse_error failed).1) fun _ => .pure _
  · unfold strdupOpt
    split
    · exact .pure _
    · exact .bind (copied _) fun _ => .pure _

theorem scepOneShotConnect_raises (srv : ServerCfg) (opts : ScepOpts) (c : ScepArgs) (o : ScepOutputs) :
    (scepOneShotConnect env srv opts c o).Raises (· ≠ .ok) := by
  refine .ite (fun failed => .fail failed) fun _ =>
    .bind ((scepSessionNew_raises srv opts).mono fun _ refuses => refuses.1) fun s => .bind ?_ fun s' =>
      .bind (.callMap_id fun _ _ _ failed => httpSessionOpen_error failed) fun _ => .pure _
  intro w rc w' run
  simp only [scepSessionBeginAlone] at run
  split at run <;> cases run
  assumption

theorem scepOneShot_sound (sound : Sound env signedOf certOf)
    (ran : history (scepStep env) (fun _ => none) events = some (answers, sessions)) {srv : ServerCfg}
    {opts : ScepOpts} {call : ScepCall} {outputs o : ScepOutputs} {w : σ}
    (action : e.action = .oneShot srv opts call outputs) (pki : call.args.op.isPki = true)
    (run : scepOneShot env srv opts call.args outputs e.world = some ((.ok, o), w)) :
    Completes env signedOf certOf (events ++ [e]) events.length call.args.op
      ⟨.ok, call.args.resOut.map o.results⟩ := by
  simp only [scepOneShot] at run
  split at run
  · cases run
  · rename_i given
    obtain ⟨out, own⟩ := Option.ne_none_iff_exists'.mp given
    obtain ⟨n, address, rfl⟩ := ScepCall.pki_out pki own
    split at run
    · cases run
    · rename_i failed
      cases run
      exact absurd rfl (scepOneShotConnect_raises _ _ _ _ _ _ _ failed)
    · rename_i s http v connected
      obtain ⟨⟨rc, x⟩, sent, same⟩ := Option.map_eq_some_iff.mp run
      cases same
      obtain ⟨fresh, v', built, made, builds, kept⟩ := scepOneShotConnect_kept sound given pki connected
      have requested : Requested env (events ++ [e]) events.length call.args built :=
        (requested_last ran).mpr (by simp [scepBegins, action, made, builds])
      obtain ⟨carries, -, asked⟩ := requested.sound sound
      have cleared := outputs.clear_own own
      have kept' : Kept (⟨s, http, .zero, outputs.clear call.args, v⟩ : ScepClient σ).session
        call.args built := kept
      obtain ⟨reply, answered, accepts⟩ :=
        scepSessionSend_sound sound kept' asked pki address cleared sent
      refine ⟨events.length, call.args, built, reply, _, requested, .atOnce rfl, rfl, carries, ?_,
        by rw [address]; rfl, accepts⟩
      simp [replyAt, sessionsAt, ran, scepReply, action, connected, answered]

end Step

/-- Every open session is tracked after every event, and every OK stands for an accepted reply. -/
theorem scepStep_tracked (sound : Sound env signedOf certOf) {events : List (ScepEvent σ)}
    {e : ScepEvent σ} {answers : List ScepAnswer} {answer : ScepAnswer} {sessions sessions' : Sessions σ}
    (ran : history (scepStep env) (fun _ => none) events = some (answers, sessions))
    (tracked : ∀ k x, sessions k = some x → Tracked env events k x)
    (step : scepStep env sessions e = some (answer, sessions')) :
    (∀ k x, sessions' k = some x → Tracked env (events ++ [e]) k x) ∧
    (∀ c, e.action.pki = some c → answer.rc = .ok →
      Completes env signedOf certOf (events ++ [e]) events.length c.op answer) := by
  have elsewhere : ∀ k x, e.action.session ≠ some k → sessions k = some x →
      Tracked env (events ++ [e]) k x := by
    intro k x other here
    exact (tracked k x here).snoc ran (fun on => absurd on other) rfl (tracked k x here).valid
  have updated : ∀ k new, e.action.session = some k →
      (∀ x, new = some x → Tracked env (events ++ [e]) k x) →
      ∀ k' x, Function.update sessions k new k' = some x → Tracked env (events ++ [e]) k' x := by
    intro k new on renewed k' x here
    by_cases same : k' = k
    · subst same
      exact renewed x (by simpa using here)
    · rw [Function.update_of_ne same] at here
      exact elsewhere k' x (fun on' => same (Option.some.inj (on'.symm.trans on))) here
  cases action : e.action with
  | opens k srv opts outputs =>
      refine ⟨?_, fun c pki => by simp [ScepAction.pki] at pki⟩
      have on : e.action.session = some k := by rw [action]; rfl
      simp only [scepStep, action] at step
      split at step
      · cases step
      · cases step
        exact updated k none on (fun x new => by cases new)
      · rename_i s http w opened
        cases step
        obtain ⟨valid, idle⟩ := scepSessionOpen_valid opened outputs
        refine updated k _ on fun x new => ?_
        cases new
        exact .of_idle valid idle
  | closes k =>
      refine ⟨?_, fun c pki => by simp [ScepAction.pki] at pki⟩
      simp only [scepStep, action] at step
      cases step
      exact updated k none (by rw [action]; rfl) (fun x new => by cases new)
  | calls k call nb =>
      have on : e.action.session = some k := by rw [action]; rfl
      simp only [scepStep, action] at step
      cases here : sessions k with
      | none =>
          simp only [here, Option.some.injEq, Prod.mk.injEq] at step
          obtain ⟨rfl, rfl⟩ := step
          refine ⟨fun k' x here' => ?_, fun c _ ok => by simp at ok⟩
          refine elsewhere k' x (fun on' => ?_) here'
          obtain rfl : k' = k := Option.some.inj (on'.symm.trans on)
          simp [here] at here'
      | some x =>
          simp only [here, Option.map_eq_some_iff, Prod.exists, Prod.mk.injEq] at step
          obtain ⟨rc, x', run, rfl, rfl⟩ := step
          obtain ⟨tracked', completes⟩ := scepSession_tracked sound ran (tracked k x here) here action run
          refine ⟨updated k _ on fun y new => ?_, fun c pki ok => ?_⟩
          · cases new
            exact tracked'
          · simp only [ScepAction.pki, Option.ite_none_right_eq_some, Option.some.injEq] at pki
            obtain ⟨pki, rfl⟩ := pki
            exact completes ok pki
  | oneShot srv opts call outputs =>
      simp only [scepStep, action, Option.map_eq_some_iff, Prod.exists, Prod.mk.injEq] at step
      obtain ⟨rc, o, w, run, rfl, rfl⟩ := step
      refine ⟨fun k x => elsewhere k x (by rw [action]; simp [ScepAction.session]), fun c pki ok => ?_⟩
      simp only [ScepAction.pki, Option.ite_none_right_eq_some, Option.some.injEq] at pki
      obtain ⟨pki, rfl⟩ := pki
      subst ok
      exact scepOneShot_sound sound ran action pki run

theorem Completes.append {events : List (ScepEvent σ)} {i : Nat} {op : ScepOp} {answer : ScepAnswer}
    (completes : Completes env signedOf certOf events i op answer) (within : i < events.length)
    (more : List (ScepEvent σ)) : Completes env signedOf certOf (events ++ more) i op answer := by
  obtain ⟨b, c, built, reply, out, requested, serves, same, carries, replied, result, accepts⟩ := completes
  have earlier : b < events.length := by
    obtain ⟨_, _, -, here, -⟩ := requested
    exact (List.getElem?_eq_some_iff.mp here).1
  refine ⟨b, c, built, reply, out, (requested_append earlier).mpr requested, serves.append within, same,
    carries, ?_, result, accepts⟩
  rw [← replied]
  simp [replyAt, sessionsAt, List.take_append_of_le_length (Nat.le_of_lt within),
    List.getElem?_append_left within]

/-- Over every history of sessions and one-shot calls, against every world: a PKIOperation that
returns OK was given a reply that is signed under the bundle of the request it serves, and answers
that very request. If no nonce is used twice, a reply that answers some request can end no other. -/
theorem scep_replies_sound (sound : Sound env signedOf certOf) (events : List (ScepEvent σ))
    (answers : List ScepAnswer) (sessions : Sessions σ)
    (ran : history (scepStep env) (fun _ => none) events = some (answers, sessions)) :
    (∀ i e answer c, events[i]? = some e → answers[i]? = some answer → e.action.pki = some c →
      answer.rc = .ok → Completes env signedOf certOf events i c.op answer) ∧
    ((∀ b b' c c' built built', Requested env events b c built → Requested env events b' c' built' →
        built.nonce = built'.nonce → b = b') →
      ∀ i e answer c, events[i]? = some e → answers[i]? = some answer → e.action.pki = some c →
        answer.rc = .ok → ∀ reply signed, replyAt env events i = some reply →
        signedOf reply.body = some signed → ∀ b c' built, Requested env events b c' built →
        attrIn signed.attributes .recipNonce = some built.nonce → Serves env events b i) := by
  have tracked : ∀ {events answers sessions},
      history (scepStep env) (fun _ => none) events = some (answers, sessions) →
      ∀ k x, sessions k = some x → Tracked env events k x := by
    intro events answers sessions ran
    refine history_induction (P := fun events _ sessions => ∀ k x, sessions k = some x →
      Tracked env events k x) (fun k x open' => by cases open') ?_ ran
    intro inputs results s e answer t reached tracked step
    exact (scepStep_tracked sound reached tracked step).1
  have completes : ∀ i e answer c, events[i]? = some e → answers[i]? = some answer →
      e.action.pki = some c → answer.rc = .ok →
      Completes env signedOf certOf events i c.op answer := by
    intro i e answer c here answered pki ok
    have within : i < events.length := (List.getElem?_eq_some_iff.mp here).1
    obtain ⟨before, s, answer', t, reached, step, answered'⟩ := history_at ran here
    obtain rfl : answer' = answer := Option.some.inj (answered'.symm.trans answered)
    have now := (scepStep_tracked sound reached (tracked reached) step).2 c pki ok
    have position : (events.take i).length = i := List.length_take_of_le (Nat.le_of_lt within)
    rw [position] at now
    have whole : events.take i ++ [e] ++ events.drop (i + 1) = events := by
      rw [← (List.getElem?_eq_some_iff.mp here).2, List.take_append_getElem, List.take_append_drop]
    rw [← whole]
    exact now.append (by simp [position]) _
  refine ⟨completes, fun fresh i e answer c here answered pki ok reply signed replied known b c' built
    requested nonce => ?_⟩
  obtain ⟨b', c'', built', reply', out, requested', serves, -, -, replied', -, signed', known',
    authentic, -⟩ := completes i e answer c here answered pki ok
  obtain rfl : reply' = reply := Option.some.inj (replied'.symm.trans replied)
  obtain rfl : signed' = signed := Option.some.inj (known'.symm.trans known)
  have same : built'.nonce = built.nonce :=
    Option.some.inj (authentic.recipientNonce.symm.trans nonce)
  rw [← fresh b' b c'' c' built' built requested' requested same]
  exact serves

/-! A GetCert that waits for its reply and is resumed once it is there. -/

def grantedSigned : SignedData where
  content := [1]
  certs := [pemBegin]
  verifyCert := [1]
  attributes :=
    [⟨ScepAttr.msgType.oid, [0x13, 1] ++ ascii "3"⟩, ⟨ScepAttr.pkiStatus.oid, [0x13, 1] ++ ascii "0"⟩,
      ⟨ScepAttr.transId.oid, [0x13, 32] ++ hexEncode false (List.replicate 16 5)⟩,
      ⟨ScepAttr.recipNonce.oid, [0x04, 16] ++ List.replicate 16 5⟩]

def grantedEvents : List (ScepEvent Wire) :=
  let getCert : ScepCall := .getCert
    { caps := none, raCert := [1], caBundle := [0x30, 0], key := some ⟨.rsa, 0⟩, out := some 0 }
    (some [1]) [3]
  let silent : Wire :=
    { rest := [], plan := [.move 1000, .move 1000, .wantRead], zeroClose := false, refused := false }
  let reply : Wire :=
    { rest := ascii "HTTP/1.1 200 OK\r\nContent-Length: 1\r\n\r\nX", plan := [], zeroClose := false
      refused := false }
  [⟨.opens 0 (exampleCfg .scep (ascii "http://h/")) ⟨.random, .auto, .renewalReq, .auto⟩
      ⟨fun _ => .cleared, fun _ => [], fun _ => .zero⟩, silent⟩,
    ⟨.calls 0 getCert true, silent⟩, ⟨.calls 0 getCert true, reply⟩]

theorem scep_replies_sound_granted : ∃ answers sessions answer,
    history (scepStep (exampleCrypt grantedSigned)) (fun _ => none) grantedEvents =
      some (answers, sessions) ∧
    answers.map ScepAnswer.rc = [.ok, .errWantRead, .ok] ∧ answers[2]? = some answer ∧
    Completes (exampleCrypt grantedSigned) (fun _ => some grantedSigned) (fun _ _ => some exampleCert)
      grantedEvents 2 .getCert answer := by
  have sound : Sound (exampleCrypt grantedSigned) (fun _ => some grantedSigned)
      (fun _ _ => some exampleCert) := by
    refine ⟨fun pki w signed w' run => ?_, fun kind der w dc w' run => ?_⟩
    · cases run
      rfl
    · cases run
      rfl
  have answered : (history (scepStep (exampleCrypt grantedSigned)) (fun _ => none) grantedEvents).map
      (fun ran => ran.1.map ScepAnswer.rc) = some [.ok, .errWantRead, .ok] := by decide +kernel
  obtain ⟨⟨answers, sessions⟩, ran, codes⟩ := Option.map_eq_some_iff.mp answered
  have third : (answers.map ScepAnswer.rc)[2]? = some .ok := by
    rw [codes]
    rfl
  rw [List.getElem?_map, Option.map_eq_some_iff] at third
  obtain ⟨answer, here, ok⟩ := third
  exact ⟨answers, sessions, answer, ran, codes, here,
    (scep_replies_sound sound grantedEvents answers sessions ran).1 2 _ answer _ rfl here rfl ok⟩

end WolfCert.Scep
