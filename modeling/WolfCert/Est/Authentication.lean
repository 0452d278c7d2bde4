import WolfCert.CLib.Base64
import WolfCert.Est.Approval

/-!
# Basic authentication

The credential that the client sends and the one that the server expects.
-/

namespace WolfCert.Est

open WolfCert.CLib WolfCert.Server WolfCert.Http

variable {σ : Type}

/-- The credential `user:password`. -/
def credential (user pass : Bytes) : Bytes := user ++ [58] ++ pass

/-- The base64 encoder is injective, and what it writes is base64. -/
structure Base64Lawful (env : EstServerEnv σ) : Prop where
  injective : ∀ a b enc, env.base64EncodeNoNl a = some enc → env.base64EncodeNoNl b = some enc → a = b
  chars : ∀ a enc, env.base64EncodeNoNl a = some enc → ∀ c ∈ enc, Base64.IsChar c

/-- The server runs with the credentials of its configuration, and neither of them is empty. -/
theorem serverStart_credentials {start : StartEnv σ} {ops : StoreOps σ} {cfg : ServerCfgSrv}
    {s s' : Stored σ} {base : WolfCertServer} {user : Bytes}
    (started : serverStart start ops cfg s = some (.ok base, s'))
    (set : cfg.httpBasicUser = some user) :
    base.cfgBasicUser = some user ∧ ∃ pass, cfg.httpBasicPass = some pass ∧
      base.cfgBasicPass = some pass ∧ user ≠ [] ∧ pass ≠ [] := by
  simp only [serverStart, Prog.bind_ok_iff, Prog.require_ok_iff, Prog.pure_apply, Option.some.injEq,
    Prod.mk.injEq, Except.ok.injEq] at started
  obtain ⟨_, _, ⟨checked, -⟩, _, _, -, ⟨challenge, user', pass'⟩, _, copied, _, _, -, _, _, -, _, _, -, _, _, -,
    _, _, -, rfl, -⟩ := started
  obtain ⟨⟨_, _⟩, ran, same⟩ := Option.map_eq_some_iff.mp copied
  cases same
  simp only [copyCredentials, Prog.bind_ok_iff, Prog.require_ok_iff, Prog.pure_apply, Option.some.injEq,
    Prod.mk.injEq, Except.ok.injEq] at ran
  obtain ⟨_, _, -, _, _, -, _, _, -, _, _, ⟨⟨-, sameUser, samePass⟩, -⟩, ⟨-, rfl, rfl⟩, -⟩ := ran
  have given : ¬(cfg.httpBasicUser ≠ none ∧
      (cfg.httpBasicUser = some [] ∨ cfg.httpBasicPass = none ∨ cfg.httpBasicPass = some [])) := by
    intro refused
    unfold checkCfg at checked
    split at checked
    · cases checked
    · split at checked
      · cases checked
      · cases checked
  simp only [set, ne_eq, reduceCtorEq, not_false_eq_true, Option.some.injEq, true_and, not_or] at given
  cases found : cfg.httpBasicPass with
  | none => exact absurd found given.2.1
  | some pass =>
      exact ⟨sameUser.trans set, pass, rfl, samePass.trans found, given.1,
        fun empty => given.2.2 (empty ▸ found)⟩

/-- The value of the field in the line that the client builds. -/
theorem httpHdrSplit_basic (enc : Bytes) :
    httpHdrSplit (ascii "Authorization: Basic " ++ enc) = .value (basicScheme ++ enc) := by
  rfl

theorem basicAuthHeader_line {env : Env σ} {w w' : σ} {user pass line : Bytes}
    (built : basicAuthHeader env w user pass = (.ok line, w')) :
    ∃ enc, env.base64EncodeNoNl (credential user pass) = some enc ∧
      line = ascii "Authorization: Basic " ++ enc ++ [13, 10] := by
  unfold basicAuthHeader Env.withAlloc at built
  dsimp only at built
  split at built
  · split at built
    · split at built
      · cases built
      · rename_i enc encoded
        split at built
        · cases built
        · cases built
          exact ⟨enc, encoded, rfl⟩
    · cases built
  · cases built

theorem cString_eq {text : Bytes} (plain : ∀ c ∈ text, c ≠ 0) : cString text = text := by
  unfold cString
  exact List.takeWhile_eq_self_iff.mpr (by simpa using plain)

section Check

variable {env : EstServerEnv σ} {srv : EstServer} {user pass enc : Bytes}

/-- A credential that is too long for the buffer of the server is never accepted. -/
theorem checkBasicAuth_long (hasUser : srv.cfgBasicUser = some user)
    (hasPass : srv.cfgBasicPass = some pass) (long : user.length + 1 + pass.length ≥ 256)
    (auth : Bytes) (v : σ) :
    checkBasicAuth (ε := Refusal) env srv (some auth) v = some (.ok false, v) := by
  simp only [checkBasicAuth, hasUser, hasPass, Option.getD_some, if_pos long, ite_self, Prog.pure_apply]

theorem base64Encode_granted (granted : ∀ w n, (env.alloc w n).1 = true) (input : Bytes) (v : σ) :
    ∃ v' result, base64Encode env.toWolfCrypt input v = some (result, v') ∧
      ∀ enc, result = .ok enc ↔ env.base64EncodeNoNl input = some enc := by
  unfold base64Encode
  rw [Prog.bind_of_ok (WolfCrypt.allocate_granted granted _ v)]
  refine ⟨_, _, rfl, fun enc => ?_⟩
  cases env.base64EncodeNoNl input <;> simp [Except.mapError]

/-- The check of a field that carries a base64 text. -/
theorem checkBasicAuth_value (lawful : ∀ c ∈ enc, Base64.IsChar c)
    (granted : ∀ w n, (env.alloc w n).1 = true) (hasUser : srv.cfgBasicUser = some user)
    (hasPass : srv.cfgBasicPass = some pass) (v : σ) :
    ∃ v', checkBasicAuth (ε := Refusal) env srv (some (basicScheme ++ enc)) v =
      some (.ok (decide ((credential user pass).length < 256 ∧
        env.base64EncodeNoNl (credential user pass) = some enc)), v') := by
  have plain : cString (basicScheme ++ enc) = basicScheme ++ enc := by
    apply cString_eq
    intro c inside
    rcases List.mem_append.mp inside with scheme | text
    · have all : ∀ c ∈ basicScheme, c ≠ 0 := by decide +kernel
      exact all c scheme
    · exact (lawful c text).ne_zero
  have scheme : asciiNcasecmp (basicScheme ++ enc) basicScheme basicScheme.length = 0 := by rfl
  have size : (credential user pass).length = user.length + 1 + pass.length := by
    simp only [credential, List.length_append, List.length_singleton]
  by_cases long : user.length + 1 + pass.length ≥ 256
  · exact ⟨v, by simp [checkBasicAuth_long hasUser hasPass long, size, Nat.not_lt.mpr long]⟩
  · simp only [checkBasicAuth, hasUser, hasPass, plain, scheme, List.drop_left, Option.getD_some, size,
      ne_eq, not_true_eq_false, if_false, if_neg long]
    obtain ⟨v', result, encoded, found⟩ := base64Encode_granted granted (credential user pass) v
    refine ⟨v', ?_⟩
    have attempted : (Prog.attempt (base64Encode env.toWolfCrypt (user ++ [58] ++ pass)) : Prog σ Refusal _) v =
        some (.ok result, v') := Prog.attempt_ok_iff.mpr encoded
    rw [Prog.bind_of_ok attempted]
    cases result with
    | error rc =>
        have none : env.base64EncodeNoNl (credential user pass) ≠ some enc := fun some_ => by
          cases (found enc).mpr some_
        simp [none]
    | ok own =>
        have own' := (found own).mp rfl
        simp [Prog.pure_apply, own', eq_comm]
        omega

end Check

section Agreement

variable {env : EstServerEnv σ} {start : StartEnv σ} {ops : StoreOps σ} {cfg : ServerCfgSrv}
  {s s' : Stored σ} {srv : EstServer}

/-- The server admits the client that sends the line as a header field. -/
def Admits (env : EstServerEnv σ) (srv : EstServer) (line : Bytes) : Prop :=
  ∃ auth, httpHdrSplit (line.take (line.length - 2)) = .value auth ∧
    ∀ v, ∃ v', checkBasicAuth (ε := Refusal) env srv (some auth) v = some (.ok true, v')

/-- A server that was started admits a client with its own credentials, and no other, exactly if its
credential does not reach 256 bytes or the two differ. -/
theorem checkBasicAuth_agrees_iff (lawful : Base64Lawful env) (granted : ∀ w n, (env.alloc w n).1 = true)
    (started : serverStart start ops cfg s = some (.ok srv.toWolfCertServer, s'))
    {serverUser serverPass : Bytes} (hasUser : cfg.httpBasicUser = some serverUser)
    (hasPass : cfg.httpBasicPass = some serverPass) {w w' : σ} {user pass line : Bytes}
    (built : basicAuthHeader env.toEnv w user pass = (.ok line, w')) :
    (Admits env srv line ↔ credential serverUser serverPass = credential user pass) ↔
      (credential serverUser serverPass ≠ credential user pass ∨
        (credential serverUser serverPass).length < 256) := by
  obtain ⟨ownUser, pass', same, ownPass, -, -⟩ := serverStart_credentials started hasUser
  rw [hasPass, Option.some.injEq] at same
  subst same
  obtain ⟨enc, encoded, rfl⟩ := basicAuthHeader_line built
  have value : httpHdrSplit ((ascii "Authorization: Basic " ++ enc ++ [13, 10]).take
      ((ascii "Authorization: Basic " ++ enc ++ [13, 10]).length - 2)) = .value (basicScheme ++ enc) := by
    rw [List.length_append, List.length_cons, List.length_singleton, Nat.add_sub_cancel, List.take_left,
      httpHdrSplit_basic]
  have admits : Admits env srv (ascii "Authorization: Basic " ++ enc ++ [13, 10]) ↔
      (credential serverUser serverPass).length < 256 ∧
        env.base64EncodeNoNl (credential serverUser serverPass) = some enc := by
    constructor
    · rintro ⟨auth, found, accepts⟩
      rw [value, HdrSplit.value.injEq] at found
      subst found
      obtain ⟨_, accepted⟩ := accepts w
      obtain ⟨_, checked⟩ := checkBasicAuth_value (lawful.chars _ _ encoded) granted ownUser ownPass w
      rw [checked] at accepted
      simp only [Option.some.injEq, Prod.mk.injEq, Except.ok.injEq, decide_eq_true_eq] at accepted
      exact accepted.1
    · intro both
      refine ⟨_, value, fun v => ?_⟩
      obtain ⟨v', checked⟩ := checkBasicAuth_value (lawful.chars _ _ encoded) granted ownUser ownPass v
      exact ⟨v', by rw [checked, decide_eq_true both]⟩
  have agrees : env.base64EncodeNoNl (credential serverUser serverPass) = some enc ↔
      credential serverUser serverPass = credential user pass :=
    ⟨fun own => lawful.injective _ _ _ own encoded, fun equal => equal ▸ encoded⟩
  rw [admits, agrees]
  by_cases equal : credential serverUser serverPass = credential user pass <;> simp [equal]

end Agreement

/-! An environment with real base64. -/

def exampleBase64 : EstServerEnv Wire :=
  { exampleEst with
    toCaCrypto :=
      { exampleEst.toCaCrypto with
        toWolfCrypt :=
          { exampleEst.toWolfCrypt with
            toEnv :=
              { exampleEst.toEnv with base64EncodeNoNl := fun input => some (Base64.encode input) } } } }

def exampleAuthCfg (user pass : Bytes) : ServerCfgSrv :=
  { exampleStartCfg with
    protocol := .est, httpBasicUser := some user, httpBasicPass := some pass
    tlsCertPem := some [1], tlsKeyPem := some [1] }

def exampleAuthServer (user pass : Bytes) : EstServer :=
  { exampleEstServer with
    cfg := exampleAuthCfg user pass, cfgBasicUser := some user, cfgBasicPass := some pass
    ca := ⟨.rsa, [1], [1], [1]⟩ }

theorem exampleBase64_lawful : Base64Lawful exampleBase64 where
  injective a b enc first second :=
    Base64.encode_injective (Option.some.inj (first.trans second.symm))
  chars a enc encoded := by
    cases encoded
    exact Base64.encode_chars a

/-- A start that ends with that server, whatever becomes of the store. -/
theorem started_of_map (cfg : ServerCfgSrv) (srv : WolfCertServer)
    (ran : ((serverStart exampleStart exampleOps cfg exampleEmpty).map fun (result, _) =>
      result.toOption) = some (some srv)) :
    ∃ s', serverStart exampleStart exampleOps cfg exampleEmpty = some (.ok srv, s') := by
  obtain ⟨⟨result, s'⟩, ended, same⟩ := Option.map_eq_some_iff.mp ran
  cases result with
  | error rc => cases same
  | ok found =>
      cases same
      exact ⟨s', ended⟩

/-- A client with the credentials of the server, "user" and "pass". -/
theorem checkBasicAuth_agrees_iff_short :
    ∃ line w', basicAuthHeader exampleBase64.toEnv exampleWire (ascii "user") (ascii "pass") =
        (.ok line, w') ∧
      Admits exampleBase64 (exampleAuthServer (ascii "user") (ascii "pass")) line := by
  obtain ⟨s', started⟩ := started_of_map (exampleAuthCfg (ascii "user") (ascii "pass"))
    (exampleAuthServer (ascii "user") (ascii "pass")).toWolfCertServer (by decide +kernel)
  have built : basicAuthHeader exampleBase64.toEnv exampleWire (ascii "user") (ascii "pass") =
      (.ok (ascii "Authorization: Basic dXNlcjpwYXNz\r\n"), exampleWire) := by
    rfl
  refine ⟨_, _, built, ?_⟩
  have agrees := checkBasicAuth_agrees_iff exampleBase64_lawful (fun _ _ => rfl) started rfl rfl built
  exact (agrees.mpr (.inr (by decide))).mpr rfl

def longUser : Bytes := List.replicate 127 97

def longPass : Bytes := List.replicate 128 98

/-- The server starts with a credential of 256 bytes, for which the client builds its header, and then
never admits that client. -/
theorem longCredential_refused :
    (∃ s', serverStart exampleStart exampleOps (exampleAuthCfg longUser longPass) exampleEmpty =
      some (.ok (exampleAuthServer longUser longPass).toWolfCertServer, s')) ∧
    ∃ line w', basicAuthHeader exampleBase64.toEnv exampleWire longUser longPass = (.ok line, w') ∧
      ¬ Admits exampleBase64 (exampleAuthServer longUser longPass) line := by
  refine ⟨started_of_map _ _ (by decide +kernel), ?_⟩
  have built : (basicAuthHeader exampleBase64.toEnv exampleWire longUser longPass).1.toOption.isSome =
      true := by
    decide +kernel
  cases ended : basicAuthHeader exampleBase64.toEnv exampleWire longUser longPass with
  | mk result w' =>
      rw [ended] at built
      cases result with
      | error rc => cases built
      | ok line =>
          refine ⟨line, w', rfl, ?_⟩
          rintro ⟨auth, -, accepts⟩
          obtain ⟨v', accepted⟩ := accepts exampleWire
          have long : longUser.length + 1 + longPass.length ≥ 256 := by simp [longUser, longPass]
          rw [checkBasicAuth_long rfl rfl long] at accepted
          cases accepted

end WolfCert.Est
