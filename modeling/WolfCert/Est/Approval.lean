import WolfCert.CLib.Trace
import WolfCert.Est.Renewal

/-!
# Manual approval of enrolments

The queue of parked CSRs over any history of requests.
-/

namespace WolfCert.Est

open WolfCert.CLib WolfCert.Server

variable {σ α : Type}

def answerStatus : Except Refusal Response → Nat
  | .ok r => r.status
  | .error (_, r) => r.status

/-- The CSR that a request posts, if its body decodes. -/
def postedCsr (env : EstServerEnv σ) (req : EstRequest) : Option Bytes :=
  (env.base64Decode req.body).toOption

def isReenroll (req : EstRequest) : Bool := pathSuffix req.path = ascii "simplereenroll"

/-- From the world `w` on, the CSR of the request passed every check before the queue: it decodes, and
it verifies or, for a re-enrolment, matches the certificate of the client. -/
structure Admitted (env : EstServerEnv σ) (srv : EstServer) (req : EstRequest) (w : σ) (csr : Bytes) :
    Prop where
  run : ∃ u v x, checkBasicAuth (ε := Refusal) env srv req.authHeader w = some (.ok true, u) ∧
    receiveCsr env srv (isReenroll req) req u = some (.ok csr, v) ∧
    verifyCsr env (isReenroll req) csr v = some (.ok (), x)
  posted : postedCsr env req = some csr
  checked : ∃ u v,
    if isReenroll req then reenrollIdentityCheck env srv req.tlsCurrent csr u = some (.ok (), v)
    else csrVerify env.toIssueCrypto csr u = some (.ok (), v)

/-- What one request may do to the queue: nothing, park its CSR, or hand a parked one to the CA. -/
inductive QueueStep (env : EstServerEnv σ) (srv : EstServer) (req : EstRequest) (s t : EstWorld σ)
    (answer : Except Refusal Response) : Prop where
  | quiet (pending : t.pending = s.pending) (handed : t.handed = s.handed)
      (status : answerStatus answer ≠ 202)
  | parked (csr : Bytes) (admitted : Admitted env srv req s.world csr)
      (absent : env.sha256 csr ∉ s.pending) (room : s.pending.length < estPendingCap)
      (added : t.pending = s.pending ++ [env.sha256 csr]) (handed : t.handed = s.handed)
      (status : answerStatus answer = 202)
  | issued (csr : Bytes) (admitted : Admitted env srv req s.world csr) (was : env.sha256 csr ∈ s.pending)
      (others : s.pending.Perm (env.sha256 csr :: t.pending)) (handed : t.handed = s.handed ++ [csr])
      (status : answerStatus answer ≠ 202)

section Step

variable {env : EstServerEnv σ} {srv : EstServer} {req : EstRequest} {s t : EstWorld σ}

theorem beside_eq {ε : Type} {p : Prog σ ε α} {result : Except ε α}
    (run : beside p s = some (result, t)) :
    ∃ world, p s.world = some (result, world) ∧ t = { s with world } := by
  obtain ⟨⟨_, world⟩, ran, same⟩ := Option.map_eq_some_iff.mp run
  cases same
  exact ⟨world, ran, rfl⟩

/-- The refusals of the handlers are none of them a 202. -/
def Declines (e : Refusal) : Prop := e.2.status ≠ 202

theorem declines_sendError {rc : Rc} {status : Nat} {phrase why : String} (other : status ≠ 202) :
    Declines (rc, sendError status phrase why) := other

theorem reenrollRefusal_declines (rc : Rc) : Declines (reenrollRefusal rc) := by
  cases rc <;> exact declines_sendError (by decide)

theorem csrAttrsRefusal_declines (refused : Rc × Bytes) : Declines (csrAttrsRefusal refused) := by
  unfold csrAttrsRefusal
  split
  · change (400 : Nat) ≠ 202
    decide
  · exact declines_sendError (by decide)

theorem verifyRefusal_declines (rc : Rc) : Declines (verifyRefusal rc) := by
  unfold verifyRefusal
  split <;> exact declines_sendError (by decide)

theorem receiveCsr_raises (reenroll : Bool) :
    (receiveCsr env srv reenroll req).Raises Declines := by
  have refused : ∀ {rc : Rc} {phrase why : String}, Declines (rc, sendError 403 phrase why) :=
    declines_sendError (by decide)
  have bad : ∀ {rc : Rc} {phrase why : String}, Declines (rc, sendError 400 phrase why) :=
    declines_sendError (by decide)
  refine .bind (.call _) fun pha => .bind (.require _ refused) fun _ =>
    .bind (.require _ refused) fun _ => .bind (.require _ bad) fun _ =>
    .bind (.mapError (fun _ => bad) _) fun csr => .bind ?_ fun _ => .bind ?_ fun _ => .pure csr
  · exact .ite (fun _ => .mapError reenrollRefusal_declines _) fun _ => .pure ()
  · exact .ite (fun _ => .mapError csrAttrsRefusal_declines _) fun _ => .pure ()

theorem verifyCsr_raises (reenroll : Bool) (csr : Bytes) :
    (verifyCsr env reenroll csr).Raises Declines :=
  .ite (fun _ => .pure ()) fun _ => .mapError verifyRefusal_declines _

/-- What a CSR that was received had to pass. -/
theorem receiveCsr_ok {reenroll : Bool} {csr : Bytes} {w w' : σ}
    (run : receiveCsr env srv reenroll req w = some (.ok csr, w')) :
    postedCsr env req = some csr ∧
      (reenroll = true → ∃ u v, reenrollIdentityCheck env srv req.tlsCurrent csr u = some (.ok (), v)) := by
  simp only [receiveCsr, Prog.bind_ok_iff, Prog.mapError_ok_iff, base64Decode, Prog.callMap_ok_iff,
    Prog.pure_apply, Option.some.injEq, Prod.mk.injEq, Except.ok.injEq] at run
  obtain ⟨_, _, -, _, _, -, _, _, -, _, _, -, found, _, ⟨_, _, -, decoded, -⟩, _, _, renewed, _, _, -,
    rfl, -⟩ := run
  refine ⟨by simp [postedCsr, decoded, Except.toOption], ?_⟩
  rintro rfl
  simp only [checkRenewed, if_true, Prog.mapError_ok_iff] at renewed
  exact ⟨_, _, renewed⟩

/-- A handler that answers with a certificate, say, or refuses. -/
def NeverAccepts (p : Prog σ Refusal Response) : Prop :=
  ∀ w answer w', p w = some (answer, w') → answerStatus answer ≠ 202

theorem NeverAccepts.response {p : Prog σ Refusal α} {body : α → Response} (raises : p.Raises Declines)
    (status : ∀ value, (body value).status ≠ 202) :
    NeverAccepts (p >>= fun value => pure (body value)) := by
  intro w answer w' run
  rcases Prog.bind_cases run with ⟨e, rfl, failed⟩ | ⟨value, _, -, ended⟩
  · exact raises _ _ _ failed
  · cases ended
    exact status value

theorem issueResponse_never (csr : Bytes) : NeverAccepts (issueResponse env srv csr) := by
  intro w answer w' run
  rcases Prog.bind_cases run with ⟨e, rfl, failed⟩ | ⟨issued, v, -, rest⟩
  · exact Prog.Raises.mapError (fun _ => declines_sendError (by decide)) _ _ _ _ failed
  · exact NeverAccepts.response (.mapError (fun _ => declines_sendError (by decide)) _)
      (fun _ => by simp) _ _ _ rest

theorem handlerCacerts_never (head : Bool) : NeverAccepts (handlerCacerts env srv head) :=
  .response (.mapError (fun _ => by simp [Declines]) _) fun _ => by simp

theorem handlerCsrAttrs_never (head : Bool) : NeverAccepts (handlerCsrAttrs env srv head) := by
  unfold handlerCsrAttrs
  split
  · intro w answer w' run
    cases run
    simp [answerStatus]
  · intro w answer w' run
    cases run
    simp [answerStatus]
  · exact .response (.mapError (fun _ => by simp [Declines]) _) fun _ => by simp

theorem checkBasicAuth_raises {ε : Type} {P : ε → Prop} (auth : Option Bytes) :
    (checkBasicAuth env srv auth).Raises P := by
  unfold checkBasicAuth
  split
  · exact .pure _
  · exact .pure _
  · refine .ite (fun _ => .pure _) fun _ => .ite (fun _ => .pure _) fun _ =>
      .bind (.attempt _) fun encoded => ?_
    split <;> exact .pure _

theorem quiet_of_beside {p : Prog σ Refusal Response} {answer : Except Refusal Response}
    (never : NeverAccepts p) (run : beside p s = some (answer, t)) : QueueStep env srv req s t answer := by
  obtain ⟨world, ran, rfl⟩ := beside_eq run
  exact .quiet rfl rfl (never _ _ _ ran)

theorem pendingFind_some {pending : List Bytes} {hash : Bytes} {idx : Nat}
    (found : pendingFind pending hash = some idx) : pending[idx]? = some hash := by
  obtain ⟨within, same, -⟩ := List.findIdx?_eq_some_iff_getElem.mp found
  rw [List.getElem?_eq_getElem within]
  simpa using same

theorem pendingFind_none {pending : List Bytes} {hash : Bytes} (absent : pendingFind pending hash = none) :
    hash ∉ pending := by
  intro inside
  simpa using List.findIdx?_eq_none_iff.mp absent _ inside

/-- The approval of an admitted CSR; `w` is where its checks began. -/
theorem approve_step {csr : Bytes} {answer : Except Refusal Response} {pending handed : List Bytes}
    {w x : σ} (admitted : Admitted env srv req w csr)
    (run : approve env srv csr ⟨pending, handed, x⟩ = some (answer, t)) :
    QueueStep env srv req ⟨pending, handed, w⟩ t answer := by
  unfold approve at run
  split at run
  · rename_i absent
    split at run
    · cases run
      exact .quiet rfl rfl (by decide)
    · rename_i room
      cases run
      exact .parked csr admitted (pendingFind_none absent) (Nat.lt_of_not_le room) rfl rfl rfl
  · rename_i idx found
    have here := pendingFind_some found
    rcases Prog.bind_cases run with ⟨e, -, failed⟩ | ⟨_, v, logged, ran⟩
    · cases failed
    · cases logged
      obtain ⟨world, issued, rfl⟩ := beside_eq ran
      exact .issued csr admitted (List.mem_of_getElem? here) (swapRemove_perm here) rfl
        (issueResponse_never csr _ _ _ issued)

theorem handlerEnroll_step (approval : srv.estRequireApproval = true) {answer : Except Refusal Response}
    {pending handed : List Bytes} {w u : σ}
    (authentic : checkBasicAuth (ε := Refusal) env srv req.authHeader w = some (.ok true, u))
    (run : handlerEnroll env srv (isReenroll req) req ⟨pending, handed, u⟩ = some (answer, t)) :
    QueueStep env srv req ⟨pending, handed, w⟩ t answer := by
  rcases Prog.bind_cases run with ⟨e, rfl, failed⟩ | ⟨csr, _, started, rest⟩
  · obtain ⟨world, ran, rfl⟩ := beside_eq failed
    exact .quiet rfl rfl (receiveCsr_raises _ _ _ _ ran)
  · obtain ⟨v, received, rfl⟩ := beside_eq started
    obtain ⟨posted, renewed⟩ := receiveCsr_ok received
    rw [if_pos approval] at rest
    rcases Prog.bind_cases rest with ⟨e, rfl, failed⟩ | ⟨_, _, checked, approved⟩
    · obtain ⟨world, ran, rfl⟩ := beside_eq failed
      exact .quiet rfl rfl (verifyCsr_raises _ _ _ _ _ ran)
    · obtain ⟨x, verified, rfl⟩ := beside_eq checked
      refine approve_step ⟨⟨u, v, x, authentic, received, verified⟩, posted, ?_⟩ approved
      cases kind : isReenroll req with
      | true => simpa using renewed kind
      | false =>
          simp only [verifyCsr, kind, Bool.false_eq_true, if_false, Prog.mapError_ok_iff] at verified
          exact ⟨_, _, verified⟩

theorem handleRequest_step (approval : srv.estRequireApproval = true)
    {answer : Except Refusal Response} (run : handleRequest env srv req s = some (answer, t)) :
    QueueStep env srv req s t answer := by
  unfold handleRequest at run
  simp only [Prog.ite_apply] at run
  split at run
  · exact quiet_of_beside (handlerCacerts_never _) run
  · split at run
    · exact quiet_of_beside (handlerCsrAttrs_never _) run
    · split at run
      · rcases Prog.bind_cases run with ⟨e, rfl, failed⟩ | ⟨admitted, _, asked, rest⟩
        · obtain ⟨world, ran, rfl⟩ := beside_eq failed
          exact .quiet rfl rfl (checkBasicAuth_raises (P := Declines) _ _ _ _ ran)
        · obtain ⟨u, authentic, rfl⟩ := beside_eq asked
          rcases Prog.bind_cases rest with ⟨e, rfl, failed⟩ | ⟨_, _, required, enrolled⟩
          · obtain rfl := Prog.Respects.require (R := Eq) (fun _ => rfl) _ _ _ _ _ failed
            have declines : Declines e :=
              Prog.Raises.require _ (by simp [Declines, unauthorized]) _ _ _ failed
            exact .quiet rfl rfl declines
          · obtain ⟨rfl, rfl⟩ := Prog.require_ok_iff.mp required
            exact handlerEnroll_step approval authentic enrolled
      · cases run
        exact .quiet rfl rfl (by simp [answerStatus, unknownOp])

end Step

/-! ## Histories of requests -/

section Histories

variable {env : EstServerEnv σ} {srv : EstServer} {reqs : List EstRequest}
  {answers : List (Except Refusal Response)} {w : σ} {s : EstWorld σ}

/-- How often that CSR was answered by a 202. -/
def accepted (env : EstServerEnv σ) (csr : Bytes) (reqs : List EstRequest)
    (answers : List (Except Refusal Response)) : Nat :=
  (reqs.zip answers).countP fun (req, answer) => postedCsr env req = some csr ∧ answerStatus answer = 202

theorem accepted_snoc (csr : Bytes) (req : EstRequest) (answer : Except Refusal Response)
    (same : reqs.length = answers.length) :
    accepted env csr (reqs ++ [req]) (answers ++ [answer]) = accepted env csr reqs answers +
      if postedCsr env req = some csr ∧ answerStatus answer = 202 then 1 else 0 := by
  simp [accepted, List.zip_append same, List.countP_append]

/-- The queue is within its bounds, and every CSR that was handed out or is parked was accepted. -/
structure QueueSound (env : EstServerEnv σ) (posts : Bytes → Prop) (reqs : List EstRequest)
    (answers : List (Except Refusal Response)) (s : EstWorld σ) : Prop where
  size : s.pending.length ≤ estPendingCap
  distinct : s.pending.Nodup
  handed : ∀ csr ∈ s.handed, posts csr
  counted : ∀ csr, posts csr →
    s.handed.count csr + s.pending.count (env.sha256 csr) ≤ accepted env csr reqs answers

theorem QueueSound.step {posts : Bytes → Prop} {req : EstRequest} {answer : Except Refusal Response}
    {t : EstWorld σ} (sound : QueueSound env posts reqs answers s)
    (injective : ∀ a b, posts a → posts b → env.sha256 a = env.sha256 b → a = b)
    (covered : ∀ csr, postedCsr env req = some csr → posts csr) (same : reqs.length = answers.length)
    (step : QueueStep env srv req s t answer) :
    QueueSound env posts (reqs ++ [req]) (answers ++ [answer]) t := by
  have grows (csr : Bytes) : accepted env csr (reqs ++ [req]) (answers ++ [answer]) = _ :=
    accepted_snoc csr req answer same
  cases step with
  | quiet pending handed status =>
      refine ⟨pending ▸ sound.size, pending ▸ sound.distinct, handed ▸ sound.handed, fun csr posted => ?_⟩
      have before := sound.counted csr posted
      rw [pending, handed, grows]
      omega
  | parked csr admitted absent room added handed status =>
      refine ⟨?_, ?_, handed ▸ sound.handed, fun other posted => ?_⟩
      · rw [added, List.length_append, List.length_singleton]
        exact room
      · rw [added]
        refine List.nodup_append.mpr ⟨sound.distinct, by simp, ?_⟩
        rintro a inside b last rfl
        exact absent (List.mem_singleton.mp last ▸ inside)
      · have before := sound.counted other posted
        rw [added, handed, grows, List.count_append, List.count_singleton]
        by_cases own : other = csr
        · subst own
          simp only [admitted.posted, status, and_self, if_true, BEq.rfl]
          omega
        · have differs : env.sha256 csr ≠ env.sha256 other := fun equal =>
            own (injective _ _ posted (covered _ admitted.posted) equal.symm)
          simp only [beq_iff_eq, differs, if_false]
          omega
  | issued csr admitted was others handed status =>
      have size := others.length_eq
      simp only [List.length_cons] at size
      refine ⟨by have := sound.size; omega,
        (List.nodup_cons.mp (others.nodup_iff.mp sound.distinct)).2, ?_, fun other posted => ?_⟩
      · rw [handed]
        intro given inside
        rcases List.mem_append.mp inside with earlier | last
        · exact sound.handed given earlier
        · rw [List.mem_singleton.mp last]
          exact covered csr admitted.posted
      · have before := sound.counted other posted
        rw [others.count_eq, List.count_cons] at before
        rw [handed, grows, List.count_append, List.count_singleton]
        by_cases own : other = csr
        · subst own
          simp only [BEq.rfl, if_true] at before ⊢
          omega
        · simp only [beq_iff_eq, Ne.symm own, if_false] at before ⊢
          split at before <;> omega

/-- Over any history of requests the queue stays within its bounds, a CSR is handed to the CA at most
as often as it was answered by a 202, and every request does one of the three things to the queue. -/
theorem approval_queue (approval : srv.estRequireApproval = true)
    (injective : ∀ p ∈ reqs, ∀ q ∈ reqs, ∀ a b, postedCsr env p = some a → postedCsr env q = some b →
      env.sha256 a = env.sha256 b → a = b)
    (ran : history (fun s req => handleRequest env srv req s) ⟨[], [], w⟩ reqs = some (answers, s)) :
    s.pending.length ≤ estPendingCap ∧ s.pending.Nodup ∧
      (∀ csr, s.handed.count csr ≤ accepted env csr reqs answers) ∧
      ∀ n req, reqs[n]? = some req → ∃ before u answer t,
        history (fun s req => handleRequest env srv req s) ⟨[], [], w⟩ (reqs.take n) = some (before, u) ∧
        handleRequest env srv req u = some (answer, t) ∧ answers[n]? = some answer ∧
        QueueStep env srv req u t answer := by
  let posts (csr : Bytes) : Prop := ∃ req ∈ reqs, postedCsr env req = some csr
  have collision : ∀ a b, posts a → posts b → env.sha256 a = env.sha256 b → a = b := by
    rintro a b ⟨p, inP, postsA⟩ ⟨q, inQ, postsB⟩ same
    exact injective p inP q inQ a b postsA postsB same
  have sound : (∀ req ∈ reqs, req ∈ reqs) → QueueSound env posts reqs answers s :=
    history_induction
      (P := fun inputs results s => (∀ req ∈ inputs, req ∈ reqs) → QueueSound env posts inputs results s)
      (fun _ => ⟨Nat.zero_le _, List.nodup_nil, fun _ inside => absurd inside List.not_mem_nil,
        fun _ _ => by simp⟩)
      (fun inputs results u req answer t reached ih stepped within =>
        (ih fun req inside => within req (List.mem_append_left _ inside)).step collision
          (fun csr posted => ⟨req, within req (by simp), posted⟩) (history_length reached)
          (handleRequest_step approval stepped)) ran
  have sound := sound fun _ inside => inside
  refine ⟨sound.size, sound.distinct, fun csr => ?_, fun n req now => ?_⟩
  · by_cases given : csr ∈ s.handed
    · have counted := sound.counted csr (sound.handed csr given)
      omega
    · rw [List.count_eq_zero_of_not_mem given]
      exact Nat.zero_le _
  · obtain ⟨before, u, answer, t, reached, stepped, found⟩ := history_at ran now
    exact ⟨before, u, answer, t, reached, stepped, found, handleRequest_step approval stepped⟩

/-- A request that posts the CSR `[1]`. -/
def examplePost : EstRequest where
  method := ascii "POST"
  path := ascii "/.well-known/est/simpleenroll"
  authHeader := none
  body := [1]
  tlsCurrent := true

/-- The first post is parked and the second one handed to the CA. -/
theorem approval_queue_twice :
    ∃ answers s, history (fun s req => handleRequest exampleEst exampleEstServer req s)
        ⟨[], [], exampleWire⟩ [examplePost, examplePost] = some (answers, s) ∧
      answers.map answerStatus = [202, 200] ∧ s.handed = [[1]] ∧
      s.handed.count [1] ≤ accepted exampleEst [1] [examplePost, examplePost] answers := by
  have ran : ((history (fun s req => handleRequest exampleEst exampleEstServer req s)
      ⟨[], [], exampleWire⟩ [examplePost, examplePost]).map fun (answers, s) =>
        (answers.map answerStatus, s.handed)) = some ([202, 200], [[1]]) := by
    decide +kernel
  obtain ⟨⟨answers, s⟩, ran, same⟩ := Option.map_eq_some_iff.mp ran
  obtain ⟨statuses, handed⟩ := Prod.mk.inj same
  exact ⟨answers, s, ran, statuses, handed,
    (approval_queue rfl (fun _ _ _ _ _ _ _ _ same => same) ran).2.2.1 [1]⟩

end Histories

end WolfCert.Est
