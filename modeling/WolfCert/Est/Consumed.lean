import WolfCert.Est.Approval

/-!
# Approvals that are used up

`handler_enroll` takes a parked CSR out of the queue before the CA issues its certificate and before
the response is built.
-/

namespace WolfCert.Est

open WolfCert.CLib WolfCert.Server

variable {σ : Type} {env : EstServerEnv σ} {srv : EstServer} {req : EstRequest} {csr : Bytes}

def enrols (req : EstRequest) : Prop :=
  req.method = ascii "POST" ∧
    (pathSuffix req.path = ascii "simpleenroll" ∨ pathSuffix req.path = ascii "simplereenroll")

/-- The request enrols this CSR, and the checks before the queue take the world from `w` to `x`. -/
structure ReachesQueue (env : EstServerEnv σ) (srv : EstServer) (req : EstRequest) (w : σ) (csr : Bytes)
    (x : σ) : Prop where
  route : enrols req
  checks : ∃ u v, checkBasicAuth (ε := Refusal) env srv req.authHeader w = some (.ok true, u) ∧
    receiveCsr env srv (isReenroll req) req u = some (.ok csr, v) ∧
    verifyCsr env (isReenroll req) csr v = some (.ok (), x)

/-- The answer is a 200 with the certificate that the CA issued for the CSR. -/
def AnswersCertificate (env : EstServerEnv σ) (srv : EstServer) (csr : Bytes)
    (answer : Except Refusal Response) : Prop :=
  ∃ x y z issued b64, caIssue env.toIssueCrypto srv.ca csr x = some (.ok issued, y) ∧
    certsResponse env [issued] y = some (.ok b64, z) ∧
    answer = .ok (response 200 (ascii "OK") estPkcs7Certs b64 false)

theorem issueResponse_certificate {x y : σ} {answer : Response}
    (run : issueResponse env srv csr x = some (.ok answer, y)) : AnswersCertificate env srv csr (.ok answer) := by
  simp only [issueResponse, Prog.bind_ok_iff, Prog.mapError_ok_iff, Prog.pure_apply, Option.some.injEq,
    Prod.mk.injEq, Except.ok.injEq] at run
  obtain ⟨issued, v, issues, b64, u, encodes, rfl, -⟩ := run
  exact ⟨x, v, u, issued, b64, issues, encodes, rfl⟩

section Step

variable {s t : EstWorld σ} {pending handed : List Bytes} {w x : σ} {answer : Except Refusal Response}

theorem not_get {method : Bytes} (post : method = ascii "POST") (suffix : Prop) :
    ¬((decide (method = ascii "HEAD") = true ∨ method = ascii "GET") ∧ suffix) := by
  subst post
  rintro ⟨head | get, -⟩
  · exact absurd head (by decide)
  · exact absurd get (by decide)

/-- What is left of an enrolment after its checks is the approval. -/
theorem ReachesQueue.handleRequest_eq (reaches : ReachesQueue env srv req w csr x)
    (pending handed : List Bytes) (approval : srv.estRequireApproval = true) :
    handleRequest env srv req ⟨pending, handed, w⟩ = approve env srv csr ⟨pending, handed, x⟩ := by
  obtain ⟨route, u, v, authentic, received, verified⟩ := reaches
  have besides : ∀ {ε α : Type} {p : Prog σ ε α} {value : α} {a b : σ}, p a = some (.ok value, b) →
      beside p ⟨pending, handed, a⟩ = some (.ok value, ⟨pending, handed, b⟩) := by
    intro ε α p value a b run
    rw [beside, run]
    rfl
  have enrolled : handlerEnroll env srv (isReenroll req) req ⟨pending, handed, u⟩ =
      approve env srv csr ⟨pending, handed, x⟩ := by
    rw [handlerEnroll, Prog.bind_of_ok (besides received), if_pos approval,
      Prog.bind_of_ok (besides verified)]
  unfold enrols at route
  unfold handleRequest
  simp only [Prog.ite_apply]
  rw [if_neg (not_get route.1 _), if_neg (not_get route.1 _), if_pos route,
    Prog.bind_of_ok (besides authentic), Prog.bind_of_ok (Prog.require_of rfl _ _)]
  exact enrolled

theorem handleRequest_elsewhere (other : ¬enrols req)
    (run : handleRequest env srv req s = some (answer, t)) : t.pending = s.pending := by
  unfold enrols at other
  unfold handleRequest at run
  simp only [Prog.ite_apply] at run
  split at run
  · obtain ⟨world, -, rfl⟩ := beside_eq run
    rfl
  · split at run
    · obtain ⟨world, -, rfl⟩ := beside_eq run
      rfl
    · cases run
      rfl

/-- A parked CSR leaves the queue whatever becomes of its certificate. -/
theorem approve_parked (parked : env.sha256 csr ∈ pending) (distinct : pending.Nodup)
    (run : approve env srv csr ⟨pending, handed, x⟩ = some (answer, t)) :
    issueResponse env srv csr x = some (answer, t.world) ∧
      ∀ hash, hash ∈ t.pending ↔ hash ∈ pending ∧ hash ≠ env.sha256 csr := by
  unfold approve at run
  split at run
  · rename_i absent
    exact absurd parked (pendingFind_none absent)
  · rename_i idx found
    have here := pendingFind_some found
    rcases Prog.bind_cases run with ⟨e, -, failed⟩ | ⟨_, v, logged, ran⟩
    · cases failed
    · cases logged
      obtain ⟨world, issued, rfl⟩ := beside_eq ran
      exact ⟨issued, mem_swapRemove distinct here⟩

theorem approve_returns {result : Except Refusal Response} {y : σ} (handed : List Bytes)
    (parked : env.sha256 csr ∈ pending) (issued : issueResponse env srv csr x = some (result, y)) :
    ∃ t, approve env srv csr ⟨pending, handed, x⟩ = some (result, t) := by
  unfold approve
  split
  · rename_i absent
    exact absurd parked (pendingFind_none absent)
  · rename_i idx found
    refine ⟨⟨swapRemove pending idx, handed ++ [csr], y⟩, ?_⟩
    rw [issue, Prog.bind_of_ok (show Prog.call _ _ = some (.ok (), _) from rfl), beside, issued]
    rfl

/-- If a CSR left the queue, it was the one that the request enrols. -/
theorem handleRequest_leaves {hash : Bytes} (approval : srv.estRequireApproval = true)
    (was : hash ∈ s.pending) (left : hash ∉ t.pending)
    (run : handleRequest env srv req s = some (answer, t)) :
    ∃ csr x, ReachesQueue env srv req s.world csr x ∧ hash = env.sha256 csr ∧
      postedCsr env req = some csr := by
  have route : enrols req := by
    by_contra other
    exact left (handleRequest_elsewhere other run ▸ was)
  cases handleRequest_step approval run with
  | quiet same _ _ => exact absurd (same ▸ was) left
  | parked csr _ _ _ added _ _ => exact absurd (added ▸ List.mem_append_left _ was) left
  | issued csr admitted _ others _ _ =>
      obtain ⟨u, v, x, checks⟩ := admitted.run
      refine ⟨csr, x, ⟨route, u, v, checks⟩, ?_, admitted.posted⟩
      rcases List.mem_cons.mp (others.mem_iff.mp was) with same | stays
      · exact same
      · exact absurd stays left

end Step

/-! ## Histories of requests -/

/-- A request keeps every parked CSR, but for the one whose certificate it answers, and answers none
of them by another 202. -/
def KeepsApprovals (env : EstServerEnv σ) (srv : EstServer) (req : EstRequest) (s : EstWorld σ) : Prop :=
  ∀ answer t, handleRequest env srv req s = some (answer, t) → ∀ csr, env.sha256 csr ∈ s.pending →
    (env.sha256 csr ∈ t.pending ∨ ∃ posted, postedCsr env req = some posted ∧
      env.sha256 posted = env.sha256 csr ∧ AnswersCertificate env srv posted answer) ∧
    (postedCsr env req = some csr → answerStatus answer ≠ 202)

/-- The request enrols no parked CSR whose certificate cannot be issued and answered. -/
def IssuesParked (env : EstServerEnv σ) (srv : EstServer) (req : EstRequest) (s : EstWorld σ) : Prop :=
  ∀ csr x, ReachesQueue env srv req s.world csr x → env.sha256 csr ∈ s.pending →
    ∀ e y, issueResponse env srv csr x ≠ some (.error e, y)

theorem keepsApprovals_iff {s : EstWorld σ} (approval : srv.estRequireApproval = true)
    (distinct : s.pending.Nodup) : KeepsApprovals env srv req s ↔ IssuesParked env srv req s := by
  constructor
  · intro keeps csr x reaches parked e y failed
    obtain ⟨t, run⟩ := approve_returns s.handed parked failed
    have gone := (approve_parked parked distinct run).2 (env.sha256 csr)
    have answered := reaches.handleRequest_eq s.pending s.handed approval
    rcases (keeps _ t (answered.trans run) csr parked).1 with stays | ⟨_, -, -, x, y, z, issued, b64, -, -, same⟩
    · exact (gone.mp stays).2 rfl
    · cases same
  · intro issues answer t run csr parked
    constructor
    · by_cases stays : env.sha256 csr ∈ t.pending
      · exact .inl stays
      · obtain ⟨posted, x, reaches, same, decoded⟩ := handleRequest_leaves approval parked stays run
        have answered := reaches.handleRequest_eq s.pending s.handed approval
        have issued := (approve_parked (same ▸ parked) distinct (answered.symm.trans run)).1
        refine .inr ⟨posted, decoded, same.symm, ?_⟩
        cases answer with
        | ok response => exact issueResponse_certificate issued
        | error e => exact absurd issued (issues posted x reaches (same ▸ parked) e _)
    · intro decoded accepted
      cases handleRequest_step approval run with
      | quiet _ _ status => exact status accepted
      | parked other admitted absent _ _ _ _ =>
          rw [admitted.posted] at decoded
          cases decoded
          exact absent parked
      | issued _ _ _ _ _ status => exact status accepted

theorem pending_distinct {reqs : List EstRequest} {answers : List (Except Refusal Response)} {w : σ}
    {s : EstWorld σ} (approval : srv.estRequireApproval = true)
    (ran : history (fun s req => handleRequest env srv req s) ⟨[], [], w⟩ reqs = some (answers, s)) :
    s.pending.Nodup := by
  refine history_invariant (P := fun s => s.pending.Nodup) List.nodup_nil ?_ ran
  intro s req answer t distinct stepped
  cases handleRequest_step approval stepped with
  | quiet same _ _ => exact same ▸ distinct
  | parked csr _ absent _ added _ _ =>
      rw [added]
      exact List.nodup_append.mpr ⟨distinct, by simp, by
        rintro a inside b last rfl
        exact absent (List.mem_singleton.mp last ▸ inside)⟩
  | issued csr _ _ others _ _ => exact (List.nodup_cons.mp (others.nodup_iff.mp distinct)).2

/-- Over a history of requests no approval is used up without a certificate, exactly if no parked CSR
that comes back fails to be issued. -/
theorem approvals_kept_iff (approval : srv.estRequireApproval = true) (w : σ) (reqs : List EstRequest) :
    (∀ n req before s, reqs[n]? = some req →
      history (fun s req => handleRequest env srv req s) ⟨[], [], w⟩ (reqs.take n) = some (before, s) →
      KeepsApprovals env srv req s) ↔
    ∀ n req before s, reqs[n]? = some req →
      history (fun s req => handleRequest env srv req s) ⟨[], [], w⟩ (reqs.take n) = some (before, s) →
      IssuesParked env srv req s :=
  forall₄_congr fun _ _ _ _ => forall₂_congr fun _ reached =>
    keepsApprovals_iff approval (pending_distinct approval reached)

/-- A server that has no memory for its first response. -/
def exampleShort : EstServerEnv Http.Wire :=
  { exampleEst with
    encodeDegenerate := fun _ _ w =>
      if w.refused then (.ok [2], w) else (.error .memoryE, { w with refused := true }) }

/-- The approved CSR is answered by a 500, and its next post by a 202 again. -/
theorem approval_used_up :
    (history (fun s req => handleRequest exampleShort exampleEstServer req s) ⟨[], [], exampleWire⟩
      [examplePost, examplePost, examplePost]).map (fun ran => ran.1.map answerStatus) =
        some [202, 500, 202] ∧
    ∃ answers s, history (fun s req => handleRequest exampleShort exampleEstServer req s)
      ⟨[], [], exampleWire⟩ [examplePost] = some (answers, s) ∧
        ¬KeepsApprovals exampleShort exampleEstServer examplePost s := by
  refine ⟨by decide +kernel, ?_⟩
  have first : (history (fun s req => handleRequest exampleShort exampleEstServer req s)
      ⟨[], [], exampleWire⟩ [examplePost]).map Prod.snd = some ⟨[[1]], [], exampleWire⟩ := by
    decide +kernel
  have second : (handleRequest exampleShort exampleEstServer examplePost ⟨[[1]], [], exampleWire⟩).map
      (fun ran => (answerStatus ran.1, ran.2.pending)) = some (500, []) := by
    decide +kernel
  obtain ⟨⟨answers, s⟩, ran, rfl⟩ := Option.map_eq_some_iff.mp first
  obtain ⟨⟨answer, t⟩, answered, same⟩ := Option.map_eq_some_iff.mp second
  obtain ⟨status, gone⟩ := Prod.mk.inj same
  refine ⟨answers, _, ran, fun keeps => ?_⟩
  rcases (keeps answer t answered [1] (by simp [exampleShort, exampleEst])).1 with
    stays | ⟨_, -, -, _, _, _, _, b64, -, -, rfl⟩
  · rw [gone] at stays
    cases stays
  · cases status

/-- With memory for every response the approval is good for its certificate. -/
theorem approvals_kept_twice :
    exampleEstServer.estRequireApproval = true ∧
      ∀ n req before s, [examplePost, examplePost][n]? = some req →
        history (fun s req => handleRequest exampleEst exampleEstServer req s) ⟨[], [], exampleWire⟩
          ([examplePost, examplePost].take n) = some (before, s) →
        KeepsApprovals exampleEst exampleEstServer req s := by
  refine ⟨rfl, (approvals_kept_iff rfl _ _).mpr ?_⟩
  have issues : ∀ x, ∃ answer, issueResponse exampleEst exampleEstServer [1] x = some (.ok answer, x) :=
    fun x => ⟨_, rfl⟩
  have queue : ∀ n < 2, ((history (fun s req => handleRequest exampleEst exampleEstServer req s)
      ⟨[], [], exampleWire⟩ ([examplePost, examplePost].take n)).map fun (_, s) => s.pending) =
        some (List.replicate n [1]) := by
    decide +kernel
  intro n req before s now reached csr x reaches parked e y failed
  have within : n < 2 := (List.getElem?_eq_some_iff.mp now).1
  have own : some s.pending = some (List.replicate n [1]) := by
    rw [← queue n within, reached]
    rfl
  rw [Option.some.injEq] at own
  obtain ⟨answer, answered⟩ := issues x
  rw [own] at parked
  have one : csr = [1] := List.eq_of_mem_replicate parked
  rw [one, answered] at failed
  cases failed

end WolfCert.Est
