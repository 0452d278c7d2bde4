import WolfCert.Scep.Approval

/-!
# What the SCEP server answers

A pkiMessage is answered by one of three texts or by a CertRep for its transaction and nonce, and a
certificate goes only to whom it was issued or who asked for it by a GetCert. The books say so: what the
CA made is on record, and the registry holds nothing else.
-/

namespace WolfCert.Scep

open WolfCert.CLib WolfCert.Server

variable {σ : Type}

def CaMade (env : ScepServerEnv σ) (srv : ScepServer) (csr cert : Bytes) : Prop :=
  ∃ w w', caIssueCause env.toIssueCrypto srv.ca csr w = some (.ok cert, w')

/-- The CA made what is on record, and the registry holds nothing else. -/
structure Honest (env : ScepServerEnv σ) (srv : ScepServer) (s : ScepWorld σ) : Prop where
  made : ∀ {e cert}, (e, cert) ∈ s.issued → CaMade env srv e.csr cert
  registered : ∀ {cert}, cert ∈ s.registry → ∃ e, (e, cert) ∈ s.issued

structure KeepsBooks (env : ScepServerEnv σ) (srv : ScepServer) (s t : ScepWorld σ) : Prop where
  honest : Honest env srv s → Honest env srv t
  issued : s.issued <+: t.issued

/-- Why a certificate may be enclosed for that recipient: the CA has issued it to them in this
transaction, or it is in the registry and they signed a GetCert. -/
inductive GrantFor (issued : List (ScepPending × Bytes)) (registry : List Bytes) (m : PkiMessage)
    (tid recipient cert : Bytes) : Prop where
  | issued (csr : Bytes) (inside : (⟨tid, csr, recipient⟩, cert) ∈ issued)
  | released (inside : cert ∈ registry) (asked : m.messageType = some (ascii "21"))
      (signer : m.signerCert = recipient)

/-- The texts that a pkiMessage may be answered by. -/
def pkiTexts : List (Nat × Bytes) :=
  [(500, ascii "Server Error"), (400, ascii "Bad Request"), (400, ascii "Bad Message")]

/-- A CertRep was built by the server for that transaction and nonce, and encloses a certificate only
where one was granted. -/
def Accounted (env : ScepServerEnv σ) (srv : ScepServer) (m : PkiMessage) (tid snonce : Bytes)
    (s : ScepWorld σ) : ScepReply → Prop
  | .text status phrase => (status, phrase) ∈ pkiTexts
  | .certRep attrs message => ∃ own status info envelope cert recipient,
      attrs = certRepAttrs tid snonce own status info ∧
      (∃ w w', env.generateBlock 16 w = (.ok own, w')) ∧
      (∃ w w', buildPkiMessage env.toWolfCrypt envelope srv.repIdentity.certDer srv.repIdentity.keyDer
        .sha256h attrs w = some (.ok message, w')) ∧
      status ≠ [] ∧ info ≠ some [] ∧
      (∃ w w', repEnvelope env cert recipient status w = some (.ok envelope, w')) ∧
      (status = ascii "0" → GrantFor s.issued s.registry m tid recipient cert)

section Handlers

variable {env : ScepServerEnv σ} {srv : ScepServer} {m : PkiMessage} {tid snonce : Bytes}
  {s t u : ScepWorld σ}

theorem KeepsBooks.refl (s : ScepWorld σ) : KeepsBooks env srv s s := ⟨id, List.prefix_rfl⟩

theorem KeepsBooks.trans (first : KeepsBooks env srv s t) (second : KeepsBooks env srv t u) :
    KeepsBooks env srv s u :=
  ⟨second.honest ∘ first.honest, first.issued.trans second.issued⟩

/-- Nothing but the queue, the flags, the faults or the world changes. -/
theorem KeepsBooks.of_eq (issued : t.issued = s.issued) (registry : t.registry = s.registry) :
    KeepsBooks env srv s t := by
  refine ⟨fun honest => ⟨fun inside => ?_, fun inside => ?_⟩, issued ▸ List.prefix_rfl⟩
  · rw [issued] at inside
    exact honest.made inside
  · rw [registry] at inside
    rw [issued]
    exact honest.registered inside

theorem aside_moves {R : ScepWorld σ → ScepWorld σ → Prop} (moved : ∀ s world, R s { s with world }) {ε α : Type}
    (p : Prog σ ε α) : (aside p).Respects R := by
  intro s result t run
  obtain ⟨world, -, rfl⟩ := aside_eq run
  exact moved s world

theorem aside_books {ε α : Type} (p : Prog σ ε α) : (aside p).Respects (KeepsBooks env srv) :=
  aside_moves (fun _ _ => .of_eq rfl rfl) p

/-- The program keeps the books, and what it answers they account for. -/
def Accounts (env : ScepServerEnv σ) (srv : ScepServer) (m : PkiMessage) (tid snonce : Bytes)
    (p : Prog (ScepWorld σ) ScepRefusal ScepReply) : Prop :=
  ∀ s answer t, p s = some (answer, t) →
    KeepsBooks env srv s t ∧ Accounted env srv m tid snonce t (sentReply answer)

theorem Accounts.refuse (rc : Rc) : Accounts env srv m tid snonce (Prog.fail (serverError rc)) := by
  intro s answer t run
  cases run
  exact ⟨.refl s, .head _⟩

theorem Accounts.bind {α : Type} {first : Prog (ScepWorld σ) ScepRefusal α}
    {next : α → Prog (ScepWorld σ) ScepRefusal ScepReply} (keeps : first.Respects (KeepsBooks env srv))
    (never : first.Raises fun _ => False) (rest : ∀ value, Accounts env srv m tid snonce (next value)) :
    Accounts env srv m tid snonce (first >>= next) := by
  intro s answer t run
  rcases Prog.bind_cases run with ⟨e, -, failed⟩ | ⟨value, u, started, ended⟩
  · exact (never _ _ _ failed).elim
  · obtain ⟨kept, accounted⟩ := rest value u answer t ended
    exact ⟨(keeps s _ u started).trans kept, accounted⟩

theorem Accounts.attempt {ε α : Type} {first : Prog (ScepWorld σ) ε α}
    {next : Except ε α → Prog (ScepWorld σ) ScepRefusal ScepReply}
    (keeps : first.Respects (KeepsBooks env srv))
    (rest : ∀ outcome, Accounts env srv m tid snonce (next outcome)) :
    Accounts env srv m tid snonce (Prog.attempt first >>= next) :=
  .bind keeps.attempt (.attempt _) rest

/-! ## Replies -/

theorem sendCertRep_sent {cert recipient status : Bytes} {info : Option Bytes}
    {answer : Except ScepRefusal ScepReply} (typed : status ≠ []) (filled : info ≠ some [])
    (granted : status = ascii "0" → GrantFor s.issued s.registry m tid recipient cert)
    (run : sendCertRep env srv cert recipient tid snonce status info s = some (answer, t)) :
    KeepsBooks env srv s t ∧ Accounted env srv m tid snonce t (sentReply answer) := by
  refine ⟨aside_books _ _ _ _ run, ?_⟩
  obtain ⟨world, ran, rfl⟩ := aside_eq run
  obtain ⟨outcome, built, rfl⟩ := Prog.mapError_cases ran
  cases outcome with
  | error rc => exact .head _
  | ok reply =>
      simp only [buildCertRep, Prog.bind_ok_iff, Prog.callMap_ok_iff, Prog.pure_apply, Option.some.injEq,
        Prod.mk.injEq, Except.ok.injEq] at built
      obtain ⟨envelope, _, enclosed, _, _, -, own, _, drawn, message, _, signed, rfl, -⟩ := built
      exact ⟨own, status, info, envelope, cert, recipient, rfl, ⟨_, _, drawn⟩, ⟨_, _, signed⟩, typed, filled,
        ⟨_, _, enclosed⟩, granted⟩

theorem sendPkiFailure_accounts {info : String} (filled : ascii info ≠ []) :
    Accounts env srv m tid snonce (sendPkiFailure env srv tid snonce info) := by
  have codes : ascii "2" ≠ [] ∧ ascii "2" ≠ ascii "0" := by decide
  intro s answer t run
  exact sendCertRep_sent codes.1 (by simpa using filled) (fun same => absurd same codes.2) run

theorem sendPending_accounts (recipient : Bytes) :
    Accounts env srv m tid snonce (sendCertRep env srv [] recipient tid snonce (ascii "3") none) := by
  have codes : ascii "3" ≠ [] ∧ ascii "3" ≠ ascii "0" := by decide
  have absent : (none : Option Bytes) ≠ some [] := nofun
  intro s answer t run
  exact sendCertRep_sent codes.1 absent (fun same => absurd same codes.2) run

theorem sendGranted_sent {cert recipient : Bytes} {answer : Except ScepRefusal ScepReply}
    (granted : GrantFor s.issued s.registry m tid recipient cert)
    (run : sendCertRep env srv cert recipient tid snonce (ascii "0") none s = some (answer, t)) :
    KeepsBooks env srv s t ∧ Accounted env srv m tid snonce t (sentReply answer) := by
  have code : ascii "0" ≠ [] := by decide
  have absent : (none : Option Bytes) ≠ some [] := nofun
  exact sendCertRep_sent code absent (fun _ => granted) run

theorem failWith_accounts (rc : Rc) {info : String} (filled : ascii info ≠ []) :
    Accounts env srv m tid snonce (failWith env srv rc tid snonce info) := by
  intro s answer t run
  obtain ⟨outcome, u, tried, ended⟩ := Prog.attempt_bind_cases run
  cases ended
  exact sendPkiFailure_accounts filled s outcome t tried

/-! ## Certificates -/

/-- Nothing else joins the registry. -/
def Joins (cert : Bytes) (s t : ScepWorld σ) : Prop :=
  t.issued = s.issued ∧ ∀ c ∈ t.registry, c ∈ s.registry ∨ c = cert

theorem record_joins (cert : Bytes) : (record env srv cert).Respects (Joins cert) := by
  have refl (s : ScepWorld σ) : Joins cert s s := ⟨rfl, fun _ => .inl⟩
  have trans {s t u : ScepWorld σ} (first : Joins cert s t) (second : Joins cert t u) : Joins cert s u :=
    ⟨second.1.trans first.1, fun c inside => (second.2 c inside).elim (first.2 c) .inr⟩
  have asides {ε α : Type} (p : Prog σ ε α) : (aside p).Respects (Joins cert) :=
    aside_moves (fun s _ => refl s) p
  have ready : (readyRegistry env).Respects (Joins cert) :=
    .bind (.call refl) trans fun _ => .ite (fun _ => .pure refl _) fun _ =>
      .bind (asides _) trans fun _ => .call fun s => refl s
  refine .ite (fun _ => .bind ready trans fun _ => .bind (asides _) trans fun _ => .call fun s => ⟨rfl, ?_⟩)
    fun _ => .pure refl _
  intro c inside
  rcases List.mem_append.mp inside with old | new
  · left
    unfold evictOldest at old
    split at old
    · exact List.mem_of_mem_drop old
    · exact old
  · exact .inr (List.mem_singleton.mp new)

theorem issueReply_accounts {csr recipient cert : Bytes} (made : CaMade env srv csr cert) :
    Accounts env srv m tid snonce (issueReply env srv csr recipient cert tid snonce) := by
  intro s answer t run
  rcases Prog.bind_cases run with ⟨_, -, failed⟩ | ⟨_, logged, stepped, ended⟩
  · cases failed
  cases stepped
  obtain ⟨_, u, recorded, sent⟩ := Prog.attempt_bind_cases ended
  obtain ⟨issued, registry⟩ := record_joins cert _ _ _ recorded
  have inside : (⟨tid, csr, recipient⟩, cert) ∈ u.issued := by simp [issued]
  have kept : KeepsBooks env srv s u := by
    refine ⟨fun honest => ⟨fun {e c} member => ?_, fun {c} member => ?_⟩, ?_⟩
    · rw [issued] at member
      rcases List.mem_append.mp member with old | new
      · exact honest.made old
      · cases List.mem_singleton.mp new
        exact made
    · rcases registry c member with old | rfl
      · obtain ⟨e, found⟩ := honest.registered old
        exact ⟨e, by rw [issued]; exact List.mem_append_left _ found⟩
      · exact ⟨_, inside⟩
    · rw [issued]
      exact List.prefix_append _ _
  obtain ⟨kept', accounted⟩ := sendGranted_sent (.issued csr inside) sent
  exact ⟨kept.trans kept', accounted⟩

theorem issueRefusal_accounts (fault : IssueFault) :
    Accounts env srv m tid snonce (issueRefusal env srv fault tid snonce) := by
  have digit : ascii "2" ≠ [] := by decide
  refine .bind (.call fun s => .of_eq rfl rfl) (.call _) fun _ => ?_
  split
  · exact .refuse _
  · exact failWith_accounts _ digit

theorem issueAndReply_accounts (csr recipient : Bytes) : Accounts env srv m tid snonce
    (Prog.mapError Prod.fst (issueAndReply env srv csr recipient tid snonce)) := by
  intro s answer t run
  obtain ⟨outcome, ran, rfl⟩ := Prog.mapError_cases run
  obtain ⟨result, u, issuing, ended⟩ := Prog.attempt_bind_cases ran
  obtain ⟨world, made, rfl⟩ := aside_eq issuing
  have moved : KeepsBooks env srv s { s with world } := .of_eq rfl rfl
  -- the flag beside a refusal is dropped
  have first {flag : Bool} {p : Prog (ScepWorld σ) ScepRefusal ScepReply} (accounts : Accounts env srv m tid snonce p)
      (replied : Prog.mapError (·, flag) p { s with world } = some (outcome, t)) :
      KeepsBooks env srv s t ∧ Accounted env srv m tid snonce t (sentReply (outcome.mapError Prod.fst)) := by
    obtain ⟨inner, sent, rfl⟩ := Prog.mapError_cases replied
    obtain ⟨kept, accounted⟩ := accounts _ _ _ sent
    have same : sentReply ((inner.mapError (·, flag)).mapError Prod.fst) = sentReply inner := by
      cases inner <;> rfl
    exact ⟨moved.trans kept, same ▸ accounted⟩
  cases result with
  | error fault => exact first (issueRefusal_accounts fault) ended
  | ok cert => exact first (issueReply_accounts ⟨_, _, made⟩) ended

/-! ## Messages -/

theorem pendingAdd_books (e : ScepPending) : (pendingAdd env e).Respects (KeepsBooks env srv) := by
  have ready : (readyItems env).Respects (KeepsBooks env srv) :=
    .bind (.call .refl) .trans fun _ => .ite (fun _ => .pure .refl _) fun _ =>
      .bind (aside_books _) .trans fun _ => .call fun _ => .of_eq rfl rfl
  exact .bind (.call .refl) .trans fun _ => .bind (.require .refl _ _) .trans fun _ =>
    .bind ready .trans fun _ => .bind (aside_books _) .trans fun _ => .call fun _ => .of_eq rfl rfl

theorem park_accounts (csr signer : Bytes) :
    Accounts env srv m tid snonce (park env srv csr signer tid snonce) := by
  have digit : ascii "2" ≠ [] := by decide
  refine .bind (.call .refl) (.call _) fun found => ?_
  split
  · refine .attempt (pendingAdd_books _) fun added => ?_
    split
    · exact sendPkiFailure_accounts digit
    · exact sendPending_accounts _
  · refine .attempt (aside_books _) fun checked => ?_
    split
    · exact .refuse _
    · exact sendPkiFailure_accounts digit
    · exact sendPending_accounts _

theorem handleEnroll_accounts (mt csr signer : Bytes) :
    Accounts env srv m tid snonce (handleEnroll env srv mt csr signer tid snonce) := by
  have digit : ascii "2" ≠ [] := by decide
  refine .attempt (aside_books _) fun checked => ?_
  split
  · exact .refuse _
  · exact .refuse _
  · exact sendPkiFailure_accounts digit
  · refine .attempt (aside_books _) fun challenged => ?_
    split
    · exact sendPkiFailure_accounts digit
    · split
      · refine .attempt (aside_books _) fun verified => ?_
        split
        · exact .refuse _
        · exact sendPkiFailure_accounts digit
        · exact park_accounts csr signer
      · exact issueAndReply_accounts csr _

theorem releasePending_accounts (idx : Nat) (e : ScepPending) :
    Accounts env srv m tid snonce (releasePending env srv idx e tid snonce) := by
  intro s answer t run
  obtain ⟨outcome, u, tried, ended⟩ := Prog.attempt_bind_cases run
  have issued : Prog.mapError Prod.fst (issueAndReply env srv e.csr e.signerCert tid snonce) s =
      some (outcome.mapError Prod.fst, u) := by rw [Prog.mapError, tried, Option.map_some]
  obtain ⟨kept, accounted⟩ := issueAndReply_accounts (m := m) _ _ _ _ _ issued
  -- the entry leaves the queue or not, and the answer stays
  cases outcome with
  | ok reply =>
      cases ended
      exact ⟨kept.trans (.of_eq rfl rfl), accounted⟩
  | error refused =>
      obtain ⟨refusal, didIssue⟩ := refused
      simp only [Prog.ite_apply] at ended
      split at ended <;>
        · cases ended
          exact ⟨kept.trans (.of_eq rfl rfl), accounted⟩

theorem handleGetCertInitial_accounts (ias signer : Bytes) :
    Accounts env srv m tid snonce (handleGetCertInitial env srv ias signer tid snonce) := by
  have digit : ascii "4" ≠ [] := by decide
  refine .bind (.call .refl) (.call _) fun found => ?_
  split
  · exact sendPkiFailure_accounts digit
  · refine .attempt (aside_books _) fun named => ?_
    split
    · exact .refuse _
    · exact sendPkiFailure_accounts digit
    · refine .attempt (aside_books _) fun checked => ?_
      split
      · exact .refuse _
      · exact sendPkiFailure_accounts digit
      · exact releasePending_accounts _ _

theorem issuedFind_mem {serial cert : Bytes} {registry : List Bytes} {w w' : σ}
    (run : issuedFind env serial registry w = some (.ok (some cert), w')) : cert ∈ registry := by
  induction registry generalizing w with
  | nil => cases run
  | cons first rest ih =>
      simp only [issuedFind, Prog.bind_ok_iff, Prog.call_ok_iff] at run
      obtain ⟨parsed, v, -, ended⟩ := run
      split at ended
      · exact List.mem_cons_of_mem _ (ih ended)
      · rw [Prog.ite_apply] at ended
        split at ended
        · cases ended
          exact List.mem_cons_self
        · exact List.mem_cons_of_mem _ (ih ended)

theorem findNamed_mem {ias cert : Bytes} {registry : List Bytes} {w w' : σ}
    (run : findNamed env srv ias registry w = some (.ok (some cert), w')) : cert ∈ registry := by
  simp only [findNamed, Prog.bind_ok_iff] at run
  obtain ⟨named, v, -, ended⟩ := run
  split at ended
  · cases ended
  · exact issuedFind_mem ended

theorem handleGetCert_accounts (ias : Bytes) (asked : m.messageType = some (ascii "21")) :
    Accounts env srv m tid snonce (handleGetCert env srv ias m.signerCert tid snonce) := by
  have digits : ascii "2" ≠ [] ∧ ascii "4" ≠ [] := by decide
  unfold handleGetCert
  split
  · exact sendPkiFailure_accounts digits.1
  intro s answer t run
  rcases Prog.bind_cases run with ⟨_, -, failed⟩ | ⟨registry, _, read, ended⟩
  · cases failed
  cases read
  obtain ⟨outcome, u, finding, sent⟩ := Prog.attempt_bind_cases ended
  obtain ⟨world, found, rfl⟩ := aside_eq finding
  have moved : KeepsBooks env srv s { s with world } := .of_eq rfl rfl
  suffices ends : KeepsBooks env srv { s with world } t ∧ Accounted env srv m tid snonce t (sentReply answer) from
    ⟨moved.trans ends.1, ends.2⟩
  split at sent
  · exact Accounts.refuse _ _ _ _ sent
  · exact sendPkiFailure_accounts digits.2 _ _ _ sent
  · exact sendGranted_sent (.released (findNamed_mem found) asked rfl) sent

theorem openMessage_accounts {mt : Bytes} (type : m.messageType = some mt) :
    Accounts env srv m tid snonce (openMessage env srv m tid snonce mt) := by
  have digits : ascii "0" ≠ [] ∧ ascii "2" ≠ [] := by decide
  refine .attempt (aside_books _) fun opened => ?_
  split
  · split
    · exact failWith_accounts _ digits.1
    · exact failWith_accounts _ digits.2
  · unfold handleMessage
    split
    · exact handleEnroll_accounts _ _ _
    · split
      · exact handleGetCertInitial_accounts _ _
      · split
        · rename_i both
          exact handleGetCert_accounts _ (both.1 ▸ type)
        · exact failWith_accounts _ digits.2

theorem messageIds_parts {mt : Bytes} (ids : messageIds m = some (tid, snonce, mt)) :
    m.transactionId = some tid ∧ m.senderNonce = some snonce ∧ m.messageType = some mt ∧ tid ≠ [] ∧ snonce ≠ [] := by
  unfold messageIds at ids
  split at ids
  · rename_i named nonce typed
    split at ids
    · cases ids
    · rename_i good
      cases ids
      simp only [not_or, not_not] at good
      exact ⟨named, nonce, typed, good.1, List.ne_nil_of_length_pos (by rw [good.2.2.1]; decide)⟩
  · cases ids

/-- A reply to a body: one of the texts, or accounted for by a message that was read from it. -/
def Answered (env : ScepServerEnv σ) (srv : ScepServer) (body : Bytes) (t : ScepWorld σ) : ScepReply → Prop
  | .text status phrase => (status, phrase) ∈ pkiTexts
  | .certRep attrs message => ∃ m tid snonce mt,
      (∃ v v', parsePkiMessage env.toWolfCrypt serverWants body v = some (.ok m, v')) ∧
      messageIds m = some (tid, snonce, mt) ∧ Accounted env srv m tid snonce t (.certRep attrs message)

theorem handlePkiOp_answered {body : Bytes} {answer : Except ScepRefusal ScepReply}
    (run : handlePkiOp env srv body s = some (answer, t)) :
    KeepsBooks env srv s t ∧ Answered env srv body t (sentReply answer) := by
  rcases Prog.bind_cases run with ⟨refusal, rfl, failed⟩ | ⟨m, u, parsing, ended⟩
  · refine ⟨aside_books _ _ _ _ failed, ?_⟩
    obtain ⟨world, ran, -⟩ := aside_eq failed
    obtain ⟨outcome, -, same⟩ := Prog.mapError_cases ran
    cases outcome with
    | ok m => cases same
    | error rc =>
        cases same
        unfold parseRefusal
        split
        · exact .head _
        · exact .tail _ (.head _)
  · obtain ⟨world, ran, rfl⟩ := aside_eq parsing
    have moved : KeepsBooks env srv s { s with world } := .of_eq rfl rfl
    cases ids : messageIds m with
    | none =>
        simp only [ids] at ended
        cases ended
        exact ⟨moved, .tail _ (.tail _ (.head _))⟩
    | some found =>
        obtain ⟨tid, snonce, mt⟩ := found
        simp only [ids] at ended
        obtain ⟨kept, accounted⟩ := openMessage_accounts (messageIds_parts ids).2.2.1 _ _ _ ended
        refine ⟨moved.trans kept, ?_⟩
        cases sent : sentReply answer with
        | text status phrase =>
            rw [sent] at accounted
            exact accounted
        | certRep attrs message =>
            exact ⟨m, tid, snonce, mt, ⟨_, world, Prog.mapError_ok_iff.mp ran⟩, ids, sent ▸ accounted⟩

end Handlers

end WolfCert.Scep
