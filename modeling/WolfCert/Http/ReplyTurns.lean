import WolfCert.Http.Runs
import WolfCert.Http.WireSteps

/-!
# One turn keeps the reply

The bytes a session holds and those its connection has still to deliver determine the reply the
exchange ends with. No turn changes that reply, whatever the connection's plan makes of it.
-/

namespace WolfCert.Http

open WolfCert.CLib

variable (now : Int) (base64EncodeNoNl : Bytes → Option Bytes)

/-- All reply bytes not yet dropped: those received and those still to come. -/
def Exchange.stream (x : Exchange Wire) : Bytes := x.session.smRx ++ x.world.rest

def HttpSession.response (s : HttpSession) (body : Bytes) : HttpResponse where
  statusCode := s.smStatus
  contentType := s.smContentType
  body := body
  retryAfterSec := s.smRetryAfterSec

def HttpSession.reply (s : HttpSession) (body : Body) : Reply where
  response := s.response body.content
  after := body.after
  toClose := body.toClose

/-- The reply an exchange that still reads is bound to end with, by the state it is in. -/
def expects (x : Exchange Wire) : Except Rc Reply :=
  let s := x.session
  let rest := x.stream.drop s.smHdrEnd
  match s.smState with
  | .handshake => .error .errTls
  | .writeHead | .writeBody | .readHead =>
      (replyContext now s).reply (maxInterim - s.smInterim) x.stream
  | .readBodyCl => (bodyOfLength s.smContentLength.toNat rest).map s.reply
  | .readBodyEof => (bodyToClose s.maxBody rest).map s.reply
  | .readBodyChunked =>
      (bodyInChunks s.maxBody (chunkRoom s.maxBody s.smHdrEnd rest) rest).map s.reply
  | .done | .idle => .error .errGeneric

/-- The limits of the session do not wrap. -/
def HttpSession.Bounded (s : HttpSession) : Prop := s.maxBody + headerBudget < sizeRange

/-- Where the session's offsets may stand in each state. -/
def HttpSession.Placed (s : HttpSession) : Prop :=
  match s.smState with
  | .handshake | .idle | .done => False
  | .writeHead | .writeBody | .readHead =>
      s.smRx.length ≤ headerBudget ∧ s.smHdrScan ≤ headScan s.smRx 0 ∧ s.smInterim ≤ maxInterim
  | .readBodyCl =>
      s.smHdrEnd ≤ s.smRx.length ∧ s.smHdrEnd ≤ headerBudget ∧ s.smContentLength ≤ longMax
  | .readBodyEof => s.smHdrEnd ≤ s.smRx.length ∧ s.smHdrEnd ≤ headerBudget
  | .readBodyChunked =>
      s.smHdrEnd ≤ s.smRx.length ∧ (s.Bounded → s.smRx.length ≤ rxMax s.maxBody) ∧
        s.smScan.Continues (s.smRx.drop s.smHdrEnd) s.maxBody

/-- The invariant of an exchange whose response is not published yet. -/
structure Ready (x : Exchange Wire) : Prop extends Buffered x where
  opened : x.session.closed = false
  placed : x.session.Placed

/-- A bound on the turns the exchange can still take without being suspended. -/
def HttpSession.work (s : HttpSession) : Nat :=
  match s.smState with
  | .idle | .handshake | .done => 0
  | .readBodyCl | .readBodyEof | .readBodyChunked => 2 + (sizeRange - s.smRx.length)
  | .readHead =>
      3 + sizeRange + (maxInterim - s.smInterim) * (headerBudget + 1) +
        (headerBudget - s.smRx.length)
  | .writeBody => 4 + sizeRange + (maxInterim + 1) * (headerBudget + 1)
  | .writeHead => 5 + sizeRange + (maxInterim + 1) * (headerBudget + 1)

/-- The response is the one expected. Bytes after it that were already received, or its end at the
close of the connection, have closed the session. -/
structure Published (reply : Except Rc Reply) (x' : Exchange Wire) : Prop where
  given : ∃ after toClose surplus, reply = .ok ⟨x'.resp, after, toClose⟩ ∧
    after = surplus ++ x'.world.rest ∧ x'.session.closed = (toClose || !surplus.isEmpty)

/-- What one turn of a ready exchange may do. -/
inductive Advances (x : Exchange Wire) : Rc → Exchange Wire → Prop where
  | refuses (x' : Exchange Wire) (refused : x'.world.refused = true) : Advances x .errMemory x'
  | waits (rc : Rc) (x' : Exchange Wire) (want : rc.isWant = true) (ready : Ready x')
      (same : expects now x' = expects now x) (fewer : x'.world.wants < x.world.wants)
      (limit : x'.session.maxBody = x.session.maxBody) : Advances x rc x'
  | proceeds (x' : Exchange Wire) (ready : Ready x') (same : expects now x' = expects now x)
      (wants : x'.world.wants ≤ x.world.wants) (less : x'.session.work < x.session.work)
      (limit : x'.session.maxBody = x.session.maxBody) : Advances x .ok x'
  | publishes (x' : Exchange Wire) (state : x'.session.smState = .done)
      (published : Published (expects now x) x') : Advances x .ok x'
  | fails (rc : Rc) (x' : Exchange Wire) (code : rc.Fails)
      (given : x.session.Bounded → expects now x = .error rc) : Advances x rc x'

theorem Moved.stream_eq {x x' : Exchange Wire} {data : Bytes} (moved : Moved x data x') :
    x'.stream = x.stream := by
  obtain ⟨cap, session⟩ := moved.session
  rw [Exchange.stream, Exchange.stream, session, moved.stream, List.append_assoc]

theorem Moved.expects_eq {x x' : Exchange Wire} {data : Bytes} (moved : Moved x data x') :
    expects now x' = expects now x := by
  obtain ⟨cap, session⟩ := moved.session
  simp only [expects, moved.stream_eq, session]
  rfl

theorem Moved.maxBody_eq {x x' : Exchange Wire} {data : Bytes} (moved : Moved x data x') :
    x'.session.maxBody = x.session.maxBody := by
  obtain ⟨cap, session⟩ := moved.session
  rw [session]

/-- A bounded read that must not meet the end of the stream. -/
theorem ReadsSome.advances {x y x' : Exchange Wire} {limit : Nat} {rc : Rc} {ended : Bool}
    (reads : ReadsSome y limit rc ended x') (wants : y.world.wants ≤ x.world.wants)
    (same : expects now y = expects now x) (max : y.session.maxBody = x.session.maxBody)
    (kept : ∀ data z, Moved y data z → (y.session.smRx ++ data).length ≤ limit ∨ data = [] →
      Ready z ∧ (data ≠ [] → z.session.work < x.session.work))
    (short : x.session.Bounded → y.world.rest = [] → y.session.smRx.length ≤ limit →
      expects now x = .error .errIo)
    (long : x.session.Bounded → limit ≤ y.session.smRx.length →
      limit < (y.session.smRx ++ y.world.rest).length → expects now x = .error .errProtocol)
    (reach : x.session.Bounded → limit ≤ rxMax y.session.maxBody ∨ limit ≤ y.session.smRxCap) :
    Advances now x (readThrough (rc, ended, x')).1 (readThrough (rc, ended, x')).2 := by
  cases reads with
  | refuses _ refused => exact .refuses _ refused
  | waits rc _ want moved fewer =>
      have code : (readThrough (rc, false, x')).1 = rc := by simp [readThrough]
      rw [code]
      exact .waits rc _ want (kept [] _ moved (.inr rfl)).1 ((moved.expects_eq now).trans same)
        (Nat.lt_of_lt_of_le fewer wants) (moved.maxBody_eq.trans max)
  | closes _ moved ended below =>
      exact .fails .errIo _ (by simp [Rc.Fails, Rc.Refuses, Rc.isWant])
        fun bounded => short bounded ended below
  | appends data _ moved some fits =>
      obtain ⟨ready, less⟩ := kept data _ moved (.inl fits)
      exact .proceeds _ ready ((moved.expects_eq now).trans same)
        (Nat.le_trans moved.wants wants) (less some) (moved.maxBody_eq.trans max)
  | exceeds _ wide cap =>
      refine .fails .errProtocol _ (by simp [Rc.Fails, Rc.Refuses, Rc.isWant]) fun bounded => ?_
      have reached := reach bounded
      omega
  | overruns _ full above =>
      exact .fails .errProtocol _ (by simp [Rc.Fails, Rc.Refuses, Rc.isWant])
        fun bounded => long bounded full above

/-! ## One turn in each state -/

theorem Moved.ready_reading {y z : Exchange Wire} {data : Bytes} (moved : Moved y data z)
    (opened : y.session.closed = false) (state : y.session.smState = .readHead)
    (scanned : y.session.smHdrScan ≤ headScan y.session.smRx 0)
    (interim : y.session.smInterim ≤ maxInterim)
    (fits : (y.session.smRx ++ data).length ≤ headerBudget) : Ready z := by
  obtain ⟨cap, session⟩ := moved.session
  refine ⟨moved.buffered, by rw [session]; exact opened, ?_⟩
  rw [session]
  simp only [HttpSession.Placed, state]
  exact ⟨fits, Nat.le_trans scanned (headScan_le ..), interim⟩

/-- The window the reference looks at, when all of the receive buffer lies in it. -/
theorem Exchange.window {x : Exchange Wire} (within : x.session.smRx.length ≤ headerBudget) :
    x.stream.take headerBudget =
      x.session.smRx ++ x.world.rest.take (headerBudget - x.session.smRx.length) := by
  rw [Exchange.stream, List.take_append, List.take_of_length_le within]

theorem Exchange.stream_take {x : Exchange Wire} {k : Nat} (within : k ≤ x.session.smRx.length) :
    x.stream.take k = x.session.smRx.take k := by
  rw [Exchange.stream, List.take_append_of_le_length within]

theorem Exchange.stream_drop {x : Exchange Wire} {k : Nat} (within : k ≤ x.session.smRx.length) :
    x.stream.drop k = x.session.smRx.drop k ++ x.world.rest := by
  rw [Exchange.stream, List.drop_append_of_le_length within]

theorem headerBudget_le_rxMax {maxBody : Nat} (budget : maxBody + headerBudget < sizeRange) :
    headerBudget ≤ rxMax maxBody := by
  rw [rxMax, sizeAdd_eq budget]
  exact Nat.le_add_left ..

theorem smDropInterim_advances {x : Exchange Wire} (ready : Ready x) {status : Int} {i : Nat}
    (state : x.session.smState = .readHead) (inside : i + 3 < x.session.smRx.length)
    (given : expects now x =
      match maxInterim - x.session.smInterim with
      | 0 => .error .errProtocol
      | interims + 1 => (replyContext now x.session).reply interims (x.stream.drop (i + 4))) :
    Advances now x
      (smDropInterim { x with session := { x.session with smHdrEnd := i + 4, smStatus := status } }).1
      (smDropInterim
        { x with session := { x.session with smHdrEnd := i + 4, smStatus := status } }).2 := by
  have placed := ready.placed
  simp only [HttpSession.Placed, state] at placed
  obtain ⟨within, -, interim⟩ := placed
  by_cases many : x.session.smInterim + 1 > maxInterim
  · rw [smDropInterim, if_pos (by exact many)]
    refine .fails _ _ (by simp [Rc.Fails, Rc.Refuses, Rc.isWant]) fun _ => ?_
    rw [given, Nat.sub_eq_zero_of_le (by omega)]
  · rw [smDropInterim, if_neg (by exact many)]
    obtain ⟨interims, left⟩ : ∃ interims, maxInterim - x.session.smInterim = interims + 1 :=
      ⟨maxInterim - x.session.smInterim - 1, by omega⟩
    have tail : (memmove x.session.smRx 0 (i + 4) (x.session.smRx.length - (i + 4))).take
        (x.session.smRx.length - (i + 4)) = x.session.smRx.drop (i + 4) := by
      rw [memmove_front (by omega), List.take_of_length_le (by simp)]
    dsimp only
    rw [tail]
    refine .proceeds _ ⟨⟨ready.plain, ?_, ready.cap⟩, ready.opened, ?_⟩ ?_
      (Nat.le_refl _) ?_ rfl
    · exact Nat.le_trans (List.drop_sublist ..).length_le ready.room
    · simp only [HttpSession.Placed, state]
      refine ⟨?_, Nat.zero_le _, by omega⟩
      rw [List.length_drop]
      omega
    · rw [given, left]
      have less : maxInterim - (x.session.smInterim + 1) = interims := by omega
      simp only [expects, state, less, x.stream_drop inside]
      rfl
    · have budget : headerBudget = 8192 := rfl
      have most : maxInterim = 8 := rfl
      simp only [HttpSession.work, state, List.length_drop, budget, most] at left ⊢
      omega

/-- Accepting a final head leads to the state that reads the body the head announces. -/
theorem accept_advances {x : Exchange Wire} (ready : Ready x) {head : ReplyHead} {i : Nat}
    (state : x.session.smState = .readHead) (inside : i + 3 < x.session.smRx.length)
    (bound : head.contentLength ≤ longMax)
    (given : expects now x = ((replyContext now x.session).body head (i + 4)
      (x.stream.drop (i + 4))).map head.reply) :
    Advances now x .ok
      { x with session := ({ x.session with smHdrEnd := i + 4 } : HttpSession).accept head } := by
  have placed := ready.placed
  simp only [HttpSession.Placed, state] at placed
  obtain ⟨within, -, -⟩ := placed
  rw [HttpSession.accept_eq]
  refine .proceeds _ ⟨⟨ready.plain, ready.room, ready.cap⟩, ready.opened, ?_⟩ ?_
    (Nat.le_refl _) ?_ rfl
  · cases head.chunked with
    | true =>
        simp only [HttpSession.Placed, if_true]
        exact ⟨inside, fun bounded => Nat.le_trans within (headerBudget_le_rxMax bounded),
          ChunkScan.start_sound .., fun _ => rfl⟩
    | false =>
        by_cases known : head.contentLength ≥ 0
        · simp only [HttpSession.Placed, Bool.false_eq_true, if_false, if_pos known]
          exact ⟨inside, by omega, bound⟩
        · simp only [HttpSession.Placed, Bool.false_eq_true, if_false, if_neg known]
          exact ⟨inside, by omega⟩
  · rw [given, ReplyContext.body]
    cases head.chunked with
    | true =>
        simp only [expects, if_true]
        rfl
    | false =>
        by_cases known : head.contentLength ≥ 0
        · simp only [expects, Bool.false_eq_true, if_false, if_pos known]
          rfl
        · simp only [expects, Bool.false_eq_true, if_false, if_neg known]
          rfl
  · simp only [HttpSession.work, state]
    cases head.chunked with
    | true =>
        simp only [if_true]
        omega
    | false =>
        by_cases known : head.contentLength ≥ 0
        · simp only [Bool.false_eq_true, if_false, if_pos known]
          omega
        · simp only [Bool.false_eq_true, if_false, if_neg known]
          omega

theorem smReadHead_advances {x : Exchange Wire} (ready : Ready x)
    (state : x.session.smState = .readHead) :
    ∃ rc x', smReadHead (wireEnv now base64EncodeNoNl) x = some (rc, x') ∧ Advances now x rc x' := by
  have placed := ready.placed
  simp only [HttpSession.Placed, state] at placed
  obtain ⟨within, scanned, interim⟩ := placed
  have expected : expects now x =
      (replyContext now x.session).reply (maxInterim - x.session.smInterim) x.stream := by
    simp only [expects, state]
  have window := x.window within
  simp only [smReadHead, headScan_resume scanned]
  by_cases missing : headScan x.session.smRx 0 + 3 ≥ x.session.smRx.length
  · rw [if_pos missing]
    by_cases full : x.session.smRx.length ≥ headerBudget
    · rw [if_pos full]
      have all : x.stream.take headerBudget = x.session.smRx := by
        rw [window, Nat.sub_eq_zero_of_le full, List.take_zero, List.append_nil]
      have long : x.stream.length ≥ headerBudget := by
        rw [Exchange.stream, List.length_append]
        omega
      refine ⟨_, _, rfl, .fails _ _ (by simp [Rc.Fails, Rc.Refuses, Rc.isWant]) fun _ => ?_⟩
      rw [expected, ReplyContext.reply_headless _ _ (by rw [all]; exact missing), if_pos long]
    · rw [if_neg full]
      obtain ⟨rc, ended, x', run, reads⟩ := nbReadSome_readsSome now base64EncodeNoNl
        (x := { x with session := { x.session with smHdrScan := headScan x.session.smRx 0 } })
        ⟨ready.plain, ready.room, ready.cap⟩ headerBudget
      rw [run]
      refine ⟨_, _, rfl, reads.advances now (Nat.le_refl _) rfl rfl ?_ ?_ ?_ ?_⟩
      · intro data z moved fits
        have inside : (x.session.smRx ++ data).length ≤ headerBudget := by
          rcases fits with fits | rfl
          · exact fits
          · simpa using within
        refine ⟨moved.ready_reading ready.opened state (Nat.le_refl _) interim inside, fun some => ?_⟩
        obtain ⟨cap, session⟩ := moved.session
        have size : 0 < data.length := List.length_pos_iff.mpr some
        rw [List.length_append] at inside
        simp only [HttpSession.work, session, state, List.length_append]
        omega
      · intro _ ended _
        have all : x.stream = x.session.smRx := by
          rw [Exchange.stream, ended, List.append_nil]
        rw [expected, all, ReplyContext.reply_headless _ _
          (by rw [List.take_of_length_le within]; exact missing), if_neg full]
      · exact fun _ at_ _ => absurd at_ full
      · exact fun bounded => .inl (headerBudget_le_rxMax bounded)
  · rw [if_neg missing]
    have inside : headScan x.session.smRx 0 + 3 < x.session.smRx.length := Nat.lt_of_not_le missing
    generalize scan : headScan x.session.smRx 0 = i at inside
    have found : headScan (x.stream.take headerBudget) 0 = i := by
      rw [window, headScan_found (by omega), scan]
    have windowed : i + 3 < (x.stream.take headerBudget).length := by
      rw [window, List.length_append]
      omega
    rw [ReplyContext.reply_headed _ _ found windowed, x.stream_take inside] at expected
    obtain ⟨rc, x', run, inspects⟩ := inspectHeaders_inspects now base64EncodeNoNl
      (x := { x with session := { x.session with smHdrEnd := i + 4 } }) (by exact Nat.le_trans inside within)
    rw [run]
    change Inspects _ ((replyContext now x.session).classify (x.session.smRx.take (i + 4))) rc x'
      at inspects
    generalize (replyContext now x.session).classify (x.session.smRx.take (i + 4)) = kind
      at inspects expected
    cases inspects with
    | refused x' =>
        exact ⟨_, _, rfl, .fails _ _ (by simp [Rc.Fails, Rc.Refuses, Rc.isWant]) fun _ => expected⟩
    | interim status interim =>
        exact ⟨_, _, if_pos interim, smDropInterim_advances now ready state inside expected⟩
    | final head final fits bound =>
        have kind : ¬ statusIsInterim head.status = true := Bool.eq_false_iff.mp final
        refine ⟨.ok, _, ?_, accept_advances now ready state inside bound expected⟩
        rw [HttpSession.accept_eq]
        exact if_neg kind

/-- Delivering a body that lies in the receive buffer. -/
theorem smDeliver_eq {y : Exchange Wire} {bodyLen : Nat}
    (inside : y.session.smHdrEnd + bodyLen ≤ y.session.smRx.length) :
    smDeliver y bodyLen =
      { y with
        resp := y.session.response ((y.session.smRx.drop y.session.smHdrEnd).take bodyLen)
        session := { y.session with
          smRx := if bodyLen = 0 then y.session.smRx else []
          smRxCap := if bodyLen = 0 then y.session.smRxCap else 0
          smContentType := none, smState := .done } } := by
  by_cases empty : bodyLen = 0
  · subst empty
    rfl
  · have body := memmove_front inside
    simp only [smDeliver, smTakeBody, if_neg empty, smPublish, body]
    rfl

theorem HttpSession.close_if (s : HttpSession) (surplus : Prop) [Decidable surplus] :
    ({ s with closed := s.closed || decide surplus } : HttpSession) =
      if surplus then { s with closed := true } else s := by
  split <;> simp_all

theorem smDeliver_close (y : Exchange Wire) (bodyLen : Nat) (closed : Bool) :
    { smDeliver y bodyLen with
      session := { (smDeliver y bodyLen).session with closed := closed } } =
      smDeliver { y with session := { y.session with closed := closed } } bodyLen := by
  simp only [smDeliver, smTakeBody, smPublish]
  split <;> rfl

/-- The turn that publishes the response; `surplus` is what the receive buffer holds past it. -/
theorem smDeliver_advances {x y : Exchange Wire} (bodyLen : Nat) (surplus : Bytes) (toClose : Bool)
    (inside : y.session.smHdrEnd + bodyLen ≤ y.session.smRx.length) {after : Bytes}
    (given : expects now x = .ok (y.session.reply
      ⟨(y.session.smRx.drop y.session.smHdrEnd).take bodyLen, after, toClose⟩))
    (split : after = surplus ++ y.world.rest) :
    Advances now x .ok
      { smDeliver y bodyLen with
        session := { (smDeliver y bodyLen).session with
          closed := toClose || !surplus.isEmpty } } := by
  rw [smDeliver_eq inside]
  exact .publishes _ rfl ⟨after, toClose, surplus, given, split, rfl⟩

theorem not_isEmpty_drop (text : Bytes) (k : Nat) :
    (!(text.drop k).isEmpty) = decide (text.length > k) := by
  by_cases more : text.length > k
  · simp [more]
  · simp [more, Nat.le_of_not_gt more]

theorem smReadBodyCl_advances {x : Exchange Wire} (ready : Ready x)
    (state : x.session.smState = .readBodyCl) :
    ∃ rc x', smReadBodyCl (wireEnv now base64EncodeNoNl) x = some (rc, x') ∧ Advances now x rc x' := by
  have placed := ready.placed
  simp only [HttpSession.Placed, state] at placed
  obtain ⟨headed, head, bound⟩ := placed
  have small : x.session.smHdrEnd + x.session.smContentLength.toNat < sizeRange := by
    have budget : headerBudget = 8192 := rfl
    have range : sizeRange = 18446744073709551616 := rfl
    have most : longMax = 9223372036854775807 := rfl
    omega
  have expected : expects now x = (bodyOfLength x.session.smContentLength.toNat
      (x.stream.drop x.session.smHdrEnd)).map x.session.reply := by
    simp only [expects, state]
  have stop : sizeAdd x.session.smHdrEnd x.session.smContentLength.toNat =
      x.session.smHdrEnd + x.session.smContentLength.toNat := sizeAdd_eq small
  simp only [smReadBodyCl, stop]
  by_cases short : x.session.smRx.length < x.session.smHdrEnd + x.session.smContentLength.toNat
  · rw [if_pos short]
    have reads {y : Exchange Wire} (cap : Nat)
        (widened : y = { x with session := { x.session with smRxCap := cap } })
        (buffered : Buffered y)
        (limit : x.session.smHdrEnd + x.session.smContentLength.toNat ≤ cap) :
        ∃ rc x', (nbReadSome (wireEnv now base64EncodeNoNl) y
            (x.session.smHdrEnd + x.session.smContentLength.toNat)).map readThrough =
          some (rc, x') ∧ Advances now x rc x' := by
      subst widened
      obtain ⟨rc, ended, x', run, reads⟩ := nbReadSome_readsSome now base64EncodeNoNl buffered
        (x.session.smHdrEnd + x.session.smContentLength.toNat)
      rw [run]
      refine ⟨_, _, rfl, reads.advances now (Nat.le_refl _) rfl rfl ?_ ?_ ?_ fun _ => .inr limit⟩
      · intro data z moved grown
        obtain ⟨cap', session⟩ := moved.session
        refine ⟨⟨moved.buffered, by rw [session]; exact ready.opened, ?_⟩,
          fun some => ?_⟩
        · simp only [HttpSession.Placed, session, state, List.length_append]
          exact ⟨by omega, head, bound⟩
        · have size : 0 < data.length := List.length_pos_iff.mpr some
          have grown := grown.resolve_right some
          simp only [HttpSession.work, session, state, List.length_append] at grown ⊢
          omega
      · intro _ ended _
        have all : x.stream = x.session.smRx := by
          rw [Exchange.stream, ended, List.append_nil]
        rw [expected, all, bodyOfLength, if_pos (by rw [List.length_drop]; omega)]
        rfl
      · exact fun _ full _ => absurd short (Nat.not_lt_of_ge full)
    by_cases narrow : x.session.smRxCap < x.session.smHdrEnd + x.session.smContentLength.toNat
    · rw [if_pos narrow]
      by_cases grantable : x.session.smHdrEnd + x.session.smContentLength.toNat < allocLimit
      · rw [wireEnv_granted now base64EncodeNoNl x.world grantable]
        exact reads _ rfl (ready.toBuffered.widen (Nat.le_of_lt short) grantable) (Nat.le_refl _)
      · rw [wireEnv_refused now base64EncodeNoNl x.world grantable]
        exact ⟨_, _, rfl, .refuses _ rfl⟩
    · rw [if_neg narrow]
      exact reads x.session.smRxCap rfl ready.toBuffered (Nat.le_of_not_lt narrow)
  · rw [if_neg short, ← HttpSession.close_if]
    have body : (x.stream.drop x.session.smHdrEnd).take x.session.smContentLength.toNat =
        (x.session.smRx.drop x.session.smHdrEnd).take x.session.smContentLength.toNat := by
      rw [x.stream_drop headed, List.take_append_of_le_length (by rw [List.length_drop]; omega)]
    have inside : x.session.smHdrEnd + x.session.smContentLength.toNat ≤ x.session.smRx.length := by
      omega
    have after : (x.stream.drop x.session.smHdrEnd).drop x.session.smContentLength.toNat =
        x.session.smRx.drop (x.session.smHdrEnd + x.session.smContentLength.toNat) ++ x.world.rest := by
      rw [List.drop_drop, x.stream_drop inside]
    refine ⟨_, _, rfl, ?_⟩
    rw [← smDeliver_close, ready.opened, ← not_isEmpty_drop]
    refine smDeliver_advances now _ _ false inside ?_ after
    rw [expected, bodyOfLength,
      if_neg (by rw [x.stream_drop headed, List.length_append, List.length_drop]; omega), body]
    rfl

theorem smReadBodyEof_advances {x : Exchange Wire} (ready : Ready x)
    (state : x.session.smState = .readBodyEof) :
    ∃ rc x', smReadBodyEof (wireEnv now base64EncodeNoNl) x = some (rc, x') ∧
      Advances now x rc x' := by
  have placed := ready.placed
  simp only [HttpSession.Placed, state] at placed
  obtain ⟨headed, head⟩ := placed
  have expected : expects now x = (bodyToClose x.session.maxBody
      (x.stream.drop x.session.smHdrEnd)).map x.session.reply := by
    simp only [expects, state]
  have least := sizeAdd_le x.session.smHdrEnd x.session.maxBody
  have range := sizeAdd_lt x.session.smHdrEnd x.session.maxBody
  have limit (bounded : x.session.Bounded) : sizeAdd x.session.smHdrEnd x.session.maxBody =
      x.session.smHdrEnd + x.session.maxBody := by
    unfold HttpSession.Bounded at bounded
    exact sizeAdd_eq (by omega)
  obtain ⟨rc, ended, x', run, reads⟩ := nbReadSome_readsSome now base64EncodeNoNl ready.toBuffered
    (sizeAdd x.session.smHdrEnd x.session.maxBody)
  simp only [smReadBodyEof, run]
  have kept {data : Bytes} (moved : Moved x data x') : Ready x' := by
    obtain ⟨cap, session⟩ := moved.session
    refine ⟨moved.buffered, by rw [session]; exact ready.opened, ?_⟩
    simp only [HttpSession.Placed, session, state, List.length_append]
    exact ⟨by omega, head⟩
  cases reads with
  | refuses _ refused => exact ⟨_, _, rfl, .refuses _ refused⟩
  | waits rc _ want moved fewer =>
      refine ⟨rc, x', ?_, .waits rc _ want (kept moved) (moved.expects_eq now) fewer moved.maxBody_eq⟩
      rcases (Rc.isWant_iff rc).mp want with rfl | rfl <;> rfl
  | closes _ moved ended short =>
      obtain ⟨cap, session⟩ := moved.session
      rw [List.append_nil] at session
      have all : x.stream = x.session.smRx := by
        rw [Exchange.stream, ended, List.append_nil]
      have size : (x.session.smRx.drop x.session.smHdrEnd).length ≤ x.session.maxBody := by
        rw [List.length_drop]
        omega
      have rest : x'.world.rest = [] := moved.stream.symm.trans ended
      refine ⟨_, _, rfl, smDeliver_advances now _ [] true
        (by simp only [session]; omega) ?_ rest.symm⟩
      rw [expected, all, bodyToClose, if_pos size, session]
      have whole : (x.session.smRx.drop x.session.smHdrEnd).take
          (x.session.smRx.length - x.session.smHdrEnd) = x.session.smRx.drop x.session.smHdrEnd :=
        List.take_of_length_le (Nat.le_of_eq List.length_drop)
      simp only [whole]
      rfl
  | appends data _ moved some fits =>
      refine ⟨_, _, rfl, .proceeds _ (kept moved) (moved.expects_eq now) moved.wants ?_ moved.maxBody_eq⟩
      obtain ⟨cap, session⟩ := moved.session
      have size : 0 < data.length := List.length_pos_iff.mpr some
      simp only [HttpSession.work, session, state, List.length_append] at fits ⊢
      omega
  | exceeds _ wide cap =>
      refine ⟨_, _, rfl, .fails _ _ (by simp [Rc.Fails, Rc.Refuses, Rc.isWant]) fun bounded => ?_⟩
      rw [limit bounded, rxMax, sizeAdd_eq bounded] at wide
      omega
  | overruns _ full long =>
      refine ⟨_, _, rfl, .fails _ _ (by simp [Rc.Fails, Rc.Refuses, Rc.isWant]) fun bounded => ?_⟩
      rw [limit bounded] at long
      rw [expected, bodyToClose, if_neg]
      · rfl
      · rw [List.length_drop, Exchange.stream]
        omega

/-- The verdict the reference reaches, by the verdict on the bytes received. -/
theorem bodyInChunks_eq {raw : Bytes} (rest : Bytes) {max room : Nat} {st st' : ChunkScan} {verdict : Framing}
    (continues : st.Continues raw max) (within : raw.length ≤ room)
    (run : httpChunkedComplete raw st = (verdict, st')) :
    (verdict = .malformed → bodyInChunks max room (raw ++ rest) = .error .errProtocol) ∧
    (verdict = .complete → bodyInChunks max room (raw ++ rest) =
      (decodeChunks (raw.take st'.pos)).map fun content =>
        ⟨content, raw.drop st'.pos ++ rest, false⟩) ∧
    (verdict = .more → st'.Continues raw max ∧
      (rest = [] → bodyInChunks max room (raw ++ rest) = .error .errIo) ∧
      (room ≤ raw.length → rest ≠ [] →
        bodyInChunks max room (raw ++ rest) = .error .errProtocol)) := by
  obtain ⟨resumes, stops⟩ := continues.verdict run
  have window : (raw ++ rest).take room = raw ++ rest.take (room - raw.length) := by
    rw [List.take_append, List.take_of_length_le within]
  refine ⟨?_, ?_, ?_⟩
  · rintro rfl
    rw [bodyInChunks, window, stops (by decide)]
  · rintro rfl
    have inside := httpChunkedComplete_pos continues.sound run
    rw [bodyInChunks, window, stops (by decide)]
    dsimp only
    rw [List.take_append_of_le_length inside, List.drop_append_of_le_length inside]
  · rintro rfl
    have whole : httpChunkedComplete raw (.start max) = (.more, st') := by
      have start := continues.same []
      rw [List.append_nil] at start
      rw [← start, run]
    refine ⟨resumes rfl, ?_, ?_⟩
    · rintro rfl
      rw [bodyInChunks, List.append_nil, List.take_of_length_le within, whole]
      dsimp only
      rw [if_neg (Nat.not_lt_of_le within)]
    · intro full more
      have size : 0 < rest.length := List.length_pos_iff.mpr more
      rw [bodyInChunks, window, Nat.sub_eq_zero_of_le full, List.take_zero, List.append_nil, whole]
      dsimp only
      rw [if_pos (by rw [List.length_append]; omega)]

theorem smReadBodyChunked_advances {x : Exchange Wire} (ready : Ready x)
    (state : x.session.smState = .readBodyChunked) :
    ∃ rc x', smReadBodyChunked (wireEnv now base64EncodeNoNl) x = some (rc, x') ∧
      Advances now x rc x' := by
  have placed := ready.placed
  simp only [HttpSession.Placed, state] at placed
  obtain ⟨headed, within, continues⟩ := placed
  have busy : 1 < x.session.work := by
    simp only [HttpSession.work, state]
    omega
  have expected : expects now x = (bodyInChunks x.session.maxBody
      (chunkRoom x.session.maxBody x.session.smHdrEnd
        (x.session.smRx.drop x.session.smHdrEnd ++ x.world.rest))
      (x.session.smRx.drop x.session.smHdrEnd ++ x.world.rest)).map x.session.reply := by
    simp only [expects, state, x.stream_drop headed]
  have bounded_room (bounded : x.session.Bounded) :
      chunkRoom x.session.maxBody x.session.smHdrEnd
        (x.session.smRx.drop x.session.smHdrEnd ++ x.world.rest) =
      rxMax x.session.maxBody - x.session.smHdrEnd := if_pos bounded
  have room : (x.session.smRx.drop x.session.smHdrEnd).length ≤
      chunkRoom x.session.maxBody x.session.smHdrEnd
        (x.session.smRx.drop x.session.smHdrEnd ++ x.world.rest) := by
    by_cases bounded : x.session.Bounded
    · rw [bounded_room bounded, List.length_drop]
      have inside := within bounded
      omega
    · have wrapped : chunkRoom x.session.maxBody x.session.smHdrEnd
          (x.session.smRx.drop x.session.smHdrEnd ++ x.world.rest) =
          (x.session.smRx.drop x.session.smHdrEnd ++ x.world.rest).length := if_neg bounded
      rw [wrapped, List.length_append]
      exact Nat.le_add_right ..
  generalize scanned : httpChunkedComplete (x.session.smRx.drop x.session.smHdrEnd) x.session.smScan =
    result
  obtain ⟨verdict, scan⟩ := result
  obtain ⟨malformed, complete, more⟩ := bodyInChunks_eq x.world.rest continues room scanned
  rw [smReadBodyChunked, scanned]
  cases verdict with
  | malformed =>
      refine ⟨_, _, rfl, .fails _ _ (by simp [Rc.Fails, Rc.Refuses, Rc.isWant]) fun _ => ?_⟩
      rw [expected, malformed rfl]
      rfl
  | more =>
      obtain ⟨continues', short, long⟩ := more rfl
      have limit : rxMax x.session.maxBody < sizeRange := sizeAdd_lt ..
      obtain ⟨rc, ended, x', run, reads⟩ := nbReadSome_readsSome now base64EncodeNoNl
        (x := { x with session := { x.session with smScan := scan } })
        ⟨ready.plain, ready.room, ready.cap⟩ (rxMax x.session.maxBody)
      dsimp only
      rw [run]
      refine ⟨_, _, rfl, reads.advances now (Nat.le_refl _) (by simp only [expects, state]; rfl) rfl ?_ ?_ ?_
        fun _ => .inl (Nat.le_refl _)⟩
      · intro data z moved grown
        obtain ⟨cap, session⟩ := moved.session
        have kept (bounded : x.session.Bounded) :
            (x.session.smRx ++ data).length ≤ rxMax x.session.maxBody := by
          rcases grown with grown | rfl
          · exact grown
          · simpa using within bounded
        refine ⟨⟨moved.buffered, by rw [session]; exact ready.opened, ?_⟩,
          fun some => ?_⟩
        · simp only [HttpSession.Placed, session, state]
          refine ⟨by rw [List.length_append]; omega, kept, ?_⟩
          rw [List.drop_append_of_le_length headed]
          exact continues'.append data
        · have size : 0 < data.length := List.length_pos_iff.mpr some
          have grown := grown.resolve_right some
          simp only [HttpSession.work, session, state, List.length_append] at grown ⊢
          omega
      · intro _ ended _
        rw [expected, short ended]
        rfl
      · intro bounded full above
        have rest : x.world.rest ≠ [] := by
          rintro empty
          have inside := within bounded
          simp only [empty, List.append_nil] at above
          omega
        rw [expected, long (by rw [bounded_room bounded, List.length_drop]; exact Nat.sub_le_sub_right full _)
          rest]
        rfl
  | complete =>
      have inside : x.session.smHdrEnd + scan.pos ≤ x.session.smRx.length := by
        have pos := httpChunkedComplete_pos continues.sound scanned
        rw [List.length_drop] at pos
        omega
      have gives := chunkedDecodeInto_gives (Nat.zero_le x.session.smHdrEnd) inside
      rw [complete rfl] at expected
      dsimp only
      generalize chunkedDecodeInto x.session.smRx 0 x.session.smHdrEnd scan.pos = done at gives
      have result := gives.payload
      by_cases ok : done.rc = .ok
      · rw [if_neg (by simp [ok])]
        have size := gives.inside
        have length := gives.length
        rw [Decoded.payload, decodeResult, if_pos ok] at result
        have delivers := smDeliver_advances now (x := x)
          (y := { x with
            session := { x.session with smScan := scan, smRx := done.memory, smHdrEnd := 0 } })
          done.outLen (x.session.smRx.drop (x.session.smHdrEnd + scan.pos)) false (by exact Nat.le_trans size (Nat.le_of_eq length.symm))
          (by rw [expected, ← result, List.drop_drop]; rfl) rfl
        rw [smDeliver_close, Bool.false_or, not_isEmpty_drop] at delivers
        by_cases surplus : x.session.smRx.length > x.session.smHdrEnd + scan.pos
        · simp only [surplus, decide_true] at delivers
          simp only [if_pos surplus]
          exact ⟨_, _, rfl, delivers⟩
        · simp only [surplus, decide_false, ← ready.opened] at delivers
          simp only [if_neg surplus]
          exact ⟨_, _, rfl, delivers⟩
      · rw [if_pos ok]
        rw [Decoded.payload, decodeResult, if_neg ok] at result
        have code := decodeChunks_code result.symm
        refine ⟨_, _, rfl, .fails _ _ (by simp [code, Rc.Fails, Rc.Refuses, Rc.isWant]) fun _ => ?_⟩
        rw [expected, ← result]
        rfl

/-- The states before the first reply byte is read. -/
def SmState.Early (state : SmState) : Prop :=
  state = .writeHead ∨ state = .writeBody ∨ state = .readHead

theorem HttpSession.placed_early {s : HttpSession} (early : s.smState.Early) :
    s.Placed ↔ s.smRx.length ≤ headerBudget ∧ s.smHdrScan ≤ headScan s.smRx 0 ∧
      s.smInterim ≤ maxInterim := by
  rcases early with state | state | state <;> simp only [Placed, state]

theorem expects_early {x : Exchange Wire} (early : x.session.smState.Early) :
    expects now x =
      (replyContext now x.session).reply (maxInterim - x.session.smInterim) x.stream := by
  rcases early with state | state | state <;> simp only [expects, state]

/-- Sending leaves the reply as it is. -/
theorem Ready.sent {x : Exchange Wire} (ready : Ready x) (early : x.session.smState.Early)
    (head : Bytes) (off : Nat) {next : SmState} (later : next.Early) {w : Wire}
    (rest : w.rest = x.world.rest) :
    let x' : Exchange Wire :=
      { x with session := { x.session with smHead := head, smTxOff := off, smState := next }, world := w }
    Ready x' ∧ expects now x' = expects now x := by
  refine ⟨⟨⟨ready.plain, ready.room, ready.cap⟩, ready.opened, ?_⟩, ?_⟩
  · exact (HttpSession.placed_early later).mpr ((HttpSession.placed_early early).mp ready.placed)
  · rw [expects_early now early, expects_early now later, Exchange.stream, Exchange.stream]
    dsimp only
    rw [rest]
    rfl

theorem work_readHead {s : HttpSession} (head : Bytes) (off : Nat) :
    ({ s with smHead := head, smTxOff := off, smState := .readHead } : HttpSession).work <
      4 + sizeRange + (maxInterim + 1) * (headerBudget + 1) := by
  have most : (maxInterim - s.smInterim) * (headerBudget + 1) ≤ maxInterim * (headerBudget + 1) :=
    Nat.mul_le_mul_right _ (Nat.sub_le ..)
  have more : (maxInterim + 1) * (headerBudget + 1) = maxInterim * (headerBudget + 1) + (headerBudget + 1) :=
    Nat.succ_mul ..
  simp only [HttpSession.work]
  omega

theorem nbWrite_wire {x : Exchange Wire} (plain : x.session.ssl = false) (buf : Bytes) :
    ∃ rc off w, nbWrite (wireEnv now base64EncodeNoNl) x.session buf x.world = (rc, off, w) ∧
      w.rest = x.world.rest ∧
      (rc = .ok ∧ w.wants ≤ x.world.wants ∨ rc.isWant = true ∧ w.wants < x.world.wants) := by
  rw [nbWrite, plain]
  exact nbWriteLoop_wire ..

theorem smWriteHead_advances {x : Exchange Wire} (ready : Ready x)
    (state : x.session.smState = .writeHead) :
    ∃ rc x', smWriteHead (wireEnv now base64EncodeNoNl) x = (rc, x') ∧ Advances now x rc x' := by
  have early : x.session.smState.Early := .inl state
  obtain ⟨rc, off, w, run, rest, outcome⟩ :=
    nbWrite_wire now base64EncodeNoNl ready.plain x.session.smHead
  rw [smWriteHead, run]
  rcases outcome with ⟨rfl, wants⟩ | ⟨want, fewer⟩
  · by_cases body : x.session.smBody.length > 0
    · simp only [if_pos body]
      obtain ⟨ready', same⟩ := ready.sent now early [] 0 (.inr (.inl rfl)) rest
      exact ⟨_, _, rfl, .proceeds _ ready' same wants (by simp only [HttpSession.work, state]; omega) rfl⟩
    · simp only [if_neg body]
      obtain ⟨ready', same⟩ := ready.sent now early [] 0 (.inr (.inr rfl)) rest
      refine ⟨_, _, rfl, .proceeds _ ready' same wants (Nat.lt_trans (work_readHead ..) ?_) rfl⟩
      simp only [HttpSession.work, state]
      omega
  · obtain ⟨ready', same⟩ := ready.sent now early x.session.smHead off early rest
    refine ⟨rc, _, ?_, .waits rc _ want ready' same fewer rfl⟩
    rcases (Rc.isWant_iff rc).mp want with rfl | rfl <;> rfl

theorem smWriteBody_advances {x : Exchange Wire} (ready : Ready x)
    (state : x.session.smState = .writeBody) :
    ∃ rc x', smWriteBody (wireEnv now base64EncodeNoNl) x = (rc, x') ∧ Advances now x rc x' := by
  have early : x.session.smState.Early := .inr (.inl state)
  obtain ⟨rc, off, w, run, rest, outcome⟩ :=
    nbWrite_wire now base64EncodeNoNl ready.plain x.session.smBody
  rw [smWriteBody, run]
  rcases outcome with ⟨rfl, wants⟩ | ⟨want, fewer⟩
  · obtain ⟨ready', same⟩ := ready.sent now early x.session.smHead off (.inr (.inr rfl)) rest
    refine ⟨_, _, rfl, .proceeds _ ready' same wants (Nat.lt_of_lt_of_eq (work_readHead ..) ?_) rfl⟩
    simp only [HttpSession.work, state]
  · obtain ⟨ready', same⟩ := ready.sent now early x.session.smHead off early rest
    refine ⟨rc, _, ?_, .waits rc _ want ready' same fewer rfl⟩
    rcases (Rc.isWant_iff rc).mp want with rfl | rfl <;> rfl

/-- Every turn of a ready exchange returns and keeps the reply. -/
theorem smStep_advances {x : Exchange Wire} (ready : Ready x) :
    ∃ rc x', smStep (wireEnv now base64EncodeNoNl) x = some (rc, x') ∧ Advances now x rc x' := by
  have placed := ready.placed
  unfold smStep
  cases state : x.session.smState with
  | idle => simp only [HttpSession.Placed, state] at placed
  | done => simp only [HttpSession.Placed, state] at placed
  | handshake => simp only [HttpSession.Placed, state] at placed
  | writeHead =>
      obtain ⟨rc, x', run, advances⟩ := smWriteHead_advances now base64EncodeNoNl ready state
      exact ⟨rc, x', congrArg some run, advances⟩
  | writeBody =>
      obtain ⟨rc, x', run, advances⟩ := smWriteBody_advances now base64EncodeNoNl ready state
      exact ⟨rc, x', congrArg some run, advances⟩
  | readHead => exact smReadHead_advances now base64EncodeNoNl ready state
  | readBodyCl => exact smReadBodyCl_advances now base64EncodeNoNl ready state
  | readBodyEof => exact smReadBodyEof_advances now base64EncodeNoNl ready state
  | readBodyChunked => exact smReadBodyChunked_advances now base64EncodeNoNl ready state

end WolfCert.Http
