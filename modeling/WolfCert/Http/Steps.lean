import WolfCert.Http.Session

/-!
# What one turn of the session can do

Each function of the state machine is described once, for every environment; the invariants of the
later modules are read off these descriptions.
-/

namespace WolfCert.Http

open WolfCert.CLib

variable {σ : Type} {env : Env σ}

/-- Reserving room changes the capacity at most. -/
theorem nbRxReserve_spec {x x' : Exchange σ} {need : Nat} {rc : Rc}
    (run : nbRxReserve env x need = some (rc, x')) :
    ∃ cap w, x' = { x with session := { x.session with smRxCap := cap }, world := w } ∧
      (rc = .ok ∨ rc = .errProtocol ∨ rc = .errMemory) := by
  simp only [nbRxReserve] at run
  split at run
  · cases run
    exact ⟨x.session.smRxCap, x.world, rfl, .inl rfl⟩
  · split at run
    · cases run
      exact ⟨x.session.smRxCap, x.world, rfl, .inr (.inl rfl)⟩
    · split at run
      · cases run
      · split at run
        · cases run
          exact ⟨_, _, rfl, .inl rfl⟩
        · cases run
          exact ⟨x.session.smRxCap, _, rfl, .inr (.inr rfl)⟩

/-- What one read leaves: some bytes appended exactly when it is `ok` and did not meet the end. -/
structure ReadSpec (x x' : Exchange σ) (room : Nat) (rc : Rc) (ended : Bool) (data : Bytes)
    (cap : Nat) (w : σ) : Prop where
  after : x' = { x with
    session := { x.session with smRx := x.session.smRx ++ data, smRxCap := cap }, world := w }
  fits : data.length ≤ room
  appended : rc = .ok → ended = false → data ≠ []
  silent : ¬(rc = .ok ∧ ended = false) → data = []
  code : rc = .ok ∨ rc = .errProtocol ∨ rc = .errIo ∨ rc = .errMemory ∨ rc.isWant = true

theorem ReadSpec.quiet {x : Exchange σ} {room : Nat} {rc : Rc} {ended : Bool} (w : σ)
    (stopped : ¬(rc = .ok ∧ ended = false))
    (code : rc = .ok ∨ rc = .errProtocol ∨ rc = .errIo ∨ rc = .errMemory ∨ rc.isWant = true) :
    ReadSpec x { x with world := w } room rc ended [] x.session.smRxCap w where
  after := by simp
  fits := Nat.zero_le _
  appended ok running := absurd ⟨ok, running⟩ stopped
  silent _ := rfl
  code := code

theorem takeRead_spec {x : Exchange σ} {w : σ} {room : Nat} {probing : Bool} {data : Bytes}
    (fits : data.length ≤ room) {rc : Rc} {ended : Bool} {x' : Exchange σ}
    (run : takeRead { x with world := w } probing data = (rc, ended, x')) :
    ∃ data', ReadSpec x x' room rc ended data' x.session.smRxCap w ∧
      (probing = true → data' = []) := by
  simp only [takeRead] at run
  split at run
  · cases run
    exact ⟨[], .quiet w (by simp) (.inl rfl), fun _ => rfl⟩
  · rename_i nonempty
    split at run
    · cases run
      exact ⟨[], .quiet w (by simp) (.inr (.inl rfl)), fun _ => rfl⟩
    · rename_i appending
      cases run
      exact ⟨data, ⟨rfl, fits, fun _ _ => nonempty, fun stopped => absurd ⟨rfl, rfl⟩ stopped,
        .inl rfl⟩, fun probe => absurd probe appending⟩

theorem nbReceive_spec {x x' : Exchange σ} {room : Nat} {probing : Bool} {rc : Rc} {ended : Bool}
    (run : nbReceive env x room probing = (rc, ended, x')) :
    ∃ data w, ReadSpec x x' room rc ended data x.session.smRxCap w ∧
      (probing = true → data = []) := by
  simp only [nbReceive] at run
  split at run
  · split at run
    · obtain ⟨data, spec⟩ := takeRead_spec (List.length_take_le _ _) run
      exact ⟨data, _, spec⟩
    · cases run
      exact ⟨[], _, .quiet _ (by simp) (by simp), fun _ => rfl⟩
    · cases run
      exact ⟨[], _, .quiet _ (by simp) (by simp), fun _ => rfl⟩
    · cases run
      exact ⟨[], _, .quiet _ (by simp) (by simp), fun _ => rfl⟩
    · cases run
      exact ⟨[], _, .quiet _ (by simp) (by simp), fun _ => rfl⟩
  · split at run
    · split at run
      · cases run
        exact ⟨[], _, .quiet _ (by simp) (by simp), fun _ => rfl⟩
      · obtain ⟨data, spec⟩ := takeRead_spec (Nat.le_of_not_gt ‹_›) run
        exact ⟨data, _, spec⟩
    · cases run
      exact ⟨[], _, .quiet _ (by simp) (by simp), fun _ => rfl⟩
    · cases run
      refine ⟨[], _, .quiet _ ?_ ?_, fun _ => rfl⟩
      · rintro ⟨ok, -⟩
        split at ok
        · simp_all [Rc.isWant]
        · cases ok
      · split <;> simp_all

theorem nbReadSome_spec {x x' : Exchange σ} {limit : Nat} {rc : Rc} {ended : Bool}
    (run : nbReadSome env x limit = some (rc, ended, x')) :
    ∃ data cap w, ReadSpec x x' (limit - x.session.smRx.length) rc ended data cap w := by
  simp only [nbReadSome] at run
  split at run
  · cases run
    exact ⟨[], _, _, .quiet x.world (by simp) (by simp)⟩
  · split at run
    · simp only [Option.some.injEq] at run
      obtain ⟨data, w, spec, probe⟩ := nbReceive_spec run
      refine ⟨data, _, w, spec.after, ?_, spec.appended, spec.silent, spec.code⟩
      simp [probe rfl]
    · split at run
      · cases run
      · rename_i reserved
        obtain ⟨cap, w, rfl, -⟩ := nbRxReserve_spec reserved
        simp only [Option.some.injEq] at run
        obtain ⟨data, w', spec, -⟩ := nbReceive_spec run
        refine ⟨data, cap, w', spec.after, ?_, spec.appended, spec.silent, spec.code⟩
        exact Nat.le_trans spec.fits (Nat.min_le_left _ _)
      · rename_i failed reserved
        obtain ⟨cap, w, rfl, code⟩ := nbRxReserve_spec reserved
        cases run
        refine ⟨[], cap, w, by simp, by simp, ?_, fun _ => rfl, ?_⟩
        · rintro rfl -
          exact (failed rfl).elim
        · rcases code with rfl | rfl | rfl <;> simp

/-- An observation of the world that no allocation changes. -/
def Env.AllocKeeps {β : Type} (env : Env σ) (f : σ → β) : Prop :=
  ∀ w size, f (env.alloc w size).2 = f w

theorem Env.AllocKeeps.result {β : Type} {f : σ → β} (keeps : env.AllocKeeps f) {w w' : σ}
    {size : Nat} {granted : Bool} (allocated : env.alloc w size = (granted, w')) : f w' = f w := by
  rw [← keeps w size, allocated]

theorem nbRxReserve_keeps {β : Type} {f : σ → β} (keeps : env.AllocKeeps f) {x x' : Exchange σ}
    {need : Nat} {rc : Rc} (run : nbRxReserve env x need = some (rc, x')) :
    f x'.world = f x.world := by
  simp only [nbRxReserve] at run
  repeat' split at run
  all_goals cases run
  all_goals first | rfl | exact keeps.result ‹_›

theorem findHeaderCopy_keeps {β : Type} {f : σ → β} (keeps : env.AllocKeeps f) (w : σ)
    (hdrs : Bytes) (name : String) : f (findHeaderCopy env w hdrs name).2 = f w := by
  simp only [findHeaderCopy, Env.withAlloc]
  split
  · rfl
  · split <;> exact keeps.result ‹_›

theorem inspectFinal_keeps {β : Type} {f : σ → β} (keeps : env.AllocKeeps f) (w : σ)
    (s : HttpSession) (hdrs : Bytes) : f (inspectFinal env w s hdrs).2 = f w := by
  have framed : f (replyLength env w s hdrs).2 = f w := by
    simp only [replyLength]
    split
    · rfl
    · exact (findHeaderCopy_keeps keeps _ _ _).trans (findHeaderCopy_keeps keeps _ _ _)
  simp only [inspectFinal]
  split
  · exact framed
  · exact (findHeaderCopy_keeps keeps _ _ _).trans
      ((findHeaderCopy_keeps keeps _ _ _).trans framed)

theorem inspectHeaders_keeps {β : Type} {f : σ → β} (keeps : env.AllocKeeps f) {x x' : Exchange σ}
    {rc : Rc} (run : inspectHeaders env x = (rc, x')) : f x'.world = f x.world := by
  simp only [inspectHeaders] at run
  split at run
  · rename_i allocated
    cases run
    exact keeps.result allocated
  · rename_i w allocated
    have same : f w = f x.world := keeps.result allocated
    repeat' split at run
    all_goals cases run
    · exact same
    · exact same
    · exact same
    · exact (inspectFinal_keeps keeps _ _ _).trans same

/-- What a session keeps from the start of a request to its end. -/
structure Held where
  ssl : Bool
  ioTimeoutMs : Int
  base : Url
  maxBody : Nat
  keepAlive : Bool
  smHeadRequest : Bool
  smBody : Bytes
  smResp : Option Nat
deriving DecidableEq

def HttpSession.held (s : HttpSession) : Held where
  ssl := s.ssl
  ioTimeoutMs := s.ioTimeoutMs
  base := s.base
  maxBody := s.maxBody
  keepAlive := s.keepAlive
  smHeadRequest := s.smHeadRequest
  smBody := s.smBody
  smResp := s.smResp

/-- How far a request has come. -/
def SmState.rank : SmState → Nat
  | .handshake => 0
  | .writeHead => 1
  | .writeBody => 2
  | .readHead => 3
  | .readBodyCl | .readBodyEof | .readBodyChunked => 4
  | .done => 5
  | .idle => 6

/-- A turn that does not end the exchange: the held part stays, and only a turn that publishes the
response writes to it or closes the session. -/
structure Turn (x x' : Exchange σ) (rc : Rc) : Prop where
  held : x'.session.held = x.session.held
  forward : x.session.smState.rank ≤ x'.session.smState.rank
  busy : x'.session.smState ≠ .idle
  pending : x'.session.smState ≠ .done → x'.session.closed = x.session.closed ∧ x'.resp = x.resp
  published : x'.session.smState = .done → rc = .ok ∧ x'.session.smContentType = none

theorem readThrough_turn {x x' : Exchange σ} {limit : Nat} {rc : Rc}
    (busy : x.session.smState ≠ .idle) (unpublished : x.session.smState ≠ .done)
    (run : (nbReadSome env x limit).map readThrough = some (rc, x')) : Turn x x' rc := by
  obtain ⟨⟨rc', ended, y⟩, read, through⟩ := Option.map_eq_some_iff.mp run
  obtain ⟨data, cap, w, spec⟩ := nbReadSome_spec read
  obtain rfl : y = x' := congrArg Prod.snd through
  cases spec.after
  exact ⟨rfl, Nat.le_refl _, busy, fun _ => ⟨rfl, rfl⟩,
    fun published => absurd published unpublished⟩

theorem smDeliver_turn {x y : Exchange σ} (held : y.session.held = x.session.held)
    (state : x.session.smState.rank ≤ 5) (bodyLen : Nat) : Turn x (smDeliver y bodyLen) .ok := by
  have kept : (smDeliver y bodyLen).session.held = y.session.held := by
    by_cases empty : bodyLen = 0 <;>
      simp [smDeliver, smTakeBody, smPublish, HttpSession.held, empty]
  refine ⟨kept.trans held, state, ?_, ?_, ?_⟩ <;> simp [smDeliver, smPublish]

theorem acceptHead_eq (s : HttpSession) (chunked : Bool) (length : Int) (type : Option Bytes)
    (seconds : Int) :
    ∃ scan state, acceptHead s chunked length type seconds =
        { s with
          smContentLength := length, smContentType := type, smRetryAfterSec := seconds
          smScan := scan, smState := state } ∧
      (state = .readBodyCl ∨ state = .readBodyEof ∨ state = .readBodyChunked) := by
  simp only [acceptHead, chooseBody]
  split
  · exact ⟨_, _, rfl, .inr (.inr rfl)⟩
  · split
    · exact ⟨s.smScan, _, rfl, .inl rfl⟩
    · exact ⟨s.smScan, _, rfl, .inr (.inl rfl)⟩

/-- The header fields a response sets, and the state that reads its body. -/
theorem inspectFinal_spec {w w' : σ} {s s' : HttpSession} {hdrs : Bytes} {rc : Rc}
    (run : inspectFinal env w s hdrs = ((rc, s'), w')) :
    ∃ length type seconds scan state,
      s' = { s with
        smContentLength := length, smContentType := type, smRetryAfterSec := seconds
        smScan := scan, smState := state } ∧
      (rc = .ok ∧ (state = .readBodyCl ∨ state = .readBodyEof ∨ state = .readBodyChunked) ∨
        rc = .errProtocol ∧ state = s.smState) := by
  simp only [inspectFinal] at run
  split at run
  · cases run
    exact ⟨_, _, _, _, _, rfl, .inr ⟨rfl, rfl⟩⟩
  · cases run
    obtain ⟨scan, state, accepted, known⟩ := acceptHead_eq s _ _ _ _
    exact ⟨_, _, _, scan, state, accepted, .inl ⟨rfl, known⟩⟩

theorem inspectFinal_status (env : Env σ) (w : σ) (s : HttpSession) (hdrs : Bytes) :
    (inspectFinal env w s hdrs).1.2.smStatus = s.smStatus := by
  generalize inspected : inspectFinal env w s hdrs = result
  obtain ⟨⟨rc, s'⟩, w'⟩ := result
  obtain ⟨length, type, seconds, scan, state, rfl, -⟩ := inspectFinal_spec inspected
  rfl

theorem inspectHeaders_spec {x x' : Exchange σ} {rc : Rc}
    (run : inspectHeaders env x = (rc, x')) :
    ∃ status length type seconds scan state w,
      x' = { x with
        session := { x.session with
          smStatus := status, smContentLength := length, smContentType := type
          smRetryAfterSec := seconds, smScan := scan, smState := state }
        world := w } ∧
      (rc ≠ .ok ∧ rc.isWant = false ∧ state = x.session.smState ∨
        rc = .ok ∧ statusIsInterim status = true ∧ state = x.session.smState ∨
        rc = .ok ∧ statusIsInterim status = false ∧
          (state = .readBodyCl ∨ state = .readBodyEof ∨ state = .readBodyChunked)) := by
  simp only [inspectHeaders] at run
  split at run
  · cases run
    exact ⟨_, _, _, _, _, _, _, rfl, .inl (by simp [Rc.isWant])⟩
  · split at run
    · cases run
      exact ⟨_, _, _, _, _, _, _, rfl, .inl (by simp [Rc.isWant])⟩
    · rename_i status _
      split at run
      · cases run
        exact ⟨status, _, _, _, _, _, _, rfl, .inl (by simp [Rc.isWant])⟩
      · split at run
        · rename_i interim
          cases run
          exact ⟨status, _, _, _, _, _, _, rfl, .inr (.inl ⟨rfl, interim, rfl⟩)⟩
        · rename_i final
          generalize inspected : inspectFinal env _ _ _ = result at run
          obtain ⟨⟨rc', s'⟩, w'⟩ := result
          cases run
          obtain ⟨length, type, seconds, scan, state, rfl, outcome⟩ := inspectFinal_spec inspected
          refine ⟨status, length, type, seconds, scan, state, w', rfl, ?_⟩
          rcases outcome with ⟨ok, known⟩ | ⟨failed, same⟩
          · exact .inr (.inr ⟨ok, by simpa using final, known⟩)
          · exact .inl ⟨by simp [failed], by simp [failed, Rc.isWant], same⟩

theorem inspectHeaders_final {x x' : Exchange σ} {rc : Rc}
    (run : inspectHeaders env x = (rc, x')) : rc.isWant = false := by
  obtain ⟨_, _, _, _, _, _, _, -, outcome⟩ := inspectHeaders_spec run
  rcases outcome with ⟨-, final, -⟩ | ⟨rfl, -⟩ | ⟨rfl, -⟩
  · exact final
  · rfl
  · rfl

/-- A turn that changed nothing the response or the held part depends on. -/
theorem Turn.of_quiet {x x' : Exchange σ} {rc : Rc} (held : x'.session.held = x.session.held)
    (forward : x.session.smState.rank ≤ x'.session.smState.rank)
    (busy : x'.session.smState ≠ .idle) (unpublished : x'.session.smState ≠ .done)
    (closed : x'.session.closed = x.session.closed) (resp : x'.resp = x.resp) : Turn x x' rc :=
  ⟨held, forward, busy, fun _ => ⟨closed, resp⟩, fun published => absurd published unpublished⟩

theorem smHandshake_turn {x x' : Exchange σ} {rc : Rc} (state : x.session.smState = .handshake)
    (run : smHandshake env x = (rc, x')) : Turn x x' rc := by
  simp only [smHandshake] at run
  split at run <;> cases run <;>
    exact .of_quiet rfl (by simp [state, SmState.rank]) (by simp [state]) (by simp [state]) rfl rfl

theorem smWriteHead_turn {x x' : Exchange σ} {rc : Rc} (state : x.session.smState = .writeHead)
    (run : smWriteHead env x = (rc, x')) : Turn x x' rc := by
  simp only [smWriteHead] at run
  split at run
  · cases run
    refine .of_quiet rfl ?_ ?_ ?_ rfl rfl <;> dsimp only <;> split <;> simp [state, SmState.rank]
  · cases run
    exact .of_quiet rfl (by simp [state, SmState.rank]) (by simp [state]) (by simp [state]) rfl rfl

theorem smWriteBody_turn {x x' : Exchange σ} {rc : Rc} (state : x.session.smState = .writeBody)
    (run : smWriteBody env x = (rc, x')) : Turn x x' rc := by
  simp only [smWriteBody] at run
  split at run <;> cases run <;>
    exact .of_quiet rfl (by simp [state, SmState.rank]) (by simp [state]) (by simp [state]) rfl rfl

theorem smDropInterim_turn {x x' : Exchange σ} {rc : Rc} (busy : x.session.smState ≠ .idle)
    (unpublished : x.session.smState ≠ .done) (run : smDropInterim x = (rc, x')) :
    Turn x x' rc := by
  simp only [smDropInterim] at run
  split at run <;> cases run <;> exact .of_quiet rfl (Nat.le_refl _) busy unpublished rfl rfl

theorem Turn.trans_quiet {x y x' : Exchange σ} {rc : Rc} (turn : Turn y x' rc)
    (held : y.session.held = x.session.held)
    (forward : x.session.smState.rank ≤ y.session.smState.rank)
    (closed : y.session.closed = x.session.closed) (resp : y.resp = x.resp) : Turn x x' rc where
  held := turn.held.trans held
  forward := Nat.le_trans forward turn.forward
  busy := turn.busy
  pending unpublished :=
    ⟨(turn.pending unpublished).1.trans closed, (turn.pending unpublished).2.trans resp⟩
  published := turn.published

theorem smReadHead_turn {x x' : Exchange σ} {rc : Rc} (state : x.session.smState = .readHead)
    (run : smReadHead env x = some (rc, x')) : Turn x x' rc := by
  simp only [smReadHead] at run
  split at run
  · split at run
    · cases run
      exact .of_quiet rfl (by simp [state, SmState.rank]) (by simp [state]) (by simp [state]) rfl rfl
    · exact (readThrough_turn (by simp [state]) (by simp [state]) run).trans_quiet rfl (Nat.le_refl _) rfl rfl
  · split at run
    · rename_i y inspected
      obtain ⟨status, length, type, seconds, scan, next, w, rfl, outcome⟩ :=
        inspectHeaders_spec inspected
      have known : next ≠ .idle ∧ next ≠ .done ∧ SmState.readHead.rank ≤ next.rank := by
        rcases outcome with ⟨failed, -⟩ | ⟨-, -, same⟩ | ⟨-, -, rfl | rfl | rfl⟩
        · exact absurd rfl failed
        · simp [same, state]
        all_goals simp [SmState.rank]
      rw [← state] at known
      split at run
      · simp only [Option.some.injEq] at run
        exact (smDropInterim_turn known.1 known.2.1 run).trans_quiet rfl known.2.2 rfl rfl
      · cases run
        exact .of_quiet rfl known.2.2 known.1 known.2.1 rfl rfl
    · rename_i rc' y failed inspected
      obtain ⟨status, length, type, seconds, scan, next, w, rfl, outcome⟩ :=
        inspectHeaders_spec inspected
      cases run
      rcases outcome with ⟨-, -, same⟩ | ⟨ok, -⟩ | ⟨ok, -⟩
      · exact .of_quiet rfl (by simp [same]) (by simp [same, state]) (by simp [same, state]) rfl rfl
      · exact (failed ok).elim
      · exact (failed ok).elim

theorem smReadBodyCl_turn {x x' : Exchange σ} {rc : Rc} (state : x.session.smState = .readBodyCl)
    (run : smReadBodyCl env x = some (rc, x')) : Turn x x' rc := by
  simp only [smReadBodyCl] at run
  split at run
  · split at run
    · split at run
      · cases run
        exact .of_quiet rfl (by simp [state, SmState.rank]) (by simp [state]) (by simp [state]) rfl rfl
      · exact (readThrough_turn (by simp [state]) (by simp [state]) run).trans_quiet rfl (Nat.le_refl _) rfl rfl
    · exact readThrough_turn (by simp [state]) (by simp [state]) run
  · cases run
    refine smDeliver_turn ?_ (by simp [state, SmState.rank]) _
    dsimp only
    split <;> rfl

theorem smReadBodyChunked_turn {x x' : Exchange σ} {rc : Rc}
    (state : x.session.smState = .readBodyChunked)
    (run : smReadBodyChunked env x = some (rc, x')) : Turn x x' rc := by
  simp only [smReadBodyChunked] at run
  split at run
  · cases run
    exact .of_quiet rfl (by simp [state, SmState.rank]) (by simp [state]) (by simp [state]) rfl rfl
  · exact (readThrough_turn (by simp [state]) (by simp [state]) run).trans_quiet rfl (Nat.le_refl _) rfl rfl
  · split at run
    · cases run
      exact .of_quiet rfl (by simp [state, SmState.rank]) (by simp [state]) (by simp [state]) rfl rfl
    · cases run
      refine smDeliver_turn ?_ (by simp [state, SmState.rank]) _
      dsimp only
      split <;> rfl

theorem smReadBodyEof_turn {x x' : Exchange σ} {rc : Rc} (state : x.session.smState = .readBodyEof)
    (run : smReadBodyEof env x = some (rc, x')) : Turn x x' rc := by
  simp only [smReadBodyEof] at run
  split at run
  · cases run
  · rename_i y read
    obtain ⟨data, cap, w, spec⟩ := nbReadSome_spec read
    cases spec.after
    cases run
    have delivered := smDeliver_turn (x := x) (y := { x with
        session := { x.session with smRx := x.session.smRx ++ data, smRxCap := cap }, world := w })
      rfl (by simp [state, SmState.rank]) ((x.session.smRx ++ data).length - x.session.smHdrEnd)
    refine ⟨delivered.held, delivered.forward, delivered.busy, ?_, ?_⟩ <;> simp [smDeliver, smPublish]
  · rename_i rc' ended y stopped read
    obtain ⟨data, cap, w, spec⟩ := nbReadSome_spec read
    cases spec.after
    cases run
    exact .of_quiet rfl (by simp [state, SmState.rank]) (by simp [state]) (by simp [state]) rfl rfl

/-- Every state but the first and the last is left by a turn in the sense of `Turn`. -/
theorem smStep_turn {x x' : Exchange σ} {rc : Rc} (busy : x.session.smState ≠ .idle)
    (unpublished : x.session.smState ≠ .done) (run : smStep env x = some (rc, x')) :
    Turn x x' rc := by
  cases state : x.session.smState <;> simp only [smStep, state, Option.some.injEq] at run
  case idle => exact absurd state busy
  case done => exact absurd state unpublished
  case handshake => exact smHandshake_turn state run
  case writeHead => exact smWriteHead_turn state run
  case writeBody => exact smWriteBody_turn state run
  case readHead => exact smReadHead_turn state run
  case readBodyCl => exact smReadBodyCl_turn state run
  case readBodyEof => exact smReadBodyEof_turn state run
  case readBodyChunked => exact smReadBodyChunked_turn state run

end WolfCert.Http
