import Mathlib.Tactic.SplitIfs
import WolfCert.Http.Transmission

/-!
# Requests after the first

What an earlier exchange leaves in the session: the four fields `sm_done` does not clear and `sm_begin`
does not set. They are overwritten before they are read.
-/

namespace WolfCert.Http

open WolfCert.CLib

variable {σ : Type} {env : Env σ}

structure Leftover where
  scan : ChunkScan
  contentLength : Int
  status : Int
  retryAfterSec : Int

def HttpSession.leftover (s : HttpSession) : Leftover where
  scan := s.smScan
  contentLength := s.smContentLength
  status := s.smStatus
  retryAfterSec := s.smRetryAfterSec

def HttpSession.leave (l : Leftover) (s : HttpSession) : HttpSession :=
  { s with
    smScan := l.scan, smContentLength := l.contentLength, smStatus := l.status
    smRetryAfterSec := l.retryAfterSec }

/-- The exchange with its leftover fields replaced. -/
def Exchange.leave (l : Leftover) (x : Exchange σ) : Exchange σ :=
  { x with session := x.session.leave l }

theorem Exchange.leave_self (x : Exchange σ) : x.leave x.session.leftover = x := rfl

/-- The leftover fields that the coming turns read already agree. -/
def Harmless (s : HttpSession) (l : Leftover) : Prop :=
  match s.smState with
  | .handshake | .writeHead | .writeBody | .readHead => True
  | .readBodyChunked => l = s.leftover
  | .readBodyCl | .readBodyEof | .done | .idle => ∃ scan, l = { s.leftover with scan }

theorem nbRxReserve_leave (l : Leftover) (x : Exchange σ) (need : Nat) :
    nbRxReserve env (x.leave l) need =
      (nbRxReserve env x need).map fun r => (r.1, r.2.leave l) := by
  dsimp only [nbRxReserve, Exchange.leave, HttpSession.leave]
  split_ifs
  · rfl
  · rfl
  all_goals
    cases growCap (sizeAdd x.session.smRx.length need) 64 _ with
    | none => rfl
    | some nc =>
        dsimp only
        generalize env.alloc x.world _ = allocated
        obtain ⟨granted, w⟩ := allocated
        cases granted <;> rfl

/-- The result of a read with the leftover fields of its exchange replaced. -/
def ReadSome.leave (l : Leftover) (r : ReadSome σ) : ReadSome σ := (r.1, r.2.1, r.2.2.leave l)

theorem takeRead_leave (l : Leftover) (x : Exchange σ) (w : σ) (probing : Bool) (data : Bytes) :
    takeRead { x.leave l with world := w } probing data =
      ReadSome.leave l (takeRead { x with world := w } probing data) := by
  dsimp only [takeRead]
  split_ifs <;> rfl

theorem nbReceive_leave (l : Leftover) (x : Exchange σ) (room : Nat) (probing : Bool) :
    nbReceive env (x.leave l) room probing = ReadSome.leave l (nbReceive env x room probing) := by
  have ssl : (x.leave l).session.ssl = x.session.ssl := rfl
  have timeout : (x.leave l).session.ioTimeoutMs = x.session.ioTimeoutMs := rfl
  have world : (x.leave l).world = x.world := rfl
  simp only [nbReceive, ssl, timeout, world, takeRead_leave]
  by_cases tls : x.session.ssl = true
  · simp only [if_pos tls]
    generalize env.sslRead x.world room x.session.ioTimeoutMs = received
    obtain ⟨result, w⟩ := received
    cases result with
    | bytes data => rfl
    | error e => cases e <;> rfl
  · simp only [if_neg tls]
    generalize env.read x.world room x.session.ioTimeoutMs = received
    obtain ⟨result, w⟩ := received
    cases result with
    | bytes data => dsimp only; split_ifs <;> rfl
    | code rc => cases rc <;> rfl

theorem nbReadSome_leave (l : Leftover) (x : Exchange σ) (limit : Nat) :
    nbReadSome env (x.leave l) limit =
      (nbReadSome env x limit).map (ReadSome.leave l) := by
  have rx : (x.leave l).session.smRx = x.session.smRx := rfl
  simp only [nbReadSome, nbRxReserve_leave, nbReceive_leave, rx]
  split_ifs
  · rfl
  · rfl
  · cases nbRxReserve env x _ with
    | none => rfl
    | some result =>
        obtain ⟨rc, y⟩ := result
        cases rc <;> simp [nbReceive_leave, ReadSome.leave]

/-- Two runs that differ in leftover fields at most, harmlessly while the request goes on. -/
inductive Alike : Option (Rc × Exchange σ) → Option (Rc × Exchange σ) → Prop where
  | hangs : Alike none none
  | returns {rc : Rc} {x : Exchange σ} (l : Leftover)
      (harmless : rc = .ok ∨ rc.isWant = true → Harmless x.session l) :
      Alike (some (rc, x)) (some (rc, x.leave l))

theorem Harmless.self (s : HttpSession) : Harmless s s.leftover := by
  cases state : s.smState <;> simp only [Harmless, state] <;> exact ⟨s.smScan, rfl⟩

theorem Alike.refl : (result : Option (Rc × Exchange σ)) → Alike result result
  | none => .hangs
  | some (_, x) => .returns x.session.leftover fun _ => .self x.session

theorem readThrough_alike {x : Exchange σ} {l : Leftover} (harmless : Harmless x.session l)
    (limit : Nat) :
    Alike ((nbReadSome env x limit).map readThrough)
      ((nbReadSome env (x.leave l) limit).map readThrough) := by
  rw [nbReadSome_leave]
  cases read : nbReadSome env x limit with
  | none => exact .hangs
  | some result =>
      obtain ⟨rc, ended, y⟩ := result
      obtain ⟨data, cap, w, spec⟩ := nbReadSome_spec read
      cases spec.after
      exact .returns l fun _ => harmless

theorem smHandshake_alike {x : Exchange σ} (state : x.session.smState = .handshake)
    (l : Leftover) : Alike (some (smHandshake env x)) (some (smHandshake env (x.leave l))) := by
  have same : smHandshake env (x.leave l) =
      ((smHandshake env x).1, (smHandshake env x).2.leave l) := by
    dsimp only [smHandshake, Exchange.leave, HttpSession.leave]
    generalize env.sslConnect x.world x.session.ioTimeoutMs = connected
    obtain ⟨result, w⟩ := connected
    cases result with
    | success => rfl
    | error e => cases e <;> rfl
  rw [same]
  refine .returns l fun _ => ?_
  split <;> simp [Harmless, state]

theorem smWriteHead_alike {x : Exchange σ} (state : x.session.smState = .writeHead)
    (l : Leftover) : Alike (some (smWriteHead env x)) (some (smWriteHead env (x.leave l))) := by
  have same : smWriteHead env (x.leave l) =
      ((smWriteHead env x).1, (smWriteHead env x).2.leave l) := by
    have written : nbWrite env (x.leave l).session (x.leave l).session.smHead (x.leave l).world =
        nbWrite env x.session x.session.smHead x.world := rfl
    simp only [smWriteHead, written]
    generalize nbWrite env x.session x.session.smHead x.world = result
    obtain ⟨rc, off, w⟩ := result
    cases rc <;> rfl
  rw [same]
  refine .returns l fun _ => ?_
  split
  · by_cases pending : 0 < x.session.smBody.length <;> simp [Harmless, pending]
  · simp [Harmless, state]

theorem smWriteBody_alike {x : Exchange σ} (state : x.session.smState = .writeBody)
    (l : Leftover) : Alike (some (smWriteBody env x)) (some (smWriteBody env (x.leave l))) := by
  have same : smWriteBody env (x.leave l) =
      ((smWriteBody env x).1, (smWriteBody env x).2.leave l) := by
    have written : nbWrite env (x.leave l).session (x.leave l).session.smBody (x.leave l).world =
        nbWrite env x.session x.session.smBody x.world := rfl
    simp only [smWriteBody, written]
    generalize nbWrite env x.session x.session.smBody x.world = result
    obtain ⟨rc, off, w⟩ := result
    cases rc <;> rfl
  rw [same]
  refine .returns l fun _ => ?_
  split <;> simp [Harmless, state]

theorem acceptHead_leave {s : HttpSession} {l : Leftover} (status : l.status = s.smStatus)
    (chunked : Bool) (length : Int) (type : Option Bytes) (seconds : Int) :
    ∃ l', acceptHead (s.leave l) chunked length type seconds =
        (acceptHead s chunked length type seconds).leave l' ∧
      l'.status = s.smStatus ∧ Harmless (acceptHead s chunked length type seconds) l' := by
  cases chunked with
  | true =>
      exact ⟨⟨.start s.maxBody, length, l.status, seconds⟩, rfl, status, by rw [status]; rfl⟩
  | false =>
      refine ⟨⟨l.scan, length, l.status, seconds⟩, ?_, status, ?_⟩
      · by_cases known : length ≥ 0 <;> simp [acceptHead, chooseBody, known, HttpSession.leave]
      · by_cases known : length ≥ 0 <;> simp only [acceptHead, chooseBody, known, Harmless] <;>
          exact ⟨l.scan, by simp [HttpSession.leftover, status]⟩

theorem inspectFinal_leave (env : Env σ) (w : σ) (s : HttpSession) (l : Leftover) (hdrs : Bytes)
    (status : l.status = s.smStatus) :
    ∃ l', inspectFinal env w (s.leave l) hdrs =
        (((inspectFinal env w s hdrs).1.1, (inspectFinal env w s hdrs).1.2.leave l'),
          (inspectFinal env w s hdrs).2) ∧
      l'.status = s.smStatus ∧
      ((inspectFinal env w s hdrs).1.1 = .ok → Harmless (inspectFinal env w s hdrs).1.2 l') := by
  have framed : replyLength env w (s.leave l) hdrs = replyLength env w s hdrs := by
    simp only [replyLength, HttpSession.leave, status]
  have sized : (s.leave l).maxBody = s.maxBody := rfl
  simp only [inspectFinal, framed, sized]
  generalize replyLength env w s hdrs = reply
  obtain ⟨⟨chunked, length⟩, w'⟩ := reply
  by_cases above : length ≥ 0 ∧ length.toNat > s.maxBody
  · simp only [if_pos above]
    exact ⟨{ l with contentLength := length }, rfl, status, by simp⟩
  · simp only [if_neg above]
    obtain ⟨l', accepted, status', harmless⟩ := acceptHead_leave status chunked length _ _
    exact ⟨l', by rw [accepted], status', fun _ => harmless⟩

theorem inspectHeaders_leave (env : Env σ) {x : Exchange σ} (l : Leftover)
    (state : x.session.smState = .readHead) :
    ∃ l', inspectHeaders env (x.leave l) =
        ((inspectHeaders env x).1, (inspectHeaders env x).2.leave l') ∧
      ((inspectHeaders env x).1 = .ok →
        l'.status = (inspectHeaders env x).2.session.smStatus ∧
          Harmless (inspectHeaders env x).2.session l') := by
  have hdrEnd : (x.leave l).session.smHdrEnd = x.session.smHdrEnd := rfl
  have rx : (x.leave l).session.smRx = x.session.smRx := rfl
  have world : (x.leave l).world = x.world := rfl
  simp only [inspectHeaders, hdrEnd, rx, world]
  generalize env.alloc x.world (x.session.smHdrEnd + 1) = allocated
  obtain ⟨granted, w⟩ := allocated
  cases granted with
  | false => exact ⟨l, rfl, by simp⟩
  | true =>
      dsimp only
      cases parseStatusLine (cString (x.session.smRx.take x.session.smHdrEnd)) with
      | none => exact ⟨l, rfl, by simp⟩
      | some status =>
          dsimp only
          by_cases switching : status = 101
          · simp only [if_pos switching]
            exact ⟨{ l with status := 101 }, by rw [switching]; rfl, by simp⟩
          · simp only [if_neg switching]
            by_cases interim : statusIsInterim status = true
            · simp only [if_pos interim]
              exact ⟨{ l with status }, rfl, by simp [Harmless, state]⟩
            · simp only [if_neg interim]
              generalize cString (x.session.smRx.take x.session.smHdrEnd) = hdrs
              obtain ⟨l', same, status', harmless⟩ :=
                inspectFinal_leave env w { x.session with smStatus := status } { l with status } hdrs rfl
              have stored := inspectFinal_status env w { x.session with smStatus := status } hdrs
              refine ⟨l', ?_, fun ok => ⟨status'.trans stored.symm, harmless ok⟩⟩
              exact congrArg (fun result : (Rc × HttpSession) × σ =>
                (result.1.1, (⟨result.1.2, x.resp, result.2⟩ : Exchange σ))) same

/-- How reading the head goes on after the headers were inspected. -/
def afterHead : Rc × Exchange σ → Option (Rc × Exchange σ)
  | (.ok, x) => if statusIsInterim x.session.smStatus then some (smDropInterim x) else some (.ok, x)
  | (rc, x) => some (rc, x)

theorem smReadHead_alike {x : Exchange σ} (state : x.session.smState = .readHead) (l : Leftover) :
    Alike (smReadHead env x) (smReadHead env (x.leave l)) := by
  have scan : (x.leave l).session.smHdrScan = x.session.smHdrScan := rfl
  have rx : (x.leave l).session.smRx = x.session.smRx := rfl
  simp only [smReadHead, scan, rx]
  generalize headScan (x.session.smRx.drop x.session.smHdrScan) x.session.smHdrScan = i
  by_cases unfinished : i + 3 ≥ x.session.smRx.length
  · simp only [if_pos unfinished]
    by_cases above : x.session.smRx.length ≥ headerBudget
    · simp only [if_pos above]
      exact .returns l (by simp [Harmless, state])
    · simp only [if_neg above]
      exact readThrough_alike (x := { x with session := { x.session with smHdrScan := i } })
        (by simp [Harmless, state]) _
  · simp only [if_neg unfinished]
    obtain ⟨l', same, agree⟩ := inspectHeaders_leave env l
      (x := { x with session := { x.session with smHdrEnd := i + 4 } }) state
    change Alike _ (afterHead (inspectHeaders env (Exchange.leave l
      { x with session := { x.session with smHdrEnd := i + 4 } })))
    rw [same]
    clear same
    unfold afterHead
    generalize inspected :
      inspectHeaders env { x with session := { x.session with smHdrEnd := i + 4 } } = result at agree
    obtain ⟨rc, y⟩ := result
    have final := inspectHeaders_final inspected
    cases rc with
    | ok =>
        obtain ⟨status, harmless⟩ := agree rfl
        have status' : (y.leave l').session.smStatus = y.session.smStatus := status
        dsimp only
        rw [status']
        split_ifs
        · have interim : (y.leave l').session.smInterim = y.session.smInterim := rfl
          simp only [smDropInterim, interim]
          split_ifs <;> exact .returns l' fun _ => harmless
        · exact .returns l' fun _ => harmless
    | _ => exact .returns l' (by simp_all)

theorem smDeliver_leave (x : Exchange σ) (scan : ChunkScan) (bodyLen : Nat) :
    smDeliver (x.leave { x.session.leftover with scan }) bodyLen =
      (smDeliver x bodyLen).leave { (smDeliver x bodyLen).session.leftover with scan } := by
  by_cases empty : bodyLen = 0 <;>
    simp [smDeliver, smTakeBody, smPublish, empty, Exchange.leave, HttpSession.leave,
      HttpSession.leftover]

theorem smDeliver_alike (x : Exchange σ) (scan : ChunkScan) (bodyLen : Nat) :
    Alike (some (.ok, smDeliver x bodyLen))
      (some (.ok, smDeliver (x.leave { x.session.leftover with scan }) bodyLen)) := by
  rw [smDeliver_leave]
  exact .returns _ fun _ => ⟨scan, rfl⟩

theorem smReadBodyCl_alike {x : Exchange σ} {l : Leftover} (state : x.session.smState = .readBodyCl)
    (harmless : Harmless x.session l) : Alike (smReadBodyCl env x) (smReadBodyCl env (x.leave l)) := by
  obtain ⟨scan, rfl⟩ : ∃ scan, l = { x.session.leftover with scan } := by
    simpa only [Harmless, state] using harmless
  dsimp only [smReadBodyCl, Exchange.leave, HttpSession.leave, HttpSession.leftover]
  generalize sizeAdd x.session.smHdrEnd x.session.smContentLength.toNat = stop
  by_cases unfinished : x.session.smRx.length < stop
  · simp only [if_pos unfinished]
    by_cases small : x.session.smRxCap < stop
    · simp only [if_pos small]
      generalize env.alloc x.world stop = allocated
      obtain ⟨granted, w⟩ := allocated
      cases granted with
      | false => exact .returns { x.session.leftover with scan } fun _ => harmless
      | true =>
          exact readThrough_alike
            (x := { x with session := { x.session with smRxCap := stop }, world := w }) harmless stop
    · simp only [if_neg small]
      exact readThrough_alike harmless stop
  · simp only [if_neg unfinished]
    by_cases surplus : x.session.smRx.length > stop
    · simp only [if_pos surplus]
      exact smDeliver_alike { x with session := { x.session with closed := true } } scan _
    · simp only [if_neg surplus]
      exact smDeliver_alike x scan _

theorem smReadBodyEof_alike {x : Exchange σ} {l : Leftover} (state : x.session.smState = .readBodyEof)
    (harmless : Harmless x.session l) :
    Alike (smReadBodyEof env x) (smReadBodyEof env (x.leave l)) := by
  have hdrEnd : (x.leave l).session.smHdrEnd = x.session.smHdrEnd := rfl
  have maxBody : (x.leave l).session.maxBody = x.session.maxBody := rfl
  simp only [smReadBodyEof, hdrEnd, maxBody, nbReadSome_leave]
  cases read : nbReadSome env x (sizeAdd x.session.smHdrEnd x.session.maxBody) with
  | none => exact .hangs
  | some result =>
      obtain ⟨rc, ended, y⟩ := result
      obtain ⟨data, cap, w, spec⟩ := nbReadSome_spec read
      have kept : y.session.smState = .readBodyEof ∧ y.session.leftover = x.session.leftover := by
        rw [spec.after]
        exact ⟨state, rfl⟩
      obtain ⟨scan, rfl⟩ : ∃ scan, l = { y.session.leftover with scan } := by
        simpa only [Harmless, state, kept.2] using harmless
      have going : Harmless y.session { y.session.leftover with scan } := by
        simp only [Harmless, kept.1]
        exact ⟨scan, rfl⟩
      simp only [Option.map_some, ReadSome.leave]
      cases rc <;> cases ended
      case ok.true =>
        dsimp only
        rw [smDeliver_leave]
        exact .returns { (smDeliver y _).session.leftover with scan } (by exact fun _ => ⟨scan, rfl⟩)
      all_goals exact .returns _ fun _ => going

theorem smReadBodyChunked_alike {x : Exchange σ} {l : Leftover}
    (state : x.session.smState = .readBodyChunked) (harmless : Harmless x.session l) :
    Alike (smReadBodyChunked env x) (smReadBodyChunked env (x.leave l)) := by
  obtain rfl : l = x.session.leftover := by simpa only [Harmless, state] using harmless
  rw [Exchange.leave_self]
  exact .refl _

theorem smStep_alike {x : Exchange σ} {l : Leftover} (harmless : Harmless x.session l) :
    Alike (smStep env x) (smStep env (x.leave l)) := by
  have state : (x.leave l).session.smState = x.session.smState := rfl
  cases known : x.session.smState <;> simp only [smStep, state, known]
  case handshake => exact smHandshake_alike known l
  case writeHead => exact smWriteHead_alike known l
  case writeBody => exact smWriteBody_alike known l
  case readHead => exact smReadHead_alike known l
  case readBodyCl => exact smReadBodyCl_alike known harmless
  case readBodyEof => exact smReadBodyEof_alike known harmless
  case readBodyChunked => exact smReadBodyChunked_alike known harmless
  case done =>
    obtain ⟨scan, rfl⟩ : ∃ scan, l = { x.session.leftover with scan } := by
      simpa only [Harmless, known] using harmless
    exact .returns { x.session.leftover with scan } fun _ => ⟨scan, rfl⟩
  case idle => exact .returns l fun _ => harmless

theorem smLoop_alike {fuel : Nat} {x : Exchange σ} {l : Leftover} (harmless : Harmless x.session l) :
    Alike (smLoop env fuel x) (smLoop env fuel (x.leave l)) := by
  induction fuel generalizing x l with
  | zero => exact .hangs
  | succ fuel ih =>
      simp only [smLoop]
      have alike : Alike (smStep env x) (smStep env (x.leave l)) := smStep_alike harmless
      generalize smStep env x = stepped at alike
      generalize smStep env (x.leave l) = stepped' at alike
      cases alike with
      | hangs => exact .hangs
      | returns l' harmless' =>
          rename_i rc y
          have state : (y.leave l').session.smState = y.session.smState := rfl
          dsimp only
          rw [state]
          split_ifs with going
          · exact ih (harmless' (.inl going.1))
          · exact .returns l' harmless'

theorem smRun_alike {x : Exchange σ} {l : Leftover} (harmless : Harmless x.session l) :
    Alike (smRun env x) (smRun env (x.leave l)) := by
  have alike : Alike (smLoop env smFuel x) (smLoop env smFuel (x.leave l)) := smLoop_alike harmless
  simp only [smRun]
  generalize smLoop env smFuel x = looped at alike
  generalize smLoop env smFuel (x.leave l) = looped' at alike
  cases alike with
  | hangs => exact .hangs
  | returns l' harmless' =>
      rename_i rc y
      by_cases going : rc.isWant = true ∨ rc = .ok
      · simp only [Option.map_some, smSettle, if_pos going]
        exact .returns l' harmless'
      · simp only [Option.map_some, smSettle, if_neg going]
        exact .refl _

theorem refuseWant_alike {nb : Bool} {x : Exchange σ} {l : Leftover}
    (harmless : Harmless x.session l) :
    Alike ((smRun env x).map (refuseWant nb)) ((smRun env (x.leave l)).map (refuseWant nb)) := by
  have alike : Alike (smRun env x) (smRun env (x.leave l)) := smRun_alike harmless
  generalize smRun env x = ran at alike
  generalize smRun env (x.leave l) = ran' at alike
  cases alike with
  | hangs => exact .hangs
  | returns l' harmless' =>
      simp only [Option.map_some, refuseWant]
      split_ifs
      · exact .refl _
      · exact .returns l' harmless'

/-- What a caller sees of a request: the code, the response and the world. -/
def outcome (result : Option (Rc × Exchange σ)) : Option (Rc × HttpResponse × σ) :=
  result.map fun (rc, x) => (rc, x.resp, x.world)

theorem Alike.outcome {result result' : Option (Rc × Exchange σ)} (alike : Alike result result') :
    outcome result' = outcome result := by
  cases alike <;> rfl

theorem httpSessionCall_alike {x : Exchange σ} {l : Leftover} {req : HttpRequest} {resp : Nat}
    {nb : Bool} (inFlight : x.session.smResp ≠ none) (harmless : Harmless x.session l) :
    Alike (httpSessionCall env x req resp nb) (httpSessionCall env (x.leave l) req resp nb) := by
  have closed : (x.leave l).session.closed = x.session.closed := rfl
  have smResp : (x.leave l).session.smResp = x.session.smResp := rfl
  simp only [httpSessionCall, closed, smResp, if_neg inFlight]
  by_cases shut : x.session.closed = true
  · simp only [if_pos shut]
    exact .returns l fun _ => harmless
  · simp only [if_neg shut]
    by_cases refused : x.session.smResp ≠ none ∧ (nb = false ∨ x.session.smResp ≠ some resp)
    · simp only [if_pos refused]
      exact .returns l fun _ => harmless
    · simp only [if_neg refused]
      exact refuseWant_alike (x := x.timed nb) harmless

theorem drive_alike {x : Exchange σ} {l : Leftover} {req : HttpRequest} {resp : Nat} {nb : Bool}
    {rest : List Bool} (serving : x.session.Serving resp) (harmless : Harmless x.session l) :
    outcome (drive env req resp nb rest (x.leave l)) = outcome (drive env req resp nb rest x) := by
  have inFlight : x.session.smResp ≠ none := by simp [serving.resp]
  induction rest generalizing nb x l with
  | nil => exact (httpSessionCall_alike inFlight harmless).outcome
  | cons nb' rest ih =>
      have alike : Alike (httpSessionCall env x req resp nb) (httpSessionCall env (x.leave l) req resp nb) :=
        httpSessionCall_alike inFlight harmless
      simp only [drive]
      generalize called : httpSessionCall env x req resp nb = result at alike
      generalize httpSessionCall env (x.leave l) req resp nb = result' at alike
      cases alike with
      | hangs => rfl
      | returns l' harmless' =>
          rename_i rc y
          dsimp only
          split_ifs with want
          · cases httpSessionCall_outcome (.inr serving) called with
            | refused code => simp [code.2] at want
            | ran z _ _ _ outcome =>
                cases outcome with
                | waits _ serving' => exact ih serving' (harmless' (.inr want)) (by simp [serving'.resp])
                | finishes ok => simp [ok, Rc.isWant] at want
                | fails _ final => simp [final] at want
          · rfl

/-- A session between two requests, all of whose earlier ones ended well: like a new one but for
what the next request overwrites. -/
structure Reusable (base : Url) (maxBody : Nat) (s : HttpSession) : Prop where
  rested : s.Rested
  opened : s.closed = false
  ssl : s.ssl = base.tls
  base_eq : s.base = base
  maxBody_eq : s.maxBody = maxBody
  keepAlive : s.keepAlive = true

theorem Reusable.opened_plain {base : Url} (plain : base.tls = false) (maxBody : Nat) :
    Reusable base maxBody (.opened base maxBody) where
  rested := .opened_plain plain maxBody
  opened := rfl
  ssl := rfl
  base_eq := rfl
  maxBody_eq := rfl
  keepAlive := rfl

/-- Holding a request makes a reused session differ from a new one in leftover fields only. -/
theorem Reusable.hold {base : Url} {maxBody : Nat} {s : HttpSession} (plain : base.tls = false)
    (reusable : Reusable base maxBody s) (req : HttpRequest) (head : Bytes) (resp : Nat)
    (timeout : Int) :
    smHold { s with ioTimeoutMs := timeout } req head resp =
      (smHold { HttpSession.opened base maxBody with ioTimeoutMs := timeout } req head resp).leave
        s.leftover := by
  obtain ⟨⟨smHead, rx, cap, hdrEnd, hdrScan, type, -, state⟩, closed, ssl, rfl, rfl, keepAlive⟩ :=
    reusable
  simp [smHold, HttpSession.opened, HttpSession.leave, HttpSession.leftover, state, rx, cap, hdrEnd,
    hdrScan, type, closed, ssl, keepAlive, plain]

/-- The first call for a request: on a reused session it goes as on a new one. -/
theorem Reusable.call (env : Env σ) {base : Url} {maxBody : Nat} {s : HttpSession} (plain : base.tls = false)
    (reusable : Reusable base maxBody s) (r : HttpResponse) (w : σ) (req : HttpRequest) (resp : Nat)
    (nb : Bool) :
    (∃ rc x y, httpSessionCall env ⟨s, r, w⟩ req resp nb = some (rc, x) ∧
      httpSessionCall env ⟨.opened base maxBody, r, w⟩ req resp nb = some (rc, y) ∧
      rc.Refuses ∧ x.resp = y.resp ∧ x.world = y.world) ∨
    Alike (httpSessionCall env ⟨.opened base maxBody, r, w⟩ req resp nb)
      (httpSessionCall env ⟨s, r, w⟩ req resp nb) := by
  rw [httpSessionCall_idle (x := ⟨s, r, w⟩) req resp nb reusable.opened reusable.rested.resp,
    httpSessionCall_idle (x := ⟨.opened base maxBody, r, w⟩) req resp nb rfl rfl]
  have keepAlive : (HttpSession.opened base maxBody).keepAlive = s.keepAlive :=
    reusable.keepAlive.symm
  have base' : (HttpSession.opened base maxBody).base = s.base := reusable.base_eq.symm
  dsimp only
  rw [keepAlive, base']
  cases built : requestHead env w s.base s.keepAlive req with
  | mk result w₁ =>
      cases result with
      | error rc => exact .inl ⟨rc, _, _, rfl, rfl, (requestHead_error built).1, rfl, rfl⟩
      | ok head =>
          have held : smHold (Exchange.timed (⟨s, r, w⟩ : Exchange σ) nb).session req head resp =
            (smHold (Exchange.timed (⟨.opened base maxBody, r, w⟩ : Exchange σ) nb).session req head
              resp).leave s.leftover := reusable.hold plain req head resp _
          dsimp only
          rw [held]
          refine .inr (refuseWant_alike (x := ⟨smHold _ req head resp, .zero, w₁⟩) ?_)
          simp [Harmless, smHold, Exchange.timed, HttpSession.opened, plain]

/-- One request on a reused session, from its first call to its last, goes as on a new one. -/
theorem Reusable.drive {base : Url} {maxBody : Nat} {s : HttpSession} (plain : base.tls = false)
    (reusable : Reusable base maxBody s) (r : HttpResponse) (w : σ) (req : HttpRequest) (resp : Nat)
    (nb : Bool) (rest : List Bool) :
    outcome (drive env req resp nb rest ⟨s, r, w⟩) =
      outcome (drive env req resp nb rest ⟨.opened base maxBody, r, w⟩) := by
  cases rest with
  | nil =>
      rcases reusable.call env plain r w req resp nb with
        ⟨rc, x, y, called, called', -, sameResp, sameWorld⟩ | alike
      · simp [Http.drive, called, called', outcome, sameResp, sameWorld]
      · exact alike.outcome
  | cons nb' rest =>
      simp only [Http.drive]
      rcases reusable.call env plain r w req resp nb with
        ⟨rc, x, y, called, called', refuses, sameResp, sameWorld⟩ | alike
      · simp [called, called', outcome, refuses.2, sameResp, sameWorld]
      · generalize called : httpSessionCall env ⟨.opened base maxBody, r, w⟩ req resp nb = result
          at alike
        generalize httpSessionCall env ⟨s, r, w⟩ req resp nb = result' at alike
        cases alike with
        | hangs => rfl
        | returns l harmless =>
            rename_i rc y
            dsimp only
            split_ifs with want
            · cases httpSessionCall_outcome (.inl rfl) called with
              | refused code => simp [code.2] at want
              | ran z _ _ _ outcome =>
                  cases outcome with
                  | waits _ serving => exact drive_alike serving (harmless (.inr want))
                  | finishes ok => simp [ok, Rc.isWant] at want
                  | fails _ final => simp [final] at want
            · rfl

theorem drive_rested {x x' : Exchange σ} {req : HttpRequest} {resp : Nat} {nb : Bool}
    {rest : List Bool} (ready : x.session.smResp = none ∨ x.session.Serving resp)
    (done : drive env req resp nb rest x = some (.ok, x')) :
    x'.session.Rested ∧ x'.session.ssl = x.session.ssl ∧ x'.session.base = x.session.base ∧
      x'.session.maxBody = x.session.maxBody ∧ x'.session.keepAlive = x.session.keepAlive := by
  have last : ∀ {x : Exchange σ} {nb}, x.session.smResp = none ∨ x.session.Serving resp →
      httpSessionCall env x req resp nb = some (.ok, x') →
      x'.session.Rested ∧ x'.session.ssl = x.session.ssl ∧ x'.session.base = x.session.base ∧
        x'.session.maxBody = x.session.maxBody ∧ x'.session.keepAlive = x.session.keepAlive := by
    intro x nb ready called
    cases httpSessionCall_outcome ready called with
    | refused code => exact absurd rfl code.1
    | ran y serving _ settings outcome =>
        cases outcome with
        | waits want => simp [Rc.isWant] at want
        | finishes _ rested held =>
            obtain ⟨ssl, base, maxBody, keepAlive⟩ := settings
            exact ⟨rested, (congrArg Held.ssl held).trans ssl, (congrArg Held.base held).trans base,
              (congrArg Held.maxBody held).trans maxBody,
              (congrArg Held.keepAlive held).trans keepAlive⟩
        | fails failed => exact absurd rfl failed
  induction rest generalizing nb x with
  | nil => exact last ready done
  | cons nb' rest ih =>
      simp only [drive] at done
      split at done
      · cases done
      · rename_i rc y called
        split at done
        · rename_i want
          cases httpSessionCall_outcome ready called with
          | refused code => simp [code.2] at want
          | ran z serving _ settings outcome =>
              cases outcome with
              | waits _ serving' held =>
                  obtain ⟨rested, ssl, base, maxBody, keepAlive⟩ := ih (.inr serving') done
                  obtain ⟨ssl', base', maxBody', keepAlive'⟩ := settings
                  exact ⟨rested, ssl.trans ((congrArg Held.ssl held).trans ssl'),
                    base.trans ((congrArg Held.base held).trans base'),
                    maxBody.trans ((congrArg Held.maxBody held).trans maxBody'),
                    keepAlive.trans ((congrArg Held.keepAlive held).trans keepAlive')⟩
              | finishes ok => simp [ok, Rc.isWant] at want
              | fails _ final => simp [final] at want
        · cases done
          exact last ready called

/-- The sessions that any number of requests have used, each ending well and leaving it open; the
response objects and whatever happens to the world between two requests are arbitrary. -/
inductive KeptOpen (env : Env σ) (base : Url) (maxBody : Nat) : HttpSession → Prop where
  | opened : KeptOpen env base maxBody (.opened base maxBody)
  | served {s : HttpSession} {r : HttpResponse} {w : σ} {req : HttpRequest} {resp : Nat} {nb : Bool}
      {rest : List Bool} {x : Exchange σ} (kept : KeptOpen env base maxBody s)
      (done : drive env req resp nb rest ⟨s, r, w⟩ = some (.ok, x))
      (stays : x.session.closed = false) : KeptOpen env base maxBody x.session

theorem KeptOpen.reusable {base : Url} {maxBody : Nat} {s : HttpSession} (plain : base.tls = false)
    (kept : KeptOpen env base maxBody s) : Reusable base maxBody s := by
  induction kept with
  | opened => exact .opened_plain plain maxBody
  | served kept done stays ih =>
      obtain ⟨rested, ssl, base_eq, maxBody_eq, keepAlive⟩ := drive_rested (.inl ih.rested.resp) done
      exact ⟨rested, stays, ssl.trans ih.ssl, base_eq.trans ih.base_eq,
        maxBody_eq.trans ih.maxBody_eq, keepAlive.trans ih.keepAlive⟩

/-- Keep-alive non-interference: after any number of requests that ended well, the next one returns
the code and the response, and puts the bytes on the wire, that it would on a new session. -/
theorem keptOpen_noninterference {base : Url} {maxBody : Nat} {s : HttpSession}
    (kept : KeptOpen env.recorded base maxBody s) (plain : base.tls = false) (r : HttpResponse)
    (w : σ × Bytes) (req : HttpRequest) (resp : Nat) (nb : Bool) (rest : List Bool) :
    outcome (drive env.recorded req resp nb rest ⟨s, r, w⟩) =
      outcome (drive env.recorded req resp nb rest ⟨.opened base maxBody, r, w⟩) :=
  (kept.reusable plain).drive plain r w req resp nb rest

/-- A first exchange that leaves a status, a length and a retry delay behind. -/
theorem keptOpen_noninterference_second :
    ∃ s, KeptOpen (wireEnv 0 fun _ => none).recorded exampleUrl 100 s ∧ s.smStatus = 503 ∧
      s.smRetryAfterSec = 9 ∧ ∀ r w,
        outcome (drive (wireEnv 0 fun _ => none).recorded examplePost 1 true [true] ⟨s, r, w⟩) =
          outcome (drive (wireEnv 0 fun _ => none).recorded examplePost 1 true [true]
            ⟨.opened exampleUrl 100, r, w⟩) := by
  have first : (drive (wireEnv 0 fun _ => none).recorded examplePost 0 true []
      ⟨.opened exampleUrl 100, .zero, (⟨ascii
        "HTTP/1.1 503 N\r\nContent-Length: 1\r\nRetry-After: 9\r\n\r\na", [], false, false⟩, [])⟩).map
      (fun result => (result.1, result.2.session.closed, result.2.session.smStatus,
        result.2.session.smRetryAfterSec)) = some (.ok, false, 503, 9) := by decide +kernel
  obtain ⟨⟨rc, x⟩, done, seen⟩ := Option.map_eq_some_iff.mp first
  simp only [Prod.mk.injEq] at seen
  obtain ⟨rfl, stays, status, seconds⟩ := seen
  have kept := KeptOpen.served .opened done stays
  exact ⟨x.session, kept, status, seconds, fun r w =>
    keptOpen_noninterference kept rfl r w examplePost 1 true [true]⟩

end WolfCert.Http
