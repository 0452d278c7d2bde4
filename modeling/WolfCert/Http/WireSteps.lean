import WolfCert.Http.Reply
import WolfCert.Http.Stream
import WolfCert.Http.Steps

/-!
# Reads over one connection

The reads and reservations of the session over a plain connection that delivers one stream.
-/

namespace WolfCert.Http

open WolfCert.CLib

variable (now : Int) (base64EncodeNoNl : Bytes → Option Bytes)

/-- How often the plan still suspends a call. -/
def Wire.wants (w : Wire) : Nat := w.plan.countP Event.isWant

/-- What one read of a connection may do. -/
inductive Wire.Reads (w : Wire) (room : Nat) : ReadResult → Wire → Prop where
  | waits (rc : Rc) (w' : Wire) (want : rc.isWant = true) (rest : w'.rest = w.rest)
      (fewer : w'.wants < w.wants) :
      w.Reads room (.code rc) w'
  | closed (result : ReadResult) (w' : Wire) (close : result = .bytes [] ∨ result = .code .errConnClosed)
      (ended : w.rest = []) (rest : w'.rest = w.rest) (wants : w'.wants ≤ w.wants) : w.Reads room result w'
  | delivers (data : Bytes) (w' : Wire) (some : data ≠ []) (fits : data.length ≤ room)
      (rest : w.rest = data ++ w'.rest) (wants : w'.wants ≤ w.wants) : w.Reads room (.bytes data) w'

theorem Wire.deliver_reads (w v : Wire) {n room : Nat} (positive : 0 < room) (rest : v.rest = w.rest)
    (wants : v.wants ≤ w.wants) :
    w.Reads room (v.deliver n room).1 (v.deliver n room).2 := by
  unfold Wire.deliver
  split
  · rename_i ended
    refine .closed _ _ ?_ (rest ▸ ended) rest wants
    cases v.zeroClose
    · exact .inr rfl
    · exact .inl rfl
  · rename_i ended
    have size : 0 < v.rest.length := List.length_pos_iff.mpr ended
    refine .delivers _ _ ?_ ?_ ?_ wants
    · rw [← List.length_pos_iff, List.length_take]
      omega
    · rw [List.length_take]
      omega
    · rw [← rest]
      exact (List.take_append_drop ..).symm

theorem Wire.read_reads (w : Wire) {room : Nat} (positive : 0 < room) :
    w.Reads room (w.read room).1 (w.read room).2 := by
  cases planEq : w.plan with
  | nil =>
      simp only [Wire.read, planEq]
      exact Wire.deliver_reads w w positive rfl (Nat.le_refl _)
  | cons event plan =>
      cases event with
      | wantRead =>
          simp only [Wire.read, planEq]
          exact .waits _ _ rfl rfl (by simp [Wire.wants, planEq, List.countP_cons, Event.isWant])
      | wantWrite =>
          simp only [Wire.read, planEq]
          exact .waits _ _ rfl rfl (by simp [Wire.wants, planEq, List.countP_cons, Event.isWant])
      | move n =>
          simp only [Wire.read, planEq]
          exact Wire.deliver_reads w _ positive rfl (by simp [Wire.wants, planEq, Event.isWant])

/-! ## The receive buffer -/

/-- Doubling reaches the wanted size before it wraps. -/
theorem growCap_reaches {want : Nat} (k : Nat) {fuel nc : Nat} (enough : want ≤ nc * 2 ^ k)
    (bound : nc * 2 ^ k < sizeRange) (fueled : k ≤ fuel) :
    ∃ cap, growCap want fuel nc = some cap ∧ want ≤ cap := by
  induction k generalizing fuel nc with
  | zero =>
      have reached : ¬ nc < want := by omega
      cases fuel <;> exact ⟨nc, by rw [growCap, if_neg reached], by omega⟩
  | succ k ih =>
      obtain ⟨fuel, rfl⟩ : ∃ less, fuel = less + 1 := ⟨fuel - 1, by omega⟩
      by_cases short : nc < want
      · rw [growCap, if_pos short]
        have power : nc * 2 ^ (k + 1) = (nc * 2) * 2 ^ k := by
          rw [Nat.pow_succ', Nat.mul_assoc]
        have small : nc * 2 < sizeRange := by
          have step : nc * 2 ≤ (nc * 2) * 2 ^ k := Nat.le_mul_of_pos_right _ (Nat.two_pow_pos k)
          omega
        have doubled : sizeDouble nc = nc * 2 := by
          rw [sizeDouble, Nat.mod_eq_of_lt (by omega)]
        rw [doubled]
        exact ih (power ▸ enough) (power ▸ bound) (by omega)
      · exact ⟨nc, by rw [growCap, if_neg short], by omega⟩

theorem wireEnv_granted (w : Wire) {size : Nat} (bound : size < allocLimit) :
    (wireEnv now base64EncodeNoNl).alloc w size = (true, w) :=
  if_pos bound

theorem wireEnv_refused (w : Wire) {size : Nat} (bound : ¬ size < allocLimit) :
    (wireEnv now base64EncodeNoNl).alloc w size = (false, { w with refused := true }) :=
  if_neg bound

/-- The receive buffer fits its allocation. -/
structure Buffered (x : Exchange Wire) : Prop where
  plain : x.session.ssl = false
  room : x.session.smRx.length ≤ x.session.smRxCap
  cap : x.session.smRxCap < allocLimit

/-- A reservation grants the room, refuses the memory, or meets the limit of the session. -/
inductive Reserves (x : Exchange Wire) (need : Nat) : Rc → Exchange Wire → Prop where
  | grants (cap : Nat) (room : x.session.smRx.length + need ≤ cap) (bound : cap < allocLimit)
      (wider : x.session.smRxCap ≤ cap) :
      Reserves x need .ok { x with session := { x.session with smRxCap := cap } }
  | refuses : Reserves x need .errMemory { x with world := { x.world with refused := true } }
  | exceeds (wide : rxMax x.session.maxBody < x.session.smRx.length + need)
      (cap : x.session.smRxCap < x.session.smRx.length + need) : Reserves x need .errProtocol x

theorem nbRxReserve_reserves {x : Exchange Wire} (buffered : Buffered x) {need : Nat}
    (small : need ≤ readChunk) :
    ∃ rc x', nbRxReserve (wireEnv now base64EncodeNoNl) x need = some (rc, x') ∧
      Reserves x need rc x' := by
  have room := buffered.room
  have cap := buffered.cap
  have limit : allocLimit = 9223372036854775808 := rfl
  have range : sizeRange = 18446744073709551616 := rfl
  have chunk : readChunk = 2048 := rfl
  have want : sizeAdd x.session.smRx.length need = x.session.smRx.length + need :=
    sizeAdd_eq (by omega)
  simp only [nbRxReserve, want]
  by_cases held : x.session.smRx.length + need ≤ x.session.smRxCap
  · rw [if_pos held]
    exact ⟨_, _, rfl, .grants x.session.smRxCap held cap (Nat.le_refl _)⟩
  · rw [if_neg held]
    by_cases wide : x.session.smRx.length + need > rxMax x.session.maxBody
    · rw [if_pos wide]
      exact ⟨_, _, rfl, .exceeds wide (Nat.lt_of_not_le held)⟩
    rw [if_neg wide]
    obtain ⟨nc, grown, enough⟩ : ∃ nc, growCap (x.session.smRx.length + need) 64
        (if x.session.smRxCap ≠ 0 then x.session.smRxCap else 1024) = some nc ∧
        x.session.smRx.length + need ≤ nc := by
      split
      · by_cases large : 2048 ≤ x.session.smRxCap
        · exact growCap_reaches 1 (by omega) (by omega) (by omega)
        · exact growCap_reaches 12 (by omega) (by omega) (by omega)
      · exact growCap_reaches 1 (by omega) (by omega) (by omega)
    rw [grown]
    dsimp only
    generalize capEq : (if nc > rxMax x.session.maxBody then rxMax x.session.maxBody else nc) = cap
    have fits : x.session.smRx.length + need ≤ cap := by
      split at capEq <;> omega
    by_cases bound : cap < allocLimit
    · rw [wireEnv_granted now base64EncodeNoNl x.world bound]
      exact ⟨_, _, rfl, .grants cap fits bound (by omega)⟩
    · rw [wireEnv_refused now base64EncodeNoNl x.world bound]
      exact ⟨_, _, rfl, .refuses⟩

/-- `data` has moved from the stream into the receive buffer, and nothing else happened. -/
structure Moved (x : Exchange Wire) (data : Bytes) (x' : Exchange Wire) : Prop where
  session : ∃ cap, x'.session =
    { x.session with smRx := x.session.smRx ++ data, smRxCap := cap }
  resp : x'.resp = x.resp
  stream : x.world.rest = data ++ x'.world.rest
  wants : x'.world.wants ≤ x.world.wants
  buffered : Buffered x'

/-- What one bounded read of the session may do. -/
inductive ReadsSome (x : Exchange Wire) (limit : Nat) : Rc → Bool → Exchange Wire → Prop where
  | refuses (x' : Exchange Wire) (refused : x'.world.refused = true) :
      ReadsSome x limit .errMemory false x'
  | waits (rc : Rc) (x' : Exchange Wire) (want : rc.isWant = true) (moved : Moved x [] x')
      (fewer : x'.world.wants < x.world.wants) : ReadsSome x limit rc false x'
  | closes (x' : Exchange Wire) (moved : Moved x [] x') (ended : x.world.rest = [])
      (short : x.session.smRx.length ≤ limit) : ReadsSome x limit .ok true x'
  | appends (data : Bytes) (x' : Exchange Wire) (moved : Moved x data x') (some : data ≠ [])
      (fits : (x.session.smRx ++ data).length ≤ limit) : ReadsSome x limit .ok false x'
  | exceeds (x' : Exchange Wire) (wide : rxMax x.session.maxBody < limit)
      (cap : x.session.smRxCap < limit) : ReadsSome x limit .errProtocol false x'
  | overruns (x' : Exchange Wire) (full : limit ≤ x.session.smRx.length)
      (long : limit < (x.session.smRx ++ x.world.rest).length) :
      ReadsSome x limit .errProtocol false x'

theorem nbReceive_readsSome {x : Exchange Wire} (buffered : Buffered x) (limit : Nat) {room : Nat}
    (probing : Bool) (positive : 0 < room)
    (target : if probing then x.session.smRx.length = limit
      else x.session.smRx.length + room ≤ min limit x.session.smRxCap) :
    ∃ rc ended x', nbReceive (wireEnv now base64EncodeNoNl) x room probing = (rc, ended, x') ∧
      ReadsSome x limit rc ended x' := by
  have short : x.session.smRx.length ≤ limit := by
    split at target <;> omega
  have quiet {w : Wire} (rest : w.rest = x.world.rest) (wants : w.wants ≤ x.world.wants) : Moved x [] { x with world := w } :=
    ⟨⟨x.session.smRxCap, by simp⟩, rfl, rest.symm, wants,
      ⟨buffered.plain, buffered.room, buffered.cap⟩⟩
  have reads := x.world.read_reads positive
  generalize readEq : x.world.read room = outcome at reads
  obtain ⟨result, w⟩ := outcome
  have run : (wireEnv now base64EncodeNoNl).read x.world room x.session.ioTimeoutMs = (result, w) :=
    readEq
  simp only [nbReceive, buffered.plain, Bool.false_eq_true, if_false, run]
  cases reads with
  | waits rc w want rest fewer =>
      refine ⟨rc, false, _, ?_, .waits rc _ want (quiet rest (Nat.le_of_lt fewer)) fewer⟩
      rcases (Rc.isWant_iff rc).mp want with rfl | rfl <;> rfl
  | closed result w close ended rest wants =>
      refine ⟨.ok, true, _, ?_, .closes _ (quiet rest wants) ended short⟩
      rcases close with rfl | rfl
      · simp [takeRead]
      · rfl
  | delivers data w some fits rest wants =>
      have small : ¬ data.length > room := by omega
      simp only [small, if_false, takeRead, some]
      cases probing with
      | true =>
          simp only [if_true] at target
          refine ⟨_, _, _, rfl, .overruns _ (by omega) ?_⟩
          have size : 0 < data.length := List.length_pos_iff.mpr some
          simp only [List.length_append, rest]
          omega
      | false =>
          simp only [Bool.false_eq_true, if_false] at target
          have fits' : (x.session.smRx ++ data).length ≤ min limit x.session.smRxCap := by
            rw [List.length_append]
            omega
          refine ⟨_, _, _, rfl, .appends data _ ⟨⟨x.session.smRxCap, rfl⟩, rfl, rest, wants, ?_⟩ some
            (by omega)⟩
          exact ⟨buffered.plain, by exact Nat.le_trans fits' (Nat.min_le_right ..), buffered.cap⟩

theorem Buffered.widen {x : Exchange Wire} (buffered : Buffered x) {cap : Nat}
    (room : x.session.smRx.length ≤ cap) (bound : cap < allocLimit) :
    Buffered { x with session := { x.session with smRxCap := cap } } :=
  ⟨buffered.plain, room, bound⟩

theorem Moved.of_widen {x x' : Exchange Wire} {data : Bytes} {cap : Nat}
    (moved : Moved { x with session := { x.session with smRxCap := cap } } data x') :
    Moved x data x' :=
  ⟨moved.session, moved.resp, moved.stream, moved.wants, moved.buffered⟩

theorem ReadsSome.of_widen {x x' : Exchange Wire} {limit cap : Nat} {rc : Rc} {ended : Bool}
    (wider : x.session.smRxCap ≤ cap)
    (reads : ReadsSome { x with session := { x.session with smRxCap := cap } } limit rc ended x') :
    ReadsSome x limit rc ended x' := by
  cases reads with
  | refuses _ refused => exact .refuses _ refused
  | waits rc _ want moved fewer => exact .waits rc _ want moved.of_widen fewer
  | closes _ moved ended short => exact .closes _ moved.of_widen ended short
  | appends data _ moved some fits => exact .appends data _ moved.of_widen some fits
  | exceeds _ wide full => exact .exceeds _ wide (Nat.lt_of_le_of_lt wider full)
  | overruns _ full long => exact .overruns _ full long

theorem nbReadSome_readsSome {x : Exchange Wire} (buffered : Buffered x) (limit : Nat) :
    ∃ rc ended x', nbReadSome (wireEnv now base64EncodeNoNl) x limit = some (rc, ended, x') ∧
      ReadsSome x limit rc ended x' := by
  simp only [nbReadSome]
  by_cases above : x.session.smRx.length > limit
  · rw [if_pos above]
    exact ⟨_, _, _, rfl, .overruns x (by omega) (by rw [List.length_append]; omega)⟩
  · rw [if_neg above]
    by_cases full : limit - x.session.smRx.length = 0
    · rw [if_pos full]
      obtain ⟨rc, ended, x', run, reads⟩ := nbReceive_readsSome now base64EncodeNoNl buffered limit true
        Nat.one_pos (by simp only [if_true]; omega)
      exact ⟨rc, ended, x', by rw [run], reads⟩
    · rw [if_neg full]
      obtain ⟨rc, y, reserved, outcome⟩ := nbRxReserve_reserves now base64EncodeNoNl buffered
        (Nat.min_le_right (limit - x.session.smRx.length) readChunk)
      rw [reserved]
      cases outcome with
      | refuses => exact ⟨_, _, _, rfl, .refuses _ rfl⟩
      | exceeds wide cap => exact ⟨_, _, _, rfl, .exceeds _ (by omega) (by omega)⟩
      | grants cap room bound wider =>
          have target : x.session.smRx.length + min (limit - x.session.smRx.length) readChunk ≤
              min limit cap := by omega
          have positive : 0 < min (limit - x.session.smRx.length) readChunk := by
            have chunk : readChunk = 2048 := rfl
            omega
          obtain ⟨rc, ended, x', run, reads⟩ := nbReceive_readsSome now base64EncodeNoNl
            (buffered.widen (by omega) bound) limit false positive target
          exact ⟨rc, ended, x', by rw [← run], reads.of_widen wider⟩

/-! ## Sending -/

theorem Wire.write_writes (w : Wire) {buf : Bytes} (nonempty : 0 < buf.length) :
    ∃ w', w'.rest = w.rest ∧
      ((∃ n, w.write buf = (.count n, w') ∧ n > 0 ∧ n ≤ buf.length ∧ w'.wants ≤ w.wants) ∨
        ∃ rc, w.write buf = (.code rc, w') ∧ rc.isWant = true ∧ w'.wants < w.wants) := by
  cases planEq : w.plan with
  | nil =>
      refine ⟨w, rfl, .inl ⟨buf.length, by simp only [Wire.write, planEq], nonempty, ?_⟩⟩
      exact ⟨Nat.le_refl _, Nat.le_refl _⟩
  | cons event plan =>
      refine ⟨{ w with plan }, rfl, ?_⟩
      cases event with
      | wantRead =>
          exact .inr ⟨.errWantRead, by simp only [Wire.write, planEq], rfl,
            by simp [Wire.wants, planEq, List.countP_cons, Event.isWant]⟩
      | wantWrite =>
          exact .inr ⟨.errWantWrite, by simp only [Wire.write, planEq], rfl,
            by simp [Wire.wants, planEq, List.countP_cons, Event.isWant]⟩
      | move n =>
          refine .inl ⟨min (max n 1) buf.length, by simp only [Wire.write, planEq], by omega,
            by omega, by simp [Wire.wants, planEq, Event.isWant]⟩

/-- Sending takes nothing from the stream: it completes, or the plan suspends it. -/
theorem nbWriteLoop_wire (timeout : Int) (buf : Bytes) (fuel : Nat) :
    ∀ (off : Nat) (w : Wire), ∃ rc off' w',
      nbWriteLoop (wireEnv now base64EncodeNoNl) false timeout buf fuel off w = (rc, off', w') ∧
      w'.rest = w.rest ∧
      (rc = .ok ∧ w'.wants ≤ w.wants ∨ rc.isWant = true ∧ w'.wants < w.wants) := by
  induction fuel with
  | zero => exact fun off w => ⟨_, _, _, rfl, rfl, .inl ⟨rfl, Nat.le_refl _⟩⟩
  | succ fuel ih =>
      intro off w
      by_cases unsent : off < buf.length
      · have size : 0 < (buf.drop off).length := by
          rw [List.length_drop]
          omega
        rw [nbWriteLoop, if_pos unsent, if_neg Bool.false_ne_true]
        obtain ⟨w', rest, cases⟩ := w.write_writes size
        rcases cases with ⟨n, written, positive, fits, wants⟩ | ⟨rc, suspended, want, fewer⟩
        · have run : (wireEnv now base64EncodeNoNl).write w (buf.drop off) timeout = (.count n, w') :=
            written
          rw [List.length_drop] at fits
          rw [run]
          dsimp only
          rw [if_neg (by omega), if_pos positive]
          obtain ⟨rc, off', w'', later, rest', outcome⟩ := ih (off + n) w'
          refine ⟨rc, off', w'', later, rest'.trans rest, ?_⟩
          rcases outcome with ⟨done, less⟩ | ⟨want, less⟩
          · exact .inl ⟨done, by omega⟩
          · exact .inr ⟨want, by omega⟩
        · have run : (wireEnv now base64EncodeNoNl).write w (buf.drop off) timeout = (.code rc, w') :=
            suspended
          rw [run]
          dsimp only
          rw [if_pos want]
          exact ⟨rc, off, w', rfl, rest, .inr ⟨want, fewer⟩⟩
      · exact ⟨.ok, off, w, by rw [nbWriteLoop, if_neg unsent], rfl, .inl ⟨rfl, Nat.le_refl _⟩⟩

/-! ## Heads -/

/-- What the exchange fixes before the first reply byte. -/
def replyContext (s : HttpSession) : ReplyContext where
  now := now
  maxBody := s.maxBody
  headRequest := s.smHeadRequest

theorem findHeaderCopy_wire (w : Wire) {hdrs : Bytes} (small : hdrs.length ≤ headerBudget)
    (name : String) :
    findHeaderCopy (wireEnv now base64EncodeNoNl) w hdrs name = (findHeader hdrs (ascii name), w) := by
  unfold findHeaderCopy
  split
  · rename_i absent
    rw [absent]
  · rename_i value present
    have size := findHeader_length present
    have bound : value.length + 1 < allocLimit := by
      have budget : headerBudget = 8192 := rfl
      have limit : allocLimit = 9223372036854775808 := rfl
      omega
    rw [Env.withAlloc, wireEnv_granted now base64EncodeNoNl w bound, present]

theorem replyLength_wire (w : Wire) (s : HttpSession) {hdrs : Bytes}
    (small : hdrs.length ≤ headerBudget) :
    replyLength (wireEnv now base64EncodeNoNl) w s hdrs =
      ((replyContext now s).framing s.smStatus hdrs, w) := by
  by_cases bodiless : responseHasNoBody s.smStatus s.smHeadRequest = true
  · have framing : (replyContext now s).framing s.smStatus hdrs = (false, 0) := if_pos bodiless
    rw [replyLength, if_pos bodiless, framing]
  · rw [replyLength, if_neg bodiless, findHeaderCopy_wire now base64EncodeNoNl w small]
    dsimp only
    rw [findHeaderCopy_wire now base64EncodeNoNl w small]
    exact congrArg (·, w) (if_neg bodiless).symm

/-- The session with a final head accepted. -/
def HttpSession.accept (s : HttpSession) (head : ReplyHead) : HttpSession :=
  acceptHead { s with smStatus := head.status } head.chunked head.contentLength head.contentType
    head.retryAfterSec

theorem HttpSession.accept_eq (s : HttpSession) (head : ReplyHead) :
    s.accept head =
      { s with
        smStatus := head.status, smContentLength := head.contentLength
        smContentType := head.contentType, smRetryAfterSec := head.retryAfterSec
        smScan := if head.chunked then .start s.maxBody else s.smScan
        smState := if head.chunked then .readBodyChunked
          else if head.contentLength ≥ 0 then .readBodyCl else .readBodyEof } := by
  cases chunked : head.chunked with
  | true => simp [accept, acceptHead, chooseBody, chunked]
  | false =>
      by_cases known : head.contentLength ≥ 0 <;>
        simp [accept, acceptHead, chooseBody, chunked, known]

/-- A head that announces more than the session allows. -/
def ReplyHead.Overlong (head : ReplyHead) (maxBody : Nat) : Prop :=
  head.contentLength ≥ 0 ∧ head.contentLength.toNat > maxBody

theorem inspectFinal_overlong (w : Wire) {s : HttpSession} {hdrs : Bytes}
    (small : hdrs.length ≤ headerBudget)
    (above : ((replyContext now s).finalHead s.smStatus hdrs).Overlong s.maxBody) :
    ∃ s', inspectFinal (wireEnv now base64EncodeNoNl) w s hdrs = ((.errProtocol, s'), w) := by
  rw [inspectFinal, replyLength_wire now base64EncodeNoNl w s small]
  exact ⟨_, if_pos above⟩

theorem inspectFinal_accepts (w : Wire) {s : HttpSession} {hdrs : Bytes}
    (small : hdrs.length ≤ headerBudget)
    (fits : ¬ ((replyContext now s).finalHead s.smStatus hdrs).Overlong s.maxBody) :
    inspectFinal (wireEnv now base64EncodeNoNl) w s hdrs =
      ((.ok, s.accept ((replyContext now s).finalHead s.smStatus hdrs)), w) := by
  rw [inspectFinal, replyLength_wire now base64EncodeNoNl w s small]
  refine (if_neg fits).trans ?_
  rw [findHeaderCopy_wire now base64EncodeNoNl w small]
  dsimp only
  rw [findHeaderCopy_wire now base64EncodeNoNl w small]
  rfl

/-- What inspecting a complete head does, by what the head is. -/
inductive Inspects (x : Exchange Wire) : HeadKind → Rc → Exchange Wire → Prop where
  | refused (x' : Exchange Wire) : Inspects x .refused .errProtocol x'
  | interim (status : Int) (kind : statusIsInterim status = true) :
      Inspects x .interim .ok { x with session := { x.session with smStatus := status } }
  | final (head : ReplyHead) (kind : statusIsInterim head.status = false)
      (fits : head.contentLength ≥ 0 → head.contentLength.toNat ≤ x.session.maxBody)
      (bound : head.contentLength ≤ longMax) :
      Inspects x (.final head) .ok { x with session := x.session.accept head }

theorem inspectHeaders_inspects {x : Exchange Wire} (small : x.session.smHdrEnd ≤ headerBudget) :
    ∃ rc x', inspectHeaders (wireEnv now base64EncodeNoNl) x = (rc, x') ∧
      Inspects x ((replyContext now x.session).classify (x.session.smRx.take x.session.smHdrEnd))
        rc x' := by
  have bound : x.session.smHdrEnd + 1 < allocLimit := by
    have budget : headerBudget = 8192 := rfl
    have limit : allocLimit = 9223372036854775808 := rfl
    omega
  have short : (cString (x.session.smRx.take x.session.smHdrEnd)).length ≤ headerBudget := by
    have prefixed := (List.takeWhile_prefix (l := x.session.smRx.take x.session.smHdrEnd) (· != 0)).length_le
    have taken := List.length_take_le x.session.smHdrEnd x.session.smRx
    exact Nat.le_trans prefixed (Nat.le_trans taken small)
  simp only [inspectHeaders, wireEnv_granted now base64EncodeNoNl x.world bound,
    ReplyContext.classify]
  generalize cString (x.session.smRx.take x.session.smHdrEnd) = hdrs at short
  cases parseStatusLine hdrs with
  | none => exact ⟨_, _, rfl, .refused _⟩
  | some status =>
      dsimp only
      by_cases switching : status = 101
      · rw [if_pos switching, if_pos switching]
        exact ⟨_, _, rfl, .refused _⟩
      · rw [if_neg switching, if_neg switching]
        by_cases kind : statusIsInterim status = true
        · rw [if_pos kind, if_pos kind]
          exact ⟨_, _, rfl, .interim status kind⟩
        · rw [if_neg kind, if_neg kind]
          by_cases above : ((replyContext now x.session).finalHead status hdrs).Overlong
              x.session.maxBody
          · obtain ⟨s', run⟩ := inspectFinal_overlong now base64EncodeNoNl x.world
              (s := { x.session with smStatus := status }) short above
            refine ⟨_, _, by rw [run], ?_⟩
            rw [if_pos (by exact above)]
            exact .refused _
          · have run := inspectFinal_accepts now base64EncodeNoNl x.world
              (s := { x.session with smStatus := status }) short above
            refine ⟨_, _, by rw [run], ?_⟩
            rw [if_neg (by exact above)]
            exact .final _ (Bool.eq_false_iff.mpr kind)
              (fun known => Nat.le_of_not_gt fun more => above ⟨known, more⟩) (ReplyContext.framing_le ..)

end WolfCert.Http
