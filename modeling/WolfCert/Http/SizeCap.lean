import WolfCert.Http.Framing
import WolfCert.Http.Schedule

/-!
# The size cap of a response

A body up to `max_response_bytes` is delivered whole and a longer one is refused, as long as the cap and
the header budget together are at most half the range of `size_t`. Past that the growth of the receive
buffer does not end for every size, and at the very end the sums wrap.
-/

namespace WolfCert.Http

open WolfCert.CLib

/-- Doubling ends at every size up to half the range. -/
theorem growCap_ends {want fuel nc : Nat} (half : want ≤ 2 ^ 63) (enough : want ≤ nc * 2 ^ fuel) :
    growCap want fuel nc ≠ none := by
  induction fuel generalizing nc with
  | zero =>
      have reached : ¬nc < want := by omega
      rw [growCap, if_neg reached]
      exact Option.some_ne_none _
  | succ fuel ih =>
      rw [growCap]
      split
      · rename_i short
        have doubled : sizeDouble nc = nc * 2 := by
          rw [sizeDouble, sizeRange, Nat.mod_eq_of_lt (by omega)]
        rw [doubled]
        exact ih (by rwa [Nat.mul_assoc, ← Nat.pow_succ'])
      · exact Option.some_ne_none _

/-- A header block: it ends in the first blank line and is within the budget. -/
structure HeadBlock (head : Bytes) : Prop where
  blank : headScan head 0 + 4 = head.length
  short : head.length ≤ headerBudget

/-- An interim head is skipped. -/
def Interim (head : Bytes) : Prop :=
  HeadBlock head ∧ ∃ status, parseStatusLine (cString head) = some status ∧ statusIsInterim status = true

/-- The head of a final response to a request whose body is not chunked. -/
structure FinalHead (head : Bytes) (headRequest : Bool) : Prop where
  block : HeadBlock head
  status : ∃ status, parseStatusLine (cString head) = some status ∧ status ≠ 101 ∧
    statusIsInterim status = false ∧ responseHasNoBody status headRequest = false
  plain : ∀ te, findHeader (cString head) teName = some te → ciCmp te (ascii "chunked") ≠ 0

/-- The head states a body of `n` bytes. -/
def StatesBody (head : Bytes) (n : Nat) : Prop :=
  ∃ digits blanks, findHeader (cString head) clName = some (digits ++ blanks) ∧ PlainDecimal digits n ∧
    ∀ b ∈ blanks, isOws b = true

/-- What the cap means for the response that `rest` follows the head of. -/
structure CapsBody (maxBody : Nat) (head rest : Bytes) (rc : Rc) (body : Bytes) : Prop where
  closing : findHeader (cString head) clName = none →
    (rest.length ≤ maxBody → rc = .ok ∧ body = rest) ∧ (maxBody < rest.length → rc = .errProtocol)
  stated : ∀ n, StatesBody head n →
    (n ≤ maxBody → n ≤ rest.length → rc = .ok ∧ body = rest.take n) ∧ (maxBody < n → rc = .errProtocol)

/-- The cap of a session: its sums are exact, its buffer can grow to every size it may need, and on a
plain connection every body is delivered whole or refused, as the cap says, unless memory ran out. -/
structure CapLaw (maxBody : Nat) : Prop where
  limit : rxMax maxBody = maxBody + headerBudget
  stop : ∀ hdrEnd ≤ headerBudget, ∀ n ≤ maxBody, sizeAdd hdrEnd n = hdrEnd + n
  want : ∀ len need, len + need ≤ rxMax maxBody → sizeAdd len need = len + need
  grows : ∀ want ≤ rxMax maxBody, ∀ cap, growCap want 64 (if cap ≠ 0 then cap else 1024) ≠ none
  delivers : ∀ (now : Int) (base64EncodeNoNl : Bytes → Option Bytes) (s : HttpSession) (req : HttpRequest)
    (resp : Nat) (r : HttpResponse) (w : Wire) (nb : Bool) (calls : List Bool) (sent head rest : Bytes)
    (interims : List Bytes),
    s.Rested → s.ssl = false → s.closed = false → s.maxBody = maxBody → Schedules w nb calls →
    (requestHead (wireEnv now base64EncodeNoNl) w s.base s.keepAlive req).1 = .ok sent →
    (∀ interim ∈ interims, Interim interim) → interims.length ≤ maxInterim →
    FinalHead head (req.method == ascii "HEAD") → w.rest = interims.flatten ++ (head ++ rest) →
    ∃ rc x', drive (wireEnv now base64EncodeNoNl) req resp nb calls ⟨s, r, w⟩ = some (rc, x') ∧
      (x'.world.refused = true ∨ CapsBody maxBody head rest rc x'.resp.body)

/-! ## The reply -/

/-- The blank line of a block is found in every stream that begins with it. -/
theorem HeadBlock.found {head : Bytes} (block : HeadBlock head) (rest : Bytes) :
    headScan ((head ++ rest).take headerBudget) 0 = headScan head 0 ∧
      headScan head 0 + 3 < ((head ++ rest).take headerBudget).length := by
  have blank := block.blank
  have window : (head ++ rest).take headerBudget = head ++ rest.take (headerBudget - head.length) := by
    rw [List.take_append, List.take_of_length_le block.short]
  rw [window]
  refine ⟨headScan_found (by omega) _, ?_⟩
  rw [List.length_append]
  omega

theorem HeadBlock.reply {head : Bytes} (block : HeadBlock head) (ctx : ReplyContext) (interims : Nat)
    (rest : Bytes) :
    ctx.reply interims (head ++ rest) =
      match ctx.classify head with
      | .refused => .error .errProtocol
      | .interim =>
          match interims with
          | 0 => .error .errProtocol
          | interims + 1 => ctx.reply interims rest
      | .final final => (ctx.body final head.length rest).map final.reply := by
  obtain ⟨found, inside⟩ := block.found rest
  have headed := ReplyContext.reply_headed ctx interims found inside
  rw [block.blank, List.take_left, List.drop_left] at headed
  exact headed

theorem reply_interims (ctx : ReplyContext) {interims : List Bytes} (all : ∀ head ∈ interims, Interim head)
    (left : Nat) (rest : Bytes) :
    ctx.reply (interims.length + left) (interims.flatten ++ rest) = ctx.reply left rest := by
  induction interims with
  | nil => simp
  | cons head interims ih =>
      obtain ⟨block, status, parsed, interim⟩ := all head List.mem_cons_self
      have switching : status ≠ 101 := by
        rintro rfl
        exact absurd interim (by decide)
      have kind : ctx.classify head = .interim := by
        simp only [ReplyContext.classify, parsed, if_neg switching, interim, if_true]
      have count : (head :: interims).length + left = (interims.length + left) + 1 := by
        rw [List.length_cons]
        omega
      rw [List.flatten_cons, List.append_assoc, count, block.reply, kind]
      exact ih fun head inside => all head (List.mem_cons_of_mem _ inside)

theorem strtol_stated {digits blanks : Bytes} {n : Nat} (number : PlainDecimal digits n)
    (blank : ∀ b ∈ blanks, isOws b = true) : (strtol (digits ++ blanks)).1 = min (n : Int) longMax := by
  obtain ⟨filled, all, rfl⟩ := number
  rw [strtol_digits filled all fun c first => ?_]
  have space := blank c (List.mem_of_mem_head? first)
  simp only [isOws, Bool.or_eq_true, beq_iff_eq] at space
  rcases space with rfl | rfl
  · decide
  · decide

/-- The reply to a final head is capped. -/
theorem FinalHead.reply_caps {head : Bytes} (ctx : ReplyContext) (final : FinalHead head ctx.headRequest)
    (half : ctx.maxBody + headerBudget ≤ 2 ^ 63) (interims : Nat) (rest : Bytes) :
    (findHeader (cString head) clName = none →
      (rest.length ≤ ctx.maxBody → ∃ reply, ctx.reply interims (head ++ rest) = .ok reply ∧
        reply.response.body = rest) ∧
      (ctx.maxBody < rest.length → ctx.reply interims (head ++ rest) = .error .errProtocol)) ∧
    ∀ n, StatesBody head n →
      (n ≤ ctx.maxBody → n ≤ rest.length → ∃ reply, ctx.reply interims (head ++ rest) = .ok reply ∧
        reply.response.body = rest.take n) ∧
      (ctx.maxBody < n → ctx.reply interims (head ++ rest) = .error .errProtocol) := by
  obtain ⟨status, parsed, switching, last, hasBody⟩ := final.status
  have unchunked : (ctx.framing status (cString head)).1 = false := by
    simp only [ReplyContext.framing, hasBody, Bool.false_eq_true, if_false]
    split
    · rename_i te found
      simpa using final.plain te found
    · rfl
  have kind : ctx.classify head =
      if (ctx.framing status (cString head)).2 ≥ 0 ∧
          (ctx.framing status (cString head)).2.toNat > ctx.maxBody then .refused
      else .final (ctx.finalHead status (cString head)) := by
    simp only [ReplyContext.classify, parsed, if_neg switching, last, Bool.false_eq_true, if_false]
    rfl
  have length {value : Option Bytes} (found : findHeader (cString head) clName = value) :
      (ctx.framing status (cString head)).2 = seenLength value := by
    have found' : findHeader (cString head) (ascii "Content-Length") = value := found
    simp only [ReplyContext.framing, hasBody, Bool.false_eq_true, if_false, found']
    rfl
  rw [final.block.reply, kind]
  constructor
  · intro absent
    have none_ : (ctx.framing status (cString head)).2 = -1 := length absent
    have accepted : ¬((-1 : Int) ≥ 0 ∧ (-1 : Int).toNat > ctx.maxBody) := by omega
    rw [none_, if_neg accepted]
    have closing : ctx.body (ctx.finalHead status (cString head)) head.length rest =
        bodyToClose ctx.maxBody rest := by
      have negative : ¬(-1 : Int) ≥ 0 := by decide
      simp only [ReplyContext.body, ReplyContext.finalHead, unchunked, Bool.false_eq_true, if_false, none_,
        if_neg negative]
    dsimp only
    rw [closing, bodyToClose]
    refine ⟨fun fits => ?_, fun long => ?_⟩
    · rw [if_pos fits]
      exact ⟨_, rfl, rfl⟩
    · rw [if_neg (Nat.not_le_of_gt long)]
      rfl
  · rintro n ⟨digits, blanks, found, number, blank⟩
    have stated : (ctx.framing status (cString head)).2 = min (n : Int) longMax :=
      (length found).trans (strtol_stated number blank)
    have largest : longMax = 9223372036854775807 := rfl
    have budget : headerBudget = 8192 := rfl
    rw [stated]
    refine ⟨fun fits arrived => ?_, fun long => ?_⟩
    · have exact_ : min (n : Int) longMax = n := by omega
      have accepted : ¬((n : Int) ≥ 0 ∧ (n : Int).toNat > ctx.maxBody) := by omega
      have sized : ctx.body (ctx.finalHead status (cString head)) head.length rest = bodyOfLength n rest := by
        have positive : (n : Int) ≥ 0 := Int.natCast_nonneg n
        simp only [ReplyContext.body, ReplyContext.finalHead, unchunked, Bool.false_eq_true, if_false,
          stated, exact_, if_pos positive, Int.toNat_natCast]
      rw [exact_, if_neg accepted]
      dsimp only
      rw [sized, bodyOfLength, if_neg (Nat.not_lt_of_le arrived)]
      exact ⟨_, rfl, rfl⟩
    · rw [if_pos (by omega)]

/-! ## The law -/

theorem Answers.caps {maxBody : Nat} {head rest : Bytes} {reply : Except Rc Reply} {rc : Rc}
    {x' : Exchange Wire} (answers : Answers True reply rc x')
    (caps : (findHeader (cString head) clName = none →
        (rest.length ≤ maxBody → ∃ given, reply = .ok given ∧ given.response.body = rest) ∧
        (maxBody < rest.length → reply = .error .errProtocol)) ∧
      ∀ n, StatesBody head n →
        (n ≤ maxBody → n ≤ rest.length → ∃ given, reply = .ok given ∧ given.response.body = rest.take n) ∧
        (maxBody < n → reply = .error .errProtocol)) :
    x'.world.refused = true ∨ CapsBody maxBody head rest rc x'.resp.body := by
  cases answers with
  | refused _ refused => exact .inl refused
  | given _ published =>
      obtain ⟨after, toClose, surplus, same, -⟩ := published.given
      refine .inr ⟨fun absent => ⟨fun fits => ?_, fun long => ?_⟩,
        fun n stated => ⟨fun fits arrived => ?_, fun long => ?_⟩⟩
      · obtain ⟨given, shape, body⟩ := (caps.1 absent).1 fits
        rw [same] at shape
        cases shape
        exact ⟨rfl, body⟩
      · rw [(caps.1 absent).2 long] at same
        cases same
      · obtain ⟨given, shape, body⟩ := (caps.2 n stated).1 fits arrived
        rw [same] at shape
        cases shape
        exact ⟨rfl, body⟩
      · rw [(caps.2 n stated).2 long] at same
        cases same
  | failed _ _ code error =>
      have same := error trivial
      refine .inr ⟨fun absent => ⟨fun fits => ?_, fun long => ?_⟩,
        fun n stated => ⟨fun fits arrived => ?_, fun long => ?_⟩⟩
      · obtain ⟨given, shape, -⟩ := (caps.1 absent).1 fits
        rw [same] at shape
        cases shape
      · rw [(caps.1 absent).2 long] at same
        cases same
        rfl
      · obtain ⟨given, shape, -⟩ := (caps.2 n stated).1 fits arrived
        rw [same] at shape
        cases shape
      · rw [(caps.2 n stated).2 long] at same
        cases same
        rfl

theorem capLaw_of_half {maxBody : Nat} (half : maxBody + headerBudget ≤ 2 ^ 63) : CapLaw maxBody := by
  have range : sizeRange = 2 ^ 64 := rfl
  have limit : rxMax maxBody = maxBody + headerBudget := sizeAdd_eq (by omega)
  refine ⟨limit, fun hdrEnd short n fits => sizeAdd_eq (by omega), fun len need fits => sizeAdd_eq (by omega),
    fun want fits cap => growCap_ends (by omega) ?_, ?_⟩
  · have start : 1 ≤ if cap ≠ 0 then cap else 1024 := by
      split
      · omega
      · decide
    have power : want ≤ 1 * 2 ^ 64 := by omega
    exact power.trans (Nat.mul_le_mul_right _ start)
  · intro now base64EncodeNoNl s req resp r w nb calls sent head rest interims rested plain opened same
      schedule built all few final stream
    subst same
    obtain ⟨rc, x', ran, answers⟩ := drive_reply now base64EncodeNoNl rested plain opened req resp r schedule
    refine ⟨rc, x', ran, ?_⟩
    have uniform := requestHead_uniform (wireEnv_uniform now base64EncodeNoNl) w
      ⟨w.rest, [], false, false⟩ s.base s.keepAlive req
    have reply : exchangeReply now base64EncodeNoNl s req w.rest =
        ReplyContext.reply { now, maxBody := s.maxBody, headRequest := req.method == ascii "HEAD" }
          (maxInterim - interims.length) (head ++ rest) := by
      rw [exchangeReply, ← uniform, built, stream]
      have skipped := reply_interims
        { now, maxBody := s.maxBody, headRequest := req.method == ascii "HEAD" } all
        (maxInterim - interims.length) (head ++ rest)
      rwa [Nat.add_sub_cancel' few] at skipped
    have bounded : s.Bounded := by
      rw [HttpSession.Bounded]
      omega
    have answers' : Answers True (exchangeReply now base64EncodeNoNl s req w.rest) rc x' := by
      cases answers with
      | refused _ refused => exact .refused _ refused
      | given _ published => exact .given _ published
      | failed _ _ code error => exact .failed _ _ code fun _ => error bounded
    rw [reply] at answers'
    exact answers'.caps (FinalHead.reply_caps ⟨now, s.maxBody, req.method == ascii "HEAD"⟩ final half _ rest)

/-- The cap holds exactly up to half the range of `size_t`, the header budget included. -/
theorem capLaw_iff (maxBody : Nat) : CapLaw maxBody ↔ maxBody + headerBudget ≤ 2 ^ 63 := by
  refine ⟨fun law => ?_, capLaw_of_half⟩
  by_contra large
  have endless : growCap (2 ^ 63 + 1) 64 1024 = none := by decide +kernel
  exact law.grows (2 ^ 63 + 1) (by rw [law.limit]; omega) 0 endless

/-- A response that the close of the connection ends. -/
def closedReply : Bytes := ascii "HTTP/1.1 200 K\r\n\r\nab"

/-- The code and the body a blocking call ends with, and whether memory was refused. -/
def fetch (maxBody : Nat) (stream : Bytes) : Option (Rc × Bytes × Bool) :=
  (drive (wireEnv 0 fun _ => none) examplePost 7 false []
    ⟨.opened exampleUrl maxBody, .zero, ⟨stream, [], true, false⟩⟩).map fun (rc, x) =>
      (rc, x.resp.body, x.world.refused)

theorem capLaw_hundred : CapLaw 100 ∧ fetch 100 closedReply = some (.ok, ascii "ab", false) :=
  ⟨(capLaw_iff 100).mpr (by decide), by decide +kernel⟩

/-- With the largest cap the sums wrap and the two bytes are refused; and whatever the memory, the buffer
never grows past half the range. -/
theorem cap_wraps :
    fetch (2 ^ 64 - 1) closedReply = some (.errProtocol, [], false) ∧ rxMax (2 ^ 64 - 1) = 8191 ∧
      growCap (2 ^ 63 + 1) 64 1024 = none :=
  ⟨by decide +kernel, by decide +kernel, by decide +kernel⟩

end WolfCert.Http
